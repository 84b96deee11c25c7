import TernaryConsole.Machine
import TernaryConsole.Text.Column
import TernaryConsole.Text.Quoted

/-!
# Cli.Report — the state of a machine after a run

A report is printed as a table or as an indented document. Words do not fit the numbers of
documents, so the values of registers and the output are quoted there.
-/

namespace TernaryConsole

namespace Cli

structure Report where
  program : String
  frames : Nat
  cycles : Nat
  state : RunState
  pc : Int
  /-- The registers that are not zero. -/
  registers : List (Register × Int)
  output : List Int
  deriving DecidableEq, Repr

namespace Report

def ofMachine (program : String) (frames : Nat) (m : Machine) : Report :=
  { program := program
    frames := frames
    cycles := m.cycles
    state := m.state
    pc := m.pc
    registers := m.registers.nonZero
    output := m.output.values }

/-! ## As a table -/

def registerRow (entry : Register × Int) : String :=
  "  T" ++ Column.left 2 (Nat.repr entry.1.val) ++ " = " ++ Int.repr entry.2 ++ "\n"

def registerRows (report : Report) : String :=
  if report.registers.isEmpty then "Registers: all zero\n"
  else "Registers:\n" ++ String.join (report.registers.map registerRow)

def outputRow (report : Report) : String :=
  if report.output.isEmpty then ""
  else "Output: " ++ String.intercalate " " (report.output.map Int.repr) ++ "\n"

/-- What is said about a machine that has not halted. -/
def warning (report : Report) : String :=
  if report.state = .running then
    "\n⚠️  Still running after " ++ Nat.repr report.frames ++
      " frames. Use --frames to increase.\n"
  else ""

def table (report : Report) : String :=
  "\n━━━ Result ━━━\nFrames: " ++ Nat.repr report.frames ++ "\nCycles: " ++
    Nat.repr report.cycles ++ "\nState:  " ++ report.state.text ++ "\nPC:     " ++
    Int.repr report.pc ++ "\n" ++ report.registerRows ++ report.outputRow ++ report.warning

/-! ## As a document -/

/-- A list with its items on lines of their own. -/
def block (indent : String) (items : List String) : String :=
  if items.isEmpty then "[]"
  else "[\n" ++ String.intercalate ",\n" (items.map fun item => indent ++ "  " ++ item) ++ "\n" ++
    indent ++ "]"

def registerItem (entry : Register × Int) : String :=
  block "    " [Nat.repr entry.1.val, Quoted.write (Int.repr entry.2)]

def document (report : Report) : String :=
  "\x7b\n  \"program\": " ++ Quoted.write report.program ++ ",\n  \"frames\": " ++
    Nat.repr report.frames ++ ",\n  \"cycles\": " ++ Nat.repr report.cycles ++
    ",\n  \"state\": " ++ Quoted.write report.state.text ++ ",\n  \"pc\": " ++
    Int.repr report.pc ++ ",\n  \"registers\": " ++
    block "  " (report.registers.map registerItem) ++ ",\n  \"output\": " ++
    block "  " (report.output.map fun value => Quoted.write (Int.repr value)) ++ "\n\x7d\n"

def text (report : Report) (json : Bool) : String :=
  if json then report.document else report.table

end Report

end Cli

end TernaryConsole
