import TernaryConsole.InputPorts
import TernaryConsole.Instruction
import TernaryConsole.OutputChannel

/-!
# Machine — everything a running program can observe

A machine owns its memory, registers, program counter, run state and ports. The loader and the
host change it between bursts; `Machine.Step` runs it.
-/

namespace TernaryConsole

inductive RunState
  | running
  | halted
  deriving DecidableEq, Repr

/-- The written form of a run state. -/
def RunState.text : RunState → String
  | .running => "Running"
  | .halted => "Halted"

structure Machine where
  memory : Memory
  registers : Registers
  /-- The address of the next instruction. -/
  pc : Int
  state : RunState
  input : InputPorts
  /-- The number of instructions since the last reset. -/
  cycles : Nat
  output : OutputChannel
  /-- The latest instruction that was executed. -/
  last : Option Instruction

namespace Machine

/-- A running machine with blank memory at the boot address. -/
def initial : Machine :=
  { memory := .blank
    registers := .blank
    pc := Memory.bootAddress
    state := .running
    input := {}
    cycles := 0
    output := .empty
    last := none }

instance : Inhabited Machine := ⟨initial⟩

/-! ## Run state -/

def isHalted (m : Machine) : Bool :=
  m.state == .halted

def isRunning (m : Machine) : Bool :=
  m.state == .running

def halt (m : Machine) : Machine :=
  { m with state := .halted }

def resume (m : Machine) : Machine :=
  { m with state := .running }

/-- Zeroes the processor and its records. Memory, run state and input ports stay. -/
def reset (m : Machine) : Machine :=
  { m with registers := .blank, pc := Memory.bootAddress, cycles := 0, output := .empty,
           last := none }

/-! ## Parts -/

def setRegister (m : Machine) (register : Register) (value : Int) : Machine :=
  { m with registers := m.registers.set register value }

def emit (m : Machine) (value : Int) : Machine :=
  { m with output := m.output.push value }

def drain (m : Machine) : Machine :=
  { m with output := .empty }

/-- The values in the output channel, which are taken out of it. -/
def drainOutput (m : Machine) : List Int × Machine :=
  (m.output.values, m.drain)

def setInput (m : Machine) (input : InputPorts) : Machine :=
  { m with input := input }

/-- A one-line summary of the processor. -/
def summary (m : Machine) : String :=
  let registers := m.registers.nonZero.map fun entry =>
    Register.text entry.1 ++ ": " ++ Int.repr entry.2
  "Machine \x7b state: " ++ m.state.text ++ ", pc: " ++ Int.repr m.pc ++ ", cycles: " ++
    Nat.repr m.cycles ++ ", regs: \x7b" ++ String.intercalate ", " registers ++ "\x7d \x7d"

end Machine

/-- A one-line summary of memory. -/
def Memory.summary (memory : Memory) : String :=
  "Memory \x7b non_zero_cells: " ++ Nat.repr memory.countNonZero ++ ", total_cells: " ++
    Nat.repr Memory.size ++ " \x7d"

end TernaryConsole
