import TernaryConsole.Instruction
import TernaryConsole.Text.Column
import TernaryConsole.TritC.Lowering

/-!
# TritC.Program — compiled programs

Once all lines are lowered, open targets become addresses of a program that starts at the boot
address. A jump operand has six trits, so targets beyond 364 are refused. A compiled program is
printed as assembly text with the statements as comments.
-/

namespace TernaryConsole

namespace TritC

/-! ## Targets -/

/-- The address of a slot, if a jump operand can hold it. -/
def reach (line slot : Nat) : Except CompileError Int :=
  let address := Memory.slotStart Memory.bootAddress slot
  if address ≤ Numeral.largest Instruction.operand2Width then .ok address
  else .error (.targetOutOfReach line address)

/-- The second operand of the emission in a slot. -/
def resolve (labels : List (Name × Nat)) (emission : Emission) (slot : Nat) :
    Except CompileError Int :=
  match emission.draft.target with
  | .value value => .ok value
  | .label name =>
    match labels.lookup name with
    | some marked => reach emission.line marked
    | none => .error (.unknownLabel emission.line name)
  | .ahead slots => reach emission.line (slot + slots)

/-! ## Code -/

/-- An instruction of a compiled program. -/
structure CodeLine where
  opcode : Opcode
  operand1 : Int
  operand2 : Int
  note : Option String
  deriving DecidableEq, Repr

def CodeLine.text (line : CodeLine) : String :=
  let instruction :=
    line.opcode.mnemonic ++ " " ++ Int.repr line.operand1 ++ " " ++ Int.repr line.operand2
  match line.note with
  | some note => Column.left 20 instruction ++ " // " ++ note ++ "\n"
  | none => instruction ++ "\n"

/-- The code of emissions that fill the slots from `slot` on. -/
def link (labels : List (Name × Nat)) (slot : Nat) :
    List Emission → Except CompileError (List CodeLine)
  | [] => .ok []
  | emission :: rest => do
    let operand2 ← resolve labels emission slot
    let others ← link labels (slot + 1) rest
    return ⟨emission.draft.opcode, emission.draft.register, operand2, emission.note⟩ :: others

structure Program where
  code : List CodeLine
  /-- The variables in the order of first use. -/
  allocated : List Name
  /-- The lines with text that were no statements. -/
  skipped : Nat
  deriving DecidableEq, Repr

namespace Program

def instructions (program : Program) : Nat :=
  program.code.length

/-- The variables with their registers. -/
def allocation (program : Program) : List (Name × Int) :=
  program.allocated.map fun name => (name, registerOf program.allocated name)

def header : String :=
  "// Trit-C compiler output\n"

/-- The program as assembly text. -/
def assembly (program : Program) : String :=
  header ++ String.join (program.code.map CodeLine.text)

end Program

/-- Compiles a source. Faults of single lines come before faults of targets. -/
def compile (source : String) : Except CompileError Program := do
  let (emitted, scope) ← lower {} (Reader.lines source)
  let code ← link scope.labels 0 emitted
  return ⟨code, scope.allocated, scope.skipped⟩

end TritC

end TernaryConsole
