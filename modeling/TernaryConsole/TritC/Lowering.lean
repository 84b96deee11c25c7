import TernaryConsole.TritC.Reader

/-!
# TritC.Lowering — statements as instructions with open targets

Variables live in registers 7 to 24, handed out in the order of first use; register 26 is
scratch. A statement becomes a list of drafts, instructions whose second operand may still be a
label or a distance. Which registers its variables have is settled before, so the drafts are a
function of the statement and of the registers alone.
-/

namespace TernaryConsole

namespace TritC

/-- Why a source does not compile, with the line of the statement at fault. -/
inductive CompileError
  | outOfRegisters (line : Nat) (name : Name)
  | unknownLabel (line : Nat) (label : Name)
  | duplicateLabel (line : Nat) (label : Name)
  | targetOutOfReach (line : Nat) (address : Int)
  deriving DecidableEq, Repr

def CompileError.message : CompileError → String
  | .outOfRegisters line name =>
    "line " ++ Nat.repr line ++ ": no register left for variable `" ++ name ++ "`"
  | .unknownLabel line label => "line " ++ Nat.repr line ++ ": unknown label `" ++ label ++ "`"
  | .duplicateLabel line label =>
    "line " ++ Nat.repr line ++ ": label `" ++ label ++ "` defined twice"
  | .targetOutOfReach line address =>
    "line " ++ Nat.repr line ++ ": jump target " ++ Int.repr address ++
      " is beyond the reach of a 6-trit operand"

/-! ## Registers -/

def firstRegister : Int := 7

/-- How many variables have a register. -/
def registerCount : Nat := 18

/-- The register for comparisons and for results that would overwrite an operand. -/
def scratch : Int := 26

/-- The variables once `name` has a register. -/
def allocate (line : Nat) (allocated : List Name) (name : Name) :
    Except CompileError (List Name) :=
  if name ∈ allocated then .ok allocated
  else if allocated.length < registerCount then .ok (allocated ++ [name])
  else .error (.outOfRegisters line name)

/-- The register of a variable, by its place in the order of first use. -/
def registerOf (allocated : List Name) (name : Name) : Int :=
  firstRegister + allocated.idxOf name

/-! ## Drafts -/

/-- The second operand of a draft. -/
inductive Target
  | value (value : Int)
  | label (name : Name)
  /-- The slot that many slots after this one. -/
  | ahead (slots : Nat)
  deriving DecidableEq, Repr

structure Draft where
  opcode : Opcode
  register : Int
  target : Target
  deriving DecidableEq, Repr

/-- Drafts that put an operand into a register; none if it is there already. -/
def load (registerOf : Name → Int) (register : Int) : Operand → List Draft
  | .literal value => [⟨.set, register, .value value⟩]
  | .variable name =>
    if registerOf name = register then [] else [⟨.cpy, register, .value (registerOf name)⟩]

/-- The jumps after a comparison. The scratch register is zero exactly when both sides agree. -/
def testJumps (target : Name) : Test → List Draft
  | .equal =>
    [⟨.brn, scratch, .ahead 3⟩, ⟨.brp, scratch, .ahead 2⟩, ⟨.jmp, 0, .label target⟩]
  | .notEqual => [⟨.brn, scratch, .label target⟩, ⟨.brp, scratch, .label target⟩]

/-- Drafts for an operation on three registers. If the target is the second operand only, the
result is formed in the scratch register. -/
def combine (target left : Int) (opcode : Opcode) (right : Int) : List Draft :=
  if target = right ∧ target ≠ left then
    [⟨.cpy, scratch, .value left⟩, ⟨opcode, scratch, .value right⟩,
      ⟨.cpy, target, .value scratch⟩]
  else if target ≠ left then
    [⟨.cpy, target, .value left⟩, ⟨opcode, target, .value right⟩]
  else
    [⟨opcode, target, .value right⟩]

def drafts (registerOf : Name → Int) : Statement → List Draft
  | .label _ => []
  | .halt => [⟨.halt, 0, .value 0⟩]
  | .rect => [⟨.rect, 0, .value 0⟩]
  | .branch subject test value target =>
    load registerOf scratch value ++
      ⟨.tri, scratch, .value (registerOf subject)⟩ :: testJumps target test
  | .goto target => [⟨.jmp, 0, .label target⟩]
  | .color red green blue =>
    load registerOf 0 red ++ load registerOf 1 green ++ load registerOf 2 blue
  | .pos x y => load registerOf 3 x ++ load registerOf 4 y
  | .size width height => load registerOf 5 width ++ load registerOf 6 height
  | .out (.variable name) => [⟨.out, registerOf name, .value 0⟩]
  | .out (.literal value) => [⟨.set, scratch, .value value⟩, ⟨.out, scratch, .value 0⟩]
  | .assign target value => load registerOf (registerOf target) value
  | .compute target left operator right =>
    combine (registerOf target) (registerOf left) operator.opcode (registerOf right)

/-! ## Emissions -/

/-- A draft with the line it comes from. The first one of a statement carries its text. -/
structure Emission where
  draft : Draft
  line : Nat
  note : Option String
  deriving DecidableEq, Repr

/-- The emissions of the drafts of one line. -/
def emissions (line : Reader.Line) : List Draft → List Emission
  | [] => []
  | first :: rest =>
    ⟨first, line.number, some (String.ofList line.text)⟩ ::
      rest.map fun draft => ⟨draft, line.number, none⟩

/-- What is known at the start of a line. -/
structure Scope where
  /-- The number of instructions so far. -/
  slots : Nat := 0
  /-- The labels with the slots they mark. -/
  labels : List (Name × Nat) := []
  /-- The variables that have registers, in order. -/
  allocated : List Name := []
  /-- The lines that were no statements. -/
  skipped : Nat := 0
  deriving DecidableEq, Repr

/-- The labels once a statement has defined its own. -/
def define (line : Nat) (scope : Scope) : Statement → Except CompileError (List (Name × Nat))
  | .label name =>
    if (scope.labels.lookup name).isSome then .error (.duplicateLabel line name)
    else .ok ((name, scope.slots) :: scope.labels)
  | _ => .ok scope.labels

/-- The emissions of a line and what is known after it. -/
def lowerLine (scope : Scope) (line : Reader.Line) :
    Except CompileError (List Emission × Scope) :=
  match Reader.statement? line.text with
  | none => .ok ([], { scope with skipped := scope.skipped + 1 })
  | some statement => do
    let labels ← define line.number scope statement
    let allocated ← statement.names.foldlM (allocate line.number) scope.allocated
    let emitted := emissions line (drafts (registerOf allocated) statement)
    return (emitted,
      { scope with slots := scope.slots + emitted.length, labels := labels,
                   allocated := allocated })

/-- The emissions of all lines, up to the first line at fault. -/
def lower (scope : Scope) : List Reader.Line → Except CompileError (List Emission × Scope)
  | [] => .ok ([], scope)
  | line :: rest => do
    let (first, scope) ← lowerLine scope line
    let (others, scope) ← lower scope rest
    return (first ++ others, scope)

end TritC

end TernaryConsole
