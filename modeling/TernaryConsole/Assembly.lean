import TernaryConsole.Instruction
import TernaryConsole.Text.Decimal
import TernaryConsole.Text.Search

/-!
# Assembly — program text

One instruction a line: a mnemonic in any case and up to two numbers. Comments start at `//` or
`;`. No text is refused: a line whose first word is no mnemonic takes no space, and an operand
that is missing or no number is zero.

`operations` reads a text. `Memory.assemble` goes through it once and stores each operation in the
slot behind the one before.
-/

namespace TernaryConsole

namespace Assembly

/-- What one line of program text says. -/
structure Operation where
  opcode : Opcode
  operand1 : Int
  operand2 : Int
  deriving DecidableEq, Repr

/-! ## Lines -/

/-- A line without its comment. -/
def code : List Char → List Char
  | [] => []
  | '/' :: '/' :: _ => []
  | ';' :: _ => []
  | c :: line => c :: code line

/-- The residue of a row of digits modulo the word modulus. Every digit is folded in at once, so
the length of the row does not matter. -/
def magnitude (digits : List Char) : Nat :=
  digits.foldl (fun value c => (10 * value + (c.toNat - '0'.toNat)) % Word.modulus) 0

def number (word : List Char) : Int :=
  let (negative, digits) := Decimal.splitSign word
  if Decimal.isNumeral digits then
    Word.wrap (if negative then -magnitude digits else magnitude digits)
  else
    0

/-- The operand at a position among the words after the mnemonic. -/
def operand (words : List (List Char)) (position : Nat) : Int :=
  match words[position]? with
  | some word => number word
  | none => 0

/-- The operation of a line. -/
def operation? (line : List Char) : Option Operation :=
  match Text.words (code line) with
  | [] => none
  | name :: operands =>
    (Opcode.ofMnemonic? name).map fun opcode => ⟨opcode, operand operands 0, operand operands 1⟩

/-- Whether a line is blank up to a comment. -/
def isBlankLine (line : List Char) : Bool :=
  (Text.trim (code line)).isEmpty

/-! ## Programs -/

/-- The operations of a program text, in order. -/
def operations (source : String) : List Operation :=
  (Text.lines source.toList).filterMap operation?

/-- What assembling did. -/
structure Report where
  /-- The address of the first instruction. -/
  base : Int
  instructions : Nat
  /-- The lines with text that named no operation. -/
  skipped : Nat
  /-- The address behind the last instruction. -/
  stop : Int
  deriving DecidableEq, Repr

/-- The code that is stored for an operation. -/
def Operation.code (operation : Operation) : Int :=
  operation.opcode.code?.getD 0

/-- Stores an operation in the slot at `address`. -/
def place (memory : Memory) (address : Int) (operation : Operation) : Memory :=
  Instruction.store memory address operation.code operation.operand1 operation.operand2

/-- Takes one line in: its operation goes into the slot at which the report stops. -/
def addLine (state : Memory × Report) (line : List Char) : Memory × Report :=
  let (memory, report) := state
  if isBlankLine line then
    (memory, report)
  else
    match operation? line with
    | some operation =>
      (place memory report.stop operation,
        { report with instructions := report.instructions + 1, stop := report.stop + 15 })
    | none => (memory, { report with skipped := report.skipped + 1 })

end Assembly

/-- Stores the program text from `base` on. -/
def Memory.assemble (memory : Memory) (source : String) (base : Int) :
    Memory × Assembly.Report :=
  (Text.lines source.toList).foldl Assembly.addLine (memory, ⟨base, 0, 0, base⟩)

end TernaryConsole
