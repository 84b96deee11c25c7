import TernaryConsole.Instruction
import TernaryConsole.Text.Column
import TernaryConsole.Text.Decimal

/-!
# Listing — instructions as assembly text

An instruction is printed with the operands that mean something to it. A code without an
operation is printed as question marks and the code, which no assembler reads.
-/

namespace TernaryConsole

namespace Listing

def instruction (i : Instruction) : String :=
  let opcode := i.opcode
  if opcode = .nop then
    "??? " ++ Decimal.write i.code
  else if opcode.role ≠ .none then
    opcode.mnemonic ++ " " ++ Nat.repr i.operand1.val ++ " " ++ Decimal.write i.operand2
  else if opcode.hasOperand1 then
    opcode.mnemonic ++ " " ++ Nat.repr i.operand1.val
  else
    opcode.mnemonic

/-- The instruction stored at an address. -/
def slot (memory : Memory) (start : Int) : String :=
  instruction (Instruction.fetch memory start)

/-- An address as it stands at the start of a line. -/
def address (value : Int) : String :=
  Decimal.zeroPadded 7 value

/-- The fifteen trits of a slot, read as one number and printed with the highest trit in front. -/
def trits (memory : Memory) (start : Int) : String :=
  Numeral.text
    (Numeral.digits Memory.slotWidth (memory.load start Memory.slotWidth))

def line (memory : Memory) (start : Int) : String :=
  address start ++ ": " ++ Column.left 20 (slot memory start) ++ " // " ++ trits memory start ++
    "\n"

def header : String :=
  "// VOID-3 Disassembly\n// -----------------\n\n"

/-- The listing of `count` slots from `base`. -/
def program (memory : Memory) (base : Int) (count : Nat) : String :=
  header ++ String.join ((List.range count).map fun n => line memory (Memory.slotStart base n))

end Listing

end TernaryConsole
