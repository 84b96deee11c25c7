import TernaryConsole.Memory
import TernaryConsole.Opcode
import TernaryConsole.Registers

/-!
# Instruction — fifteen-trit instructions

An instruction is stored as a code of four trits, a first operand of five and a second operand of
six, in this order from the lowest address. The first operand always names a register; what the
second one means depends on the operation.
-/

namespace TernaryConsole

structure Instruction where
  /-- The stored code, kept because unassigned codes are printed. -/
  code : Int
  operand1 : Register
  operand2 : Int
  deriving DecidableEq, Repr

namespace Instruction

def codeWidth : Nat := 4

def operand1Width : Nat := 5

def operand2Width : Nat := 6

/-- The instruction with these three field values. -/
def ofFields (code operand1 operand2 : Int) : Instruction :=
  ⟨code, Register.ofInt operand1, operand2⟩

def opcode (instruction : Instruction) : Opcode :=
  Opcode.ofCode instruction.code

/-- The register that the second operand names. -/
def source (instruction : Instruction) : Register :=
  Register.ofInt instruction.operand2

/-! ## In memory -/

def fetch (memory : Memory) (address : Int) : Instruction :=
  ofFields (memory.load address codeWidth)
    (memory.load (address + 4) operand1Width)
    (memory.load (address + 9) operand2Width)

/-- Stores three field values; a value outside its field loses its high trits. -/
def store (memory : Memory) (address code operand1 operand2 : Int) : Memory :=
  ((memory.store address codeWidth code).store (address + 4) operand1Width
    operand1).store (address + 9) operand2Width operand2

end Instruction

end TernaryConsole
