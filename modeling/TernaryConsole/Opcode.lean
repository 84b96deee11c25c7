/-!
# Opcode — the operations of the machine

Eighteen operations are assigned. Each has a code, which fits four trits, and a mnemonic. Every
other code means `nop`, which has neither.
-/

namespace TernaryConsole

inductive Opcode
  | halt
  | add
  | sub
  | mul
  | div
  | neg
  | set
  | cpy
  | jmp
  | brn
  | brp
  | tri
  | call
  | ret
  | rect
  | pollMouse
  | pollKey
  | out
  | nop
  deriving DecidableEq, Repr

/-- What the second operand of an operation means. -/
inductive OperandRole
  | none
  | immediate
  | register
  | address
  | selector
  deriving DecidableEq, Repr

namespace Opcode

/-! ## Codes -/

/-- The assigned operations by ascending code. -/
def assigned : List Opcode :=
  [.halt, .add, .sub, .mul, .div, .neg, .set, .cpy, .jmp, .brn, .brp, .tri, .call, .ret, .rect,
    .pollMouse, .pollKey, .out]

/-- The code that is written for an operation. -/
def code? : Opcode → Option Int
  | .halt => some 0
  | .add => some 1
  | .sub => some 2
  | .mul => some 3
  | .div => some 4
  | .neg => some 6
  | .set => some 11
  | .cpy => some 12
  | .jmp => some 20
  | .brn => some 21
  | .brp => some 22
  | .tri => some 23
  | .call => some 24
  | .ret => some 25
  | .rect => some 30
  | .pollMouse => some 31
  | .pollKey => some 32
  | .out => some 40
  | .nop => none

/-- The operation of a code. Code 45 is a second code of `halt`, out of reach of four trits. -/
def ofCode (code : Int) : Opcode :=
  match code with
  | 0 => .halt
  | 45 => .halt
  | 1 => .add
  | 2 => .sub
  | 3 => .mul
  | 4 => .div
  | 6 => .neg
  | 11 => .set
  | 12 => .cpy
  | 20 => .jmp
  | 21 => .brn
  | 22 => .brp
  | 23 => .tri
  | 24 => .call
  | 25 => .ret
  | 30 => .rect
  | 31 => .pollMouse
  | 32 => .pollKey
  | 40 => .out
  | _ => .nop

/-! ## Mnemonics -/

def mnemonic : Opcode → String
  | .halt => "HALT"
  | .add => "ADD"
  | .sub => "SUB"
  | .mul => "MUL"
  | .div => "DIV"
  | .neg => "NEG"
  | .set => "SET"
  | .cpy => "CPY"
  | .jmp => "JMP"
  | .brn => "BRN"
  | .brp => "BRP"
  | .tri => "TRI"
  | .call => "CALL"
  | .ret => "RET"
  | .rect => "RECT"
  | .pollMouse => "POLL_MOUSE"
  | .pollKey => "POLL_KEY"
  | .out => "OUT"
  | .nop => "NOP"

/-- Older mnemonics that are still read. -/
def aliases : List (String × Opcode) :=
  [("HLT", .halt), ("SLP", .halt), ("WAK", .set), ("CAL", .call)]

/-- The assigned operation of a mnemonic or alias, in any case. -/
def ofMnemonic? (name : List Char) : Option Opcode :=
  let upper := String.ofList (name.map Char.toUpper)
  (aliases.lookup upper).or (assigned.find? fun opcode => opcode.mnemonic = upper)

/-! ## Operands -/

def role : Opcode → OperandRole
  | .add | .sub | .mul | .div | .cpy | .tri => .register
  | .set | .pollKey => .immediate
  | .jmp | .brn | .brp | .call => .address
  | .pollMouse => .selector
  | .halt | .neg | .ret | .rect | .out | .nop => .none

/-- Whether the first operand has a meaning. -/
def hasOperand1 : Opcode → Bool
  | .halt | .jmp | .call | .ret | .rect | .nop => false
  | _ => true

/-! ## Laws -/

theorem mem_assigned_iff (opcode : Opcode) : opcode ∈ assigned ↔ opcode ≠ .nop := by
  cases opcode <;> decide

theorem ofCode_of_code? {opcode : Opcode} {code : Int} (h : opcode.code? = some code) :
    ofCode code = opcode := by
  cases opcode <;> simp_all [code?] <;> subst h <;> rfl

end Opcode

end TernaryConsole
