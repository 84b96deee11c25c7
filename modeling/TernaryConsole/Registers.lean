import TernaryConsole.Word

/-!
# Registers — twenty-seven words

Any integer names a register, by its remainder modulo twenty-seven, and every value that is
stored is folded into the range of words. Register 25 is the stack pointer and register 26 holds
comparisons by convention; registers 0 to 6 are the arguments of a fill.
-/

namespace TernaryConsole

abbrev Register := Fin 27

namespace Register

/-- The register that an operand of any size names. -/
def ofInt (value : Int) : Register :=
  ⟨(value % 27).toNat, by omega⟩

def ofNat (slot : Nat) : Register :=
  ⟨slot % 27, by omega⟩

/-- The register whose value is the offset of the call stack. -/
def stackPointer : Register := ofNat 25

/-- The written form of a register. -/
def text (register : Register) : String :=
  "T" ++ Nat.repr register.val

theorem ofInt_natCast (slot : Nat) : ofInt slot = ofNat slot := by
  apply Fin.ext
  simp only [ofInt, ofNat]
  omega

end Register

structure Registers where
  slots : Vector Int 27
  deriving DecidableEq

namespace Registers

/-- All registers zero. -/
def blank : Registers :=
  ⟨Vector.replicate 27 0⟩

def get (registers : Registers) (register : Register) : Int :=
  registers.slots[register]

def set (registers : Registers) (register : Register) (value : Int) : Registers :=
  ⟨registers.slots.set register (Word.wrap value)⟩

/-- The registers that are not zero with their values, in ascending order. -/
def nonZero (registers : Registers) : List (Register × Int) :=
  ((List.finRange 27).map fun register => (register, registers.get register)).filter
    fun entry => entry.2 ≠ 0

instance : Inhabited Registers := ⟨blank⟩

/-! ## Laws -/

theorem get_blank (register : Register) : blank.get register = 0 := by
  simp [blank, get]

theorem get_set (registers : Registers) (register other : Register) (value : Int) :
    (registers.set register value).get other =
      if register = other then Word.wrap value else registers.get other := by
  simp only [get, set, Fin.getElem_fin, Vector.getElem_set, Fin.ext_iff]

end Registers

end TernaryConsole
