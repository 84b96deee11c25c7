import Mathlib.Tactic.Ring
import TernaryConsole.Proofs.Numeral
import TernaryConsole.Registers

/-!
# Proofs.Word — word arithmetic is arithmetic modulo `3^50`

Every operation on words is the exact integer operation followed by the balanced residue; the
split product is no exception (`mul_eq_bmod`). Words in range are kept by `wrap`, and a quotient of
words needs no reduction at all (`div_of_mem`).
-/

namespace TernaryConsole

namespace Word

/-- The integers that are words. -/
def InRange (value : Int) : Prop :=
  -largest ≤ value ∧ value ≤ largest

theorem modulus_eq_pow : modulus = 3 ^ 50 := by
  decide

/-! ## Wrapping -/

theorem wrap_eq_bmod_pow (value : Int) : wrap value = value.bmod (3 ^ 50) := by
  rw [wrap_eq_bmod, modulus_eq_pow]

theorem wrap_of_mem {value : Int} (h : InRange value) : wrap value = value :=
  if_pos h

theorem wrap_mem (value : Int) : InRange (wrap value) := by
  have hbounds := Numeral.bmod_bounds width value
  rw [wrap_eq_bmod_pow]
  simp only [InRange, largest_eq]
  exact hbounds

/-- A balanced residue is a word already. -/
theorem wrap_bmod (value : Int) : wrap (value.bmod (3 ^ 50)) = value.bmod (3 ^ 50) := by
  rw [← wrap_eq_bmod_pow]
  exact wrap_of_mem (wrap_mem value)

theorem zero_mem : InRange 0 := by
  constructor <;> decide

/-! ## Arithmetic -/

theorem add_eq_bmod (a b : Int) : add a b = (a + b).bmod (3 ^ 50) :=
  wrap_eq_bmod_pow (a + b)

theorem sub_eq_bmod (a b : Int) : sub a b = (a - b).bmod (3 ^ 50) :=
  wrap_eq_bmod_pow (a - b)

theorem negate_eq_bmod (a : Int) : negate a = (-a).bmod (3 ^ 50) :=
  wrap_eq_bmod_pow (-a)

/-- The product taken in two halves is the exact product modulo `3^50`. -/
theorem mul_eq_bmod (a b : Int) : mul a b = (a * b).bmod (3 ^ 50) := by
  have hsplit : wrap b = halfModulus * (wrap b).tdiv halfModulus + (wrap b).tmod halfModulus :=
    (Int.mul_tdiv_add_tmod _ _).symm
  have hsum : wrap a * (wrap b).tdiv halfModulus * halfModulus
      + wrap a * (wrap b).tmod halfModulus = wrap a * wrap b := by
    calc
      wrap a * (wrap b).tdiv halfModulus * halfModulus + wrap a * (wrap b).tmod halfModulus
          = wrap a * (halfModulus * (wrap b).tdiv halfModulus + (wrap b).tmod halfModulus) := by
            ring
      _ = wrap a * wrap b := by rw [← hsplit]
  calc
    mul a b
        = (((wrap a * (wrap b).tdiv halfModulus).bmod (3 ^ 50) * halfModulus).bmod (3 ^ 50)
            + (wrap a * (wrap b).tmod halfModulus).bmod (3 ^ 50)).bmod (3 ^ 50) := by
          simp only [mul, wrap_eq_bmod_pow]
    _ = (wrap a * (wrap b).tdiv halfModulus * halfModulus
            + wrap a * (wrap b).tmod halfModulus).bmod (3 ^ 50) := by
          rw [Int.bmod_add_bmod, Int.add_bmod_bmod, ← Int.bmod_add_bmod, Int.bmod_mul_bmod,
            Int.bmod_add_bmod]
    _ = (a.bmod (3 ^ 50) * b.bmod (3 ^ 50)).bmod (3 ^ 50) := by
          rw [hsum, wrap_eq_bmod_pow, wrap_eq_bmod_pow]
    _ = (a * b).bmod (3 ^ 50) := (Int.mul_bmod a b _).symm

/-- A quotient is never longer than its dividend. -/
theorem tdiv_mem {a : Int} (h : InRange a) (b : Int) : InRange (a.tdiv b) := by
  have hshort := Int.natAbs_tdiv_le_natAbs a b
  simp only [InRange] at h ⊢
  omega

/-- The quotient of a word needs no reduction. -/
theorem div_of_mem {a : Int} (h : InRange a) (b : Int) :
    div a b = if b = 0 then 0 else a.tdiv b := by
  unfold div
  split
  · rfl
  · exact wrap_of_mem (tdiv_mem h b)

theorem div_mem (a b : Int) : InRange (div a b) := by
  unfold div
  split
  · exact zero_mem
  · exact wrap_mem _

/-- A comparison is the sign of the exact difference. -/
theorem compare_eq_sign (a b : Int) : compare a b = (a - b).sign := by
  simp only [compare, Trit.sign]
  rcases Int.lt_trichotomy (a - b) 0 with hneg | hzero | hpos
  · rw [if_pos hneg, Int.sign_eq_neg_one_of_neg hneg]
    rfl
  · rw [hzero]
    rfl
  · rw [if_neg (by omega), if_pos hpos, Int.sign_eq_one_of_pos hpos]
    rfl

theorem compare_mem (a b : Int) : InRange (compare a b) := by
  have hbounds := (Trit.sign (a - b)).toInt_bounds
  have hlargest : (1 : Int) ≤ largest := by decide
  simp only [InRange, compare]
  omega

end Word

namespace Registers

/-- All registers hold words. -/
def InRange (registers : Registers) : Prop :=
  ∀ register, Word.InRange (registers.get register)

theorem inRange_blank : blank.InRange := by
  intro register
  rw [get_blank]
  exact Word.zero_mem

theorem InRange.set {registers : Registers} (h : registers.InRange) (register : Register)
    (value : Int) : (registers.set register value).InRange := by
  intro other
  rw [get_set]
  split
  · exact Word.wrap_mem value
  · exact h other

theorem get_set_same (registers : Registers) (register : Register) (value : Int) :
    (registers.set register value).get register = Word.wrap value := by
  rw [get_set, if_pos rfl]

theorem get_set_of_ne (registers : Registers) {register other : Register} (value : Int)
    (h : register ≠ other) : (registers.set register value).get other = registers.get other := by
  rw [get_set, if_neg h]

end Registers

end TernaryConsole
