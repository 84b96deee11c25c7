import Mathlib.Algebra.Order.Ring.Abs
import TernaryConsole.Proofs.Memory
import TernaryConsole.Proofs.Word

/-!
# Proofs.Overflow — a hundred and twenty-eight bits are enough

Words and fields are computed with two's-complement numbers of 128 bits. `Checked` holds these
computations step by step, and a result on the way that does not fit ends them with `none`. No
such result exists: `Checked.wrap_eq_some`, `Checked.mul_eq_some` and the lemmas beside them say
that the checked computations succeed and agree with `Word`, and `Checked.read_eq_some` and
`Checked.write_eq_some` say the same of `Field`.

Nothing is said about counters of instructions and frames, which only ever grow by one.
-/

namespace TernaryConsole

/-- The integers that a two's-complement number of so many bits can hold. -/
def Fits (bits : Nat) (value : Int) : Prop :=
  -2 ^ (bits - 1) ≤ value ∧ value < 2 ^ (bits - 1)

instance (bits : Nat) (value : Int) : Decidable (Fits bits value) :=
  inferInstanceAs (Decidable (_ ∧ _))

theorem fits_64_iff {value : Int} :
    Fits 64 value ↔ -9223372036854775808 ≤ value ∧ value ≤ 9223372036854775807 := by
  have hpow : (2 : Int) ^ (64 - 1) = 9223372036854775808 := by decide
  simp only [Fits, hpow]
  omega

theorem fits_128_iff {value : Int} :
    Fits 128 value ↔ -170141183460469231731687303715884105728 ≤ value ∧
      value ≤ 170141183460469231731687303715884105727 := by
  have hpow : (2 : Int) ^ (128 - 1) = 170141183460469231731687303715884105728 := by decide
  simp only [Fits, hpow]
  omega

namespace Checked

/-- A result, if it has at most 128 bits. -/
def fit (value : Int) : Option Int :=
  if Fits 128 value then some value else none

theorem fit_of_fits {value : Int} (h : Fits 128 value) : fit value = some value :=
  if_pos h

/-- A result that fits is passed on. -/
theorem fit_bind {α : Type} {value : Int} (h : Fits 128 value) (next : Int → Option α) :
    (fit value >>= next) = next value := by
  rw [fit_of_fits h]
  rfl

/-! ## Words -/

/-- Folds a number into the range of words by its truncated remainder, which is off by one
modulus at most. -/
def wrap (value : Int) : Option Int := do
  let reduced ← fit (value.tmod Word.modulus)
  if Word.largest < reduced then fit (reduced - Word.modulus)
  else if reduced < -Word.largest then fit (reduced + Word.modulus)
  else return reduced

def add (a b : Int) : Option Int := do
  let sum ← fit (a + b)
  wrap sum

def sub (a b : Int) : Option Int := do
  let difference ← fit (a - b)
  wrap difference

def negate (a : Int) : Option Int := do
  let opposite ← fit (-a)
  wrap opposite

/-- The product by two halves of the second factor. -/
def mul (a b : Int) : Option Int := do
  let a ← wrap a
  let b ← wrap b
  let upper ← fit (b.tdiv Word.halfModulus)
  let lower ← fit (b.tmod Word.halfModulus)
  let product ← fit (a * upper)
  let high ← wrap product
  let shifted ← fit (high * Word.halfModulus)
  let high ← wrap shifted
  let product ← fit (a * lower)
  let low ← wrap product
  let sum ← fit (high + low)
  wrap sum

def div (a b : Int) : Option Int :=
  if b = 0 then some 0
  else do
    let quotient ← fit (a.tdiv b)
    wrap quotient

def compare (a b : Int) : Option Int := do
  let difference ← fit (a - b)
  return (Trit.sign difference).toInt

/-! ## Fields -/

/-- Horner's rule over the `length` cells from `address`, from the highest one down. -/
def read (cells : Array Trit) (address : Int) : Nat → Int → Option Int
  | 0, value => some value
  | length + 1, value => do
    let tripled ← fit (value * 3)
    let value ← fit (tripled + (Field.cellAt cells (address + length)).toInt)
    read cells address length value

/-- Stores the lowest `length` digits of `value`, each as it is split off. -/
def write (cells : Array Trit) (address : Int) : Nat → Int → Option (Array Trit)
  | 0, _ => some cells
  | length + 1, value => do
    let digit := Trit.ofResidue value
    let quotient ← fit (value / 3)
    let remaining ← fit (quotient + if digit = .neg then 1 else 0)
    write (Field.putCell cells address digit) (address + 1) length remaining

/-! ## Nothing overflows: words -/

/-- There is room for sums and differences of words. -/
theorem fits_of_le {value : Int} (low : -(2 * Word.largest) ≤ value)
    (high : value ≤ 2 * Word.largest) : Fits 128 value := by
  have hlargest : Word.largest = 358948993845926294385124 := rfl
  exact fits_128_iff.2 ⟨by omega, by omega⟩

theorem fits_of_mem {value : Int} (h : Word.InRange value) : Fits 128 value := by
  obtain ⟨hlow, hhigh⟩ := h
  exact fits_of_le (by omega) (by omega)

/-- The two-sided fold of the truncated remainder is the balanced residue. -/
theorem wrap_eq_some (value : Int) : wrap value = some (Word.wrap value) := by
  have hmodulus : (Word.modulus : Int) = 2 * Word.largest + 1 := Word.modulus_eq
  have hlargest : 0 < Word.largest := by decide
  -- Whatever is congruent and in range is the result.
  have hresult : ∀ r : Int, -Word.largest ≤ r → r ≤ Word.largest →
      (Word.modulus : Int) ∣ r - value → some r = some (Word.wrap value) := by
    intro r hlow hhigh hdvd
    rw [Word.largest_eq] at hlow hhigh
    rw [Word.modulus_eq_numeral] at hdvd
    rw [Word.wrap_eq_bmod_pow]
    exact congrArg some (Numeral.bmod_eq_of_dvd_sub hlow hhigh hdvd).symm
  have hdvd : (Word.modulus : Int) ∣ value.tmod Word.modulus - value := by
    have hsplit := Int.mul_tdiv_add_tmod value Word.modulus
    exact ⟨-(value.tdiv Word.modulus), by rw [Int.mul_neg]; omega⟩
  have hlow : -(Word.modulus : Int) < value.tmod Word.modulus := Int.lt_tmod_of_pos _ (by omega)
  have hhigh : value.tmod Word.modulus < Word.modulus := Int.tmod_lt_of_pos _ (by omega)
  generalize hreduced : value.tmod Word.modulus = reduced at hdvd hlow hhigh
  have hfits : ∀ r : Int, -Word.modulus < r → r < Word.modulus → Fits 128 r :=
    fun r hrlow hrhigh => fits_of_le (by omega) (by omega)
  obtain ⟨quotient, hquotient⟩ := hdvd
  rw [wrap, hreduced, fit_bind (hfits reduced hlow hhigh)]
  by_cases habove : Word.largest < reduced
  · rw [if_pos habove, fit_of_fits (hfits _ (by omega) (by omega))]
    exact hresult _ (by omega) (by omega) ⟨quotient - 1, by rw [Int.mul_sub]; omega⟩
  · by_cases hbelow : reduced < -Word.largest
    · rw [if_neg habove, if_pos hbelow, fit_of_fits (hfits _ (by omega) (by omega))]
      exact hresult _ (by omega) (by omega) ⟨quotient + 1, by rw [Int.mul_add]; omega⟩
    · rw [if_neg habove, if_neg hbelow]
      exact hresult _ (by omega) (by omega) ⟨quotient, hquotient⟩

theorem wrap_bind {α : Type} (value : Int) (next : Int → Option α) :
    (wrap value >>= next) = next (Word.wrap value) := by
  rw [wrap_eq_some]
  rfl

theorem fits_add {a b : Int} (ha : Word.InRange a) (hb : Word.InRange b) : Fits 128 (a + b) := by
  obtain ⟨halow, hahigh⟩ := ha
  obtain ⟨hblow, hbhigh⟩ := hb
  exact fits_of_le (by omega) (by omega)

theorem fits_sub {a b : Int} (ha : Word.InRange a) (hb : Word.InRange b) : Fits 128 (a - b) := by
  obtain ⟨halow, hahigh⟩ := ha
  obtain ⟨hblow, hbhigh⟩ := hb
  exact fits_of_le (by omega) (by omega)

/-- A word times a number of no more than half its digits. -/
theorem fits_mul {a b : Int} (ha : Word.InRange a) (hlow : -Word.halfModulus ≤ b)
    (hhigh : b ≤ Word.halfModulus) : Fits 128 (a * b) := by
  have hlargest : Word.largest = 358948993845926294385124 := rfl
  have hhalf : Word.halfModulus = 847288609443 := rfl
  have hbound : |a * b| ≤ Word.largest * Word.halfModulus := by
    rw [abs_mul]
    exact mul_le_mul (abs_le.2 ha) (abs_le.2 ⟨hlow, hhigh⟩) (abs_nonneg b) (by decide)
  obtain ⟨hprodLow, hprodHigh⟩ := abs_le.1 hbound
  rw [hlargest, hhalf] at hprodLow hprodHigh
  exact fits_128_iff.2 ⟨by omega, by omega⟩

theorem add_eq_some {a b : Int} (ha : Word.InRange a) (hb : Word.InRange b) :
    add a b = some (Word.add a b) := by
  rw [add, fit_bind (fits_add ha hb), wrap_eq_some]
  rfl

theorem sub_eq_some {a b : Int} (ha : Word.InRange a) (hb : Word.InRange b) :
    sub a b = some (Word.sub a b) := by
  rw [sub, fit_bind (fits_sub ha hb), wrap_eq_some]
  rfl

theorem negate_eq_some {a : Int} (ha : Word.InRange a) : negate a = some (Word.negate a) := by
  have hfits := fits_sub Word.zero_mem ha
  rw [Int.zero_sub] at hfits
  rw [negate, fit_bind hfits, wrap_eq_some]
  rfl

/-- The split product needs no more than 128 bits, whatever the factors are. -/
theorem mul_eq_some (a b : Int) : mul a b = some (Word.mul a b) := by
  have hhalf : Word.halfModulus = 847288609443 := rfl
  have hlargest : Word.largest = 358948993845926294385124 := rfl
  have ha := Word.wrap_mem a
  obtain ⟨hlow, hhigh⟩ := Word.wrap_mem b
  -- Both parts of the second factor have half the digits.
  have hlower : -Word.halfModulus ≤ (Word.wrap b).tmod Word.halfModulus ∧
      (Word.wrap b).tmod Word.halfModulus ≤ Word.halfModulus :=
    ⟨Int.le_of_lt (Int.lt_tmod_of_pos _ (by decide)),
      Int.le_of_lt (Int.tmod_lt_of_pos _ (by decide))⟩
  have hupper : -Word.halfModulus ≤ (Word.wrap b).tdiv Word.halfModulus ∧
      (Word.wrap b).tdiv Word.halfModulus ≤ Word.halfModulus := by
    have hsplit := Int.mul_tdiv_add_tmod (Word.wrap b) Word.halfModulus
    rw [hhalf] at hsplit hlower ⊢
    constructor <;> omega
  have hfits : ∀ {v : Int}, -Word.halfModulus ≤ v ∧ v ≤ Word.halfModulus → Fits 128 v :=
    fun h => fits_128_iff.2 ⟨by omega, by omega⟩
  rw [mul, wrap_bind, wrap_bind, fit_bind (hfits hupper), fit_bind (hfits hlower),
    fit_bind (fits_mul ha hupper.1 hupper.2), wrap_bind,
    fit_bind (fits_mul (Word.wrap_mem _) (by decide) (le_refl _)), wrap_bind,
    fit_bind (fits_mul ha hlower.1 hlower.2), wrap_bind,
    fit_bind (fits_add (Word.wrap_mem _) (Word.wrap_mem _)), wrap_eq_some]
  rfl

theorem div_eq_some {a : Int} (ha : Word.InRange a) (b : Int) :
    div a b = some (Word.div a b) := by
  by_cases hzero : b = 0
  · rw [div, Word.div, if_pos hzero, if_pos hzero]
  · rw [div, Word.div, if_neg hzero, if_neg hzero, fit_bind (fits_of_mem (Word.tdiv_mem ha b)),
      wrap_eq_some]

theorem compare_eq_some {a b : Int} (ha : Word.InRange a) (hb : Word.InRange b) :
    compare a b = some (Word.compare a b) := by
  rw [compare, fit_bind (fits_sub ha hb)]
  rfl

/-! ## Nothing overflows: fields -/

theorem largest_le_of_le {length : Nat} (h : length ≤ 80) :
    Numeral.largest length ≤ Numeral.largest 80 := by
  have hpow : (3 : Nat) ^ length ≤ 3 ^ 80 := Nat.pow_le_pow_right (by decide) h
  simp only [Numeral.largest, Numeral.modulus_eq_pow]
  omega

/-- Horner's rule, with the `done` highest cells of the field taken in already. -/
theorem read_eq_some_of_done (cells : Array Trit) (address : Int) (length done : Nat)
    (short : length + done ≤ 80) :
    read cells address length (Field.read cells (address + length) done) =
      some (Field.read cells address (length + done)) := by
  -- By induction on the cells that are left; one more is done after each.
  induction length generalizing done with
  | zero =>
    simp [read]
  | succ length ih =>
    have hfield : Field.read cells (address + length) (done + 1) =
        (Field.cellAt cells (address + length)).toInt +
          3 * Field.read cells (address + ((length + 1 : Nat) : Int)) done := by
      rw [Field.read, show address + (length : Int) + 1 = address + ((length + 1 : Nat) : Int) by
        omega]
    have hnext := ih (done + 1) (by omega)
    rw [show length + (done + 1) = length + 1 + done by omega] at hnext
    have hbounds := Field.read_bounds cells (address + length) (done + 1)
    have hlarge : Numeral.largest (done + 1) ≤ Numeral.largest 80 :=
      largest_le_of_le (by omega)
    have hvalue : Numeral.largest 80 = 73904414707172961658041605103191648800 := by
      rw [Numeral.largest, Numeral.modulus_eq_pow]
      rfl
    have hdigit := (Field.cellAt cells (address + length)).toInt_bounds
    rw [hfield] at hbounds hnext
    rw [read, fit_bind (fits_128_iff.2 ⟨by omega, by omega⟩),
      fit_bind (fits_128_iff.2 ⟨by omega, by omega⟩), ← hnext]
    congr 1
    omega

theorem read_eq_some (cells : Array Trit) (address : Int) {length : Nat} (short : length ≤ 80) :
    read cells address length 0 = some (Field.read cells address length) :=
  read_eq_some_of_done cells address length 0 short

/-- Splitting off digits only makes a number shorter. -/
theorem write_eq_some (cells : Array Trit) (address : Int) (length : Nat) {value : Int}
    (h : Fits 128 value) :
    write cells address length value = some (Field.write cells address length value) := by
  induction length generalizing cells address value with
  | zero => rfl
  | succ length ih =>
    rw [fits_128_iff] at h
    have hsplit := Numeral.toInt_add_rest value
    have hdigit := (Trit.ofResidue value).toInt_bounds
    have hrest : Fits 128 (Numeral.rest value) := fits_128_iff.2 ⟨by omega, by omega⟩
    have hquotient : Fits 128 (value / 3) := fits_128_iff.2 ⟨by omega, by omega⟩
    have hnext := ih (Field.putCell cells address (Trit.ofResidue value)) (address + 1) hrest
    rw [write, fit_bind hquotient]
    exact (fit_bind hrest _).trans hnext

end Checked

end TernaryConsole
