import Mathlib.Algebra.BigOperators.Intervals
import Mathlib.Algebra.BigOperators.Ring.Finset
import Mathlib.Tactic.Ring
import TernaryConsole.Numeral

/-!
# Proofs.Numeral — digits and balanced residues

The balanced residue of `v` modulo `3^n` is `v.bmod (3 ^ n)`, the only number of at most `n` digits
that is congruent to `v`. This module proves:

* `value_digits` : the lowest `n` digits of `v` are an expansion of its balanced residue;
* `digits_value` : a run of digits is the expansion of its own value, so expansions are unique;
* `toInt_digits_getElem` : a digit is what is left of `v` modulo three once the digits below it are
  taken away.
-/

namespace TernaryConsole

namespace Numeral

/-! ## Ranges -/

theorem modulus_eq_pow (length : Nat) : modulus length = ((3 ^ length : Nat) : Int) := by
  induction length with
  | zero => rfl
  | succ length ih =>
    simp only [modulus, ih, Nat.pow_succ]
    push_cast
    ring

/-- The number of values is odd: zero, and as many above it as below. -/
theorem modulus_eq_two_mul_largest (length : Nat) : modulus length = 2 * largest length + 1 := by
  induction length with
  | zero => rfl
  | succ length ih =>
    simp only [largest, modulus] at ih ⊢
    omega

theorem largest_succ (length : Nat) : largest (length + 1) = 3 * largest length + 1 := by
  have hodd := modulus_eq_two_mul_largest length
  simp only [largest, modulus] at hodd ⊢
  omega

/-- Balanced residues are unique: a congruent number in range is the residue. -/
theorem bmod_eq_of_dvd_sub {length : Nat} {v r : Int} (low : -largest length ≤ r)
    (high : r ≤ largest length) (hdvd : modulus length ∣ r - v) : v.bmod (3 ^ length) = r := by
  have hsize : ((3 ^ length : Nat) : Int) = 2 * largest length + 1 := by
    rw [← modulus_eq_pow, modulus_eq_two_mul_largest]
  rw [modulus_eq_pow] at hdvd
  refine (Int.bmod_eq_iff (Nat.pow_pos (by decide))).2 ⟨?_, ?_, ?_⟩
  · omega
  · omega
  · exact hdvd

theorem bmod_bounds (length : Nat) (v : Int) :
    -largest length ≤ v.bmod (3 ^ length) ∧ v.bmod (3 ^ length) ≤ largest length := by
  have hsize : ((3 ^ length : Nat) : Int) = 2 * largest length + 1 := by
    rw [← modulus_eq_pow, modulus_eq_two_mul_largest]
  have hpos : 0 < 3 ^ length := Nat.pow_pos (by decide)
  have hlow := Int.le_bmod (x := v) hpos
  have hhigh := Int.bmod_le (x := v) hpos
  constructor <;> omega

theorem bmod_of_mem {length : Nat} {v : Int} (low : -largest length ≤ v)
    (high : v ≤ largest length) : v.bmod (3 ^ length) = v :=
  bmod_eq_of_dvd_sub low high (by simp)

/-! ## Values -/

/-- The value of a run is the weighted sum of its digits. -/
theorem value_eq_sum (run : List Trit) :
    value run = ∑ i ∈ Finset.range run.length, 3 ^ i * (run.getD i .zero).toInt := by
  -- The lowest digit is the summand that `value` takes off first.
  induction run with
  | nil => rfl
  | cons digit run ih =>
    rw [value, ih, List.length_cons, Finset.sum_range_succ', Finset.mul_sum, add_comm]
    congr 1
    · refine Finset.sum_congr rfl fun i _ => ?_
      rw [List.getD_cons_succ, pow_succ', mul_assoc]
    · simp

/-- A run of digits stays in the range of its length. -/
theorem value_bounds (run : List Trit) :
    -largest run.length ≤ value run ∧ value run ≤ largest run.length := by
  induction run with
  | nil => decide
  | cons digit run ih =>
    have hdigit := digit.toInt_bounds
    simp only [value, List.length_cons, largest_succ]
    constructor <;> omega

theorem modulus_dvd_value_sub (length : Nat) (v : Int) :
    modulus length ∣ value (digits length v) - v := by
  induction length generalizing v with
  | zero => exact one_dvd _
  | succ length ih =>
    -- What is left after the lowest digit is three times what the induction speaks about.
    have hsplit := toInt_add_rest v
    have heq : value (digits (length + 1) v) - v
        = 3 * (value (digits length (rest v)) - rest v) := by
      simp only [digits, value]
      omega
    rw [heq]
    exact mul_dvd_mul_left 3 (ih (rest v))

/-- The lowest digits of a number are an expansion of its balanced residue. -/
theorem value_digits (length : Nat) (v : Int) : value (digits length v) = v.bmod (3 ^ length) := by
  have hbounds := value_bounds (digits length v)
  rw [length_digits] at hbounds
  exact (bmod_eq_of_dvd_sub hbounds.1 hbounds.2 (modulus_dvd_value_sub length v)).symm

/-! ## Uniqueness -/

theorem ofResidue_toInt_add (digit : Trit) (v : Int) :
    Trit.ofResidue (digit.toInt + 3 * v) = digit := by
  apply Trit.toInt_injective
  have hmod := Trit.toInt_ofResidue_emod (digit.toInt + 3 * v)
  have hleft := (Trit.ofResidue (digit.toInt + 3 * v)).toInt_bounds
  have hright := digit.toInt_bounds
  omega

theorem rest_toInt_add (digit : Trit) (v : Int) : rest (digit.toInt + 3 * v) = v := by
  have hsplit := toInt_add_rest (digit.toInt + 3 * v)
  rw [ofResidue_toInt_add] at hsplit
  omega

/-- A run of digits is the expansion of its own value. -/
theorem digits_value (run : List Trit) : digits run.length (value run) = run := by
  induction run with
  | nil => rfl
  | cons digit run ih =>
    simp only [List.length_cons, value, digits, ofResidue_toInt_add, rest_toInt_add, ih]

/-! ## Single digits -/

theorem toInt_ofResidue (v : Int) : (Trit.ofResidue v).toInt = v.bmod 3 := by
  have hrun := value_digits 1 v
  simpa [digits, value] using hrun

/-- Numbers split into the digits below a position and what is left above it. -/
theorem bmod_add_iterate_rest (v : Int) (position : Nat) :
    v.bmod (3 ^ position) + 3 ^ position * rest^[position] v = v := by
  rw [← value_digits]
  induction position generalizing v with
  | zero => simp [digits, value]
  | succ position ih =>
    have htail := ih (rest v)
    have hsplit := toInt_add_rest v
    calc
      value (digits (position + 1) v) + 3 ^ (position + 1) * rest^[position + 1] v
          = (Trit.ofResidue v).toInt
              + 3 * (value (digits position (rest v)) +
                3 ^ position * rest^[position] (rest v)) := by
            simp only [digits, value, Function.iterate_succ, Function.comp_apply]
            ring
      _ = v := by rw [htail, hsplit]

theorem digits_getElem (length : Nat) (v : Int) (position : Nat)
    (h : position < (digits length v).length) :
    (digits length v)[position] = Trit.ofResidue (rest^[position] v) := by
  induction length generalizing v position with
  | zero => simp [digits] at h
  | succ length ih =>
    cases position with
    | zero => rfl
    | succ position =>
      simp only [digits, List.getElem_cons_succ, Function.iterate_succ, Function.comp_apply]
      exact ih (rest v) position _

/-- A digit is the balanced residue modulo three of what lies above the digits below it. -/
theorem toInt_digits_getElem (length : Nat) (v : Int) (position : Nat)
    (h : position < (digits length v).length) :
    (digits length v)[position].toInt = ((v - v.bmod (3 ^ position)) / 3 ^ position).bmod 3 := by
  have hsplit := bmod_add_iterate_rest v position
  have hpos : (3 : Int) ^ position ≠ 0 := pow_ne_zero _ (by decide)
  have habove : v - v.bmod (3 ^ position) = 3 ^ position * rest^[position] v := by omega
  rw [digits_getElem, toInt_ofResidue, habove, Int.mul_ediv_cancel_left _ hpos]

end Numeral

end TernaryConsole
