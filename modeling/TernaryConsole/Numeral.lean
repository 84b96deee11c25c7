import TernaryConsole.Trit

/-!
# Numeral — runs of balanced digits

A numeral is a list of trits, lowest digit first. `value` reads one, `digits` writes the lowest
digits of an integer, and `text` prints one with the highest digit in front.

The quotient step in `digits` is a floor division plus a carry, so no value on the way is larger
than the number it started from.
-/

namespace TernaryConsole

namespace Numeral

/-- The number of values of a field of `length` digits, the power of three. -/
def modulus : Nat → Int
  | 0 => 1
  | length + 1 => 3 * modulus length

/-- The largest value of a field of `length` digits. -/
def largest (length : Nat) : Int :=
  modulus length / 2

/-- What is left of `value` once its lowest digit is taken away. -/
def rest (value : Int) : Int :=
  value / 3 + if Trit.ofResidue value = .neg then 1 else 0

/-- The lowest `length` digits of a number. -/
def digits : Nat → Int → List Trit
  | 0, _ => []
  | length + 1, value => Trit.ofResidue value :: digits length (rest value)

def value : List Trit → Int
  | [] => 0
  | digit :: run => digit.toInt + 3 * value run

/-- A run printed with the highest digit in front. -/
def text (run : List Trit) : String :=
  String.ofList (run.reverse.map Trit.symbol)

/-! ## Laws -/

theorem toInt_add_rest (v : Int) : (Trit.ofResidue v).toInt + 3 * rest v = v := by
  have split := Int.mul_ediv_add_emod v 3
  have low : 0 ≤ v % 3 := Int.emod_nonneg _ (by decide)
  have high : v % 3 < 3 := Int.emod_lt_of_pos _ (by decide)
  have cases3 : v % 3 = 0 ∨ v % 3 = 1 ∨ v % 3 = 2 := by omega
  rcases cases3 with h | h | h <;> simp [rest, Trit.ofResidue, h, Trit.toInt] <;> omega

@[simp]
theorem length_digits (length : Nat) (v : Int) : (digits length v).length = length := by
  induction length generalizing v with
  | zero => rfl
  | succ length ih => simp [digits, ih]

end Numeral

end TernaryConsole
