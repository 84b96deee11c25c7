import TernaryConsole.Numeral

/-!
# Word — register values of fifty trits

A word is an integer between `-largest` and `largest`. Every operation computes with integers and
folds its result back with `wrap`, which is the balanced residue modulo `3^50`
(`wrap_eq_bmod`). The product is taken in two halves of twenty-five trits, so that no
intermediate value is longer than a hundred and one bits.
-/

namespace TernaryConsole

namespace Word

/-- The number of trits in a word. -/
def width : Nat := 50

/-- The number of words, `3^50`. -/
def modulus : Nat := 717897987691852588770249

def largest : Int := 358948993845926294385124

/-- The weight at which a factor is split in two, `3^25`. -/
def halfModulus : Int := 847288609443

/-- Folds a number into the range of words; a number in range is kept. -/
def wrap (value : Int) : Int :=
  if -largest ≤ value ∧ value ≤ largest then value else Int.bmod value modulus

/-! ## Arithmetic -/

def add (a b : Int) : Int :=
  wrap (a + b)

def sub (a b : Int) : Int :=
  wrap (a - b)

def negate (a : Int) : Int :=
  wrap (-a)

def mul (a b : Int) : Int :=
  let a := wrap a
  let b := wrap b
  let high := wrap (a * b.tdiv halfModulus)
  wrap (wrap (high * halfModulus) + wrap (a * b.tmod halfModulus))

/-- Division towards zero; a zero divisor gives zero. -/
def div (a b : Int) : Int :=
  if b = 0 then 0 else wrap (a.tdiv b)

/-- The sign of the difference. -/
def compare (a b : Int) : Int :=
  (Trit.sign (a - b)).toInt

/-! ## Laws -/

theorem modulus_eq : (modulus : Int) = 2 * largest + 1 := by
  decide

theorem largest_eq : largest = Numeral.largest width := rfl

theorem modulus_eq_numeral : (modulus : Int) = Numeral.modulus width := rfl

theorem halfModulus_mul_self : halfModulus * halfModulus = modulus := rfl

theorem wrap_eq_bmod (value : Int) : wrap value = Int.bmod value modulus := by
  unfold wrap
  split
  · next h =>
    have size : (modulus : Int) = 2 * largest + 1 := modulus_eq
    rw [Int.bmod_eq_of_le] <;> omega
  · rfl

end Word

end TernaryConsole
