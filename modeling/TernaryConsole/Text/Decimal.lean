/-!
# Text.Decimal — integers in decimal

Numbers are written with the fewest digits and a leading minus where they are negative. They are
read from ASCII digits, any number of leading zeros included; `natural?_write` says that a
written number reads back.
-/

namespace TernaryConsole

namespace Decimal

/-! ## Writing -/

def write (value : Int) : String :=
  Int.repr value

/-- The number written with leading zeros to at least `width` characters, the sign included. -/
def zeroPadded (width : Nat) (value : Int) : String :=
  let sign := if value < 0 then "-" else ""
  let digits := Nat.repr value.natAbs
  sign ++ String.ofList (List.replicate (width - sign.length - digits.length) '0') ++ digits

/-! ## Reading -/

/-- At least one digit and nothing else. -/
def isNumeral (text : List Char) : Bool :=
  !text.isEmpty && text.all Char.isDigit

/-- The sign in front, `true` for a minus, and what follows it. -/
def splitSign : List Char → Bool × List Char
  | '-' :: text => (true, text)
  | '+' :: text => (false, text)
  | text => (false, text)

def natural? (text : List Char) : Option Nat :=
  if isNumeral text then some (Nat.ofDigitChars 10 text 0) else none

/-- A number with an optional plus. -/
def unsigned? : List Char → Option Nat
  | '+' :: text => natural? text
  | text => natural? text

/-- A number with an optional sign. -/
def integer? (text : List Char) : Option Int :=
  let (negative, digits) := splitSign text
  (natural? digits).map fun magnitude => if negative then -magnitude else magnitude

/-- The bound of counts, `2^64`. -/
def countBound : Nat := 18446744073709551616

/-- A number with an optional plus below the bound of counts. -/
def count? (text : List Char) : Option Nat :=
  (unsigned? text).filter (· < countBound)

/-- A number with an optional sign between two bounds, both included. -/
def between? (low high : Int) (text : List Char) : Option Int :=
  (integer? text).filter fun value => low ≤ value && value ≤ high

/-! ## Laws -/

theorem isNumeral_toDigits (n : Nat) : isNumeral (Nat.toDigits 10 n) := by
  have nonempty : (Nat.toDigits 10 n) ≠ [] := by
    intro h
    by_cases small : n < 10
    · simp [Nat.toDigits_of_lt_base small] at h
    · simp [Nat.toDigits_of_base_le (by decide) (Nat.le_of_not_lt small)] at h
  simp only [isNumeral, Bool.and_eq_true, Bool.not_eq_true', List.isEmpty_eq_false_iff,
    List.all_eq_true]
  exact ⟨nonempty, fun c mem => Nat.isDigit_of_mem_toDigits (by decide) (by decide) mem⟩

theorem natural?_write (n : Nat) : natural? (write n).toList = some n := by
  have text : (write n).toList = Nat.toDigits 10 n := by
    simp [write, Int.repr]
  rw [text, natural?, if_pos (isNumeral_toDigits n),
    Nat.ofDigitChars_toDigits (by decide) (by decide)]

end Decimal

end TernaryConsole
