/-!
# Trit — balanced ternary digits

A trit is minus one, zero or one. Memory is a run of trits, numbers are runs of trits with the
lowest digit first, and comparisons answer with a trit.

`ofResidue` picks the digit that a number leaves modulo three; `toInt_ofResidue_emod` says that it
is that digit.
-/

namespace TernaryConsole

inductive Trit
  | neg
  | zero
  | pos
  deriving DecidableEq, Repr

namespace Trit

instance : Inhabited Trit := ⟨.zero⟩

/-- All digits in ascending order. -/
def all : List Trit := [.neg, .zero, .pos]

/-! ## Values -/

def toInt : Trit → Int
  | .neg => -1
  | .zero => 0
  | .pos => 1

/-- The digit with exactly this value. -/
def ofInt? (value : Int) : Option Trit :=
  all.find? fun digit => digit.toInt = value

/-- The digit congruent to `value` modulo three. -/
def ofResidue (value : Int) : Trit :=
  match value % 3 with
  | 0 => .zero
  | 1 => .pos
  | _ => .neg

/-- The sign of `value` as a digit. -/
def sign (value : Int) : Trit :=
  if value < 0 then .neg else if 0 < value then .pos else .zero

def negate : Trit → Trit
  | .neg => .pos
  | .zero => .zero
  | .pos => .neg

def isZero (digit : Trit) : Bool :=
  digit == .zero

/-! ## Written forms -/

/-- The character that stands for a digit in a printed run. -/
def symbol : Trit → Char
  | .neg => '-'
  | .zero => '0'
  | .pos => '+'

/-- The one-letter name of a digit. -/
def letter : Trit → Char
  | .neg => 'N'
  | .zero => 'O'
  | .pos => 'P'

def ofSymbol? (c : Char) : Option Trit :=
  all.find? fun digit => digit.symbol = c

/-! ## Laws -/

@[simp]
theorem negate_negate (digit : Trit) : digit.negate.negate = digit := by
  cases digit <;> rfl

@[simp]
theorem toInt_negate (digit : Trit) : digit.negate.toInt = -digit.toInt := by
  cases digit <;> rfl

theorem toInt_injective {a b : Trit} (h : a.toInt = b.toInt) : a = b := by
  cases a <;> cases b <;> simp_all [toInt]

theorem ofInt?_toInt (digit : Trit) : ofInt? digit.toInt = some digit := by
  cases digit <;> rfl

theorem toInt_bounds (digit : Trit) : -1 ≤ digit.toInt ∧ digit.toInt ≤ 1 := by
  cases digit <;> decide

theorem toInt_ofResidue_emod (value : Int) : (ofResidue value).toInt % 3 = value % 3 := by
  have low : 0 ≤ value % 3 := Int.emod_nonneg _ (by decide)
  have high : value % 3 < 3 := Int.emod_lt_of_pos _ (by decide)
  have cases3 : value % 3 = 0 ∨ value % 3 = 1 ∨ value % 3 = 2 := by omega
  rcases cases3 with h | h | h <;> simp [ofResidue, h, toInt]

end Trit

end TernaryConsole
