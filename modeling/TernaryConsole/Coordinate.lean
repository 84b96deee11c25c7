import TernaryConsole.Text.Decimal

/-!
# Coordinate — positions on the desktop

Coordinates are integers of sixty-four bits. Their sums, differences and products saturate: a
result out of range is replaced by the nearest coordinate.
-/

namespace TernaryConsole

abbrev Coordinate := Int

namespace Coordinate

/-- The least coordinate, `-2^63`. -/
def least : Int := -9223372036854775808

/-- The greatest coordinate, `2^63 - 1`. -/
def greatest : Int := 9223372036854775807

/-- The coordinate nearest to `value`. -/
def clamp (value : Int) : Int :=
  max least (min value greatest)

def add (a b : Coordinate) : Coordinate :=
  clamp (a + b)

def sub (a b : Coordinate) : Coordinate :=
  clamp (a - b)

def mul (a b : Coordinate) : Coordinate :=
  clamp (a * b)

def ofText? (text : List Char) : Option Coordinate :=
  Decimal.between? least greatest text

/-! ## Laws -/

theorem clamp_of_mem {value : Int} (low : least ≤ value) (high : value ≤ greatest) :
    clamp value = value := by
  unfold clamp
  omega

end Coordinate

end TernaryConsole
