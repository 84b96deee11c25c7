import TernaryConsole.Coordinate

/-!
# Rect — rectangles of coordinates

A rectangle is given by its corner with the smallest coordinates and its two sides. It contains
the points whose distance from that corner is below the side in both directions, so a rectangle
with a side of zero or less is empty.
-/

namespace TernaryConsole

structure Rect where
  x : Coordinate
  y : Coordinate
  width : Coordinate
  height : Coordinate
  deriving DecidableEq, Repr

namespace Rect

def contains (rect : Rect) (px py : Coordinate) : Bool :=
  rect.x ≤ px && rect.y ≤ py && Coordinate.sub px rect.x < rect.width &&
    Coordinate.sub py rect.y < rect.height

/-- Whether both rectangles have positive sides and each begins in front of the other's far
edges. The far edges saturate. -/
def overlaps (a b : Rect) : Bool :=
  0 < a.width && 0 < a.height && 0 < b.width && 0 < b.height &&
    a.x < Coordinate.add b.x b.width && b.x < Coordinate.add a.x a.width &&
    a.y < Coordinate.add b.y b.height && b.y < Coordinate.add a.y a.height

end Rect

end TernaryConsole
