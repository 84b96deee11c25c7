import TernaryConsole.Rect

/-!
# Desktop.IconGrid — the grid of icons

Icons are squares on a grid that fills row by row. A row holds as many icons as fit between the
origin and the row width, gaps included, and never less than one.
-/

namespace TernaryConsole

structure IconGrid where
  iconSize : Coordinate := 27
  gap : Coordinate := 9
  originX : Coordinate := 9
  originY : Coordinate := 9
  /-- The coordinate at which a row ends. -/
  rowWidth : Coordinate := 243
  deriving DecidableEq, Repr

namespace IconGrid

/-- The distance between the corners of neighbouring icons. -/
def pitch (grid : IconGrid) : Coordinate :=
  Coordinate.add grid.iconSize grid.gap

/-- The width of a row, with the gap that follows its last icon. -/
def usableWidth (grid : IconGrid) : Coordinate :=
  Coordinate.add (Coordinate.sub grid.rowWidth grid.originX) grid.gap

/-- The number of icons in a row. -/
def columns (grid : IconGrid) : Int :=
  if grid.pitch ≤ 0 then 1 else max 1 (grid.usableWidth.tdiv grid.pitch)

/-- The icon in a slot of the grid. -/
def icon (grid : IconGrid) (slot : Nat) : Rect :=
  let slot := min (slot : Int) Coordinate.greatest
  { x := Coordinate.add grid.originX (Coordinate.mul (slot % grid.columns) grid.pitch)
    y := Coordinate.add grid.originY (Coordinate.mul (slot / grid.columns) grid.pitch)
    width := grid.iconSize
    height := grid.iconSize }

/-! ## Laws -/

theorem columns_pos (grid : IconGrid) : 0 < grid.columns := by
  unfold columns
  split <;> omega

end IconGrid

end TernaryConsole
