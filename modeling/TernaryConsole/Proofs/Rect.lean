import TernaryConsole.Proofs.Overflow
import TernaryConsole.Rect

/-!
# Proofs.Rect — points that rectangles share

Containment is exact: saturation changes none of the differences that it compares
(`contains_iff`). The far edges that overlapping compares saturate at the greatest coordinate, and a
corner in the last column or the last row is not in front of that. So two rectangles overlap if they
share a point and neither corner lies there (`overlap_of_inRange`). Rectangles that meet in the last
column or row only do not overlap, not even such a rectangle and itself
(`not_forall_overlaps_iff_shared`).
-/

namespace TernaryConsole

namespace Rect

/-! ## Points -/

theorem contains_iff {rect : Rect} (hwidth : rect.width ≤ Coordinate.greatest)
    (hheight : rect.height ≤ Coordinate.greatest) (px py : Int) :
    rect.contains px py = true ↔
      (rect.x ≤ px ∧ px < rect.x + rect.width) ∧ (rect.y ≤ py ∧ py < rect.y + rect.height) := by
  simp only [contains, Bool.and_eq_true, decide_eq_true_eq]
  simp only [Coordinate.sub, Coordinate.clamp, Coordinate.least, Coordinate.greatest,
    Coordinate] at *
  omega

/-- The fields of a rectangle are coordinates. -/
structure InRange (rect : Rect) : Prop where
  x : Fits 64 rect.x
  y : Fits 64 rect.y
  width : Fits 64 rect.width
  height : Fits 64 rect.height

/-- The corner of a rectangle lies neither in the last column nor in the last row. -/
structure Inner (rect : Rect) : Prop where
  x : rect.x < Coordinate.greatest
  y : rect.y < Coordinate.greatest

/-- A point that two rectangles contain. -/
structure Shared (a b : Rect) (px py : Int) : Prop where
  x : Fits 64 px
  y : Fits 64 py
  left : a.contains px py = true
  right : b.contains px py = true

/-! ## One direction -/

/-- A coordinate in two stretches, each given by its start and its length. -/
structure Between (start length other extent p : Int) : Prop where
  fits : Fits 64 p
  left : start ≤ p ∧ p < start + length
  right : other ≤ p ∧ p < other + extent

/-- Stretches that share a coordinate share the later start. -/
theorem Between.later {start length other extent p : Int} (hstart : Fits 64 start)
    (hother : Fits 64 other) (h : Between start length other extent p) :
    Between start length other extent (max start other) := by
  have hleft := h.left
  have hright := h.right
  rw [fits_64_iff] at hstart hother
  exact ⟨fits_64_iff.2 (by omega), by omega, by omega⟩

/-- Stretches that begin in front of the saturated ends of each other share the later start, which
is not the greatest coordinate. -/
theorem meets_iff {start length other extent : Int} (hstart : Fits 64 start)
    (hother : Fits 64 other) :
    (0 < length ∧ 0 < extent ∧ start < Coordinate.add other extent ∧
        other < Coordinate.add start length) ↔
      Between start length other extent (max start other) ∧
        max start other < Coordinate.greatest := by
  rw [fits_64_iff] at hstart hother
  simp only [Coordinate.add, Coordinate.clamp, Coordinate.least, Coordinate.greatest]
  -- An end that saturates has all coordinates but the greatest in front of it, and so has the
  -- exact one.
  constructor
  · intro h
    exact ⟨⟨fits_64_iff.2 (by omega), by omega, by omega⟩, by omega⟩
  · rintro ⟨⟨-, hleft, hright⟩, hmax⟩
    omega

/-! ## Both directions -/

theorem overlaps_comm (a b : Rect) : a.overlaps b = b.overlaps a := by
  unfold overlaps
  ac_rfl

section

variable {a b : Rect} (ha : a.InRange) (hb : b.InRange)

include ha hb

theorem shared_iff (px py : Int) :
    Shared a b px py ↔
      Between a.x a.width b.x b.width px ∧ Between a.y a.height b.y b.height py := by
  have hleft := contains_iff (fits_64_iff.1 ha.width).2 (fits_64_iff.1 ha.height).2 px py
  have hright := contains_iff (fits_64_iff.1 hb.width).2 (fits_64_iff.1 hb.height).2 px py
  constructor
  · rintro ⟨hx, hy, hpa, hpb⟩
    rw [hleft] at hpa
    rw [hright] at hpb
    exact ⟨⟨hx, hpa.1, hpb.1⟩, hy, hpa.2, hpb.2⟩
  · rintro ⟨hx, hy⟩
    exact ⟨hx.fits, hy.fits, hleft.2 ⟨hx.left, hy.left⟩, hright.2 ⟨hx.right, hy.right⟩⟩

/-- Rectangles that share a point share the corner of their common part. -/
theorem Shared.corner {px py : Int} (h : Shared a b px py) :
    Shared a b (max a.x b.x) (max a.y b.y) := by
  obtain ⟨hx, hy⟩ := (shared_iff ha hb px py).1 h
  exact (shared_iff ha hb _ _).2 ⟨hx.later ha.x hb.x, hy.later ha.y hb.y⟩

/-- Two rectangles overlap if the corner of their common part is a point that they share, in front
of the last column and the last row. -/
theorem overlaps_iff_corner :
    a.overlaps b = true ↔
      Shared a b (max a.x b.x) (max a.y b.y) ∧
        max a.x b.x < Coordinate.greatest ∧ max a.y b.y < Coordinate.greatest := by
  -- The comparisons sorted by direction; each direction is a pair of stretches.
  have hsides : a.overlaps b = true ↔
      (0 < a.width ∧ 0 < b.width ∧ a.x < Coordinate.add b.x b.width ∧
          b.x < Coordinate.add a.x a.width) ∧
        (0 < a.height ∧ 0 < b.height ∧ a.y < Coordinate.add b.y b.height ∧
          b.y < Coordinate.add a.y a.height) := by
    simp only [overlaps, Bool.and_eq_true, decide_eq_true_eq]
    tauto
  rw [hsides, shared_iff ha hb, meets_iff ha.x hb.x, meets_iff ha.y hb.y]
  tauto

end

/-! ## The law -/

/-- When rectangles overlap. -/
structure Overlap (a b : Rect) : Prop where
  /-- Any shared point is enough where neither corner lies in the last column or the last row. -/
  shared : a.Inner → b.Inner → (a.overlaps b = true ↔ ∃ px py, Shared a b px py)
  /-- A rectangle with its corner there overlaps none. -/
  missed : ¬ (a.Inner ∧ b.Inner) → a.overlaps b = false
  /-- For any two rectangles, a shared point in front of the last column and the last row is
  enough. -/
  inFront : a.overlaps b = true ↔
    ∃ px py, Shared a b px py ∧ px < Coordinate.greatest ∧ py < Coordinate.greatest
  comm : a.overlaps b = b.overlaps a
  self : a.Inner → ∀ px py, Fits 64 px → Fits 64 py → a.contains px py = true →
    a.overlaps a = true

theorem overlaps_iff_inner {a b : Rect} (ha : a.InRange) (hb : b.InRange) :
    a.overlaps b = true ↔ (∃ px py, Shared a b px py) ∧ a.Inner ∧ b.Inner := by
  rw [overlaps_iff_corner ha hb, max_lt_iff, max_lt_iff]
  constructor
  · rintro ⟨hshared, ⟨hax, hbx⟩, hay, hby⟩
    exact ⟨⟨_, _, hshared⟩, ⟨hax, hay⟩, hbx, hby⟩
  · rintro ⟨⟨px, py, hshared⟩, hinner, hother⟩
    exact ⟨hshared.corner ha hb, ⟨hinner.x, hother.x⟩, hinner.y, hother.y⟩

theorem overlap_of_inRange {a b : Rect} (ha : a.InRange) (hb : b.InRange) : Overlap a b where
  shared := by
    intro hinner hother
    rw [overlaps_iff_inner ha hb, and_iff_left ⟨hinner, hother⟩]
  missed := by
    intro hcorner
    rw [Bool.eq_false_iff, ne_eq, overlaps_iff_inner ha hb]
    exact fun h => hcorner h.2
  inFront := by
    constructor
    · intro hoverlaps
      exact ⟨_, _, (overlaps_iff_corner ha hb).1 hoverlaps⟩
    · rintro ⟨px, py, hshared, hpx, hpy⟩
      obtain ⟨hx, hy⟩ := (shared_iff ha hb px py).1 hshared
      -- A corner is not behind any point of its rectangle.
      exact (overlaps_iff_inner ha hb).2 ⟨⟨px, py, hshared⟩,
        ⟨lt_of_le_of_lt hx.left.1 hpx, lt_of_le_of_lt hy.left.1 hpy⟩,
        lt_of_le_of_lt hx.right.1 hpx, lt_of_le_of_lt hy.right.1 hpy⟩
  comm := overlaps_comm a b
  self := by
    intro hinner px py hpx hpy hcontains
    exact (overlaps_iff_inner ha ha).2 ⟨⟨px, py, hpx, hpy, hcontains, hcontains⟩, hinner, hinner⟩

/-- A rectangle far to the right, the far edge of which saturates, and one in its first column. -/
theorem overlap_of_inRange_far :
    let a : Rect := ⟨9223372036854775806, 0, 9223372036854775807, 10⟩
    let b : Rect := ⟨9223372036854775806, 5, 1, 1⟩
    a.InRange ∧ b.InRange ∧ Overlap a b := by
  intro a b
  have ha : a.InRange := ⟨by decide, by decide, by decide, by decide⟩
  have hb : b.InRange := ⟨by decide, by decide, by decide, by decide⟩
  exact ⟨ha, hb, overlap_of_inRange ha hb⟩

/-- The rectangle of one point in the last column shares that point with itself and does not
overlap itself. -/
theorem not_forall_overlaps_iff_shared :
    ¬ ∀ a b : Rect, a.InRange → b.InRange →
      (a.overlaps b = true ↔ ∃ px py, Shared a b px py) := by
  intro hall
  let last : Rect := ⟨9223372036854775807, 0, 1, 1⟩
  have hlast : last.InRange := ⟨by decide, by decide, by decide, by decide⟩
  have hshared : Shared last last 9223372036854775807 0 :=
    ⟨by decide, by decide, by decide, by decide⟩
  have hoverlaps := (hall last last hlast hlast).2 ⟨_, _, hshared⟩
  exact absurd hoverlaps (by decide)

end Rect

end TernaryConsole
