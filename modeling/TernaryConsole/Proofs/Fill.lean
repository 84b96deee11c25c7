import Mathlib.Data.List.Nodup
import TernaryConsole.Proofs.Screen

/-!
# Proofs.Fill — which pixels a fill visits, and what they show afterwards

A fill paints pixel after pixel, row by row. `visits` lists the points in that order: `fill` is the
painting of this list (`fill_eq_paintAll`), which names the points of the rectangle that are on the
screen, each once (`mem_visits_iff`, `nodup_rowsVisits`), and so never more than the screen has.

The pixels tile the screen: each of its cells belongs to one of them (`Owns`). With that
`fills_fill` says what memory looks like after a fill, for every rectangle of integers.
-/

namespace TernaryConsole

namespace Screen

/-! ## Visited points -/

/-- The points that painting part of a row visits. -/
def rowVisits (x y : Int) : Nat → List (Int × Int)
  | 0 => []
  | count + 1 => (x, y) :: rowVisits (x + 1) y count

/-- The points that painting parts of rows visits. -/
def rowsVisits (x y : Int) (count : Nat) : Nat → List (Int × Int)
  | 0 => []
  | rows + 1 => rowVisits x y count ++ rowsVisits x (y + 1) count rows

/-- The points that a fill visits, in order. -/
def visits (x y width height : Int) : List (Int × Int) :=
  rowsVisits (max x 0) (max y 0) (visible x width) (visible y height)

/-- Paints a list of points. -/
def paintAll (memory : Memory) (digits : List Trit) (points : List (Int × Int)) : Memory :=
  points.foldl (fun memory p => paint memory digits p.1 p.2) memory

theorem paintRow_eq_paintAll (memory : Memory) (digits : List Trit) (x y : Int) (count : Nat) :
    paintRow memory digits x y count = paintAll memory digits (rowVisits x y count) := by
  induction count generalizing memory x with
  | zero => rfl
  | succ count ih =>
    rw [paintRow, ih]
    rfl

theorem paintRows_eq_paintAll (memory : Memory) (digits : List Trit) (x y : Int)
    (count rows : Nat) :
    paintRows memory digits x y count rows =
      paintAll memory digits (rowsVisits x y count rows) := by
  induction rows generalizing memory y with
  | zero => rfl
  | succ rows ih =>
    rw [paintRows, ih, paintRow_eq_paintAll, rowsVisits, paintAll, paintAll, paintAll,
      List.foldl_append]

theorem fill_eq_paintAll (memory : Memory) (colour : Colour) (x y width height : Int) :
    fill memory colour x y width height =
      paintAll memory (pixelDigits colour) (visits x y width height) :=
  paintRows_eq_paintAll memory (pixelDigits colour) (max x 0) (max y 0) (visible x width)
    (visible y height)

theorem mem_rowVisits_iff {x y : Int} {count : Nat} {p : Int × Int} :
    p ∈ rowVisits x y count ↔ (x ≤ p.1 ∧ p.1 < x + count) ∧ p.2 = y := by
  induction count generalizing x with
  | zero =>
    simp only [rowVisits, List.not_mem_nil, false_iff]
    omega
  | succ count ih =>
    simp only [rowVisits, List.mem_cons, ih, Prod.ext_iff]
    push_cast
    omega

theorem mem_rowsVisits_iff {x y : Int} {count rows : Nat} {p : Int × Int} :
    p ∈ rowsVisits x y count rows ↔
      (x ≤ p.1 ∧ p.1 < x + count) ∧ (y ≤ p.2 ∧ p.2 < y + rows) := by
  induction rows generalizing y with
  | zero =>
    simp only [rowsVisits, List.not_mem_nil, false_iff]
    omega
  | succ rows ih =>
    simp only [rowsVisits, List.mem_append, mem_rowVisits_iff, ih]
    push_cast
    omega

/-- The visited points are those of the rectangle that are on the screen. -/
theorem mem_visits_iff {x y width height : Int} {p : Int × Int} :
    p ∈ visits x y width height ↔ OnScreen p.1 p.2 ∧ Covers x y width height p.1 p.2 := by
  rw [visits, mem_rowsVisits_iff]
  simp only [visible, OnScreen, Covers]
  omega

theorem nodup_rowVisits (x y : Int) (count : Nat) : (rowVisits x y count).Nodup := by
  induction count generalizing x with
  | zero => exact List.nodup_nil
  | succ count ih =>
    refine List.nodup_cons.2 ⟨?_, ih (x + 1)⟩
    rw [mem_rowVisits_iff]
    omega

/-- No point is visited twice. -/
theorem nodup_rowsVisits (x y : Int) (count rows : Nat) : (rowsVisits x y count rows).Nodup := by
  induction rows generalizing y with
  | zero => exact List.nodup_nil
  | succ rows ih =>
    refine List.nodup_append'.2 ⟨nodup_rowVisits x y count, ih (y + 1), ?_⟩
    -- The rows that follow begin below the first one.
    intro p hrow hrows
    rw [mem_rowVisits_iff] at hrow
    rw [mem_rowsVisits_iff] at hrows
    omega

theorem length_rowVisits (x y : Int) (count : Nat) : (rowVisits x y count).length = count := by
  induction count generalizing x with
  | zero => rfl
  | succ count ih => rw [rowVisits, List.length_cons, ih]

theorem length_rowsVisits (x y : Int) (count rows : Nat) :
    (rowsVisits x y count rows).length = rows * count := by
  induction rows generalizing y with
  | zero => simp [rowsVisits]
  | succ rows ih =>
    rw [rowsVisits, List.length_append, length_rowVisits, ih, Nat.succ_mul, Nat.add_comm]

theorem visible_le (start extent : Int) : visible start extent ≤ 243 := by
  unfold visible
  omega

/-- A fill visits no more points than the screen has. -/
theorem length_visits_le (x y width height : Int) : (visits x y width height).length ≤ 59049 := by
  rw [visits, length_rowsVisits]
  exact Nat.mul_le_mul (visible_le y height) (visible_le x width)

/-! ## Far edges -/

/-- The number of 128 bits nearest to `value`. -/
def saturate (value : Int) : Int :=
  max (-170141183460469231731687303715884105728)
    (min value 170141183460469231731687303715884105727)

/-- A far edge that saturates is cut at the same place as the exact one. -/
theorem visible_eq_saturate (start extent : Int) :
    visible start extent = (min (saturate (start + max extent 0)) 243 - max start 0).toNat := by
  unfold visible saturate
  omega

/-! ## Tiles -/

/-- Whether a cell is one of the nine cells of a pixel. -/
def Owns (p : Int × Int) (address : Int) : Prop :=
  ∃ start, addressOf? p.1 p.2 = some start ∧ start ≤ address ∧ address < start + 9

theorem owns_iff {p : Int × Int} {address : Int} :
    Owns p address ↔ IsScreenCell address ∧ p = (columnOf address, rowOf address) := by
  by_cases hon : OnScreen p.1 p.2
  · have hwindow := mem_window_iff hon address
    constructor
    · rintro ⟨start, hstart, hlow, hhigh⟩
      rw [addressOf?_of_onScreen hon] at hstart
      obtain rfl := Option.some.inj hstart
      obtain ⟨hscreen, hcolumn, hrow⟩ := hwindow.1 ⟨hlow, hhigh⟩
      exact ⟨hscreen, Prod.ext hcolumn.symm hrow.symm⟩
    · rintro ⟨hscreen, rfl⟩
      exact ⟨_, addressOf?_of_onScreen hon, hwindow.2 ⟨hscreen, rfl, rfl⟩⟩
  · -- A point off the screen has no cells, and the point of a screen cell is on the screen.
    simp only [Owns, addressOf?_of_not_onScreen hon, reduceCtorEq, false_and, exists_false,
      false_iff]
    rintro ⟨hscreen, rfl⟩
    exact hon (onScreen_of_isScreenCell hscreen)

/-! ## The law -/

/-- The memory before and after a fill. -/
structure Fills (memory : Memory) (colour : Colour) (x y width height : Int) (after : Memory) :
    Prop where
  /-- Covered pixels show the colour, each channel as its balanced residue modulo 27. -/
  painted : ∀ px py, OnScreen px py → Covers x y width height px py →
    pixel after px py = ⟨colour.red.bmod 27, colour.green.bmod 27, colour.blue.bmod 27⟩
  kept : ∀ px py, OnScreen px py → ¬ Covers x y width height px py →
    pixel after px py = pixel memory px py
  outside : ∀ address, ¬ (531441 ≤ address ∧ address < 1062882) →
    after.cell address = memory.cell address
  disjoint : ∀ p q address, Owns p address → Owns q address → p = q
  tiled : ∀ address, (531441 ≤ address ∧ address < 1062882) ↔ ∃ p, Owns p address
  /-- Painting the visited points, and nothing else, is what the fill does. -/
  visited : after = paintAll memory (pixelDigits colour) (visits x y width height)
  mem_visits : ∀ p, p ∈ visits x y width height ↔
    OnScreen p.1 p.2 ∧ Covers x y width height p.1 p.2
  nodup : (visits x y width height).Nodup
  length_le : (visits x y width height).length ≤ 59049
  /-- Far edges computed with saturating sums of 128 bits clip the rectangle in the same way. -/
  edges : visible x width = (min (saturate (x + max width 0)) 243 - max x 0).toNat ∧
    visible y height = (min (saturate (y + max height 0)) 243 - max y 0).toNat

theorem isScreenCell_iff (address : Int) :
    IsScreenCell address ↔ 531441 ≤ address ∧ address < 1062882 := by
  simp only [IsScreenCell, base_eq, length_eq]
  omega

/-- A fill paints the visible points of its rectangle and changes nothing else. -/
theorem fills_fill (memory : Memory) (colour : Colour) (x y width height : Int) :
    Fills memory colour x y width height (fill memory colour x y width height) where
  painted px py hon hcovers := by
    rw [pixel_fill, if_pos ⟨hon, hcovers⟩]
  kept px py hon hcovers := by
    rw [pixel_fill, if_neg (fun h => hcovers h.2)]
  outside address hout := by
    rw [← isScreenCell_iff] at hout
    exact cell_fill_of_not_isScreenCell memory colour x y width height hout
  disjoint p q address hp hq := by
    rw [(owns_iff.1 hp).2, (owns_iff.1 hq).2]
  tiled address := by
    simp only [owns_iff, exists_and_left, exists_eq, and_true, isScreenCell_iff]
  visited := fill_eq_paintAll memory colour x y width height
  mem_visits _ := mem_visits_iff
  nodup := nodup_rowsVisits _ _ _ _
  length_le := length_visits_le x y width height
  edges := ⟨visible_eq_saturate x width, visible_eq_saturate y height⟩

end Screen

end TernaryConsole
