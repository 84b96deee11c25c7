import Mathlib.Order.Bounds.Defs
import Mathlib.Tactic.Ring
import TernaryConsole.Config
import TernaryConsole.Proofs.Desktop
import TernaryConsole.Proofs.Rect

/-!
# Proofs.IconGrid — icons lie on a grid

Slots fill a grid row by row. In exact integers the corner of a slot is the origin with so many
pitches added as the slot has columns and rows in front of it (`cornerX`, `cornerY`). `Arranged`
says that columns are laid there and that rows end where they should, `Separated` that rows are laid
there too, so that a point lies in one icon at most.

The code computes with coordinates that saturate. `Representable` says that the exact numbers of the
grid, the far edges of its icons included, are coordinates. For columns this is enough. For rows it
is not: the distance of a row from the origin saturates before the origin is added, so above an
origin far in front of the screen two rows can be laid on each other although the edges of both are
coordinates (`not_forall_iconsApart`). Icons are separated if those distances are coordinates too
(`RowsFit`), which they are where the origin is not negative.
-/

namespace TernaryConsole

/-! ## Points of cells -/

/-- The numbers at a distance below `size` behind a multiple of `pitch`. -/
theorem mem_cell_iff {pitch size : Int} (hsize : size ≤ pitch) (hpitch : 0 < pitch)
    (origin index p : Int) :
    (origin + index * pitch ≤ p ∧ p < origin + index * pitch + size) ↔
      (p - origin) / pitch = index ∧ (p - origin) % pitch < size := by
  constructor
  · rintro ⟨hlow, hhigh⟩
    have hsplit := (Int.ediv_emod_unique hpitch).2
      (show p - origin - index * pitch + pitch * index = p - origin ∧
          0 ≤ p - origin - index * pitch ∧ p - origin - index * pitch < pitch by
        rw [Int.mul_comm pitch]
        omega)
    refine ⟨hsplit.1, ?_⟩
    rw [hsplit.2]
    omega
  · rintro ⟨hindex, hrest⟩
    have hsplit := Int.mul_ediv_add_emod (p - origin) pitch
    have hnonneg := Int.emod_nonneg (p - origin) (Int.ne_of_gt hpitch)
    rw [hindex, Int.mul_comm] at hsplit
    omega

namespace IconGrid

variable (grid : IconGrid)

/-! ## The exact grid -/

/-- The distance between the corners of neighbouring icons, in exact integers. -/
def exactPitch : Int :=
  grid.iconSize + grid.gap

def cornerX (slot : Nat) : Int :=
  grid.originX + slot % grid.columns * grid.exactPitch

def cornerY (slot : Nat) : Int :=
  grid.originY + slot / grid.columns * grid.exactPitch

/-- One icon fits between the origin and the end of the row. -/
def FitsOne : Prop :=
  grid.originX + grid.exactPitch - grid.gap ≤ grid.rowWidth

/-- The numbers of icons that fit in a row, with the gaps between them. -/
def fitting : Set Int :=
  { c | 1 ≤ c ∧ grid.originX + c * grid.exactPitch - grid.gap ≤ grid.rowWidth }

/-- A grid of visible icons, as configurations describe them. -/
structure Regular : Prop where
  size_pos : (0 : Int) < grid.iconSize
  gap_nonneg : (0 : Int) ≤ grid.gap
  originX : Fits 64 grid.originX
  originY : Fits 64 grid.originY
  rowWidth_nonneg : (0 : Int) ≤ grid.rowWidth

/-- The numbers of a grid with so many slots are coordinates. The number of slots itself is one of
any list that is held in memory. -/
structure Representable (count : Nat) : Prop where
  slots : Fits 64 count
  pitch : Fits 64 grid.exactPitch
  usableWidth : Fits 64 (grid.rowWidth - grid.originX + grid.gap)
  right : ∀ slot < count, Fits 64 (grid.cornerX slot + grid.iconSize)
  bottom : ∀ slot < count, Fits 64 (grid.cornerY slot + grid.iconSize)

/-- The distances of the rows from the origin are coordinates. -/
def RowsFit (count : Nat) : Prop :=
  ∀ slot < count, Fits 64 (slot / grid.columns * grid.exactPitch)

end IconGrid

theorem Coordinate.clamp_of_fits {value : Int} (h : Fits 64 value) : clamp value = value :=
  clamp_of_mem (fits_64_iff.1 h).1 (fits_64_iff.1 h).2

/-- Between the origin and a far edge that are coordinates there are only coordinates. -/
theorem Coordinate.fits_corner {origin distance size : Int} (horigin : Fits 64 origin)
    (hdistance : 0 ≤ distance) (hsize : 0 < size) (hedge : Fits 64 (origin + distance + size)) :
    Fits 64 (origin + distance) := by
  rw [fits_64_iff] at *
  omega

namespace IconGrid

variable {grid : IconGrid} {count : Nat}

/-! ## Columns -/

/-- Whichever way the quotient is rounded, a width below one pitch leaves one column. -/
theorem max_one_tdiv (width : Int) {pitch : Int} (h : 0 < pitch) :
    max 1 (width.tdiv pitch) = max 1 (width / pitch) := by
  rcases Int.le_total 0 width with hnonneg | hnonpos
  · rw [Int.tdiv_eq_ediv_of_nonneg hnonneg]
  · have htdiv : width.tdiv pitch ≤ 0 := by
      have hopposite := Int.tdiv_nonneg (show 0 ≤ -width by omega) h.le
      rw [Int.neg_tdiv] at hopposite
      omega
    have hediv : width / pitch ≤ 0 := Int.ediv_nonpos_of_nonpos_of_neg hnonpos h
    omega

section

variable (hgrid : grid.Regular)

include hgrid

theorem Regular.exactPitch_pos : 0 < grid.exactPitch := by
  have hsize := hgrid.size_pos
  have hgap := hgrid.gap_nonneg
  unfold exactPitch
  omega

theorem Regular.iconSize_le : grid.iconSize ≤ grid.exactPitch :=
  Int.le_add_of_nonneg_right hgrid.gap_nonneg

theorem Regular.column_nonneg (slot : Nat) : 0 ≤ slot % grid.columns * grid.exactPitch :=
  Int.mul_nonneg (Int.emod_nonneg _ (Int.ne_of_gt grid.columns_pos)) hgrid.exactPitch_pos.le

theorem Regular.row_nonneg (slot : Nat) : 0 ≤ slot / grid.columns * grid.exactPitch :=
  Int.mul_nonneg (Int.ediv_nonneg (Int.natCast_nonneg slot) grid.columns_pos.le)
    hgrid.exactPitch_pos.le

theorem mem_fitting_iff (c : Int) :
    c ∈ grid.fitting ↔
      1 ≤ c ∧ c ≤ (grid.rowWidth - grid.originX + grid.gap) / grid.exactPitch := by
  rw [Int.le_ediv_iff_mul_le hgrid.exactPitch_pos]
  simp only [fitting, Set.mem_ofPred_eq, Coordinate]
  omega

variable (hfits : grid.Representable count)

include hfits

omit hgrid in
theorem pitch_eq : grid.pitch = grid.exactPitch :=
  Coordinate.clamp_of_fits hfits.pitch

theorem usableWidth_eq : grid.usableWidth = grid.rowWidth - grid.originX + grid.gap := by
  have hgap := hgrid.gap_nonneg
  have hwidth := hgrid.rowWidth_nonneg
  have horigin := fits_64_iff.1 hgrid.originX
  have husable := fits_64_iff.1 hfits.usableWidth
  have hwithout : Fits 64 (grid.rowWidth - grid.originX) :=
    fits_64_iff.2 ⟨by omega, by omega⟩
  rw [usableWidth, Coordinate.sub, Coordinate.clamp_of_fits hwithout, Coordinate.add,
    Coordinate.clamp_of_fits hfits.usableWidth]

/-- The number of columns is the exact quotient, or one if that is none. -/
theorem columns_eq :
    grid.columns = max 1 ((grid.rowWidth - grid.originX + grid.gap) / grid.exactPitch) := by
  rw [columns, pitch_eq hfits, if_neg (Int.not_le.2 hgrid.exactPitch_pos),
    usableWidth_eq hgrid hfits]
  exact max_one_tdiv _ hgrid.exactPitch_pos

theorem isGreatest_columns (hone : grid.FitsOne) : IsGreatest grid.fitting grid.columns := by
  have hone : (1 : Int) ∈ grid.fitting := by
    refine ⟨le_refl 1, ?_⟩
    rw [Int.one_mul]
    exact hone
  rw [mem_fitting_iff hgrid] at hone
  have hcolumns := columns_eq hgrid hfits
  constructor
  · rw [mem_fitting_iff hgrid]
    omega
  · intro c hc
    rw [mem_fitting_iff hgrid] at hc
    omega

theorem columns_eq_one (hone : ¬ grid.FitsOne) : grid.columns = 1 := by
  have hnone : (1 : Int) ∉ grid.fitting := by
    rintro ⟨-, hfit⟩
    rw [Int.one_mul] at hfit
    exact hone hfit
  rw [mem_fitting_iff hgrid] at hnone
  have hcolumns := columns_eq hgrid hfits
  omega

/-- Where one icon fits, no slot passes the end of the row. -/
theorem cornerX_add_le (hone : grid.FitsOne) (slot : Nat) :
    grid.cornerX slot + grid.iconSize ≤ grid.rowWidth := by
  have hcolumn := Int.emod_lt_of_pos (slot : Int) grid.columns_pos
  have hbehind : (slot % grid.columns + 1) * grid.exactPitch ≤ grid.columns * grid.exactPitch :=
    Int.mul_le_mul_of_nonneg_right hcolumn hgrid.exactPitch_pos.le
  calc
    grid.cornerX slot + grid.iconSize
        = grid.originX + (slot % grid.columns + 1) * grid.exactPitch - grid.gap := by
          unfold cornerX exactPitch
          ring
    _ ≤ grid.originX + grid.columns * grid.exactPitch - grid.gap :=
          Int.sub_le_sub_right (Int.add_le_add_left hbehind grid.originX) grid.gap
    _ ≤ grid.rowWidth := (isGreatest_columns hgrid hfits hone).1.2

/-- The distance of a column from the origin is a coordinate. -/
theorem fits_column (slot : Nat) : Fits 64 (slot % grid.columns * grid.exactPitch) := by
  by_cases hone : grid.FitsOne
  · have hend := cornerX_add_le hgrid hfits hone slot
    have hnonneg := hgrid.column_nonneg slot
    have husable := fits_64_iff.1 hfits.usableWidth
    have hsize := hgrid.size_pos
    have hgap := hgrid.gap_nonneg
    unfold cornerX at hend
    -- The row begins at the origin and is no longer than the usable width.
    exact fits_64_iff.2 ⟨by omega, by simp only [Coordinate] at *; omega⟩
  · rw [columns_eq_one hgrid hfits hone, Int.emod_one, Int.zero_mul]
    decide

/-- Behind an origin that is not negative, a far edge is as far as any distance. -/
theorem rowsFit_of_nonneg (horigin : (0 : Int) ≤ grid.originY) : grid.RowsFit count := by
  intro slot hslot
  have hedge := fits_64_iff.1 (hfits.bottom slot hslot)
  have hsize := hgrid.size_pos
  have hnonneg := hgrid.row_nonneg slot
  unfold cornerY at hedge
  exact fits_64_iff.2 ⟨by omega, by omega⟩

section

variable {slot : Nat} (hslot : slot < count)

include hslot

omit hgrid in
theorem min_slot : min (slot : Int) Coordinate.greatest = slot := by
  have hcount := fits_64_iff.1 hfits.slots
  simp only [Coordinate.greatest]
  omega

theorem icon_x : (grid.icon slot).x = grid.cornerX slot := by
  have hcolumn := fits_column hgrid hfits slot
  simp only [icon, min_slot hfits hslot, pitch_eq hfits, Coordinate.mul,
    Coordinate.clamp_of_fits hcolumn]
  exact Coordinate.clamp_of_fits
    (Coordinate.fits_corner hgrid.originX (hgrid.column_nonneg slot) hgrid.size_pos
      (hfits.right slot hslot))

/-- The row of a slot is at its exact place if its distance from the origin is a coordinate. -/
theorem icon_y (hrow : Fits 64 (slot / grid.columns * grid.exactPitch)) :
    (grid.icon slot).y = grid.cornerY slot := by
  simp only [icon, min_slot hfits hslot, pitch_eq hfits, Coordinate.mul,
    Coordinate.clamp_of_fits hrow]
  exact Coordinate.clamp_of_fits
    (Coordinate.fits_corner hgrid.originY (hgrid.row_nonneg slot) hgrid.size_pos
      (hfits.bottom slot hslot))

theorem icon_eq (hrow : Fits 64 (slot / grid.columns * grid.exactPitch)) :
    grid.icon slot =
      ⟨grid.cornerX slot, grid.cornerY slot, grid.iconSize, grid.iconSize⟩ := by
  rw [← icon_x hgrid hfits hslot, ← icon_y hgrid hfits hslot hrow]
  rfl

/-- The points of an icon are those of its cell of the grid that lie in front of the gaps. -/
theorem contains_icon_iff (hrow : Fits 64 (slot / grid.columns * grid.exactPitch)) (px py : Int) :
    (grid.icon slot).contains px py = true ↔
      ((px - grid.originX) / grid.exactPitch = slot % grid.columns ∧
          (px - grid.originX) % grid.exactPitch < grid.iconSize) ∧
        ((py - grid.originY) / grid.exactPitch = slot / grid.columns ∧
          (py - grid.originY) % grid.exactPitch < grid.iconSize) := by
  have hsize : grid.iconSize ≤ Coordinate.greatest :=
    Int.le_trans hgrid.iconSize_le (fits_64_iff.1 hfits.pitch).2
  rw [icon_eq hgrid hfits hslot hrow, Rect.contains_iff hsize hsize]
  exact and_congr (mem_cell_iff hgrid.iconSize_le hgrid.exactPitch_pos _ _ px)
    (mem_cell_iff hgrid.iconSize_le hgrid.exactPitch_pos _ _ py)

end

end

end IconGrid

/-! ## Desktops -/

namespace Desktop

theorem icon_of_getElem? {grid : IconGrid} {bundles : List Bundle} {slot : Nat} {app : App}
    (h : (ofBundles grid bundles).apps[slot]? = some app) :
    slot < bundles.length ∧ app.icon = grid.icon slot := by
  rw [apps_ofBundles, List.getElem?_mapIdx, Option.map_eq_some_iff] at h
  obtain ⟨bundle, hbundle, rfl⟩ := h
  exact ⟨(List.getElem?_eq_some_iff.1 hbundle).1, rfl⟩

/-- No point lies in the icons of two apps. -/
def IconsApart (desktop : Desktop) : Prop :=
  ∀ (j k : Nat) (a b : App) (px py : Int), desktop.apps[j]? = some a → desktop.apps[k]? = some b →
    a.icon.contains px py = true → b.icon.contains px py = true → j = k

/-- A point in an icon belongs to its app if no point lies in two. -/
theorem IconsApart.appAt?_eq {desktop : Desktop} (h : desktop.IconsApart) {slot : Nat} {app : App}
    {px py : Int} (happ : desktop.apps[slot]? = some app)
    (hpoint : app.icon.contains px py = true) : desktop.appAt? px py = some app := by
  cases hfound : desktop.appAt? px py with
  | none =>
    rw [appAt?, List.find?_eq_none] at hfound
    exact absurd hpoint (hfound app (List.mem_of_getElem? happ))
  | some first =>
    obtain ⟨hfirst, index, hindex, rfl, -⟩ := List.find?_eq_some_iff_getElem.1 hfound
    have hsame := h index slot _ app px py (List.getElem?_eq_getElem hindex) happ hfirst hpoint
    subst hsame
    rw [← happ, List.getElem?_eq_getElem hindex]

/-- The apps lie in the columns of the grid, and rows end where they should. -/
structure Arranged (grid : IconGrid) (desktop : Desktop) : Prop where
  /-- A row has as many icons as fit, and one if none does. -/
  columns_greatest : grid.FitsOne → IsGreatest grid.fitting grid.columns
  columns_one : ¬ grid.FitsOne → grid.columns = 1
  column : ∀ (slot : Nat) (app : App), desktop.apps[slot]? = some app →
    app.icon.x = grid.cornerX slot ∧ app.icon.width = grid.iconSize ∧
      app.icon.height = grid.iconSize
  within_row : grid.FitsOne → ∀ app ∈ desktop.apps,
    app.icon.x + app.icon.width ≤ grid.rowWidth
  missed : ∀ px py, (∀ app ∈ desktop.apps, app.icon.contains px py = false) →
    desktop.appAt? px py = none

/-- The apps lie in the rows of the grid as well, so that a point has one of them at most. -/
structure Separated (grid : IconGrid) (desktop : Desktop) : Prop where
  placed : ∀ (slot : Nat) (app : App), desktop.apps[slot]? = some app →
    app.icon = ⟨grid.cornerX slot, grid.cornerY slot, grid.iconSize, grid.iconSize⟩
  apart : desktop.IconsApart
  hit : ∀ (slot : Nat) (app : App) (px py : Int), desktop.apps[slot]? = some app →
    app.icon.contains px py = true → desktop.appAt? px py = some app
  /-- A point in a gap belongs to no app. -/
  gap : ∀ px py : Int, grid.iconSize ≤ (px - grid.originX) % grid.exactPitch ∨
    grid.iconSize ≤ (py - grid.originY) % grid.exactPitch → desktop.appAt? px py = none

section

variable {grid : IconGrid} {bundles : List Bundle} (hgrid : grid.Regular)
  (hfits : grid.Representable bundles.length)

include hgrid hfits

theorem arranged_of_representable : Arranged grid (ofBundles grid bundles) := by
  have hicon : ∀ (slot : Nat) (app : App), (ofBundles grid bundles).apps[slot]? = some app →
      app.icon.x = grid.cornerX slot ∧ app.icon.width = grid.iconSize ∧
        app.icon.height = grid.iconSize := by
    intro slot app happ
    obtain ⟨hslot, hicon⟩ := icon_of_getElem? happ
    rw [hicon]
    exact ⟨IconGrid.icon_x hgrid hfits hslot, rfl, rfl⟩
  refine ⟨IconGrid.isGreatest_columns hgrid hfits, IconGrid.columns_eq_one hgrid hfits, hicon, ?_,
    fun px py => appAt?_eq_none⟩
  intro hone app hmem
  obtain ⟨slot, happ⟩ := List.getElem?_of_mem hmem
  obtain ⟨hx, hwidth, -⟩ := hicon slot app happ
  rw [hx, hwidth]
  exact IconGrid.cornerX_add_le hgrid hfits hone slot

variable (hrows : grid.RowsFit bundles.length)

include hrows

theorem separated_of_rowsFit : Separated grid (ofBundles grid bundles) := by
  -- In which cell of the grid a point lies decides which icon can contain it.
  have hcell : ∀ (slot : Nat) (app : App) (px py : Int),
      (ofBundles grid bundles).apps[slot]? = some app → (app.icon.contains px py = true ↔
        ((px - grid.originX) / grid.exactPitch = slot % grid.columns ∧
            (px - grid.originX) % grid.exactPitch < grid.iconSize) ∧
          ((py - grid.originY) / grid.exactPitch = slot / grid.columns ∧
            (py - grid.originY) % grid.exactPitch < grid.iconSize)) := by
    intro slot app px py happ
    obtain ⟨hslot, hicon⟩ := icon_of_getElem? happ
    rw [hicon]
    exact IconGrid.contains_icon_iff hgrid hfits hslot (hrows slot hslot) px py
  have hapart : (ofBundles grid bundles).IconsApart := by
    intro j k a b px py ha hb hpa hpb
    obtain ⟨⟨hcolumnA, -⟩, hrowA, -⟩ := (hcell j a px py ha).1 hpa
    obtain ⟨⟨hcolumnB, -⟩, hrowB, -⟩ := (hcell k b px py hb).1 hpb
    -- Column and row together are the slot.
    have hsplitA := Int.mul_ediv_add_emod (j : Int) grid.columns
    have hsplitB := Int.mul_ediv_add_emod (k : Int) grid.columns
    rw [← hcolumnA, ← hrowA] at hsplitA
    rw [← hcolumnB, ← hrowB] at hsplitB
    exact Int.ofNat_inj.1 (hsplitA.symm.trans hsplitB)
  refine ⟨?_, hapart, fun slot app px py => hapart.appAt?_eq, ?_⟩
  · intro slot app happ
    obtain ⟨hslot, hicon⟩ := icon_of_getElem? happ
    rw [hicon]
    exact IconGrid.icon_eq hgrid hfits hslot (hrows slot hslot)
  · intro px py hgap
    refine appAt?_eq_none fun app hmem => ?_
    obtain ⟨slot, happ⟩ := List.getElem?_of_mem hmem
    rw [Bool.eq_false_iff]
    intro hpoint
    obtain ⟨⟨-, hx⟩, -, hy⟩ := (hcell slot app px py happ).1 hpoint
    rcases hgap with hgap | hgap
    · exact Int.not_le.2 hx hgap
    · exact Int.not_le.2 hy hgap

end

end Desktop

/-! ## Configurations -/

/-- The numbers of a configuration are coordinates. -/
structure Config.InRange (config : Config) : Prop where
  iconSize : Fits 64 config.iconSize
  iconGap : Fits 64 config.iconGap
  iconOriginX : Fits 64 config.iconOriginX
  iconOriginY : Fits 64 config.iconOriginY

theorem Config.InRange.regular {config : Config} (h : config.InRange) :
    config.iconGrid.Regular where
  size_pos := by
    have hone : (1 : Int) ≤ config.iconGrid.iconSize := Int.le_max_right _ _
    omega
  gap_nonneg := Int.le_max_right _ _
  originX := h.iconOriginX
  originY := h.iconOriginY
  rowWidth_nonneg := show (0 : Int) ≤ 243 by decide

namespace Desktop

/-- On the desktop of a configuration, columns are as they should be whenever the exact numbers of
the grid are coordinates, and icons are separated if the origin is not above the screen or the
distances of the rows are coordinates too. -/
theorem arranged_ofBundles (config : Config) (bundles : List Bundle) (hconfig : config.InRange)
    (hfits : config.iconGrid.Representable bundles.length) :
    Arranged config.iconGrid (ofBundles config.iconGrid bundles) ∧
      ((0 : Int) ≤ config.iconOriginY ∨ config.iconGrid.RowsFit bundles.length →
        Separated config.iconGrid (ofBundles config.iconGrid bundles)) := by
  refine ⟨arranged_of_representable hconfig.regular hfits, ?_⟩
  rintro (horigin | hrows)
  · have hrows := IconGrid.rowsFit_of_nonneg hconfig.regular hfits horigin
    exact separated_of_rowsFit hconfig.regular hfits hrows
  · exact separated_of_rowsFit hconfig.regular hfits hrows

/-- Icons without gaps, the first of them in front of the screen in both directions. -/
def tiles : Config :=
  { iconSize := 81, iconGap := 0, iconOriginX := -81, iconOriginY := -40 }

/-- Four icons in the first row and one in the second. -/
theorem arranged_ofBundles_tiles :
    let bundles := ["a", "b", "c", "d", "e"].map fun name => (⟨name, name⟩ : Bundle)
    tiles.InRange ∧ tiles.iconGrid.Representable bundles.length ∧
      tiles.iconGrid.RowsFit bundles.length ∧
      Arranged tiles.iconGrid (ofBundles tiles.iconGrid bundles) ∧
      Separated tiles.iconGrid (ofBundles tiles.iconGrid bundles) := by
  intro bundles
  have hconfig : tiles.InRange := ⟨by decide, by decide, by decide, by decide⟩
  have hfits : tiles.iconGrid.Representable bundles.length :=
    ⟨by decide, by decide, by decide, by decide, by decide⟩
  have hrows : tiles.iconGrid.RowsFit bundles.length := by
    unfold IconGrid.RowsFit
    decide
  obtain ⟨harranged, hseparated⟩ := arranged_ofBundles tiles bundles hconfig hfits
  exact ⟨hconfig, hfits, hrows, harranged, hseparated (Or.inr hrows)⟩

/-- Three rows from the least coordinate on, each a quarter of all coordinates high. The last one
begins at zero, but its distance from the origin is one more than the greatest coordinate. -/
def quarters : Config :=
  { iconSize := 4611686018427387904, iconGap := 0, iconOriginY := Coordinate.least }

/-- Icons can overlap although all their edges are coordinates: the last row is laid one point too
high, on the last points of the row in front of it. -/
theorem not_forall_iconsApart :
    ¬ ∀ (config : Config) (bundles : List Bundle), config.InRange →
      config.iconGrid.Representable bundles.length →
      (ofBundles config.iconGrid bundles).IconsApart := by
  intro h
  let bundles := ["a", "b", "c"].map fun name => (⟨name, name⟩ : Bundle)
  have hconfig : quarters.InRange := ⟨by decide, by decide, by decide, by decide⟩
  have hfits : quarters.iconGrid.Representable bundles.length :=
    ⟨by decide, by decide, by decide, by decide, by decide⟩
  have hsame := h quarters bundles hconfig hfits 1 2 _ _ 9 (-1) rfl rfl (by decide) (by decide)
  exact absurd hsame (by decide)

end Desktop

end TernaryConsole
