import TernaryConsole.Proofs.Memory
import TernaryConsole.Screen

/-!
# Proofs.Screen — a fill paints exactly the visible rectangle

Every screen cell belongs to one pixel: `columnOf`, `rowOf` and `placeOf` invert the addresses of
pixels. With them a fill has one equation on single cells (`cell_fill`) and one on pixels
(`pixel_fill`). Nothing outside the screen is touched.
-/

namespace TernaryConsole

namespace Screen

/-! ## Cells and pixels -/

/-- The cells that belong to the screen. -/
def IsScreenCell (address : Int) : Prop :=
  base ≤ address ∧ address < base + length

instance (address : Int) : Decidable (IsScreenCell address) :=
  inferInstanceAs (Decidable (_ ∧ _))

def columnOf (address : Int) : Int :=
  (address - base) / 9 % 243

def rowOf (address : Int) : Int :=
  (address - base) / 9 / 243

/-- The place of a cell among the nine cells of its pixel. -/
def placeOf (address : Int) : Nat :=
  ((address - base) % 9).toNat

/-- The points of a rectangle, in exact integers. -/
def Covers (x y width height px py : Int) : Prop :=
  x ≤ px ∧ px < x + width ∧ y ≤ py ∧ py < y + height

instance (x y width height px py : Int) : Decidable (Covers x y width height px py) :=
  inferInstanceAs (Decidable (_ ∧ _))

/-- The points that have a pixel. -/
def OnScreen (px py : Int) : Prop :=
  0 ≤ px ∧ px < 243 ∧ 0 ≤ py ∧ py < 243

instance (px py : Int) : Decidable (OnScreen px py) :=
  inferInstanceAs (Decidable (_ ∧ _))

theorem base_eq : (base : Int) = 531441 := rfl

theorem length_eq : (length : Int) = 531441 := rfl

theorem onScreen_of_isScreenCell {address : Int} (h : IsScreenCell address) :
    OnScreen (columnOf address) (rowOf address) := by
  simp only [IsScreenCell, base_eq, length_eq] at h
  simp only [OnScreen, columnOf, rowOf, base_eq]
  omega

theorem addressOf?_of_onScreen {px py : Int} (h : OnScreen px py) :
    addressOf? px py = some (base + (py * 243 + px) * 9) :=
  if_pos h

theorem addressOf?_of_not_onScreen {px py : Int} (h : ¬ OnScreen px py) :
    addressOf? px py = none :=
  if_neg h

/-- The nine cells of a pixel are the screen cells in its column and row. -/
theorem mem_window_iff {px py : Int} (h : OnScreen px py) (address : Int) :
    (base + (py * 243 + px) * 9 ≤ address ∧ address < base + (py * 243 + px) * 9 + 9) ↔
      IsScreenCell address ∧ columnOf address = px ∧ rowOf address = py := by
  simp only [OnScreen, IsScreenCell, columnOf, rowOf, base_eq, length_eq] at *
  omega

theorem toNat_sub_eq_placeOf {px py address : Int} (low : base + (py * 243 + px) * 9 ≤ address)
    (high : address < base + (py * 243 + px) * 9 + 9) :
    (address - (base + (py * 243 + px) * 9)).toNat = placeOf address := by
  simp only [placeOf, base_eq] at *
  omega

/-! ## Painting -/

section

variable {digits : List Trit} (hdigits : digits.length = 9)

include hdigits

theorem cell_paint (memory : Memory) (x y address : Int) :
    (paint memory digits x y).cell address =
      if IsScreenCell address ∧ columnOf address = x ∧ rowOf address = y then
        digits.getD (placeOf address) .zero
      else
        memory.cell address := by
  by_cases hon : OnScreen x y
  · have hmem := mem_window_iff hon address
    have hsize : Memory.size = 1594323 := rfl
    simp only [paint, addressOf?_of_onScreen hon, Memory.cell_storeRun, hdigits]
    by_cases hwindow : base + (y * 243 + x) * 9 ≤ address ∧
        address < base + (y * 243 + x) * 9 + 9
    · have hcell := hmem.1 hwindow
      have hrange := hcell.1
      simp only [IsScreenCell, base_eq, length_eq] at hrange
      rw [if_pos ⟨hwindow.1, hwindow.2, by omega, by omega⟩, if_pos hcell,
        toNat_sub_eq_placeOf hwindow.1 hwindow.2]
    · have hcell : ¬ (IsScreenCell address ∧ columnOf address = x ∧ rowOf address = y) :=
        fun h => hwindow (hmem.2 h)
      rw [if_neg (fun h => hwindow ⟨h.1, h.2.1⟩), if_neg hcell]
  · -- Off the screen nothing is painted, and no screen cell has these coordinates.
    have hcell : ¬ (IsScreenCell address ∧ columnOf address = x ∧ rowOf address = y) := by
      rintro ⟨hscreen, rfl, rfl⟩
      exact hon (onScreen_of_isScreenCell hscreen)
    simp only [paint, addressOf?_of_not_onScreen hon, if_neg hcell]

theorem cell_paintRow (memory : Memory) (x y : Int) (count : Nat) (address : Int) :
    (paintRow memory digits x y count).cell address =
      if IsScreenCell address ∧ (x ≤ columnOf address ∧ columnOf address < x + count) ∧
          rowOf address = y then
        digits.getD (placeOf address) .zero
      else
        memory.cell address := by
  induction count generalizing memory x with
  | zero => rw [if_neg (by omega), paintRow]
  | succ count ih =>
    rw [paintRow, ih, cell_paint hdigits]
    push_cast
    by_cases hscreen : IsScreenCell address
    · -- The cell belongs to the first pixel, to one of the others, or to none.
      simp only [hscreen, true_and]
      by_cases hhead : columnOf address = x ∧ rowOf address = y
      · rw [if_neg (by omega), if_pos hhead, if_pos (by omega)]
      · by_cases htail : (x + 1 ≤ columnOf address ∧ columnOf address < x + 1 + count) ∧
            rowOf address = y
        · rw [if_pos htail, if_pos (by omega)]
        · rw [if_neg htail, if_neg hhead, if_neg (by omega)]
    · simp only [hscreen, false_and, if_false]

theorem cell_paintRows (memory : Memory) (x y : Int) (count rows : Nat) (address : Int) :
    (paintRows memory digits x y count rows).cell address =
      if IsScreenCell address ∧ (x ≤ columnOf address ∧ columnOf address < x + count) ∧
          (y ≤ rowOf address ∧ rowOf address < y + rows) then
        digits.getD (placeOf address) .zero
      else
        memory.cell address := by
  induction rows generalizing memory y with
  | zero => rw [if_neg (by omega), paintRows]
  | succ rows ih =>
    rw [paintRows, ih, cell_paintRow hdigits]
    push_cast
    by_cases hscreen : IsScreenCell address
    · -- The cell belongs to the first row, to one of the others, or to none.
      simp only [hscreen, true_and]
      by_cases hhead : (x ≤ columnOf address ∧ columnOf address < x + count) ∧ rowOf address = y
      · rw [if_neg (by omega), if_pos hhead, if_pos (by omega)]
      · by_cases htail : (x ≤ columnOf address ∧ columnOf address < x + count) ∧
            (y + 1 ≤ rowOf address ∧ rowOf address < y + 1 + rows)
        · rw [if_pos htail, if_pos (by omega)]
        · rw [if_neg htail, if_neg hhead, if_neg (by omega)]
    · simp only [hscreen, false_and, if_false]

end

/-! ## Fills -/

theorem length_pixelDigits (colour : Colour) : (pixelDigits colour).length = 9 := by
  simp [pixelDigits, channelWidth]

/-- The clipped columns or rows are the visible ones of the exact rectangle. -/
theorem visible_iff {p : Int} (low : 0 ≤ p) (high : p < 243) (start extent : Int) :
    (max start 0 ≤ p ∧ p < max start 0 + visible start extent) ↔
      start ≤ p ∧ p < start + extent := by
  unfold visible
  omega

/-- A fill writes the colour into the screen cells of the rectangle and keeps all others. -/
theorem cell_fill (memory : Memory) (colour : Colour) (x y width height address : Int) :
    (fill memory colour x y width height).cell address =
      if IsScreenCell address ∧ Covers x y width height (columnOf address) (rowOf address) then
        (pixelDigits colour).getD (placeOf address) .zero
      else
        memory.cell address := by
  rw [fill, cell_paintRows (length_pixelDigits colour)]
  by_cases hscreen : IsScreenCell address
  · have hon := onScreen_of_isScreenCell hscreen
    have hcolumns := visible_iff hon.1 hon.2.1 x width
    have hrows := visible_iff hon.2.2.1 hon.2.2.2 y height
    simp only [hscreen, true_and, hcolumns, hrows, Covers, and_assoc]
  · simp only [hscreen, false_and, if_false]

theorem cell_fill_of_not_isScreenCell (memory : Memory) (colour : Colour)
    (x y width height : Int) {address : Int} (h : ¬ IsScreenCell address) :
    (fill memory colour x y width height).cell address = memory.cell address := by
  rw [cell_fill, if_neg (fun hcell => h hcell.1)]

/-! ## Pixels -/

theorem pixel_congr {a b : Memory} {px py : Int}
    (h : ∀ address, IsScreenCell address → columnOf address = px → rowOf address = py →
      a.cell address = b.cell address) : pixel a px py = pixel b px py := by
  by_cases hon : OnScreen px py
  · have hwindow : ∀ start : Int, base + (py * 243 + px) * 9 ≤ start →
        start + channelWidth ≤ base + (py * 243 + px) * 9 + 9 →
        a.load start channelWidth = b.load start channelWidth := by
      intro start hlow hhigh
      apply Memory.load_congr
      intro address ha hb
      have hcell := (mem_window_iff hon address).1 ⟨by omega, by omega⟩
      exact h address hcell.1 hcell.2.1 hcell.2.2
    have hwidth : channelWidth = 3 := rfl
    simp only [pixel, addressOf?_of_onScreen hon]
    rw [hwindow _ (by omega) (by omega), hwindow (_ + 3) (by omega) (by omega),
      hwindow (_ + 6) (by omega) (by omega)]
  · simp only [pixel, addressOf?_of_not_onScreen hon]

/-- The three fields of a pixel read back as the balanced residues of its channels. -/
theorem pixel_storeRun_pixelDigits (memory : Memory) (colour : Colour) {px py : Int}
    (h : OnScreen px py) :
    pixel (memory.storeRun (base + (py * 243 + px) * 9) (pixelDigits colour)) px py =
      ⟨colour.red.bmod 27, colour.green.bmod 27, colour.blue.bmod 27⟩ := by
  have hsize : Memory.size = 1594323 := rfl
  have hon := h
  simp only [OnScreen] at hon
  obtain ⟨start, hstart⟩ : ∃ start : Int, start = base + (py * 243 + px) * 9 := ⟨_, rfl⟩
  have hlow : 0 ≤ start := by
    rw [hstart, base_eq]
    omega
  have hhigh : start + 9 ≤ Memory.size := by
    rw [hstart, base_eq]
    omega
  have hfields : memory.storeRun start (pixelDigits colour) =
      ((memory.store start channelWidth colour.red).store (start + 3) channelWidth
        colour.green).store (start + 6) channelWidth colour.blue := by
    simp only [pixelDigits, Memory.store_eq_storeRun, Memory.storeRun_append, List.length_append,
      Numeral.length_digits, channelWidth]
    rfl
  have hwidth : channelWidth = 3 := rfl
  simp only [pixel, addressOf?_of_onScreen h, ← hstart, hfields]
  -- Each channel is read from its own store; the other two windows are disjoint from it.
  rw [Memory.load_store_same _ (start + 6) channelWidth colour.blue (by omega) (by omega),
    Memory.load_store_of_disjoint _ colour.blue (by omega),
    Memory.load_store_of_disjoint _ colour.blue (by omega),
    Memory.load_store_same _ (start + 3) channelWidth colour.green (by omega) (by omega),
    Memory.load_store_of_disjoint _ colour.green (by omega),
    Memory.load_store_same memory start channelWidth colour.red hlow (by omega)]
  rfl

/-- A fill gives the visible points of the rectangle the colour, channel by channel reduced to
three trits, and no other point changes. -/
theorem pixel_fill (memory : Memory) (colour : Colour) (x y width height px py : Int) :
    pixel (fill memory colour x y width height) px py =
      if OnScreen px py ∧ Covers x y width height px py then
        ⟨colour.red.bmod 27, colour.green.bmod 27, colour.blue.bmod 27⟩
      else
        pixel memory px py := by
  by_cases hon : OnScreen px py
  · by_cases hcover : Covers x y width height px py
    · rw [if_pos ⟨hon, hcover⟩, ← pixel_storeRun_pixelDigits memory colour hon]
      apply pixel_congr
      rintro address hscreen rfl rfl
      have hwindow := (mem_window_iff hon address).2 ⟨hscreen, rfl, rfl⟩
      have hsize : Memory.size = 1594323 := rfl
      have hrange := hscreen
      simp only [IsScreenCell, base_eq, length_eq] at hrange
      rw [cell_fill, if_pos ⟨hscreen, hcover⟩, Memory.cell_storeRun, length_pixelDigits,
        if_pos ⟨hwindow.1, hwindow.2, by omega, by omega⟩,
        toNat_sub_eq_placeOf hwindow.1 hwindow.2]
    · rw [if_neg (fun h => hcover h.2)]
      apply pixel_congr
      rintro address hscreen rfl rfl
      rw [cell_fill, if_neg (fun h => hcover h.2)]
  · rw [if_neg (fun h => hon h.1)]
    simp only [pixel, addressOf?_of_not_onScreen hon]

end Screen

end TernaryConsole
