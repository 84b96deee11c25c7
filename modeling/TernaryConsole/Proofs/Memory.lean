import TernaryConsole.Memory
import TernaryConsole.Proofs.Numeral

/-!
# Proofs.Memory — what reads and writes of windows do to single cells

The view of memory is `Memory.cell`, a digit at every integer address with zeros outside. Every
operation has one equation through that view (`cell_storeRun`, `cell_clear`), and two memories with
the same view are equal (`ext_cell`). A stored number reads back as its balanced residue
(`load_store_same`), and narrowing an address changes no access (`load_narrow`, `store_narrow`).
-/

namespace TernaryConsole

namespace Field

/-! ## Cells -/

theorem cellAt_of_not_mem {cells : Array Trit} {address : Int}
    (h : ¬ (0 ≤ address ∧ address < cells.size)) : cellAt cells address = .zero := by
  cases address with
  | negSucc n => rfl
  | ofNat index =>
    have hout : ¬ index < cells.size := by
      intro hlt
      exact h ⟨Int.natCast_nonneg index, Int.ofNat_lt.2 hlt⟩
    simp [cellAt, hout]

/-- Rows of equal length with the same view are equal. -/
theorem cells_ext {a b : Array Trit} (hsize : a.size = b.size)
    (h : ∀ address, cellAt a address = cellAt b address) : a = b := by
  apply Array.ext hsize
  intro index ha hb
  have hcell := h (index : Int)
  simpa [cellAt, ha, hb] using hcell

/-! ## Runs -/

/-- A run that is written replaces the cells of its window that exist. -/
theorem cellAt_putRun (cells : Array Trit) (address other : Int) (digits : List Trit) :
    cellAt (putRun cells address digits) other =
      if address ≤ other ∧ other < address + digits.length ∧ 0 ≤ other ∧ other < cells.size then
        digits.getD (other - address).toNat .zero
      else
        cellAt cells other := by
  -- By induction on the digits; the row and the start of the window change on the way.
  induction digits generalizing cells address with
  | nil =>
    have hempty : ¬ (address ≤ other ∧ other < address + ([] : List Trit).length ∧ 0 ≤ other ∧
        other < cells.size) := by
      simp only [List.length_nil]
      omega
    rw [if_neg hempty]
    rfl
  | cons digit digits ih =>
    simp only [putRun, ih, cellAt_putCell, size_putCell, List.length_cons]
    by_cases hhead : other = address
    · -- The first cell of the window: the later writes begin behind it.
      subst hhead
      by_cases hmem : 0 ≤ other ∧ other < cells.size
      · rw [if_neg (by omega), if_pos (by omega), if_pos (by omega)]
        simp
      · rw [if_neg (by omega), if_neg (by omega), if_neg (by omega)]
    · by_cases htail : address + 1 ≤ other ∧ other < address + 1 + digits.length ∧ 0 ≤ other ∧
          other < cells.size
      · have hindex : (other - address).toNat = (other - (address + 1)).toNat + 1 := by omega
        rw [if_pos htail, if_pos (by omega), hindex, List.getD_cons_succ]
      · rw [if_neg htail, if_neg (by omega), if_neg (by omega)]

theorem putRun_append (cells : Array Trit) (address : Int) (first second : List Trit) :
    putRun cells address (first ++ second) =
      putRun (putRun cells address first) (address + first.length) second := by
  induction first generalizing cells address with
  | nil => simp [putRun]
  | cons digit first ih =>
    have hshift : address + (digit :: first).length = address + 1 + first.length := by
      simp only [List.length_cons]
      omega
    rw [List.cons_append, putRun, ih, hshift, putRun]

theorem run_congr {a b : Array Trit} {address : Int} {length : Nat}
    (h : ∀ i : Nat, i < length → cellAt a (address + i) = cellAt b (address + i)) :
    run a address length = run b address length := by
  induction length generalizing address with
  | zero => rfl
  | succ length ih =>
    have hhead := h 0 (Nat.succ_pos _)
    have htail : run a (address + 1) length = run b (address + 1) length := by
      apply ih
      intro i hi
      have hcell := h (i + 1) (by omega)
      rwa [show address + ((i + 1 : Nat) : Int) = address + 1 + i by omega] at hcell
    simp only [run, htail]
    simpa using hhead

/-- A run that was written inside the row is read back. -/
theorem run_putRun_same (cells : Array Trit) (address : Int) (digits : List Trit)
    (low : 0 ≤ address) (high : address + digits.length ≤ cells.size) :
    run (putRun cells address digits) address digits.length = digits := by
  induction digits generalizing cells address with
  | nil => rfl
  | cons digit digits ih =>
    simp only [List.length_cons] at high
    -- The digits behind the first one do not touch its cell.
    have hhead : cellAt (putRun (putCell cells address digit) (address + 1) digits) address
        = digit := by
      rw [cellAt_putRun, if_neg (by omega), cellAt_putCell, if_pos (by omega)]
    have htail := ih (putCell cells address digit) (address + 1) (by omega)
      (by rw [size_putCell]; omega)
    simp only [List.length_cons, putRun, run, hhead, htail]

theorem getD_run (cells : Array Trit) (address : Int) {length i : Nat} (h : i < length) :
    (run cells address length).getD i .zero = cellAt cells (address + i) := by
  induction length generalizing address i with
  | zero => exact absurd h (Nat.not_lt_zero i)
  | succ length ih =>
    cases i with
    | zero => simp [run]
    | succ i =>
      rw [run, List.getD_cons_succ, ih (address + 1) (Nat.lt_of_succ_lt_succ h)]
      congr 1
      omega

/-- Reading a field is adding up its cells with their weights. -/
theorem read_eq_sum (cells : Array Trit) (address : Int) (length : Nat) :
    read cells address length =
      ∑ i ∈ Finset.range length, 3 ^ i * (cellAt cells (address + i)).toInt := by
  rw [read_eq_value_run, Numeral.value_eq_sum, length_run]
  refine Finset.sum_congr rfl fun i hi => ?_
  rw [getD_run cells address (Finset.mem_range.1 hi)]

/-- A number that is stored inside the row reads back as its balanced residue. -/
theorem read_write_same (cells : Array Trit) (address : Int) (length : Nat) (value : Int)
    (low : 0 ≤ address) (high : address + length ≤ cells.size) :
    read (write cells address length value) address length = value.bmod (3 ^ length) := by
  have hrun := run_putRun_same cells address (Numeral.digits length value) low
    (by rwa [Numeral.length_digits])
  rw [Numeral.length_digits] at hrun
  rw [read_eq_value_run, write, hrun, Numeral.value_digits]

theorem read_bounds (cells : Array Trit) (address : Int) (length : Nat) :
    -Numeral.largest length ≤ read cells address length ∧
      read cells address length ≤ Numeral.largest length := by
  have hbounds := Numeral.value_bounds (run cells address length)
  rwa [length_run, ← read_eq_value_run] at hbounds

theorem cellAt_clear (cells : Array Trit) (start count : Nat) (address : Int) :
    cellAt (clear cells start count) address =
      if start ≤ address ∧ address < start + count then .zero else cellAt cells address := by
  induction count generalizing cells start with
  | zero =>
    rw [if_neg (by omega)]
    rfl
  | succ count ih =>
    -- Clearing a cell is writing a zero digit, and outside the row cells are zero anyway.
    have hfirst : cellAt (cells.setIfInBounds start .zero) address =
        if address = start then .zero else cellAt cells address := by
      have hput := cellAt_putCell cells (start : Int) address .zero
      rw [show putCell cells (start : Int) .zero = cells.setIfInBounds start .zero from rfl] at hput
      rw [hput]
      by_cases hsame : address = start
      · subst hsame
        by_cases hmem : (start : Int) < cells.size
        · simp [hmem]
        · rw [if_neg (by omega), if_pos rfl, cellAt_of_not_mem (by omega)]
      · rw [if_neg (by omega), if_neg hsame]
    rw [clear, ih, hfirst]
    push_cast
    by_cases hsame : address = start
    · rw [if_neg (by omega), if_pos hsame, if_pos (by omega)]
    · by_cases hlater : (start : Int) + 1 ≤ address ∧ address < start + 1 + count
      · rw [if_pos hlater, if_pos (by omega)]
      · rw [if_neg hlater, if_neg hsame, if_neg (by omega)]

end Field

namespace Memory

variable {memory a b : Memory} {address : Int}

/-! ## The view -/

theorem cell_of_not_mem (h : ¬ (0 ≤ address ∧ address < size)) :
    memory.cell address = .zero :=
  Field.cellAt_of_not_mem (by rwa [memory.size_eq])

/-- Memories with the same view are equal. -/
theorem ext_cell (h : ∀ address, a.cell address = b.cell address) : a = b := by
  have hcells : a.cells = b.cells := Field.cells_ext (a.size_eq.trans b.size_eq.symm) h
  cases a
  cases b
  simpa using hcells

/-! ## Writing -/

theorem cell_storeRun (memory : Memory) (address other : Int) (digits : List Trit) :
    (memory.storeRun address digits).cell other =
      if address ≤ other ∧ other < address + digits.length ∧ 0 ≤ other ∧ other < size then
        digits.getD (other - address).toNat .zero
      else
        memory.cell other := by
  simp only [cell, storeRun, Field.cellAt_putRun, memory.size_eq]

/-- Cells outside the window of a write stay. -/
theorem cell_storeRun_of_not_mem {digits : List Trit} {other : Int}
    (h : ¬ (address ≤ other ∧ other < address + digits.length)) :
    (memory.storeRun address digits).cell other = memory.cell other := by
  rw [cell_storeRun, if_neg (by omega)]

/-- Nothing that lay in the window of a write is left: memories that differ there only become
equal. -/
theorem storeRun_congr {digits : List Trit}
    (h : ∀ other, ¬ (address ≤ other ∧ other < address + digits.length) →
      a.cell other = b.cell other) : a.storeRun address digits = b.storeRun address digits := by
  refine ext_cell fun other => ?_
  rw [cell_storeRun, cell_storeRun]
  by_cases hstored : address ≤ other ∧ other < address + digits.length ∧ 0 ≤ other ∧ other < size
  · rw [if_pos hstored, if_pos hstored]
  · rw [if_neg hstored, if_neg hstored]
    by_cases hmem : 0 ≤ other ∧ other < size
    · exact h other (by omega)
    · exact (cell_of_not_mem hmem).trans (cell_of_not_mem hmem).symm

theorem store_eq_storeRun (memory : Memory) (address : Int) (length : Nat) (value : Int) :
    memory.store address length value =
      memory.storeRun address (Numeral.digits length value) := rfl

theorem storeRun_append (memory : Memory) (address : Int) (first second : List Trit) :
    memory.storeRun address (first ++ second) =
      (memory.storeRun address first).storeRun (address + first.length) second := by
  simp only [storeRun, Field.putRun_append]

theorem cell_store_of_not_mem {length : Nat} {value other : Int}
    (h : ¬ (address ≤ other ∧ other < address + length)) :
    (memory.store address length value).cell other = memory.cell other := by
  rw [store_eq_storeRun]
  exact cell_storeRun_of_not_mem (by rwa [Numeral.length_digits])

theorem cell_clear (memory : Memory) (start stop : Nat) (other : Int) :
    (memory.clear start stop).cell other =
      if start ≤ other ∧ other < stop then .zero else memory.cell other := by
  have hview : (memory.clear start stop).cell other =
      Field.cellAt (Field.clear memory.cells start (min stop size - start)) other := rfl
  rw [hview, Field.cellAt_clear]
  by_cases hmem : (start : Int) ≤ other ∧ other < stop
  · rw [if_pos hmem]
    by_cases hsize : other < size
    · rw [if_pos (by omega)]
    · -- The clipped part of the span lies outside memory.
      rw [if_neg (by omega)]
      exact cell_of_not_mem (by omega)
  · rw [if_neg hmem, if_neg (by omega)]
    rfl

/-! ## Reading -/

theorem load_congr {length : Nat}
    (h : ∀ other, address ≤ other → other < address + length → a.cell other = b.cell other) :
    a.load address length = b.load address length := by
  simp only [load, Field.read_eq_value_run]
  congr 1
  apply Field.run_congr
  intro i hi
  exact h (address + i) (by omega) (by omega)

theorem load_bounds (memory : Memory) (address : Int) (length : Nat) :
    -Numeral.largest length ≤ memory.load address length ∧
      memory.load address length ≤ Numeral.largest length :=
  Field.read_bounds memory.cells address length

theorem load_blank (address : Int) (length : Nat) : blank.load address length = 0 := by
  induction length generalizing address with
  | zero => rfl
  | succ length ih =>
    have hcell : Field.cellAt blank.cells address = .zero := cell_blank address
    have htail : Field.read blank.cells (address + 1) length = 0 := ih (address + 1)
    simp [load, Field.read, hcell, htail, Trit.toInt]

/-- A number that is stored inside memory reads back as its balanced residue. -/
theorem load_store_same (memory : Memory) (address : Int) (length : Nat) (value : Int)
    (low : 0 ≤ address) (high : address + length ≤ size) :
    (memory.store address length value).load address length = value.bmod (3 ^ length) :=
  Field.read_write_same memory.cells address length value low (by rwa [memory.size_eq])

/-- A number is read as before when another window is written. -/
theorem load_store_of_disjoint (memory : Memory) (value : Int) {other : Int} {width length : Nat}
    (h : other + width ≤ address ∨ address + length ≤ other) :
    (memory.store other width value).load address length = memory.load address length := by
  apply load_congr
  intro place _ _
  exact cell_store_of_not_mem (by omega)

/-! ## Narrow addresses -/

theorem narrow_eq_self {value : Int} (low : -9223372036854775808 ≤ value)
    (high : value ≤ 9223372036854775807) : narrow value = value := by
  unfold narrow
  omega

/-- Addresses that narrowing changes are so far away that neither they nor the narrowed ones begin
a window that meets memory. -/
theorem not_mem_of_narrow_ne {value start other : Int} {length : Nat} (short : length ≤ 80)
    (hfar : narrow value ≠ value) (hstart : start = narrow value ∨ start = value)
    (hlow : start ≤ other) (hhigh : other < start + length) : ¬ (0 ≤ other ∧ other < size) := by
  have hsize : size = 1594323 := rfl
  unfold narrow at hfar hstart
  omega

theorem load_narrow (memory : Memory) (value : Int) {length : Nat} (short : length ≤ 80) :
    memory.load (narrow value) length = memory.load value length := by
  by_cases hnear : narrow value = value
  · rw [hnear]
  · -- Both windows are outside memory and read as zero.
    have hzero : ∀ start : Int, start = narrow value ∨ start = value →
        memory.load start length = 0 := by
      intro start hstart
      have hblank : memory.load start length = blank.load start length := by
        apply load_congr
        intro other hlow hhigh
        rw [cell_blank]
        exact cell_of_not_mem (not_mem_of_narrow_ne short hnear hstart hlow hhigh)
      rw [hblank]
      exact load_blank start length
    rw [hzero _ (Or.inl rfl), hzero _ (Or.inr rfl)]

theorem store_narrow (memory : Memory) (value content : Int) {length : Nat} (short : length ≤ 80) :
    memory.store (narrow value) length content = memory.store value length content := by
  by_cases hnear : narrow value = value
  · rw [hnear]
  · -- Neither window meets memory, so both writes are dropped.
    have hsame : ∀ start : Int, start = narrow value ∨ start = value →
        memory.store start length content = memory := by
      intro start hstart
      apply ext_cell
      intro other
      rw [store_eq_storeRun, cell_storeRun, Numeral.length_digits]
      apply if_neg
      rintro ⟨hlow, hhigh, hmem⟩
      exact not_mem_of_narrow_ne short hnear hstart hlow hhigh hmem
    rw [hsame _ (Or.inl rfl), hsame _ (Or.inr rfl)]

end Memory

end TernaryConsole
