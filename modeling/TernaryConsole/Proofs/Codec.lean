import TernaryConsole.Proofs.Overflow

/-!
# Proofs.Codec — what a field of cells stands for

A row of cells, a window that may hang off either end of it, and a number: storing the number
writes the digits of its balanced residue into the cells that exist and touches no other, and
reading a window adds up its cells. `codec_law` states this for every window of at most eighty
cells and every number of 128 bits, together with the fact that neither loop needs more than 128
bits on the way.

Residue and digits are described without the codec, by what makes them unique: `IsResidue` and
`IsExpansion`.
-/

namespace TernaryConsole

namespace Field

/-! ## Residues and expansions -/

/-- `r` is congruent to `v` modulo `3 ^ length` and lies in the balanced range. -/
structure IsResidue (length : Nat) (v r : Int) : Prop where
  low : -((3 ^ length - 1) / 2) ≤ r
  high : r ≤ (3 ^ length - 1) / 2
  congruent : 3 ^ length ∣ r - v

/-- A run of digits, lowest first, with the weighted sum `r`. -/
structure IsExpansion (length : Nat) (r : Int) (run : List Trit) : Prop where
  length_eq : run.length = length
  sum_eq : ∑ i ∈ Finset.range length, 3 ^ i * (run.getD i .zero).toInt = r

theorem largest_eq_half (length : Nat) :
    Numeral.largest length = ((3 : Int) ^ length - 1) / 2 := by
  have hodd := Numeral.modulus_eq_two_mul_largest length
  have hpow : Numeral.modulus length = (3 : Int) ^ length := by
    rw [Numeral.modulus_eq_pow]
    push_cast
    rfl
  omega

theorem isResidue_bmod (length : Nat) (v : Int) : IsResidue length v (v.bmod (3 ^ length)) where
  low := by
    rw [← largest_eq_half]
    exact (Numeral.bmod_bounds length v).1
  high := by
    rw [← largest_eq_half]
    exact (Numeral.bmod_bounds length v).2
  congruent := by
    have hdvd := Numeral.modulus_dvd_value_sub length v
    rw [Numeral.value_digits, Numeral.modulus_eq_pow] at hdvd
    exact_mod_cast hdvd

theorem IsResidue.eq_bmod {length : Nat} {v r : Int} (h : IsResidue length v r) :
    r = v.bmod (3 ^ length) := by
  have hlow := h.low
  have hhigh := h.high
  have hdvd : Numeral.modulus length ∣ r - v := by
    rw [Numeral.modulus_eq_pow]
    exact_mod_cast h.congruent
  rw [← largest_eq_half] at hlow hhigh
  exact (Numeral.bmod_eq_of_dvd_sub hlow hhigh hdvd).symm

theorem isExpansion_digits (length : Nat) (v : Int) :
    IsExpansion length (v.bmod (3 ^ length)) (Numeral.digits length v) where
  length_eq := Numeral.length_digits length v
  sum_eq := by
    have hsum := Numeral.value_eq_sum (Numeral.digits length v)
    rw [Numeral.length_digits, Numeral.value_digits] at hsum
    exact hsum.symm

/-- A number has one expansion of each length at most. -/
theorem IsExpansion.unique {length : Nat} {r : Int} {run other : List Trit}
    (h : IsExpansion length r run) (hother : IsExpansion length r other) : run = other := by
  have hvalue : ∀ {list : List Trit}, IsExpansion length r list → Numeral.digits length r = list := by
    intro list hlist
    have hsum := Numeral.value_eq_sum list
    rw [hlist.length_eq, hlist.sum_eq] at hsum
    rw [← hlist.length_eq, ← hsum]
    exact Numeral.digits_value list
  rw [← hvalue h, ← hvalue hother]

/-! ## Rows of digits -/

/-- A run that fills a row is the row. -/
theorem putRun_of_size_eq {cells : Array Trit} {run : List Trit} (h : cells.size = run.length) :
    putRun cells 0 run = run.toArray := by
  apply cells_ext (by simp [h])
  intro address
  rw [cellAt_putRun]
  by_cases hmem : 0 ≤ address ∧ address < run.length
  · obtain ⟨index, rfl⟩ := Int.eq_ofNat_of_zero_le hmem.1
    rw [if_pos (by omega)]
    simp [cellAt]
  · rw [if_neg (by omega), cellAt_of_not_mem (by omega)]
    exact (cellAt_of_not_mem hmem).symm

/-- The digits of a number are the row of zeros in which it was stored. -/
theorem write_replicate (length : Nat) (v : Int) :
    write (Array.replicate length .zero) 0 length v = (Numeral.digits length v).toArray :=
  putRun_of_size_eq (by rw [Array.size_replicate, Numeral.length_digits])

/-- Folding a number into a word is reading its lowest fifty digits. -/
theorem wrap_eq_read (v : Int) : Word.wrap v = read (Numeral.digits 50 v).toArray 0 50 := by
  have hread := read_write_same (Array.replicate 50 .zero) 0 50 v (le_refl 0) (by simp)
  rw [write_replicate] at hread
  rw [hread, Word.wrap_eq_bmod_pow]

/-! ## The law -/

/-- What storing `v` in the window of `length` cells from `address` does to a row, and what
reading gives: `r` is the residue of `v` and `run` its expansion. -/
structure Codec (cells : Array Trit) (address : Int) (length : Nat) (v r : Int)
    (run : List Trit) : Prop where
  residue : IsResidue length v r
  residue_unique : ∀ other, IsResidue length v other → other = r
  /-- A number in the balanced range is its own residue. -/
  residue_of_mem : |v| ≤ (3 ^ length - 1) / 2 → r = v
  expansion : IsExpansion length r run
  expansion_unique : ∀ other, IsExpansion length r other → other = run
  size_eq : (write cells address length v).size = cells.size
  /-- The cells of the window that exist hold the digits. -/
  stored : ∀ i : Nat, i < length → 0 ≤ address + i → address + i < cells.size →
    cellAt (write cells address length v) (address + i) = run.getD i .zero
  kept : ∀ other, ¬ (address ≤ other ∧ other < address + length) →
    cellAt (write cells address length v) other = cellAt cells other
  /-- Reading adds up the cells of any row, where cells outside are zero. -/
  reads : ∀ row : Array Trit, read row address length =
    ∑ i ∈ Finset.range length, 3 ^ i * (cellAt row (address + i)).toInt
  outside : ∀ (row : Array Trit) (other : Int), ¬ (0 ≤ other ∧ other < row.size) →
    cellAt row other = .zero
  readBack : 0 ≤ address → address + length ≤ cells.size →
    read (write cells address length v) address length = r
  /-- No intermediate of either loop leaves 128 bits. -/
  checkedWrite : Checked.write cells address length v = some (write cells address length v)
  checkedRead : ∀ row : Array Trit,
    Checked.read row address length 0 = some (read row address length)
  /-- The digits of a number by themselves are a row of zeros in which it was stored. -/
  digits_eq : (Numeral.digits length v).toArray = write (Array.replicate length .zero) 0 length v
  /-- Folding into a word, by the two-sided fold of a remainder, is reading fifty digits. -/
  folds : Checked.wrap v = some (Word.wrap v) ∧
    Word.wrap v = read (Numeral.digits 50 v).toArray 0 50

/-- Storing and reading agree with residues and expansions, for every window and every number. -/
theorem codec_law (cells : Array Trit) (address : Int) (length : Nat) (v : Int)
    (short : length ≤ 80) (hv : Fits 128 v) :
    ∃ r run, Codec cells address length v r run := by
  have hrun := isExpansion_digits length v
  refine ⟨v.bmod (3 ^ length), Numeral.digits length v, ?_⟩
  exact
    { residue := isResidue_bmod length v
      residue_unique := fun other hother => hother.eq_bmod
      residue_of_mem := by
        intro hmem
        obtain ⟨hlow, hhigh⟩ := abs_le.1 hmem
        exact Numeral.bmod_of_mem (by rwa [largest_eq_half]) (by rwa [largest_eq_half])
      expansion := hrun
      expansion_unique := fun other hother => hother.unique hrun
      size_eq := size_write cells address length v
      stored := by
        intro i hi hlow hhigh
        rw [write, cellAt_putRun, Numeral.length_digits,
          if_pos ⟨by omega, by omega, hlow, hhigh⟩]
        congr 1
        omega
      kept := by
        intro other hout
        rw [write, cellAt_putRun, Numeral.length_digits, if_neg (by omega)]
      reads := fun row => read_eq_sum row address length
      outside := fun row other hout => cellAt_of_not_mem hout
      readBack := read_write_same cells address length v
      checkedWrite := Checked.write_eq_some cells address length hv
      checkedRead := fun row => Checked.read_eq_some row address short
      digits_eq := (write_replicate length v).symm
      folds := ⟨Checked.wrap_eq_some v, wrap_eq_read v⟩ }

/-- The least number of 128 bits, stored two cells in front of a row of three. -/
theorem codec_law_least :
    4 ≤ 80 ∧ Fits 128 (-2 ^ 127) ∧
      ∃ r run, Codec (Array.replicate 3 .pos) (-2) 4 (-2 ^ 127) r run := by
  have hfits : Fits 128 (-2 ^ 127) := by decide
  exact ⟨by decide, hfits, codec_law (Array.replicate 3 .pos) (-2) 4 (-2 ^ 127) (by decide) hfits⟩

end Field

end TernaryConsole
