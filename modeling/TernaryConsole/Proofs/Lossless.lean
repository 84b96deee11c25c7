import Mathlib.Data.List.GetD
import TernaryConsole.Proofs.Codec
import TernaryConsole.Proofs.Listing

/-!
# Proofs.Lossless — reading a window loses nothing

A number that was read from a window has the cells of the window as its digits (`digits_read`), so
storing it in the same place changes nothing, and windows that read alike hold the same cells. A
window that hangs off the row has digits for cells that do not exist. These are zero when it is read
and dropped when it is written.

`reads_losslessly` states this for rows of cells, for the trit column of a listing and for the three
fields of an instruction.
-/

namespace TernaryConsole

/-! ## Rows -/

namespace Field

variable {cells other : Array Trit} {address start : Int} {length : Nat}

/-- The digits of what a window reads as are its cells. -/
theorem digits_read (cells : Array Trit) (address : Int) (length : Nat) :
    Numeral.digits length (read cells address length) = run cells address length := by
  have hrun := Numeral.digits_value (run cells address length)
  rwa [length_run, ← read_eq_value_run] at hrun

/-- Writing the cells of a window into a row that differs at most there gives the row that they are
from. -/
theorem putRun_run (hsize : other.size = cells.size)
    (h : ∀ place, ¬ (address ≤ place ∧ place < address + length) →
      cellAt other place = cellAt cells place) :
    putRun other address (run cells address length) = cells := by
  apply cells_ext (by rw [size_putRun, hsize])
  intro place
  rw [cellAt_putRun, length_run]
  by_cases hstored : address ≤ place ∧ place < address + length ∧ 0 ≤ place ∧ place < other.size
  · have hindex : (place - address).toNat < length := by omega
    rw [if_pos hstored, getD_run cells address hindex]
    congr 1
    omega
  · rw [if_neg hstored]
    by_cases hrow : 0 ≤ place ∧ place < other.size
    · exact h place (by omega)
    · -- What the window has outside of the row was dropped, and reads as zero in both rows.
      rw [cellAt_of_not_mem hrow, cellAt_of_not_mem (by rwa [← hsize])]

theorem write_read (cells : Array Trit) (address : Int) (length : Nat) :
    write cells address length (read cells address length) = cells := by
  rw [write, digits_read]
  exact putRun_run rfl fun _ _ => rfl

/-- Windows read alike exactly if their cells are the same. -/
theorem read_eq_read_iff :
    read cells address length = read other start length ↔
      ∀ i : Nat, i < length → cellAt cells (address + i) = cellAt other (start + i) := by
  constructor
  · intro h i hi
    have hrun : run cells address length = run other start length := by
      rw [← digits_read, h, digits_read]
    rw [← getD_run cells address hi, hrun, getD_run other start hi]
  · intro h
    rw [read_eq_sum, read_eq_sum]
    refine Finset.sum_congr rfl fun i hi => ?_
    rw [h i (Finset.mem_range.1 hi)]

theorem fits_read (cells : Array Trit) (address : Int) (short : length ≤ 80) :
    Fits 128 (read cells address length) := by
  have hbounds := read_bounds cells address length
  have hlarge := Checked.largest_le_of_le short
  have hvalue : Numeral.largest 80 = 73904414707172961658041605103191648800 := by
    rw [Numeral.largest, Numeral.modulus_eq_pow]
    rfl
  exact fits_128_iff.2 ⟨by omega, by omega⟩

theorem run_append (cells : Array Trit) (address : Int) (first second : Nat) :
    run cells address (first + second) =
      run cells address first ++ run cells (address + first) second := by
  induction first generalizing address with
  | zero => simp [run]
  | succ first ih =>
    have hshift : address + 1 + first = address + ((first + 1 : Nat) : Int) := by omega
    rw [Nat.succ_add, run, ih, hshift, run, List.cons_append]

theorem run_eq_map (cells : Array Trit) (address : Int) (length : Nat) :
    run cells address length = (List.range length).map fun i : Nat => cellAt cells (address + i) := by
  refine List.ext_getElem (by simp) fun i hrun hrange => ?_
  have hi : i < length := by simpa using hrange
  have hcell := getD_run cells address hi
  rw [List.getD_eq_getElem _ _ hrun] at hcell
  rw [hcell, List.getElem_map, List.getElem_range]

/-- What the windows of a row read as says what they hold. -/
structure Lossless (cells : Array Trit) : Prop where
  restored : ∀ address length, write cells address length (read cells address length) = cells
  /-- Both loops get there with 128 bits. -/
  checked : ∀ address length, length ≤ 80 →
    (Checked.read cells address length 0).bind (Checked.write cells address length) = some cells
  /-- Windows anywhere, in this row and in another one. -/
  determined : ∀ (other : Array Trit) (address start : Int) (length : Nat),
    read cells address length = read other start length ↔
      ∀ i : Nat, i < length → cellAt cells (address + i) = cellAt other (start + i)

theorem lossless (cells : Array Trit) : Lossless cells where
  restored := write_read cells
  checked := by
    intro address length short
    rw [Checked.read_eq_some cells address short, Option.bind_some,
      Checked.write_eq_some cells address length (fits_read cells address short), write_read]
  determined := fun other address start length => read_eq_read_iff

end Field

/-! ## Instructions -/

theorem Memory.storeRun_run {memory other : Memory} {address : Int} {length : Nat}
    (h : ∀ place, ¬ (address ≤ place ∧ place < address + length) →
      other.cell place = memory.cell place) :
    other.storeRun address (Field.run memory.cells address length) = memory := by
  have hcells : (other.storeRun address (Field.run memory.cells address length)).cells =
      memory.cells :=
    Field.putRun_run (other.size_eq.trans memory.size_eq.symm) h
  exact ext_cell fun place => congrArg (Field.cellAt · place) hcells

/-- Storing the three fields of a slot again restores it, whatever has been put there. -/
theorem Instruction.store_fields {memory other : Memory} {address : Int}
    (h : ∀ place, ¬ (address ≤ place ∧ place < address + 15) →
      other.cell place = memory.cell place) :
    store other address (memory.load address codeWidth) (memory.load (address + 4) operand1Width)
      (memory.load (address + 9) operand2Width) = memory := by
  -- The fields lie one behind the other, and together they are the cells of the slot.
  have hslot : Field.run memory.cells address 15 =
      Field.run memory.cells address codeWidth ++
        Field.run memory.cells (address + 4) operand1Width ++
          Field.run memory.cells (address + 9) operand2Width := by
    rw [show 15 = codeWidth + operand1Width + operand2Width by rfl, Field.run_append,
      Field.run_append]
    rfl
  rw [store_eq_storeRun, Memory.load, Memory.load, Memory.load, Field.digits_read,
    Field.digits_read, Field.digits_read, ← hslot]
  exact Memory.storeRun_run h

/-! ## Listings -/

namespace Listing

theorem ofSymbol?_symbol (digit : Trit) : Trit.ofSymbol? digit.symbol = some digit := by
  cases digit <;> rfl

/-- From right to left, the trits of a slot are printed in the order of its cells. -/
theorem reverse_trits (memory : Memory) (start : Int) :
    (trits memory start).toList.reverse =
      (List.range 15).map fun i : Nat => (memory.cell (start + i)).symbol := by
  have hdigits : Numeral.digits Memory.slotWidth (memory.load start Memory.slotWidth) =
      (List.range 15).map fun i : Nat => memory.cell (start + i) :=
    (Field.digits_read memory.cells start 15).trans (Field.run_eq_map memory.cells start 15)
  rw [trits, Numeral.text, hdigits, String.toList_ofList, ← List.map_reverse, List.reverse_reverse,
    List.map_map]
  rfl

/-- What stands in a line in front of the trits. -/
def front (memory : Memory) (start : Int) : String :=
  address start ++ ": " ++ Column.left 20 (slot memory start) ++ " // "

/-- The line of a slot without its line feed. -/
def content (memory : Memory) (start : Int) : String :=
  front memory start ++ trits memory start

/-- The line of a slot, which ends in a column that says from right to left what its fifteen cells
hold. -/
def ShowsCells (memory : Memory) (start : Int) (line : List Char) : Prop :=
  ∃ column : List Char, line = (front memory start).toList ++ column ∧
    column.reverse.map Trit.ofSymbol? =
      (List.range 15).map fun i : Nat => some (memory.cell (start + i))

theorem showsCells_content (memory : Memory) (start : Int) :
    ShowsCells memory start (content memory start).toList := by
  refine ⟨(trits memory start).toList, String.toList_append, ?_⟩
  rw [reverse_trits, List.map_map]
  exact List.map_congr_left fun i _ => ofSymbol?_symbol _

/-! ### Line breaks -/

/-- Spaces are the only white space in the text. -/
def OnLine (text : List Char) : Prop :=
  ∀ c ∈ text, Text.isBlank c = true → c = ' '

instance (text : List Char) : Decidable (OnLine text) :=
  List.decidableBAll _ text

theorem OnLine.append {text tail : List Char} (h : OnLine text) (htail : OnLine tail) :
    OnLine (text ++ tail) := by
  intro c hc
  rcases List.mem_append.1 hc with hfront | hback
  · exact h c hfront
  · exact htail c hback

theorem onLine_of_solid {text : List Char} (h : ∀ c ∈ text, Text.isBlank c = false) :
    OnLine text := by
  intro c hc hblank
  rw [h c hc] at hblank
  exact absurd hblank (by decide)

theorem OnLine.not_mem {text : List Char} (h : OnLine text) {c : Char}
    (hblank : Text.isBlank c = true) (hspace : c ≠ ' ') : c ∉ text :=
  fun hc => hspace (h c hc hblank)

theorem onLine_instruction (i : Instruction) : OnLine (instruction i).toList := by
  by_cases hassigned : i.opcode = .nop
  · have htext : (instruction i).toList = ['?', '?', '?', ' '] ++ (Int.repr i.code).toList := by
      rw [instruction, if_pos hassigned, String.toList_append]
      rfl
    have hmarks : OnLine ['?', '?', '?', ' '] := by decide
    rw [htext]
    exact hmarks.append (onLine_of_solid (Assembly.isWord_repr i.code).solid)
  · rw [instruction_toList hassigned]
    intro c hc hblank
    by_contra hspace
    exact Assembly.not_mem_written hblank hspace hc

theorem onLine_address (value : Int) : OnLine (address value).toList := by
  have hsign : OnLine (if value < 0 then "-" else "").toList := by split <;> decide
  have hzeros : ∀ count, OnLine (List.replicate count '0') := fun count =>
    onLine_of_solid fun c hc => by rw [List.eq_of_mem_replicate hc]; decide
  have hdigits : OnLine (Nat.repr value.natAbs).toList :=
    onLine_of_solid (Assembly.isWord_repr value.natAbs).solid
  simp only [address, Decimal.zeroPadded, String.toList_append, String.toList_ofList]
  exact (hsign.append (hzeros _)).append hdigits

theorem onLine_left (width : Nat) {text : String} (h : OnLine text.toList) :
    OnLine (Column.left width text).toList := by
  rw [Column.left, String.toList_append]
  refine h.append ?_
  intro c hc _
  rw [Column.blanks, String.toList_ofList] at hc
  exact List.eq_of_mem_replicate hc

theorem onLine_trits (memory : Memory) (start : Int) : OnLine (trits memory start).toList := by
  apply onLine_of_solid
  intro c hc
  have hsymbol : c ∈ (trits memory start).toList.reverse := List.mem_reverse.2 hc
  rw [reverse_trits] at hsymbol
  obtain ⟨i, -, rfl⟩ := List.mem_map.1 hsymbol
  cases memory.cell (start + i) <;> decide

theorem onLine_content (memory : Memory) (start : Int) :
    OnLine (content memory start).toList := by
  have hcolon : OnLine ": ".toList := by decide
  have hslashes : OnLine " // ".toList := by decide
  have hinstruction : OnLine (Column.left 20 (slot memory start)).toList :=
    onLine_left 20 (onLine_instruction _)
  simp only [content, front, String.toList_append]
  exact ((((onLine_address start).append hcolon).append hinstruction).append hslashes).append
    (onLine_trits memory start)

/-! ### All lines -/

/-- The lines in front of the slots. -/
def headerLines : List (List Char) :=
  ["// VOID-3 Disassembly".toList, "// -----------------".toList, []]

/-- The lines of a listing: those of the header and one for each slot. -/
def contents (memory : Memory) (base : Int) (count : Nat) : List (List Char) :=
  headerLines ++ (List.range count).map fun n => (content memory (Memory.slotStart base n)).toList

theorem program_toList (memory : Memory) (base : Int) (count : Nat) :
    (program memory base count).toList =
      ((contents memory base count).map fun line => line ++ ['\n']).flatten := by
  have hheader : header.toList = (headerLines.map fun line => line ++ ['\n']).flatten := by decide
  have hline : ∀ start, (line memory start).toList = (content memory start).toList ++ ['\n'] :=
    fun start => String.toList_append
  rw [program, String.toList_append, hheader, contents, List.map_append, List.flatten_append]
  simp [String.toList_join, List.flatMap_def, Function.comp_def, hline]

theorem lines_program (memory : Memory) (base : Int) (count : Nat) :
    Text.lines (program memory base count).toList = contents memory base count := by
  have hcontents : ∀ line ∈ contents memory base count, OnLine line := by
    intro line hline
    rcases List.mem_append.1 hline with hheader | hslot
    · have hclean : ∀ line ∈ headerLines, OnLine line := by decide
      exact hclean line hheader
    · obtain ⟨n, -, rfl⟩ := List.mem_map.1 hslot
      exact onLine_content memory _
  have hreturns : (contents memory base count).map Text.withoutReturn =
      (contents memory base count).map id :=
    List.map_congr_left fun line hline =>
      Text.withoutReturn_of_not_mem ((hcontents line hline).not_mem rfl (by decide))
  rw [program_toList, Text.lines_flatten, hreturns, List.map_id]
  exact fun line hline => (hcontents line hline).not_mem rfl (by decide)

end Listing

/-! ## The law -/

/-- What is read from memory says what it holds: line by line in a listing, and field by field in a
slot. -/
structure Memory.Legible (memory : Memory) : Prop where
  lines : ∀ (base : Int) (count : Nat), ∃ slotLines,
    Text.lines (Listing.program memory base count).toList = Listing.headerLines ++ slotLines ∧
      slotLines.length = count ∧
      ∀ n line, slotLines[n]? = some line →
        Listing.ShowsCells memory (slotStart base n) line
  /-- The fields that an instruction is fetched from put its slot back into any memory that is the
  same around it. -/
  fields : ∀ address : Int,
    let code := memory.load address Instruction.codeWidth
    let operand1 := memory.load (address + 4) Instruction.operand1Width
    let operand2 := memory.load (address + 9) Instruction.operand2Width
    Instruction.fetch memory address = Instruction.ofFields code operand1 operand2 ∧
      ∀ other : Memory,
        (∀ place, ¬ (address ≤ place ∧ place < address + 15) →
          other.cell place = memory.cell place) →
        Instruction.store other address code operand1 operand2 = memory

theorem Memory.legible (memory : Memory) : memory.Legible where
  lines := by
    intro base count
    refine ⟨_, Listing.lines_program memory base count, by simp, ?_⟩
    intro n line hline
    rw [List.getElem?_map] at hline
    obtain ⟨k, hk, rfl⟩ := Option.map_eq_some_iff.1 hline
    obtain ⟨hn, hindex⟩ := List.getElem?_eq_some_iff.1 hk
    rw [List.getElem_range] at hindex
    subst hindex
    exact Listing.showsCells_content memory _
  fields := fun _ => ⟨rfl, fun _ h => Instruction.store_fields h⟩

/-- Storing what a window reads as changes nothing, whether or not the window hangs off the row, and
windows that read alike hold the same cells. So a listing shows the cells of its slots, and the
fields of a slot restore it. -/
theorem reads_losslessly (cells : Array Trit) (memory : Memory) :
    Field.Lossless cells ∧ memory.Legible :=
  ⟨Field.lossless cells, memory.legible⟩

end TernaryConsole
