import TernaryConsole.Proofs.Assembly

/-!
# Proofs.Image — what assembling a text leaves in memory

Reading a text (`operations`) and assembling it into a memory are two ways through the same lines.
`Describes` says how they fit together at any base address, negative ones and windows that hang off
memory included: the counts of the report, the instruction that each slot holds, the cells that
stay, and that nothing which lay in the window before is left in the result
(`describes_assemble`).
-/

namespace TernaryConsole

/-- The code that is stored for an assigned operation fits four trits and is read as that
operation. -/
theorem Opcode.ofCode_bmod_code {opcode : Opcode} (h : opcode ≠ .nop) :
    ofCode ((opcode.code?.getD 0).bmod (3 ^ 4)) = opcode := by
  cases opcode with
  | nop => exact absurd rfl h
  | _ => rfl

theorem Opcode.ne_nop_of_ofMnemonic? {name : List Char} {opcode : Opcode}
    (h : ofMnemonic? name = some opcode) : opcode ≠ .nop := by
  rcases Option.or_eq_some_iff.1 h with halias | ⟨-, hfound⟩
  · -- No alias stands for the operation of unassigned codes.
    have hmem := List.lookup_eq_some_iff.1 halias
    obtain ⟨front, back, heq, -⟩ := hmem
    rintro rfl
    have hnop : (String.ofList (name.map Char.toUpper), Opcode.nop) ∈ aliases := by
      rw [heq]
      simp
    simp [aliases] at hnop
  · exact (mem_assigned_iff opcode).1 (List.mem_of_find?_eq_some hfound)

namespace Assembly

/-! ## Lines without an operation -/

/-- A line with text outside its comment, the first word of which is no mnemonic. -/
def NamesNothing (line : List Char) : Prop :=
  (∃ c ∈ code line, Text.isBlank c = false) ∧
    ∀ word ∈ (Text.words (code line)).head?, Opcode.ofMnemonic? word = none

instance : DecidablePred NamesNothing := fun line =>
  inferInstanceAs (Decidable (_ ∧ ∀ word ∈ (Text.words (code line)).head?, _))

theorem isBlankLine_eq_false_iff (line : List Char) :
    isBlankLine line = false ↔ ∃ c ∈ code line, Text.isBlank c = false := by
  constructor
  · intro h
    by_contra hnone
    have hblank : ∀ c ∈ code line, Text.isBlank c = true := by simpa using hnone
    have hstart : Text.trimStart (code line) = [] := List.dropWhile_eq_nil_iff.2 hblank
    simp [isBlankLine, Text.trim, Text.trimEnd, Text.dropTrailing, hstart] at h
  · rintro ⟨c, hmem, hc⟩
    by_contra h
    have hblank : isBlankLine line = true := by simpa using h
    rw [Text.forall_blank_of_trim_isEmpty hblank c hmem] at hc
    exact absurd hc (by decide)

theorem operation?_eq_none_iff (line : List Char) :
    operation? line = none ↔
      ∀ word ∈ (Text.words (code line)).head?, Opcode.ofMnemonic? word = none := by
  cases hwords : Text.words (code line) with
  | nil => simp [operation?, hwords]
  | cons name operands => simp [operation?, hwords]

/-- The test for blank lines and the reader of operations sort the lines in the same way. -/
theorem isSkipped_iff (line : List Char) : isSkipped line = true ↔ NamesNothing line := by
  have hblank := isBlankLine_eq_false_iff line
  have hnone := operation?_eq_none_iff line
  simp only [isSkipped, NamesNothing, Bool.and_eq_true, Bool.not_eq_true',
    Option.isNone_iff_eq_none, hblank, hnone]

/-! ## Operations in their slots -/

theorem opcode_ne_nop_of_mem {source : String} {operation : Operation}
    (h : operation ∈ operations source) : operation.opcode ≠ .nop := by
  obtain ⟨line, -, hline⟩ := List.mem_filterMap.1 h
  cases hwords : Text.words (code line) with
  | nil => simp [operation?, hwords] at hline
  | cons name operands =>
    simp only [operation?, hwords, Option.map_eq_some_iff] at hline
    obtain ⟨opcode, hname, rfl⟩ := hline
    exact Opcode.ne_nop_of_ofMnemonic? hname

theorem opcode_instruction {operation : Operation} (h : operation.opcode ≠ .nop) :
    operation.instruction.opcode = operation.opcode :=
  Opcode.ofCode_bmod_code h

/-- Cutting the first operand down to five trits does not change the register that it names. -/
theorem operand1_instruction (operation : Operation) :
    (operation.instruction.operand1.val : Int) = operation.operand1 % 27 := by
  have hmod : ((3 ^ 5 : Nat) : Int) ∣ operation.operand1.bmod (3 ^ 5) - operation.operand1 :=
    Int.dvd_bmod_sub_self
  obtain ⟨k, hk⟩ := hmod
  have hregister : (operation.instruction.operand1.val : Int) =
      (operation.operand1.bmod (3 ^ 5) % 27).toNat := rfl
  rw [hregister]
  omega

/-! ## The law -/

/-- The memory and the report after assembling `source` at `base`, as the operations of the text
describe them. -/
structure Describes (memory : Memory) (source : String) (base : Int) (after : Memory)
    (report : Report) : Prop where
  base_eq : report.base = base
  instructions_eq : report.instructions = (operations source).length
  skipped_eq : report.skipped = (Text.lines source.toList).countP (NamesNothing ·)
  stop_eq : report.stop = base + 15 * report.instructions
  fetched : ∀ (slot : Nat) (operation : Operation), (operations source)[slot]? = some operation →
    0 ≤ base + 15 * slot → base + 15 * slot + 15 ≤ Memory.size →
    let i := Instruction.fetch after (base + 15 * slot)
    i.opcode = operation.opcode ∧ (i.operand1.val : Int) = operation.operand1 % 27 ∧
      i.operand2 = operation.operand2.bmod (3 ^ 6)
  outside : ∀ address, ¬ (base ≤ address ∧ address < report.stop) →
    after.cell address = memory.cell address
  /-- Memories that differ in the window only become equal. -/
  independent : ∀ other : Memory,
    (∀ address, ¬ (base ≤ address ∧ address < report.stop) →
      other.cell address = memory.cell address) →
    other.assemble source base = (after, report)

theorem describes_assemble (memory : Memory) (source : String) (base : Int) :
    Describes memory source base (memory.assemble source base).1
      (memory.assemble source base).2 := by
  have hlength := length_image (operations source)
  have hlines : (Text.lines source.toList).countP isSkipped =
      (Text.lines source.toList).countP (NamesNothing ·) :=
    List.countP_congr fun line _ => by simp [isSkipped_iff]
  rw [Memory.assemble_memory, Memory.assemble_report, hlines]
  refine ⟨rfl, rfl, rfl, by push_cast; rfl, ?_, ?_, ?_⟩
  · intro slot operation hslot hlow hhigh i
    have hfetch : i = operation.instruction := fetch_storeRun_image memory hslot hlow hhigh
    have hassigned := opcode_ne_nop_of_mem (List.mem_of_getElem? hslot)
    rw [hfetch]
    exact ⟨opcode_instruction hassigned, operand1_instruction operation, rfl⟩
  · intro address hout
    exact Memory.cell_storeRun_of_not_mem (by rw [hlength]; exact hout)
  · intro other hsame
    rw [← Prod.mk.eta (p := other.assemble source base), Memory.assemble_memory,
      Memory.assemble_report, hlines]
    exact Prod.ext (Memory.storeRun_congr (by rwa [hlength])) rfl

end Assembly

end TernaryConsole
