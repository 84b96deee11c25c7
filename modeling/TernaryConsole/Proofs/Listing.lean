import TernaryConsole.Listing
import TernaryConsole.Machine.Step
import TernaryConsole.Proofs.Image
import TernaryConsole.Proofs.Reading

/-!
# Proofs.Listing — printed instructions assemble to what they do

An instruction is printed with the operands that mean something to its operation. Reading the text
gives zeros for the others (`restated`), so the instruction that is stored for it may differ from
the printed one, but only in operands that are not printed (`Matches`). Such instructions print the
same and execute the same.

`reassembles_listing` states this for any assigned instruction that memory holds at any address,
and for programs: the slots of an assembled text, printed line by line, are a program text with the
same listing. Codes without an operation are printed with question marks and are not read back.
-/

namespace TernaryConsole

namespace Listing

/-! ## Printed operands -/

/-- The operands that are printed with an instruction. -/
def operands (i : Instruction) : List Int :=
  if i.opcode.role ≠ .none then [i.operand1.val, i.operand2]
  else if i.opcode.hasOperand1 then [i.operand1.val]
  else []

theorem instruction_toList {i : Instruction} (assigned : i.opcode ≠ .nop) :
    (instruction i).toList = Assembly.written i.opcode (operands i) := by
  unfold instruction operands
  rw [if_neg assigned]
  split_ifs <;> simp [Assembly.written, Assembly.wordsOf, Decimal.write, Int.repr]

/-- The same operation with the same printed operands. -/
structure Matches (i j : Instruction) : Prop where
  opcode : j.opcode = i.opcode
  operands : operands j = operands i

namespace Matches

variable {i j : Instruction}

theorem instruction_eq (h : Matches i j) (assigned : i.opcode ≠ .nop) :
    instruction j = instruction i := by
  apply String.toList_injective
  rw [instruction_toList assigned, instruction_toList (h.opcode ▸ assigned), h.opcode, h.operands]

/-- No operation looks at an operand that is not printed with it. -/
theorem execute_eq (h : Matches i j) (m : Machine) : m.execute j = m.execute i := by
  obtain ⟨hopcode, hoperands⟩ := h
  unfold Machine.execute
  rw [hopcode]
  unfold Listing.operands at hoperands
  rw [hopcode] at hoperands
  cases hcase : i.opcode with
  | halt | ret | rect | nop => rfl
  | neg | out =>
    have hfirst : j.operand1 = i.operand1 := by
      simpa [hcase, Opcode.role, Opcode.hasOperand1, Fin.ext_iff] using hoperands
    simp only [hfirst]
  | _ =>
    have hboth : j.operand1 = i.operand1 ∧ j.operand2 = i.operand2 := by
      simpa [hcase, Opcode.role, Fin.ext_iff] using hoperands
    simp only [Instruction.source, hboth.1, hboth.2]

end Matches

/-! ## Reading an instruction back -/

/-- The operation that the text of an instruction names. -/
def restated (i : Instruction) : Assembly.Operation :=
  ⟨i.opcode, (operands i).getD 0 0, (operands i).getD 1 0⟩

/-- The second operand fits its field, as those that are fetched do. -/
def InField (i : Instruction) : Prop :=
  -Numeral.largest Instruction.operand2Width ≤ i.operand2 ∧
    i.operand2 ≤ Numeral.largest Instruction.operand2Width

theorem inField_fetch (memory : Memory) (address : Int) :
    InField (Instruction.fetch memory address) :=
  memory.load_bounds (address + 9) Instruction.operand2Width

theorem inField_instruction (operation : Assembly.Operation) : InField operation.instruction :=
  Numeral.bmod_bounds Instruction.operand2Width operation.operand2

section

variable {i : Instruction} (assigned : i.opcode ≠ .nop) (inField : InField i)

include inField

theorem inRange_of_mem_operands {value : Int} (h : value ∈ operands i) :
    Word.InRange value := by
  have hfirst := i.operand1.isLt
  have hsecond := inField
  have hfield : Numeral.largest Instruction.operand2Width = 364 := rfl
  have hword : Word.largest = 358948993845926294385124 := rfl
  simp only [InField, hfield] at hsecond
  have hcases : value = i.operand1.val ∨ value = i.operand2 := by
    unfold operands at h
    split_ifs at h <;> simp_all
  rcases hcases with rfl | rfl <;> constructor <;> omega

theorem wrap_operand (position : Nat) :
    Word.wrap ((operands i).getD position 0) = (operands i).getD position 0 := by
  apply Word.wrap_of_mem
  rw [List.getD_eq_getElem?_getD]
  cases hget : (operands i)[position]? with
  | none => exact Word.zero_mem
  | some value => exact inRange_of_mem_operands inField (List.mem_of_getElem? hget)

include assigned

theorem operation?_instruction :
    Assembly.operation? (instruction i).toList = some (restated i) := by
  have hcode : Assembly.code (instruction i).toList =
      Assembly.written i.opcode (operands i) ++ [] := by
    rw [instruction_toList assigned, Assembly.code_eq_self Assembly.isPlain_written,
      List.append_nil]
  rw [Assembly.operation?_of_code assigned hcode (fun c hc => absurd hc List.not_mem_nil),
    wrap_operand inField, wrap_operand inField]
  rfl

/-- What is stored for the text of an instruction matches it. -/
theorem matches_restated : Matches i (restated i).instruction := by
  have hassigned : (restated i).opcode ≠ .nop := assigned
  have hopcode : (restated i).instruction.opcode = i.opcode :=
    Assembly.opcode_instruction hassigned
  have hfirst := Assembly.operand1_instruction (restated i)
  have hsecond : (restated i).instruction.operand2 =
      (restated i).operand2.bmod (3 ^ Instruction.operand2Width) := rfl
  have hregister := i.operand1.isLt
  refine ⟨hopcode, ?_⟩
  -- Which operands are printed depends on the operation only, and that has come back.
  by_cases hrole : i.opcode.role ≠ .none
  · have hprinted : operands i = [(i.operand1.val : Int), i.operand2] := if_pos hrole
    have hnames : (restated i).operand1 = i.operand1.val := by simp [restated, hprinted]
    have hvalue : (restated i).operand2 = i.operand2 := by simp [restated, hprinted]
    rw [hvalue, Numeral.bmod_of_mem inField.1 inField.2] at hsecond
    rw [hnames, Int.emod_eq_of_lt (by omega) (by omega)] at hfirst
    rw [hprinted, operands, hopcode, if_pos hrole, hfirst, hsecond]
  · by_cases hoperand1 : i.opcode.hasOperand1 = true
    · have hprinted : operands i = [(i.operand1.val : Int)] := by
        rw [operands, if_neg hrole, if_pos hoperand1]
      have hnames : (restated i).operand1 = i.operand1.val := by simp [restated, hprinted]
      rw [hnames, Int.emod_eq_of_lt (by omega) (by omega)] at hfirst
      rw [hprinted, operands, hopcode, if_neg hrole, if_pos hoperand1, hfirst]
    · rw [operands, operands, hopcode, if_neg hrole, if_neg hoperand1, if_neg hrole,
        if_neg hoperand1]

end

/-! ## Printed programs -/

/-- The texts of `count` slots from `base`. -/
def slots (memory : Memory) (base : Int) (count : Nat) : List String :=
  (List.range count).map fun n => slot memory (Memory.slotStart base n)

/-- A text of these lines. -/
def text (lines : List String) : String :=
  String.join (lines.map fun line => line ++ "\n")

theorem slots_assemble (memory : Memory) (source : String) {base : Int} (low : 0 ≤ base)
    (high : base + 15 * (Assembly.operations source).length ≤ Memory.size) :
    slots (memory.assemble source base).1 base (Assembly.operations source).length =
      (Assembly.operations source).map fun operation => instruction operation.instruction := by
  refine List.ext_getElem (by simp [slots]) fun n hn hmapped => ?_
  have hn : n < (Assembly.operations source).length := by simpa [slots] using hn
  have hstart : Memory.slotStart base n = base + 15 * n := by
    simp only [Memory.slotStart, Memory.slotWidth]
    omega
  have hslotLow : 0 ≤ base + 15 * n := by omega
  have hslotHigh : base + 15 * n + 15 ≤ Memory.size := by omega
  have hfetch := Assembly.fetch_storeRun_image memory (List.getElem?_eq_getElem hn) hslotLow
    hslotHigh
  rw [← Memory.assemble_memory] at hfetch
  simp only [slots, slot, List.getElem_map, List.getElem_range, hstart, hfetch]

section

variable {program : List Instruction}
  (hprogram : ∀ i ∈ program, i.opcode ≠ .nop ∧ InField i)

include hprogram

theorem lines_text :
    Text.lines (text (program.map instruction)).toList =
      program.map fun i => (instruction i).toList := by
  -- Neither a line feed nor a carriage return is part of a printed instruction.
  have hblank : ∀ (c : Char), Text.isBlank c = true → c ≠ ' ' →
      ∀ i ∈ program, c ∉ (instruction i).toList := by
    intro c hblank hspace i hi
    rw [instruction_toList (hprogram i hi).1]
    exact Assembly.not_mem_written hblank hspace
  have htext : (text (program.map instruction)).toList =
      ((program.map fun i => (instruction i).toList).map fun line => line ++ ['\n']).flatten := by
    simp [text, String.toList_join, List.flatMap_def, Function.comp_def]
  rw [htext, Text.lines_flatten, List.map_map]
  · refine List.map_congr_left fun i hi => ?_
    exact Text.withoutReturn_of_not_mem (hblank '\r' (by decide) (by decide) i hi)
  · intro line hline
    obtain ⟨i, hi, rfl⟩ := List.mem_map.1 hline
    exact hblank '\n' (by decide) (by decide) i hi

/-- A printed program is read back instruction by instruction. -/
theorem operations_text :
    Assembly.operations (text (program.map instruction)) = program.map restated := by
  rw [Assembly.operations, lines_text hprogram, List.filterMap_map]
  have hread : ∀ i ∈ program,
      (Assembly.operation? ∘ fun i => (instruction i).toList) i = some (restated i) :=
    fun i hi => operation?_instruction (hprogram i hi).1 (hprogram i hi).2
  rw [List.filterMap_congr hread]
  simp

theorem skipped_text :
    (Text.lines (text (program.map instruction)).toList).countP Assembly.isSkipped = 0 := by
  rw [lines_text hprogram, List.countP_eq_zero]
  intro line hline
  obtain ⟨i, hi, rfl⟩ := List.mem_map.1 hline
  simp [Assembly.isSkipped, operation?_instruction (hprogram i hi).1 (hprogram i hi).2]

end

/-! ## The law -/

/-- What the text of the instruction at an address says to an assembler. -/
structure Restates (memory : Memory) (address : Int) (operation : Assembly.Operation) : Prop where
  read : Assembly.operation? (slot memory address).toList = some operation
  /-- Wherever the operation is stored, an instruction with the same text is fetched. -/
  stored : ∀ (other : Memory) (start : Int), 0 ≤ start → start + 15 ≤ Memory.size →
    let i := Instruction.fetch memory address
    let j := Instruction.fetch (Assembly.place other start operation) start
    j.opcode = i.opcode ∧ instruction j = slot memory address ∧
      -- A step with it leaves any machine as a step with the other does, its record aside.
      ∀ m : Machine,
        (m.skip.execute j).record j = { (m.skip.execute i).record i with last := some j }

/-- Assembling these lines at `start` gives a program that is printed as them. -/
structure Relists (memory : Memory) (start : Int) (lines : List String) : Prop where
  instructions_eq : (memory.assemble (text lines) start).2.instructions = lines.length
  skipped_eq : (memory.assemble (text lines) start).2.skipped = 0
  slots_eq : slots (memory.assemble (text lines) start).1 start lines.length = lines

theorem restates_restated {memory : Memory} {address : Int}
    (assigned : (Instruction.fetch memory address).opcode ≠ .nop) :
    Restates memory address (restated (Instruction.fetch memory address)) := by
  have hmatches := matches_restated assigned (inField_fetch memory address)
  refine ⟨operation?_instruction assigned (inField_fetch memory address), ?_⟩
  intro other start low high i j
  have hfetch : j = (restated i).instruction := Instruction.fetch_place other (restated i) low high
  rw [hfetch]
  refine ⟨hmatches.opcode, hmatches.instruction_eq assigned, ?_⟩
  intro m
  rw [hmatches.execute_eq]
  rfl

theorem relists_program {program : List Instruction}
    (hprogram : ∀ i ∈ program, i.opcode ≠ .nop ∧ InField i) (memory : Memory) {start : Int}
    (low : 0 ≤ start) (high : start + 15 * program.length ≤ Memory.size) :
    Relists memory start (program.map instruction) := by
  have hoperations := operations_text hprogram
  have hlength : (Assembly.operations (text (program.map instruction))).length =
      program.length := by
    rw [hoperations, List.length_map]
  refine ⟨?_, ?_, ?_⟩
  · rw [Memory.assemble_report, hlength, List.length_map]
  · rw [Memory.assemble_report]
    exact skipped_text hprogram
  · have hslots := slots_assemble memory (text (program.map instruction)) low (by omega)
    rw [hlength, hoperations, List.map_map] at hslots
    rw [List.length_map, hslots]
    refine List.map_congr_left fun i hi => ?_
    exact (matches_restated (hprogram i hi).1 (hprogram i hi).2).instruction_eq (hprogram i hi).1

/-- Printing and assembling go round: an assigned instruction comes back as one that prints and
does the same, and a program that lies in memory comes back as one with the same listing. From
address zero these are the programs of at most 106288 instructions. -/
theorem reassembles_listing :
    (∀ (memory : Memory) (address : Int), (Instruction.fetch memory address).opcode ≠ .nop →
      ∃ operation, Restates memory address operation) ∧
    ∀ (memory other : Memory) (source : String) (base start : Int),
      let count := (Assembly.operations source).length
      0 ≤ base → base + 15 * count ≤ Memory.size → 0 ≤ start → start + 15 * count ≤ Memory.size →
      let lines := slots (memory.assemble source base).1 base count
      lines.length = count ∧ Relists other start lines := by
  constructor
  · intro memory address assigned
    exact ⟨_, restates_restated assigned⟩
  · intro memory other source base start count low high startLow startHigh lines
    have hlines : lines = ((Assembly.operations source).map Assembly.Operation.instruction).map
        instruction := by
      rw [List.map_map]
      exact slots_assemble memory source low high
    rw [hlines]
    refine ⟨by simp [count], relists_program ?_ other startLow (by simpa using startHigh)⟩
    intro i hi
    obtain ⟨operation, hoperation, rfl⟩ := List.mem_map.1 hi
    have hassigned := Assembly.opcode_ne_nop_of_mem hoperation
    rw [Assembly.opcode_instruction hassigned]
    exact ⟨hassigned, inField_instruction operation⟩

/-- A text with operands that do not fit their fields, and one that means nothing. -/
def unprinted : String :=
  "SUB -1 -1094\nNEG 30 7"

theorem operations_unprinted :
    Assembly.operations unprinted = [⟨.sub, -1, -1094⟩, ⟨.neg, 30, 7⟩] := by
  decide

/-- The text lies at cell 30, and its two slots are printed as `SUB 26 364` and `NEG 3`. -/
theorem reassembles_listing_unprinted :
    let memory := (Memory.blank.assemble unprinted 30).1
    (Instruction.fetch memory 30).opcode ≠ .nop ∧ (∃ operation, Restates memory 30 operation) ∧
      30 + 15 * 2 ≤ (Memory.size : Int) ∧ slots memory 30 2 = ["SUB 26 364", "NEG 3"] ∧
      Relists .blank 0 ["SUB 26 364", "NEG 3"] := by
  intro memory
  have hfetch : Instruction.fetch memory 30 = Assembly.Operation.instruction ⟨.sub, -1, -1094⟩ := by
    have hslot : (Assembly.operations unprinted)[0]? = some ⟨.sub, -1, -1094⟩ := by
      rw [operations_unprinted]
      rfl
    have hlow : (0 : Int) ≤ 30 + 15 * (0 : Nat) := by decide
    have himage := Assembly.fetch_storeRun_image .blank hslot hlow (by decide)
    rwa [← Memory.assemble_memory] at himage
  have hassigned : (Instruction.fetch memory 30).opcode ≠ .nop := by
    rw [hfetch]
    decide
  have hlength : (Assembly.operations unprinted).length = 2 := by
    rw [operations_unprinted]
    rfl
  have hslots : slots memory 30 2 = ["SUB 26 364", "NEG 3"] := by
    have hlow : (0 : Int) ≤ 30 := by decide
    have hprinted := slots_assemble .blank unprinted hlow (by rw [hlength]; decide)
    rw [hlength, operations_unprinted] at hprinted
    rw [hprinted]
    decide
  have hrelists := (reassembles_listing.2 .blank .blank unprinted 30 0 (by decide) (by decide)
    (by decide) (by decide)).2
  rw [hlength, hslots] at hrelists
  exact ⟨hassigned, reassembles_listing.1 memory 30 hassigned, by decide, hslots, hrelists⟩

end Listing

end TernaryConsole
