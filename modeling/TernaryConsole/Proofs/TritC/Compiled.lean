import TernaryConsole.Proofs.TritC.Drafts
import TernaryConsole.Proofs.TritC.Layout
import TernaryConsole.Proofs.TritC.Printing

/-!
# Proofs.TritC.Compiled — what the assembler makes of a compiled source

Layout and printing together: the operation in each slot of an assembled program is the draft of a
statement with its target resolved (`assembled_of_compile`).
-/

namespace TernaryConsole

namespace TritC

/-! ## Drafts -/

/-- Drafts that can be printed and stored: an assigned operation and a number of a register. -/
structure Draft.WellFormed (draft : Draft) : Prop where
  opcode_ne : draft.opcode ≠ .nop
  register_bounds : 0 ≤ draft.register ∧ draft.register ≤ 26

/-- Variables with registers have registers below the stack pointer. -/
theorem registerOf_bounds {allocated : List Name} (hwell : WellAllocated allocated) {name : Name}
    (hname : name ∈ allocated) :
    7 ≤ registerOf allocated name ∧ registerOf allocated name ≤ 24 := by
  have hindex := List.idxOf_lt_length_of_mem hname
  have hlength := hwell.length_le
  simp only [registerOf, firstRegister, registerCount] at hlength ⊢
  omega

/-- All drafts of a statement whose variables have registers are well formed. -/
theorem wellFormed_drafts {registers : Name → Int} {statement : Statement}
    (hregisters : ∀ name ∈ statement.names, 0 ≤ registers name ∧ registers name ≤ 26) :
    ∀ draft ∈ drafts registers statement, draft.WellFormed := by
  have hconfined : Confined (fun register => 0 ≤ register ∧ register ≤ 26)
      (drafts registers statement) :=
    confined_drafts (fun slot => ⟨by omega, by omega⟩) (by decide) hregisters
  intro draft hmem
  obtain ⟨place, hplace⟩ := List.mem_iff_getElem?.1 hmem
  have hdraft := hconfined.getElem? hplace
  exact ⟨hdraft.opcode_ne.1, hdraft.register⟩

/-! ## Operations -/

theorem val_ofInt {number : Int} (low : 0 ≤ number) (high : number ≤ 26) :
    ((Register.ofInt number).val : Int) = number := by
  simp only [Register.ofInt]
  omega

/-- An operation as it is fetched: the operation of its line, the register that the line names and
the second operand in six trits. -/
theorem instruction_operation {line : CodeLine} (hopcode : line.opcode ≠ .nop)
    (hregister : 0 ≤ line.operand1 ∧ line.operand1 ≤ 26) :
    line.operation.instruction.opcode = line.opcode ∧
      line.operation.instruction.operand1 = Register.ofInt line.operand1 ∧
      line.operation.instruction.operand2 = line.operand2.bmod (3 ^ 6) := by
  have hlargest : (26 : Int) ≤ Word.largest := by decide
  have hfive : Numeral.largest 5 = 121 := by decide
  refine ⟨?_, ?_, ?_⟩
  · have hcode : line.operation.instruction.opcode =
        Opcode.ofCode ((line.opcode.code?.getD 0).bmod (3 ^ 4)) := rfl
    rw [hcode]
    cases hname : line.opcode with
    | nop => exact absurd hname hopcode
    | _ => rfl
  · -- Numbers of registers survive both foldings.
    have hword : Word.wrap line.operand1 = line.operand1 :=
      Word.wrap_of_mem ⟨by omega, by omega⟩
    have hlow : -Numeral.largest 5 ≤ line.operand1 := by omega
    have hfield : line.operand1.bmod (3 ^ 5) = line.operand1 :=
      Numeral.bmod_of_mem hlow (by omega)
    have hoperand : line.operation.instruction.operand1 =
        Register.ofInt ((Word.wrap line.operand1).bmod (3 ^ 5)) := rfl
    rw [hoperand, hword, hfield]
  · -- Folding to fifty trits first changes nothing in the lowest six.
    have hoperand : line.operation.instruction.operand2 =
        (Word.wrap line.operand2).bmod (3 ^ 6) := rfl
    have hdvd : 3 ^ 6 ∣ 3 ^ 50 := pow_dvd_pow 3 (by decide)
    rw [hoperand, Word.wrap_eq_bmod_pow, Int.bmod_bmod_of_dvd hdvd]

/-! ## Sources -/

/-- The text of a line contains no line feed. -/
theorem Reader.not_mem_text {source : String} {line : Reader.Line}
    (h : line ∈ Reader.lines source) : '\n' ∉ line.text := by
  obtain ⟨entry, hentry, hline⟩ := List.mem_filterMap.1 h
  have hsource : entry.1 ∈ Text.lines source.toList := by
    have hzip := List.mem_zipIdx hentry
    rw [hzip.2.2]
    exact List.getElem_mem _
  have hclean := Text.not_mem_of_mem_lines hsource
  simp only [Option.ite_none_left_eq_some, Option.some.injEq] at hline
  obtain ⟨_, rfl⟩ := hline
  intro hmem
  have htrimmed := Text.mem_of_mem_dropTrailing (Text.mem_of_mem_trimEnd hmem)
  exact hclean (Text.mem_of_mem_before (Text.mem_of_mem_trim htrimmed))

/-- Operations that are a list of drafts from a slot on, with all targets resolved. -/
def CodeAt (registers : Name → Int) (program : List Statement)
    (operations : List Assembly.Operation) (slot : Nat) (list : List Draft) : Prop :=
  ∀ (place : Nat) (draft : Draft), list[place]? = some draft →
    draft.target.Marked program ∧
    ∃ operation, operations[slot + place]? = some operation ∧
      operation.instruction.opcode = draft.opcode ∧
      operation.instruction.operand1 = Register.ofInt draft.register ∧
      operation.instruction.operand2 = draft.target.operand registers program (slot + place)

/-- What compiling a source and assembling the result leads to. -/
structure Assembled (source : String) (program : Program) : Prop where
  well : WellAllocated program.allocated
  names : ∀ statement ∈ statements source, ∀ name ∈ statement.names, name ∈ program.allocated
  length_eq : (Assembly.operations program.assembly).length =
    slotOf (registerOf program.allocated) (statements source) (statements source).length
  instructions_eq : (Assembly.operations program.assembly).length = program.instructions
  codeAt : ∀ (position : Nat) (statement : Statement),
    (statements source)[position]? = some statement →
    CodeAt (registerOf program.allocated) (statements source)
      (Assembly.operations program.assembly)
      (slotOf (registerOf program.allocated) (statements source) position)
      (drafts (registerOf program.allocated) statement)

/-- The label table of a lowered source gives the slot behind each label. -/
theorem Lowered.slot_of_lookup {lines : List Reader.Line} {emitted : List Emission}
    {final : Scope} (h : Lowered {} lines emitted final) {name : Name} {marked : Nat}
    (hlookup : final.labels.lookup name = some marked) :
    Statement.label name ∈ accepted lines ∧
      marked = slotOf (registerOf final.allocated) (accepted lines)
        (behind (accepted lines) name) := by
  have htable := h.lookup_labels name
  rw [hlookup] at htable
  by_cases hmem : Statement.label name ∈ accepted lines
  · -- A label has no drafts, so the slot behind it is its own slot.
    have hindex := List.getElem?_idxOf hmem
    have hempty : (drafts (registerOf final.allocated) (Statement.label name)).length = 0 := rfl
    rw [behind, slotOf_succ _ hindex, hempty]
    exact ⟨hmem, by simpa [hmem] using htable⟩
  · exact absurd htable (by simp [hmem])

/-- Every line of linked code comes from an emission with a well-formed draft and a clean note. -/
theorem Lowered.code_line {source : String} {emitted : List Emission} {final : Scope}
    (h : Lowered {} (Reader.lines source) emitted final) {code : List CodeLine}
    (hlink : link final.labels 0 emitted = .ok code) {line : CodeLine} (hline : line ∈ code) :
    line.opcode ≠ .nop ∧ (0 ≤ line.operand1 ∧ line.operand1 ≤ 26) ∧
      ∀ note, line.note = some note → '\n' ∉ note.toList := by
  obtain ⟨hlength, hlines⟩ := getElem?_link hlink
  obtain ⟨i, hi⟩ := List.mem_iff_getElem?.1 hline
  have hbound : i < emitted.length := by
    rw [← hlength]
    exact (List.getElem?_eq_some_iff.1 hi).1
  obtain ⟨operand2, _, hcode⟩ := hlines i emitted[i] (List.getElem?_eq_getElem hbound)
  have hemission := List.getElem_mem hbound
  generalize emitted[i] = emission at hcode hemission
  rw [hi] at hcode
  have heq := Option.some.inj hcode
  have hdraft : emission.draft ∈ (accepted (Reader.lines source)).flatMap
      (drafts (registerOf final.allocated)) := by
    rw [← h.drafts_eq]
    exact List.mem_map_of_mem hemission
  obtain ⟨statement, hstatement, hmem⟩ := List.mem_flatMap.1 hdraft
  have hwell : emission.draft.WellFormed := by
    apply wellFormed_drafts _ _ hmem
    intro name hname
    have hbounds := registerOf_bounds h.well (h.names statement hstatement name hname)
    omega
  subst heq
  refine ⟨hwell.opcode_ne, hwell.register_bounds, ?_⟩
  intro note hnote
  obtain ⟨origin, horigin, rfl⟩ := h.notes emission hemission note hnote
  rw [String.toList_ofList]
  exact Reader.not_mem_text horigin

theorem assembled_of_compile {source : String} {program : Program}
    (h : compile source = .ok program) : Assembled source program := by
  obtain ⟨emitted, scope, hlower, hlink, hallocated⟩ := compile_ok h
  have hempty : WellAllocated [] := ⟨List.nodup_nil, Nat.zero_le _⟩
  have hlowered := lowered_of_lower hlower hempty
  obtain ⟨hlength, hlines⟩ := getElem?_link hlink
  have hoperations : Assembly.operations program.assembly =
      program.code.map CodeLine.operation := by
    apply Program.operations_assembly
    · exact fun line hline => (hlowered.code_line hlink hline).1
    · exact fun line hline => (hlowered.code_line hlink hline).2.2
  have htotal : (Assembly.operations program.assembly).length = program.instructions := by
    rw [hoperations, List.length_map]
    rfl
  refine ⟨?_, ?_, ?_, htotal, ?_⟩
  · rw [hallocated]
    exact hlowered.well
  · rw [hallocated]
    exact hlowered.names
  · rw [htotal, Program.instructions, hlength, slotOf_length, hallocated]
    rw [← List.length_map (f := Emission.draft), hlowered.drafts_eq]
    rfl
  · intro position statement hstatement place draft hdraft
    rw [hallocated] at hdraft ⊢
    generalize hslot : slotOf (registerOf scope.allocated) (statements source) position + place =
      slot
    have hplace := (List.getElem?_eq_some_iff.1 hdraft).1
    -- The draft stands in its slot among the emissions, then in the code.
    have hemitted : (emitted.map Emission.draft)[slot]? = some draft := by
      rw [hlowered.drafts_eq, ← hslot, ← hdraft]
      exact getElem?_flatMap_drafts hstatement hplace
    rw [List.getElem?_map] at hemitted
    obtain ⟨emission, hemission, rfl⟩ := Option.map_eq_some_iff.1 hemitted
    obtain ⟨operand2, hresolve, hcode⟩ := hlines slot emission hemission
    have hline := hlowered.code_line hlink (List.mem_of_getElem? hcode)
    obtain ⟨hop, hfirst, hsecond⟩ := instruction_operation hline.1 hline.2.1
    rw [Nat.zero_add] at hresolve
    obtain ⟨hoperand, hmarked⟩ := resolve_ok hresolve fun name marked hlookup =>
      hlowered.slot_of_lookup hlookup
    refine ⟨hmarked, _, ?_, hop, hfirst, hsecond.trans hoperand⟩
    rw [hoperations, List.getElem?_map, hcode]
    rfl

end TritC

end TernaryConsole
