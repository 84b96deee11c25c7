import TernaryConsole.Proofs.TritC.Operands

/-!
# Proofs.TritC.Answers — when a source compiles, and to what

`answers_compile` describes the answer to every source. It is an error exactly if the source has a
fault, and then it is that of the first one: faults of statements come before faults of targets. A
source without faults compiles, and what it compiles to is read back by the assembler line by line.
-/

namespace TernaryConsole

namespace TritC

/-! ## Variables -/

/-- Names that are listed once each stand in the order of their first occurrences. -/
theorem pairwise_eraseDups (names : List Name) :
    names.eraseDups.Pairwise fun a b => names.idxOf a < names.idxOf b := by
  induction names using List.reverseRecOn with
  | nil => exact List.Pairwise.nil
  | append_singleton names name ih =>
    have hkept : ∀ other ∈ names.eraseDups, (names ++ [name]).idxOf other = names.idxOf other :=
      fun other hmem => List.idxOf_append_of_mem (List.mem_eraseDups.1 hmem)
    have hfront : names.eraseDups.Pairwise fun a b =>
        (names ++ [name]).idxOf a < (names ++ [name]).idxOf b :=
      ih.imp_of_mem fun ha hb hlt => by rwa [hkept _ ha, hkept _ hb]
    rw [eraseDups_concat]
    split
    · exact hfront
    · next hnew =>
      refine List.pairwise_append.2 ⟨hfront, List.pairwise_singleton _ _, ?_⟩
      intro other hmem last hlast
      obtain rfl := List.mem_singleton.1 hlast
      rw [hkept other hmem, List.idxOf_append_of_notMem hnew]
      exact Nat.lt_of_lt_of_le (List.idxOf_lt_length_of_mem (List.mem_eraseDups.1 hmem))
        (Nat.le_add_right _ _)

/-- Variables with registers have them in the order in which they are listed. -/
theorem allocation_eq {program : Program} (hwell : WellAllocated program.allocated) :
    program.allocation =
      program.allocated.mapIdx fun place name => (name, 7 + (place : Int)) := by
  refine List.ext_getElem (by simp [Program.allocation]) fun place hleft hright => ?_
  have hplace : place < program.allocated.length := by simpa using hright
  have hindex := hwell.nodup.idxOf_getElem place hplace
  simp only [Program.allocation, List.getElem_map, List.getElem_mapIdx, registerOf, hindex]
  rfl

/-! ## Programs -/

/-- What a source without faults compiles to: assembly text that the assembler reads without leaving
out a line, and the list of the variables. -/
structure Listed (source : String) (program : Program) : Prop where
  operations : (Assembly.operations program.assembly).length = program.instructions
  assembled : ∀ (memory : Memory) (base : Int),
    (memory.assemble program.assembly base).2.instructions = program.instructions ∧
      (memory.assemble program.assembly base).2.skipped = 0
  /-- Registers are handed out from the seventh on. -/
  allocation : ∃ names : List Name,
    program.allocation = names.mapIdx (fun place name => (name, 7 + (place : Int))) ∧
      names.length ≤ 18 ∧
      (∀ name, name ∈ names ↔ ∃ statement ∈ statements source, name ∈ statement.names) ∧
      names.Pairwise fun a b =>
        ((statements source).flatMap Statement.names).idxOf a <
          ((statements source).flatMap Statement.names).idxOf b

theorem listed_of_compile {source : String} {program : Program}
    (h : compile source = .ok program) : Listed source program := by
  obtain ⟨list, scope, hlowered, hlink, hscope⟩ := lowered_of_compile h
  have hwell : WellAllocated program.allocated := hscope ▸ hlowered.well
  have hallocated := (outcome_of_compile h).allocated_eq
  have hlength : (Assembly.operations program.assembly).length = program.instructions := by
    rw [operations_of_compile h, List.length_map]
    rfl
  refine ⟨hlength, fun memory base => ?_, firstUses (statements source), ?_, ?_, ?_, ?_⟩
  · have hskipped : (Text.lines program.assembly.toList).countP Assembly.isSkipped = 0 :=
      Program.skipped_assembly (fun line hline => (hlowered.code_line hlink hline).1)
        fun line hline => (hlowered.code_line hlink hline).2.2
    rw [Memory.assemble_report]
    dsimp only
    exact ⟨hlength, hskipped⟩
  · rw [allocation_eq hwell, hallocated]
  · rw [← hallocated]
    exact hwell.length_le
  · intro name
    rw [firstUses, List.mem_eraseDups, List.mem_flatMap]
  · exact pairwise_eraseDups _

/-! ## Answers -/

/-- The placed statements of a source are what its lines say, numbered from one. -/
theorem line_of_mem_placed {source : String} {entry : Placed}
    (h : entry ∈ placed (Reader.lines source)) :
    0 < entry.line.number ∧
      (Text.lines source.toList)[entry.line.number - 1]?.map Reader.code = some entry.line.text ∧
      Reader.statement? entry.line.text = some entry.statement := by
  obtain ⟨hline, hstatement⟩ := read_of_mem_placed h
  obtain ⟨⟨raw, number⟩, hraw, hcode⟩ := List.mem_filterMap.1 hline
  simp only [Option.ite_none_left_eq_some, Option.some.injEq] at hcode
  obtain ⟨-, hentry⟩ := hcode
  rw [← hentry] at hstatement ⊢
  obtain ⟨hlow, hhigh, hget⟩ := List.mem_zipIdx hraw
  have hraw : (Text.lines source.toList)[number - 1]? = some raw := by
    rw [List.getElem?_eq_getElem (by omega), hget]
  exact ⟨hlow, congrArg (Option.map Reader.code) hraw, hstatement⟩

/-- How a source is answered. -/
structure Answers (source : String) (answer : Except CompileError Program) : Prop where
  /-- The statements of which the faults speak are those of the lines with these numbers. -/
  numbered : ∀ entry ∈ placed (Reader.lines source), 0 < entry.line.number ∧
    (Text.lines source.toList)[entry.line.number - 1]?.map Reader.code = some entry.line.text ∧
    Reader.statement? entry.line.text = some entry.statement
  error_iff : ∀ error, answer = .error error ↔
    SourceFault (placed (Reader.lines source)) error
  ok_iff : (∃ program, answer = .ok program) ↔
    ∀ error, ¬ SourceFault (placed (Reader.lines source)) error
  listed : ∀ program, answer = .ok program → Listed source program

theorem answers_compile (source : String) : Answers source (compile source) where
  numbered _ := line_of_mem_placed
  error_iff := compile_eq_error_iff source
  ok_iff := exists_compile_iff source
  listed _ := listed_of_compile

/-- A label that is defined twice comes before one that is not defined at all. -/
example : compile "goto nowhere\na:\na:" = .error (.duplicateLabel 3 "a") := by rfl

end TritC

end TernaryConsole
