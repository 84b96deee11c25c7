import Mathlib.Data.List.Forall2
import TernaryConsole.Proofs.TritC.Edits
import TernaryConsole.Proofs.TritC.Stages

/-!
# Proofs.TritC.Inert — what is not said is not compiled

Two sources that say the same compile alike: to the same code with the same variables, or to the
same error on the lines where both say what is at fault (`agrees_of_said`). The statements of two
such sources are counterparts of each other, and faults go over from one to the other because no
fault depends on the number of its line. `inert_compile` puts this together with what edits keep, and
with what the checks of a skipped line leave behind: nothing, whichever of them rejects it.
-/

namespace TernaryConsole

namespace TritC

/-! ## Errors on lines -/

def CompileError.line : CompileError → Nat
  | .outOfRegisters line _ => line
  | .unknownLabel line _ => line
  | .duplicateLabel line _ => line
  | .targetOutOfReach line _ => line

/-- The same error on another line. -/
def CompileError.atLine (line : Nat) : CompileError → CompileError
  | .outOfRegisters _ name => .outOfRegisters line name
  | .unknownLabel _ label => .unknownLabel line label
  | .duplicateLabel _ label => .duplicateLabel line label
  | .targetOutOfReach _ address => .targetOutOfReach line address

theorem LineFault.line_eq {before : List Statement} {line : Nat} {statement : Statement}
    {error : CompileError} (h : LineFault before line statement error) : error.line = line := by
  cases h <;> rfl

theorem LineFault.atLine {before : List Statement} {line : Nat} {statement : Statement}
    {error : CompileError} (h : LineFault before line statement error) (other : Nat) :
    LineFault before other statement (error.atLine other) := by
  cases h with
  | duplicateLabel hmem => exact .duplicateLabel hmem
  | outOfRegisters hlacks => exact .outOfRegisters hlacks

theorem TargetFault.line_eq {registers : Name → Int} {program : List Statement} {slot line : Nat}
    {target : Target} {error : CompileError}
    (h : TargetFault registers program slot line target error) : error.line = line := by
  cases h <;> rfl

theorem TargetFault.atLine {registers : Name → Int} {program : List Statement} {slot line : Nat}
    {target : Target} {error : CompileError}
    (h : TargetFault registers program slot line target error) (other : Nat) :
    TargetFault registers program slot other target (error.atLine other) := by
  cases h with
  | unknownLabel hnone => exact .unknownLabel hnone
  | outOfReach hleads hfar => exact .outOfReach hleads hfar

/-- The first fault of one kind is the first one of another kind at the same position. -/
theorem First.transfer {fault other : Nat → CompileError → Prop}
    {R : CompileError → CompileError → Prop}
    (hto : ∀ position error, fault position error → ∃ moved, other position moved ∧ R error moved)
    (hback : ∀ position error, other position error → ∃ moved, fault position moved)
    {error : CompileError} (h : First fault error) :
    ∃ moved, First other moved ∧ R error moved := by
  obtain ⟨position, hfault, hearlier⟩ := h
  obtain ⟨moved, hmoved, hrelated⟩ := hto position error hfault
  refine ⟨moved, ⟨position, hmoved, ?_⟩, hrelated⟩
  intro earlier hlt found hfound
  obtain ⟨back, hfault'⟩ := hback earlier found hfound
  exact hearlier earlier hlt back hfault'

/-! ## Counterparts -/

/-- Statements that stand at the same place of two sources and say the same. -/
structure Counterpart (program others : List Placed) (entry other : Placed) : Prop where
  place : ∃ position : Nat, program[position]? = some entry ∧ others[position]? = some other
  text_eq : entry.line.text = other.line.text
  statement_eq : entry.statement = other.statement

theorem Counterpart.symm {program others : List Placed} {entry other : Placed}
    (h : Counterpart program others entry other) : Counterpart others program other entry :=
  ⟨h.place.imp fun _ => And.symm, h.text_eq.symm, h.statement_eq.symm⟩

/-- All statements of two sources are counterparts. -/
def Alike (program others : List Placed) : Prop :=
  List.Forall₂ (Counterpart program others) program others

/-- Statements that are read from the same texts are counterparts. -/
theorem alike_of_map_text {program others : List Placed}
    (hread : ∀ entry ∈ program, Reader.statement? entry.line.text = some entry.statement)
    (hread' : ∀ entry ∈ others, Reader.statement? entry.line.text = some entry.statement)
    (h : program.map (fun entry => entry.line.text) = others.map fun entry => entry.line.text) :
    Alike program others := by
  have hlength : program.length = others.length := by simpa using congrArg List.length h
  refine List.forall₂_of_length_eq_of_get hlength fun position hleft hright => ?_
  simp only [List.get_eq_getElem]
  have htext : program[position].line.text = others[position].line.text := by
    simpa [hleft, hright] using congrArg (·[position]?) h
  have hstatement := hread _ (List.getElem_mem hleft)
  rw [htext, hread' _ (List.getElem_mem hright)] at hstatement
  exact ⟨⟨position, List.getElem?_eq_getElem hleft, List.getElem?_eq_getElem hright⟩, htext,
    (Option.some.inj hstatement).symm⟩

/-- An error on a line and the same error on the line of the counterpart. -/
def Moved (program others : List Placed) (error moved : CompileError) : Prop :=
  ∃ entry other, Counterpart program others entry other ∧ error.line = entry.line.number ∧
    moved = error.atLine other.line.number

/-- Emissions of counterparts. -/
structure EmittedAlike (program others : List Placed) (emission other : Emission) : Prop where
  draft_eq : emission.draft = other.draft
  note_eq : emission.note = other.note
  lines : ∃ entry counterpart, Counterpart program others entry counterpart ∧
    emission.line = entry.line.number ∧ other.line = counterpart.line.number

theorem Counterpart.emissions {program others : List Placed} {entry other : Placed}
    (h : Counterpart program others entry other) (list : List Draft) :
    List.Forall₂ (EmittedAlike program others) (emissions entry.line list)
      (emissions other.line list) := by
  cases list with
  | nil => exact .nil
  | cons first rest =>
    refine .cons ⟨rfl, ?_, entry, other, h, rfl, rfl⟩ ?_
    · rw [h.text_eq]
    · rw [List.forall₂_map_left_iff, List.forall₂_map_right_iff, List.forall₂_same]
      exact fun draft _ => ⟨rfl, rfl, entry, other, h, rfl, rfl⟩

theorem EmittedAlike.code_eq {program others : List Placed} {emission other : Emission}
    (h : EmittedAlike program others emission other) (registers : Name → Int)
    (statements : List Statement) (slot : Nat) :
    emission.code registers statements slot = other.code registers statements slot := by
  rw [Emission.code, Emission.code, h.draft_eq, h.note_eq]

theorem exists_getElem?_of_forall₂ {α β : Type} {R : α → β → Prop} {items : List α}
    {others : List β} (h : List.Forall₂ R items others) {position : Nat} {item : α}
    (hitem : items[position]? = some item) :
    ∃ other, others[position]? = some other ∧ R item other := by
  obtain ⟨hlt, rfl⟩ := List.getElem?_eq_some_iff.1 hitem
  have hlt' : position < others.length := h.length_eq ▸ hlt
  exact ⟨others[position], List.getElem?_eq_getElem hlt', h.get hlt hlt'⟩

namespace Alike

variable {program others : List Placed} (h : Alike program others)
include h

theorem symm : Alike others program :=
  List.Forall₂.flip (h.imp fun _ _ hcounterpart => hcounterpart.symm)

theorem statements_eq : program.map Placed.statement = others.map Placed.statement := by
  rw [← List.forall₂_eq_eq_eq, List.forall₂_map_left_iff, List.forall₂_map_right_iff]
  exact h.imp fun _ _ hcounterpart => hcounterpart.statement_eq

theorem emitted_alike :
    List.Forall₂ (EmittedAlike program others) (emitted program) (emitted others) := by
  rw [emitted, emitted, h.statements_eq]
  refine List.rel_flatMap h fun entry other hcounterpart => ?_
  rw [hcounterpart.statement_eq]
  exact hcounterpart.emissions _

theorem linked_eq : linked program = linked others := by
  have hemitted := h.emitted_alike
  rw [linked, linked, h.statements_eq]
  refine List.ext_getElem (by simp [hemitted.length_eq]) fun slot hleft hright => ?_
  rw [List.getElem_mapIdx, List.getElem_mapIdx]
  have halike := hemitted.get (by simpa using hleft) (by simpa using hright)
  exact halike.code_eq _ _ slot

/-! ### Faults -/

theorem lineFaultAt {position : Nat} {error : CompileError}
    (hfault : LineFaultAt [] program position error) :
    ∃ moved, LineFaultAt [] others position moved ∧ Moved program others error moved := by
  obtain ⟨entry, hentry, hline⟩ := hfault
  obtain ⟨other, hother, hcounterpart⟩ := exists_getElem?_of_forall₂ h hentry
  have hbefore : (program.take position).map Placed.statement =
      (others.take position).map Placed.statement := by
    rw [List.map_take, List.map_take, h.statements_eq]
  refine ⟨error.atLine other.line.number, ⟨other, hother, ?_⟩, entry, other, hcounterpart,
    hline.line_eq, rfl⟩
  rw [← hbefore, ← hcounterpart.statement_eq]
  exact hline.atLine _

theorem targetFaultAt {registers : Name → Int} {statements : List Statement} {position : Nat}
    {error : CompileError}
    (hfault : TargetFaultAt registers statements 0 (emitted program) position error) :
    ∃ moved, TargetFaultAt registers statements 0 (emitted others) position moved ∧
      Moved program others error moved := by
  obtain ⟨emission, hemission, htarget⟩ := hfault
  obtain ⟨counterpart, hcounterpart, halike⟩ :=
    exists_getElem?_of_forall₂ h.emitted_alike hemission
  obtain ⟨entry, other, hplaced, hline, hline'⟩ := halike.lines
  refine ⟨error.atLine other.line.number, ⟨counterpart, hcounterpart, ?_⟩, entry, other, hplaced,
    htarget.line_eq.trans hline, rfl⟩
  rw [← hline', ← halike.draft_eq]
  exact htarget.atLine _

/-- The error of a source is that of the other one, on the line of the counterpart. -/
theorem sourceFault {error : CompileError} (hfault : SourceFault program error) :
    ∃ moved, SourceFault others moved ∧ Moved program others error moved := by
  cases hfault with
  | line hfirst =>
    obtain ⟨moved, hmoved, hlines⟩ := hfirst.transfer (fun _ _ hfault => h.lineFaultAt hfault)
      fun _ _ hother => (h.symm.lineFaultAt hother).imp fun _ => And.left
    exact ⟨moved, .line hmoved, hlines⟩
  | target hclean hfirst =>
    rw [h.statements_eq] at hfirst
    obtain ⟨moved, hmoved, hlines⟩ := hfirst.transfer (fun _ _ hfault => h.targetFaultAt hfault)
      fun _ _ hother => (h.symm.targetFaultAt hother).imp fun _ => And.left
    refine ⟨moved, .target ?_ hmoved, hlines⟩
    intro position other hother
    obtain ⟨back, hback, -⟩ := h.symm.lineFaultAt hother
    exact hclean position back hback

end Alike

/-! ## Sources that say the same -/

/-- Reading lines with text and reading statements from them is reading statements. -/
theorem map_text_placed (source : String) :
    (placed (Reader.lines source)).map (fun entry => entry.line.text) = said source.toList := by
  rw [said, ← List.zipIdx_map_fst 1 (Text.lines source.toList), List.filterMap_map, placed,
    Reader.lines, List.filterMap_filterMap, List.map_filterMap]
  refine List.filterMap_congr fun entry _ => ?_
  rw [Function.comp_apply, isStatement]
  by_cases hempty : (Reader.code entry.1).isEmpty = true
  · rw [List.isEmpty_iff.1 hempty]
    rfl
  · cases hread : Reader.statement? (Reader.code entry.1) <;> simp [hempty, hread]

theorem alike_of_said {source edited : String} (h : said edited.toList = said source.toList) :
    Alike (placed (Reader.lines source)) (placed (Reader.lines edited)) := by
  rw [← map_text_placed, ← map_text_placed] at h
  exact alike_of_map_text (fun _ hmem => (read_of_mem_placed hmem).2)
    (fun _ hmem => (read_of_mem_placed hmem).2) h.symm

/-- How many lines of a source have text that is no statement. -/
def skippedLines (source : String) : Nat :=
  (Text.lines source.toList).countP fun line =>
    !(Reader.code line).isEmpty && !isStatement line

theorem skipped_of_outcome {source : String} {program : Program} (h : Outcome source program) :
    program.skipped = skippedLines source := by
  rw [h.skipped_eq, skippedLines, ← List.zipIdx_map_fst 1 (Text.lines source.toList),
    List.countP_map, Reader.lines, List.countP_filterMap]
  refine List.countP_congr fun entry _ => ?_
  rw [Function.comp_apply, isStatement]
  cases hempty : (Reader.code entry.1).isEmpty <;> simp [hempty]

/-- Two sources have the same answer, up to the lines with text that are no statements. -/
structure Agrees (source edited : String) : Prop where
  ok : ∀ program, compile source = .ok program →
    ∃ other, compile edited = .ok other ∧ other.assembly = program.assembly ∧
      other.allocation = program.allocation ∧ other.instructions = program.instructions ∧
      other.skipped = skippedLines edited
  error : ∀ error, compile source = .error error →
    ∃ moved, compile edited = .error moved ∧
      Moved (placed (Reader.lines source)) (placed (Reader.lines edited)) error moved

theorem agrees_of_said {source edited : String} (h : said edited.toList = said source.toList) :
    Agrees source edited := by
  have halike := alike_of_said h
  constructor
  · intro program hcompile
    have houtcome := outcome_of_compile hcompile
    obtain ⟨other, hother⟩ : ∃ other, compile edited = .ok other := by
      rw [exists_compile_iff]
      intro error hfault
      obtain ⟨moved, hmoved, -⟩ := halike.symm.sourceFault hfault
      exact (exists_compile_iff source).1 ⟨program, hcompile⟩ moved hmoved
    have houtcome' := outcome_of_compile hother
    have hcode : other.code = program.code := by
      rw [houtcome.code_eq, houtcome'.code_eq, halike.linked_eq]
    have hallocated : other.allocated = program.allocated := by
      have hstatements : statements source = statements edited := by
        rw [← map_statement_source, ← map_statement_source, halike.statements_eq]
      rw [houtcome.allocated_eq, houtcome'.allocated_eq, hstatements]
    refine ⟨other, hother, ?_, ?_, ?_, skipped_of_outcome houtcome'⟩
    · rw [Program.assembly, hcode, Program.assembly]
    · rw [Program.allocation, hallocated, Program.allocation]
    · rw [Program.instructions, hcode, Program.instructions]
  · intro error hcompile
    have hsource := (compile_eq_error_iff source error).1 hcompile
    obtain ⟨moved, hfault, hmoved⟩ := halike.sourceFault hsource
    exact ⟨moved, (compile_eq_error_iff edited moved).2 hfault, hmoved⟩

/-! ## Lines that are skipped -/

/-- What is known, but for the count of skipped lines. -/
def Scope.counting (count : Nat) (scope : Scope) : Scope :=
  { scope with skipped := count }

/-- Lowering a statement does not depend on the count. -/
theorem lowerLine_counting {line : Reader.Line} {statement : Statement}
    (h : Reader.statement? line.text = some statement) (scope : Scope) (count : Nat) :
    lowerLine (scope.counting count) line =
      (lowerLine scope line).map fun result => (result.1, result.2.counting count) := by
  have hdefine : define line.number (scope.counting count) statement =
      define line.number scope statement := by
    cases statement <;> rfl
  rw [lowerLine, lowerLine, h]
  dsimp only
  rw [hdefine]
  cases define line.number scope statement with
  | error error => rfl
  | ok labels =>
    dsimp only [bind, Except.bind, Scope.counting]
    cases statement.names.foldlM (allocate line.number) scope.allocated <;> rfl

/-- A skipped line emits nothing, defines no label and takes no register: lowering the other lines
alone comes to the same. -/
theorem lower_filter (lines : List Reader.Line) (scope : Scope) (count : Nat) :
    lower (scope.counting count)
        (lines.filter fun line => (Reader.statement? line.text).isSome) =
      (lower scope lines).map fun result => (result.1, result.2.counting count) := by
  induction lines generalizing scope with
  | nil => rfl
  | cons line rest ih =>
    cases hline : Reader.statement? line.text with
    | none =>
      rw [List.filter_cons_of_neg (by simp [hline]), lower_cons_ok (lowerLine_none hline scope)]
      have hrest := ih { scope with skipped := scope.skipped + 1 }
      refine hrest.trans ?_
      cases lower { scope with skipped := scope.skipped + 1 } rest <;> rfl
    | some statement =>
      rw [List.filter_cons_of_pos (by simp [hline])]
      have hfirst := lowerLine_counting hline scope count
      cases hlower : lowerLine scope line with
      | error error =>
        rw [hlower] at hfirst
        rw [lower_cons_error hfirst, lower_cons_error hlower]
        rfl
      | ok result =>
        rw [hlower] at hfirst
        rw [lower_cons_ok hfirst, lower_cons_ok hlower, ih]
        cases lower result.2 rest <;> rfl

/-! ## Inert text -/

/-- A bare source has no line left that is skipped. -/
theorem skippedLines_bare (source : String) : skippedLines (bare source) = 0 := by
  rw [skippedLines, List.countP_eq_zero]
  intro line hline
  simp [(strip_of_mem_bare hline).2]

/-- What a source compiles to does not depend on text that says nothing. -/
structure Inert (source : String) : Prop where
  agrees : ∀ edited, Edits source edited → Agrees source edited
  /-- There are edits that leave nothing but statements, without comments and without blanks at the
  ends of lines. -/
  bare : Edits source (bare source) ∧ skippedLines (bare source) = 0 ∧
    ∀ line ∈ Text.lines (bare source).toList, strip line = line ∧ isStatement line = true
  /-- The lines that are skipped emit nothing, define no label and take no register. -/
  lower_eq : ∀ (scope : Scope) (count : Nat),
    lower (scope.counting count)
        ((Reader.lines source).filter fun line => (Reader.statement? line.text).isSome) =
      (lower scope (Reader.lines source)).map fun result => (result.1, result.2.counting count)
  /-- Lowering in stages, with the checks of a line among the instructions, registers and labels that
  it asks for, compiles to the same. -/
  staged : compileStaged source = compile source
  /-- The skipped lines are those that a check of a stage rejects, and it finds everything as it was
  in front of the line. -/
  rejected : ∀ line ∈ Reader.lines source, ∀ work after,
    (Stages.statement line.number line.text).run work = .ok (false, after) ↔
      Reader.statement? line.text = none ∧ after = work

theorem inert_compile (source : String) : Inert source where
  agrees _ hedits := agrees_of_said (said_of_edits hedits)
  bare := ⟨edits_bare source, skippedLines_bare source, fun _ => strip_of_mem_bare⟩
  lower_eq := lower_filter (Reader.lines source)
  staged := compileStaged_eq_compile source
  rejected line _ := Stages.rejects_iff line.number line.text

/-- The second definition is on the fourth line, and on the second one of what is left. -/
example :
    let source := " a: // start\r\n\nif (x = 1) goto a\na :;"
    bare source = "a:\na :;" ∧ compile source = .error (.duplicateLabel 4 "a") ∧
      compile (bare source) = .error (.duplicateLabel 2 "a") :=
  ⟨by rfl, by rfl, by rfl⟩

end TritC

end TernaryConsole
