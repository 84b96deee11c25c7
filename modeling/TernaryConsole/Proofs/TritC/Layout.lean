import Mathlib.Data.List.Nodup
import TernaryConsole.Proofs.Success
import TernaryConsole.Proofs.TritC.Interpreter
import TernaryConsole.TritC.Program

/-!
# Proofs.TritC.Layout — where the instructions of a statement stand

Lowering goes through the lines once and hands out registers and slots on the way. This module says
what a whole source is lowered to, in terms of the registers that are known at its end: the drafts
of its statements behind each other (`Lowered.drafts_eq`), and labels that mark the slots of their
statements (`Lowered.lookup_labels`).
-/

namespace TernaryConsole

namespace TritC

/-! ## Registers -/

/-- Variables with different registers, all of them below the stack pointer. -/
structure WellAllocated (allocated : List Name) : Prop where
  nodup : allocated.Nodup
  length_le : allocated.length ≤ registerCount

/-- Allocating a name keeps what was allocated and has the name in the end. -/
theorem extended_of_allocate {line : Nat} {allocated later : List Name} {name : Name}
    (h : allocate line allocated name = .ok later) : allocated <+: later ∧ name ∈ later := by
  unfold allocate at h
  split at h
  · next hmem =>
    cases h
    exact ⟨List.prefix_refl _, hmem⟩
  · split at h
    · cases h
      exact ⟨List.prefix_append _ _, by simp⟩
    · cases h

theorem WellAllocated.allocate {line : Nat} {allocated later : List Name} {name : Name}
    (hwell : WellAllocated allocated) (h : allocate line allocated name = .ok later) :
    WellAllocated later := by
  unfold TritC.allocate at h
  split at h
  · cases h
    exact hwell
  · next hfresh =>
    split at h
    · next hroom =>
      cases h
      refine ⟨?_, ?_⟩
      · exact List.Nodup.append hwell.nodup (List.nodup_singleton name) (by simpa using hfresh)
      · rw [List.length_append, List.length_singleton]
        exact hroom
    · cases h

/-- Allocating names one after the other keeps what was allocated and adds all of them. -/
theorem extended_of_foldlM_allocate {line : Nat} {names allocated later : List Name}
    (h : names.foldlM (allocate line) allocated = .ok later) :
    allocated <+: later ∧ ∀ name ∈ names, name ∈ later := by
  induction names generalizing allocated with
  | nil =>
    obtain rfl := Except.ok.inj h
    exact ⟨List.prefix_refl _, fun name hname => absurd hname List.not_mem_nil⟩
  | cons first names ih =>
    rw [List.foldlM_cons] at h
    obtain ⟨middle, hfirst, hrest⟩ := exists_of_bind_eq_ok h
    obtain ⟨hextended, hmem⟩ := extended_of_allocate hfirst
    obtain ⟨hmore, hnames⟩ := ih hrest
    refine ⟨hextended.trans hmore, ?_⟩
    intro name hname
    rcases List.mem_cons.1 hname with rfl | htail
    · exact hmore.subset hmem
    · exact hnames name htail

theorem foldlM_allocate_spec {line : Nat} {names allocated later : List Name}
    (h : names.foldlM (allocate line) allocated = .ok later) (hwell : WellAllocated allocated) :
    allocated <+: later ∧ WellAllocated later ∧ ∀ name ∈ names, name ∈ later :=
  ⟨(extended_of_foldlM_allocate h).1, foldlM_preserves WellAllocated.allocate hwell h,
    (extended_of_foldlM_allocate h).2⟩

/-- A register is kept when more variables get registers. -/
theorem registerOf_extended {allocated later : List Name} (hextended : allocated <+: later)
    {name : Name} (hname : name ∈ allocated) :
    registerOf later name = registerOf allocated name := by
  obtain ⟨more, rfl⟩ := hextended
  rw [registerOf, registerOf, List.idxOf_append_of_mem hname]

/-! ## Drafts of a statement -/

theorem load_congr {f g : Name → Int} {operand : Operand}
    (h : ∀ name ∈ operand.names, f name = g name) (register : Int) :
    load f register operand = load g register operand := by
  cases operand with
  | literal value => rfl
  | «variable» name =>
    have hname := h name List.mem_cons_self
    simp only [load, hname]

/-- The drafts of a statement depend on the registers of its own variables only. -/
theorem drafts_congr {f g : Name → Int} {statement : Statement}
    (h : ∀ name ∈ statement.names, f name = g name) : drafts f statement = drafts g statement := by
  cases statement with
  | label name => rfl
  | halt => rfl
  | rect => rfl
  | goto target => rfl
  | branch subject test value target =>
    have hsubject := h subject List.mem_cons_self
    have hvalue : load f scratch value = load g scratch value :=
      load_congr (fun name hname => h name (List.mem_cons_of_mem _ hname)) scratch
    simp only [drafts, hsubject, hvalue]
  | color red green blue =>
    simp only [Statement.names, List.mem_append] at h
    simp only [drafts, load_congr (fun name hname => h name (Or.inl (Or.inl hname))),
      load_congr (fun name hname => h name (Or.inl (Or.inr hname))),
      load_congr (fun name hname => h name (Or.inr hname))]
  | pos x y =>
    simp only [Statement.names, List.mem_append] at h
    simp only [drafts, load_congr (fun name hname => h name (Or.inl hname)),
      load_congr (fun name hname => h name (Or.inr hname))]
  | size width height =>
    simp only [Statement.names, List.mem_append] at h
    simp only [drafts, load_congr (fun name hname => h name (Or.inl hname)),
      load_congr (fun name hname => h name (Or.inr hname))]
  | out value =>
    cases value with
    | literal value => rfl
    | «variable» name =>
      have hname := h name List.mem_cons_self
      simp only [drafts, hname]
  | assign target value =>
    have htarget := h target List.mem_cons_self
    simp only [drafts, htarget,
      load_congr (fun name hname => h name (List.mem_cons_of_mem _ hname))]
  | compute target left operator right =>
    have htarget := h target (by simp [Statement.names])
    have hleft := h left (by simp [Statement.names])
    have hright := h right (by simp [Statement.names])
    simp only [drafts, htarget, hleft, hright]

/-! ## Slots -/

section Slots

variable (registers : Name → Int)

/-- The slot at which the drafts of the statement at a position begin. -/
def slotOf (program : List Statement) (position : Nat) : Nat :=
  ((program.take position).flatMap (drafts registers)).length

theorem slotOf_zero (program : List Statement) : slotOf registers program 0 = 0 := rfl

theorem slotOf_cons_succ (statement : Statement) (program : List Statement) (position : Nat) :
    slotOf registers (statement :: program) (position + 1) =
      (drafts registers statement).length + slotOf registers program position := by
  simp [slotOf]

variable {registers}

theorem slotOf_succ (registers : Name → Int) {program : List Statement} {position : Nat}
    {statement : Statement} (h : program[position]? = some statement) :
    slotOf registers program (position + 1) =
      slotOf registers program position + (drafts registers statement).length := by
  rw [slotOf, List.take_add_one, h]
  simp [slotOf]

theorem slotOf_length (program : List Statement) :
    slotOf registers program program.length = (program.flatMap (drafts registers)).length := by
  rw [slotOf, List.take_length]

/-- The drafts of a statement stand behind each other from its slot on. -/
theorem getElem?_flatMap_drafts {program : List Statement} {position : Nat} {statement : Statement}
    (h : program[position]? = some statement) {place : Nat}
    (hplace : place < (drafts registers statement).length) :
    (program.flatMap (drafts registers))[slotOf registers program position + place]? =
      (drafts registers statement)[place]? := by
  -- By induction on the program, with the position moving along.
  induction program generalizing position with
  | nil => exact absurd h (by simp)
  | cons first program ih =>
    cases position with
    | zero =>
      have hfirst : first = statement := by simpa using h
      subst hfirst
      rw [slotOf_zero, Nat.zero_add, List.flatMap_cons, List.getElem?_append_left hplace]
    | succ position =>
      have hposition : program[position]? = some statement := by simpa using h
      have htail := ih hposition
      rw [slotOf_cons_succ, List.flatMap_cons, List.getElem?_append_right (by omega), ← htail]
      congr 1
      omega

end Slots

/-! ## Lowering -/

/-- What lowering lines from a scope leads to. -/
structure Lowered (scope : Scope) (lines : List Reader.Line) (emitted : List Emission)
    (final : Scope) : Prop where
  allocated_extended : scope.allocated <+: final.allocated
  well : WellAllocated final.allocated
  /-- All variables have registers. -/
  names : ∀ statement ∈ accepted lines, ∀ name ∈ statement.names, name ∈ final.allocated
  drafts_eq : emitted.map Emission.draft =
    (accepted lines).flatMap (drafts (registerOf final.allocated))
  /-- Labels that were known stay, all others mark the slots of their statements. -/
  lookup_labels : ∀ name, final.labels.lookup name =
    (scope.labels.lookup name).or
      (if .label name ∈ accepted lines then
        some (scope.slots + slotOf (registerOf final.allocated) (accepted lines)
          ((accepted lines).idxOf (.label name)))
      else none)
  /-- Every note is the text of a line. -/
  notes : ∀ emission ∈ emitted, ∀ note, emission.note = some note →
    ∃ line ∈ lines, note = String.ofList line.text

theorem map_draft_emissions (line : Reader.Line) (list : List Draft) :
    (emissions line list).map Emission.draft = list := by
  cases list with
  | nil => rfl
  | cons first rest =>
    have hrest : (Emission.draft ∘ fun draft => (⟨draft, line.number, none⟩ : Emission)) = id := rfl
    rw [emissions, List.map_cons, List.map_map, hrest, List.map_id]

theorem length_emissions (line : Reader.Line) (list : List Draft) :
    (emissions line list).length = list.length := by
  rw [← List.length_map (f := Emission.draft), map_draft_emissions]

theorem note_emissions {line : Reader.Line} {list : List Draft} {emission : Emission}
    (h : emission ∈ emissions line list) {note : String} (hnote : emission.note = some note) :
    note = String.ofList line.text := by
  cases list with
  | nil => exact absurd h List.not_mem_nil
  | cons first rest =>
    rcases List.mem_cons.1 h with rfl | hrest
    · exact (Option.some.inj hnote).symm
    · obtain ⟨draft, _, rfl⟩ := List.mem_map.1 hrest
      exact absurd hnote (by simp)

/-- A line that is a statement is lowered to the emissions of its drafts. -/
theorem lowerLine_some {scope middle : Scope} {line : Reader.Line} {first : List Emission}
    {statement : Statement} (hline : Reader.statement? line.text = some statement)
    (h : lowerLine scope line = .ok (first, middle)) :
    ∃ labels allocated, define line.number scope statement = .ok labels ∧
      statement.names.foldlM (allocate line.number) scope.allocated = .ok allocated ∧
      first = emissions line (drafts (registerOf allocated) statement) ∧
      middle = { scope with
        slots := scope.slots + first.length, labels := labels, allocated := allocated } := by
  rw [lowerLine, hline] at h
  obtain ⟨labels, hlabels, hnames⟩ := exists_of_bind_eq_ok h
  obtain ⟨allocated, hallocated, hresult⟩ := exists_of_bind_eq_ok hnames
  cases hresult
  exact ⟨labels, allocated, hlabels, hallocated, rfl, rfl⟩

theorem lower_cons {scope final : Scope} {line : Reader.Line} {rest : List Reader.Line}
    {emitted : List Emission} (h : lower scope (line :: rest) = .ok (emitted, final)) :
    ∃ first middle others, lowerLine scope line = .ok (first, middle) ∧
      lower middle rest = .ok (others, final) ∧ emitted = first ++ others := by
  rw [lower] at h
  obtain ⟨⟨first, middle⟩, hline, hthen⟩ := exists_of_bind_eq_ok h
  obtain ⟨⟨others, last⟩, hrest, hresult⟩ := exists_of_bind_eq_ok hthen
  cases hresult
  exact ⟨first, middle, others, hline, hrest, rfl⟩

/-- A label is new, and it marks the next slot. Other statements define nothing. -/
theorem lookup_define {line : Nat} {scope : Scope} {statement : Statement}
    {labels : List (Name × Nat)} (h : define line scope statement = .ok labels) (name : Name) :
    (statement = .label name → scope.labels.lookup name = none) ∧
      labels.lookup name =
        if statement = .label name then some scope.slots else scope.labels.lookup name := by
  cases statement with
  | label own =>
    rw [define] at h
    split at h
    · exact absurd h (by simp)
    · next hfresh =>
      cases h
      by_cases heq : own = name
      · subst heq
        have hnone : scope.labels.lookup own = none := Option.not_isSome_iff_eq_none.1 hfresh
        exact ⟨fun _ => hnone, by simp⟩
      · have hbeq : (name == own) = false := by simpa using Ne.symm heq
        simp [heq, List.lookup_cons, hbeq]
  | _ =>
    cases h
    simp

/-- The labels of a lowered line and of the lines behind it. -/
theorem lookup_labels_cons {registers : Name → Int} {program : List Statement}
    {statement : Statement} {name : Name} {start : Nat}
    {before middle final : Option Nat}
    (hnew : statement = .label name → before = none)
    (hmiddle : middle = if statement = .label name then some start else before)
    (hfinal : final = middle.or
      (if .label name ∈ program then
        some (start + (drafts registers statement).length +
          slotOf registers program (program.idxOf (.label name)))
      else none)) :
    final = before.or
      (if .label name ∈ statement :: program then
        some (start + slotOf registers (statement :: program)
          ((statement :: program).idxOf (.label name)))
      else none) := by
  -- Either this statement is the label, or it is looked for in the rest, one statement later.
  by_cases hself : statement = .label name
  · rw [hfinal, hmiddle, if_pos hself, hnew hself]
    subst hself
    simp [List.idxOf_cons_self, slotOf_zero]
  · have hmem : (Statement.label name ∈ statement :: program) ↔ Statement.label name ∈ program := by
      simp [Ne.symm hself]
    rw [hfinal, hmiddle, if_neg hself]
    simp only [hmem, List.idxOf_cons_ne program hself, slotOf_cons_succ, Nat.add_assoc]

/-- Lowering from any scope. -/
theorem lowered_of_lower {scope final : Scope} {lines : List Reader.Line}
    {emitted : List Emission} (h : lower scope lines = .ok (emitted, final))
    (hwell : WellAllocated scope.allocated) : Lowered scope lines emitted final := by
  -- Scopes only grow, so what the induction gives for the rest is in terms of the final scope.
  induction lines generalizing scope emitted with
  | nil =>
    cases h
    exact
      { allocated_extended := List.prefix_refl _
        well := hwell
        names := fun statement hmem => absurd hmem List.not_mem_nil
        drafts_eq := rfl
        lookup_labels := fun name => by simp [accepted]
        notes := fun emission hmem => absurd hmem List.not_mem_nil }
  | cons line rest ih =>
    obtain ⟨first, middle, others, hfirst, hrest, rfl⟩ := lower_cons h
    cases hline : Reader.statement? line.text with
    | none =>
      -- The line says nothing and changes nothing but the count of such lines.
      have haccepted : accepted (line :: rest) = accepted rest := List.filterMap_cons_none hline
      have hskip : first = [] ∧ middle = { scope with skipped := scope.skipped + 1 } := by
        rw [lowerLine, hline] at hfirst
        simpa [eq_comm] using hfirst
      obtain ⟨rfl, rfl⟩ := hskip
      have htail := ih hrest hwell
      exact
        { allocated_extended := htail.allocated_extended
          well := htail.well
          names := by rw [haccepted]; exact htail.names
          drafts_eq := by rw [haccepted]; exact htail.drafts_eq
          lookup_labels := by rw [haccepted]; exact htail.lookup_labels
          notes := by
            intro emission hmem note hnote
            obtain ⟨other, hother, heq⟩ := htail.notes emission hmem note hnote
            exact ⟨other, List.mem_cons_of_mem _ hother, heq⟩ }
    | some statement =>
      have haccepted : accepted (line :: rest) = statement :: accepted rest :=
        List.filterMap_cons_some hline
      obtain ⟨labels, allocated, hlabels, hallocated, hemitted, rfl⟩ :=
        lowerLine_some hline hfirst
      obtain ⟨hextended, hwell', hnames⟩ := foldlM_allocate_spec hallocated hwell
      have htail := ih hrest hwell'
      -- The registers of this statement are the final ones.
      have hdrafts : drafts (registerOf allocated) statement =
          drafts (registerOf final.allocated) statement :=
        drafts_congr fun name hname =>
          (registerOf_extended htail.allocated_extended (hnames name hname)).symm
      have hlength : first.length =
          (drafts (registerOf final.allocated) statement).length := by
        rw [hemitted, length_emissions, hdrafts]
      exact
        { allocated_extended := hextended.trans htail.allocated_extended
          well := htail.well
          names := by
            rw [haccepted]
            intro other hmem name hname
            rcases List.mem_cons.1 hmem with rfl | hother
            · exact htail.allocated_extended.subset (hnames name hname)
            · exact htail.names other hother name hname
          drafts_eq := by
            rw [haccepted, List.map_append, htail.drafts_eq, hemitted, map_draft_emissions,
              hdrafts, List.flatMap_cons]
          lookup_labels := by
            intro name
            obtain ⟨hnew, hdefined⟩ := lookup_define hlabels name
            have hfinal := htail.lookup_labels name
            rw [haccepted]
            refine lookup_labels_cons hnew hdefined ?_
            rw [hfinal, hlength]
          notes := by
            intro emission hmem note hnote
            rcases List.mem_append.1 hmem with hhere | hthere
            · rw [hemitted] at hhere
              exact ⟨line, List.mem_cons_self, note_emissions hhere hnote⟩
            · obtain ⟨other, hother, heq⟩ := htail.notes emission hthere note hnote
              exact ⟨other, List.mem_cons_of_mem _ hother, heq⟩ }

/-! ## Linking -/

/-- Linking keeps slots: each emission becomes a line of code with its resolved target. -/
theorem getElem?_link {labels : List (Name × Nat)} {slot : Nat} {list : List Emission}
    {code : List CodeLine} (h : link labels slot list = .ok code) :
    code.length = list.length ∧ ∀ (i : Nat) (emission : Emission), list[i]? = some emission →
      ∃ operand2, resolve labels emission (slot + i) = .ok operand2 ∧
        code[i]? = some ⟨emission.draft.opcode, emission.draft.register, operand2,
          emission.note⟩ := by
  induction list generalizing slot code with
  | nil =>
    cases h
    exact ⟨rfl, fun i emission hnone => absurd hnone (by simp)⟩
  | cons first rest ih =>
    rw [link] at h
    obtain ⟨operand2, hfirst, hthen⟩ := exists_of_bind_eq_ok h
    obtain ⟨others, hrest, hresult⟩ := exists_of_bind_eq_ok hthen
    cases hresult
    obtain ⟨hlength, hothers⟩ := ih hrest
    refine ⟨by rw [List.length_cons, List.length_cons, hlength], ?_⟩
    intro i emission hget
    cases i with
    | zero =>
      have hemission : first = emission := by simpa using hget
      subst hemission
      exact ⟨operand2, hfirst, rfl⟩
    | succ i =>
      obtain ⟨value, hvalue, hcode⟩ := hothers i emission (by simpa using hget)
      refine ⟨value, ?_, by simpa using hcode⟩
      rw [← hvalue]
      congr 1
      omega

/-- The parts of a successful compilation. -/
theorem compile_ok {source : String} {program : Program} (h : compile source = .ok program) :
    ∃ emitted scope, lower {} (Reader.lines source) = .ok (emitted, scope) ∧
      link scope.labels 0 emitted = .ok program.code ∧ program.allocated = scope.allocated := by
  rw [compile] at h
  obtain ⟨⟨emitted, scope⟩, hlower, hthen⟩ := exists_of_bind_eq_ok h
  obtain ⟨code, hlink, hresult⟩ := exists_of_bind_eq_ok hthen
  cases hresult
  exact ⟨emitted, scope, hlower, hlink, rfl⟩

/-! ## Compiled programs -/

/-- The value that the machine finds in the second operand of a draft in a slot. -/
def Target.operand (registers : Name → Int) (program : List Statement) (slot : Nat) :
    Target → Int
  | .value literal => literal.bmod (3 ^ 6)
  | .label name => 15 * slotOf registers program (behind program name)
  | .ahead slots => 15 * (slot + slots : Nat)

/-- An address that is in reach fits a second operand. -/
theorem reach_ok {line slot : Nat} {address : Int} (h : reach line slot = .ok address) :
    address = 15 * slot ∧ address.bmod (3 ^ 6) = address := by
  simp only [reach] at h
  split at h
  · next hreach =>
    cases h
    have haddress : Memory.slotStart Memory.bootAddress slot = 15 * slot := by
      simp only [Memory.slotStart, Memory.bootAddress, Memory.slotWidth]
      omega
    have hlargest : Numeral.largest 6 = 364 := by decide
    rw [haddress] at hreach ⊢
    have hwidth : Instruction.operand2Width = 6 := rfl
    rw [hwidth] at hreach
    have hlow : -Numeral.largest 6 ≤ 15 * (slot : Int) := by omega
    exact ⟨rfl, Numeral.bmod_of_mem hlow hreach⟩
  · exact absurd h (by simp)

/-- Whether a target that is a label is the label of a statement. -/
def Target.Marked (program : List Statement) (target : Target) : Prop :=
  ∀ name, target = .label name → Statement.label name ∈ program

/-- A resolved target is read back as the operand that is meant. -/
theorem resolve_ok {labels : List (Name × Nat)} {emission : Emission} {slot : Nat}
    {operand2 : Int} (h : resolve labels emission slot = .ok operand2)
    {registers : Name → Int} {program : List Statement}
    (hlabels : ∀ name marked, labels.lookup name = some marked →
      Statement.label name ∈ program ∧ marked = slotOf registers program (behind program name)) :
    operand2.bmod (3 ^ 6) = emission.draft.target.operand registers program slot ∧
      emission.draft.target.Marked program := by
  unfold resolve at h
  split at h
  · next literal htarget =>
    cases h
    rw [htarget]
    exact ⟨rfl, fun name hname => absurd hname (by simp)⟩
  · next name htarget =>
    split at h
    · next marked hmarked =>
      obtain ⟨haddress, hfits⟩ := reach_ok h
      obtain ⟨hmem, hslot⟩ := hlabels name marked hmarked
      rw [hfits, haddress, htarget, hslot]
      refine ⟨rfl, ?_⟩
      rintro other hother
      cases hother
      exact hmem
    · exact absurd h (by simp)
  · next slots htarget =>
    obtain ⟨haddress, hfits⟩ := reach_ok h
    rw [hfits, haddress, htarget]
    exact ⟨rfl, fun name hname => absurd hname (by simp)⟩

end TritC

end TernaryConsole
