import TernaryConsole.Proofs.TritC.Layout

/-!
# Proofs.TritC.Outcome — what compiling a source answers

Compiling goes through the lines of a source and then through the instructions that they emit, and
either pass may end with an error. This module says what the answer is without running the passes.
A source is a list of placed statements. Statements have faults of their own (`LineFault`), emitted
instructions have targets that miss (`TargetFault`), and the error is the first fault of a
statement or, without one, the first fault of a target (`compile_eq_error_iff`). If there is none,
the program is the emitted instructions with their targets as addresses (`outcome_of_compile`).
-/

namespace TernaryConsole

namespace TritC

/-! ## Sources -/

/-- A statement with the line that says it. -/
structure Placed where
  line : Reader.Line
  statement : Statement

/-- The statements of some lines in their places. -/
def placed (lines : List Reader.Line) : List Placed :=
  lines.filterMap fun line => (Reader.statement? line.text).map (Placed.mk line)

theorem map_statement_source (source : String) :
    (placed (Reader.lines source)).map Placed.statement = statements source := by
  have hread : ∀ line : Reader.Line, ((Reader.statement? line.text).map (Placed.mk line)).map
      Placed.statement = Reader.statement? line.text := by
    intro line
    cases Reader.statement? line.text <;> rfl
  rw [placed, statements, accepted, List.map_filterMap]
  simp only [hread]

theorem placed_cons_none {line : Reader.Line} (h : Reader.statement? line.text = none)
    (rest : List Reader.Line) : placed (line :: rest) = placed rest := by
  simp [placed, h]

theorem placed_cons_some {line : Reader.Line} {statement : Statement}
    (h : Reader.statement? line.text = some statement) (rest : List Reader.Line) :
    placed (line :: rest) = ⟨line, statement⟩ :: placed rest := by
  simp [placed, h]

theorem read_of_mem_placed {lines : List Reader.Line} {entry : Placed} (h : entry ∈ placed lines) :
    entry.line ∈ lines ∧ Reader.statement? entry.line.text = some entry.statement := by
  obtain ⟨line, hline, hread⟩ := List.mem_filterMap.1 h
  obtain ⟨statement, hstatement, rfl⟩ := Option.map_eq_some_iff.1 hread
  exact ⟨hline, hstatement⟩

/-- The variables of a program, each once, in the order of their first use. -/
def firstUses (program : List Statement) : List Name :=
  (program.flatMap Statement.names).eraseDups

/-- What the statements of a source emit, in order. -/
def emitted (program : List Placed) : List Emission :=
  program.flatMap fun entry =>
    emissions entry.line
      (drafts (registerOf (firstUses (program.map Placed.statement))) entry.statement)

/-! ## Faults -/

/-- The error at the first of some positions that have one. -/
def First (fault : Nat → CompileError → Prop) (error : CompileError) : Prop :=
  ∃ position, fault position error ∧ ∀ earlier < position, ∀ other, ¬ fault earlier other

/-- After the names that are in use, all registers are taken when this one of the names asks for
one more. -/
def LacksRegister (used names : List Name) (name : Name) : Prop :=
  ∃ front back, names = front ++ name :: back ∧ name ∉ used ++ front ∧
    (used ++ front).eraseDups.length = registerCount

/-- The fault of a statement behind others. -/
inductive LineFault (before : List Statement) (line : Nat) : Statement → CompileError → Prop
  | duplicateLabel {name : Name} (h : Statement.label name ∈ before) :
      LineFault before line (.label name) (.duplicateLabel line name)
  | outOfRegisters {statement : Statement} {name : Name}
      (h : LacksRegister (before.flatMap Statement.names) statement.names name) :
      LineFault before line statement (.outOfRegisters line name)

/-- The fault of the statement at a position, if others stand in front of the source. -/
def LineFaultAt (before : List Statement) (program : List Placed) (position : Nat)
    (error : CompileError) : Prop :=
  ∃ entry, program[position]? = some entry ∧
    LineFault (before ++ (program.take position).map Placed.statement) entry.line.number
      entry.statement error

/-- The slot to which a target leads: the one behind its label, or the one so far ahead. -/
inductive Leads (registers : Name → Int) (program : List Statement) (slot : Nat) :
    Target → Nat → Prop
  | label {name : Name} (h : Statement.label name ∈ program) :
      Leads registers program slot (.label name) (slotOf registers program (behind program name))
  | ahead (slots : Nat) : Leads registers program slot (.ahead slots) (slot + slots)

/-- The fault of a target in a slot. A second operand holds addresses up to 364. -/
inductive TargetFault (registers : Name → Int) (program : List Statement) (slot line : Nat) :
    Target → CompileError → Prop
  | unknownLabel {name : Name} (h : Statement.label name ∉ program) :
      TargetFault registers program slot line (.label name) (.unknownLabel line name)
  | outOfReach {target : Target} {marked : Nat}
      (hleads : Leads registers program slot target marked) (hfar : (364 : Int) < 15 * marked) :
      TargetFault registers program slot line target (.targetOutOfReach line (15 * marked))

/-- The fault of the emission at a position, if the first one fills the slot `start`. -/
def TargetFaultAt (registers : Name → Int) (program : List Statement) (start : Nat)
    (list : List Emission) (position : Nat) (error : CompileError) : Prop :=
  ∃ emission, list[position]? = some emission ∧
    TargetFault registers program (start + position) emission.line emission.draft.target error

/-- The error of a source: the first fault of a statement, or else that of an instruction. -/
inductive SourceFault (program : List Placed) (error : CompileError) : Prop
  | line (h : First (LineFaultAt [] program) error)
  | target (hlines : ∀ position other, ¬ LineFaultAt [] program position other)
      (h : First (TargetFaultAt (registerOf (firstUses (program.map Placed.statement)))
        (program.map Placed.statement) 0 (emitted program)) error)

/-! ## Positions -/

namespace First

variable {fault : Nat → CompileError → Prop} {error other : CompileError}

theorem of_zero (h : fault 0 error) : First fault error :=
  ⟨0, h, fun earlier hlt => absurd hlt (Nat.not_lt_zero earlier)⟩

theorem of_succ (hzero : ∀ other, ¬ fault 0 other)
    (h : First (fun position => fault (position + 1)) error) : First fault error := by
  obtain ⟨position, hfault, hearlier⟩ := h
  refine ⟨position + 1, hfault, ?_⟩
  intro earlier hlt
  cases earlier with
  | zero => exact hzero
  | succ earlier => exact hearlier earlier (Nat.lt_of_succ_lt_succ hlt)

theorem unique (hat : ∀ position error other, fault position error → fault position other →
    error = other) (h : First fault error) (hother : First fault other) : error = other := by
  obtain ⟨position, hfault, hearlier⟩ := h
  obtain ⟨position', hfault', hearlier'⟩ := hother
  rcases Nat.lt_trichotomy position position' with hlt | rfl | hlt
  · exact absurd hfault (hearlier' position hlt error)
  · exact hat position error other hfault hfault'
  · exact absurd hfault' (hearlier position' hlt other)

end First

/-! ## Registers -/

theorem eraseDups_concat (used : List Name) (name : Name) :
    (used ++ [name]).eraseDups =
      if name ∈ used then used.eraseDups else used.eraseDups ++ [name] := by
  rw [List.eraseDups_append]
  split
  · next hmem => simp [List.removeAll, hmem]
  · next hnew => simp [List.removeAll, hnew, List.eraseDups_cons]

theorem length_eraseDups_le_append (used more : List Name) :
    used.eraseDups.length ≤ (used ++ more).eraseDups.length := by
  rw [List.eraseDups_append, List.length_append]
  exact Nat.le_add_right _ _

/-- A name that lacks a register is one too many. -/
theorem LacksRegister.lt_length {used names : List Name} {name : Name}
    (h : LacksRegister used names name) : registerCount < (used ++ names).eraseDups.length := by
  obtain ⟨front, back, rfl, hnew, hfull⟩ := h
  have hgrown : ((used ++ front) ++ [name]).eraseDups.length = registerCount + 1 := by
    rw [eraseDups_concat, if_neg hnew, List.length_append, hfull, List.length_singleton]
  have hle := length_eraseDups_le_append (used ++ front ++ [name]) back
  have hshape : used ++ (front ++ name :: back) = used ++ front ++ [name] ++ back := by simp
  rw [hshape]
  omega

theorem LacksRegister.length_ne {used front : List Name} {name : Name} (hnew : name ∉ used ++ front)
    (hfull : (used ++ front).eraseDups.length = registerCount) (mid : List Name) :
    (used ++ (front ++ name :: mid)).eraseDups.length ≠ registerCount :=
  have hlacks : LacksRegister used (front ++ name :: mid) name := ⟨front, mid, rfl, hnew, hfull⟩
  hlacks.lt_length.ne'

/-- Only one name finds all registers taken first. -/
theorem LacksRegister.unique {used names : List Name} {name other : Name}
    (h : LacksRegister used names name) (hother : LacksRegister used names other) :
    name = other := by
  obtain ⟨front, back, rfl, hnew, hfull⟩ := h
  obtain ⟨front', back', heq, hnew', hfull'⟩ := hother
  -- Were one of the two in front of the other, it would have taken one register too many.
  rcases List.append_eq_append_iff.1 heq with ⟨mid, rfl, hmid⟩ | ⟨mid, rfl, hmid⟩
  · cases mid with
    | nil => exact (List.cons.inj hmid).1
    | cons first mid =>
      obtain ⟨rfl, -⟩ := List.cons.inj hmid
      exact absurd hfull' (length_ne hnew hfull mid)
  · cases mid with
    | nil => exact (List.cons.inj hmid).1.symm
    | cons first mid =>
      obtain ⟨rfl, -⟩ := List.cons.inj hmid
      exact absurd hfull (length_ne hnew' hfull' mid)

/-- Names ask for registers one after the other, until one of them finds all of them taken. -/
theorem foldlM_allocate_cases {used : List Name} (hroom : used.eraseDups.length ≤ registerCount)
    (line : Nat) (names : List Name) :
    (∃ name, LacksRegister used names name ∧
      names.foldlM (allocate line) used.eraseDups = .error (.outOfRegisters line name)) ∨
    ((used ++ names).eraseDups.length ≤ registerCount ∧
      names.foldlM (allocate line) used.eraseDups = .ok (used ++ names).eraseDups) := by
  induction names generalizing used with
  | nil =>
    rw [List.append_nil]
    exact Or.inr ⟨hroom, rfl⟩
  | cons name names ih =>
    by_cases hlacks : name ∉ used ∧ used.eraseDups.length = registerCount
    · refine Or.inl ⟨name, ⟨[], names, rfl, by simpa using hlacks.1, by simpa using hlacks.2⟩, ?_⟩
      have hfirst : allocate line used.eraseDups name = .error (.outOfRegisters line name) := by
        simp [allocate, hlacks]
      rw [List.foldlM_cons, hfirst]
      rfl
    · -- The name has a register, or there is one for it.
      have hfirst : allocate line used.eraseDups name = .ok (used ++ [name]).eraseDups := by
        rw [eraseDups_concat, allocate]
        by_cases hmem : name ∈ used
        · simp [hmem]
        · have hfree : used.eraseDups.length < registerCount :=
            lt_of_le_of_ne hroom fun hfull => hlacks ⟨hmem, hfull⟩
          simp [hmem, hfree]
      have hroom' : (used ++ [name]).eraseDups.length ≤ registerCount := by
        rw [eraseDups_concat]
        split
        · exact hroom
        · next hmem =>
          have hfree : used.eraseDups.length < registerCount :=
            lt_of_le_of_ne hroom fun hfull => hlacks ⟨hmem, hfull⟩
          simpa using hfree
      have hshape : used ++ name :: names = used ++ [name] ++ names := by simp
      rw [List.foldlM_cons, hfirst, hshape]
      refine (ih hroom').imp ?_ id
      rintro ⟨other, ⟨front, back, rfl, hnew, hfull⟩, hfold⟩
      refine ⟨other, ⟨name :: front, back, rfl, ?_, ?_⟩, hfold⟩
      · simpa using hnew
      · simpa using hfull

/-! ## The lines -/

theorem LineFault.unique {before : List Statement} {line : Nat} {statement : Statement}
    {error other : CompileError} (h : LineFault before line statement error)
    (hother : LineFault before line statement other) : error = other := by
  cases h with
  | duplicateLabel hmem =>
    cases hother with
    | duplicateLabel hmem' => rfl
    | outOfRegisters hlacks =>
      -- A label has no variables.
      obtain ⟨front, back, hnames, -⟩ := hlacks
      exact absurd hnames (by simp [Statement.names])
  | outOfRegisters hlacks =>
    cases hother with
    | duplicateLabel hmem =>
      obtain ⟨front, back, hnames, -⟩ := hlacks
      exact absurd hnames (by simp [Statement.names])
    | outOfRegisters hlacks' => rw [hlacks.unique hlacks']

/-- What is known at the start of a line, after some statements. -/
structure Scope.Knows (scope : Scope) (before : List Statement) : Prop where
  labels : ∀ name, (scope.labels.lookup name).isSome = true ↔ Statement.label name ∈ before
  allocated_eq : scope.allocated = firstUses before
  length_le : (firstUses before).length ≤ registerCount

theorem Scope.knows_nil : Scope.Knows {} [] where
  labels := by simp
  allocated_eq := rfl
  length_le := Nat.zero_le _

theorem define_cases {scope : Scope} {before : List Statement} (hknows : scope.Knows before)
    (line : Nat) (statement : Statement) :
    (∃ name, statement = .label name ∧ Statement.label name ∈ before ∧
      define line scope statement = .error (.duplicateLabel line name)) ∨
    ((∀ name, statement = .label name → Statement.label name ∉ before) ∧
      ∃ labels, define line scope statement = .ok labels ∧
        ∀ name, (labels.lookup name).isSome = true ↔ Statement.label name ∈ before ++ [statement])
    := by
  by_cases hduplicate : ∃ name, statement = .label name ∧ Statement.label name ∈ before
  · obtain ⟨name, rfl, hmem⟩ := hduplicate
    refine Or.inl ⟨name, rfl, hmem, ?_⟩
    rw [define, if_pos ((hknows.labels name).2 hmem)]
  · have hnew : ∀ name, statement = .label name → Statement.label name ∉ before :=
      fun name heq hmem => hduplicate ⟨name, heq, hmem⟩
    obtain ⟨labels, hlabels⟩ : ∃ labels, define line scope statement = .ok labels := by
      cases statement with
      | label name =>
        have hfresh : ¬ (scope.labels.lookup name).isSome = true :=
          fun hsome => hnew name rfl ((hknows.labels name).1 hsome)
        exact ⟨_, if_neg hfresh⟩
      | _ => exact ⟨_, rfl⟩
    refine Or.inr ⟨hnew, labels, hlabels, fun name => ?_⟩
    rw [(lookup_define hlabels name).2]
    by_cases hself : statement = .label name
    · simp [hself]
    · rw [if_neg hself, hknows.labels, List.mem_append, List.mem_singleton,
        eq_comm (b := statement), or_iff_left hself]

theorem firstUses_concat (before : List Statement) (statement : Statement) :
    firstUses (before ++ [statement]) =
      (before.flatMap Statement.names ++ statement.names).eraseDups := by
  rw [firstUses, List.flatMap_append, List.flatMap_singleton]

/-- A line that says something is at fault, or what is known afterwards includes it. -/
theorem lowerLine_cases {scope : Scope} {before : List Statement} (hknows : scope.Knows before)
    {line : Reader.Line} {statement : Statement}
    (hline : Reader.statement? line.text = some statement) :
    (∃ error, LineFault before line.number statement error ∧
      lowerLine scope line = .error error) ∨
    ((∀ error, ¬ LineFault before line.number statement error) ∧
      ∃ first middle, lowerLine scope line = .ok (first, middle) ∧
        middle.Knows (before ++ [statement])) := by
  have hallocated : scope.allocated = (before.flatMap Statement.names).eraseDups :=
    hknows.allocated_eq
  rcases define_cases hknows line.number statement with
    ⟨name, rfl, hmem, hdefine⟩ | ⟨hnew, labels, hdefine, hlabels⟩
  · refine Or.inl ⟨_, .duplicateLabel hmem, ?_⟩
    rw [lowerLine, hline]
    dsimp only
    rw [hdefine]
    rfl
  · rcases foldlM_allocate_cases hknows.length_le line.number statement.names with
      ⟨name, hlacks, hfold⟩ | ⟨hroom, hfold⟩
    · refine Or.inl ⟨_, .outOfRegisters hlacks, ?_⟩
      rw [lowerLine, hline]
      dsimp only
      rw [hdefine, hallocated, hfold]
      rfl
    · refine Or.inr ⟨?_, ?_⟩
      · intro error hfault
        cases hfault with
        | duplicateLabel hmem => exact hnew _ rfl hmem
        | outOfRegisters hlacks => exact absurd hroom (Nat.not_le.2 hlacks.lt_length)
      · rw [lowerLine, hline]
        dsimp only
        rw [hdefine, hallocated, hfold]
        rw [← firstUses_concat] at hroom
        exact ⟨_, _, rfl, hlabels, (firstUses_concat before statement).symm, hroom⟩

theorem lineFaultAt_zero {before : List Statement} {entry : Placed} {program : List Placed}
    {error : CompileError} :
    LineFaultAt before (entry :: program) 0 error ↔
      LineFault before entry.line.number entry.statement error := by
  simp [LineFaultAt]

theorem lineFaultAt_succ {before : List Statement} {entry : Placed} {program : List Placed}
    {position : Nat} {error : CompileError} :
    LineFaultAt before (entry :: program) (position + 1) error ↔
      LineFaultAt (before ++ [entry.statement]) program position error := by
  simp [LineFaultAt]

theorem lower_cons_error {scope : Scope} {line : Reader.Line} {error : CompileError}
    (h : lowerLine scope line = .error error) (rest : List Reader.Line) :
    lower scope (line :: rest) = .error error := by
  rw [lower, h]
  rfl

theorem lower_cons_ok {scope middle : Scope} {line : Reader.Line} {first : List Emission}
    (h : lowerLine scope line = .ok (first, middle)) (rest : List Reader.Line) :
    lower scope (line :: rest) =
      (lower middle rest).map fun result => (first ++ result.1, result.2) := by
  rw [lower, h]
  cases hrest : lower middle rest <;> simp [bind, Except.bind, Except.map, hrest, pure, Except.pure]

/-- A line that says nothing changes nothing but the count of such lines. -/
theorem lowerLine_none {line : Reader.Line} (h : Reader.statement? line.text = none)
    (scope : Scope) :
    lowerLine scope line = .ok ([], { scope with skipped := scope.skipped + 1 }) := by
  rw [lowerLine, h]

/-- Lowering ends at the first statement at fault, or there is none. -/
theorem lower_cases {scope : Scope} {before : List Statement} (hknows : scope.Knows before)
    (lines : List Reader.Line) :
    (∃ error, First (LineFaultAt before (placed lines)) error ∧
      lower scope lines = .error error) ∨
    ((∀ position error, ¬ LineFaultAt before (placed lines) position error) ∧
      ∃ list final, lower scope lines = .ok (list, final) ∧
        final.Knows (before ++ accepted lines)) := by
  induction lines generalizing scope before with
  | nil =>
    refine Or.inr ⟨?_, [], scope, rfl, ?_⟩
    · rintro position error ⟨entry, hnone, -⟩
      exact absurd hnone (by simp [placed])
    · simpa [accepted] using hknows
  | cons line rest ih =>
    cases hline : Reader.statement? line.text with
    | none =>
      have haccepted : accepted (line :: rest) = accepted rest := List.filterMap_cons_none hline
      have hknows' : Scope.Knows { scope with skipped := scope.skipped + 1 } before :=
        ⟨hknows.labels, hknows.allocated_eq, hknows.length_le⟩
      rw [placed_cons_none hline, haccepted, lower_cons_ok (lowerLine_none hline scope)]
      refine (ih hknows').imp ?_ ?_
      · rintro ⟨error, hfirst, hrest⟩
        exact ⟨error, hfirst, by rw [hrest]; rfl⟩
      · rintro ⟨hclean, list, final, hrest, hfinal⟩
        exact ⟨hclean, list, final, by rw [hrest]; rfl, hfinal⟩
    | some statement =>
      have haccepted : accepted (line :: rest) = statement :: accepted rest :=
        List.filterMap_cons_some hline
      rw [placed_cons_some hline, haccepted]
      rcases lowerLine_cases hknows hline with
        ⟨error, hfault, hlower⟩ | ⟨hclean, first, middle, hlower, hmiddle⟩
      · exact Or.inl ⟨error, First.of_zero (lineFaultAt_zero.2 hfault),
          lower_cons_error hlower rest⟩
      · rw [lower_cons_ok hlower]
        refine (ih hmiddle).imp ?_ ?_
        · rintro ⟨error, hfirst, hrest⟩
          refine ⟨error, First.of_succ ?_ ?_, by rw [hrest]; rfl⟩
          · exact fun other hother => hclean other (lineFaultAt_zero.1 hother)
          · have hshift : (fun position => LineFaultAt before (⟨line, statement⟩ :: placed rest)
                (position + 1)) = LineFaultAt (before ++ [statement]) (placed rest) := by
              funext position other
              exact propext lineFaultAt_succ
            rwa [hshift]
        · rintro ⟨hothers, list, final, hrest, hfinal⟩
          refine ⟨?_, first ++ list, final, by rw [hrest]; rfl, ?_⟩
          · intro position error hfault
            cases position with
            | zero => exact hclean error (lineFaultAt_zero.1 hfault)
            | succ position => exact hothers position error (lineFaultAt_succ.1 hfault)
          · rwa [List.append_assoc, List.singleton_append] at hfinal

/-- The emissions of lowered lines and the number of lines that say nothing. -/
theorem emissions_of_lower {scope final : Scope} {lines : List Reader.Line}
    {list : List Emission} (h : lower scope lines = .ok (list, final))
    (hwell : WellAllocated scope.allocated) :
    list = (placed lines).flatMap (fun entry =>
        emissions entry.line (drafts (registerOf final.allocated) entry.statement)) ∧
      final.skipped = scope.skipped +
        lines.countP fun line => (Reader.statement? line.text).isNone := by
  induction lines generalizing scope list with
  | nil =>
    cases h
    exact ⟨rfl, rfl⟩
  | cons line rest ih =>
    obtain ⟨first, middle, others, hfirst, hrest, rfl⟩ := lower_cons h
    cases hline : Reader.statement? line.text with
    | none =>
      rw [lowerLine_none hline] at hfirst
      cases hfirst
      obtain ⟨hothers, hskipped⟩ := ih hrest hwell
      rw [placed_cons_none hline, hskipped, List.countP_cons_of_pos (by simp [hline])]
      exact ⟨hothers, by simp only; omega⟩
    | some statement =>
      obtain ⟨labels, allocated, -, hallocated, rfl, rfl⟩ := lowerLine_some hline hfirst
      obtain ⟨-, hwell', hnames⟩ := foldlM_allocate_spec hallocated hwell
      have htail := lowered_of_lower hrest hwell'
      obtain ⟨hothers, hskipped⟩ := ih hrest hwell'
      -- Registers that are handed out later do not change the drafts of this line.
      have hdrafts : drafts (registerOf allocated) statement =
          drafts (registerOf final.allocated) statement :=
        drafts_congr fun name hname =>
          (registerOf_extended htail.allocated_extended (hnames name hname)).symm
      rw [placed_cons_some hline, List.flatMap_cons, ← hothers, hskipped, hdrafts,
        List.countP_cons_of_neg (by simp [hline])]
      exact ⟨rfl, rfl⟩

/-! ## The targets -/

/-- The second operand that a target in a slot stands for. -/
def Target.meant (registers : Name → Int) (program : List Statement) (slot : Nat) : Target → Int
  | .value literal => literal
  | .label name => 15 * slotOf registers program (behind program name)
  | .ahead slots => 15 * (slot + slots : Nat)

theorem Leads.meant {registers : Name → Int} {program : List Statement} {slot marked : Nat}
    {target : Target} (h : Leads registers program slot target marked) :
    target.meant registers program slot = 15 * marked := by
  cases h <;> rfl

/-- The line of code of an emission in a slot. -/
def Emission.code (registers : Name → Int) (program : List Statement) (slot : Nat)
    (emission : Emission) : CodeLine :=
  ⟨emission.draft.opcode, emission.draft.register,
    emission.draft.target.meant registers program slot, emission.note⟩

/-- A table with the slots of all labels of a program. -/
def Marks (registers : Name → Int) (program : List Statement) (labels : List (Name × Nat)) : Prop :=
  ∀ name, labels.lookup name =
    if Statement.label name ∈ program then some (slotOf registers program (behind program name))
    else none

theorem Lowered.marks {lines : List Reader.Line} {list : List Emission} {final : Scope}
    (h : Lowered {} lines list final) :
    Marks (registerOf final.allocated) (accepted lines) final.labels := by
  intro name
  rw [h.lookup_labels name]
  split
  · next hmem =>
    -- A label has no drafts, so the slot behind it is its own slot.
    have hempty : (drafts (registerOf final.allocated) (Statement.label name)).length = 0 := rfl
    rw [behind, slotOf_succ _ (List.getElem?_idxOf hmem), hempty]
    simp
  · rfl

theorem reach_eq (line slot : Nat) :
    reach line slot =
      if (15 * slot : Int) ≤ 364 then .ok (15 * slot : Int)
      else .error (.targetOutOfReach line (15 * slot)) := by
  have haddress : Memory.slotStart Memory.bootAddress slot = 15 * slot := by
    simp only [Memory.slotStart, Memory.bootAddress, Memory.slotWidth]
    omega
  have hlargest : Numeral.largest Instruction.operand2Width = 364 := by decide
  rw [reach, haddress, hlargest]

section

variable {registers : Name → Int} {program : List Statement}

theorem TargetFault.unique {slot line : Nat} {target : Target} {error other : CompileError}
    (h : TargetFault registers program slot line target error)
    (hother : TargetFault registers program slot line target other) : error = other := by
  cases h with
  | unknownLabel hnone =>
    cases hother with
    | unknownLabel _ => rfl
    | outOfReach hleads _ =>
      cases hleads with
      | label hmem => exact absurd hmem hnone
  | outOfReach hleads _ =>
    cases hother with
    | unknownLabel hnone =>
      cases hleads with
      | label hmem => exact absurd hmem hnone
    | outOfReach hleads' _ => rw [← hleads.meant, ← hleads'.meant]

/-- A target that leads somewhere becomes its address, or it is out of reach. -/
theorem reach_cases {slot marked : Nat} {target : Target}
    (hleads : Leads registers program slot target marked) (line : Nat) :
    (∃ error, TargetFault registers program slot line target error ∧
      reach line marked = .error error) ∨
    ((∀ error, ¬ TargetFault registers program slot line target error) ∧
      reach line marked = .ok (target.meant registers program slot)) := by
  rw [reach_eq, hleads.meant]
  split
  · next hnear =>
    refine Or.inr ⟨fun error hfault => ?_, rfl⟩
    cases hfault with
    | unknownLabel hnone =>
      cases hleads with
      | label hmem => exact hnone hmem
    | outOfReach hleads' hfar =>
      rw [← hleads'.meant, hleads.meant] at hfar
      omega
  · next hfar => exact Or.inl ⟨_, .outOfReach hleads (by omega), rfl⟩

theorem resolve_cases {labels : List (Name × Nat)} (hmarks : Marks registers program labels)
    (emission : Emission) (slot : Nat) :
    (∃ error, TargetFault registers program slot emission.line emission.draft.target error ∧
      resolve labels emission slot = .error error) ∨
    ((∀ error, ¬ TargetFault registers program slot emission.line emission.draft.target error) ∧
      resolve labels emission slot =
        .ok (emission.draft.target.meant registers program slot)) := by
  unfold resolve
  cases htarget : emission.draft.target with
  | value value =>
    refine Or.inr ⟨fun error hfault => ?_, rfl⟩
    cases hfault with
    | outOfReach hleads _ => cases hleads
  | label name =>
    dsimp only
    rw [hmarks name]
    by_cases hmem : Statement.label name ∈ program
    · rw [if_pos hmem]
      exact reach_cases (.label hmem) emission.line
    · rw [if_neg hmem]
      exact Or.inl ⟨_, .unknownLabel hmem, rfl⟩
  | ahead slots => exact reach_cases (.ahead slots) emission.line

theorem targetFaultAt_zero {start : Nat} {emission : Emission} {list : List Emission}
    {error : CompileError} :
    TargetFaultAt registers program start (emission :: list) 0 error ↔
      TargetFault registers program start emission.line emission.draft.target error := by
  simp [TargetFaultAt]

theorem targetFaultAt_succ {start position : Nat} {emission : Emission} {list : List Emission}
    {error : CompileError} :
    TargetFaultAt registers program start (emission :: list) (position + 1) error ↔
      TargetFaultAt registers program (start + 1) list position error := by
  simp [TargetFaultAt, Nat.add_assoc, Nat.add_comm 1]

/-- Linking ends at the first target at fault, or there is none. -/
theorem link_cases {labels : List (Name × Nat)} (hmarks : Marks registers program labels)
    (start : Nat) (list : List Emission) :
    (∃ error, First (TargetFaultAt registers program start list) error ∧
      link labels start list = .error error) ∨
    ((∀ position error, ¬ TargetFaultAt registers program start list position error) ∧
      link labels start list =
        .ok (list.mapIdx fun place emission =>
          emission.code registers program (start + place))) := by
  induction list generalizing start with
  | nil =>
    refine Or.inr ⟨?_, rfl⟩
    rintro position error ⟨emission, hnone, -⟩
    exact absurd hnone (by simp)
  | cons emission rest ih =>
    rw [link]
    rcases resolve_cases hmarks emission start with
      ⟨error, hfault, hresolve⟩ | ⟨hclean, hresolve⟩
    · rw [hresolve]
      exact Or.inl ⟨error, First.of_zero (targetFaultAt_zero.2 hfault), rfl⟩
    · rw [hresolve]
      dsimp only [bind, Except.bind]
      refine (ih (start + 1)).imp ?_ ?_
      · rintro ⟨error, hfirst, hrest⟩
        have hshift : (fun position => TargetFaultAt registers program start (emission :: rest)
            (position + 1)) = TargetFaultAt registers program (start + 1) rest := by
          funext position other
          exact propext targetFaultAt_succ
        refine ⟨error, First.of_succ ?_ (by rwa [hshift]), by rw [hrest]⟩
        exact fun other hother => hclean other (targetFaultAt_zero.1 hother)
      · rintro ⟨hothers, hrest⟩
        refine ⟨?_, ?_⟩
        · intro position error hfault
          cases position with
          | zero => exact hclean error (targetFaultAt_zero.1 hfault)
          | succ position => exact hothers position error (targetFaultAt_succ.1 hfault)
        · rw [hrest, List.mapIdx_cons]
          simp only [Nat.add_assoc, Nat.add_comm 1]
          rfl

end

/-! ## The answer -/

theorem SourceFault.unique {program : List Placed} {error other : CompileError}
    (h : SourceFault program error) (hother : SourceFault program other) : error = other := by
  have hline : ∀ position error other, LineFaultAt [] program position error →
      LineFaultAt [] program position other → error = other := by
    rintro position error other ⟨entry, hentry, hfault⟩ ⟨entry', hentry', hfault'⟩
    obtain rfl := Option.some.inj (hentry.symm.trans hentry')
    exact hfault.unique hfault'
  have htarget : ∀ registers statements position error other,
      TargetFaultAt registers statements 0 (emitted program) position error →
      TargetFaultAt registers statements 0 (emitted program) position other → error = other := by
    rintro registers statements position error other ⟨emission, hemission, hfault⟩
      ⟨emission', hemission', hfault'⟩
    obtain rfl := Option.some.inj (hemission.symm.trans hemission')
    exact hfault.unique hfault'
  cases h with
  | line hfirst =>
    cases hother with
    | line hfirst' => exact hfirst.unique hline hfirst'
    | target hlines _ =>
      obtain ⟨position, hfault, -⟩ := hfirst
      exact absurd hfault (hlines position error)
  | target hlines hfirst =>
    cases hother with
    | line hfirst' =>
      obtain ⟨position, hfault, -⟩ := hfirst'
      exact absurd hfault (hlines position other)
    | target _ hfirst' => exact hfirst.unique (htarget _ _) hfirst'

/-- The code of a source without faults. -/
def linked (program : List Placed) : List CodeLine :=
  (emitted program).mapIdx fun slot emission =>
    emission.code (registerOf (firstUses (program.map Placed.statement)))
      (program.map Placed.statement) slot

/-- The program of a source without faults. -/
structure Outcome (source : String) (program : Program) : Prop where
  code_eq : program.code = linked (placed (Reader.lines source))
  allocated_eq : program.allocated = firstUses (statements source)
  skipped_eq : program.skipped =
    (Reader.lines source).countP fun line => (Reader.statement? line.text).isNone
  reached : ∀ slot error, ¬ TargetFaultAt (registerOf program.allocated) (statements source) 0
    (emitted (placed (Reader.lines source))) slot error

theorem compile_cases (source : String) :
    (∃ error, SourceFault (placed (Reader.lines source)) error ∧
      compile source = .error error) ∨
    ((∀ error, ¬ SourceFault (placed (Reader.lines source)) error) ∧
      ∃ program, compile source = .ok program ∧ Outcome source program) := by
  have hstatements := map_statement_source source
  rcases lower_cases Scope.knows_nil (Reader.lines source) with
    ⟨error, hfirst, hlower⟩ | ⟨hlines, list, final, hlower, hknows⟩
  · refine Or.inl ⟨error, .line hfirst, ?_⟩
    rw [compile, hlower]
    rfl
  · have hempty : WellAllocated [] := ⟨List.nodup_nil, Nat.zero_le _⟩
    have hallocated : final.allocated = firstUses (statements source) := by
      rw [hknows.allocated_eq, List.nil_append, statements]
    have hmarks : Marks (registerOf final.allocated) (statements source) final.labels :=
      (lowered_of_lower hlower hempty).marks
    obtain ⟨hlist, hskipped⟩ := emissions_of_lower hlower hempty
    have hemitted : list = emitted (placed (Reader.lines source)) := by
      rw [hlist, hallocated, emitted, hstatements]
    rw [hallocated] at hmarks
    rcases link_cases hmarks 0 list with ⟨error, hfirst, hlink⟩ | ⟨hclean, hlink⟩
    · refine Or.inl ⟨error, .target hlines ?_, ?_⟩
      · rw [hstatements, ← hemitted]
        exact hfirst
      · rw [compile, hlower]
        dsimp only [bind, Except.bind]
        rw [hlink]
    · refine Or.inr ⟨?_, ⟨linked (placed (Reader.lines source)), final.allocated,
        final.skipped⟩, ?_, ?_⟩
      · intro error hfault
        cases hfault with
        | line hfirst =>
          obtain ⟨position, hfault, -⟩ := hfirst
          exact hlines position error hfault
        | target _ hfirst =>
          obtain ⟨position, hfault, -⟩ := hfirst
          rw [hstatements, ← hemitted] at hfault
          exact hclean position error hfault
      · simp only [Nat.zero_add] at hlink
        rw [compile, hlower, linked, hstatements, ← hemitted]
        dsimp only [bind, Except.bind]
        rw [hlink]
        rfl
      · constructor
        · dsimp only
        · exact hallocated
        · dsimp only
          rw [hskipped]
          exact Nat.zero_add _
        · dsimp only
          rw [← hemitted, hallocated]
          exact hclean

/-- A source does not compile exactly if it has a fault, and that is the error. -/
theorem compile_eq_error_iff (source : String) (error : CompileError) :
    compile source = .error error ↔ SourceFault (placed (Reader.lines source)) error := by
  rcases compile_cases source with ⟨found, hfault, hcompile⟩ | ⟨hclean, program, hcompile, -⟩
  · rw [hcompile, Except.error.injEq]
    exact ⟨fun heq => heq ▸ hfault, fun hother => hfault.unique hother⟩
  · rw [hcompile]
    exact ⟨fun heq => absurd heq (by simp), fun hfault => absurd hfault (hclean error)⟩

theorem outcome_of_compile {source : String} {program : Program}
    (h : compile source = .ok program) : Outcome source program := by
  rcases compile_cases source with ⟨error, -, hcompile⟩ | ⟨-, found, hcompile, houtcome⟩
  · rw [hcompile] at h
    exact absurd h (by simp)
  · rw [hcompile] at h
    exact Except.ok.inj h ▸ houtcome

/-- A source compiles exactly if it has no fault. -/
theorem exists_compile_iff (source : String) :
    (∃ program, compile source = .ok program) ↔
      ∀ error, ¬ SourceFault (placed (Reader.lines source)) error := by
  rcases compile_cases source with ⟨error, hfault, hcompile⟩ | ⟨hclean, program, hcompile, -⟩
  · refine ⟨?_, fun hclean => absurd hfault (hclean error)⟩
    rintro ⟨program, hok⟩
    rw [hcompile] at hok
    exact absurd hok (by simp)
  · exact ⟨fun _ => hclean, fun _ => ⟨program, hcompile⟩⟩

end TritC

end TernaryConsole
