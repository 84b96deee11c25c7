import TernaryConsole.Proofs.TritC.Compiled
import TernaryConsole.Proofs.TritC.Outcome

/-!
# Proofs.TritC.Operands — emitted operands in memory

An emitted instruction is printed, read, cut down to its fields and fetched. Its operation and its
first operand come through unaltered, and so do the registers and the addresses in second operands,
since a target that does not fit is an error. Only the literals of a source are not checked: each of
them reaches its instruction as a balanced residue of six trits, which is the literal itself exactly
from -364 to 364 (`stored_of_compile`).
-/

namespace TernaryConsole

namespace TritC

/-! ## Literals -/

def Operand.literals : Operand → List Int
  | .literal value => [value]
  | .variable _ => []

/-- The numbers that a statement writes, in order. -/
def Statement.literals : Statement → List Int
  | .label _ => []
  | .halt => []
  | .rect => []
  | .branch _ _ value _ => value.literals
  | .goto _ => []
  | .color red green blue => red.literals ++ green.literals ++ blue.literals
  | .pos x y => x.literals ++ y.literals
  | .size width height => width.literals ++ height.literals
  | .out value => value.literals
  | .assign _ value => value.literals
  | .compute _ _ _ _ => []

/-- The number that a draft sets a register to. -/
def Draft.literal? (draft : Draft) : Option Int :=
  match draft.opcode, draft.target with
  | .set, .value literal => some literal
  | _, _ => none

section

variable {registers : Name → Int}

theorem literals_load (register : Int) (operand : Operand) :
    (load registers register operand).filterMap Draft.literal? = operand.literals := by
  cases operand with
  | literal value => rfl
  | «variable» name =>
    rw [load]
    split <;> rfl

theorem literals_combine (target left right : Int) (operator : Operator) :
    (combine target left operator.opcode right).filterMap Draft.literal? = [] := by
  unfold combine
  split
  · cases operator <;> rfl
  · split <;> cases operator <;> rfl

/-- Every literal of a statement is set by one of its drafts, and nothing else is. -/
theorem literals_drafts (registers : Name → Int) (statement : Statement) :
    (drafts registers statement).filterMap Draft.literal? = statement.literals := by
  cases statement with
  | label name => rfl
  | halt => rfl
  | rect => rfl
  | goto target => rfl
  | branch subject test value target =>
    have hjumps : (testJumps target test).filterMap Draft.literal? = [] := by
      cases test <;> rfl
    rw [drafts, List.filterMap_append, literals_load, List.filterMap_cons_none rfl, hjumps,
      List.append_nil]
    rfl
  | color red green blue =>
    simp only [drafts, List.filterMap_append, literals_load]
    rfl
  | pos x y =>
    simp only [drafts, List.filterMap_append, literals_load]
    rfl
  | size width height =>
    simp only [drafts, List.filterMap_append, literals_load]
    rfl
  | out value => cases value <;> rfl
  | assign target value => exact literals_load _ value
  | compute target left operator right => exact literals_combine _ _ _ operator

/-! ## Values -/

/-- A draft whose value, if it has one, is a literal that it sets or the number of a register. -/
def Draft.WellValued (draft : Draft) : Prop :=
  ∀ value, draft.target = .value value → draft.literal? = some value ∨ 0 ≤ value ∧ value ≤ 26

theorem Draft.wellValued_set (register literal : Int) :
    WellValued ⟨.set, register, .value literal⟩ := by
  intro value htarget
  obtain rfl : literal = value := Target.value.inj htarget
  exact Or.inl rfl

theorem Draft.wellValued_register {opcode : Opcode} {register number : Int}
    (h : 0 ≤ number ∧ number ≤ 26) : WellValued ⟨opcode, register, .value number⟩ := by
  intro value htarget
  obtain rfl : number = value := Target.value.inj htarget
  exact Or.inr h

theorem wellValued_load {register : Int} {operand : Operand}
    (hnames : ∀ name ∈ operand.names, 0 ≤ registers name ∧ registers name ≤ 26) :
    ∀ draft ∈ load registers register operand, draft.WellValued := by
  intro draft hmem
  cases operand with
  | literal value =>
    obtain rfl := List.mem_singleton.1 hmem
    exact Draft.wellValued_set register value
  | «variable» name =>
    rw [load] at hmem
    split at hmem
    · exact absurd hmem List.not_mem_nil
    · obtain rfl := List.mem_singleton.1 hmem
      exact Draft.wellValued_register (hnames name List.mem_cons_self)

theorem wellValued_combine {target left right : Int} {opcode : Opcode}
    (hleft : 0 ≤ left ∧ left ≤ 26) (hright : 0 ≤ right ∧ right ≤ 26) :
    ∀ draft ∈ combine target left opcode right, draft.WellValued := by
  have hscratch : 0 ≤ scratch ∧ scratch ≤ 26 := by decide
  intro draft hmem
  unfold combine at hmem
  split at hmem
  · simp only [List.mem_cons, List.not_mem_nil, or_false] at hmem
    rcases hmem with rfl | rfl | rfl
    · exact Draft.wellValued_register hleft
    · exact Draft.wellValued_register hright
    · exact Draft.wellValued_register hscratch
  · split at hmem
    · simp only [List.mem_cons, List.not_mem_nil, or_false] at hmem
      rcases hmem with rfl | rfl
      · exact Draft.wellValued_register hleft
      · exact Draft.wellValued_register hright
    · obtain rfl := List.mem_singleton.1 hmem
      exact Draft.wellValued_register hright

/-- Jumps have labels and distances. -/
theorem wellValued_testJumps {label : Name} {test : Test} :
    ∀ draft ∈ testJumps label test, draft.WellValued := by
  intro draft hmem value htarget
  cases test <;> simp only [testJumps, List.mem_cons, List.not_mem_nil, or_false] at hmem
  · rcases hmem with rfl | rfl | rfl <;> exact absurd htarget (by simp)
  · rcases hmem with rfl | rfl <;> exact absurd htarget (by simp)

theorem wellValued_drafts {statement : Statement}
    (hnames : ∀ name ∈ statement.names, 0 ≤ registers name ∧ registers name ≤ 26) :
    ∀ draft ∈ drafts registers statement, draft.WellValued := by
  have hzero : (0 : Int) ≤ 0 ∧ (0 : Int) ≤ 26 := by decide
  intro draft hmem
  cases statement with
  | label name => exact absurd hmem List.not_mem_nil
  | halt =>
    obtain rfl := List.mem_singleton.1 hmem
    exact Draft.wellValued_register hzero
  | rect =>
    obtain rfl := List.mem_singleton.1 hmem
    exact Draft.wellValued_register hzero
  | goto target =>
    obtain rfl := List.mem_singleton.1 hmem
    exact fun value htarget => absurd htarget (by simp)
  | branch subject test value target =>
    simp only [drafts, List.mem_append, List.mem_cons] at hmem
    rcases hmem with hload | rfl | hjump
    · exact wellValued_load (fun name hname => hnames name (List.mem_cons_of_mem _ hname))
        draft hload
    · exact Draft.wellValued_register (hnames subject List.mem_cons_self)
    · exact wellValued_testJumps draft hjump
  | color red green blue =>
    simp only [Statement.names, List.mem_append] at hnames
    simp only [drafts, List.mem_append] at hmem
    rcases hmem with (hred | hgreen) | hblue
    · exact wellValued_load (fun name hname => hnames name (Or.inl (Or.inl hname))) draft hred
    · exact wellValued_load (fun name hname => hnames name (Or.inl (Or.inr hname))) draft hgreen
    · exact wellValued_load (fun name hname => hnames name (Or.inr hname)) draft hblue
  | pos x y =>
    simp only [Statement.names, List.mem_append] at hnames
    rcases List.mem_append.1 hmem with hx | hy
    · exact wellValued_load (fun name hname => hnames name (Or.inl hname)) draft hx
    · exact wellValued_load (fun name hname => hnames name (Or.inr hname)) draft hy
  | size width height =>
    simp only [Statement.names, List.mem_append] at hnames
    rcases List.mem_append.1 hmem with hwidth | hheight
    · exact wellValued_load (fun name hname => hnames name (Or.inl hname)) draft hwidth
    · exact wellValued_load (fun name hname => hnames name (Or.inr hname)) draft hheight
  | out value =>
    cases value with
    | literal value =>
      simp only [drafts, List.mem_cons, List.not_mem_nil, or_false] at hmem
      rcases hmem with rfl | rfl
      · exact Draft.wellValued_set scratch value
      · exact Draft.wellValued_register hzero
    | «variable» name =>
      obtain rfl := List.mem_singleton.1 hmem
      exact Draft.wellValued_register hzero
  | assign target value =>
    exact wellValued_load (fun name hname => hnames name (List.mem_cons_of_mem _ hname)) draft hmem
  | compute target left operator right =>
    exact wellValued_combine (hnames left (by simp [Statement.names]))
      (hnames right (by simp [Statement.names])) draft hmem

end

/-! ## Targets -/

/-- An address that no fault keeps from being reached fits a second operand. -/
theorem Target.meant_bounds {registers : Name → Int} {program : List Statement} {slot line : Nat}
    {target : Target} (h : ∀ error, ¬ TargetFault registers program slot line target error)
    (hvalue : ∀ literal, target ≠ .value literal) :
    -364 ≤ target.meant registers program slot ∧ target.meant registers program slot ≤ 364 := by
  obtain ⟨marked, hleads⟩ : ∃ marked, Leads registers program slot target marked := by
    cases target with
    | value literal => exact absurd rfl (hvalue literal)
    | label name =>
      by_contra hnone
      have hmem : Statement.label name ∉ program := fun hmem => hnone ⟨_, .label hmem⟩
      exact h _ (.unknownLabel hmem)
    | ahead slots => exact ⟨_, .ahead slots⟩
  have hnear : ¬ (364 : Int) < 15 * marked := fun hfar => h _ (.outOfReach hleads hfar)
  rw [hleads.meant]
  omega

/-- A residue of six trits is the number itself exactly if that fits. -/
theorem bmod_eq_self_iff (number : Int) :
    number.bmod (3 ^ 6) = number ↔ -364 ≤ number ∧ number ≤ 364 := by
  have hlargest : Numeral.largest 6 = 364 := by decide
  constructor
  · intro heq
    have hbounds := Numeral.bmod_bounds 6 number
    rw [heq, hlargest] at hbounds
    exact hbounds
  · rintro ⟨hlow, hhigh⟩
    rw [← hlargest] at hlow hhigh
    exact Numeral.bmod_of_mem hlow hhigh

/-! ## Compiled sources -/

section

variable {source : String} {program : Program}

theorem lowered_of_compile (h : compile source = .ok program) :
    ∃ list scope, Lowered {} (Reader.lines source) list scope ∧
      link scope.labels 0 list = .ok program.code ∧ program.allocated = scope.allocated := by
  obtain ⟨list, scope, hlower, hlink, hallocated⟩ := compile_ok h
  exact ⟨list, scope, lowered_of_lower hlower ⟨List.nodup_nil, Nat.zero_le _⟩, hlink, hallocated⟩

/-- The printed program reads back as the operations of its code. -/
theorem operations_of_compile (h : compile source = .ok program) :
    Assembly.operations program.assembly = program.code.map CodeLine.operation := by
  obtain ⟨list, scope, hlowered, hlink, -⟩ := lowered_of_compile h
  apply Program.operations_assembly
  · exact fun line hline => (hlowered.code_line hlink hline).1
  · exact fun line hline => (hlowered.code_line hlink hline).2.2

/-- Fetching from the slot of a line of code. -/
theorem fetch_install_of_code (h : compile source = .ok program)
    (hsize : program.instructions ≤ 35429) (m : Machine) {slot : Nat} {line : CodeLine}
    (hcode : program.code[slot]? = some line) :
    Instruction.fetch (m.install program.assembly).2.memory (15 * slot) =
      line.operation.instruction := by
  have hslot : slot < program.instructions := (List.getElem?_eq_some_iff.1 hcode).1
  have hcells : Memory.size = 1594323 := rfl
  have hoperation : (Assembly.operations program.assembly)[slot]? = some line.operation := by
    rw [operations_of_compile h, List.getElem?_map, hcode]
    rfl
  have hfetch : Instruction.fetch ((m.memory.clear 0 Machine.clearedEnd).storeRun 0
      (Assembly.image (Assembly.operations program.assembly))) (0 + 15 * slot) =
        line.operation.instruction :=
    Assembly.fetch_storeRun_image _ hoperation (by omega) (by omega)
  rwa [Int.zero_add, ← Machine.memory_install] at hfetch

/-- What the emission in a slot means for the code. -/
theorem code_of_emitted (h : compile source = .ok program) {slot : Nat} {emission : Emission}
    (hemission : (emitted (placed (Reader.lines source)))[slot]? = some emission) :
    program.code[slot]? =
      some (emission.code (registerOf program.allocated) (statements source) slot) := by
  have houtcome := outcome_of_compile h
  rw [houtcome.code_eq, houtcome.allocated_eq, linked, List.getElem?_mapIdx, hemission,
    map_statement_source]
  rfl

theorem map_draft_emitted (h : compile source = .ok program) :
    (emitted (placed (Reader.lines source))).map Emission.draft =
      (statements source).flatMap (drafts (registerOf program.allocated)) := by
  have hstatements := map_statement_source source
  rw [(outcome_of_compile h).allocated_eq, emitted, hstatements, List.map_flatMap, ← hstatements,
    List.flatMap_map]
  simp only [map_draft_emissions]

theorem wellValued_emitted (h : compile source = .ok program) {emission : Emission}
    (hemission : emission ∈ emitted (placed (Reader.lines source))) :
    emission.draft.WellValued := by
  obtain ⟨_, scope, hlowered, -, hallocated⟩ := lowered_of_compile h
  have hdraft := List.mem_map_of_mem (f := Emission.draft) hemission
  rw [map_draft_emitted h, hallocated] at hdraft
  obtain ⟨statement, hstatement, hmem⟩ := List.mem_flatMap.1 hdraft
  refine wellValued_drafts (fun name hname => ?_) _ hmem
  have hbounds := registerOf_bounds hlowered.well (hlowered.names statement hstatement name hname)
  omega

/-- Only literals are not checked. -/
theorem meant_bounds_emitted (h : compile source = .ok program) {slot : Nat} {emission : Emission}
    (hemission : (emitted (placed (Reader.lines source)))[slot]? = some emission) :
    let meant := emission.draft.target.meant (registerOf program.allocated) (statements source) slot
    emission.draft.literal? = some meant ∨ -364 ≤ meant ∧ meant ≤ 364 := by
  intro meant
  have hwell := wellValued_emitted h (List.mem_of_getElem? hemission)
  cases htarget : emission.draft.target with
  | value literal =>
    have hmeant : meant = literal := by simp only [meant, htarget, Target.meant]
    rw [hmeant]
    exact (hwell literal htarget).imp_right fun hregister => by omega
  | _ =>
    -- A target at fault would have been the error.
    have hclean : ∀ error, ¬ TargetFault (registerOf program.allocated) (statements source) slot
        emission.line emission.draft.target error := by
      intro error hfault
      refine (outcome_of_compile h).reached slot error ⟨emission, hemission, ?_⟩
      rwa [Nat.zero_add]
    refine Or.inr (Target.meant_bounds hclean ?_)
    rw [htarget]
    exact fun literal => by simp

end

/-- What is fetched where a draft was stored whose second operand should be `meant`. -/
structure Draft.StoredAs (draft : Draft) (meant : Int) (i : Instruction) : Prop where
  opcode_eq : i.opcode = draft.opcode
  register_eq : (i.operand1.val : Int) = draft.register
  residue_eq : i.operand2 = meant.bmod (3 ^ 6)
  operand_eq_iff : i.operand2 = meant ↔ -364 ≤ meant ∧ meant ≤ 364
  /-- Only literals are altered. -/
  literal_of_ne : i.operand2 ≠ meant → draft.literal? = some meant

/-- The instruction of an emission, where it was stored. -/
theorem storedAs_emitted {source : String} {program : Program} (h : compile source = .ok program)
    (hsize : program.instructions ≤ 35429) (m : Machine) {slot : Nat} {emission : Emission}
    (hemission : (emitted (placed (Reader.lines source)))[slot]? = some emission) :
    emission.draft.StoredAs
      (emission.draft.target.meant (registerOf program.allocated) (statements source) slot)
      (Instruction.fetch (m.install program.assembly).2.memory (15 * slot)) := by
  obtain ⟨list, scope, hlowered, hlink, -⟩ := lowered_of_compile h
  have hcode := code_of_emitted h hemission
  obtain ⟨hopcode, hregister, -⟩ := hlowered.code_line hlink (List.mem_of_getElem? hcode)
  obtain ⟨hop, hfirst, hsecond⟩ := instruction_operation hopcode hregister
  rw [← fetch_install_of_code h hsize m hcode] at hop hfirst hsecond
  -- The second operand of the code is the meant one, and it is stored as its residue.
  have hiff := bmod_eq_self_iff
    (emission.draft.target.meant (registerOf program.allocated) (statements source) slot)
  refine ⟨hop, ?_, hsecond, hsecond ▸ hiff, fun hne => ?_⟩
  · rw [hfirst]
    exact val_ofInt hregister.1 hregister.2
  · have hbounds := meant_bounds_emitted h hemission
    exact hbounds.resolve_right fun hfits => hne (hsecond.trans (hiff.2 hfits))

/-- A compiled and installed source holds what it emitted in every slot. The values that it sets are
the literals of its statements, and if all of these fit six trits, no operand is altered. -/
theorem stored_of_compile {source : String} {program : Program}
    (h : compile source = .ok program) (hsize : program.instructions ≤ 35429) (m : Machine) :
    let list := emitted (placed (Reader.lines source))
    let meant := fun (slot : Nat) (emission : Emission) =>
      emission.draft.target.meant (registerOf program.allocated) (statements source) slot
    let fetched := fun slot : Nat =>
      Instruction.fetch (m.install program.assembly).2.memory (15 * slot)
    list.length = program.instructions ∧
      (∀ (slot : Nat) (emission : Emission), list[slot]? = some emission →
        emission.draft.StoredAs (meant slot emission) (fetched slot)) ∧
      list.filterMap (fun emission => emission.draft.literal?) =
        (statements source).flatMap Statement.literals ∧
      ((∀ literal ∈ (statements source).flatMap Statement.literals,
          -364 ≤ literal ∧ literal ≤ 364) →
        ∀ (slot : Nat) (emission : Emission), list[slot]? = some emission →
          (fetched slot).operand2 = meant slot emission) := by
  intro list meant fetched
  have hliterals : list.filterMap (fun emission => emission.draft.literal?) =
      (statements source).flatMap Statement.literals := by
    have hmap : list.filterMap (fun emission => emission.draft.literal?) =
        (list.map Emission.draft).filterMap Draft.literal? := by
      rw [List.filterMap_map]
      rfl
    rw [hmap, map_draft_emitted h, List.filterMap_flatMap]
    simp only [literals_drafts]
  refine ⟨?_, fun slot emission => storedAs_emitted h hsize m, hliterals, ?_⟩
  · rw [Program.instructions, (outcome_of_compile h).code_eq, linked, List.length_mapIdx]
  · intro hfits slot emission hemission
    have hstored := storedAs_emitted h hsize m hemission
    by_contra hne
    have hliteral := hstored.literal_of_ne hne
    have hmem : meant slot emission ∈ (statements source).flatMap Statement.literals := by
      rw [← hliterals]
      exact List.mem_filterMap.2 ⟨emission, List.mem_of_getElem? hemission, hliteral⟩
    exact hne (hstored.operand_eq_iff.2 (hfits _ hmem))

/-- A literal that is too large by one in front of a forward jump. -/
def oversized : String :=
  "x = 365\nif (x == 2) goto end\nout(-364)\nend:\nhalt"

theorem exists_program_oversized :
    ∃ program, compile oversized = .ok program ∧ program.instructions ≤ 35429 := by
  have hcount : (compile oversized).map Program.instructions = .ok 9 := rfl
  cases hcompile : compile oversized with
  | error fault =>
    rw [hcompile] at hcount
    exact absurd hcount (by simp [Except.map])
  | ok program =>
    rw [hcompile] at hcount
    have hinstructions : program.instructions = 9 := Except.ok.inj hcount
    refine ⟨program, rfl, ?_⟩
    rw [hinstructions]
    decide

theorem emitted_oversized :
    (emitted (placed (Reader.lines oversized)))[0]? =
      some ⟨⟨.set, 7, .value 365⟩, 1, some "x = 365"⟩ := by
  decide

theorem stored_of_compile_oversized :
    ∃ program, compile oversized = .ok program ∧ program.instructions ≤ 35429 ∧
      Draft.StoredAs ⟨.set, 7, .value 365⟩ 365
        (Instruction.fetch (Machine.initial.install program.assembly).2.memory (15 * (0 : Nat))) := by
  obtain ⟨program, hcompile, hsize⟩ := exists_program_oversized
  obtain ⟨-, hstored, -⟩ := stored_of_compile hcompile hsize Machine.initial
  exact ⟨program, hcompile, hsize, hstored 0 _ emitted_oversized⟩

/-- A literal need not reach its instruction. -/
theorem not_forall_operand_meant :
    ¬ ∀ (source : String) (program : Program), compile source = .ok program →
      program.instructions ≤ 35429 → ∀ (m : Machine) (slot : Nat) (emission : Emission),
      (emitted (placed (Reader.lines source)))[slot]? = some emission →
      (Instruction.fetch (m.install program.assembly).2.memory (15 * slot)).operand2 =
        emission.draft.target.meant (registerOf program.allocated) (statements source) slot := by
  intro h
  obtain ⟨program, hcompile, hsize⟩ := exists_program_oversized
  have hsame := h oversized program hcompile hsize Machine.initial 0 _ emitted_oversized
  have hstored := storedAs_emitted hcompile hsize Machine.initial emitted_oversized
  have hfits : (365 : Int) ≤ 364 := (hstored.operand_eq_iff.1 hsame).2
  exact absurd hfits (by decide)

end TritC

end TernaryConsole
