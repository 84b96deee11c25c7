import TernaryConsole.Proofs.Isa
import TernaryConsole.Proofs.TritC.Allocation

/-!
# Proofs.TritC.Simulation — compiled sources run as the interpreter says

`Tracks` relates a machine at the first slot of a statement to a configuration. Each statement has
a `Block`: the machine runs through its instructions and tracks the next configuration afterwards.
Blocks may be empty, but then the position of the source moves on, so the machine never stays
behind. `compile_simulates` puts the blocks behind each other, through loops of any length.
-/

namespace TernaryConsole

namespace TritC

/-! ## Tracking -/

/-- A machine in front of a statement holds a configuration. -/
structure Tracks (start : Machine) (source : String) (program : Program) (c : Config)
    (x : Machine) : Prop where
  holds : Holds program.allocated x.registers c
  screen : ∀ px py, Screen.pixel x.memory px py = c.screen px py
  output : x.output.values = Isa.latest c.output
  position : c.stopped = false → c.position ≤ (statements source).length
  atSlot : c.stopped = false →
    AtSlot start x (slotOf (registerOf program.allocated) (statements source) c.position)
  halted : c.stopped = true → x.state = .halted

/-- What the lemmas on single statements take for granted. -/
structure Setting (source : String) (program : Program) (run : Nat → Machine) : Prop where
  assembled : Assembled source program
  size_le : program.instructions ≤ 35429
  driven : Driven run

/-- The steps of a statement: `count` steps from step `n` on lead from one configuration to the
next. Only the last one can be seen from outside. -/
structure Block (start : Machine) (source : String) (program : Program) (run : Nat → Machine)
    (n count : Nat) (before after : Config) : Prop where
  tracks : Tracks start source program after (run (n + count))
  quiet : ∀ k, k < count →
    (run (n + k)).memory = (run n).memory ∧ (run (n + k)).output = (run n).output
  /-- An empty block moves the position on. -/
  moves : count = 0 → after.position = before.position + 1
  /-- Stopping takes one step. -/
  stops : after.stopped = true → count = 1

theorem Holds.congr {allocated : List Name} {registers : Registers} {c d : Config}
    (h : Holds allocated registers c) (hstore : d.store = c.store)
    (harguments : d.arguments = c.arguments) : Holds allocated registers d where
  words := h.words
  store := by
    rw [hstore]
    exact h.store
  arguments := by
    rw [harguments]
    exact h.arguments

theorem Setting.size_operations {source : String} {program : Program} {run : Nat → Machine}
    (h : Setting source program run) :
    (Assembly.operations program.assembly).length ≤ 35429 := by
  rw [h.assembled.instructions_eq]
  exact h.size_le

section Blocks

variable {source : String} {program : Program} {run : Nat → Machine} {m : Machine} {n : Nat}
  {c after : Config} {statement : Statement}

/-- A stretch that ends at the slot of a position is a block, if the registers hold what the
statement makes of the configuration. -/
theorem Block.of_glides {count : Nat} {registers : Registers}
    (h : Tracks (m.install program.assembly).2 source program c (run n))
    (hrunning : c.stopped = false)
    (hglides : Glides run n count registers
      (15 * (slotOf (registerOf program.allocated) (statements source) after.position : Int)))
    (hholds : Holds program.allocated registers after)
    (hscreen : after.screen = c.screen) (houtput : after.output = c.output)
    (hstopped : after.stopped = false)
    (hposition : after.position ≤ (statements source).length)
    (hmoves : count = 0 → after.position = c.position + 1) :
    Block (m.install program.assembly).2 source program run n count c after where
  tracks :=
    { holds := by
        rw [hglides.registers_eq]
        exact hholds
      screen := by
        rw [hscreen, (hglides.quiet count (Nat.le_refl count)).1]
        exact h.screen
      output := by
        rw [houtput, (hglides.quiet count (Nat.le_refl count)).2]
        exact h.output
      position := fun _ => hposition
      atSlot := fun _ => hglides.atSlot (h.atSlot hrunning)
      halted := by
        intro hhalted
        rw [hstopped] at hhalted
        exact absurd hhalted (by decide) }
  quiet := fun k hk => hglides.quiet k (Nat.le_of_lt hk)
  moves := hmoves
  stops := by
    intro hhalted
    rw [hstopped] at hhalted
    exact absurd hhalted (by decide)

/-- The block of a statement that is straight code. -/
theorem Block.of_straight (hsetting : Setting source program run)
    (h : Tracks (m.install program.assembly).2 source program c (run n))
    (hrunning : c.stopped = false) (hstatement : (statements source)[c.position]? = some statement)
    (hstraight : ∀ d ∈ drafts (registerOf program.allocated) statement, d.IsStraight)
    (hholds : Holds program.allocated
      ((drafts (registerOf program.allocated) statement).foldl Draft.apply (run n).registers) after)
    (hscreen : after.screen = c.screen) (houtput : after.output = c.output)
    (hstopped : after.stopped = false) (hposition : after.position = c.position + 1) :
    Block (m.install program.assembly).2 source program run n
      (drafts (registerOf program.allocated) statement).length c after := by
  have hglides := Glides.straight hsetting.driven hsetting.size_operations hstraight
    (h.atSlot hrunning) (hsetting.assembled.codeAt _ _ hstatement)
  rw [← slotOf_succ _ hstatement, ← hposition] at hglides
  have hbound := (List.getElem?_eq_some_iff.1 hstatement).1
  exact Block.of_glides h hrunning hglides hholds hscreen houtput hstopped
    (by omega) (fun _ => hposition)

/-! ## Statements without jumps -/

/-- Loading an operand into the register of an argument. -/
theorem holds_load_argument {allocated : List Name} {registers : Registers} {d : Config}
    (h : Holds allocated registers d) (hwell : WellAllocated allocated) {operand : Operand}
    (hnames : ∀ name ∈ operand.names, name ∈ allocated) (slot : Fin 7) (number : Int)
    (hnumber : number = slot.val) :
    Holds allocated ((load (registerOf allocated) number operand).foldl Draft.apply registers)
      (d.argue slot (d.eval operand)) := by
  have hset := h.set_argument hwell slot (d.eval operand)
  rw [wrap_eval h hnames] at hset
  rw [foldl_load h hwell hnames, hnumber, Register.ofInt_natCast]
  exact hset

theorem eval_argue (d : Config) (slot : Fin 7) (value : Int) (operand : Operand) :
    (d.argue slot value).eval operand = d.eval operand := by
  cases operand <;> rfl

/-- Whether a statement only changes variables or arguments. -/
def Statement.IsSilent : Statement → Prop
  | .label _ | .color .. | .pos .. | .size .. | .assign .. | .compute .. => True
  | _ => False

/-- The blocks of statements that only change registers. -/
theorem Block.exists_of_isSilent (hsetting : Setting source program run)
    (h : Tracks (m.install program.assembly).2 source program c (run n))
    (hrunning : c.stopped = false) (hstatement : (statements source)[c.position]? = some statement)
    (hsilent : statement.IsSilent) :
    ∃ count, Block (m.install program.assembly).2 source program run n count c
      ((c.goto (c.position + 1)).effect (statements source) statement) := by
  have hwell := hsetting.assembled.well
  have hnames := hsetting.assembled.names statement (List.mem_of_getElem? hstatement)
  have hholds : Holds program.allocated (run n).registers (c.goto (c.position + 1)) :=
    h.holds.congr rfl rfl
  cases statement with
  | halt | rect | branch | goto | out => exact hsilent.elim
  | label name =>
    exact ⟨_, Block.of_straight hsetting h hrunning hstatement
      (fun d hd => absurd hd List.not_mem_nil) hholds rfl rfl hrunning rfl⟩
  | assign target value =>
    have htarget := hnames target List.mem_cons_self
    have hvalue : ∀ name ∈ value.names, name ∈ program.allocated :=
      fun name hname => hnames name (List.mem_cons_of_mem _ hname)
    have hset := hholds.set_variable hwell htarget ((c.goto (c.position + 1)).eval value)
    rw [wrap_eval hholds hvalue, ← foldl_load hholds hwell hvalue] at hset
    exact ⟨_, Block.of_straight hsetting h hrunning hstatement isStraight_load hset rfl rfl hrunning
      rfl⟩
  | compute target left operator right =>
    have hset := holds_combine hholds hwell operator (hnames target (by simp [Statement.names]))
      (hnames left (by simp [Statement.names])) (hnames right (by simp [Statement.names]))
    exact ⟨_, Block.of_straight hsetting h hrunning hstatement isStraight_combine hset rfl rfl
      hrunning rfl⟩
  | color red green blue =>
    simp only [Statement.names, List.mem_append] at hnames
    have hred := holds_load_argument hholds hwell
      (fun name hname => hnames name (Or.inl (Or.inl hname))) 0 0 rfl
    have hgreen := holds_load_argument hred hwell
      (fun name hname => hnames name (Or.inl (Or.inr hname))) 1 1 rfl
    have hblue := holds_load_argument hgreen hwell
      (fun name hname => hnames name (Or.inr hname)) 2 2 rfl
    -- No argument is a variable, so what was loaded first does not change what comes next.
    rw [← List.foldl_append, ← List.foldl_append, ← List.append_assoc, eval_argue, eval_argue,
      eval_argue] at hblue
    refine ⟨_, Block.of_straight hsetting h hrunning hstatement ?_ hblue rfl rfl hrunning rfl⟩
    intro d hd
    simp only [drafts, List.mem_append] at hd
    rcases hd with (hd | hd) | hd <;> exact isStraight_load d hd
  | pos x y =>
    simp only [Statement.names, List.mem_append] at hnames
    have hx := holds_load_argument hholds hwell
      (fun name hname => hnames name (Or.inl hname)) 3 3 rfl
    have hy := holds_load_argument hx hwell
      (fun name hname => hnames name (Or.inr hname)) 4 4 rfl
    rw [← List.foldl_append, eval_argue] at hy
    refine ⟨_, Block.of_straight hsetting h hrunning hstatement ?_ hy rfl rfl hrunning rfl⟩
    intro d hd
    rcases List.mem_append.1 hd with hd | hd <;> exact isStraight_load d hd
  | size width height =>
    simp only [Statement.names, List.mem_append] at hnames
    have hwidth := holds_load_argument hholds hwell
      (fun name hname => hnames name (Or.inl hname)) 5 5 rfl
    have hheight := holds_load_argument hwidth hwell
      (fun name hname => hnames name (Or.inr hname)) 6 6 rfl
    rw [← List.foldl_append, eval_argue] at hheight
    refine ⟨_, Block.of_straight hsetting h hrunning hstatement ?_ hheight rfl rfl hrunning rfl⟩
    intro d hd
    rcases List.mem_append.1 hd with hd | hd <;> exact isStraight_load d hd

/-! ## Jumps -/

theorem position_behind_le {label : Name} (hmem : Statement.label label ∈ statements source) :
    behind (statements source) label ≤ (statements source).length :=
  List.idxOf_lt_length_of_mem hmem

theorem Block.exists_of_goto (hsetting : Setting source program run)
    (h : Tracks (m.install program.assembly).2 source program c (run n))
    (hrunning : c.stopped = false) {target : Name}
    (hstatement : (statements source)[c.position]? = some (.goto target)) :
    ∃ count, Block (m.install program.assembly).2 source program run n count c
      ((c.goto (c.position + 1)).goto (behind (statements source) target)) := by
  obtain ⟨hmarked, hglides⟩ := Glides.jmp hsetting.driven hsetting.size_operations
    (h.atSlot hrunning) (hsetting.assembled.codeAt _ _ hstatement)
  have hmem := hmarked target rfl
  exact ⟨1, Block.of_glides h hrunning hglides (h.holds.congr rfl rfl) rfl rfl hrunning
    (position_behind_le hmem) (fun hzero => absurd hzero (by decide))⟩

/-- The comparison of a test puts the sign of the difference into the scratch register. -/
theorem foldl_comparison {allocated : List Name} {registers : Registers} {d : Config}
    (h : Holds allocated registers d) (hwell : WellAllocated allocated) {subject : Name}
    (hsubject : subject ∈ allocated) {value : Operand}
    (hvalue : ∀ name ∈ value.names, name ∈ allocated) :
    (load (registerOf allocated) scratch value ++
        [(⟨.tri, scratch, .value (registerOf allocated subject)⟩ : Draft)]).foldl
          Draft.apply registers =
      (registers.set (Register.ofInt scratch) (d.eval value)).set (Register.ofInt scratch)
        (d.eval value - d.store subject).sign := by
  have hbounds := registerOf_bounds hwell hsubject
  have hloaded := h.set_scratch hwell (d.eval value)
  rw [List.foldl_append, foldl_load h hwell hvalue]
  simp only [List.foldl_cons, List.foldl_nil]
  rw [apply_tri _ scratch (by omega) (by omega), Registers.get_set_same, wrap_eval h hvalue,
    hloaded.store subject hsubject]

theorem Block.exists_of_branch (hsetting : Setting source program run)
    (h : Tracks (m.install program.assembly).2 source program c (run n))
    (hrunning : c.stopped = false) {subject target : Name} {test : Test} {value : Operand}
    (hstatement : (statements source)[c.position]? = some (.branch subject test value target)) :
    ∃ count, Block (m.install program.assembly).2 source program run n count c
      ((c.goto (c.position + 1)).effect (statements source)
        (.branch subject test value target)) := by
  have hwell := hsetting.assembled.well
  have hnames := hsetting.assembled.names _ (List.mem_of_getElem? hstatement)
  have hsubject := hnames subject List.mem_cons_self
  have hvalue : ∀ name ∈ value.names, name ∈ program.allocated :=
    fun name hname => hnames name (List.mem_cons_of_mem _ hname)
  have hholds : Holds program.allocated (run n).registers (c.goto (c.position + 1)) :=
    h.holds.congr rfl rfl
  -- The comparison is straight code in front of the jumps.
  obtain ⟨comparison, hcomparison⟩ : ∃ list, list = load (registerOf program.allocated) scratch
    value ++ [⟨.tri, scratch, .value (registerOf program.allocated subject)⟩] := ⟨_, rfl⟩
  have hsplit : drafts (registerOf program.allocated) (.branch subject test value target) =
      comparison ++ testJumps target test := by
    simp [hcomparison, drafts]
  have hcode := hsetting.assembled.codeAt _ _ hstatement
  rw [hsplit] at hcode
  have hstraight : ∀ d ∈ comparison, d.IsStraight := by
    intro d hd
    rw [hcomparison] at hd
    rcases List.mem_append.1 hd with hload | htri
    · exact isStraight_load d hload
    · obtain rfl := List.mem_singleton.1 htri
      exact ⟨rfl, _, rfl⟩
  have hfirst := Glides.straight hsetting.driven hsetting.size_operations hstraight
    (h.atSlot hrunning) hcode.left
  rw [hcomparison, foldl_comparison hholds hwell hsubject hvalue, ← hcomparison] at hfirst
  have hafter := (hholds.set_scratch hwell
    ((c.goto (c.position + 1)).eval value)).set_scratch hwell
      ((c.goto (c.position + 1)).eval value - (c.goto (c.position + 1)).store subject).sign
  have hsign : (run (n + comparison.length)).registers.get (Register.ofInt scratch) =
      ((c.goto (c.position + 1)).eval value - (c.goto (c.position + 1)).store subject).sign := by
    rw [hfirst.registers_eq, Registers.get_set_same, ← Word.compare_eq_sign]
    exact Word.wrap_of_mem (Word.compare_mem _ _)
  obtain ⟨hmem, count, hpositive, hsecond⟩ := Glides.testJumps hsetting.driven
    hsetting.size_operations (hfirst.atSlot (h.atSlot hrunning)) hcode.right hsign
  rw [hfirst.registers_eq] at hsecond
  -- Comparison and jumps together end at the label or at the slot behind them.
  have hglides := hfirst.trans hsecond
  have hbound := (List.getElem?_eq_some_iff.1 hstatement).1
  refine ⟨comparison.length + count, ?_⟩
  simp only [Config.effect]
  by_cases htest : test.holds ((c.goto (c.position + 1)).store subject)
      ((c.goto (c.position + 1)).eval value)
  · rw [if_pos htest] at hglides ⊢
    exact Block.of_glides h hrunning hglides (hafter.congr rfl rfl) rfl rfl hrunning
      (position_behind_le hmem) (fun hzero => absurd hzero (by omega))
  · have hslot := slotOf_succ (registerOf program.allocated) hstatement
    rw [hsplit, List.length_append, ← Nat.add_assoc] at hslot
    rw [if_neg htest, ← hslot] at hglides
    rw [if_neg htest]
    exact Block.of_glides h hrunning hglides hafter rfl rfl hrunning hbound
      (fun hzero => absurd hzero (by omega))

/-! ## Statements that can be seen -/

/-- A step behind a stretch of silent steps. -/
theorem Block.of_last {count : Nat} {registers : Registers} {pc : Int}
    (hglides : Glides run n count registers pc)
    (htracks : Tracks (m.install program.assembly).2 source program after (run (n + count + 1)))
    (hstops : after.stopped = true → count = 0) :
    Block (m.install program.assembly).2 source program run n (count + 1) c after where
  tracks := htracks
  quiet := fun k hk => hglides.quiet k (Nat.le_of_lt_succ hk)
  moves := fun hzero => absurd hzero (Nat.succ_ne_zero count)
  stops := fun hhalted => congrArg (· + 1) (hstops hhalted)

/-- A machine that halts shows what it showed before. -/
theorem Block.of_halt (hsetting : Setting source program run)
    (h : Tracks (m.install program.assembly).2 source program c (run n)) {i : Instruction}
    (hi : (run n).executes = some i) (hop : i.opcode = .halt) {d : Config}
    (hd : d.store = c.store ∧ d.arguments = c.arguments ∧ d.screen = c.screen ∧
      d.output = c.output) :
    Block (m.install program.assembly).2 source program run n 1 c d.stop := by
  obtain ⟨ports, hafter⟩ := hsetting.driven.executed hi
  simp only [Machine.execute, hop] at hafter
  refine Block.of_last (Glides.refl run n) ?_ (fun _ => rfl)
  rw [Nat.add_zero, hafter]
  exact
    { holds := h.holds.congr hd.1 hd.2.1
      screen := by
        simp only [Config.stop, hd.2.2.1]
        exact h.screen
      output := by
        simp only [Config.stop, hd.2.2.2]
        exact h.output
      position := fun hrunning => absurd hrunning (by simp [Config.stop])
      atSlot := fun hrunning => absurd hrunning (by simp [Config.stop])
      halted := fun _ => rfl }

theorem Block.exists_of_halt (hsetting : Setting source program run)
    (h : Tracks (m.install program.assembly).2 source program c (run n))
    (hrunning : c.stopped = false)
    (hstatement : (statements source)[c.position]? = some .halt) :
    ∃ count, Block (m.install program.assembly).2 source program run n count c
      (c.goto (c.position + 1)).stop := by
  obtain ⟨_, i, hi, hop, _⟩ := (hsetting.assembled.codeAt _ _ hstatement).executes
    (h.atSlot hrunning) hsetting.size_operations
  exact ⟨1, Block.of_halt hsetting h hi hop ⟨rfl, rfl, rfl, rfl⟩⟩

/-- A fill of a machine paints what the arguments of its configuration say. -/
theorem pixel_machine_fill {allocated : List Name} {x : Machine} {d : Config}
    (h : Holds allocated x.registers d)
    (hscreen : ∀ px py, Screen.pixel x.memory px py = d.screen px py) (px py : Int) :
    Screen.pixel x.fill.memory px py = d.fill.screen px py := by
  have hargument : ∀ (slot : Nat) (hslot : slot < 7),
      x.registers.get (Register.ofNat slot) = d.arguments ⟨slot, hslot⟩ :=
    fun slot hslot => h.arguments ⟨slot, hslot⟩
  have hpixel := Screen.pixel_fill x.memory
    ⟨x.registers.get (Register.ofNat 0), x.registers.get (Register.ofNat 1),
      x.registers.get (Register.ofNat 2)⟩
    (x.registers.get (Register.ofNat 3)) (x.registers.get (Register.ofNat 4))
    (x.registers.get (Register.ofNat 5)) (x.registers.get (Register.ofNat 6)) px py
  refine hpixel.trans ?_
  rw [hargument 0 (by decide), hargument 1 (by decide), hargument 2 (by decide),
    hargument 3 (by decide), hargument 4 (by decide), hargument 5 (by decide),
    hargument 6 (by decide), hscreen px py]
  rfl

/-- A fill paints what the arguments say. -/
theorem Block.exists_of_rect (hsetting : Setting source program run)
    (h : Tracks (m.install program.assembly).2 source program c (run n))
    (hrunning : c.stopped = false)
    (hstatement : (statements source)[c.position]? = some .rect) :
    ∃ count, Block (m.install program.assembly).2 source program run n count c
      (c.goto (c.position + 1)).fill := by
  have hat := h.atSlot hrunning
  have hslot : slotOf (registerOf program.allocated) (statements source) (c.position + 1) =
      slotOf (registerOf program.allocated) (statements source) c.position + 1 :=
    slotOf_succ _ hstatement
  have hbound := (List.getElem?_eq_some_iff.1 hstatement).1
  obtain ⟨_, i, hi, hop, _⟩ := (hsetting.assembled.codeAt _ _ hstatement).executes hat
    hsetting.size_operations
  obtain ⟨ports, hafter⟩ := hsetting.driven.executed hi
  simp only [Machine.execute, hop] at hafter
  refine ⟨0 + 1, Block.of_last (Glides.refl run n) ?_ (fun hhalted => ?_)⟩
  · rw [Nat.add_zero, hafter]
    exact
      { holds := h.holds.congr rfl rfl
        screen := pixel_machine_fill
          (x := ((run n).setInput ports).skip) (d := c.goto (c.position + 1))
          (h.holds.congr rfl rfl) h.screen
        output := h.output
        position := fun _ => hbound
        atSlot := fun _ =>
          { pc_eq := by
              have hnext := hat.pc_next
              rw [← hslot] at hnext
              exact hnext
            state_eq := hat.state_eq
            code := by
              intro address hlow
              have houtside : ¬ Screen.IsScreenCell address :=
                fun hscreen => absurd hscreen.1 (by omega)
              exact (Machine.memory_fill _ houtside).trans (hat.code address hlow) }
        halted := fun hhalted => by
          have hfalse : c.stopped = true := hhalted
          rw [hrunning] at hfalse
          exact absurd hfalse (by decide) }
  · rfl

/-- A machine with the value in a register puts it out. -/
theorem Block.of_out (hsetting : Setting source program run)
    (h : Tracks (m.install program.assembly).2 source program c (run n))
    (hrunning : c.stopped = false) {count slot : Nat} {registers : Registers} {register value : Int}
    (hglides : Glides run n count registers (15 * (slot : Int)))
    (hcode : CodeAt (registerOf program.allocated) (statements source)
      (Assembly.operations program.assembly) slot [⟨.out, register, .value 0⟩])
    (hholds : Holds program.allocated registers c)
    (hvalue : registers.get (Register.ofInt register) = value)
    (hslot : slotOf (registerOf program.allocated) (statements source) (c.position + 1) = slot + 1)
    (hbound : c.position < (statements source).length) :
    Block (m.install program.assembly).2 source program run n (count + 1) c
      ((c.goto (c.position + 1)).emit value) := by
  have hat := hglides.atSlot (h.atSlot hrunning)
  have hquiet := hglides.quiet count (Nat.le_refl count)
  obtain ⟨_, i, hi, hop, hfirst, _⟩ := hcode.executes hat hsetting.size_operations
  obtain ⟨ports, hafter⟩ := hsetting.driven.executed hi
  simp only [Machine.execute, hop] at hafter
  have hrunning' : ¬ c.stopped = true := by
    rw [hrunning]
    decide
  refine Block.of_last hglides ?_ (fun hhalted => absurd hhalted hrunning')
  rw [hafter]
  exact
    { holds := by
        have hregisters : (run (n + count)).registers = registers := hglides.registers_eq
        rw [← hregisters] at hholds
        exact hholds.congr rfl rfl
      screen := by
        intro px py
        have hscreen := h.screen px py
        rw [← hquiet.1] at hscreen
        exact hscreen
      output := by
        have hpush : ((run (n + count)).output.push
            ((run (n + count)).registers.get i.operand1)).values =
            Isa.latest (c.output ++ [value]) := by
          rw [OutputChannel.values_push_eq_latest, hquiet.2, h.output, hglides.registers_eq, hfirst,
            hvalue, Isa.latest_latest_append]
        exact hpush
      position := fun _ => hbound
      atSlot := fun _ =>
        { pc_eq := by
            have hnext := hat.pc_next
            rw [← hslot] at hnext
            exact hnext
          state_eq := hat.state_eq
          code := hat.code }
      halted := fun hhalted => absurd hhalted hrunning' }

theorem Block.exists_of_out (hsetting : Setting source program run)
    (h : Tracks (m.install program.assembly).2 source program c (run n))
    (hrunning : c.stopped = false) {value : Operand}
    (hstatement : (statements source)[c.position]? = some (.out value)) :
    ∃ count, Block (m.install program.assembly).2 source program run n count c
      ((c.goto (c.position + 1)).emit ((c.goto (c.position + 1)).eval value)) := by
  have hwell := hsetting.assembled.well
  have hnames := hsetting.assembled.names _ (List.mem_of_getElem? hstatement)
  have hcode := hsetting.assembled.codeAt _ _ hstatement
  have hslot := slotOf_succ (registerOf program.allocated) hstatement
  have hbound := (List.getElem?_eq_some_iff.1 hstatement).1
  have hat := h.atSlot hrunning
  cases value with
  | «variable» name =>
    have hname := hnames name List.mem_cons_self
    have hglides := Glides.refl run n
    rw [hat.pc_eq] at hglides
    exact ⟨_, Block.of_out hsetting h hrunning hglides hcode h.holds (h.holds.store name hname)
      hslot hbound⟩
  | literal value =>
    -- The literal goes through the scratch register.
    have hset : CodeAt (registerOf program.allocated) (statements source)
        (Assembly.operations program.assembly) _ [⟨.set, scratch, .value value⟩] :=
      hcode.head
    have hstraight : ∀ d ∈ [(⟨.set, scratch, .value value⟩ : Draft)], d.IsStraight := by
      intro d hd
      obtain rfl := List.mem_singleton.1 hd
      exact ⟨rfl, value, rfl⟩
    have hglides := Glides.straight hsetting.driven hsetting.size_operations hstraight hat hset
    have hloaded := h.holds.set_scratch hwell (value.bmod (3 ^ 6))
    have hvalue : ((run n).registers.set (Register.ofInt scratch) (value.bmod (3 ^ 6))).get
        (Register.ofInt scratch) = value.bmod (3 ^ 6) := by
      rw [Registers.get_set_same]
      have hword : Word.wrap (c.eval (.literal value)) = c.eval (.literal value) :=
        wrap_eval h.holds fun name hname => absurd hname List.not_mem_nil
      exact hword
    exact ⟨_, Block.of_out hsetting h hrunning hglides hcode.tail hloaded hvalue
      hslot hbound⟩

/-! ## One statement -/

/-- Every statement of a running source has its block. -/
theorem Block.exists_next (hsetting : Setting source program run)
    (h : Tracks (m.install program.assembly).2 source program c (run n))
    (hrunning : c.stopped = false) :
    ∃ count, Block (m.install program.assembly).2 source program run n count c
      (c.next (statements source)) := by
  cases hget : (statements source)[c.position]? with
  | none =>
    -- The source is past its last statement, and the machine finds zeros behind its program.
    have hend : c.position = (statements source).length := by
      have hlow := List.getElem?_eq_none_iff.1 hget
      have hhigh := h.position hrunning
      omega
    have hat := h.atSlot hrunning
    rw [hend, ← hsetting.assembled.length_eq] at hat
    obtain ⟨i, hi, hop⟩ := hat.executes_end hsetting.size_operations
    rw [Config.next_of_end hrunning hget]
    exact ⟨1, Block.of_halt hsetting h hi hop ⟨rfl, rfl, rfl, rfl⟩⟩
  | some statement =>
    rw [Config.next_of_statement hrunning hget]
    cases statement with
    | halt => exact Block.exists_of_halt hsetting h hrunning hget
    | rect => exact Block.exists_of_rect hsetting h hrunning hget
    | branch subject test value target => exact Block.exists_of_branch hsetting h hrunning hget
    | goto target => exact Block.exists_of_goto hsetting h hrunning hget
    | out value => exact Block.exists_of_out hsetting h hrunning hget
    | label name => exact Block.exists_of_isSilent hsetting h hrunning hget trivial
    | color red green blue => exact Block.exists_of_isSilent hsetting h hrunning hget trivial
    | pos x y => exact Block.exists_of_isSilent hsetting h hrunning hget trivial
    | size width height => exact Block.exists_of_isSilent hsetting h hrunning hget trivial
    | assign target value => exact Block.exists_of_isSilent hsetting h hrunning hget trivial
    | compute target left operator right =>
      exact Block.exists_of_isSilent hsetting h hrunning hget trivial

end Blocks

/-! ## Whole runs -/

/-- A machine with a freshly compiled program tracks the first configuration. -/
theorem tracks_install {source : String} {program : Program} (hassembled : Assembled source program)
    (hsize : program.instructions ≤ 35429) (m : Machine) :
    Tracks (m.install program.assembly).2 source program {} (m.install program.assembly).2 where
  holds :=
    { words := by
        rw [Machine.registers_install]
        exact Registers.inRange_blank
      store := by
        intro name _
        rw [Machine.registers_install]
        exact Registers.get_blank _
      arguments := by
        intro slot
        rw [Machine.registers_install]
        exact Registers.get_blank _ }
  screen := by
    intro px py
    have hblank : Screen.pixel Memory.blank px py = {} := by
      unfold Screen.pixel
      split
      · simp only [Memory.load_blank]
      · rfl
    have hlength := hassembled.instructions_eq
    -- The program is too short to reach the screen, which has been cleared.
    have hbase := Screen.base_eq
    have hcleared : Machine.clearedEnd = Screen.base + Screen.length := rfl
    refine (Screen.pixel_congr ?_).trans hblank
    intro address hscreen _ _
    obtain ⟨hlow, hhigh⟩ := hscreen
    rw [Machine.cell_install, Memory.cell_blank, if_neg (by omega), if_pos ⟨by omega, by omega⟩]
  output := by
    rw [Machine.output_install, OutputChannel.values_empty]
    rfl
  position := fun _ => Nat.zero_le _
  atSlot := fun _ =>
    { pc_eq := Machine.pc_install m program.assembly
      state_eq := Machine.state_install m program.assembly
      code := fun _ _ => rfl }
  halted := fun hhalted => absurd hhalted (by simp)

/-- The steps of a run at which statements are finished: `time k` is the step in front of the
statement number `k`. -/
structure Schedule (start : Machine) (source : String) (program : Program) (run : Nat → Machine)
    (time : Nat → Nat) : Prop where
  zero : time 0 = 0
  tracks : ∀ k, Tracks start source program (Config.run (statements source) k) (run (time k))
  blocks : ∀ k, (Config.run (statements source) k).stopped = false →
    ∃ count, time (k + 1) = time k + count ∧ Block start source program run (time k) count
      (Config.run (statements source) k) (Config.run (statements source) (k + 1))
  rests : ∀ k, (Config.run (statements source) k).stopped = true → time (k + 1) = time k

theorem exists_schedule {source : String} {program : Program} {run : Nat → Machine}
    (hsetting : Setting source program run) {m : Machine}
    (hstart : run 0 = (m.install program.assembly).2) :
    ∃ time, Schedule (m.install program.assembly).2 source program run time := by
  -- How many steps the statement number `k` takes from step `n` on, if all is well up to there.
  have hcount : ∀ k n, ∃ count,
      Tracks (m.install program.assembly).2 source program (Config.run (statements source) k)
        (run n) →
      ((Config.run (statements source) k).stopped = false →
        Block (m.install program.assembly).2 source program run n count
          (Config.run (statements source) k) (Config.run (statements source) (k + 1))) ∧
      ((Config.run (statements source) k).stopped = true → count = 0) := by
    intro k n
    by_cases htracks : Tracks (m.install program.assembly).2 source program
        (Config.run (statements source) k) (run n)
    · cases hstopped : (Config.run (statements source) k).stopped with
      | true => exact ⟨0, fun _ => ⟨fun hrunning => absurd hrunning (by simp), fun _ => rfl⟩⟩
      | false =>
        obtain ⟨count, hblock⟩ := Block.exists_next hsetting htracks hstopped
        exact ⟨count, fun _ => ⟨fun _ => hblock, fun hhalted => absurd hhalted (by simp)⟩⟩
    · exact ⟨0, fun h => absurd h htracks⟩
  choose cost hcost using hcount
  obtain ⟨time, hzero, hsucc⟩ : ∃ time : Nat → Nat,
      time 0 = 0 ∧ ∀ k, time (k + 1) = time k + cost k (time k) :=
    ⟨Nat.rec 0 fun k n => n + cost k n, rfl, fun _ => rfl⟩
  have htracks : ∀ k, Tracks (m.install program.assembly).2 source program
      (Config.run (statements source) k) (run (time k)) := by
    intro k
    induction k with
    | zero =>
      rw [hzero, hstart]
      exact tracks_install hsetting.assembled hsetting.size_le m
    | succ k ih =>
      obtain ⟨hblock, hrest⟩ := hcost k (time k) ih
      cases hstopped : (Config.run (statements source) k).stopped with
      | true =>
        rw [hsucc, hrest hstopped, Nat.add_zero, Config.run_succ_of_stopped hstopped]
        exact ih
      | false =>
        rw [hsucc]
        exact (hblock hstopped).tracks
  exact ⟨time,
    { zero := hzero
      tracks := htracks
      blocks := fun k hrunning =>
        ⟨_, hsucc k, (hcost k (time k) (htracks k)).1 hrunning⟩
      rests := by
        intro k hstopped
        rw [hsucc, (hcost k (time k) (htracks k)).2 hstopped, Nat.add_zero] }⟩

theorem Driven.isHalted_mono {run : Nat → Machine} (hrun : Driven run) {n later : Nat}
    (hlater : n ≤ later) (h : (run n).isHalted = true) : (run later).isHalted = true := by
  induction hlater with
  | refl => exact h
  | step _ ih =>
    obtain ⟨ports, hstep⟩ := hrun _
    rw [hstep, Machine.step_of_isHalted (m := (run _).setInput ports) ih]
    exact ih

namespace Schedule

variable {start : Machine} {source : String} {program : Program} {run : Nat → Machine}
  {time : Nat → Nat}

theorem le_succ (h : Schedule start source program run time) (k : Nat) :
    time k ≤ time (k + 1) := by
  cases hstopped : (Config.run (statements source) k).stopped with
  | true => exact Nat.le_of_eq (h.rests k hstopped).symm
  | false =>
    obtain ⟨count, htime, _⟩ := h.blocks k hstopped
    omega

/-- The number of statements is bounded by the number of steps: between two steps there are at
most all statements of the source once. -/
theorem progress (h : Schedule start source program run time) {k : Nat}
    (hrunning : (Config.run (statements source) k).stopped = false) :
    k ≤ ((statements source).length + 1) * time k +
      (Config.run (statements source) k).position := by
  induction k with
  | zero => exact Nat.zero_le _
  | succ k ih =>
    have hbefore := Config.running_of_running_succ hrunning
    have hposition := (h.tracks k).position hbefore
    have hcount := ih hbefore
    obtain ⟨count, htime, hblock⟩ := h.blocks k hbefore
    rcases Nat.eq_zero_or_pos count with hzero | hpositive
    · -- Without a step the position moves on, and it cannot do so for ever.
      have hmoved := hblock.moves hzero
      have hsame : time (k + 1) = time k := by omega
      rw [hsame, hmoved]
      omega
    · have hstep : ((statements source).length + 1) * (time k + 1) ≤
          ((statements source).length + 1) * time (k + 1) :=
        Nat.mul_le_mul_left _ (by omega)
      rw [Nat.mul_add, Nat.mul_one] at hstep
      omega

/-- A running source has a running machine. -/
theorem isHalted_eq (h : Schedule start source program run time) (k : Nat) :
    (run (time k)).isHalted = (Config.run (statements source) k).stopped := by
  cases hstopped : (Config.run (statements source) k).stopped with
  | true => simp [Machine.isHalted, (h.tracks k).halted hstopped]
  | false => simp [Machine.isHalted, ((h.tracks k).atSlot hstopped).state_eq]

/-- The machine halts exactly when the source stops. -/
theorem isHalted_iff (h : Schedule start source program run time) (hrun : Driven run) (n : Nat) :
    (run n).isHalted = true ↔
      ∃ k, (Config.run (statements source) k).stopped = true ∧ time k ≤ n := by
  constructor
  · intro hhalted
    by_contra hnone
    -- Then the source runs for ever, and all of its statements are finished before step `n`.
    have hall : ∀ k, (Config.run (statements source) k).stopped = false ∧ time k ≤ n := by
      intro k
      induction k with
      | zero => exact ⟨rfl, by rw [h.zero]; exact Nat.zero_le n⟩
      | succ k ih =>
        obtain ⟨hrunning, htime⟩ := ih
        obtain ⟨count, hnext, hblock⟩ := h.blocks k hrunning
        have hcurrent := h.isHalted_eq k
        rw [hrunning] at hcurrent
        have hnot : time k ≠ n := by
          rintro rfl
          rw [hhalted] at hcurrent
          exact absurd hcurrent (by decide)
        cases hstopped : (Config.run (statements source) (k + 1)).stopped with
        | true =>
          have hone := hblock.stops hstopped
          exact absurd ⟨k + 1, hstopped, by omega⟩ hnone
        | false =>
          refine ⟨rfl, ?_⟩
          by_contra hlate
          have hfuture := hrun.isHalted_mono (Nat.le_of_not_le hlate) hhalted
          rw [h.isHalted_eq (k + 1), hstopped] at hfuture
          exact absurd hfuture (by decide)
    -- But so many steps cannot hold arbitrarily many statements.
    obtain ⟨bound, hbound⟩ : ∃ bound, bound =
        ((statements source).length + 1) * n + (statements source).length := ⟨_, rfl⟩
    obtain ⟨hrunning, htime⟩ := hall (bound + 1)
    have hprogress := h.progress hrunning
    have hposition := (h.tracks (bound + 1)).position hrunning
    have hmul := Nat.mul_le_mul_left ((statements source).length + 1) htime
    omega
  · rintro ⟨k, hstopped, htime⟩
    apply hrun.isHalted_mono htime
    rw [h.isHalted_eq k]
    exact hstopped

end Schedule

/-! ## The theorem -/

/-- A machine shows a configuration: variables and arguments in their registers, the pixels, the
latest values that were put out, and whether it stopped. -/
structure Represents (source : String) (program : Program) (c : Config) (x : Machine) : Prop where
  store : ∀ statement ∈ statements source, ∀ name ∈ statement.names,
    x.registers.get (Register.ofInt (registerOf program.allocated name)) = c.store name
  arguments : ∀ slot : Fin 7, x.registers.get (Register.ofNat slot) = c.arguments slot
  screen : ∀ px py, Screen.pixel x.memory px py = c.screen px py
  output : x.output.values = Isa.latest c.output
  stopped : x.isHalted = c.stopped

/-- A run does what the interpreter does, statement after statement. -/
structure Follows (source : String) (program : Program) (run : Nat → Machine)
    (time : Nat → Nat) : Prop where
  zero : time 0 = 0
  le_succ : ∀ k, time k ≤ time (k + 1)
  /-- In front of each statement the machine shows the configuration of the source. -/
  represents : ∀ k, Represents source program (Config.run (statements source) k) (run (time k))
  /-- While a statement is executed the screen and the output stay as they were before. -/
  between : ∀ k n, time k ≤ n → n < time (k + 1) →
    (run n).memory = (run (time k)).memory ∧ (run n).output = (run (time k)).output
  /-- A machine whose source runs does not stay behind. -/
  progress : ∀ k, (Config.run (statements source) k).stopped = false →
    k ≤ ((statements source).length + 1) * time k + (statements source).length
  /-- The machine halts when the source stops and not before. -/
  halts : ∀ n, (run n).isHalted = true ↔
    ∃ k, (Config.run (statements source) k).stopped = true ∧ time k ≤ n

/-- Every run of a compiled source, installed in any machine, follows the interpreter. -/
theorem compile_simulates (source : String) (program : Program)
    (hcompile : compile source = .ok program) (hsize : program.instructions ≤ 35429) (m : Machine)
    (writes : Machine.PortWrites) :
    ∃ time, Follows source program
      (Machine.drive writes (m.install program.assembly).2) time := by
  have hsetting : Setting source program (Machine.drive writes (m.install program.assembly).2) :=
    { assembled := assembled_of_compile hcompile
      size_le := hsize
      driven := driven_drive writes _ }
  obtain ⟨time, hschedule⟩ := exists_schedule hsetting (m := m) rfl
  refine ⟨time, hschedule.zero, hschedule.le_succ, ?_, ?_, ?_,
    hschedule.isHalted_iff hsetting.driven⟩
  · intro k
    have htracks := hschedule.tracks k
    exact
      { store := fun statement hstatement name hname =>
          htracks.holds.store name (hsetting.assembled.names statement hstatement name hname)
        arguments := htracks.holds.arguments
        screen := htracks.screen
        output := htracks.output
        stopped := hschedule.isHalted_eq k }
  · intro k n hlow hhigh
    cases hstopped : (Config.run (statements source) k).stopped with
    | true =>
      have hrest := hschedule.rests k hstopped
      omega
    | false =>
      obtain ⟨count, htime, hblock⟩ := hschedule.blocks k hstopped
      have hquiet := hblock.quiet (n - time k) (by omega)
      rwa [Nat.add_sub_cancel' hlow] at hquiet
  · intro k hrunning
    have hprogress := hschedule.progress hrunning
    have hposition := (hschedule.tracks k).position hrunning
    omega

/-- A loop that counts down. -/
def countdown : String :=
  "one = 1\nleft = 3\nagain:\nout(left)\nleft = left - one\nif (left != 0) goto again\nrect"

theorem exists_program_countdown :
    ∃ program, compile countdown = .ok program ∧ program.instructions ≤ 35429 := by
  have hcount : (compile countdown).map Program.instructions = .ok 9 := rfl
  cases hcompile : compile countdown with
  | error fault =>
    rw [hcompile] at hcount
    exact absurd hcount (by simp [Except.map])
  | ok program =>
    rw [hcompile] at hcount
    have hinstructions : program.instructions = 9 := Except.ok.inj hcount
    refine ⟨program, rfl, ?_⟩
    rw [hinstructions]
    decide

theorem compile_simulates_countdown :
    ∃ program, compile countdown = .ok program ∧ program.instructions ≤ 35429 ∧
      ∃ time, Follows countdown program
        (Machine.drive (fun _ ports => ports) (Machine.initial.install program.assembly).2)
          time := by
  obtain ⟨program, hcompile, hsize⟩ := exists_program_countdown
  exact ⟨program, hcompile, hsize,
    compile_simulates countdown program hcompile hsize Machine.initial fun _ ports => ports⟩

end TritC

end TernaryConsole
