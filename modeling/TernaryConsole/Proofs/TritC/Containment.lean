import TernaryConsole.Proofs.TritC.Simulation

/-!
# Proofs.TritC.Containment — compiled programs stay inside their image

A compiled program that fits the program region never leaves its slots, writes no register that the
compiler did not hand out or keep for itself, and changes no cell but those of the screen, whatever
the ports hold (`contained_of_compile`).

`Keeps` says once what the instructions of such a program cannot do; `Inside` is the invariant that
one step preserves because of it.
-/

namespace TernaryConsole

namespace TritC

/-! ## Slots -/

theorem slotOf_le (registers : Name → Int) (program : List Statement) (position : Nat) :
    slotOf registers program position ≤ slotOf registers program program.length := by
  have hsplit : program.flatMap (drafts registers) =
      (program.take position).flatMap (drafts registers) ++
        (program.drop position).flatMap (drafts registers) := by
    rw [← List.flatMap_append, List.take_append_drop]
  rw [slotOf_length, hsplit, List.length_append]
  exact Nat.le_add_right _ _

/-- Every slot of a program belongs to a draft of one of its statements. -/
theorem exists_of_lt_slotOf {registers : Name → Int} {program : List Statement} {slot : Nat}
    (h : slot < slotOf registers program program.length) :
    ∃ position statement place, program[position]? = some statement ∧
      place < (drafts registers statement).length ∧
      slot = slotOf registers program position + place := by
  -- By induction on how many statements are looked at.
  have hprefix : ∀ position, position ≤ program.length →
      slot < slotOf registers program position →
      ∃ position statement place, program[position]? = some statement ∧
        place < (drafts registers statement).length ∧
        slot = slotOf registers program position + place := by
    intro position hposition
    induction position with
    | zero =>
      intro hslot
      exact absurd hslot (Nat.not_lt_zero slot)
    | succ position ih =>
      intro hslot
      by_cases hbefore : slot < slotOf registers program position
      · exact ih (by omega) hbefore
      · have hstatement := List.getElem?_eq_getElem (l := program) hposition
        rw [slotOf_succ registers hstatement] at hslot
        exact ⟨position, _, slot - slotOf registers program position, hstatement, by omega,
          by omega⟩
  exact hprefix program.length (Nat.le_refl _) h

/-! ## Instructions -/

/-- The registers that a compiled program may write: the arguments of a fill, the scratch register
and the registers of its variables. -/
def Owned (allocated : List Name) (number : Int) : Prop :=
  (0 ≤ number ∧ number ≤ 6) ∨ number = scratch ∨
    ∃ name ∈ allocated, number = registerOf allocated name

theorem Owned.bounds {allocated : List Name} (hwell : WellAllocated allocated) {number : Int}
    (h : Owned allocated number) : 0 ≤ number ∧ number ≤ 26 := by
  rcases h with hargument | rfl | ⟨name, hname, rfl⟩
  · omega
  · decide
  · have hbounds := registerOf_bounds hwell hname
    omega

/-- The stack pointer belongs to nobody. -/
theorem not_owned_stackPointer {allocated : List Name} (hwell : WellAllocated allocated) :
    ¬ Owned allocated 25 := by
  have hscratch : scratch = 26 := rfl
  rintro (hargument | hkept | ⟨name, hname, hregister⟩)
  · omega
  · omega
  · have hbounds := registerOf_bounds hwell hname
    omega

/-- What an instruction of a program with `total` slots can do at most. -/
structure Keeps (allocated : List Name) (total : Nat) (i : Instruction) : Prop where
  opcode_ne : i.opcode ≠ .call ∧ i.opcode ≠ .ret
  target : i.opcode.jumps = true →
    ∃ slot : Nat, slot ≤ total ∧ Memory.narrow i.operand2 = 15 * slot
  register : i.opcode.writesRegister = true → Owned allocated i.operand1.val

theorem Keeps.of_halt {allocated : List Name} {total : Nat} {i : Instruction}
    (hop : i.opcode = .halt) : Keeps allocated total i where
  opcode_ne := by
    rw [hop]
    decide
  target := by
    rw [hop]
    exact fun hjumps => absurd hjumps (by decide)
  register := by
    rw [hop]
    exact fun hwrites => absurd hwrites (by decide)

section Code

variable {source : String} {program : Program} {m x : Machine} {slot : Nat}

/-- A machine in front of the end of a program executes a draft of the program. -/
theorem exists_keeps_of_lt (hassembled : Assembled source program)
    (hsize : program.instructions ≤ 35429)
    (hat : AtSlot (m.install program.assembly).2 x slot) (hslot : slot < program.instructions) :
    ∃ i, x.executes = some i ∧ Keeps program.allocated program.instructions i := by
  have hlength := hassembled.instructions_eq
  have htotal := hassembled.length_eq.symm.trans hlength
  rw [← htotal] at hslot
  obtain ⟨position, statement, place, hstatement, hplace, rfl⟩ := exists_of_lt_slotOf hslot
  have hmem := List.mem_of_getElem? hstatement
  have hend := slotOf_le (registerOf program.allocated) (statements source) (position + 1)
  rw [slotOf_succ _ hstatement] at hend
  have hcode := hassembled.codeAt position statement hstatement
  have hconfined : Confined (Owned program.allocated)
      (drafts (registerOf program.allocated) statement) :=
    confined_drafts (fun argument => Or.inl ⟨by omega, by omega⟩) (Or.inr (Or.inl rfl))
      fun name hname => Or.inr (Or.inr ⟨name, hassembled.names statement hmem name hname, rfl⟩)
  generalize drafts (registerOf program.allocated) statement = list at hplace hend hcode hconfined
  -- The code from the slot on begins with the draft at that place.
  have hdraft := hconfined.getElem? (List.getElem?_eq_getElem hplace)
  have hfrom : CodeAt (registerOf program.allocated) (statements source)
      (Assembly.operations program.assembly)
      (slotOf (registerOf program.allocated) (statements source) position + place)
      (list[place] :: list.drop (place + 1)) := by
    rw [← List.take_append_drop place list] at hcode
    have hright := hcode.right
    rwa [List.length_take_of_le (Nat.le_of_lt hplace), List.drop_eq_getElem_cons hplace] at hright
  obtain ⟨-, i, hi, hop, hfirst, hsecond, hnarrow⟩ := hfrom.executes hat (hlength ▸ hsize)
  refine ⟨i, hi, hop ▸ hdraft.opcode_ne.2, fun hjumps => ?_, fun _ => ?_⟩
  · rw [hnarrow, hsecond, ← htotal]
    -- Labels stand in front of statements, and a statement ends at a slot of the program.
    rcases hdraft.target (hop ▸ hjumps) with ⟨name, hlabel⟩ | ⟨slots, hle, hahead⟩
    · rw [hlabel]
      exact ⟨_, slotOf_le _ _ _, rfl⟩
    · rw [hahead]
      exact ⟨_, by omega, rfl⟩
  · have hbounds := hdraft.register.bounds hassembled.well
    rw [hfirst, val_ofInt hbounds.1 hbounds.2]
    exact hdraft.register

/-- Behind the last slot there is a halt. -/
theorem exists_keeps (hassembled : Assembled source program)
    (hsize : program.instructions ≤ 35429)
    (hat : AtSlot (m.install program.assembly).2 x slot) (hslot : slot ≤ program.instructions) :
    ∃ i, x.executes = some i ∧ Keeps program.allocated program.instructions i ∧
      (slot = program.instructions → i.opcode = .halt) := by
  by_cases hend : slot = program.instructions
  · subst hend
    rw [← hassembled.instructions_eq] at hat hsize
    obtain ⟨i, hi, hop⟩ := hat.executes_end hsize
    exact ⟨i, hi, Keeps.of_halt hop, fun _ => hop⟩
  · obtain ⟨i, hi, hkeeps⟩ := exists_keeps_of_lt hassembled hsize hat (by omega)
    exact ⟨i, hi, hkeeps, fun heq => absurd heq hend⟩

/-! ## One step -/

variable {i : Instruction} {allocated : List Name} {total : Nat}

/-- The next slot. A machine that goes on running has not passed the end. -/
theorem Keeps.place_step (h : Keeps allocated total i) (hi : x.executes = some i)
    (hpc : x.pc = 15 * slot) (hslot : slot ≤ total) (hlast : slot = total → i.opcode = .halt) :
    ∃ next : Nat, next ≤ total + 1 ∧ x.step.pc = 15 * next ∧
      (x.step.state = .running → next ≤ total) := by
  have hpcStep : x.step.pc = (x.skip.execute i).pc := by
    rw [Machine.step_of_executes hi]
    rfl
  have hstate : x.step.state = (x.skip.execute i).state := by
    rw [Machine.step_of_executes hi]
    rfl
  rcases Machine.pc_execute x.skip i with hkept | ⟨hjumps, htarget⟩ | ⟨hret, -⟩
  · have hskip : x.skip.pc = x.pc + 15 := rfl
    refine ⟨slot + 1, by omega, by rw [hpcStep, hkept, hskip, hpc]; omega, ?_⟩
    intro hrunning
    -- Behind the last slot only a halt is left, and it does not go on.
    by_contra hpast
    rw [hstate, Machine.state_execute, if_pos (hlast (by omega))] at hrunning
    exact absurd hrunning (by decide)
  · obtain ⟨next, hnext, haddress⟩ := h.target hjumps
    exact ⟨next, by omega, by rw [hpcStep, htarget, haddress], fun _ => hnext⟩
  · exact absurd hret h.opcode_ne.2

theorem Keeps.get_step (h : Keeps allocated total i) (hi : x.executes = some i)
    {register : Register} (hregister : ¬ Owned allocated register.val) :
    x.step.registers.get register = x.registers.get register := by
  have hregisters : x.step.registers = (x.skip.execute i).registers := by
    rw [Machine.step_of_executes hi]
    rfl
  have heffect := Machine.effect_execute x.skip i
  rw [hregisters]
  generalize x.skip.execute i = after at heffect
  cases heffect with
  | write value hop =>
    -- Only owned registers are written, and this one is not.
    have hne : i.operand1 ≠ register := fun heq => hregister (heq ▸ h.register hop)
    exact Registers.get_set_of_ne _ _ hne
  | call hop => exact absurd hop h.opcode_ne.1
  | ret hop => exact absurd hop h.opcode_ne.2
  | rect hop => rfl
  | pass pc state output hop => rfl

/-- Without calls nothing is written but the screen. -/
theorem Keeps.cell_step (h : Keeps allocated total i) (hi : x.executes = some i) {address : Int}
    (hscreen : ¬ Screen.IsScreenCell address) :
    x.step.memory.cell address = x.memory.cell address := by
  apply Machine.cell_step hscreen
  rintro ⟨other, hother, hcall, -⟩
  rw [hi] at hother
  cases hother
  exact h.opcode_ne.1 hcall

end Code

/-! ## Runs -/

/-- A machine that keeps to a program. -/
structure Inside (start : Machine) (program : Program) (x : Machine) : Prop where
  running : x.state = .running → ∃ slot : Nat, slot ≤ program.instructions ∧ x.pc = 15 * slot
  halted : x.state = .halted → 0 ≤ x.pc ∧ x.pc ≤ 15 * (program.instructions + 1)
  unowned : ∀ register : Register, ¬ Owned program.allocated register.val →
    x.registers.get register = 0
  cells : ∀ address, ¬ Screen.IsScreenCell address →
    x.memory.cell address = start.memory.cell address

namespace Inside

variable {source : String} {program : Program} {m x : Machine}

theorem install (m : Machine) (program : Program) :
    Inside (m.install program.assembly).2 program (m.install program.assembly).2 where
  running := fun _ => ⟨0, Nat.zero_le _, Machine.pc_install m program.assembly⟩
  halted := fun hhalted =>
    absurd ((Machine.state_install m program.assembly).symm.trans hhalted) (by decide)
  unowned := by
    intro register _
    rw [Machine.registers_install, Registers.get_blank]
  cells := fun _ _ => rfl

theorem setInput {start : Machine} (h : Inside start program x) (ports : InputPorts) :
    Inside start program (x.setInput ports) :=
  { h with }

theorem atSlot {start : Machine} (h : Inside start program x) {slot : Nat}
    (hrunning : x.state = .running) (hpc : x.pc = 15 * slot) : AtSlot start x slot where
  pc_eq := hpc
  state_eq := hrunning
  code := by
    intro address hlow
    apply h.cells
    rintro ⟨hhigh, -⟩
    omega

theorem step (h : Inside (m.install program.assembly).2 program x)
    (hassembled : Assembled source program) (hsize : program.instructions ≤ 35429) :
    Inside (m.install program.assembly).2 program x.step := by
  cases hstate : x.state with
  | halted =>
    have hhalted : x.isHalted = true := by
      rw [Machine.isHalted, hstate]
      rfl
    rw [Machine.step_of_isHalted hhalted]
    exact h
  | running =>
    obtain ⟨slot, hslot, hpc⟩ := h.running hstate
    obtain ⟨i, hi, hkeeps, hlast⟩ := exists_keeps hassembled hsize (h.atSlot hstate hpc) hslot
    obtain ⟨next, hnext, hplace, hrunning⟩ := hkeeps.place_step hi hpc hslot hlast
    exact
      { running := fun hgoes => ⟨next, hrunning hgoes, hplace⟩
        halted := fun _ => by omega
        unowned := fun register hregister =>
          (hkeeps.get_step hi hregister).trans (h.unowned register hregister)
        cells := fun address hscreen =>
          (hkeeps.cell_step hi hscreen).trans (h.cells address hscreen) }

theorem drive (hassembled : Assembled source program) (hsize : program.instructions ≤ 35429)
    (m : Machine) (writes : Machine.PortWrites) (n : Nat) :
    Inside (m.install program.assembly).2 program
      (Machine.drive writes (m.install program.assembly).2 n) := by
  induction n with
  | zero => exact install m program
  | succ n ih => exact (ih.setInput _).step hassembled hsize

end Inside

/-- What holds of a machine that runs a compiled program which was installed in `start`. -/
structure Contained (start : Machine) (program : Program) (x : Machine) : Prop where
  /-- The counter is at a slot of the program or right behind the last one. -/
  running : x.state = .running → ∃ slot : Nat, slot ≤ program.instructions ∧ x.pc = 15 * slot
  halted : x.state = .halted → 0 ≤ x.pc ∧ x.pc ≤ 15 * (program.instructions + 1)
  stackPointer : x.registers.get Register.stackPointer = 0
  /-- Among registers 7 to 25, those that no variable has are zero. -/
  unlisted : ∀ register : Register, 7 ≤ register.val → register.val ≤ 25 →
    (∀ entry ∈ program.allocation, entry.2 ≠ register.val) → x.registers.get register = 0
  /-- All cells outside the screen are as they were installed. -/
  cells : ∀ address : Int, ¬ (531441 ≤ address ∧ address < 1062882) →
    x.memory.cell address = start.memory.cell address

theorem contained_of_compile (source : String) (program : Program)
    (h : compile source = .ok program) (hsize : program.instructions ≤ 35429) (m : Machine)
    (writes : Machine.PortWrites) (n : Nat) :
    Contained (m.install program.assembly).2 program
      (Machine.drive writes (m.install program.assembly).2 n) := by
  have hassembled := assembled_of_compile h
  have hinside := Inside.drive hassembled hsize m writes n
  exact
    { running := hinside.running
      halted := hinside.halted
      stackPointer := hinside.unowned _ (not_owned_stackPointer hassembled.well)
      unlisted := by
        intro register hlow hhigh hunlisted
        have hscratch : scratch = 26 := rfl
        apply hinside.unowned
        rintro (hargument | hkept | ⟨name, hname, hregister⟩)
        · omega
        · omega
        · exact hunlisted _ (List.mem_map_of_mem hname) hregister.symm
      cells := by
        intro address houtside
        have hbase := Screen.base_eq
        have hlength := Screen.length_eq
        apply hinside.cells
        rintro ⟨hlow, hhigh⟩
        omega }

theorem contained_of_compile_countdown :
    ∃ program, compile countdown = .ok program ∧ program.instructions ≤ 35429 ∧
      ∀ n, Contained (Machine.initial.install program.assembly).2 program
        (Machine.drive (fun _ ports => ports) (Machine.initial.install program.assembly).2 n) := by
  obtain ⟨program, hcompile, hsize⟩ := exists_program_countdown
  exact ⟨program, hcompile, hsize,
    contained_of_compile countdown program hcompile hsize Machine.initial fun _ ports => ports⟩

end TritC

end TernaryConsole
