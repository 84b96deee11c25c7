import TernaryConsole.Machine.Launch
import TernaryConsole.Machine.Step
import TernaryConsole.Proofs.Assembly
import TernaryConsole.Proofs.Screen
import TernaryConsole.Proofs.Word

/-!
# Proofs.Drive — runs of a machine under a host

A run starts in a machine and takes one step after the other; in front of each step the host may
write the input ports in any way. This module says once what a step can do (`effect_execute`) and
what a machine looks like when a program was just installed (`cell_install` and the lemmas beside
it).
-/

namespace TernaryConsole

/-- The operations that store a result in the register of the first operand. -/
def Opcode.writesRegister : Opcode → Bool
  | .add | .sub | .mul | .div | .neg | .tri | .set | .cpy | .pollMouse | .pollKey => true
  | _ => false

/-- The operations that may continue at the address in the second operand. -/
def Opcode.jumps : Opcode → Bool
  | .jmp | .brn | .brp | .call => true
  | _ => false

namespace Machine

/-! ## Runs -/

/-- What the host does to the ports in front of each step. -/
abbrev PortWrites := Nat → InputPorts → InputPorts

/-- The machine after a number of steps. -/
def drive (writes : PortWrites) (m : Machine) : Nat → Machine
  | 0 => m
  | n + 1 =>
    let before := drive writes m n
    (before.setInput (writes n before.input)).step

/-- The instruction that the next step executes; a halted machine executes none. -/
def executes (m : Machine) : Option Instruction :=
  if m.isHalted then none else some m.current

theorem step_of_isHalted {m : Machine} (h : m.isHalted = true) : m.step = m :=
  if_pos h

theorem executes_eq_some_iff {m : Machine} {i : Instruction} :
    m.executes = some i ↔ m.state = .running ∧ m.current = i := by
  cases hstate : m.state <;> simp [executes, isHalted, hstate]

theorem step_of_executes {m : Machine} {i : Instruction} (h : m.executes = some i) :
    m.step = (m.skip.execute i).record i := by
  obtain ⟨hstate, hcurrent⟩ := executes_eq_some_iff.1 h
  have hrunning : m.isHalted = false := by
    rw [isHalted, hstate]
    rfl
  rw [step, hrunning, if_neg Bool.false_ne_true, advance, hcurrent]

/-- A step of a run that executes an instruction. -/
theorem drive_succ {writes : PortWrites} {m : Machine} {n : Nat} {i : Instruction}
    (h : (drive writes m n).executes = some i) :
    drive writes m (n + 1) =
      (((drive writes m n).setInput (writes n (drive writes m n).input)).skip.execute i).record
        i := by
  rw [drive, step_of_executes (i := i)]
  exact h

theorem executes_eq_none_iff {m : Machine} : m.executes = none ↔ m.isHalted = true := by
  unfold executes
  split <;> simp_all

/-! ## What an instruction does -/

/-- The machines that an instruction can lead to, by the part that it changes. -/
inductive Effect (m : Machine) (i : Instruction) : Machine → Prop
  /-- A result is stored in the register of the first operand. -/
  | write (value : Int) (hop : i.opcode.writesRegister = true) :
      Effect m i (m.setRegister i.operand1 value)
  | call (hop : i.opcode = .call) : Effect m i (m.call i.operand2)
  | ret (hop : i.opcode = .ret) : Effect m i m.ret
  | rect (hop : i.opcode = .rect) : Effect m i m.fill
  /-- Registers and memory stay. -/
  | pass (pc : Int) (state : RunState) (output : OutputChannel)
      (hop : i.opcode ≠ .call ∧ i.opcode ≠ .ret) :
      Effect m i { m with pc := pc, state := state, output := output }

theorem effect_execute (m : Machine) (i : Instruction) : Effect m i (m.execute i) := by
  cases hop : i.opcode with
  | halt =>
    simp only [execute, hop]
    exact Effect.pass m.pc .halted m.output (by simp [hop])
  | jmp =>
    simp only [execute, hop]
    exact Effect.pass (Memory.narrow i.operand2) m.state m.output (by simp [hop])
  | brn =>
    simp only [execute, hop]
    split
    · exact Effect.pass (Memory.narrow i.operand2) m.state m.output (by simp [hop])
    · exact Effect.pass m.pc m.state m.output (by simp [hop])
  | brp =>
    simp only [execute, hop]
    split
    · exact Effect.pass (Memory.narrow i.operand2) m.state m.output (by simp [hop])
    · exact Effect.pass m.pc m.state m.output (by simp [hop])
  | out =>
    simp only [execute, hop]
    exact Effect.pass m.pc m.state _ (by simp [hop])
  | nop =>
    simp only [execute, hop]
    exact Effect.pass m.pc m.state m.output (by simp [hop])
  | call =>
    simp only [execute, hop]
    exact Effect.call hop
  | ret =>
    simp only [execute, hop]
    exact Effect.ret hop
  | rect =>
    simp only [execute, hop]
    exact Effect.rect hop
  | _ =>
    simp only [execute, hop]
    exact Effect.write _ (by rw [hop]; rfl)

/-- An instruction keeps the counter, takes it from the second operand, or returns. -/
theorem pc_execute (m : Machine) (i : Instruction) :
    (m.execute i).pc = m.pc ∨
      (i.opcode.jumps = true ∧ (m.execute i).pc = Memory.narrow i.operand2) ∨
      (i.opcode = .ret ∧ (m.execute i).pc = m.ret.pc) := by
  cases hop : i.opcode with
  | jmp =>
    simp only [execute, hop]
    exact Or.inr (Or.inl ⟨rfl, rfl⟩)
  | brn =>
    simp only [execute, hop]
    split
    · exact Or.inr (Or.inl ⟨rfl, rfl⟩)
    · exact Or.inl rfl
  | brp =>
    simp only [execute, hop]
    split
    · exact Or.inr (Or.inl ⟨rfl, rfl⟩)
    · exact Or.inl rfl
  | call =>
    simp only [execute, hop]
    exact Or.inr (Or.inl ⟨rfl, rfl⟩)
  | ret =>
    simp only [execute, hop]
    exact Or.inr (Or.inr ⟨trivial, trivial⟩)
  | nop =>
    simp only [execute, hop]
    exact Or.inl trivial
  | _ =>
    simp only [execute, hop]
    exact Or.inl rfl

/-- Only a halt changes the run state. -/
theorem state_execute (m : Machine) (i : Instruction) :
    (m.execute i).state = if i.opcode = .halt then .halted else m.state := by
  cases hop : i.opcode with
  | halt =>
    simp only [execute, hop]
    rfl
  | brn | brp =>
    simp only [execute, hop]
    split <;> rfl
  | _ =>
    simp only [execute, hop]
    rfl

/-- At most one value is put out, the one in the register of the first operand. -/
theorem output_execute (m : Machine) (i : Instruction) :
    (m.execute i).output =
      if i.opcode = .out then m.output.push (m.registers.get i.operand1) else m.output := by
  cases hop : i.opcode with
  | out =>
    simp only [execute, hop]
    rfl
  | brn | brp =>
    simp only [execute, hop]
    split <;> rfl
  | _ =>
    simp only [execute, hop]
    rfl

/-! ## Where an instruction is found -/

/-- Second operands have six trits. -/
theorem current_operand2_bounds (m : Machine) :
    -364 ≤ m.current.operand2 ∧ m.current.operand2 ≤ 364 :=
  Memory.load_bounds m.memory (m.pc + 9) Instruction.operand2Width

/-- A machine that executes anything but a halt stands on a cell of memory or at most three cells
in front of it, because code that is wholly outside reads as a halt. -/
theorem pc_bounds_of_executes {m : Machine} {i : Instruction} (h : m.executes = some i)
    (hop : i.opcode ≠ .halt) : -3 ≤ m.pc ∧ m.pc < Memory.size := by
  by_contra hout
  -- Cells outside of memory read as zero.
  have hwidth : Instruction.codeWidth = 4 := rfl
  have hzero : m.memory.load m.pc Instruction.codeWidth = 0 := by
    rw [← Memory.load_blank m.pc Instruction.codeWidth]
    apply Memory.load_congr
    intro address hlow hhigh
    rw [Memory.cell_of_not_mem (by omega), Memory.cell_blank]
  have hopcode : m.current.opcode = Opcode.ofCode (m.memory.load m.pc Instruction.codeWidth) := rfl
  rw [hzero, (executes_eq_some_iff.1 h).2] at hopcode
  exact hop hopcode

/-! ## Frames -/

/-- The exact address of the frame at the stack pointer. -/
def frame (m : Machine) : Int :=
  Memory.stackBase + m.registers.get Register.stackPointer

theorem memory_call (m : Machine) (target : Int) :
    (m.call target).memory = m.memory.store m.frame Memory.slotWidth m.pc :=
  Memory.store_narrow m.memory _ _ (by decide)

/-- A return continues where the frame above the stack pointer says. -/
theorem pc_ret (m : Machine) : m.ret.pc = m.memory.load (m.frame + 15) Memory.slotWidth := by
  have hpc : m.ret.pc = Memory.narrow (m.memory.load (Memory.narrow
      (Memory.stackBase + (m.registers.get Register.stackPointer + 15))) Memory.slotWidth) := rfl
  have hframe : Memory.stackBase + (m.registers.get Register.stackPointer + 15) = m.frame + 15 := by
    simp only [frame]
    omega
  have hbounds := Memory.load_bounds m.memory (m.frame + 15) Memory.slotWidth
  have hlargest : Numeral.largest Memory.slotWidth = 7174453 := by decide
  rw [hpc, Memory.load_narrow _ _ (by decide), hframe]
  exact Memory.narrow_eq_self (by omega) (by omega)

theorem memory_fill (m : Machine) {address : Int} (h : ¬ Screen.IsScreenCell address) :
    m.fill.memory.cell address = m.memory.cell address :=
  Screen.cell_fill_of_not_isScreenCell _ _ _ _ _ _ h

/-- The cells of the frame that the next step saves. -/
def Saves (m : Machine) (address : Int) : Prop :=
  ∃ i, m.executes = some i ∧ i.opcode = .call ∧ m.frame ≤ address ∧ address < m.frame + 15

/-- A step writes screen cells and the frame that it saves, nothing else. -/
theorem cell_step {m : Machine} {address : Int} (hscreen : ¬ Screen.IsScreenCell address)
    (hsaves : ¬ m.Saves address) : m.step.memory.cell address = m.memory.cell address := by
  cases hi : m.executes with
  | none => rw [step_of_isHalted (executes_eq_none_iff.1 hi)]
  | some i =>
    have hcell : (m.skip.execute i).memory.cell address = m.memory.cell address := by
      have heffect := effect_execute m.skip i
      generalize m.skip.execute i = after at heffect ⊢
      cases heffect with
      | write value hop => rfl
      | call hop =>
        have hout : ¬ (m.frame ≤ address ∧ address < m.frame + 15) := by
          intro hwindow
          exact hsaves ⟨i, hi, hop, hwindow⟩
        rw [memory_call]
        exact Memory.cell_store_of_not_mem hout
      | ret hop => rfl
      | rect hop => exact memory_fill m.skip hscreen
      | pass pc state output hop => rfl
    rw [step_of_executes hi]
    exact hcell

/-! ## Installed programs -/

theorem memory_install (m : Machine) (source : String) :
    (m.install source).2.memory =
      (m.memory.clear 0 clearedEnd).storeRun 0 (Assembly.image (Assembly.operations source)) :=
  Memory.assemble_memory (m.memory.clear 0 clearedEnd) source Memory.bootAddress

theorem instructions_install (m : Machine) (source : String) :
    (m.install source).1.instructions = (Assembly.operations source).length := by
  have hreport : (m.install source).1 =
      ((m.memory.clear 0 clearedEnd).assemble source Memory.bootAddress).2 := rfl
  rw [hreport, Memory.assemble_report]

theorem registers_install (m : Machine) (source : String) :
    (m.install source).2.registers = .blank := rfl

theorem pc_install (m : Machine) (source : String) : (m.install source).2.pc = 0 := rfl

theorem state_install (m : Machine) (source : String) :
    (m.install source).2.state = .running := rfl

theorem input_install (m : Machine) (source : String) :
    (m.install source).2.input = m.input := rfl

theorem output_install (m : Machine) (source : String) :
    (m.install source).2.output = .empty := rfl

theorem cycles_install (m : Machine) (source : String) : (m.install source).2.cycles = 0 := rfl

theorem last_install (m : Machine) (source : String) : (m.install source).2.last = none := rfl

/-- An installed program, zeros up to the end of the screen, and what was there before. -/
theorem cell_install (m : Machine) (source : String) (address : Int) :
    (m.install source).2.memory.cell address =
      if 0 ≤ address ∧ address < 15 * (Assembly.operations source).length ∧
          address < Memory.size then
        (Assembly.image (Assembly.operations source)).getD address.toNat .zero
      else if 0 ≤ address ∧ address < clearedEnd then .zero
      else m.memory.cell address := by
  have hlength := Assembly.length_image (Assembly.operations source)
  rw [memory_install, Memory.cell_storeRun, Memory.cell_clear]
  by_cases hstored : 0 ≤ address ∧ address < 15 * (Assembly.operations source).length ∧
      address < Memory.size
  · rw [if_pos hstored, if_pos ⟨hstored.1, by omega, hstored.1, hstored.2.2⟩, Int.sub_zero]
  · rw [if_neg hstored, if_neg (by omega)]
    rfl

/-- A running machine that stands on a slot of an installed program executes the operation that was
assembled there, as long as these cells hold what was installed. -/
theorem executes_slot (m : Machine) {source : String} {slot : Nat}
    {operation : Assembly.Operation} (h : (Assembly.operations source)[slot]? = some operation)
    (high : 15 * slot + 15 ≤ Memory.size) {now : Machine} (hpc : now.pc = 15 * slot)
    (hrunning : now.state = .running)
    (hcells : ∀ address : Int, 15 * slot ≤ address → address < 15 * slot + 15 →
      now.memory.cell address = (m.install source).2.memory.cell address) :
    now.executes = some operation.instruction := by
  have hfetch : Instruction.fetch ((m.memory.clear 0 clearedEnd).storeRun 0
      (Assembly.image (Assembly.operations source))) (0 + 15 * slot) = operation.instruction :=
    Assembly.fetch_storeRun_image _ h (by omega) (by omega)
  have hsame : now.current = Instruction.fetch (m.install source).2.memory (15 * slot) := by
    rw [current, hpc]
    exact Instruction.fetch_congr hcells
  have hhalted : now.isHalted = false := by
    rw [isHalted, hrunning]
    rfl
  rw [Int.zero_add] at hfetch
  simp only [executes, hhalted, hsame, memory_install, hfetch]
  rfl

/-! ## A call and its return -/

/-- A call of the slot behind it, which returns at once. -/
def bounce : String := "CALL 0 15\nRET"

theorem operations_bounce :
    Assembly.operations bounce = [⟨.call, 0, 15⟩, ⟨.ret, 0, 0⟩] := by
  decide

theorem executes_bounce_zero (writes : PortWrites) (m : Machine) :
    (drive writes (m.install bounce).2 0).executes = some ⟨24, 0, 15⟩ := by
  have hcall : (Assembly.operations bounce)[0]? = some ⟨.call, 0, 15⟩ := by
    rw [operations_bounce]
    rfl
  exact executes_slot m hcall (by decide) (pc_install m bounce) (state_install m bounce)
    fun _ _ _ => rfl

theorem executes_bounce_one (writes : PortWrites) (m : Machine) :
    (drive writes (m.install bounce).2 1).executes = some ⟨25, 0, 0⟩ := by
  have hret : (Assembly.operations bounce)[1]? = some ⟨.ret, 0, 0⟩ := by
    rw [operations_bounce]
    rfl
  have hfirst := executes_bounce_zero writes m
  have hframe : (drive writes (m.install bounce).2 0).frame = 1594308 := rfl
  refine executes_slot m hret (by decide) ?_ ?_ fun address hlow hhigh => ?_
  · rw [drive_succ hfirst]
    rfl
  · rw [drive_succ hfirst]
    rfl
  · apply cell_step (m := (m.install bounce).2.setInput (writes 0 (m.install bounce).2.input))
    · intro hscreen
      have hbase := hscreen.1
      rw [Screen.base_eq] at hbase
      omega
    · rintro ⟨i, _, _, hsaved, _⟩
      have hsame : ((m.install bounce).2.setInput (writes 0 (m.install bounce).2.input)).frame =
          (drive writes (m.install bounce).2 0).frame := rfl
      omega

end Machine

end TernaryConsole
