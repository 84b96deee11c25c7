import TernaryConsole.Proofs.Host
import TernaryConsole.Proofs.Overflow

/-!
# Proofs.Bounds — how far a machine can get

Whatever a host does, registers hold words, the counter stays where fifteen trits can point, plus
one instruction once halted, and the output channel does not grow beyond its capacity
(`Machine.Bounded`). So sixty-four bits are enough for the addresses of a step and a hundred and
twenty-eight for its results and everything computed on the way (`Machine.NoOverflow`).

The bound on the channel is that of a queue which drops its oldest value only when it is exactly
full: the channel takes every value as that queue would (`OutputChannel.values_push_eq_evict`).

The bound on the counter needs no assumption on programs. A counter that leaves memory finds a halt
there, jumps carry six trits, and a return loads fifteen.
-/

namespace TernaryConsole

namespace OutputChannel

/-- A queue that drops its oldest value for a new one if it holds exactly as many as it can. -/
def evict (values : List Int) (value : Int) : List Int :=
  (if values.length = capacity then values.tail else values) ++ [value]

/-- The queue compares for equality. A queue within its capacity is never longer when it does. -/
theorem length_evict_le {values : List Int} (h : values.length ≤ capacity) (value : Int) :
    (evict values value).length ≤ capacity := by
  have hpositive : 0 < capacity := by decide
  unfold evict
  split
  · next hfull =>
    rw [List.length_append, List.length_tail, List.length_singleton]
    omega
  · next hroom =>
    rw [List.length_append, List.length_singleton]
    omega

theorem length_values_le (channel : OutputChannel) : channel.values.length ≤ 4096 := by
  simp only [values, List.length_reverse, List.length_take]
  exact Nat.min_le_left _ _

/-- The channel drops old values in bulk, and shows what the queue would hold. -/
theorem values_push_eq_evict (channel : OutputChannel) (value : Int) :
    (channel.push value).values = evict channel.values value := by
  have hlength := length_values_le channel
  have hcapacity : capacity = 4096 := rfl
  rw [values_push, List.reverse_take, List.reverse_cons, List.reverse_reverse, List.length_cons,
    List.length_reverse]
  unfold evict
  split
  · next hfull =>
    have hnonempty : channel.values ≠ [] := by
      intro hnil
      rw [hnil, hcapacity] at hfull
      exact absurd hfull (by decide)
    rw [hfull, Nat.add_sub_cancel_left, List.drop_one, List.tail_append_of_ne_nil hnonempty]
  · next hroom =>
    rw [Nat.sub_eq_zero_of_le (by omega), List.drop_zero]

/-- A channel takes values like the queue, shows at most its capacity and holds at most twice as
much. -/
structure Bounded (channel : OutputChannel) : Prop where
  evicts : ∀ value, (channel.push value).values = evict channel.values value
  values_le : channel.values.length ≤ 4096
  held_eq : channel.held = channel.newestFirst.length
  held_le : channel.held ≤ 2 * capacity

theorem bounded_empty : empty.Bounded where
  evicts := values_push_eq_evict empty
  values_le := Nat.zero_le _
  held_eq := rfl
  held_le := Nat.zero_le _

theorem Bounded.push {channel : OutputChannel} (h : channel.Bounded) (value : Int) :
    (channel.push value).Bounded where
  evicts := values_push_eq_evict (channel.push value)
  values_le := by
    rw [h.evicts]
    exact length_evict_le h.values_le value
  held_eq := by
    have hheld := h.held_eq
    unfold OutputChannel.push
    split
    · simp [hheld]
    · next hfull =>
      -- A full channel holds at least as many values as it keeps.
      simp only [List.length_cons, List.length_take]
      omega
  held_le := by
    unfold OutputChannel.push
    split
    · next hroom => exact hroom
    · exact Nat.le_of_ble_eq_true rfl

end OutputChannel

namespace Machine

/-- The bounds on what a machine holds. -/
structure Bounded (m : Machine) : Prop where
  registers : m.registers.InRange
  low : -7174453 ≤ m.pc
  high : m.pc ≤ 7174468
  high_of_running : m.state = .running → m.pc ≤ 7174453
  output : m.output.Bounded

/-- Nothing that the next step computes is too long: the addresses of the instruction behind and of
both operands, the frames of a call and of a return with the stack pointers that go with them, and
the arithmetic of any two registers. -/
structure NoOverflow (m : Machine) : Prop where
  next : Fits 64 (m.pc + 15)
  operand1 : Fits 64 (m.pc + 4)
  operand2 : Fits 64 (m.pc + 9)
  callFrame : Fits 128 (Memory.stackBase + m.registers.get Register.stackPointer)
  called : Fits 128 (m.registers.get Register.stackPointer - 15)
  returned : Fits 128 (m.registers.get Register.stackPointer + 15)
  returnFrame : Fits 128 (Memory.stackBase + (m.registers.get Register.stackPointer + 15))
  add : ∀ a b, Checked.add (m.registers.get a) (m.registers.get b) =
    some (Word.add (m.registers.get a) (m.registers.get b))
  sub : ∀ a b, Checked.sub (m.registers.get a) (m.registers.get b) =
    some (Word.sub (m.registers.get a) (m.registers.get b))
  mul : ∀ a b, Checked.mul (m.registers.get a) (m.registers.get b) =
    some (Word.mul (m.registers.get a) (m.registers.get b))
  div : ∀ a b, Checked.div (m.registers.get a) (m.registers.get b) =
    some (Word.div (m.registers.get a) (m.registers.get b))
  negate : ∀ a, Checked.negate (m.registers.get a) = some (Word.negate (m.registers.get a))
  compare : ∀ a b, Checked.compare (m.registers.get a) (m.registers.get b) =
    some (Word.compare (m.registers.get a) (m.registers.get b))

theorem Bounded.noOverflow {m : Machine} (h : m.Bounded) : m.NoOverflow := by
  have hlow := h.low
  have hhigh := h.high
  have hbase : Memory.stackBase = 1594308 := rfl
  have hlargest : Word.largest = 358948993845926294385124 := rfl
  obtain ⟨hoffsetLow, hoffsetHigh⟩ := h.registers Register.stackPointer
  exact
    { next := fits_64_iff.2 ⟨by omega, by omega⟩
      operand1 := fits_64_iff.2 ⟨by omega, by omega⟩
      operand2 := fits_64_iff.2 ⟨by omega, by omega⟩
      callFrame := fits_128_iff.2 ⟨by omega, by omega⟩
      called := fits_128_iff.2 ⟨by omega, by omega⟩
      returned := fits_128_iff.2 ⟨by omega, by omega⟩
      returnFrame := fits_128_iff.2 ⟨by omega, by omega⟩
      add := fun a b => Checked.add_eq_some (h.registers a) (h.registers b)
      sub := fun a b => Checked.sub_eq_some (h.registers a) (h.registers b)
      mul := fun a b => Checked.mul_eq_some _ _
      div := fun a b => Checked.div_eq_some (h.registers a) _
      negate := fun a => Checked.negate_eq_some (h.registers a)
      compare := fun a b => Checked.compare_eq_some (h.registers a) (h.registers b) }

/-! ## One step -/

theorem inRange_execute {m : Machine} (h : m.registers.InRange) (i : Instruction) :
    (m.execute i).registers.InRange := by
  have heffect := effect_execute m i
  generalize m.execute i = after at heffect ⊢
  cases heffect with
  | write value hop => exact h.set i.operand1 value
  | call hop => exact h.set Register.stackPointer _
  | ret hop => exact h.set Register.stackPointer _
  | rect hop => exact h
  | pass pc state output hop => exact h

/-- Where an instruction can lead. Only a halt can end farther than fifteen trits point. -/
theorem pc_execute_bounds {m : Machine} {i : Instruction} (h : m.executes = some i)
    (low : -7174453 ≤ m.pc) (high : m.pc ≤ 7174453) :
    -7174453 ≤ (m.skip.execute i).pc ∧ (m.skip.execute i).pc ≤ 7174468 ∧
      (i.opcode ≠ .halt → (m.skip.execute i).pc ≤ 7174453) := by
  rcases pc_execute m.skip i with hkept | ⟨-, htarget⟩ | ⟨-, hreturn⟩
  · -- The next instruction. Whoever goes on stands inside memory, far from the bound.
    have hskip : m.skip.pc = m.pc + 15 := rfl
    rw [hkept, hskip]
    refine ⟨by omega, by omega, ?_⟩
    intro hop
    have hsize : Memory.size = 1594323 := rfl
    have hinside := pc_bounds_of_executes h hop
    omega
  · -- A jump, by an operand of six trits.
    obtain ⟨hlow, hhigh⟩ := current_operand2_bounds m
    rw [(executes_eq_some_iff.1 h).2] at hlow hhigh
    rw [htarget, Memory.narrow_eq_self (by omega) (by omega)]
    omega
  · -- A return, to whatever fifteen cells hold, wherever the stack pointer is.
    have hlargest : Numeral.largest Memory.slotWidth = 7174453 := by decide
    have hbounds := Memory.load_bounds m.skip.memory (m.skip.frame + 15) Memory.slotWidth
    rw [hreturn, pc_ret]
    omega

theorem Bounded.step {m : Machine} (h : m.Bounded) : m.step.Bounded := by
  cases hi : m.executes with
  | none =>
    rw [step_of_isHalted (executes_eq_none_iff.1 hi)]
    exact h
  | some i =>
    have hrunning := (executes_eq_some_iff.1 hi).1
    obtain ⟨hlow, hhigh, hjumped⟩ := pc_execute_bounds hi h.low (h.high_of_running hrunning)
    rw [step_of_executes hi]
    exact
      { registers := inRange_execute (m := m.skip) h.registers i
        low := hlow
        high := hhigh
        high_of_running := by
          intro hstate
          apply hjumped
          intro hop
          have hhalted : (m.skip.execute i).state = .halted := by
            rw [state_execute, if_pos hop]
          exact absurd (hhalted.symm.trans hstate) (by decide)
        output := by
          have houtput : ((m.skip.execute i).record i).output = (m.skip.execute i).output := rfl
          rw [houtput, output_execute]
          split
          · exact h.output.push _
          · exact h.output }

/-! ## Histories -/

theorem Bounded.iterate {m : Machine} (h : m.Bounded) (steps : Nat) :
    (Machine.step^[steps] m).Bounded := by
  induction steps generalizing m with
  | zero => exact h
  | succ steps ih => exact ih h.step

/-- A machine whose processor was just reset. -/
theorem bounded_of_blank {m : Machine} (hregisters : m.registers = .blank) (hpc : m.pc = 0)
    (houtput : m.output = .empty) : m.Bounded where
  registers := hregisters ▸ Registers.inRange_blank
  low := by omega
  high := by omega
  high_of_running := fun _ => by omega
  output := houtput ▸ OutputChannel.bounded_empty

theorem Bounded.launch {m : Machine} (h : m.Bounded) (path : String)
    (content : Except FileError String) : (m.launch path content).2.Bounded := by
  cases content with
  | ok source => exact bounded_of_blank rfl rfl rfl
  | error cause => exact h

theorem Bounded.perform {m : Machine} (h : m.Bounded) (action : Action) :
    (m.perform action).Bounded := by
  cases action with
  | install source => exact bounded_of_blank rfl rfl rfl
  | launch path content => exact h.launch path content
  | step => exact h.step
  | burst budget =>
    rw [Machine.perform, burst_eq_iterate]
    exact h.iterate budget
  | ports input => exact { h with }
  | drain => exact { h with output := OutputChannel.bounded_empty }
  | reset => exact bounded_of_blank rfl rfl rfl

end Machine

namespace Session

theorem bounded_boundary {s : Session} (h : s.machine.Bounded)
    (read : String → Except FileError String) : (s.boundary read).2.machine.Bounded := by
  unfold boundary
  split
  · next path hpath => exact h.launch path (read path)
  · exact h

theorem bounded_handle {s : Session} (h : s.machine.Bounded) (event : Event) :
    (s.handle event).machine.Bounded := by
  cases event with
  | request path => exact h
  | click x y =>
    rw [handle, click]
    split <;> exact h
  | frame read =>
    have hframe : (s.handle (.frame read)).machine =
        ((s.boundary read).2.machine.burst (s.boundary read).2.frameBudget).2 := rfl
    rw [hframe, Machine.burst_eq_iterate]
    exact (bounded_boundary h read).iterate _
  | machine action => exact h.perform action

theorem bounded_handleAll {s : Session} (h : s.machine.Bounded) (events : List Event) :
    (s.handleAll events).machine.Bounded := by
  induction events generalizing s with
  | nil => exact h
  | cons event rest ih => exact ih (bounded_handle h event)

/-- After any history of a session, its machine is within bounds and computes without overflow, and
so is every machine that steps lead to from there, be it from the machine itself or from the one
that the next frame launches. -/
theorem bounded_performAll (config : Config) (bundles : List Bundle) (actions : List Action)
    (read : String → Except FileError String) (steps : Nat) :
    let s := (ofBundles config bundles).performAll actions
    ((Machine.step^[steps] s.machine).Bounded ∧ (Machine.step^[steps] s.machine).NoOverflow) ∧
      ((Machine.step^[steps] (s.boundary read).2.machine).Bounded ∧
        (Machine.step^[steps] (s.boundary read).2.machine).NoOverflow) := by
  intro s
  have hmachine : s.machine.Bounded := by
    have hinitial : (ofBundles config bundles).machine.Bounded :=
      Machine.bounded_of_blank rfl rfl rfl
    rw [show s = _ from performAll_eq_handleAll (ofBundles config bundles) actions]
    exact bounded_handleAll hinitial _
  have hhere := hmachine.iterate steps
  have hframe := (bounded_boundary hmachine read).iterate steps
  exact ⟨⟨hhere, hhere.noOverflow⟩, ⟨hframe, hframe.noOverflow⟩⟩

end Session

end TernaryConsole
