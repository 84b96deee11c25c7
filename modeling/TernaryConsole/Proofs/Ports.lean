import TernaryConsole.Proofs.Lifetime

/-!
# Proofs.Ports — what a program does not poll has no influence on it

A program learns of the input ports by polling, and each polling instruction reads one part of
them (`Instruction.port?`). Two machines that differ at most in their ports stay so, step by step
and whatever the hosts write into the ports, as long as the parts that the first one polls hold the
same contents in both (`EqExceptInput.drive`).
-/

namespace TernaryConsole

/-! ## Parts of the ports -/

/-- The parts of the ports that can be polled. -/
inductive Port
  | pointerX
  | pointerY
  | button
  | key (code : Int)
  deriving DecidableEq, Repr

/-- The part of the pointer that a selector names, if it names one. -/
def Port.ofSelector? : Int → Option Port
  | 0 => some .pointerX
  | 1 => some .pointerY
  | 2 => some .button
  | _ => none

/-- The part that an instruction reads. -/
def Instruction.port? (i : Instruction) : Option Port :=
  match i.opcode with
  | .pollMouse => Port.ofSelector? i.operand2
  | .pollKey => some (.key i.operand2)
  | _ => none

namespace InputPorts

/-- The contents of both ports are the same at a part. -/
def SameAt (a b : InputPorts) : Port → Prop
  | .pointerX => a.pointerX = b.pointerX
  | .pointerY => a.pointerY = b.pointerY
  | .button => a.button = b.button
  | .key code => a.holds code = b.holds code

variable {a b : InputPorts}

theorem SameAt.pointerValue_eq {selector : Int}
    (h : ∀ port ∈ Port.ofSelector? selector, a.SameAt b port) :
    a.pointerValue selector = b.pointerValue selector := by
  unfold pointerValue
  split
  · exact h .pointerX rfl
  · exact h .pointerY rfl
  · have hbutton : a.button = b.button := h .button rfl
    rw [hbutton]
  · rfl

theorem SameAt.keyValue_eq {code : Int} (h : a.SameAt b (.key code)) :
    a.keyValue code = b.keyValue code := by
  have hholds : a.holds code = b.holds code := h
  rw [keyValue, keyValue, hholds]

end InputPorts

namespace Machine

/-! ## Two machines with different ports -/

/-- The second machine is the first one with its own ports. -/
def EqExceptInput (a b : Machine) : Prop :=
  b = a.setInput b.input

theorem input_execute (m : Machine) (i : Instruction) : (m.execute i).input = m.input := by
  have heffect := effect_execute m i
  generalize m.execute i = after at heffect ⊢
  cases heffect <;> rfl

/-- No step writes the ports. -/
theorem input_step (m : Machine) : m.step.input = m.input := by
  cases hhalted : m.isHalted with
  | true => rw [step_of_isHalted hhalted]
  | false =>
    rw [step_of_running hhalted]
    exact input_execute m.skip m.current

theorem input_iterate (n : Nat) (m : Machine) : (step^[n] m).input = m.input := by
  induction n generalizing m with
  | zero => rfl
  | succ n ih => rw [Function.iterate_succ_apply, ih, input_step]

/-- A host that leaves the ports alone. -/
def keep : PortWrites := fun _ ports => ports

theorem drive_keep (m : Machine) (n : Nat) : drive keep m n = step^[n] m := by
  induction n with
  | zero => rfl
  | succ n ih =>
    rw [drive, ih, Function.iterate_succ_apply']
    rfl

/-- An instruction does the same over any ports that agree on what it reads. -/
theorem execute_setInput {m : Machine} {ports : InputPorts} {i : Instruction}
    (h : ∀ port ∈ i.port?, m.input.SameAt ports port) :
    (m.setInput ports).execute i = (m.execute i).setInput ports := by
  have hget : (m.setInput ports).registers.get i.operand1 = m.registers.get i.operand1 := rfl
  cases hop : i.opcode with
  | pollMouse =>
    have hvalue : m.input.pointerValue i.operand2 = ports.pointerValue i.operand2 :=
      InputPorts.SameAt.pointerValue_eq fun port hport =>
        h port (by simpa only [Instruction.port?, hop] using hport)
    simp only [execute, hop, hvalue]
    rfl
  | pollKey =>
    have hreads : i.port? = some (.key i.operand2) := by
      simp only [Instruction.port?, hop]
    have hvalue : m.input.keyValue i.operand2 = ports.keyValue i.operand2 :=
      InputPorts.SameAt.keyValue_eq (h (.key i.operand2) hreads)
    simp only [execute, hop, hvalue]
    rfl
  | brn =>
    simp only [execute, hop, hget]
    split <;> rfl
  | brp =>
    simp only [execute, hop, hget]
    split <;> rfl
  | nop =>
    simp only [execute, hop]
  | _ =>
    simp only [execute, hop]
    rfl

namespace EqExceptInput

variable {a b : Machine} {n : Nat}

theorem of_setInput (h : EqExceptInput a b) (first second : InputPorts) :
    EqExceptInput (a.setInput first) (b.setInput second) := by
  rw [h]
  rfl

theorem executes_eq (h : EqExceptInput a b) : b.executes = a.executes := by
  rw [h]
  rfl

theorem isHalted_eq (h : EqExceptInput a b) : b.isHalted = a.isHalted := by
  rw [h]
  rfl

/-- One step, if the ports agree on what it polls. -/
theorem step (h : EqExceptInput a b)
    (hpolls : ∀ i, a.executes = some i → ∀ port ∈ i.port?, a.input.SameAt b.input port) :
    EqExceptInput a.step b.step := by
  cases hi : a.executes with
  | none =>
    have hother : b.executes = none := h.executes_eq.trans hi
    rwa [step_of_isHalted (executes_eq_none_iff.1 hi),
      step_of_isHalted (executes_eq_none_iff.1 hother)]
  | some i =>
    have hother : b.executes = some i := h.executes_eq.trans hi
    have heffect : b.skip.execute i = (a.skip.execute i).setInput b.input := by
      have hskip : b.skip = a.skip.setInput b.input := by
        conv_lhs => rw [h]
        rfl
      rw [hskip]
      exact execute_setInput (hpolls i hi)
    rw [step_of_executes hi, step_of_executes hother, heffect]
    rfl

/-- Two runs under two hosts, if the ports agree on what the first run polls. -/
theorem drive (h : EqExceptInput a b) {writes others : PortWrites}
    (hpolls : ∀ k < n, ∀ i, (drive writes a k).executes = some i → ∀ port ∈ i.port?,
      (writes k (drive writes a k).input).SameAt (others k (drive others b k).input) port) :
    ∀ k ≤ n, EqExceptInput (Machine.drive writes a k) (Machine.drive others b k) := by
  intro k
  induction k with
  | zero => exact fun _ => h
  | succ k ih =>
    intro hk
    have hports := (ih (by omega)).of_setInput (writes k (Machine.drive writes a k).input)
      (others k (Machine.drive others b k).input)
    exact hports.step (hpolls k hk)

/-- Two runs that nobody disturbs, with the same keys held, if the first one does not poll the
pointer. -/
theorem iterate (h : EqExceptInput a b) (hkeys : a.input.keys = b.input.keys)
    (hmouse : ∀ k < n, ∀ i, (Machine.step^[k] a).executes = some i → i.opcode ≠ .pollMouse) :
    EqExceptInput (Machine.step^[n] a) (Machine.step^[n] b) := by
  have hpolls : ∀ k < n, ∀ i, (Machine.drive keep a k).executes = some i → ∀ port ∈ i.port?,
      (keep k (Machine.drive keep a k).input).SameAt (keep k (Machine.drive keep b k).input)
        port := by
    intro k hk i hi port hport
    rw [drive_keep] at hi
    rw [keep, keep, drive_keep, drive_keep, input_iterate, input_iterate]
    -- Only keys are polled, and these are the same.
    cases hop : i.opcode with
    | pollMouse => exact absurd hop (hmouse k hk i hi)
    | pollKey =>
      obtain rfl : Port.key i.operand2 = port := by
        simpa only [Instruction.port?, hop, Option.mem_some_iff] using hport
      simp only [InputPorts.SameAt, InputPorts.holds, hkeys]
    | _ => simp [Instruction.port?, hop] at hport
  have hrun := h.drive hpolls n le_rfl
  rwa [drive_keep, drive_keep] at hrun

/-- Slices of both runs begin alike. -/
theorem slices_eq {budget limit : Nat} (h : ∀ k ≤ budget * limit,
    EqExceptInput (Machine.step^[k] a) (Machine.step^[k] b)) :
    slices budget limit b = slices budget limit a := by
  refine eq_of_forall_ge_iff fun n => ?_
  rw [slices_le_iff, slices_le_iff]
  by_cases hall : limit ≤ n
  · simp [hall]
  · rw [(h (budget * n) (Nat.mul_le_mul_left budget (by omega))).isHalted_eq]

end EqExceptInput

end Machine

end TernaryConsole
