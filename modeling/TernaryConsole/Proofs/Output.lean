import TernaryConsole.Proofs.Bounds
import TernaryConsole.Proofs.Isa

/-!
# Proofs.Output — what the output channel shows

A machine emits a value whenever it executes an OUT instruction (`emission?`). Of a history of
actions, `emittedSince` lists what was emitted since the channel was last cleared, without looking
at the channel: a drain, a reset, an installation and a launch that succeeds start the list again,
and a launch that fails does not. The channel shows the last 4096 values of that list.

The channel drops old values in bulk. What it shows is the same as if a full channel dropped its
oldest value for every new one (`OutputChannel.values_push_eq_evict`).
-/

namespace TernaryConsole

/-! ## The latest values -/

namespace Isa

theorem latest_suffix (values : List Int) : latest values <:+ values :=
  List.drop_suffix _ _

theorem length_latest (values : List Int) : (latest values).length = min values.length 4096 := by
  rw [latest, List.length_drop]
  omega

theorem latest_of_length_le {values : List Int} (h : values.length ≤ 4096) :
    latest values = values := by
  rw [latest, Nat.sub_eq_zero_of_le h, List.drop_zero]

end Isa

/-! ## Emitted values -/

namespace Machine

/-- The actions that empty the channel. -/
def Action.clears : Action → Bool
  | .install _ | .launch _ (.ok _) | .drain | .reset => true
  | .launch _ (.error _) | .step | .burst _ | .ports _ => false

/-- The value that the next step emits: what the register of an OUT instruction holds in front of
it. -/
def emission? (m : Machine) : Option Int :=
  m.executes.bind fun i => if i.opcode = .out then some (m.registers.get i.operand1) else none

/-- The values that an action emits, in order. -/
def emitted (m : Machine) : Action → List Int
  | .step => m.emission?.toList
  | .burst budget => (List.range budget).filterMap fun k => (step^[k] m).emission?
  | .install _ | .launch _ _ | .ports _ | .drain | .reset => []

def performAll (m : Machine) (actions : List Action) : Machine :=
  actions.foldl perform m

/-- The values that a history has emitted since it last cleared the channel, behind the `earlier`
ones if it never did. -/
def emittedSince (earlier : List Int) (m : Machine) : List Action → List Int
  | [] => earlier
  | action :: rest =>
    emittedSince (if action.clears then [] else earlier ++ m.emitted action) (m.perform action) rest

/-! ## One action -/

/-- A channel to which nothing is added. -/
theorem values_keep (m : Machine) : m.output.values = Isa.latest (m.output.values ++ []) := by
  rw [List.append_nil, Isa.latest_of_length_le (OutputChannel.length_values_le m.output)]

theorem values_step (m : Machine) :
    m.step.output.values = Isa.latest (m.output.values ++ m.emission?.toList) := by
  cases hi : m.executes with
  | none =>
    rw [step_of_isHalted (executes_eq_none_iff.1 hi), emission?, hi]
    exact values_keep m
  | some i =>
    have houtput : m.step.output = (m.skip.execute i).output := by
      rw [step_of_executes hi]
      rfl
    rw [houtput, output_execute, emission?, hi, Option.bind_some]
    split
    · exact OutputChannel.values_push_eq_latest m.output _
    · exact values_keep m

theorem values_iterate (m : Machine) (n : Nat) :
    (step^[n] m).output.values =
      Isa.latest (m.output.values ++ (List.range n).filterMap fun k => (step^[k] m).emission?) := by
  induction n with
  | zero => exact values_keep m
  | succ n ih =>
    have hlast : [n].filterMap (fun k => (step^[k] m).emission?) =
        (step^[n] m).emission?.toList := by
      cases hemission : (step^[n] m).emission? <;> simp [hemission]
    rw [Function.iterate_succ_apply', values_step, ih, Isa.latest_latest_append, List.range_succ,
      List.filterMap_append, hlast, List.append_assoc]

theorem values_perform_of_clears (m : Machine) {action : Action} (h : action.clears = true) :
    (m.perform action).output.values = [] := by
  cases action with
  | launch path content =>
    cases content with
    | ok source => rfl
    | error cause => simp [Action.clears] at h
  | install source | drain | reset => rfl
  | step | burst budget | ports input => simp [Action.clears] at h

theorem values_perform (m : Machine) {action : Action} (h : action.clears = false) :
    (m.perform action).output.values = Isa.latest (m.output.values ++ m.emitted action) := by
  cases action with
  | step => exact values_step m
  | burst budget =>
    rw [perform, burst_eq_iterate]
    exact values_iterate m budget
  | ports input => exact values_keep m
  | launch path content =>
    cases content with
    | ok source => simp [Action.clears] at h
    | error cause => exact values_keep m
  | install source | drain | reset => simp [Action.clears] at h

/-! ## Histories -/

/-- A channel that shows the latest of the earlier values shows the latest of all. -/
theorem values_performAll {m : Machine} {earlier : List Int}
    (h : m.output.values = Isa.latest earlier) (actions : List Action) :
    (m.performAll actions).output.values = Isa.latest (emittedSince earlier m actions) := by
  induction actions generalizing m earlier with
  | nil => exact h
  | cons action rest ih =>
    rw [emittedSince]
    refine ih ?_
    cases hclears : action.clears with
    | true => rw [values_perform_of_clears m hclears, if_pos rfl]; rfl
    | false => rw [values_perform m hclears, h, Isa.latest_latest_append, if_neg (by decide)]

/-- The channel shows the last `min n 4096` of `n` values, in their order. Draining it answers
with what it shows and leaves nothing in it, and a further value takes the place of the oldest one
if the channel is full. -/
structure ShowsLatest (m : Machine) (emitted : List Int) : Prop where
  suffix : m.output.values <:+ emitted
  length_eq : m.output.values.length = min emitted.length 4096
  drained : m.drainOutput = (m.output.values, { m with output := .empty })
  drained_empty : m.drainOutput.2.output.values = []
  emit : ∀ value, (m.emit value).output.values = OutputChannel.evict m.output.values value

/-- After any history, the channel shows the latest of the values that were emitted since it was last
cleared, behind those that it had at the start if it never was. -/
theorem showsLatest_performAll (m : Machine) (actions : List Action) :
    (m.performAll actions).ShowsLatest (emittedSince m.output.values m actions) := by
  have hstart := Isa.latest_of_length_le (OutputChannel.length_values_le m.output)
  have hvalues := values_performAll hstart.symm actions
  exact
    { suffix := by
        rw [hvalues]
        exact Isa.latest_suffix _
      length_eq := by rw [hvalues, Isa.length_latest]
      drained := rfl
      drained_empty := rfl
      emit := fun value => OutputChannel.values_push_eq_evict _ value }

end Machine

end TernaryConsole
