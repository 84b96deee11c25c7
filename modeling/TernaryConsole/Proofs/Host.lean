import Mathlib.Logic.Function.Iterate
import TernaryConsole.Desktop.Session
import TernaryConsole.Proofs.Drive

/-!
# Proofs.Host — what a host does

A host acts on a machine (`Machine.Action`) and on the session around it (`Session.Event`); what it
did so far is a list of these. Bursts and played sessions are no steps of their own: a burst comes
down to steps (`burst_eq_iterate`) and playing comes down to as many frames as it reports
(`performAll_eq_handleAll`).
-/

namespace TernaryConsole

namespace Machine

/-! ## Machines -/

/-- What a host can do to a machine. -/
inductive Action
  | install (source : String)
  /-- A launch, with what reading the path answered. -/
  | launch (path : String) (content : Except FileError String)
  | step
  | burst (budget : Nat)
  | ports (input : InputPorts)
  | drain
  | reset

def perform (m : Machine) : Action → Machine
  | .install source => (m.install source).2
  | .launch path content => (m.launch path content).2
  | .step => m.step
  | .burst budget => (m.burst budget).2
  | .ports input => m.setInput input
  | .drain => m.drain
  | .reset => m.reset

theorem burstFrom_eq_iterate (executed budget : Nat) (m : Machine) :
    (burstFrom executed budget m).2 = step^[budget] m := by
  induction budget generalizing executed m with
  | zero => rfl
  | succ budget ih =>
    rw [burstFrom]
    by_cases hhalted : m.isHalted = true
    · rw [if_pos hhalted, Function.iterate_fixed (step_of_isHalted hhalted)]
    · have hstep : m.step = m.advance := if_neg hhalted
      rw [if_neg hhalted, ih, Function.iterate_succ_apply, hstep]

/-- A burst is as many steps as its budget says; those of a halted machine change nothing. -/
theorem burst_eq_iterate (budget : Nat) (m : Machine) : (m.burst budget).2 = step^[budget] m :=
  burstFrom_eq_iterate 0 budget m

end Machine

namespace Session

/-! ## Sessions -/

/-- What a host can do to a session, frame by frame. -/
inductive Event
  | request (path : String)
  | click (x y : Coordinate)
  /-- A frame, with what reading each path answers. -/
  | frame (read : String → Except FileError String)
  | machine (action : Machine.Action)

def handle (s : Session) : Event → Session
  | .request path => s.request path
  | .click x y => (s.click x y).2
  | .frame read => (s.playFrame read).2
  | .machine action => { s with machine := s.machine.perform action }

def handleAll (s : Session) (events : List Event) : Session :=
  events.foldl handle s

/-- What a host can do to a session. -/
inductive Action
  | event (event : Event)
  | play (read : String → Except FileError String) (limit : Nat)

def perform (s : Session) : Action → Session
  | .event event => s.handle event
  | .play read limit => (s.play read limit).2

def performAll (s : Session) (actions : List Action) : Session :=
  actions.foldl perform s

/-- The events that an action comes down to: playing is as many frames as it reports. -/
def eventsOf (s : Session) : Action → List Event
  | .event event => [event]
  | .play read limit => List.replicate (s.play read limit).1 (.frame read)

def eventsOfAll (s : Session) : List Action → List Event
  | [] => []
  | action :: rest => s.eventsOf action ++ (s.perform action).eventsOfAll rest

variable {s : Session}

theorem handleAll_append (s : Session) (events more : List Event) :
    s.handleAll (events ++ more) = (s.handleAll events).handleAll more :=
  List.foldl_append

/-- What a session keeps whatever happens: the desktop and the budget of its frames. -/
structure SameSetup (s after : Session) : Prop where
  desktop : after.desktop = s.desktop
  frameBudget : after.frameBudget = s.frameBudget

theorem sameSetup_handle (s : Session) (event : Event) : SameSetup s (s.handle event) := by
  cases event with
  | request path => exact ⟨rfl, rfl⟩
  | click x y =>
    simp only [handle, click]
    split <;> exact ⟨rfl, rfl⟩
  | frame read =>
    cases h : s.pending with
    | none => constructor <;> simp only [handle, playFrame, boundary, h]
    | some path => constructor <;> simp only [handle, playFrame, boundary, h]
  | machine action => exact ⟨rfl, rfl⟩

theorem sameSetup_handleAll (s : Session) (events : List Event) :
    SameSetup s (s.handleAll events) := by
  induction events generalizing s with
  | nil => exact ⟨rfl, rfl⟩
  | cons event rest ih =>
    have hfirst := sameSetup_handle s event
    have hrest := ih (s.handle event)
    exact ⟨hrest.desktop.trans hfirst.desktop, hrest.frameBudget.trans hfirst.frameBudget⟩

/-- The frames that are played, one by one. -/
theorem playFrom_eq_handleAll (read : String → Except FileError String) (count limit : Nat)
    (s : Session) :
    ∃ frames, playFrom read count limit s =
      (count + frames, s.handleAll (List.replicate frames (.frame read))) := by
  induction limit generalizing count s with
  | zero => exact ⟨0, rfl⟩
  | succ limit ih =>
    -- One frame is played, and then either none or those of the induction hypothesis.
    let played := s.playFrame read
    have hplay : playFrom read count (limit + 1) s =
        if played.1.halted && played.2.pending.isNone then (count + 1, played.2)
        else playFrom read (count + 1) limit played.2 := rfl
    rw [hplay]
    split
    · exact ⟨1, rfl⟩
    · obtain ⟨frames, hframes⟩ := ih (count + 1) (s.playFrame read).2
      refine ⟨frames + 1, hframes.trans ?_⟩
      rw [List.replicate_succ, Nat.add_assoc, Nat.add_comm 1]
      rfl

theorem perform_eq_handleAll (s : Session) (action : Action) :
    s.perform action = s.handleAll (s.eventsOf action) := by
  cases action with
  | event event => rfl
  | play read limit =>
    obtain ⟨frames, hframes⟩ := playFrom_eq_handleAll read 0 limit s
    rw [perform, eventsOf, play, hframes, Nat.zero_add]

theorem performAll_eq_handleAll (s : Session) (actions : List Action) :
    s.performAll actions = s.handleAll (s.eventsOfAll actions) := by
  induction actions generalizing s with
  | nil => rfl
  | cons action rest ih =>
    rw [eventsOfAll, handleAll_append, ← perform_eq_handleAll, ← ih]
    rfl

end Session

end TernaryConsole
