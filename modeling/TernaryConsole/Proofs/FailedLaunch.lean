import TernaryConsole.Proofs.LaunchQueue
import TernaryConsole.Proofs.Lifetime

/-!
# Proofs.FailedLaunch — failed launches and halted machines change nothing

A launch stops the machine before anyone knows whether the file can be read; `launchStaged` goes
through these stages. If the reading fails, the run state that was there has to come back, and it
does: such a launch only answers why it failed, and a frame that begins with it is the frame that
has no request (`playFrame_of_failed`).

An event is `Quiet` in front of a session if it installs nothing. A history of quiet events moves
the machine by steps alone (`machine_inFrontOf`), and those of a halted machine lead nowhere.
-/

namespace TernaryConsole

/-! ## One launch -/

namespace LaunchError

variable {path other : String} {cause why : FileError}

theorem ofFileError_eq_imageNotFound_iff :
    ofFileError path cause = .imageNotFound other ↔ path = other ∧ cause = .notFound := by
  cases cause <;> simp [ofFileError]

theorem ofFileError_eq_unreadable_iff :
    ofFileError path cause = .unreadable other why ↔
      path = other ∧ cause = why ∧ cause ≠ .notFound := by
  cases cause <;> simp [ofFileError]

end LaunchError

namespace Machine

variable {m : Machine} {path : String} {content : Except FileError String}

/-- A launch in its stages. The machine is stopped first, and a failure sets the run state that
was there before. -/
def launchStaged (m : Machine) (path : String) (content : Except FileError String) :
    Except LaunchError LaunchReport × Machine :=
  let stopped := m.halt
  match content with
  | .ok source =>
    let (report, installed) := stopped.install source
    (.ok ⟨path, report⟩, installed)
  | .error cause =>
    (.error (LaunchError.ofFileError path cause), if m.isHalted then stopped else stopped.resume)

theorem halt_of_isHalted (h : m.isHalted = true) : m.halt = m := by
  rw [isHalted, beq_iff_eq] at h
  rw [halt, ← h]

theorem resume_halt (h : m.isHalted = false) : m.halt.resume = m := by
  have hstate : m.state = .running := by
    simpa [isRunning, h] using isRunning_eq m
  show { m with state := .running } = m
  rw [← hstate]

/-- An installed program starts a machine that was stopped as one that was running. -/
theorem install_halt (m : Machine) (source : String) : m.halt.install source = m.install source :=
  rfl

theorem launchStaged_eq_launch (m : Machine) (path : String) (content : Except FileError String) :
    m.launchStaged path content = m.launch path content := by
  cases content with
  | ok source => simp only [launchStaged, launch, install_halt]
  | error cause =>
    -- The stop changes nothing if the machine was halted, and else the resumption takes it back.
    cases hhalted : m.isHalted with
    | true => simp only [launchStaged, launch, hhalted, if_true, halt_of_isHalted hhalted]
    | false =>
      simp only [launchStaged, launch, hhalted, Bool.false_eq_true, if_false, resume_halt hhalted]

/-- A launch fails if the reading does, and for its cause. -/
theorem launch_eq_error_iff {error : LaunchError} :
    (m.launch path content).1 = .error error ↔
      ∃ cause, content = .error cause ∧ LaunchError.ofFileError path cause = error := by
  cases content <;> simp [launch]

theorem launch_eq_imageNotFound_iff {other : String} :
    (m.launch path content).1 = .error (.imageNotFound other) ↔
      path = other ∧ content = .error .notFound := by
  simp only [launch_eq_error_iff, LaunchError.ofFileError_eq_imageNotFound_iff]
  constructor
  · rintro ⟨cause, hcontent, hpath, rfl⟩
    exact ⟨hpath, hcontent⟩
  · rintro ⟨hpath, hcontent⟩
    exact ⟨.notFound, hcontent, hpath, rfl⟩

theorem launch_eq_unreadable_iff {other : String} {cause : FileError} :
    (m.launch path content).1 = .error (.unreadable other cause) ↔
      path = other ∧ content = .error cause ∧ cause ≠ .notFound := by
  simp only [launch_eq_error_iff, LaunchError.ofFileError_eq_unreadable_iff]
  constructor
  · rintro ⟨why, hcontent, hpath, rfl, hcause⟩
    exact ⟨hpath, hcontent, hcause⟩
  · rintro ⟨hpath, hcontent, hcause⟩
    exact ⟨cause, hcontent, hpath, rfl, hcause⟩

end Machine

/-! ## One frame -/

namespace Session

variable {s : Session} {read : String → Except FileError String} {path : String}
  {cause : FileError}

/-- The session whose request is taken back. -/
def withdraw (s : Session) : Session :=
  { s with pending := none }

/-- The instructions of the next frame and where they stand. -/
def frameTrail (read : String → Except FileError String) (s : Session) :
    List Machine.TraceEntry :=
  let ready := (s.boundary read).2
  Machine.trail ready.frameBudget ready.machine

/-- A frame reports the number of its instructions. -/
theorem executed_playFrame (read : String → Except FileError String) (s : Session) :
    (s.playFrame read).1.executed = (s.frameTrail read).length :=
  Machine.burst_fst _ _

theorem boundary_of_failed (hpending : s.pending = some path) (hread : read path = .error cause) :
    s.boundary read = (some (.error (LaunchError.ofFileError path cause)), s.withdraw) := by
  simp only [boundary, hpending, hread, Machine.launch, withdraw]

theorem boundary_withdraw (read : String → Except FileError String) (s : Session) :
    s.withdraw.boundary read = (none, s.withdraw) :=
  rfl

/-- A frame whose request fails is the frame without the request, but for what it reports of the
launch. -/
theorem playFrame_of_failed (hpending : s.pending = some path)
    (hread : read path = .error cause) :
    let plain := s.withdraw.playFrame read
    s.playFrame read =
      ({ plain.1 with launched := some (.error (LaunchError.ofFileError path cause)) },
        plain.2) := by
  simp only [playFrame, boundary_of_failed hpending hread, boundary_withdraw]

theorem frameTrail_of_failed (hpending : s.pending = some path)
    (hread : read path = .error cause) : s.frameTrail read = s.withdraw.frameTrail read := by
  simp only [frameTrail, boundary_of_failed hpending hread, boundary_withdraw]

/-! ## Quiet histories -/

/-- Events that install nothing when they reach the session: no launch but failing ones, and no
frame but those whose request, if there is one, fails. -/
inductive Quiet (s : Session) : Event → Prop
  | request (path : String) : Quiet s (.request path)
  | click (x y : Coordinate) : Quiet s (.click x y)
  | frame {read : String → Except FileError String}
      (h : ∀ path, s.pending = some path → ∃ cause, read path = .error cause) :
      Quiet s (.frame read)
  | step : Quiet s (.machine .step)
  | burst (budget : Nat) : Quiet s (.machine (.burst budget))
  | launch (path : String) (cause : FileError) :
      Quiet s (.machine (.launch path (.error cause)))

/-- Each event of the history is quiet where it comes. -/
def QuietAll (s : Session) (events : List Event) : Prop :=
  ∀ n event, events[n]? = some event → (s.inFrontOf events n).Quiet event

/-- The steps of a quiet event, a frame being as many as its budget. -/
def Event.steps (frameBudget : Nat) : Event → Nat
  | .frame _ => frameBudget
  | .machine .step => 1
  | .machine (.burst budget) => budget
  | _ => 0

/-- The steps of the events in front of an event. -/
def stepsBefore (s : Session) (events : List Event) (n : Nat) : Nat :=
  ((events.take n).map (Event.steps s.frameBudget)).sum

section Run

variable {events : List Event} {event : Event} {n : Nat}

theorem machine_frame (h : ∀ path, s.pending = some path → ∃ cause, read path = .error cause) :
    (s.playFrame read).2.machine = Machine.step^[s.frameBudget] s.machine := by
  cases hpending : s.pending with
  | none => rw [(continues_of_pending hpending).machine, Machine.burst_eq_iterate]
  | some path =>
    -- The request fails, so this is the frame of the session without it.
    obtain ⟨cause, hread⟩ := h path hpending
    rw [playFrame_of_failed hpending hread, (continues_of_pending rfl).machine,
      Machine.burst_eq_iterate]
    rfl

/-- A quiet event moves the machine by its steps and does nothing else to it. -/
theorem machine_handle (h : s.Quiet event) :
    (s.handle event).machine = Machine.step^[event.steps s.frameBudget] s.machine := by
  cases h with
  | request path => rfl
  | click x y =>
    simp only [handle, click]
    split <;> rfl
  | frame hfailed => exact machine_frame hfailed
  | step => rfl
  | burst budget => exact Machine.burst_eq_iterate budget s.machine
  | launch path cause => rfl

theorem stepsBefore_succ (h : events[n]? = some event) :
    s.stepsBefore events (n + 1) = event.steps s.frameBudget + s.stepsBefore events n := by
  rw [stepsBefore, List.take_add_one, h, Option.toList_some, List.map_append, List.sum_append,
    List.map_singleton, List.sum_singleton, Nat.add_comm]
  rfl

/-- The machine in front of an event of a quiet history has taken the steps of the events before
it. -/
theorem machine_inFrontOf (h : s.QuietAll events) (hn : n ≤ events.length) :
    (s.inFrontOf events n).machine = Machine.step^[s.stepsBefore events n] s.machine := by
  induction n with
  | zero => rfl
  | succ n ih =>
    have hevent := List.getElem?_eq_getElem hn
    have hquiet := h n events[n] hevent
    -- The event adds its steps to those that were taken in front of it.
    calc (s.inFrontOf events (n + 1)).machine
        = Machine.step^[events[n].steps s.frameBudget] (s.inFrontOf events n).machine := by
          rw [inFrontOf_succ hevent, machine_handle hquiet, frameBudget_inFrontOf]
      _ = Machine.step^[events[n].steps s.frameBudget]
            (Machine.step^[s.stepsBefore events n] s.machine) := by
          rw [ih (by omega)]
      _ = Machine.step^[s.stepsBefore events (n + 1)] s.machine := by
          rw [stepsBefore_succ hevent, Function.iterate_add_apply]

theorem inFrontOf_length (s : Session) (events : List Event) :
    s.inFrontOf events events.length = s.handleAll events := by
  rw [inFrontOf, List.take_length]

theorem machine_handleAll (h : s.QuietAll events) :
    (s.handleAll events).machine =
      Machine.step^[s.stepsBefore events events.length] s.machine := by
  rw [← inFrontOf_length, machine_inFrontOf h le_rfl]

end Run

end Session

/-! ## The law -/

namespace Machine

/-- What failing launches and a halt leave of a machine, on its own and in any session that has
it. -/
structure Undisturbed (m : Machine) : Prop where
  staged : ∀ path content, m.launchStaged path content = m.launch path content
  notFound_iff : ∀ path content other,
    (m.launch path content).1 = .error (.imageNotFound other) ↔
      path = other ∧ content = .error .notFound
  unreadable_iff : ∀ path content other cause,
    (m.launch path content).1 = .error (.unreadable other cause) ↔
      path = other ∧ content = .error cause ∧ cause ≠ .notFound
  /-- Whatever the cause and whether or not the machine runs, the stages lead back to it. -/
  failed : ∀ path cause,
    m.launchStaged path (.error cause) = (.error (LaunchError.ofFileError path cause), m)
  frame : ∀ (s : Session) read path cause, s.machine = m → s.pending = some path →
    read path = .error cause →
    let plain := s.withdraw.playFrame read
    s.playFrame read =
      ({ plain.1 with launched := some (.error (LaunchError.ofFileError path cause)) }, plain.2)
  frameTrail : ∀ (s : Session) read path cause, s.machine = m → s.pending = some path →
    read path = .error cause →
    s.frameTrail read = s.withdraw.frameTrail read ∧
      (s.playFrame read).1.executed = (s.frameTrail read).length
  history : ∀ (s : Session) events, s.machine = m → s.QuietAll events →
    (s.handleAll events).machine = step^[s.stepsBefore events events.length] m
  /-- A halted machine executes nothing. -/
  idle : m.isHalted = true → m.step = m ∧ ∀ budget, m.burst budget = (0, m)
  /-- No quiet history changes a halted machine, played frames included. -/
  rest : m.isHalted = true → ∀ (s : Session) actions, s.machine = m →
    s.QuietAll (s.eventsOfAll actions) → (s.performAll actions).machine = m

theorem burst_of_isHalted {m : Machine} (h : m.isHalted = true) (budget : Nat) :
    m.burst budget = (0, m) := by
  cases budget with
  | zero => rfl
  | succ budget => exact if_pos h

theorem undisturbed (m : Machine) : m.Undisturbed where
  staged := launchStaged_eq_launch m
  notFound_iff := fun path content other => launch_eq_imageNotFound_iff
  unreadable_iff := fun path content other cause => launch_eq_unreadable_iff
  failed := fun path cause => launchStaged_eq_launch m path (.error cause)
  frame := fun s read path cause _ hpending hread => Session.playFrame_of_failed hpending hread
  frameTrail := fun s read path cause _ hpending hread =>
    ⟨Session.frameTrail_of_failed hpending hread, Session.executed_playFrame read s⟩
  history := by
    rintro s events rfl hquiet
    exact Session.machine_handleAll hquiet
  idle := fun h => ⟨step_of_isHalted h, burst_of_isHalted h⟩
  rest := by
    rintro h s actions rfl hquiet
    -- A step leaves a halted machine where it is, and so does any number of them.
    rw [Session.performAll_eq_handleAll, Session.machine_handleAll hquiet,
      Function.iterate_fixed (step_of_isHalted h)]

end Machine

end TernaryConsole
