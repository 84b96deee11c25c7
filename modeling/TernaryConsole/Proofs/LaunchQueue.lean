import TernaryConsole.Proofs.Desktop
import TernaryConsole.Proofs.Host

/-!
# Proofs.LaunchQueue — every launch has its request, and every request one frame

Requests and clicks only leave a path for the next frame. `Waits` says of a history that an event
asked for a path and no frame has come since, and `Latest` that nothing has asked again either. A
frame launches the path of the latest waiting event and nothing if none waits, before any
instruction, and leaves nothing for the frames that follow (`launchQueue_of_pending_eq_none`).

Events are counted from zero, and `at s events n` is the session in front of event `n`.
-/

namespace TernaryConsole

/-- `app` is the first app of the desktop whose icon contains the point. -/
def Desktop.FirstUnder (desktop : Desktop) (x y : Coordinate) (app : App) : Prop :=
  ∃ front back, desktop.apps = front ++ app :: back ∧ app.icon.contains x y = true ∧
    ∀ other ∈ front, other.icon.contains x y = false

theorem Desktop.firstUnder_iff {desktop : Desktop} {x y : Coordinate} {app : App} :
    desktop.FirstUnder x y app ↔ desktop.appAt? x y = some app := by
  rw [appAt?, List.find?_eq_some_iff_append]
  constructor
  · rintro ⟨front, back, happs, hunder, hfront⟩
    exact ⟨hunder, front, back, happs, fun other hother => by simp [hfront other hother]⟩
  · rintro ⟨hunder, front, back, happs, hfront⟩
    exact ⟨front, back, happs, hunder, fun other hother => by simpa using hfront other hother⟩

namespace Session

/-! ## Waiting requests -/

def Event.isFrame : Event → Bool
  | .frame _ => true
  | _ => false

/-- The paths that events ask for. A click asks for the first app under the point. -/
inductive Event.Asks (desktop : Desktop) : Event → String → Prop
  | request (path : String) : Asks desktop (.request path) path
  | click {x y : Coordinate} {app : App} (h : desktop.FirstUnder x y app) :
      Asks desktop (.click x y) app.path

/-- Event `request` asks for `path`, and no frame lies between it and event `now`. -/
structure Waits (desktop : Desktop) (events : List Event) (path : String) (request now : Nat) :
    Prop where
  before : request < now
  asks : ∃ event, events[request]? = some event ∧ event.Asks desktop path
  uncut : ∀ k event, request < k → k < now → events[k]? = some event → event.isFrame = false

/-- A request that waits and is the last to do so. -/
structure Latest (desktop : Desktop) (events : List Event) (path : String) (request now : Nat) :
    Prop extends Waits desktop events path request now where
  last : ∀ k event other, request < k → k < now → events[k]? = some event →
    ¬ event.Asks desktop other

section History

variable {desktop : Desktop} {events : List Event} {path other : String} {n request : Nat}
  {event : Event}

namespace Event.Asks

theorem unique (h : event.Asks desktop path) (hother : event.Asks desktop other) :
    path = other := by
  cases h with
  | request => cases hother; rfl
  | click hfirst =>
    cases hother with
    | click hsecond =>
      rw [Desktop.firstUnder_iff] at hfirst hsecond
      rw [hfirst] at hsecond
      cases hsecond
      rfl

theorem isFrame_eq (h : event.Asks desktop path) : event.isFrame = false := by
  cases h <;> rfl

end Event.Asks

/-- What waits behind an event waited in front of it already, or the event asks for it. -/
theorem Waits.cases_succ (h : Waits desktop events path request (n + 1))
    (hevent : events[n]? = some event) :
    (request = n ∧ event.Asks desktop path) ∨
      (event.isFrame = false ∧ Waits desktop events path request n) := by
  have hbefore := h.before
  by_cases hlast : request = n
  · subst hlast
    obtain ⟨asking, hasking, hasks⟩ := h.asks
    rw [hevent] at hasking
    cases hasking
    exact Or.inl ⟨rfl, hasks⟩
  · refine Or.inr ⟨h.uncut n event (by omega) (by omega) hevent, by omega, h.asks, ?_⟩
    intro k between hlow hhigh hbetween
    exact h.uncut k between hlow (by omega) hbetween

/-- The frame that ends the wait of a request is determined. -/
theorem Waits.frame_unique {later : Nat} {frame : Event}
    (h : Waits desktop events path request n) (hlater : Waits desktop events other request later)
    (hframe : events[n]? = some frame) (hisFrame : frame.isFrame = true) : later ≤ n := by
  by_contra hlt
  have hcut := hlater.uncut n frame h.before (by omega) hframe
  rw [hisFrame] at hcut
  exact absurd hcut (by decide)

namespace Latest

theorem of_asks (hevent : events[n]? = some event) (hasks : event.Asks desktop path) :
    Latest desktop events path n (n + 1) where
  before := Nat.lt_succ_self n
  asks := ⟨event, hevent, hasks⟩
  uncut := by omega
  last := by omega

theorem succ (h : Latest desktop events path request n) (hevent : events[n]? = some event)
    (hframe : event.isFrame = false) (hasks : ∀ other, ¬ event.Asks desktop other) :
    Latest desktop events path request (n + 1) where
  before := Nat.lt_succ_of_lt h.before
  asks := h.asks
  uncut := by
    intro k between hlow hhigh hbetween
    by_cases hlast : k = n
    · subst hlast
      rw [hevent] at hbetween
      cases hbetween
      exact hframe
    · exact h.uncut k between hlow (by omega) hbetween
  last := by
    intro k between other hlow hhigh hbetween
    by_cases hlast : k = n
    · subst hlast
      rw [hevent] at hbetween
      cases hbetween
      exact hasks other
    · exact h.last k between other hlow (by omega) hbetween

/-- There is one latest request at most, since the earlier of two would not be the last. -/
theorem unique {second : Nat} (h : Latest desktop events path request n)
    (hother : Latest desktop events other second n) : request = second ∧ path = other := by
  obtain ⟨event, hevent, hasks⟩ := h.asks
  obtain ⟨eventOther, heventOther, hasksOther⟩ := hother.asks
  rcases Nat.lt_trichotomy request second with hlt | heq | hgt
  · exact absurd hasksOther (h.last second eventOther other hlt hother.before heventOther)
  · subst heq
    rw [hevent] at heventOther
    cases heventOther
    exact ⟨rfl, hasks.unique hasksOther⟩
  · exact absurd hasks (hother.last request event path hgt h.before hevent)

end Latest

end History

/-! ## One event -/

/-- What a frame does that launches a path: the launch comes first, the burst starts from what it
left. -/
structure Launches (s : Session) (read : String → Except FileError String) (path : String) :
    Prop where
  launched : (s.playFrame read).1.launched = some (s.machine.launch path (read path)).1
  executed : (s.playFrame read).1.executed =
    ((s.machine.launch path (read path)).2.burst s.frameBudget).1
  machine : (s.playFrame read).2.machine =
    ((s.machine.launch path (read path)).2.burst s.frameBudget).2

/-- What a frame does that launches nothing. -/
structure Continues (s : Session) (read : String → Except FileError String) : Prop where
  launched : (s.playFrame read).1.launched = none
  executed : (s.playFrame read).1.executed = (s.machine.burst s.frameBudget).1
  machine : (s.playFrame read).2.machine = (s.machine.burst s.frameBudget).2

section Events

variable {s : Session} {read : String → Except FileError String}

theorem launches_of_pending {path : String} (h : s.pending = some path) : s.Launches read path := by
  constructor <;> simp only [playFrame, boundary, h]

theorem continues_of_pending (h : s.pending = none) : s.Continues read := by
  constructor <;> simp only [playFrame, boundary, h]

theorem pending_playFrame (s : Session) (read : String → Except FileError String) :
    (s.playFrame read).2.pending = none := by
  cases h : s.pending with
  | none => simp only [playFrame, boundary, h]
  | some path => simp only [playFrame, boundary, h]

theorem click_of_firstUnder {x y : Coordinate} {app : App} (h : s.desktop.FirstUnder x y app) :
    s.click x y = (some app.name, { s with pending := some app.path }) := by
  rw [Desktop.firstUnder_iff] at h
  simp only [click, h]
  rfl

theorem click_of_missed {x y : Coordinate}
    (h : ∀ app ∈ s.desktop.apps, app.icon.contains x y = false) : s.click x y = (none, s) := by
  simp only [click, Desktop.appAt?_eq_none h]

theorem launchUnder_of_firstUnder {desktop : Desktop} {x y : Coordinate} {app : App}
    (h : desktop.FirstUnder x y app) (m : Machine) :
    desktop.launchUnder read m x y =
      (some (m.launch app.path (read app.path)).1, (m.launch app.path (read app.path)).2) := by
  rw [Desktop.firstUnder_iff] at h
  simp only [Desktop.launchUnder, h]

/-- A click on an icon and then the boundary of a frame: the launch of the app under the point. -/
theorem boundary_click {x y : Coordinate} {app : App} (h : s.desktop.FirstUnder x y app) :
    ((s.click x y).2.boundary read).1 = (s.desktop.launchUnder read s.machine x y).1 ∧
      ((s.click x y).2.boundary read).2.machine =
        (s.desktop.launchUnder read s.machine x y).2 := by
  rw [click_of_firstUnder h, launchUnder_of_firstUnder h]
  exact ⟨rfl, rfl⟩

theorem playFrame_click {x y : Coordinate} {app : App} (h : s.desktop.FirstUnder x y app) :
    ((s.click x y).2.playFrame read).1.launched =
        (s.desktop.launchUnder read s.machine x y).1 ∧
      ((s.click x y).2.playFrame read).2.machine =
        ((s.desktop.launchUnder read s.machine x y).2.burst s.frameBudget).2 := by
  rw [click_of_firstUnder h, launchUnder_of_firstUnder h]
  exact ⟨rfl, rfl⟩

/-- What an event does to the pending path: a frame takes it, a request or a click on an icon puts
its own in its place, and all other events keep it. -/
theorem pending_handle (s : Session) (event : Event) :
    (event.isFrame = true ∧ (s.handle event).pending = none) ∨
      (∃ path, event.Asks s.desktop path ∧ (s.handle event).pending = some path) ∨
      (event.isFrame = false ∧ (∀ path, ¬ event.Asks s.desktop path) ∧
        (s.handle event).pending = s.pending) := by
  cases event with
  | request path => exact Or.inr (Or.inl ⟨path, .request path, rfl⟩)
  | click x y =>
    cases happ : s.desktop.appAt? x y with
    | some app =>
      have hfirst := Desktop.firstUnder_iff.2 happ
      refine Or.inr (Or.inl ⟨app.path, .click hfirst, ?_⟩)
      rw [handle, click_of_firstUnder hfirst]
    | none =>
      refine Or.inr (Or.inr ⟨rfl, ?_, ?_⟩)
      · intro path hasks
        cases hasks with
        | click hfirst =>
          rw [Desktop.firstUnder_iff, happ] at hfirst
          exact absurd hfirst (by simp)
      · simp only [handle, click, happ]
  | frame read => exact Or.inl ⟨rfl, pending_playFrame s read⟩
  | machine action =>
    refine Or.inr (Or.inr ⟨rfl, ?_, rfl⟩)
    intro path hasks
    cases hasks

end Events

/-! ## Histories -/

/-- The session in front of an event. -/
def inFrontOf (s : Session) (events : List Event) (n : Nat) : Session :=
  s.handleAll (events.take n)

section Run

variable {s : Session} {events : List Event} {n : Nat} {event : Event}

theorem inFrontOf_succ (h : events[n]? = some event) :
    s.inFrontOf events (n + 1) = (s.inFrontOf events n).handle event := by
  rw [inFrontOf, List.take_add_one, h, handleAll_append]
  rfl

theorem desktop_inFrontOf (s : Session) (events : List Event) (n : Nat) :
    (s.inFrontOf events n).desktop = s.desktop :=
  (sameSetup_handleAll s (events.take n)).desktop

theorem frameBudget_inFrontOf (s : Session) (events : List Event) (n : Nat) :
    (s.inFrontOf events n).frameBudget = s.frameBudget :=
  (sameSetup_handleAll s (events.take n)).frameBudget

/-- The pending path is that of the latest waiting request. -/
structure Queued (s : Session) (events : List Event) (n : Nat) : Prop where
  latest : ∀ path, (s.inFrontOf events n).pending = some path →
    ∃ request, Latest s.desktop events path request n
  idle : (s.inFrontOf events n).pending = none →
    ∀ path request, ¬ Waits s.desktop events path request n

theorem Queued.zero (h : s.pending = none) : Queued s events 0 where
  latest := by
    intro path hpath
    have hpending : (s.inFrontOf events 0).pending = s.pending := by
      rw [inFrontOf, List.take_zero]
      rfl
    rw [hpending, h] at hpath
    exact absurd hpath (by simp)
  idle := fun _ path request hwaits => absurd hwaits.before (Nat.not_lt_zero request)

theorem Queued.succ (h : Queued s events n) (hevent : events[n]? = some event) :
    Queued s events (n + 1) := by
  have hcases := pending_handle (s.inFrontOf events n) event
  rw [desktop_inFrontOf, ← inFrontOf_succ hevent] at hcases
  rcases hcases with ⟨hframe, hpending⟩ | ⟨asked, hasks, hpending⟩ | ⟨hframe, hnone, hpending⟩
  · -- A frame: nothing is pending, and nothing can wait across it.
    refine ⟨fun path hpath => by simp [hpending] at hpath, fun _ path request hwaits => ?_⟩
    rcases hwaits.cases_succ hevent with ⟨-, hasks⟩ | ⟨hother, -⟩
    · exact absurd (hasks.isFrame_eq.symm.trans hframe) (by decide)
    · exact absurd (hother.symm.trans hframe) (by decide)
  · -- A request takes the place of what was pending.
    refine ⟨fun path hpath => ?_, fun hidle => by simp [hpending] at hidle⟩
    obtain rfl : asked = path := by simpa [hpending] using hpath
    exact ⟨n, Latest.of_asks hevent hasks⟩
  · -- Anything else leaves both the pending path and the waiting requests.
    refine ⟨fun path hpath => ?_, fun hidle path request hwaits => ?_⟩
    · obtain ⟨request, hlatest⟩ := h.latest path (hpending ▸ hpath)
      exact ⟨request, hlatest.succ hevent hframe hnone⟩
    · rcases hwaits.cases_succ hevent with ⟨-, hasks⟩ | ⟨-, hbefore⟩
      · exact hnone path hasks
      · exact h.idle (hpending ▸ hidle) path request hbefore

theorem queued_of_le (h : s.pending = none) (hn : n ≤ events.length) : Queued s events n := by
  induction n with
  | zero => exact Queued.zero h
  | succ n ih => exact (ih (by omega)).succ (List.getElem?_eq_getElem hn)

theorem queued_of_getElem? (h : s.pending = none) (hevent : events[n]? = some event) :
    Queued s events n := by
  obtain ⟨hn, -⟩ := List.getElem?_eq_some_iff.1 hevent
  exact queued_of_le h (Nat.le_of_lt hn)

end Run

/-! ## The law -/

/-- How a history treats its requests. -/
structure LaunchQueue (s : Session) (events : List Event) : Prop where
  attempts_iff : ∀ n read, events[n]? = some (.frame read) →
    (((s.inFrontOf events n).playFrame read).1.launched.isSome = true ↔
      ∃ path request, Waits s.desktop events path request n)
  launches : ∀ n read, events[n]? = some (.frame read) → ∀ path request,
    Latest s.desktop events path request n → (s.inFrontOf events n).Launches read path
  continues : ∀ n read, events[n]? = some (.frame read) →
    (∀ path request, ¬ Waits s.desktop events path request n) →
    (s.inFrontOf events n).Continues read
  latest_exists : ∀ n event, events[n]? = some event → ∀ path request,
    Waits s.desktop events path request n →
    ∃ latest request, Latest s.desktop events latest request n
  latest_unique : ∀ n path other request second, Latest s.desktop events path request n →
    Latest s.desktop events other second n → request = second ∧ path = other
  /-- A request waits for one frame. -/
  frame_unique : ∀ n later read readLater, events[n]? = some (.frame read) →
    events[later]? = some (.frame readLater) → ∀ path other request,
    Waits s.desktop events path request n → Waits s.desktop events other request later → n = later
  emptied : ∀ n read, events[n]? = some (.frame read) →
    (s.inFrontOf events (n + 1)).pending = none
  requested : ∀ n path, events[n]? = some (.request path) →
    s.inFrontOf events (n + 1) = { s.inFrontOf events n with pending := some path }
  missed : ∀ n x y, events[n]? = some (.click x y) →
    (∀ app ∈ s.desktop.apps, app.icon.contains x y = false) →
    (s.inFrontOf events n).click x y = (none, s.inFrontOf events n) ∧
      s.inFrontOf events (n + 1) = s.inFrontOf events n
  clicked : ∀ n x y app, events[n]? = some (.click x y) → s.desktop.FirstUnder x y app →
    (s.inFrontOf events n).click x y = (some app.name, s.inFrontOf events (n + 1)) ∧
      s.inFrontOf events (n + 1) = { s.inFrontOf events n with pending := some app.path }
  /-- A click on an icon and the boundary of a frame behind it are the launch under the point. -/
  clicked_boundary : ∀ n x y app read, events[n]? = some (.click x y) →
    s.desktop.FirstUnder x y app →
    let direct := s.desktop.launchUnder read (s.inFrontOf events n).machine x y
    ((s.inFrontOf events (n + 1)).boundary read).1 = direct.1 ∧
      ((s.inFrontOf events (n + 1)).boundary read).2.machine = direct.2
  clicked_frame : ∀ n x y app read, events[n]? = some (.click x y) →
    s.desktop.FirstUnder x y app →
    let direct := s.desktop.launchUnder read (s.inFrontOf events n).machine x y
    ((s.inFrontOf events (n + 1)).playFrame read).1.launched = direct.1 ∧
      ((s.inFrontOf events (n + 1)).playFrame read).2.machine =
        (direct.2.burst (s.inFrontOf events n).frameBudget).2

theorem launchQueue_of_pending_eq_none {s : Session} (h : s.pending = none)
    (events : List Event) : s.LaunchQueue events where
  attempts_iff := by
    intro n read hevent
    have hqueued := queued_of_getElem? h hevent
    cases hpending : (s.inFrontOf events n).pending with
    | none =>
      have hnone := hqueued.idle hpending
      simp only [(continues_of_pending hpending).launched]
      simpa using hnone
    | some path =>
      obtain ⟨request, hlatest⟩ := hqueued.latest path hpending
      simp only [(launches_of_pending hpending).launched]
      exact ⟨fun _ => ⟨path, request, hlatest.toWaits⟩, fun _ => rfl⟩
  launches := by
    intro n read hevent path request hlatest
    have hqueued := queued_of_getElem? h hevent
    cases hpending : (s.inFrontOf events n).pending with
    | none => exact absurd hlatest.toWaits (hqueued.idle hpending path request)
    | some kept =>
      obtain ⟨second, hkept⟩ := hqueued.latest kept hpending
      obtain ⟨-, rfl⟩ := hlatest.unique hkept
      exact launches_of_pending hpending
  continues := by
    intro n read hevent hnone
    have hqueued := queued_of_getElem? h hevent
    cases hpending : (s.inFrontOf events n).pending with
    | none => exact continues_of_pending hpending
    | some kept =>
      obtain ⟨request, hkept⟩ := hqueued.latest kept hpending
      exact absurd hkept.toWaits (hnone kept request)
  latest_exists := by
    intro n event hevent path request hwaits
    have hqueued := queued_of_getElem? h hevent
    cases hpending : (s.inFrontOf events n).pending with
    | none => exact absurd hwaits (hqueued.idle hpending path request)
    | some kept => exact ⟨kept, hqueued.latest kept hpending⟩
  latest_unique := fun n path other request second hlatest hother => hlatest.unique hother
  frame_unique := by
    intro n later read readLater hframe hframeLater path other request hwaits hwaitsLater
    have hle := hwaits.frame_unique hwaitsLater hframe rfl
    have hge := hwaitsLater.frame_unique hwaits hframeLater rfl
    omega
  emptied := by
    intro n read hevent
    rw [inFrontOf_succ hevent]
    exact pending_playFrame _ read
  requested := by
    intro n path hevent
    rw [inFrontOf_succ hevent]
    rfl
  missed := by
    intro n x y hevent hmissed
    rw [← desktop_inFrontOf s events n] at hmissed
    have hclick := click_of_missed hmissed
    rw [inFrontOf_succ hevent, handle, hclick]
    exact ⟨rfl, rfl⟩
  clicked := by
    intro n x y app hevent hfirst
    rw [← desktop_inFrontOf s events n] at hfirst
    have hclick := click_of_firstUnder hfirst
    rw [inFrontOf_succ hevent, handle, hclick]
    exact ⟨rfl, rfl⟩
  clicked_boundary := by
    intro n x y app read hevent hfirst
    rw [← desktop_inFrontOf s events n] at hfirst ⊢
    rw [inFrontOf_succ hevent]
    exact boundary_click hfirst
  clicked_frame := by
    intro n x y app read hevent hfirst
    rw [← desktop_inFrontOf s events n] at hfirst ⊢
    rw [inFrontOf_succ hevent]
    exact playFrame_click hfirst

/-- Whatever a host does to a session with nothing pending, played frames included, each frame
launches what the history in front of it asks for. -/
theorem launchQueue_performAll (s : Session) (h : s.pending = none) (actions : List Action) :
    s.performAll actions = s.handleAll (s.eventsOfAll actions) ∧
      s.LaunchQueue (s.eventsOfAll actions) :=
  ⟨performAll_eq_handleAll s actions, launchQueue_of_pending_eq_none h _⟩

/-- A request that a click replaces, a click beside the icon, and frames until the machine halts. -/
theorem launchQueue_performAll_nine :
    let s := ofBundles {} [⟨"nine", "nine.void"⟩]
    let actions : List Action :=
      [.event (.request "other.void"), .event (.click 9 9), .event (.click 0 0),
        .play (fun _ => .error .notFound) 2]
    s.pending = none ∧ s.performAll actions = s.handleAll (s.eventsOfAll actions) ∧
      s.LaunchQueue (s.eventsOfAll actions) :=
  ⟨rfl, launchQueue_performAll (ofBundles {} [⟨"nine", "nine.void"⟩]) rfl _⟩

end Session

end TernaryConsole
