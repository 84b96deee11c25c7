import TernaryConsole.Proofs.Cli.Execution
import TernaryConsole.Proofs.Desktop
import TernaryConsole.Proofs.LaunchQueue
import TernaryConsole.Proofs.Ports

/-!
# Proofs.Cli.Desktop — a program behind an icon, from the click to its report

A click on an icon leaves the program of the app for the first frame, which launches it with the
button held; the other frames follow after the release. All of that is one stretch of steps, cut by
the release (`opens_of_firstUnder`).

The report looks its program up by the name of the app. `opens_program` says which path that gives
and when it is the one that was launched. Apart from that path the report is the one of the program
run by itself, unless the program polls the pointer (`unpolled_ports_inert`).
-/

namespace TernaryConsole

open Machine

namespace Session

/-! ## Frames -/

variable {s : Session} {read : String → Except FileError String}

/-- A frame with nothing pending is a burst. -/
theorem playFrame_of_pending (h : s.pending = none) :
    s.playFrame read =
      (⟨none, (s.machine.burst s.frameBudget).1, (step^[s.frameBudget] s.machine).isHalted⟩,
        { s with machine := step^[s.frameBudget] s.machine, frames := s.frames + 1 }) := by
  simp only [playFrame, boundary, h, burst_eq_iterate]

/-- Frames with nothing pending are the slices of one stretch of steps. -/
theorem playFrom_eq (hpending : s.pending = none) (hrunning : s.machine.isHalted = false)
    (count limit : Nat) :
    playFrom read count limit s =
      (count + slices s.frameBudget limit s.machine,
        { s with
          machine := step^[s.frameBudget * limit] s.machine
          frames := s.frames + slices s.frameBudget limit s.machine }) := by
  induction limit generalizing count s with
  | zero => rfl
  | succ limit ih =>
    rw [playFrom, playFrame_of_pending hpending, slices_succ hrunning, Nat.mul_succ,
      Function.iterate_add_apply]
    cases hhalted : (step^[s.frameBudget] s.machine).isHalted with
    | true =>
      -- No frame begins any more, and the steps that are left change nothing.
      rw [slices_of_isHalted hhalted, Function.iterate_fixed (step_of_isHalted hhalted)]
      simp [hpending]
    | false =>
      let after : Session :=
        { s with machine := step^[s.frameBudget] s.machine, frames := s.frames + 1 }
      have hrest := ih (s := after) hpending hhalted (count + 1)
      simp only [Bool.false_and, Bool.false_eq_true, if_false]
      refine hrest.trans ?_
      simp [after, Nat.add_assoc, Nat.add_comm 1]

end Session

namespace Cli

/-! ## The opened app -/

/-- The ports at the launch: the button is held at the point of the click. -/
def heldAt (x y : Coordinate) : InputPorts :=
  (({} : InputPorts).movePointer x y).setButton true

/-- What the host does to the machine between the first frame and the others. -/
def release (m : Machine) : Machine :=
  m.setInput (m.input.setButton false)

theorem Opened.run_eq {opened : Opened} {path : String}
    (hpending : opened.session.pending = some path)
    (config : Config) (source : String) :
    let launched := (opened.session.machine.launch path (.ok source)).2
    let perFrame := opened.session.frameBudget
    let released := release (step^[perFrame] launched)
    opened.run config (.ok source) =
      .ok (Report.ofMachine opened.program
        (1 + slices perFrame (config.maxFrames - 1) released)
        (step^[perFrame * (config.maxFrames - 1)] released)) := by
  intro launched perFrame released
  -- The first frame takes the pending program, so what follows has nothing pending.
  have hfirst : opened.session.playFrame (fun _ => .ok source) =
      (⟨some (opened.session.machine.launch path (.ok source)).1,
        (launched.burst perFrame).1, (step^[perFrame] launched).isHalted⟩,
        { opened.session with
          machine := step^[perFrame] launched
          pending := none
          frames := opened.session.frames + 1 }) := by
    simp only [Session.playFrame, Session.boundary, hpending, burst_eq_iterate]
    rfl
  have hlaunched : (opened.session.machine.launch path (.ok source)).1 =
      .ok ⟨path, (opened.session.machine.install source).1⟩ := rfl
  rw [Opened.run, hfirst, hlaunched]
  dsimp only
  cases hhalted : (step^[perFrame] launched).isHalted with
  | true =>
    have hreleased : released.isHalted = true := hhalted
    rw [slices_of_isHalted hreleased, Function.iterate_fixed (step_of_isHalted hreleased)]
    rfl
  | false =>
    have hreleased : released.isHalted = false := hhalted
    let after : Session :=
      { opened.session with
        machine := released
        pending := none
        frames := opened.session.frames + 1 }
    have hrest : after.play (fun _ => .ok source) (config.maxFrames - 1) = _ :=
      Session.playFrom_eq (s := after) rfl hreleased 0 (config.maxFrames - 1)
    have hsession : (Session.setInput { opened.session with
          machine := step^[perFrame] launched
          pending := none
          frames := opened.session.frames + 1 }
        ((step^[perFrame] launched).input.setButton false)) = after := rfl
    rw [if_neg Bool.false_ne_true, hsession, hrest, Nat.zero_add]

/-! ## The command -/

/-- What the desktop answers to a click on the icon of an app whose program can be read: the first
frame launches that program, and the report is printed. -/
structure Opens (files : Files) (config : Config) (programs : List String) (x y : Coordinate)
    (frames : Option Nat) (app : App) (report : Report) : Prop where
  launched : ∃ assembly,
    (((pressed config programs x y).click x y).2.playFrame files.readText).1.launched =
      some (.ok ⟨app.path, assembly⟩)
  printed : ∀ json, commandOn files config (.desktop programs x y frames json) =
    (.success (unlessJson json (desktopText (pressed config programs x y).desktop) ++
      unlessJson json (openText x y app.name) ++ report.text json), files)

section

variable {files : Files} {config : Config} {programs : List String} {x y : Coordinate} {app : App}
  {source : String}

/-- The path under which a report files an app. -/
theorem opened?_of_firstUnder (h : (pressed config programs x y).desktop.FirstUnder x y app) :
    opened? (pressed config programs x y) x y =
      some ⟨(pressed config programs x y).request app.path, app.name,
        (programs.find? fun path => Path.title path = app.name).getD ""⟩ := by
  have hnamed : ((pressed config programs x y).desktop.named? app.name).map App.path =
      programs.find? fun path => Path.title path = app.name :=
    Desktop.named?_ofPrograms config.iconGrid programs app.name
  simp only [opened?, Session.click_of_firstUnder h, hnamed]
  rfl

theorem opens_of_firstUnder (hunder : (pressed config programs x y).desktop.FirstUnder x y app)
    (hsource : files.readText app.path = .ok source) (frames : Option Nat) :
    let launched := (Machine.initial.launch app.path (.ok source)).2.setInput (heldAt x y)
    let more := frames.getD config.maxFrames - 1
    let released := release (step^[config.frameBudget] launched)
    Opens files config programs x y frames app
      (Report.ofMachine ((programs.find? fun path => Path.title path = app.name).getD "")
        (1 + slices config.frameBudget more released)
        (step^[config.frameBudget * more] released)) := by
  intro launched more released
  constructor
  · rw [Session.click_of_firstUnder hunder, (Session.launches_of_pending rfl).launched, hsource]
    exact ⟨_, rfl⟩
  · intro json
    let limited : Config := { config with maxFrames := frames.getD config.maxFrames }
    have hcommand : commandOn files config (.desktop programs x y frames json) =
        (desktop limited programs x y json : StateM Files Outcome) files := rfl
    have hlimited : (pressed limited programs x y).desktop.FirstUnder x y app := hunder
    have hcontent : files.readText (((pressed limited programs x y).request app.path).pending.getD
        "") = .ok source := hsource
    rw [hcommand, desktop, opened?_of_firstUnder hlimited]
    simp only [readText_bind, hcontent]
    rw [Opened.run_eq rfl]
    rfl

/-! ## The program of the report -/

/-- The report names the first program with the title of the one that was launched. That is the
launched one exactly if it is listed in front of all others with its title. -/
theorem opens_program (hunder : (pressed config programs x y).desktop.FirstUnder x y app)
    (hsource : files.readText app.path = .ok source) (frames : Option Nat) :
    ∃ report, Opens files config programs x y frames app report ∧
      (programs.find? fun path => Path.title path = Path.title app.path) = some report.program ∧
      (report.program = app.path ↔ ∃ front back, programs = front ++ app.path :: back ∧
        ∀ other ∈ front, Path.title other ≠ Path.title app.path) := by
  have happ : app ∈ (pressed config programs x y).desktop.apps := by
    obtain ⟨front, back, happs, -⟩ := hunder
    rw [happs]
    exact List.mem_append_right front List.mem_cons_self
  obtain ⟨hmem, hname⟩ := Desktop.mem_ofPrograms happ
  have hopens := opens_of_firstUnder hunder hsource frames
  rw [hname] at hopens
  -- The launched program itself has the title, so the lookup does not fail.
  obtain ⟨found, hfound⟩ : ∃ found,
      (programs.find? fun path => Path.title path = Path.title app.path) = some found :=
    Option.isSome_iff_exists.1 (List.find?_isSome.2 ⟨app.path, hmem, by simp⟩)
  rw [hfound] at hopens
  refine ⟨_, hopens, hfound, ?_⟩
  have hfirst : found = app.path ↔
      (programs.find? fun path => Path.title path = Path.title app.path) = some app.path := by
    rw [hfound, Option.some_inj]
  refine hfirst.trans ?_
  rw [List.find?_eq_some_iff_append]
  simp

end

/-- Two programs of one title in different directories. -/
def twins : Files :=
  .ofListing [("a/x.void", .text "SET 1 1\nHALT"), ("b/x.void", .text "SET 2 2\nHALT")]

/-- The second of two apps with the same name. -/
def secondTwin : App :=
  ⟨"x", "b/x.void", ⟨45, 9, 27, 27⟩⟩

theorem firstUnder_secondTwin :
    (pressed {} ["a/x.void", "b/x.void"] 50 9).desktop.FirstUnder 50 9 secondTwin :=
  Desktop.firstUnder_iff.2 (by decide)

theorem readText_secondTwin : twins.readText secondTwin.path = .ok "SET 2 2\nHALT" := by
  decide

theorem opens_program_twins :
    (pressed {} ["a/x.void", "b/x.void"] 50 9).desktop.FirstUnder 50 9 secondTwin ∧
      twins.readText secondTwin.path = .ok "SET 2 2\nHALT" ∧
      ∃ report, Opens twins {} ["a/x.void", "b/x.void"] 50 9 none secondTwin report ∧
        report.program = "a/x.void" := by
  obtain ⟨report, hopens, hfirst, -⟩ := opens_program firstUnder_secondTwin readText_secondTwin none
  have hfound : (["a/x.void", "b/x.void"].find? fun path =>
      Path.title path = Path.title secondTwin.path) = some "a/x.void" := by decide
  rw [hfound, Option.some_inj] at hfirst
  exact ⟨firstUnder_secondTwin, readText_secondTwin, report, hopens, hfirst.symm⟩

/-- The program of the report need not be the one that was launched. -/
theorem not_forall_opens_launched :
    ¬ ∀ (files : Files) (config : Config) (programs : List String) (x y : Coordinate) (app : App)
      (source : String) (frames : Option Nat) (report : Report),
      (pressed config programs x y).desktop.FirstUnder x y app →
      files.readText app.path = .ok source →
      Opens files config programs x y frames app report → report.program = app.path := by
  intro h
  have hopens := opens_of_firstUnder firstUnder_secondTwin readText_secondTwin none
  have hsame := h _ _ _ _ _ _ _ _ _ firstUnder_secondTwin readText_secondTwin hopens
  have hfound : ((["a/x.void", "b/x.void"].find? fun path =>
      Path.title path = secondTwin.name).getD "") = "a/x.void" := by decide
  exact absurd (hfound.symm.trans hsame) (by decide)

/-! ## The same run without a desktop -/

/-- Two reports that differ at most in the program that they name. -/
structure Report.SameRun (a b : Report) : Prop where
  frames_eq : a.frames = b.frames
  cycles_eq : a.cycles = b.cycles
  state_eq : a.state = b.state
  pc_eq : a.pc = b.pc
  registers_eq : a.registers = b.registers
  output_eq : a.output = b.output

theorem sameRun_of_eqExceptInput {a b : Machine} (h : EqExceptInput a b) (program other : String)
    (frames : Nat) :
    (Report.ofMachine program frames a).SameRun (Report.ofMachine other frames b) := by
  rw [h]
  constructor <;> rfl

/-- A press and its release between two stretches of steps leave no trace if the pointer is not
polled. -/
theorem eqExceptInput_release {m : Machine} {ports : InputPorts} {first second : Nat}
    (hkeys : ports.keys = m.input.keys)
    (hmouse : ∀ k < first + second, ∀ i, (step^[k] m).executes = some i →
      i.opcode ≠ .pollMouse) :
    EqExceptInput (step^[second] (step^[first] m))
      (step^[second] (release (step^[first] (m.setInput ports)))) := by
  -- The host writes twice, in front of the first stretch and behind it; keys stay as they are.
  have hpressed : EqExceptInput (step^[first] m) (step^[first] (m.setInput ports)) :=
    EqExceptInput.iterate rfl hkeys.symm fun k hk => hmouse k (Nat.lt_add_right second hk)
  have hreleased : EqExceptInput (step^[first] m) (release (step^[first] (m.setInput ports))) :=
    hpressed.of_setInput (step^[first] m).input _
  refine hreleased.iterate ?_ fun k hk => ?_
  · have hinput : (step^[first] (m.setInput ports)).input = ports := input_iterate first _
    rw [input_iterate, release, hinput]
    exact hkeys.symm
  · rw [← Function.iterate_add_apply]
    exact hmouse (k + first) (by omega)

/-- Frames of a press and a release are the frames of a run without them. -/
theorem sameRun_release {m : Machine} {ports : InputPorts} {perFrame more : Nat}
    (hrunning : m.isHalted = false) (hkeys : ports.keys = m.input.keys)
    (hmouse : ∀ k < perFrame * (more + 1), ∀ i, (step^[k] m).executes = some i →
      i.opcode ≠ .pollMouse) (program other : String) :
    let released := release (step^[perFrame] (m.setInput ports))
    (Report.ofMachine program (slices perFrame (more + 1) m)
        (step^[perFrame * (more + 1)] m)).SameRun
      (Report.ofMachine other (1 + slices perFrame more released)
        (step^[perFrame * more] released)) := by
  intro released
  have hsame : ∀ k ≤ perFrame * more,
      EqExceptInput (step^[k] (step^[perFrame] m)) (step^[k] released) := by
    intro k hk
    refine eqExceptInput_release hkeys fun j hj => hmouse j ?_
    rw [Nat.mul_succ]
    omega
  rw [slices_succ hrunning, Nat.mul_succ, Function.iterate_add_apply,
    ← EqExceptInput.slices_eq hsame, Nat.add_comm 1]
  exact sameRun_of_eqExceptInput (hsame (perFrame * more) le_rfl) program other _

/-- Ports that are not polled have no influence. A program that does not poll the pointer runs the
same by itself and behind an icon, and of any two runs under hosts whose ports agree on what is
polled, all but the ports is the same. -/
theorem unpolled_ports_inert :
    (∀ {files : Files} {config other : Config} {programs : List String} {x y : Coordinate}
      {app : App} {source : String} {frames budget limited : Option Nat},
      (pressed other programs x y).desktop.FirstUnder x y app →
      files.readText app.path = .ok source →
      budget.getD config.frameBudget = other.frameBudget →
      frames.getD config.maxFrames = limited.getD other.maxFrames →
      0 < limited.getD other.maxFrames →
      (∀ k < other.frameBudget * limited.getD other.maxFrames, ∀ i,
        (step^[k] (Machine.initial.launch app.path (.ok source)).2).executes = some i →
        i.opcode ≠ .pollMouse) →
      ∃ alone opened, Runs files config app.path source frames budget alone ∧
        Opens files other programs x y limited app opened ∧ alone.SameRun opened) ∧
    (∀ {a b : Machine} {writes others : PortWrites} {n : Nat}, EqExceptInput a b →
      (∀ k < n, ∀ i, (drive writes a k).executes = some i → ∀ port ∈ i.port?,
        (writes k (drive writes a k).input).SameAt (others k (drive others b k).input) port) →
      ∀ k ≤ n, EqExceptInput (drive writes a k) (drive others b k) ∧
        (drive others b k).executes = (drive writes a k).executes) := by
  constructor
  · intro files config other programs x y app source frames budget limited hunder hsource hbudget
      hframes hlimit hmouse
    obtain ⟨more, hmore⟩ := Nat.exists_eq_succ_of_ne_zero hlimit.ne'
    have hruns := runs_of_readText hsource config frames budget
    have hopens := opens_of_firstUnder hunder hsource limited
    rw [hmore] at hmouse
    simp only [hbudget, hframes, hmore] at hruns
    simp only [hmore, Nat.succ_sub_one] at hopens
    have hrunning : (Machine.initial.launch app.path (.ok source)).2.isHalted = false := rfl
    have hkeys : (heldAt x y).keys =
        (Machine.initial.launch app.path (.ok source)).2.input.keys := rfl
    exact ⟨_, _, hruns, hopens, sameRun_release hrunning hkeys hmouse app.path _⟩
  · intro a b writes others n hsame hpolls k hk
    have hrun := hsame.drive hpolls k hk
    exact ⟨hrun, hrun.executes_eq⟩

/-- A program that polls a key and halts. -/
def listen : String := "POLL_KEY 1 65\nHALT"

def listener : Files :=
  .ofListing [("keys.void", .text listen)]

def listening : Machine :=
  (Machine.initial.launch "keys.void" (.ok listen)).2

theorem operations_listen :
    Assembly.operations listen = [⟨.pollKey, 1, 65⟩, ⟨.halt, 0, 0⟩] := by
  decide

theorem executes_listening (k : Nat) :
    (step^[k] listening).executes = [⟨32, 1, 65⟩, ⟨0, 0, 0⟩][k]? := by
  have hpoll : listening.executes = some ⟨32, 1, 65⟩ := by
    have hslot : (Assembly.operations listen)[0]? = some ⟨.pollKey, 1, 65⟩ := by
      rw [operations_listen]
      rfl
    exact executes_slot Machine.initial hslot (by decide) rfl rfl fun _ _ _ => rfl
  have hhalt : (step^[1] listening).executes = some ⟨0, 0, 0⟩ := by
    have hslot : (Assembly.operations listen)[1]? = some ⟨.halt, 0, 0⟩ := by
      rw [operations_listen]
      rfl
    rw [Function.iterate_one, step_of_executes hpoll]
    exact executes_slot Machine.initial hslot (by decide) rfl rfl fun _ _ _ => rfl
  match k with
  | 0 => exact hpoll
  | 1 => exact hhalt
  | k + 2 =>
    have hhalted : (step^[2] listening).isHalted = true := by
      rw [Function.iterate_succ_apply', step_of_executes hhalt]
      rfl
    rw [iterate_eq_of_isHalted hhalted (Nat.le_add_left 2 k)]
    exact executes_eq_none_iff.2 hhalted

/-- The program does not poll the pointer, so the press on its icon makes no difference. -/
theorem unpolled_ports_inert_listener :
    let app : App := ⟨"keys", "keys.void", ⟨9, 9, 27, 27⟩⟩
    let touched := listening.setInput { pointerX := 5, button := true }
    (pressed { frameBudget := 1 } ["keys.void"] 9 9).desktop.FirstUnder 9 9 app ∧
      listener.readText app.path = .ok listen ∧
      (∀ k < 1 * 3, ∀ i, (step^[k] listening).executes = some i → i.opcode ≠ .pollMouse) ∧
      (∃ alone opened,
        Runs listener {} app.path listen (some 3) (some 1) alone ∧
          Opens listener { frameBudget := 1 } ["keys.void"] 9 9 (some 3) app opened ∧
          alone.SameRun opened) ∧
      EqExceptInput listening touched ∧
      (∀ k < 3, ∀ i, (drive keep listening k).executes = some i → ∀ port ∈ i.port?,
        (drive keep listening k).input.SameAt (drive keep touched k).input port) ∧
      ∀ k ≤ 3, EqExceptInput (drive keep listening k) (drive keep touched k) ∧
        (drive keep touched k).executes = (drive keep listening k).executes := by
  intro app touched
  have hpolled : ∀ k i, (step^[k] listening).executes = some i →
      i = ⟨32, 1, 65⟩ ∨ i = ⟨0, 0, 0⟩ := by
    intro k i hi
    rw [executes_listening] at hi
    simpa using List.mem_of_getElem? hi
  have hunder : (pressed { frameBudget := 1 } ["keys.void"] 9 9).desktop.FirstUnder 9 9 app :=
    Desktop.firstUnder_iff.2 (by decide)
  have hsource : listener.readText app.path = .ok listen := by decide
  have hmouse : ∀ k < 1 * 3, ∀ i, (step^[k] listening).executes = some i →
      i.opcode ≠ .pollMouse := by
    intro k _ i hi
    rcases hpolled k i hi with rfl | rfl <;> decide
  have hsame : EqExceptInput listening touched := rfl
  have hports : ∀ k < 3, ∀ i, (drive keep listening k).executes = some i → ∀ port ∈ i.port?,
      (drive keep listening k).input.SameAt (drive keep touched k).input port := by
    intro k _ i hi port hport
    rw [drive_keep] at hi ⊢
    rw [drive_keep, input_iterate, input_iterate]
    rcases hpolled k i hi with rfl | rfl
    · obtain rfl : Port.key 65 = port := Option.some_inj.1 hport
      rfl
    · exact absurd hport (Option.not_mem_none port)
  obtain ⟨hdrivers, hruns⟩ := unpolled_ports_inert
  exact ⟨hunder, hsource, hmouse,
    hdrivers hunder hsource rfl rfl (by decide) hmouse, hsame, hports, hruns hsame hports⟩

end Cli

end TernaryConsole
