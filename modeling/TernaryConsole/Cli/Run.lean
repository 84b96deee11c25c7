import TernaryConsole.Cli.Report
import TernaryConsole.Desktop.Session

/-!
# Cli.Run — runs of programs

A program is run by itself, in bursts while the machine runs, or as an app of a desktop, in the
frames of a session. Both are functions of the content of the program file, and both end in a
report.
-/

namespace TernaryConsole

namespace Cli

/-! ## A program by itself -/

/-- Bursts of `budget` steps, added to the `count` ones, while the machine runs. -/
def burstsFrom (budget count : Nat) : Nat → Machine → Nat × Machine
  | 0, m => (count, m)
  | limit + 1, m =>
    if m.isRunning then burstsFrom budget (count + 1) limit (m.burst budget).2 else (count, m)

/-- Bursts of `budget` steps that add what they execute to a trace. -/
def tracedFrom (budget count : Nat) (trace : Array Machine.TraceEntry) :
    Nat → Machine → Nat × Array Machine.TraceEntry × Machine
  | 0, m => (count, trace, m)
  | limit + 1, m =>
    if m.isRunning then
      let (trace, m) := Machine.traceFrom trace budget m
      tracedFrom budget (count + 1) trace limit m
    else
      (count, trace, m)

/-- A finished run of a program. -/
structure Run where
  assembly : Assembly.Report
  /-- The executed instructions, if they were asked for. -/
  trace : Array Machine.TraceEntry
  report : Report

/-- Launches a program on a new machine and runs it until it halts, for as many frames as the
configuration allows. -/
def runProgram (config : Config) (path : String) (content : Except FileError String)
    (traced : Bool) : Except LaunchError Run :=
  match Machine.initial.launch path content with
  | (.error error, _) => .error error
  | (.ok launched, m) =>
    if traced then
      let (frames, trace, m) := tracedFrom config.frameBudget 0 #[] config.maxFrames m
      .ok ⟨launched.assembly, trace, Report.ofMachine path frames m⟩
    else
      let (frames, m) := burstsFrom config.frameBudget 0 config.maxFrames m
      .ok ⟨launched.assembly, #[], Report.ofMachine path frames m⟩

/-! ## An app of a desktop -/

/-- A session with programs as apps and the button held at a point. -/
def pressed (config : Config) (programs : List String) (x y : Coordinate) : Session :=
  let s := Session.ofBundles config (programs.map Bundle.ofPath)
  s.setInput ((s.machine.input.movePointer x y).setButton true)

/-- A session in which a click has requested an app. -/
structure Opened where
  session : Session
  name : String
  /-- The path that the report names: that of the first app with the name. -/
  program : String

/-- Clicks at a point of a session. -/
def opened? (s : Session) (x y : Coordinate) : Option Opened :=
  match s.click x y with
  | (some name, s) => some ⟨s, name, ((s.desktop.named? name).map App.path).getD ""⟩
  | (none, _) => none

/-- Runs an opened app. The first frame launches it with the button held, whatever the limit; the
others follow while the limit allows. -/
def Opened.run (opened : Opened) (config : Config) (content : Except FileError String) :
    Except LaunchError Report :=
  let (first, s) := opened.session.playFrame fun _ => content
  match first.launched with
  | some (.error error) => .error error
  | _ =>
    let s := s.setInput (s.machine.input.setButton false)
    if first.halted then
      .ok (Report.ofMachine opened.program 1 s.machine)
    else
      let (more, s) := s.play (fun _ => content) (config.maxFrames - 1)
      .ok (Report.ofMachine opened.program (1 + more) s.machine)

end Cli

end TernaryConsole
