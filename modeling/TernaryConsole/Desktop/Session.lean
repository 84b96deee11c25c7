import TernaryConsole.Config
import TernaryConsole.Desktop
import TernaryConsole.Machine.Step

/-!
# Desktop.Session — a desktop that runs frame by frame

A session has one machine and one desktop. Launch requests wait for the next frame: they are
applied before any instruction of it, and a later request takes the place of an earlier one.

Reading files is a parameter of the frames, so a session itself touches none.
-/

namespace TernaryConsole

structure Session where
  machine : Machine
  desktop : Desktop
  /-- The instructions of a frame. -/
  frameBudget : Nat
  /-- The path of the program that the next frame launches. -/
  pending : Option String
  /-- The number of frames so far. -/
  frames : Nat

/-- What happened in a frame. -/
structure FrameReport where
  launched : Option (Except LaunchError LaunchReport)
  executed : Nat
  halted : Bool

namespace Session

def ofBundles (config : Config) (bundles : List Bundle) : Session :=
  { machine := .initial
    desktop := Desktop.ofBundles config.iconGrid bundles
    frameBudget := config.frameBudget
    pending := none
    frames := 0 }

/-! ## Requests -/

def request (s : Session) (path : String) : Session :=
  { s with pending := some path }

/-- A click requests the app under the point; its name is the answer. -/
def click (s : Session) (x y : Coordinate) : Option String × Session :=
  match s.desktop.appAt? x y with
  | some app => (some app.name, s.request app.path)
  | none => (none, s)

def setInput (s : Session) (input : InputPorts) : Session :=
  { s with machine := s.machine.setInput input }

/-! ## Frames -/

/-- Applies the pending request. -/
def boundary (read : String → Except FileError String) (s : Session) :
    Option (Except LaunchError LaunchReport) × Session :=
  match s.pending with
  | some path =>
    let (result, machine) := s.machine.launch path (read path)
    (some result, { s with machine := machine, pending := none })
  | none => (none, s)

/-- Applies the pending request and runs one burst. -/
def playFrame (read : String → Except FileError String) (s : Session) :
    FrameReport × Session :=
  let (launched, s) := s.boundary read
  let (executed, machine) := s.machine.burst s.frameBudget
  (⟨launched, executed, machine.isHalted⟩, { s with machine := machine, frames := s.frames + 1 })

/-- At most `limit` frames, added to the `count` ones. -/
def playFrom (read : String → Except FileError String) (count : Nat) :
    Nat → Session → Nat × Session
  | 0, s => (count, s)
  | limit + 1, s =>
    let (report, s) := s.playFrame read
    if report.halted && s.pending.isNone then (count + 1, s)
    else playFrom read (count + 1) limit s

/-- Runs frames until the machine halts with nothing pending, at most `limit`: their number and
the session after. -/
def play (read : String → Except FileError String) (limit : Nat) (s : Session) : Nat × Session :=
  playFrom read 0 limit s

end Session

end TernaryConsole
