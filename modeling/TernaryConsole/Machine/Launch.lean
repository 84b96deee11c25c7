import TernaryConsole.Assembly
import TernaryConsole.Files
import TernaryConsole.Machine
import TernaryConsole.Screen

/-!
# Machine.Launch — putting a program into a machine

Installing a program clears the program region and the screen, stores the program at the boot
address, resets the processor and lets it run. A launch installs what reading a path answered; if
that is an error, the machine stays as it is.
-/

namespace TernaryConsole

/-- Why a launch fails. -/
inductive LaunchError
  | imageNotFound (path : String)
  | unreadable (path : String) (cause : FileError)
  deriving DecidableEq, Repr

namespace LaunchError

/-- The launch error of a path that cannot be read. -/
def ofFileError (path : String) : FileError → LaunchError
  | .notFound => .imageNotFound path
  | cause => .unreadable path cause

def message : LaunchError → String
  | .imageNotFound path => "program image not found: " ++ path
  | .unreadable path cause => "cannot read program image " ++ path ++ ": " ++ cause.message

end LaunchError

/-- What a launch did. -/
structure LaunchReport where
  path : String
  assembly : Assembly.Report
  deriving DecidableEq, Repr

namespace Machine

/-- The end of the cells that are cleared before a program is stored: program region and
screen. -/
def clearedEnd : Nat := Screen.base + Screen.length

/-- Puts a program text into the machine and starts it. -/
def install (m : Machine) (source : String) : Assembly.Report × Machine :=
  let (memory, report) := (m.memory.clear 0 clearedEnd).assemble source Memory.bootAddress
  (report, { m with memory := memory }.reset.resume)

/-- Launches the program at a path, given what reading that path answered. -/
def launch (m : Machine) (path : String) (content : Except FileError String) :
    Except LaunchError LaunchReport × Machine :=
  match content with
  | .ok source =>
    let (report, m) := m.install source
    (.ok ⟨path, report⟩, m)
  | .error cause => (.error (LaunchError.ofFileError path cause), m)

end Machine

end TernaryConsole
