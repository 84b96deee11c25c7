import TernaryConsole.Desktop.IconGrid
import TernaryConsole.Machine.Launch

/-!
# Desktop — the programs behind the icons

Apps are registered in order, each in the next slot of the icon grid. A point belongs to the first
app whose icon contains it.
-/

namespace TernaryConsole

/-- An app as it is shipped. -/
structure Bundle where
  name : String
  path : String
  deriving DecidableEq, Repr

/-- A bundle named after its program file. -/
def Bundle.ofPath (path : String) : Bundle :=
  ⟨Path.title path, path⟩

/-- A registered app. -/
structure App where
  name : String
  path : String
  icon : Rect
  deriving DecidableEq, Repr

structure Desktop where
  grid : IconGrid
  apps : List App
  deriving DecidableEq, Repr

namespace Desktop

def empty (grid : IconGrid) : Desktop :=
  ⟨grid, []⟩

/-- The app that a bundle becomes in the next free slot. -/
def place (desktop : Desktop) (bundle : Bundle) : App :=
  ⟨bundle.name, bundle.path, desktop.grid.icon desktop.apps.length⟩

def register (desktop : Desktop) (bundle : Bundle) : Desktop :=
  { desktop with apps := desktop.apps ++ [desktop.place bundle] }

def ofBundles (grid : IconGrid) (bundles : List Bundle) : Desktop :=
  bundles.foldl register (empty grid)

/-- The first app whose icon contains a point. -/
def appAt? (desktop : Desktop) (x y : Coordinate) : Option App :=
  desktop.apps.find? fun app => app.icon.contains x y

/-- The first app of a name. -/
def named? (desktop : Desktop) (name : String) : Option App :=
  desktop.apps.find? fun app => app.name = name

/-- Launches the app under a point, if there is one. -/
def launchUnder (desktop : Desktop) (read : String → Except FileError String) (m : Machine)
    (x y : Coordinate) : Option (Except LaunchError LaunchReport) × Machine :=
  match desktop.appAt? x y with
  | some app =>
    let (result, m) := m.launch app.path (read app.path)
    (some result, m)
  | none => (none, m)

end Desktop

end TernaryConsole
