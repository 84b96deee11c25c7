import TernaryConsole.Desktop.IconGrid
import TernaryConsole.Text.Blank

/-!
# Config — how the host drives the machine

The machine has no settings. A configuration says how many instructions a frame has, how many
frames a run may take, and where the icons of the desktop lie. Environment values stand above the
document, and the document above the defaults.
-/

namespace TernaryConsole

structure Config where
  /-- The instructions of a frame. -/
  frameBudget : Nat := 10000
  /-- The frames after which a run that does not halt is given up. -/
  maxFrames : Nat := 600
  iconSize : Coordinate := 27
  iconGap : Coordinate := 9
  iconOriginX : Coordinate := 9
  iconOriginY : Coordinate := 9
  deriving DecidableEq, Repr

/-- The environment values that are looked at. -/
structure Environment where
  frameBudget : Option String := none
  maxFrames : Option String := none
  deriving DecidableEq, Repr

namespace Config

/-- The grid of icons; its sides are at least one and its gaps at least zero. -/
def iconGrid (config : Config) : IconGrid :=
  { iconSize := max config.iconSize 1
    gap := max config.iconGap 0
    originX := config.iconOriginX
    originY := config.iconOriginY }

/-! ## Environment -/

def frameBudgetName : String := "VOID3_FRAME_BUDGET"

def maxFramesName : String := "VOID3_MAX_FRAMES"

/-- The number in an environment value, blanks around it aside; none if it is no number. -/
def environmentNumber? (value : Option String) : Option Nat :=
  value.bind fun text => Decimal.count? (Text.trim text.toList)

/-- Applies the environment values that are numbers. -/
def override (config : Config) (environment : Environment) : Config :=
  { config with
    frameBudget := (environmentNumber? environment.frameBudget).getD config.frameBudget
    maxFrames := (environmentNumber? environment.maxFrames).getD config.maxFrames }

/-! ## Written form -/

/-- The configuration as a document on one line. -/
def text (config : Config) : String :=
  "\x7b\"frame_budget\":" ++ Nat.repr config.frameBudget ++ ",\"max_frames\":" ++
    Nat.repr config.maxFrames ++ ",\"icon_size\":" ++ Int.repr config.iconSize ++
    ",\"icon_gap\":" ++ Int.repr config.iconGap ++ ",\"icon_origin\":[" ++
    Int.repr config.iconOriginX ++ "," ++ Int.repr config.iconOriginY ++ "]\x7d"

end Config

end TernaryConsole
