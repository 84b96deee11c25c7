/-!
# InputPorts — pointer and keyboard

The host writes the ports between bursts; programs read them by polling. A selector that names no
pointer field reads zero.
-/

namespace TernaryConsole

structure InputPorts where
  pointerX : Int := 0
  pointerY : Int := 0
  button : Bool := false
  /-- The codes of the keys that are held, each once. -/
  keys : List Int := []
  deriving DecidableEq, Repr

namespace InputPorts

/-- What polling reports for a key that is held. -/
def held : Int := 13

/-! ## Host side -/

def movePointer (ports : InputPorts) (x y : Int) : InputPorts :=
  { ports with pointerX := x, pointerY := y }

def setButton (ports : InputPorts) (down : Bool) : InputPorts :=
  { ports with button := down }

def setKey (ports : InputPorts) (code : Int) (down : Bool) : InputPorts :=
  if down then { ports with keys := ports.keys.insert code }
  else { ports with keys := ports.keys.filter (· ≠ code) }

/-! ## Program side -/

def holds (ports : InputPorts) (code : Int) : Bool :=
  ports.keys.contains code

def pointerValue (ports : InputPorts) (selector : Int) : Int :=
  match selector with
  | 0 => ports.pointerX
  | 1 => ports.pointerY
  | 2 => if ports.button then 1 else 0
  | _ => 0

def keyValue (ports : InputPorts) (code : Int) : Int :=
  if ports.holds code then held else 0

/-! ## Laws -/

theorem holds_setKey (ports : InputPorts) (code other : Int) (down : Bool) :
    (ports.setKey code down).holds other =
      if other = code then down else ports.holds other := by
  cases down <;> by_cases same : other = code <;> simp [setKey, holds, same]

end InputPorts

end TernaryConsole
