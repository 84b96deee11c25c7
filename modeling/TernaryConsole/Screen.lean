import TernaryConsole.Memory

/-!
# Screen — the pixels in memory

The screen is 243 pixels wide and 243 high, stored row by row behind the program region. A pixel
is three colour channels of three trits. Points off the screen have no address: filling skips
them and reading gives black.
-/

namespace TernaryConsole

/-- A colour of three channels. -/
structure Colour where
  red : Int := 0
  green : Int := 0
  blue : Int := 0
  deriving DecidableEq, Repr

namespace Screen

/-! ## Geometry -/

def channelWidth : Nat := 3

/-- The largest value of a channel. -/
def channelMax : Int := 13

/-- The address of the first pixel. -/
def base : Nat := Memory.programLength

/-- The number of cells of the screen, nine for each pixel. -/
def length : Nat := 243 * 243 * 9

/-- The address of a pixel on the screen. -/
def addressOf? (x y : Int) : Option Int :=
  if 0 ≤ x ∧ x < 243 ∧ 0 ≤ y ∧ y < 243 then some (base + (y * 243 + x) * 9) else none

/-! ## Filling -/

/-- The nine trits of a pixel. -/
def pixelDigits (colour : Colour) : List Trit :=
  Numeral.digits channelWidth colour.red ++ Numeral.digits channelWidth colour.green ++
    Numeral.digits channelWidth colour.blue

def paint (memory : Memory) (digits : List Trit) (x y : Int) : Memory :=
  match addressOf? x y with
  | some address => memory.storeRun address digits
  | none => memory

/-- Paints `count` pixels of row `y` from `x` on. -/
def paintRow (memory : Memory) (digits : List Trit) (x y : Int) : Nat → Memory
  | 0 => memory
  | count + 1 => paintRow (paint memory digits x y) digits (x + 1) y count

/-- Paints `rows` rows of `count` pixels from row `y` on. -/
def paintRows (memory : Memory) (digits : List Trit) (x y : Int) (count : Nat) : Nat → Memory
  | 0 => memory
  | rows + 1 => paintRows (paintRow memory digits x y count) digits x (y + 1) count rows

/-- How many of the `extent` pixels from `start` lie between the first one on the screen and its
edge. -/
def visible (start extent : Int) : Nat :=
  (min (start + max extent 0) 243 - max start 0).toNat

/-- Paints the part of a rectangle that lies on the screen. No more pixels are visited than the
screen has. -/
def fill (memory : Memory) (colour : Colour) (x y width height : Int) : Memory :=
  paintRows memory (pixelDigits colour) (max x 0) (max y 0) (visible x width) (visible y height)

/-! ## Reading -/

def pixel (memory : Memory) (x y : Int) : Colour :=
  match addressOf? x y with
  | some address =>
    ⟨memory.load address channelWidth, memory.load (address + 3) channelWidth,
      memory.load (address + 6) channelWidth⟩
  | none => {}

/-- The display intensity of a channel, 0 to 255: the channel range is spread evenly and rounded
to the nearest integer, a half upwards. Values out of range take the nearest end. -/
def intensity (value : Int) : Nat :=
  let clipped := max (-channelMax) (min value channelMax)
  ((2 * (clipped + channelMax) * 255 + 26) / 52).toNat

end Screen

end TernaryConsole
