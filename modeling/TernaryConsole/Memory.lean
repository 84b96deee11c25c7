import TernaryConsole.Field

/-!
# Memory — one flat row of `3^13` cells

Programs start at cell zero, the screen follows the program region, and call frames are pushed
downwards from the top:

```
0             531441          1062882                 1594323
| program region | screen cells | free ... call frames |
```

Reads outside memory give zero and writes outside are dropped.
-/

namespace TernaryConsole

/-- The number of cells. -/
def Memory.size : Nat := 1594323

structure Memory where
  cells : Array Trit
  size_eq : cells.size = Memory.size

namespace Memory

/-! ## The map -/

/-- Where programs are assembled and where the machine starts. -/
def bootAddress : Int := 0

/-- The number of cells kept for a program. -/
def programLength : Nat := 531441

/-- The number of cells an instruction takes. -/
def slotWidth : Nat := 15

/-- The address of the first call frame. -/
def stackBase : Int := 1594308

/-- The address nearest to a word. Addresses are integers of sixty-four bits. -/
def narrow (value : Int) : Int :=
  max (-9223372036854775808) (min value 9223372036854775807)

/-- The address of the slot with this number, counted from `base`. -/
def slotStart (base : Int) (slot : Nat) : Int :=
  base + (slot * slotWidth : Nat)

/-! ## Cells and fields -/

/-- Memory with every cell zero. -/
def blank : Memory :=
  ⟨Array.replicate size .zero, Array.size_replicate⟩

def cell (memory : Memory) (address : Int) : Trit :=
  Field.cellAt memory.cells address

def setCell (memory : Memory) (address : Int) (digit : Trit) : Memory :=
  ⟨Field.putCell memory.cells address digit, by simp [memory.size_eq]⟩

def load (memory : Memory) (address : Int) (length : Nat) : Int :=
  Field.read memory.cells address length

def store (memory : Memory) (address : Int) (length : Nat) (value : Int) : Memory :=
  ⟨Field.write memory.cells address length value, by simp [memory.size_eq]⟩

def storeRun (memory : Memory) (address : Int) (digits : List Trit) : Memory :=
  ⟨Field.putRun memory.cells address digits, by simp [memory.size_eq]⟩

/-! ## Spans -/

/-- Zeroes the cells from `start` up to `stop`. -/
def clear (memory : Memory) (start stop : Nat) : Memory :=
  ⟨Field.clear memory.cells start (min stop size - start), by simp [memory.size_eq]⟩

/-- The cells of a span, clipped to memory. -/
def slice (memory : Memory) (start length : Nat) : List Trit :=
  (memory.cells.extract start (start + length)).toList

def countNonZero (memory : Memory) : Nat :=
  memory.cells.foldl (fun count digit => if digit.isZero then count else count + 1) 0

instance : Inhabited Memory := ⟨blank⟩

/-! ## Laws -/

theorem cell_blank (address : Int) : blank.cell address = .zero :=
  Field.cellAt_replicate size address

theorem cell_setCell (memory : Memory) (address other : Int) (digit : Trit) :
    (memory.setCell address digit).cell other =
      if other = address ∧ 0 ≤ address ∧ address < size then digit else memory.cell other := by
  simp only [cell, setCell, Field.cellAt_putCell, memory.size_eq]

end Memory

end TernaryConsole
