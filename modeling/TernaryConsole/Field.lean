import TernaryConsole.Numeral

/-!
# Field — numbers stored in a row of cells

A field is a window of cells that holds a numeral, lowest digit at the lowest address. Addresses
are integers of any size: a cell outside the row reads as zero and a write to it is dropped, so a
window may hang off either end.

The view of a window is `run`; `read_eq_value_run` says that reading a field is reading its run.
-/

namespace TernaryConsole

namespace Field

/-! ## Single cells -/

def cellAt (cells : Array Trit) : Int → Trit
  | .ofNat index => cells.getD index .zero
  | .negSucc _ => .zero

def putCell (cells : Array Trit) (address : Int) (digit : Trit) : Array Trit :=
  match address with
  | .ofNat index => cells.setIfInBounds index digit
  | .negSucc _ => cells

/-! ## Windows -/

/-- The digits in the window of `length` cells from `address`. -/
def run (cells : Array Trit) (address : Int) : Nat → List Trit
  | 0 => []
  | length + 1 => cellAt cells address :: run cells (address + 1) length

def putRun (cells : Array Trit) (address : Int) : List Trit → Array Trit
  | [] => cells
  | digit :: digits => putRun (putCell cells address digit) (address + 1) digits

/-- The number in the window of `length` cells from `address`. -/
def read (cells : Array Trit) (address : Int) : Nat → Int
  | 0 => 0
  | length + 1 => (cellAt cells address).toInt + 3 * read cells (address + 1) length

/-- Stores the lowest `length` digits of `value`. -/
def write (cells : Array Trit) (address : Int) (length : Nat) (value : Int) : Array Trit :=
  putRun cells address (Numeral.digits length value)

/-- Zeroes `count` cells from `start`. -/
def clear (cells : Array Trit) (start : Nat) : Nat → Array Trit
  | 0 => cells
  | count + 1 => clear (cells.setIfInBounds start .zero) (start + 1) count

/-! ## Laws -/

theorem read_eq_value_run (cells : Array Trit) (address : Int) (length : Nat) :
    read cells address length = Numeral.value (run cells address length) := by
  induction length generalizing address with
  | zero => rfl
  | succ length ih => simp [read, run, Numeral.value, ih]

theorem cellAt_replicate (count : Nat) (address : Int) :
    cellAt (Array.replicate count .zero) address = .zero := by
  cases address with
  | negSucc n => rfl
  | ofNat index => by_cases inside : index < count <;> simp [cellAt, inside]

theorem cellAt_putCell (cells : Array Trit) (address other : Int) (digit : Trit) :
    cellAt (putCell cells address digit) other =
      if other = address ∧ 0 ≤ address ∧ address < cells.size then digit
      else cellAt cells other := by
  cases address with
  | negSucc n => simp [putCell]
  | ofNat index =>
    cases other with
    | negSucc n => simp [cellAt]
    | ofNat position =>
      -- Both addresses are indices: the write is an array update at `index`.
      by_cases same : position = index
      · subst same
        by_cases inside : position < cells.size <;> simp [cellAt, putCell, inside]
      · have apart : ¬ (position : Int) = index := by omega
        simp [cellAt, putCell, apart, Ne.symm same]

@[simp]
theorem length_run (cells : Array Trit) (address : Int) (length : Nat) :
    (run cells address length).length = length := by
  induction length generalizing address with
  | zero => rfl
  | succ length ih => simp [run, ih]

@[simp]
theorem size_putCell (cells : Array Trit) (address : Int) (digit : Trit) :
    (putCell cells address digit).size = cells.size := by
  cases address <;> simp [putCell]

@[simp]
theorem size_putRun (cells : Array Trit) (address : Int) (digits : List Trit) :
    (putRun cells address digits).size = cells.size := by
  induction digits generalizing cells address with
  | nil => rfl
  | cons digit digits ih => simp [putRun, ih]

@[simp]
theorem size_write (cells : Array Trit) (address : Int) (length : Nat) (value : Int) :
    (write cells address length value).size = cells.size := by
  simp [write]

@[simp]
theorem size_clear (cells : Array Trit) (start count : Nat) :
    (clear cells start count).size = cells.size := by
  induction count generalizing cells start with
  | zero => rfl
  | succ count ih => simp [clear, ih]

end Field

end TernaryConsole
