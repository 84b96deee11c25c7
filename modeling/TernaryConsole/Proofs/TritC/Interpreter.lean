import Mathlib.Logic.Function.Basic
import TernaryConsole.Proofs.Screen
import TernaryConsole.TritC.Reader

/-!
# Proofs.TritC.Interpreter — the meaning of Trit-C sources

A source means a run over configurations: the values of its variables, the arguments of the next
fill, the screen and everything that was put out. There are no registers, no addresses and no
memory here. Values are exact integers reduced to balanced residues, and a program is the list of
its accepted statements.
-/

namespace TernaryConsole

namespace TritC

/-! ## Programs -/

/-- The statements of a list of lines; lines that say nothing are left out. -/
def accepted (lines : List Reader.Line) : List Statement :=
  lines.filterMap fun line => Reader.statement? line.text

/-- The statements of a source. -/
def statements (source : String) : List Statement :=
  accepted (Reader.lines source)

/-- The position behind a label. -/
def behind (program : List Statement) (label : Name) : Nat :=
  program.idxOf (.label label) + 1

/-! ## Values -/

/-- The exact result of an operator, reduced to fifty trits. A quotient is cut off towards zero,
and a zero divisor gives zero. -/
def Operator.result : Operator → Int → Int → Int
  | .add, a, b => (a + b).bmod (3 ^ 50)
  | .sub, a, b => (a - b).bmod (3 ^ 50)
  | .mul, a, b => (a * b).bmod (3 ^ 50)
  | .div, a, b => if b = 0 then 0 else (a.tdiv b).bmod (3 ^ 50)

def Test.holds : Test → Int → Int → Prop
  | .equal, a, b => a = b
  | .notEqual, a, b => a ≠ b

instance (test : Test) (a b : Int) : Decidable (test.holds a b) :=
  match test with
  | .equal => inferInstanceAs (Decidable (a = b))
  | .notEqual => inferInstanceAs (Decidable (a ≠ b))

/-! ## Configurations -/

/-- What a source program can tell apart. -/
structure Config where
  /-- The position of the next statement. -/
  position : Nat := 0
  /-- The values of the variables. -/
  store : Name → Int := fun _ => 0
  /-- Colour, corner and sides of the next fill. -/
  arguments : Fin 7 → Int := fun _ => 0
  /-- The colour of each point. -/
  screen : Int → Int → Colour := fun _ _ => {}
  /-- All values that were put out, oldest first. -/
  output : List Int := []
  stopped : Bool := false

namespace Config

/-- A literal stands for its balanced residue modulo `3^6`. -/
def eval (c : Config) : Operand → Int
  | .literal value => value.bmod (3 ^ 6)
  | .variable name => c.store name

def assign (c : Config) (name : Name) (value : Int) : Config :=
  { c with store := Function.update c.store name value }

def argue (c : Config) (slot : Fin 7) (value : Int) : Config :=
  { c with arguments := Function.update c.arguments slot value }

def goto (c : Config) (position : Nat) : Config :=
  { c with position := position }

/-- Gives the points of the rectangle in the arguments their colour. -/
def fill (c : Config) : Config :=
  { c with
    screen := fun px py =>
      if Screen.OnScreen px py ∧
          Screen.Covers (c.arguments 3) (c.arguments 4) (c.arguments 5) (c.arguments 6) px py then
        ⟨(c.arguments 0).bmod 27, (c.arguments 1).bmod 27, (c.arguments 2).bmod 27⟩
      else
        c.screen px py }

def emit (c : Config) (value : Int) : Config :=
  { c with output := c.output ++ [value] }

def stop (c : Config) : Config :=
  { c with stopped := true }

theorem store_assign_self (c : Config) (name : Name) (value : Int) :
    (c.assign name value).store name = value := by
  simp only [assign, Function.update_self]

theorem store_assign_of_ne (c : Config) {name other : Name} (value : Int) (h : name ≠ other) :
    (c.assign name value).store other = c.store other := by
  simp only [assign, Function.update_of_ne (Ne.symm h)]

theorem assign_assign (c : Config) (name : Name) (first second : Int) :
    (c.assign name first).assign name second = c.assign name second := by
  simp only [assign, Function.update_idem]

theorem arguments_argue_self (c : Config) (slot : Fin 7) (value : Int) :
    (c.argue slot value).arguments slot = value := by
  simp only [argue, Function.update_self]

theorem arguments_argue_of_ne (c : Config) {slot other : Fin 7} (value : Int) (h : slot ≠ other) :
    (c.argue slot value).arguments other = c.arguments other := by
  simp only [argue, Function.update_of_ne (Ne.symm h)]

/-! ## Runs -/

/-- The effect of a statement on a configuration whose position is past it. -/
def effect (program : List Statement) (c : Config) : Statement → Config
  | .label _ => c
  | .halt => c.stop
  | .rect => c.fill
  | .branch subject test value target =>
    if test.holds (c.store subject) (c.eval value) then c.goto (behind program target) else c
  | .goto target => c.goto (behind program target)
  | .color red green blue =>
    ((c.argue 0 (c.eval red)).argue 1 (c.eval green)).argue 2 (c.eval blue)
  | .pos x y => (c.argue 3 (c.eval x)).argue 4 (c.eval y)
  | .size width height => (c.argue 5 (c.eval width)).argue 6 (c.eval height)
  | .out value => c.emit (c.eval value)
  | .assign target value => c.assign target (c.eval value)
  | .compute target left operator right =>
    c.assign target (operator.result (c.store left) (c.store right))

/-- One statement; behind the last one the program stops. -/
def next (program : List Statement) (c : Config) : Config :=
  if c.stopped then c
  else
    match program[c.position]? with
    | some statement => (c.goto (c.position + 1)).effect program statement
    | none => c.stop

/-- The configuration after a number of statements. -/
def run (program : List Statement) : Nat → Config
  | 0 => {}
  | n + 1 => (run program n).next program

theorem next_of_stopped {program : List Statement} {c : Config} (h : c.stopped = true) :
    c.next program = c :=
  if_pos h

theorem next_of_statement {program : List Statement} {c : Config} {statement : Statement}
    (hrunning : c.stopped = false) (h : program[c.position]? = some statement) :
    c.next program = (c.goto (c.position + 1)).effect program statement := by
  simp [next, hrunning, h]

theorem next_of_end {program : List Statement} {c : Config} (hrunning : c.stopped = false)
    (h : program[c.position]? = none) : c.next program = c.stop := by
  simp [next, hrunning, h]

/-- What has stopped stays stopped. -/
theorem run_succ_of_stopped {program : List Statement} {n : Nat}
    (h : (run program n).stopped = true) : run program (n + 1) = run program n :=
  next_of_stopped h

theorem running_of_running_succ {program : List Statement} {n : Nat}
    (h : (run program (n + 1)).stopped = false) : (run program n).stopped = false := by
  cases hstopped : (run program n).stopped with
  | false => rfl
  | true =>
    rw [run_succ_of_stopped hstopped, hstopped] at h
    exact h

end Config

end TritC

end TernaryConsole
