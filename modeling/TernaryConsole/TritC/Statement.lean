import TernaryConsole.Opcode

/-!
# TritC.Statement — the statements of Trit-C

Trit-C has one statement a line: assignments, tests with jumps, and calls of the console's
devices. Variables and labels are names; every value is a word.
-/

namespace TernaryConsole

namespace TritC

abbrev Name := String

/-- A value in a statement: a number as written, or the value of a variable. -/
inductive Operand
  | literal (value : Int)
  | variable (name : Name)
  deriving DecidableEq, Repr

inductive Operator
  | add
  | sub
  | mul
  | div
  deriving DecidableEq, Repr

inductive Test
  | equal
  | notEqual
  deriving DecidableEq, Repr

inductive Statement
  | label (name : Name)
  | halt
  | rect
  | branch (subject : Name) (test : Test) (value : Operand) (target : Name)
  | goto (target : Name)
  | color (red green blue : Operand)
  | pos (x y : Operand)
  | size (width height : Operand)
  | out (value : Operand)
  | assign (target : Name) (value : Operand)
  | compute (target left : Name) (operator : Operator) (right : Name)
  deriving DecidableEq, Repr

/-! ## Variables -/

def Operand.names : Operand → List Name
  | .literal _ => []
  | .variable name => [name]

/-- The variables of a statement, in the order in which they ask for registers. -/
def Statement.names : Statement → List Name
  | .label _ => []
  | .halt => []
  | .rect => []
  | .branch subject _ value _ => subject :: value.names
  | .goto _ => []
  | .color red green blue => red.names ++ green.names ++ blue.names
  | .pos x y => x.names ++ y.names
  | .size width height => width.names ++ height.names
  | .out value => value.names
  | .assign target value => target :: value.names
  | .compute target left _ right => [target, left, right]

/-! ## Operators -/

def Operator.ofChar? : Char → Option Operator
  | '+' => some .add
  | '-' => some .sub
  | '*' => some .mul
  | '/' => some .div
  | _ => none

def Operator.opcode : Operator → Opcode
  | .add => .add
  | .sub => .sub
  | .mul => .mul
  | .div => .div

end TritC

end TernaryConsole
