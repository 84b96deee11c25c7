import TernaryConsole.Text.Decimal
import TernaryConsole.Text.Search
import TernaryConsole.TritC.Statement

/-!
# TritC.Reader — from lines to statements

A line is read by itself: what it says depends on no other line. Comments start at `//`, and
semicolons at the end are dropped. The forms are tried in a fixed order, and the first one that
claims a line decides: a line that ends in a colon is a label or nothing. A line that is no
statement is skipped.
-/

namespace TernaryConsole

namespace TritC

namespace Reader

/-! ## Names and operands -/

def isNameStart (c : Char) : Bool :=
  c.isAlpha || c = '_'

def isNameChar (c : Char) : Bool :=
  c.isAlphanum || c = '_'

/-- Words that name no variable and no label. -/
def keywords : List String :=
  ["true", "false", "null", "if", "goto", "halt"]

def isName : List Char → Bool
  | [] => false
  | c :: text =>
    isNameStart c && text.all isNameChar && !keywords.contains (String.ofList (c :: text))

def name? (text : List Char) : Option Name :=
  if isName text then some (String.ofList text) else none

/-- The greatest number that a literal may be, `2^127 - 1`. -/
def literalMax : Int := 170141183460469231731687303715884105727

/-- A constant, a variable or a number. Numbers have at most a hundred and twenty-eight bits. -/
def operand? (text : List Char) : Option Operand :=
  if text = "true".toList then some (.literal 1)
  else if text = "false".toList then some (.literal (-1))
  else if text = "null".toList then some (.literal 0)
  else
    match name? text with
    | some name => some (.variable name)
    | none => (Decimal.between? (-literalMax - 1) literalMax text).map .literal

/-! ## Forms -/

/-- What follows a keyword that stands as a whole word. -/
def keyword? (word : String) (text : List Char) : Option (List Char) :=
  (Text.strip? word.toList text).filter fun rest => !(rest.head?.any isNameChar)

/-- The statements that are single words, in any case. -/
def plain? (text : List Char) : Option Statement :=
  let word := String.ofList (text.map Char.toLower)
  if word = "halt" ∨ word = "halt()" then some .halt
  else if word = "rect" ∨ word = "rect()" then some .rect
  else none

/-- The two sides of a condition. -/
def condition? (text : List Char) : Option (List Char × Test × List Char) :=
  match Text.splitOnce "==".toList text with
  | some (left, right) => some (Text.trim left, .equal, Text.trim right)
  | none =>
    (Text.splitOnce "!=".toList text).map fun sides =>
      (Text.trim sides.1, .notEqual, Text.trim sides.2)

/-- What follows `if`: a condition in brackets and a jump. -/
def branch? (rest : List Char) : Option Statement := do
  let inner ← Text.strip? ['('] (Text.trim rest)
  let (condition, tail) ← Text.splitOnce [')'] inner
  let label ← keyword? "goto" (Text.trim tail)
  let (left, test, right) ← condition? condition
  let subject ← name? left
  let target ← name? (Text.trim label)
  let value ← operand? right
  return .branch subject test value target

/-- A name and its arguments in brackets. -/
def call? (text : List Char) : Option (Name × List (List Char)) := do
  let (front, rest) ← Text.splitOnce ['('] text
  let inner ← Text.stripLast? ')' (Text.trimEnd rest)
  let name ← name? (Text.trim front)
  if (Text.trim inner).isEmpty then
    return (name, [])
  else
    return (name, (inner.splitOn ',').map Text.trim)

/-- The device calls by name and number of arguments. -/
def device? (name : Name) (arguments : List (List Char)) : Option Statement := do
  match name, arguments with
  | "color", [red, green, blue] =>
    return .color (← operand? red) (← operand? green) (← operand? blue)
  | "pos", [x, y] => return .pos (← operand? x) (← operand? y)
  | "size", [width, height] => return .size (← operand? width) (← operand? height)
  | "out", [value] => return .out (← operand? value)
  | _, _ => none

/-- Two names around the operator at a position. -/
def binaryAt? (text : List Char) (position : Nat) : Option (Name × Operator × Name) := do
  let operator ← Operator.ofChar? (← text[position]?)
  let left ← name? (Text.trim (text.take position))
  let right ← name? (Text.trim (text.drop (position + 1)))
  return (left, operator, right)

/-- Two names around an operator, the first that has names on both sides. -/
def binary? (text : List Char) : Option (Name × Operator × Name) :=
  (List.range' 1 (text.length - 1)).findSome? (binaryAt? text)

def assign? (left right : List Char) : Option Statement := do
  let target ← name? left
  match operand? right with
  | some value => return .assign target value
  | none =>
    let (first, operator, second) ← binary? right
    return .compute target first operator second

/-- The forms that follow labels, single words and keywords: calls and assignments. -/
def remaining? (text : List Char) : Option Statement :=
  if text.head? = some '*' then
    none
  else
    match call? text with
    | some (name, arguments) => device? name arguments
    | none =>
      match Text.splitOnce ['='] text with
      | some (left, right) => assign? (Text.trim left) (Text.trim right)
      | none => none

/-- The statement of a line without comment and surrounding blanks. -/
def statement? (text : List Char) : Option Statement :=
  match Text.stripLast? ':' text with
  | some label => (name? (Text.trim label)).map .label
  | none =>
    match plain? text with
    | some statement => some statement
    | none =>
      match keyword? "if" text with
      | some rest => branch? rest
      | none =>
        match keyword? "goto" text with
        | some label => (name? (Text.trim label)).map .goto
        | none => remaining? text

/-! ## Lines -/

/-- A line without comment, surrounding blanks and closing semicolons. -/
def code (line : List Char) : List Char :=
  Text.trimEnd (Text.dropTrailing (· = ';') (Text.trim (Text.before "//".toList line)))

/-- A line with text, numbered from one. -/
structure Line where
  number : Nat
  text : List Char
  deriving DecidableEq, Repr

def lines (source : String) : List Line :=
  ((Text.lines source.toList).zipIdx 1).filterMap fun entry =>
    let text := code entry.1
    if text.isEmpty then none else some ⟨entry.2, text⟩

end Reader

end TritC

end TernaryConsole
