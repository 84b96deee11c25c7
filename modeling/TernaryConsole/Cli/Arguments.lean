import TernaryConsole.Coordinate
import TernaryConsole.Text.Blank
import TernaryConsole.Text.Search

/-!
# Cli.Arguments — reading the command line

A command line is read from left to right, at the top level up to the name of a command and then
at the level of that command. An option may be given once at each level. Its value stands in the
next argument or is attached to it, and a value that begins with a dash has to be attached.
Switches of one letter may be joined. After a double dash everything is a value.

Whatever does not fit is a usage error, and which one does not matter: `parse` answers `none`.
-/

namespace TernaryConsole

namespace Cli

inductive Command
  | run (program : String) (frames budget : Option Nat) (trace json : Bool)
  | disasm (program : String)
  | desktop (programs : List String) (clickX clickY : Coordinate) (frames : Option Nat)
      (json : Bool)
  | compile (source : String) (output : Option String)
  deriving DecidableEq, Repr

/-- What a command line asks for. -/
inductive Request
  | version
  | execute (config : Option String) (command : Option Command)
  deriving DecidableEq, Repr

namespace Arguments

/-! ## Options -/

inductive Flag
  | config
  | version
  | frames
  | budget
  | trace
  | json
  | click
  | output
  deriving DecidableEq, Repr

namespace Flag

def long : Flag → String
  | .config => "config"
  | .version => "version"
  | .frames => "frames"
  | .budget => "budget"
  | .trace => "trace"
  | .json => "json"
  | .click => "click"
  | .output => "output"

def short? : Flag → Option Char
  | .version => some 'V'
  | .frames => some 'f'
  | .budget => some 'b'
  | .trace => some 't'
  | .output => some 'o'
  | .config | .json | .click => none

/-- Whether a value follows. -/
def takesValue : Flag → Bool
  | .config | .frames | .budget | .click | .output => true
  | .version | .trace | .json => false

end Flag

/-- Where an argument stands: in front of a command or behind it. -/
inductive Level
  | top
  | run
  | disasm
  | desktop
  | compile
  deriving DecidableEq, Repr

namespace Level

def ofName? : String → Option Level
  | "run" => some .run
  | "disasm" => some .disasm
  | "desktop" => some .desktop
  | "compile" => some .compile
  | _ => none

def flags : Level → List Flag
  | .top => [.config, .version]
  | .run => [.frames, .budget, .trace, .json, .config]
  | .disasm => [.config]
  | .desktop => [.click, .frames, .json, .config]
  | .compile => [.output, .config]

end Level

/-! ## Values -/

/-- Two coordinates around the first comma, blanks around them aside. -/
def point? (value : String) : Option (Coordinate × Coordinate) := do
  let (x, y) ← Text.splitOnce [','] value.toList
  return (← Coordinate.ofText? (Text.trim x), ← Coordinate.ofText? (Text.trim y))

/-- What has been given at one level. -/
structure Given where
  config : Option String := none
  version : Bool := false
  frames : Option Nat := none
  budget : Option Nat := none
  trace : Bool := false
  json : Bool := false
  click : Option (Coordinate × Coordinate) := none
  output : Option String := none
  /-- The arguments that are no options, in order. -/
  values : List String := []
  /-- The option whose value the next argument is. -/
  pending : Option Flag := none
  /-- Whether a double dash has been passed. -/
  literal : Bool := false
  deriving DecidableEq, Repr

namespace Given

/-- A path is any text that is not empty. -/
def path? (value : String) : Option String :=
  if value = "" then none else some value

/-- A value in the place of one that is not given yet. -/
def once {α : Type} (old new : Option α) : Option (Option α) :=
  if old.isSome || new.isNone then none else some new

def setValue (given : Given) (flag : Flag) (value : String) : Option Given :=
  match flag with
  | .config => (once given.config (path? value)).map fun v => { given with config := v }
  | .frames => (once given.frames (Decimal.count? value.toList)).map fun v =>
      { given with frames := v }
  | .budget => (once given.budget (Decimal.count? value.toList)).map fun v =>
      { given with budget := v }
  | .click => (once given.click (point? value)).map fun v => { given with click := v }
  | .output => (once given.output (path? value)).map fun v => { given with output := v }
  | .version | .trace | .json => none

def setSwitch (given : Given) (flag : Flag) : Option Given :=
  match flag with
  | .version => some { given with version := true }
  | .trace => if given.trace then none else some { given with trace := true }
  | .json => if given.json then none else some { given with json := true }
  | .config | .frames | .budget | .click | .output => none

def addValue (given : Given) (value : String) : Option Given :=
  (path? value).map fun v => { given with values := given.values ++ [v] }

/-! ## Single arguments -/

/-- An option by its long name, perhaps with a value attached. -/
def addLong (given : Given) (level : Level) (name : String) (attached : Option String) :
    Option Given := do
  let flag ← level.flags.find? fun flag => flag.long = name
  match flag.takesValue, attached with
  | true, some value => given.setValue flag value
  | true, none => return { given with pending := some flag }
  | false, none => given.setSwitch flag
  | false, some _ => none

/-- Options by their letters. The first one that takes a value takes the rest as its value. Nothing
is read behind the letter of the version. -/
def addLetters (given : Given) (level : Level) : List Char → Option Given
  | [] => some given
  | letter :: rest => do
    let flag ← level.flags.find? fun flag => flag.short? = some letter
    if flag.takesValue then
      match rest with
      | [] => return { given with pending := some flag }
      | '=' :: value => given.setValue flag (String.ofList value)
      | value => given.setValue flag (String.ofList value)
    else
      let given ← given.setSwitch flag
      if given.version then return given else given.addLetters level rest

/-- Whether an argument is no value: it begins with a dash and is longer than that. -/
def isOption (argument : List Char) : Bool :=
  argument.head? = some '-' && argument ≠ ['-']

/-- Takes one more argument in. -/
def add (level : Level) (given : Given) (argument : String) : Option Given :=
  let chars := argument.toList
  if given.literal then
    given.addValue argument
  else
    match given.pending with
    | some flag =>
      if isOption chars then none
      else ({ given with pending := none } : Given).setValue flag argument
    | none =>
      if !isOption chars then
        given.addValue argument
      else
        match Text.strip? ['-', '-'] chars with
        | some [] => some { given with literal := true }
        | some name =>
          match Text.splitOnce ['='] name with
          | some (name, value) =>
            given.addLong level (String.ofList name) (some (String.ofList value))
          | none => given.addLong level (String.ofList name) none
        | none => given.addLetters level (chars.drop 1)

end Given

/-! ## Commands -/

/-- The command of what has been given at its level. -/
def command? (given : Given) : Level → Option Command
  | .top => none
  | .run =>
    match given.values with
    | [program] => some (.run program given.frames given.budget given.trace given.json)
    | _ => none
  | .disasm =>
    match given.values with
    | [program] => some (.disasm program)
    | _ => none
  | .desktop =>
    match given.values, given.click with
    | [], _ => none
    | _, none => none
    | programs, some (x, y) => some (.desktop programs x y given.frames given.json)
  | .compile =>
    match given.values with
    | [source] => some (.compile source given.output)
    | _ => none

/-- The request of the arguments behind the name of a command. A configuration given here stands
above one given in front of the command. -/
def behind (level : Level) (config : Option String) (arguments : List String) :
    Option Request := do
  let given ← arguments.foldlM (Given.add level) {}
  if given.pending.isSome then none
  else return .execute (given.config.or config) (some (← command? given level))

/-- The request of the arguments after those that have been given at the top level. -/
def top (given : Given) : List String → Option Request
  | [] => if given.pending.isSome then none else some (.execute given.config none)
  | argument :: rest => do
    if given.pending.isNone && !given.literal && !Given.isOption argument.toList then
      behind (← Level.ofName? argument) given.config rest
    else
      let given ← given.add .top argument
      if given.version then return .version
      else if given.values ≠ [] then none
      else top given rest

def parse (arguments : List String) : Option Request :=
  top {} arguments

end Arguments

end Cli

end TernaryConsole
