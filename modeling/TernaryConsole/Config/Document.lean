import TernaryConsole.Config
import TernaryConsole.Files

/-!
# Config.Document — configurations as documents

A document is an object of settings or a list of their values in order. It is read strictly:
numbers are whole and in the range of their setting, each setting is given at most once, and
nothing else is allowed anywhere. Settings that are not given keep their defaults.
-/

namespace TernaryConsole

/-- Why a configuration cannot be loaded. -/
inductive ConfigError
  | unreadable (path : String) (cause : FileError)
  /-- The text is no document; the path is that of the file it comes from. -/
  | invalid (path : Option String)
  deriving DecidableEq, Repr

/-- What went wrong, in words. The fault of an invalid document is not spelled out. -/
def ConfigError.message : ConfigError → String
  | .unreadable path cause => "cannot read config " ++ path ++ ": " ++ cause.message
  | .invalid none => "invalid config: <json>"
  | .invalid (some path) => "invalid config " ++ path ++ ": <json>"

namespace Config

inductive Setting
  | frameBudget
  | maxFrames
  | iconSize
  | iconGap
  | iconOrigin
  deriving DecidableEq, Repr

namespace Setting

/-- All settings, in the order of a list document. -/
def all : List Setting := [.frameBudget, .maxFrames, .iconSize, .iconGap, .iconOrigin]

def key : Setting → String
  | .frameBudget => "frame_budget"
  | .maxFrames => "max_frames"
  | .iconSize => "icon_size"
  | .iconGap => "icon_gap"
  | .iconOrigin => "icon_origin"

end Setting

namespace Document

/-! ## Marks and blanks -/

def isBlank (c : Char) : Bool :=
  c = ' ' || c = '\t' || c = '\n' || c = '\r'

def skip (text : List Char) : List Char :=
  text.dropWhile isBlank

/-- What follows a mark, blanks in front of it aside. -/
def mark? (c : Char) (text : List Char) : Option (List Char) :=
  match skip text with
  | first :: rest => if first = c then some rest else none
  | [] => none

/-! ## Numbers -/

/-- A row of digits without a leading zero, and what follows. -/
def natural? (text : List Char) : Option (Nat × List Char) :=
  match text.takeWhile Char.isDigit with
  | [] => none
  | ['0'] => some (0, text.drop 1)
  | '0' :: _ => none
  | digits => some (Nat.ofDigitChars 10 digits 0, text.drop digits.length)

/-- A whole number and what follows. There is no negative zero. -/
def integer? (text : List Char) : Option (Int × List Char) :=
  match skip text with
  | '-' :: rest =>
    match natural? rest with
    | some (0, _) => none
    | some (value, rest) => some (-(value : Int), rest)
    | none => none
  | text => (natural? text).map fun found => ((found.1 : Int), found.2)

def count? (text : List Char) : Option (Nat × List Char) := do
  let (value, rest) ← integer? text
  if 0 ≤ value ∧ value < Decimal.countBound then return (value.toNat, rest) else none

def coordinate? (text : List Char) : Option (Coordinate × List Char) := do
  let (value, rest) ← integer? text
  if Coordinate.least ≤ value ∧ value ≤ Coordinate.greatest then return (value, rest) else none

/-- Two coordinates in brackets. -/
def point? (text : List Char) : Option ((Coordinate × Coordinate) × List Char) := do
  let (x, rest) ← coordinate? (← mark? '[' text)
  let (y, rest) ← coordinate? (← mark? ',' rest)
  return ((x, y), ← mark? ']' rest)

/-! ## Keys -/

def hexDigit? (c : Char) : Option Nat :=
  if c.isDigit then some (c.toNat - '0'.toNat)
  else if 'a' ≤ c ∧ c ≤ 'f' then some (c.toNat - 'a'.toNat + 10)
  else if 'A' ≤ c ∧ c ≤ 'F' then some (c.toNat - 'A'.toNat + 10)
  else none

/-- The character of four hexadecimal digits. Halves of pairs become the null character: no key
holds either. -/
def unit? (a b c d : Char) : Option Char := do
  let code := (((← hexDigit? a) * 16 + (← hexDigit? b)) * 16 + (← hexDigit? c)) * 16 +
    (← hexDigit? d)
  return Char.ofNat code

/-- The character that a letter after a reverse solidus stands for. -/
def escaped? : Char → Option Char
  | '"' => some '"'
  | '\\' => some '\\'
  | '/' => some '/'
  | 'b' => some '\x08'
  | 'f' => some '\x0c'
  | 'n' => some '\n'
  | 'r' => some '\r'
  | 't' => some '\t'
  | _ => none

/-- The characters up to the closing quotation mark, and what follows it. -/
def quoted? : List Char → Option (List Char × List Char)
  | [] => none
  | '"' :: rest => some ([], rest)
  | '\\' :: 'u' :: a :: b :: c :: d :: rest => do
    let char ← unit? a b c d
    let (chars, rest) ← quoted? rest
    return (char :: chars, rest)
  | '\\' :: letter :: rest => do
    let char ← escaped? letter
    let (chars, rest) ← quoted? rest
    return (char :: chars, rest)
  | char :: rest =>
    if char.toNat < 0x20 then none
    else (quoted? rest).map fun found => (char :: found.1, found.2)

/-- A key, its colon, and what follows. -/
def key? (text : List Char) : Option (String × List Char) := do
  let (chars, rest) ← quoted? (← mark? '"' text)
  return (String.ofList chars, ← mark? ':' rest)

/-! ## Settings -/

/-- The configuration with a setting read from the front of a text, and what follows. -/
def setting? (config : Config) (text : List Char) : Setting → Option (Config × List Char)
  | .frameBudget => (count? text).map fun found => ({ config with frameBudget := found.1 }, found.2)
  | .maxFrames => (count? text).map fun found => ({ config with maxFrames := found.1 }, found.2)
  | .iconSize => (coordinate? text).map fun found => ({ config with iconSize := found.1 }, found.2)
  | .iconGap => (coordinate? text).map fun found => ({ config with iconGap := found.1 }, found.2)
  | .iconOrigin =>
    (point? text).map fun found =>
      ({ config with iconOriginX := found.1.1, iconOriginY := found.1.2 }, found.2)

/-- The members of an object up to its end. No more than `limit` members are left, and they are
among `missing`. -/
def members? : Nat → List Setting → Config → List Char → Option (Config × List Char)
  | 0, _, _, _ => none
  | limit + 1, missing, config, text => do
    let (key, rest) ← key? text
    let setting ← missing.find? fun setting => setting.key = key
    let (config, rest) ← setting? config rest setting
    match skip rest with
    | '}' :: rest => return (config, rest)
    | ',' :: rest => members? limit (missing.erase setting) config rest
    | _ => none

/-- The values of a list up to its end, for the settings in order. -/
def values? : List Setting → Config → List Char → Option (Config × List Char)
  | [], _, _ => none
  | setting :: missing, config, text => do
    let (config, rest) ← setting? config text setting
    match skip rest with
    | ']' :: rest => return (config, rest)
    | ',' :: rest => values? missing config rest
    | _ => none

/-- The configuration at the front of a text, and what follows. -/
def body? (text : List Char) : Option (Config × List Char) :=
  match skip text with
  | '{' :: rest =>
    match mark? '}' rest with
    | some rest => some ({}, rest)
    | none => members? Setting.all.length Setting.all {} rest
  | '[' :: rest =>
    match mark? ']' rest with
    | some rest => some ({}, rest)
    | none => values? Setting.all {} rest
  | _ => none

end Document

/-! ## Loading -/

def ofDocument? (text : String) : Option Config :=
  match Document.body? text.toList with
  | some (config, rest) => if (Document.skip rest).isEmpty then some config else none
  | none => none

def parse (text : String) : Except ConfigError Config :=
  match ofDocument? text with
  | some config => .ok config
  | none => .error (.invalid none)

/-- The configuration in the file at a path, given what reading it answered. -/
def ofFile (path : String) (content : Except FileError String) : Except ConfigError Config :=
  match content with
  | .error cause => .error (.unreadable path cause)
  | .ok text =>
    match ofDocument? text with
    | some config => .ok config
    | none => .error (.invalid (some path))

/-- The configuration of an optional file under the environment. -/
def load (file : Option (String × Except FileError String)) (environment : Environment) :
    Except ConfigError Config := do
  let config ← match file with
    | some (path, content) => ofFile path content
    | none => .ok {}
  return config.override environment

end Config

end TernaryConsole
