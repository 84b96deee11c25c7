import TernaryConsole.Text.Search

/-!
# Path — file names in path texts

A path is a text of segments between slashes. Empty segments and single dots name nothing, two
dots name the parent. The file name is the last segment that names something, unless that is the
parent; its stem is what stands in front of its last dot, unless nothing does.
-/

namespace TernaryConsole

namespace Path

def segments (path : String) : List String :=
  (path.toList.splitOn '/').map String.ofList

def isIdle (segment : String) : Bool :=
  segment = "" || segment = "."

/-- The segments up to the last one that names something. -/
def named (path : String) : List String :=
  Text.dropTrailing isIdle (segments path)

def fileName? (path : String) : Option String :=
  (named path).getLast?.filter (· ≠ "..")

/-! ## Extensions -/

/-- A file name up to its last dot, if something stands in front of that. -/
def stem (name : String) : String :=
  match Text.splitOnce ['.'] name.toList.reverse with
  | some (_, front) => if front.isEmpty then name else String.ofList front.reverse
  | none => name

/-- A name for the file at a path: the stem of the file name, or the path itself. -/
def title (path : String) : String :=
  match fileName? path with
  | some name => stem name
  | none => path

/-- The path with another extension on its file name, without the segments behind it. A path that
has no file name stays as it is. An extension behind nothing but two dots is only taken away, as
long as the path ends there: what is left is no file name any more. -/
def withExtension (path extension : String) : String :=
  match fileName? path with
  | none => path
  | some name =>
    let renamed :=
      if stem name = "." ∧ named path = segments path then ".."
      else stem name ++ "." ++ extension
    String.intercalate "/" ((named path).dropLast ++ [renamed])

end Path

end TernaryConsole
