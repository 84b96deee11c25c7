import TernaryConsole.Cli.Commands

/-!
# Main — the program

The outer layer: it hands the arguments, the environment and the file system to the commands and
prints what they answer.
-/

namespace TernaryConsole

/-- The cause of a failed system call. -/
def FileError.ofSystem (error : IO.Error) : FileError :=
  match error with
  | .noFileOrDirectory .. => .notFound
  | .inappropriateType _ 20 _ => .notDirectory
  | .inappropriateType _ 21 _ => .isDirectory
  | error => .other (toString error)

instance : Host IO where
  readText path := do
    try
      let bytes ← IO.FS.readBinFile path
      match String.fromUTF8? bytes with
      | some text => return .ok text
      | none => return .error .invalidText
    catch error => return .error (FileError.ofSystem error)
  writeText path content := do
    try
      IO.FS.writeFile path content
      return .ok ()
    catch error => return .error (FileError.ofSystem error)

end TernaryConsole

open TernaryConsole

def main (arguments : List String) : IO UInt32 := do
  let environment : Environment :=
    { frameBudget := ← IO.getEnv Config.frameBudgetName
      maxFrames := ← IO.getEnv Config.maxFramesName }
  let outcome ← Cli.execute environment arguments
  IO.print outcome.stdout
  IO.eprint outcome.stderr
  return outcome.code.toUInt32
