import TernaryConsole.Files

/-!
# Cli.Host — what commands ask of their surroundings

Commands read and write whole text files and nothing else. A directory tree is a host: a command
run on it answers with the tree that it leaves behind.
-/

namespace TernaryConsole

class Host (m : Type → Type) where
  readText : String → m (Except FileError String)
  writeText : String → String → m (Except FileError Unit)

instance : Host (StateM Files) where
  readText path := fun files => (files.readText path, files)
  writeText path content := fun files =>
    match files.writeText path content with
    | .ok after => (.ok (), after)
    | .error cause => (.error cause, files)

end TernaryConsole
