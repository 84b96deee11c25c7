import TernaryConsole.Cli.Arguments
import TernaryConsole.Cli.Demo
import TernaryConsole.Cli.Host
import TernaryConsole.Cli.Run
import TernaryConsole.Config.Document
import TernaryConsole.TritC.Program

/-!
# Cli.Commands — the commands

A command reads its files through the host and answers with an outcome: an exit code and the
texts for both output streams. What a command does with the contents of its files is a function
of them, stated apart from the reading.
-/

namespace TernaryConsole

namespace Cli

structure Outcome where
  code : Nat
  stdout : String
  stderr : String
  deriving DecidableEq, Repr

namespace Outcome

def success (stdout : String) : Outcome :=
  ⟨0, stdout, ""⟩

/-- A failure after some output. -/
def failure (stdout message : String) : Outcome :=
  ⟨1, stdout, "❌ " ++ message ++ "\n"⟩

/-- A command line that does not fit. -/
def usage : Outcome :=
  ⟨2, "", ""⟩

end Outcome

/-! ## Commands as functions of their files -/

/-- Text that is left out around a document. -/
def unlessJson (json : Bool) (text : String) : String :=
  if json then "" else text

def traceText (trace : Array Machine.TraceEntry) : String :=
  trace.foldl (fun text entry => text ++ entry.text ++ "\n") "\n━━━ Execution ━━━\n"

/-- Runs a program and reports. -/
def run (config : Config) (path : String) (content : Except FileError String)
    (trace json : Bool) : Outcome :=
  let opening := unlessJson json ("🔧 Running: " ++ path ++ "\n")
  match runProgram config path content trace with
  | .error error => .failure opening error.message
  | .ok run =>
    let assembled := unlessJson json
      ("📝 Assembled " ++ Nat.repr run.assembly.instructions ++ " instructions\n")
    let execution := if trace then traceText run.trace else ""
    .success (opening ++ assembled ++ execution ++ run.report.text json)

/-- Assembles a program and lists it. -/
def disasm (path : String) (content : Except FileError String) : Outcome :=
  let opening := "📖 Disassembling: " ++ path ++ "\n\n"
  match Machine.initial.launch path content with
  | (.error error, _) => .failure opening error.message
  | (.ok launched, m) =>
    let report := launched.assembly
    let warning :=
      if 0 < report.skipped then
        "⚠️  " ++ Nat.repr report.skipped ++ " lines were not instructions and were skipped\n"
      else ""
    .success
      (opening ++ Listing.program m.memory report.base report.instructions ++ "\n" ++ warning)

def allocationRow (entry : String × Int) : String :=
  "  " ++ Column.left 16 entry.1 ++ " T" ++ Int.repr entry.2 ++ "\n"

/-- What is said about a compiled program. -/
def compiledText (program : TritC.Program) : String :=
  "✓ Compiled " ++ Nat.repr program.instructions ++ " instructions\n" ++
    String.join (program.allocation.map allocationRow) ++
    if 0 < program.skipped then
      "⚠️  " ++ Nat.repr program.skipped ++ " lines were not statements and were skipped\n"
    else ""

/-- The output of a compilation up to its end or its failure, and the program. -/
def compileText (opening : String) (content : Except FileError String) :
    Except Outcome (String × TritC.Program) :=
  match content with
  | .error cause => .error (.failure opening ("Failed to read file: " ++ cause.message))
  | .ok source =>
    match TritC.compile source with
    | .error error => .error (.failure opening ("Compile error: " ++ error.message))
    | .ok program => .ok (opening ++ compiledText program, program)

/-! ## The desktop -/

def appRow (app : App) : String :=
  "  " ++ Column.left 16 app.name ++ " at (" ++ Column.right 3 (Int.repr app.icon.x) ++ ", " ++
    Column.right 3 (Int.repr app.icon.y) ++ ") " ++ Int.repr app.icon.width ++ "x" ++
    Int.repr app.icon.height ++ "\n"

def desktopText (desktop : Desktop) : String :=
  "🖥️  Desktop with " ++ Nat.repr desktop.apps.length ++ " apps\n" ++
    String.join (desktop.apps.map appRow)

def pointText (x y : Coordinate) : String :=
  "(" ++ Int.repr x ++ ", " ++ Int.repr y ++ ")"

def openText (x y : Coordinate) (name : String) : String :=
  "🖱️  Click at " ++ pointText x y ++ " opens " ++ name ++ "\n"

/-! ## Running commands -/

section Running

variable {m : Type → Type} [Monad m] [Host m]

/-- Reads the configuration file, if there is one, and applies the environment. -/
def loadConfig (path : Option String) (environment : Environment) :
    m (Except ConfigError Config) := do
  match path with
  | some path =>
    let content ← Host.readText path
    return Config.load (some (path, content)) environment
  | none => return Config.load none environment

/-- Compiles a source file to an assembly file, by default to one beside it with the extension of
assembly files. -/
def compile (source : String) (output : Option String) : m Outcome := do
  let target := output.getD (Path.withExtension source "void")
  let opening := "📝 Compiling: " ++ source ++ " → " ++ target ++ "\n"
  match compileText opening (← Host.readText source) with
  | .error outcome => return outcome
  | .ok (stdout, program) =>
    match ← Host.writeText target program.assembly with
    | .error cause =>
      return .failure stdout ("Failed to write assembly: " ++ cause.message)
    | .ok () => return .success (stdout ++ "✓ Saved to " ++ target ++ "\n")

/-- Opens an app on a desktop and runs it. -/
def desktop (config : Config) (programs : List String) (x y : Coordinate) (json : Bool) :
    m Outcome := do
  let session := pressed config programs x y
  let opening := unlessJson json (desktopText session.desktop)
  match opened? session x y with
  | none => return .failure opening ("No app icon at " ++ pointText x y)
  | some opened =>
    let opening := opening ++ unlessJson json (openText x y opened.name)
    let content ← Host.readText (opened.session.pending.getD "")
    match opened.run config content with
    | .error error => return .failure opening error.message
    | .ok report => return .success (opening ++ report.text json)

def command (config : Config) : Command → m Outcome
  | .run program frames budget trace json => do
    let config := { config with
      frameBudget := budget.getD config.frameBudget, maxFrames := frames.getD config.maxFrames }
    return run config program (← Host.readText program) trace json
  | .disasm program => do
    return disasm program (← Host.readText program)
  | .desktop programs x y frames json =>
    desktop { config with maxFrames := frames.getD config.maxFrames } programs x y json
  | .compile source output => compile source output

/-- Runs a command line. The configuration is loaded before any command. -/
def execute (environment : Environment) (arguments : List String) : m Outcome := do
  match Arguments.parse arguments with
  | none => return .usage
  | some .version => return .success "void3-emu 0.1.0\n"
  | some (.execute path request) =>
    match ← loadConfig path environment with
    | .error error => return .failure "" error.message
    | .ok config =>
      match request with
      | some request => command config request
      | none => return .success (Demo.banner ++ Demo.text)

end Running

end Cli

end TernaryConsole
