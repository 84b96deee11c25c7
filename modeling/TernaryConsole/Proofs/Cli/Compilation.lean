import TernaryConsole.Proofs.Cli.Execution
import TernaryConsole.Proofs.Files

/-!
# Proofs.Cli.Compilation — which file a compilation writes

A compilation ends in one of five ways (`Compiles`), and only the last one writes. `compile_files`
says what that means for the tree: a failure leaves it as it is, a success changes the file at the
output path and no other, and the source is kept unless the output takes its place. That is so for
an output path that leads to the source, and by default for a source that has the extension of
assembly files already.
-/

namespace TernaryConsole

namespace Cli

/-- The path that a compilation writes. -/
def outputPath (source : String) (output : Option String) : String :=
  output.getD (Path.withExtension source "void")

section

variable {files : Files} {environment : Environment} {arguments : List String}
  {configPath : Option String} {source target : String} {output : Option String}
  {answer : Outcome × Files}

/-! ## Ways to end -/

/-- What follows on a written file sees the tree that has it. -/
theorem writeText_ok_bind {α : Type} {path content : String} {after : Files}
    (h : files.writeText path content = .ok after)
    (next : Except FileError Unit → StateM Files α) :
    ((Host.writeText path content : StateM Files (Except FileError Unit)) >>= next) files =
      next (.ok ()) after := by
  have hwrite : (Host.writeText path content : StateM Files (Except FileError Unit)) files =
      (.ok (), after) := by
    simp only [Host.writeText, h]
  exact congrArg (fun answer => next answer.1 answer.2) hwrite

theorem writeText_error_bind {α : Type} {path content : String} {cause : FileError}
    (h : files.writeText path content = .error cause)
    (next : Except FileError Unit → StateM Files α) :
    ((Host.writeText path content : StateM Files (Except FileError Unit)) >>= next) files =
      next (.error cause) files := by
  have hwrite : (Host.writeText path content : StateM Files (Except FileError Unit)) files =
      (.error cause, files) := by
    simp only [Host.writeText, h]
  exact congrArg (fun answer => next answer.1 answer.2) hwrite

/-- The line that opens a compilation. -/
def compilingText (source target : String) : String :=
  "📝 Compiling: " ++ source ++ " → " ++ target ++ "\n"

/-- What a command line that asks for a compilation answers, and the tree that it leaves. -/
inductive Compiles (files : Files) (configPath : Option String) (source target : String) :
    Outcome × Files → Prop
  | unset {message : String} (hstored : ∀ stored, ¬Stored files configPath stored) :
      Compiles files configPath source target (.failure "" message, files)
  | unread {cause : FileError} (hread : files.readText source = .error cause) :
      Compiles files configPath source target
        (.failure (compilingText source target) ("Failed to read file: " ++ cause.message), files)
  | rejected {text : String} {error : TritC.CompileError} (hread : files.readText source = .ok text)
      (hcompile : TritC.compile text = .error error) :
      Compiles files configPath source target
        (.failure (compilingText source target) ("Compile error: " ++ error.message), files)
  | unwritten {text : String} {program : TritC.Program} {cause : FileError}
      (hread : files.readText source = .ok text) (hcompile : TritC.compile text = .ok program)
      (hwrite : files.writeText target program.assembly = .error cause) :
      Compiles files configPath source target
        (.failure (compilingText source target ++ compiledText program)
          ("Failed to write assembly: " ++ cause.message), files)
  | written {stored : Config} {text : String} {program : TritC.Program} {after : Files}
      (hstored : Stored files configPath stored) (hread : files.readText source = .ok text)
      (hcompile : TritC.compile text = .ok program)
      (hwrite : files.writeText target program.assembly = .ok after) :
      Compiles files configPath source target
        (.success (compilingText source target ++ compiledText program ++
          "✓ Saved to " ++ target ++ "\n"), after)

theorem compiles_command {stored : Config} (hstored : Stored files configPath stored)
    (config : Config) :
    Compiles files configPath source (outputPath source output)
      (commandOn files config (.compile source output)) := by
  have hcommand : commandOn files config (.compile source output) =
      (compile source output : StateM Files Outcome) files := rfl
  rw [hcommand, compile, readText_bind]
  cases hread : files.readText source with
  | error cause => exact .unread hread
  | ok text =>
    cases hcompile : TritC.compile text with
    | error error =>
      simp only [compileText, hcompile]
      exact .rejected hread hcompile
    | ok program =>
      simp only [compileText, hcompile]
      cases hwrite : files.writeText (output.getD (Path.withExtension source "void"))
        program.assembly with
      | error cause =>
        rw [writeText_error_bind hwrite]
        exact .unwritten hread hcompile hwrite
      | ok after =>
        rw [writeText_ok_bind hwrite]
        exact .written hstored hread hcompile hwrite

theorem compiles_executeOn
    (hparse : Arguments.parse arguments =
      some (.execute configPath (some (.compile source output)))) :
    Compiles files configPath source (outputPath source output)
      (executeOn files environment arguments) := by
  rcases executeOn_cases hparse files environment with
    ⟨stored, hstored, hanswer⟩ | ⟨hstored, message, hanswer⟩
  · rw [hanswer]
    exact compiles_command hstored _
  · rw [hanswer]
    exact .unset hstored

/-! ## The source and the output -/

/-- The output of a compilation takes the place of its source: the path given for it leads there, or
none is given and the source has the extension of assembly files already. -/
inductive TakesSource (files : Files) (source : String) : Option String → Prop
  | given {output : String} (h : files.resolve output = files.resolve source) :
      TakesSource files source (some output)
  | extended {base : String} (hbase : base ≠ "") (hdot : base ≠ ".")
      (h : Path.fileName? source = some (base ++ ".void")) : TakesSource files source none

/-- What a compilation does to the files of a tree, by its exit code: without success it leaves them as
they are, and with it only the file at the output path is another. -/
structure WritesOnly (files : Files) (configPath : Option String) (source : String)
    (output : Option String) (answer : Outcome × Files) : Prop where
  unread : ∀ cause, files.readText source = .error cause →
    answer.1.code = 1 ∧ answer.2 = files
  rejected : ∀ text error, files.readText source = .ok text →
    TritC.compile text = .error error → answer.1.code = 1 ∧ answer.2 = files
  failed : answer.1.code ≠ 0 → answer.1.code = 1 ∧ answer.2 = files
  code_eq_zero_iff : answer.1.code = 0 ↔ ∃ stored text program after,
    Stored files configPath stored ∧ files.readText source = .ok text ∧
      TritC.compile text = .ok program ∧
      files.writeText (outputPath source output) program.assembly = .ok after
  succeeded : answer.1.code = 0 → ∃ text program key, files.readText source = .ok text ∧
    TritC.compile text = .ok program ∧
    files.Written (outputPath source output) program.assembly answer.2 key ∧
    answer.2.readText (outputPath source output) = .ok program.assembly
  kept : ¬TakesSource files source output → ∀ text, files.readText source = .ok text →
    answer.2.readText source = .ok text
  /-- Otherwise the output is read under the path of the source. -/
  taken : TakesSource files source output → answer.1.code = 0 →
    answer.2.readText source = answer.2.readText (outputPath source output)

/-- The output takes the place of the source if both paths lead to one key. -/
theorem takesSource_iff {front sourceFront key sourceKey : List String} {name sourceName : String}
    (hsource : files.Names source sourceFront sourceKey sourceName)
    (hsome : (files.node? (sourceKey ++ [sourceName])).isSome)
    (htarget : files.Names (outputPath source output) front key name) :
    TakesSource files source output ↔ key ++ [name] = sourceKey ++ [sourceName] := by
  cases output with
  | some path =>
    have hsourcePlace := hsource.resolve_of_isSome hsome
    have hplace : files.resolve path =
        if (files.node? (key ++ [name])).isSome then .ok (.known (key ++ [name]))
        else .error .notFound := htarget.resolve_eq
    constructor
    · rintro ⟨hsame⟩
      -- The source is there, so a path that leads to nothing does not lead where the source is.
      rw [hsourcePlace, hplace] at hsame
      split at hsame
      · simpa using hsame
      · cases hsame
    · intro hsame
      refine .given ?_
      rw [hplace, hsame, if_pos hsome, hsourcePlace]
  | none =>
    have hself : Path.withExtension source "void" = source ↔
        ∃ base, base ≠ "" ∧ base ≠ "." ∧ sourceName = base ++ "." ++ "void" :=
      hsource.endsIn.withExtension_eq_self_iff (by decide) (by decide)
    have hextension : ∀ base : String, base ++ "." ++ "void" = base ++ ".void" :=
      fun base => String.append_assoc
    rw [hsource.withExtension_key_iff htarget (by decide), hself]
    constructor
    · intro h
      cases h with
      | @extended base hbase hdot hname =>
        rw [hsource.endsIn.fileName?_eq] at hname
        exact ⟨base, hbase, hdot, (Option.some.inj hname).trans (hextension base).symm⟩
    · rintro ⟨base, hbase, hdot, hname⟩
      refine .extended hbase hdot ?_
      rw [hsource.endsIn.fileName?_eq, hname, hextension]

namespace Compiles

theorem failed (h : Compiles files configPath source target answer) (hcode : answer.1.code ≠ 0) :
    answer.1.code = 1 ∧ answer.2 = files := by
  cases h with
  | written => exact absurd rfl hcode
  | unset | unread | rejected | unwritten => exact ⟨rfl, rfl⟩

theorem succeeded (h : Compiles files configPath source target answer)
    (hcode : answer.1.code = 0) : ∃ stored text program, Stored files configPath stored ∧
      files.readText source = .ok text ∧ TritC.compile text = .ok program ∧
      files.writeText target program.assembly = .ok answer.2 := by
  cases h with
  | written hstored hread hcompile hwrite => exact ⟨_, _, _, hstored, hread, hcompile, hwrite⟩
  | unset | unread | rejected | unwritten => cases hcode

/-- Each way to fail has a cause that a success excludes. -/
theorem code_eq_zero (h : Compiles files configPath source target answer) {stored : Config}
    {text : String} {program : TritC.Program} {after : Files}
    (hstored : Stored files configPath stored) (hread : files.readText source = .ok text)
    (hcompile : TritC.compile text = .ok program)
    (hwrite : files.writeText target program.assembly = .ok after) : answer.1.code = 0 := by
  cases h with
  | unset hnone => exact absurd hstored (hnone stored)
  | unread hunread =>
    rw [hread] at hunread
    cases hunread
  | rejected hother hrejected =>
    obtain rfl := Except.ok.inj (hread.symm.trans hother)
    rw [hcompile] at hrejected
    cases hrejected
  | unwritten hother hagain hunwritten =>
    obtain rfl := Except.ok.inj (hread.symm.trans hother)
    obtain rfl := Except.ok.inj (hcompile.symm.trans hagain)
    rw [hwrite] at hunwritten
    cases hunwritten
  | written => rfl

/-- Under the path of its source a compilation leaves the output, if that takes its place, and else
the source. -/
theorem source_read (h : Compiles files configPath source (outputPath source output) answer)
    (hcode : answer.1.code = 0) {text : String} (hread : files.readText source = .ok text) :
    (TakesSource files source output →
        answer.2.readText source = answer.2.readText (outputPath source output)) ∧
      (¬TakesSource files source output → answer.2.readText source = .ok text) := by
  obtain ⟨stored, _, program, -, -, -, hwrite⟩ := h.succeeded hcode
  obtain ⟨sourceFront, sourceKey, sourceName, hsource, hnode⟩ := Files.names_of_readText hread
  obtain ⟨front, key, name, htarget, hwritten⟩ := Files.written_of_writeText hwrite
  have hsome : (files.node? (sourceKey ++ [sourceName])).isSome := by rw [hnode]; rfl
  have hplace := hsource.resolve_of_isSome hsome
  rw [takesSource_iff hsource hsome htarget]
  constructor
  · intro hsame
    have hafter := hwritten.resolve_of_ok hplace
    rw [← hsame] at hafter
    rw [hwritten.readText_eq hafter, hwritten.readText_eq hwritten.resolve_eq]
  · intro hapart
    refine hwritten.readText_of_ne hread ?_
    rw [hplace]
    simpa using Ne.symm hapart

end Compiles

/-- A compilation writes its output and nothing else. Its source is kept as long as the output does
not take its place. -/
theorem compile_writes_only
    (hparse : Arguments.parse arguments =
      some (.execute configPath (some (.compile source output))))
    (files : Files) (environment : Environment) :
    WritesOnly files configPath source output (executeOn files environment arguments) := by
  have h : Compiles files configPath source (outputPath source output)
      (executeOn files environment arguments) := compiles_executeOn hparse
  refine ⟨?unread, ?rejected, h.failed, ?zero, ?succeeded, ?kept, ?taken⟩
  case unread =>
    intro cause hunread
    refine h.failed fun hcode => ?_
    obtain ⟨_, _, _, -, hread, -⟩ := h.succeeded hcode
    rw [hunread] at hread
    cases hread
  case rejected =>
    intro text error hsource hrejected
    refine h.failed fun hcode => ?_
    obtain ⟨_, _, _, -, hread, hcompile, -⟩ := h.succeeded hcode
    obtain rfl := Except.ok.inj (hsource.symm.trans hread)
    rw [hrejected] at hcompile
    cases hcompile
  case zero =>
    constructor
    · intro hcode
      obtain ⟨stored, text, program, hall⟩ := h.succeeded hcode
      exact ⟨stored, text, program, _, hall⟩
    · rintro ⟨stored, text, program, after, hstored, hread, hcompile, hwrite⟩
      exact h.code_eq_zero hstored hread hcompile hwrite
  case succeeded =>
    intro hcode
    obtain ⟨_, text, program, -, hread, hcompile, hwrite⟩ := h.succeeded hcode
    obtain ⟨front, key, name, -, hwritten⟩ := Files.written_of_writeText hwrite
    exact ⟨text, program, key ++ [name], hread, hcompile, hwritten,
      hwritten.readText_eq hwritten.resolve_eq⟩
  case kept =>
    intro hkept text hread
    -- A failure keeps every file, so only a success has to tell the two paths apart.
    by_cases hcode : (executeOn files environment arguments).1.code = 0
    · exact (h.source_read hcode hread).2 hkept
    · rw [(h.failed hcode).2]
      exact hread
  case taken =>
    intro htaken hcode
    obtain ⟨_, _, _, -, hread, -⟩ := h.succeeded hcode
    exact (h.source_read hcode hread).1 htaken

end

/-- One text as a source of each extension. -/
def sources : Files :=
  .ofListing [("one.tc", .text "x = 1\nhalt"), ("two.void", .text "x = 1\nhalt")]

theorem not_takesSource_one : ¬TakesSource sources "one.tc" none := by
  intro h
  cases h with
  | @extended base _ _ hname =>
    have hfile : Path.fileName? "one.tc" = some "one.tc" := by decide
    have hlast := congrArg (fun name => name.map fun text => text.toList.getLast?)
      (hfile.symm.trans hname)
    simp at hlast

theorem compile_writes_only_one :
    Arguments.parse ["compile", "one.tc"] =
        some (.execute none (some (.compile "one.tc" none))) ∧
      let answer := executeOn sources {} ["compile", "one.tc"]
      answer.1.code = 0 ∧ answer.2.readText "one.tc" = .ok "x = 1\nhalt" ∧
        ∃ program, TritC.compile "x = 1\nhalt" = .ok program ∧
          answer.2.readText "one.void" = .ok program.assembly := by
  have hparse : Arguments.parse ["compile", "one.tc"] =
      some (.execute none (some (.compile "one.tc" none))) := by decide
  have hread : sources.readText "one.tc" = .ok "x = 1\nhalt" := by decide
  have hcode : (executeOn sources {} ["compile", "one.tc"]).1.code = 0 := rfl
  have hwrites := compile_writes_only hparse sources {}
  obtain ⟨text, program, -, hsource, hcompile, -, hsaved⟩ := hwrites.succeeded hcode
  obtain rfl := Except.ok.inj (hread.symm.trans hsource)
  exact ⟨hparse, hcode, hwrites.kept not_takesSource_one _ hread, program, hcompile, hsaved⟩

/-- Without a path for the output a compilation may still overwrite its source. -/
theorem not_forall_source_kept :
    ¬∀ (files : Files) (environment : Environment) (arguments : List String)
        (configPath : Option String) (source text : String),
      Arguments.parse arguments = some (.execute configPath (some (.compile source none))) →
        files.readText source = .ok text →
        (executeOn files environment arguments).2.readText source = .ok text := by
  intro h
  have hkept := h sources {} ["compile", "two.void"] none "two.void" "x = 1\nhalt" (by decide)
    (by decide)
  have hsaved : (executeOn sources {} ["compile", "two.void"]).2.readText "two.void" ≠
      .ok "x = 1\nhalt" := by decide
  exact hsaved hkept

end Cli

end TernaryConsole
