import TernaryConsole.Cli.Commands
import TernaryConsole.Proofs.Lifetime

/-!
# Proofs.Cli.Execution — a program by itself, from the command line to its report

A run of a program is cut into frames: bursts of a fixed number of steps, as many as the limit
allows, while the machine runs. `Report.AccountsFor` describes the report without frames, by single
steps of the machine that was launched and by its lifetime. `executeOn_run` says that every command
line which asks for a run answers with such a report, the same with a trace and without one, and
that the trace shows the executed instructions one by one.
-/

namespace TernaryConsole

namespace Cli

open Machine

/-! ## Command lines on a directory tree -/

/-- What a command line answers, and the tree that it leaves. -/
def executeOn (files : Files) (environment : Environment) (arguments : List String) :
    Outcome × Files :=
  (execute environment arguments : StateM Files Outcome) files

def commandOn (files : Files) (config : Config) (request : Command) : Outcome × Files :=
  (command config request : StateM Files Outcome) files

/-- The settings that a tree holds at an optional path: those of the document there, and the
defaults without a path. -/
inductive Stored (files : Files) : Option String → Config → Prop
  | defaults : Stored files none {}
  | document {path : String} {config : Config}
      (h : Config.ofFile path (files.readText path) = .ok config) : Stored files (some path) config

/-- The number in force: that of the option, else that of the environment value, else the stored
one. -/
def inForce (option : Option Nat) (value : Option String) (stored : Nat) : Nat :=
  (option.or (Config.environmentNumber? value)).getD stored

section

variable {files : Files} {environment : Environment} {arguments : List String}
  {configPath : Option String} {stored config : Config} {program source : String}
  {frames budget : Option Nat}

/-- Reading a file of a tree is looking it up. -/
theorem readText_bind {α : Type} (files : Files) (path : String)
    (next : Except FileError String → StateM Files α) :
    ((Host.readText path : StateM Files (Except FileError String)) >>= next) files =
      next (files.readText path) files := rfl

theorem executeOn_of_parse {request : Command}
    (hparse : Arguments.parse arguments = some (.execute configPath (some request)))
    (hstored : Stored files configPath stored) :
    executeOn files environment arguments =
      commandOn files (stored.override environment) request := by
  cases hstored with
  | defaults =>
    simp only [executeOn, execute, hparse]
    rfl
  | @document path _ h =>
    have hload : Config.load (some (path, files.readText path)) environment =
        .ok (stored.override environment) := by
      simp only [Config.load, h]
      rfl
    simp only [executeOn, execute, hparse, loadConfig, bind_assoc, pure_bind, readText_bind, hload]
    rfl

/-- A command line with settings that cannot be loaded does nothing. -/
theorem executeOn_cases {request : Command}
    (hparse : Arguments.parse arguments = some (.execute configPath (some request)))
    (files : Files) (environment : Environment) :
    (∃ stored, Stored files configPath stored ∧ executeOn files environment arguments =
        commandOn files (stored.override environment) request) ∨
      (∀ stored, ¬Stored files configPath stored) ∧
        ∃ message, executeOn files environment arguments = (.failure "" message, files) := by
  cases configPath with
  | none => exact .inl ⟨{}, .defaults, executeOn_of_parse hparse .defaults⟩
  | some path =>
    cases hfile : Config.ofFile path (files.readText path) with
    | ok stored =>
      exact .inl ⟨stored, .document hfile, executeOn_of_parse hparse (.document hfile)⟩
    | error error =>
      have hload : Config.load (some (path, files.readText path)) environment = .error error := by
        simp only [Config.load, hfile]
        rfl
      refine .inr ⟨?_, error.message, ?_⟩
      · intro stored hstored
        cases hstored with
        | document h =>
          rw [hfile] at h
          cases h
      · simp only [executeOn, execute, hparse, loadConfig, bind_assoc, pure_bind, readText_bind,
          hload]
        rfl

/-- The option of a command stands above what the configuration has loaded. -/
theorem getD_override (option : Option Nat) (value : Option String) (setting : Nat) :
    option.getD ((Config.environmentNumber? value).getD setting) =
      inForce option value setting := by
  cases option <;> rfl

end

/-! ## Frames -/

/-- Bursts while the machine runs are one stretch of steps. -/
theorem burstsFrom_eq (budget count limit : Nat) (m : Machine) :
    burstsFrom budget count limit m =
      (count + slices budget limit m, step^[budget * limit] m) := by
  induction limit generalizing count m with
  | zero => rfl
  | succ limit ih =>
    rw [burstsFrom, isRunning_eq]
    cases hhalted : m.isHalted with
    | true =>
      rw [slices_of_isHalted hhalted, Function.iterate_fixed (step_of_isHalted hhalted)]
      rfl
    | false =>
      rw [Bool.not_false, if_pos rfl, ih, burst_eq_iterate, slices_succ hhalted, Nat.mul_succ,
        Function.iterate_add_apply, Nat.add_assoc, Nat.add_comm 1]

/-- Traced bursts are the same stretch of steps with its trail. -/
theorem tracedFrom_eq (budget count : Nat) (trace : Array TraceEntry) (limit : Nat) (m : Machine) :
    tracedFrom budget count trace limit m =
      (count + slices budget limit m, trace ++ (trail (budget * limit) m).toArray,
        step^[budget * limit] m) := by
  induction limit generalizing count trace m with
  | zero => simp [tracedFrom, slices, trail]
  | succ limit ih =>
    rw [tracedFrom, isRunning_eq]
    cases hhalted : m.isHalted with
    | true =>
      rw [slices_of_isHalted hhalted, trail_of_isHalted hhalted,
        Function.iterate_fixed (step_of_isHalted hhalted)]
      simp
    | false =>
      have hcount : count + 1 + slices budget limit (step^[budget] m) =
          count + (slices budget limit (step^[budget] m) + 1) := by omega
      rw [Bool.not_false, if_pos rfl, traceFrom_eq]
      dsimp only
      rw [ih, hcount, slices_succ hhalted, Nat.mul_succ, Nat.add_comm (budget * limit), trail_add,
        Nat.add_comm budget, Function.iterate_add_apply]
      simp [Array.append_assoc]

/-- The steps of a run, its report and its trace, in one stretch. -/
theorem runProgram_eq (config : Config) (program source : String) (traced : Bool) :
    runProgram config program (.ok source) traced =
      let launched := Machine.initial.install source
      let steps := config.frameBudget * config.maxFrames
      .ok ⟨launched.1, if traced then (trail steps launched.2).toArray else #[],
        Report.ofMachine program (slices config.frameBudget config.maxFrames launched.2)
          (step^[steps] launched.2)⟩ := by
  have hlaunch : Machine.initial.launch program (.ok source) =
      (.ok ⟨program, (Machine.initial.install source).1⟩, (Machine.initial.install source).2) := rfl
  rw [runProgram, hlaunch]
  cases traced <;> simp [burstsFrom_eq, tracedFrom_eq]

/-! ## Reports -/

/-- What a report says of a launched machine, without frames: it took single steps until it halted
or until the frames were used up. -/
structure Report.AccountsFor (report : Report) (launched : Machine) (budget limit : Nat) :
    Prop where
  cycles_eq : (report.cycles : ℕ∞) = min launched.lifetime (budget * limit : ℕ)
  halted_iff : report.state = .halted ↔ launched.lifetime ≤ (budget * limit : ℕ)
  frames_eq : 0 < budget →
    (report.frames : ℕ∞) = min (limit : ℕ∞) (launched.lifetime.map (· ⌈/⌉ budget))
  /-- Frames without steps are run as well. -/
  frames_eq_limit : budget = 0 → report.frames = limit
  pc_eq : report.pc = (step^[report.cycles] launched).pc
  registers_eq : report.registers = (step^[report.cycles] launched).registers.nonZero
  output_eq : report.output = (step^[report.cycles] launched).output.values

theorem accountsFor_ofMachine (program : String) (launched : Machine)
    (hrunning : launched.isHalted = false) (hcycles : launched.cycles = 0) (budget limit : Nat) :
    (Report.ofMachine program (slices budget limit launched)
      (step^[budget * limit] launched)).AccountsFor launched budget limit := by
  have htaken : (step^[budget * limit] launched).cycles = slices 1 (budget * limit) launched := by
    rw [cycles_iterate, hcycles, Nat.zero_add]
  have hrest : step^[(step^[budget * limit] launched).cycles] launched =
      step^[budget * limit] launched := by
    rw [htaken, iterate_slices_one]
  refine ⟨?_, ?_, natCast_slices, ?_, ?_, ?_, ?_⟩
  · exact (congrArg _ htaken).trans (natCast_slices_one.trans (min_comm _ _))
  · rw [lifetime_le_iff]
    simp [Report.ofMachine, isHalted]
  · rintro rfl
    exact slices_zero hrunning limit
  · exact congrArg Machine.pc hrest.symm
  · exact congrArg (fun m : Machine => m.registers.nonZero) hrest.symm
  · exact congrArg (fun m : Machine => m.output.values) hrest.symm

/-! ## Traces -/

/-- One line for each of the first steps, with the counter in front of it and the instruction that
it executes. -/
structure ShowsSteps (launched : Machine) (steps : Nat) (lines : List String) : Prop where
  length_eq : lines.length = steps
  line_eq : ∀ k < steps, ∃ i, (step^[k] launched).executes = some i ∧
    lines[k]? = some (Listing.address (step^[k] launched).pc ++ ": " ++ Listing.instruction i)

theorem showsSteps_trail (n : Nat) (m : Machine) :
    ShowsSteps m (slices 1 n m) ((trail n m).map TraceEntry.text) where
  length_eq := by rw [List.length_map, length_trail]
  line_eq := by
    intro k hk
    obtain ⟨i, hexecutes, hentry⟩ := getElem?_trail hk
    refine ⟨i, hexecutes, ?_⟩
    rw [List.getElem?_map, hentry]
    rfl

theorem foldl_append_eq (lines : List String) (front : String) :
    lines.foldl (fun text line => text ++ line ++ "\n") front =
      front ++ String.join (lines.map (· ++ "\n")) := by
  induction lines generalizing front with
  | nil => simp
  | cons line lines ih =>
    rw [List.foldl_cons, ih, List.map_cons, String.join_cons, String.append_assoc,
      String.append_assoc, String.append_assoc]

theorem traceText_toArray (entries : List TraceEntry) :
    traceText entries.toArray =
      "\n━━━ Execution ━━━\n" ++ String.join ((entries.map TraceEntry.text).map (· ++ "\n")) := by
  rw [traceText, List.foldl_toArray, ← foldl_append_eq, List.foldl_map]

/-! ## The command -/

/-- What a run of a program that can be read answers: how much was assembled, the trail of its
steps if a trace is asked for, and the report. -/
def Runs (files : Files) (config : Config) (program source : String) (frames budget : Option Nat)
    (report : Report) : Prop :=
  let launched := (Machine.initial.launch program (.ok source)).2
  let steps := budget.getD config.frameBudget * frames.getD config.maxFrames
  ∀ trace json, commandOn files config (.run program frames budget trace json) =
    (.success (unlessJson json ("🔧 Running: " ++ program ++ "\n") ++
      unlessJson json ("📝 Assembled " ++
        Nat.repr (Assembly.operations source).length ++ " instructions\n") ++
      (if trace then traceText (trail steps launched).toArray else "") ++ report.text json), files)

theorem runs_of_readText {files : Files} {program source : String}
    (hsource : files.readText program = .ok source) (config : Config)
    (frames budget : Option Nat) :
    let launched := (Machine.initial.launch program (.ok source)).2
    let perFrame := budget.getD config.frameBudget
    let limit := frames.getD config.maxFrames
    Runs files config program source frames budget
      (Report.ofMachine program (slices perFrame limit launched)
        (step^[perFrame * limit] launched)) := by
  intro launched perFrame limit trace json
  have hrun : commandOn files config (.run program frames budget trace json) =
      (run { config with frameBudget := perFrame, maxFrames := limit } program
        (files.readText program) trace json, files) := rfl
  rw [hrun, hsource, run, runProgram_eq]
  simp only [instructions_install]
  cases trace <;> rfl

/-- A command line that asks for a run answers with the report of the single steps, whatever the
frames, and with a trace it shows each of them. -/
theorem executeOn_run {files : Files} {configPath : Option String} {stored : Config}
    (hstored : Stored files configPath stored) {program source : String}
    (hsource : files.readText program = .ok source) (environment : Environment)
    (frames budget : Option Nat) :
    let launched := (Machine.initial.launch program (.ok source)).2
    let perFrame := inForce budget environment.frameBudget stored.frameBudget
    let limit := inForce frames environment.maxFrames stored.maxFrames
    ∃ (report : Report) (lines : List String), report.program = program ∧
      report.AccountsFor launched perFrame limit ∧ ShowsSteps launched report.cycles lines ∧
      ∀ arguments trace json, Arguments.parse arguments =
          some (.execute configPath (some (.run program frames budget trace json))) →
        executeOn files environment arguments =
          (.success (unlessJson json ("🔧 Running: " ++ program ++ "\n") ++
            unlessJson json ("📝 Assembled " ++
              Nat.repr (Assembly.operations source).length ++ " instructions\n") ++
            (if trace then
              "\n━━━ Execution ━━━\n" ++ String.join (lines.map (· ++ "\n")) else "") ++
            report.text json), files) := by
  intro launched perFrame limit
  have hcycles : (step^[perFrame * limit] launched).cycles =
      slices 1 (perFrame * limit) launched := by
    rw [cycles_iterate]
    exact Nat.zero_add _
  refine ⟨Report.ofMachine program (slices perFrame limit launched)
      (step^[perFrame * limit] launched), (trail (perFrame * limit) launched).map TraceEntry.text,
    rfl, accountsFor_ofMachine program launched rfl rfl perFrame limit, ?_, ?_⟩
  · have hshows := showsSteps_trail (perFrame * limit) launched
    rwa [← hcycles] at hshows
  · intro arguments trace json hparse
    rw [executeOn_of_parse hparse hstored, runs_of_readText hsource]
    simp only [Config.override, getD_override, traceText_toArray]
    rfl

/-- A program that never halts, and a document that sets the frame budget. -/
def spinning : Files :=
  .ofListing [("spin.void", .text "SET 0 2\nJMP 0 0"),
    ("slow.json", .text "\x7b\"frame_budget\": 3\x7d")]

theorem executeOn_run_spinning :
    Stored spinning (some "slow.json") { frameBudget := 3 } ∧
      spinning.readText "spin.void" = .ok "SET 0 2\nJMP 0 0" ∧
      Arguments.parse ["--config", "slow.json", "run", "spin.void", "-t"] =
        some (.execute (some "slow.json") (some (.run "spin.void" none none true false))) ∧
      let launched := (Machine.initial.launch "spin.void" (.ok "SET 0 2\nJMP 0 0")).2
      ∃ (report : Report) (lines : List String), report.AccountsFor launched 3 2 ∧
        ShowsSteps launched report.cycles lines ∧
        executeOn spinning { maxFrames := some " 2\t" }
            ["--config", "slow.json", "run", "spin.void", "-t"] =
          (.success ("🔧 Running: spin.void\n📝 Assembled 2 instructions\n" ++
            ("\n━━━ Execution ━━━\n" ++ String.join (lines.map (· ++ "\n"))) ++
            report.text false), spinning) := by
  have hstored : Stored spinning (some "slow.json") { frameBudget := 3 } := .document (by decide)
  have hsource : spinning.readText "spin.void" = .ok "SET 0 2\nJMP 0 0" := by decide
  have hparse : Arguments.parse ["--config", "slow.json", "run", "spin.void", "-t"] =
      some (.execute (some "slow.json") (some (.run "spin.void" none none true false))) := by
    decide
  obtain ⟨report, lines, -, haccounts, hshows, hprinted⟩ :=
    executeOn_run hstored hsource { maxFrames := some " 2\t" } none none
  exact ⟨hstored, hsource, hparse, report, lines, haccounts, hshows, hprinted _ _ _ hparse⟩

end Cli

end TernaryConsole
