import TernaryConsole.Proofs.Cli.Desktop

/-!
# Proofs.Cli.FrameLimit — how much a limited run does

A limit on frames bounds the frames of a run and, times the budget of a frame, its instructions.
A program that is run by itself keeps to its limit, whatever it is. An app of a desktop is launched
by its first frame, so that frame is run under every limit: the bounds are those of the limit,
except that a limit of zero counts as one (`desktop_within_limit`).
-/

namespace TernaryConsole

namespace Cli

open Machine

/-- A report of at most `limit` frames with at most `budget` instructions each. -/
structure Report.Within (report : Report) (budget limit : Nat) : Prop where
  frames_le : report.frames ≤ limit
  cycles_le : report.cycles ≤ budget * limit

/-! ## Bounds of a run -/

section

variable {launched : Machine} {budget limit more : Nat}

theorem slices_le_limit (budget limit : Nat) (m : Machine) : slices budget limit m ≤ limit :=
  slices_le_iff.2 (Or.inl le_rfl)

theorem cycles_iterate_le (n : Nat) (m : Machine) : (step^[n] m).cycles ≤ m.cycles + n := by
  rw [cycles_iterate]
  exact Nat.add_le_add_left (slices_one_le n m) m.cycles

/-- Frames that begin while the machine runs keep to the limit. -/
theorem within_alone (hcycles : launched.cycles = 0) (program : String) :
    (Report.ofMachine program (slices budget limit launched)
      (step^[budget * limit] launched)).Within budget limit where
  frames_le := slices_le_limit budget limit launched
  cycles_le := by
    have hle := cycles_iterate_le (budget * limit) launched
    rwa [hcycles, Nat.zero_add] at hle

/-- The frame of the launch comes on top of those behind the release. -/
theorem within_opened (hcycles : launched.cycles = 0) (program : String) :
    let released := release (step^[budget] launched)
    (Report.ofMachine program (1 + slices budget more released)
      (step^[budget * more] released)).Within budget (more + 1) := by
  intro released
  constructor
  · have hmore := slices_le_limit budget more released
    calc
      1 + slices budget more released ≤ 1 + more := Nat.add_le_add_left hmore 1
      _ = more + 1 := Nat.add_comm 1 more
  · have hfirst : released.cycles ≤ budget := by
      have hle := cycles_iterate_le budget launched
      rwa [hcycles, Nat.zero_add] at hle
    calc
      (step^[budget * more] released).cycles ≤ released.cycles + budget * more :=
        cycles_iterate_le (budget * more) released
      _ ≤ budget + budget * more := Nat.add_le_add_right hfirst _
      _ = budget * (more + 1) := by rw [Nat.mul_succ, Nat.add_comm]

end

/-! ## Command lines -/

section

variable {files : Files} {configPath : Option String} {stored : Config} {programs : List String}
  {x y : Coordinate} {app : App} {source : String}

/-- Every command line that asks for a run of the program answers with this report. -/
def ReportsRun (files : Files) (environment : Environment) (configPath : Option String)
    (program source : String) (frames budget : Option Nat) (report : Report) : Prop :=
  ∀ arguments json, Arguments.parse arguments =
      some (.execute configPath (some (.run program frames budget false json))) →
    executeOn files environment arguments =
      (.success (unlessJson json ("🔧 Running: " ++ program ++ "\n") ++
        unlessJson json ("📝 Assembled " ++
          Nat.repr (Assembly.operations source).length ++ " instructions\n") ++
        report.text json), files)

/-- Every command line that clicks on the icon of the app answers with this report. -/
def ReportsApp (files : Files) (environment : Environment) (configPath : Option String)
    (desktop : Desktop) (programs : List String) (x y : Coordinate) (app : App)
    (frames : Option Nat) (report : Report) : Prop :=
  ∀ arguments json, Arguments.parse arguments =
      some (.execute configPath (some (.desktop programs x y frames json))) →
    executeOn files environment arguments =
      (.success (unlessJson json (desktopText desktop) ++ unlessJson json (openText x y app.name) ++
        report.text json), files)

theorem reportsRun_of_runs {environment : Environment} {program : String}
    {frames budget : Option Nat} {report : Report} (hstored : Stored files configPath stored)
    (h : Runs files (stored.override environment) program source frames budget report) :
    ReportsRun files environment configPath program source frames budget report := by
  intro arguments json hparse
  rw [executeOn_of_parse hparse hstored, h, if_neg Bool.false_ne_true, String.append_empty]

theorem reportsApp_of_opens {environment : Environment} {frames : Option Nat} {report : Report}
    (hstored : Stored files configPath stored)
    (h : Opens files (stored.override environment) programs x y frames app report) :
    ReportsApp files environment configPath (pressed stored programs x y).desktop programs x y app
      frames report := by
  intro arguments json hparse
  rw [executeOn_of_parse hparse hstored]
  exact h.printed json

/-- An app is run within its limit, or for a single frame if that is zero. The program run by
itself under the same limit is within it, zero or not. -/
theorem desktop_within_limit (hstored : Stored files configPath stored)
    (hunder : (pressed stored programs x y).desktop.FirstUnder x y app)
    (hsource : files.readText app.path = .ok source) (environment : Environment)
    (frames : Option Nat) :
    let launched := (Machine.initial.launch app.path (.ok source)).2.setInput (heldAt x y)
    let perFrame := inForce none environment.frameBudget stored.frameBudget
    let limit := inForce frames environment.maxFrames stored.maxFrames
    ∃ opened alone : Report,
      ReportsApp files environment configPath (pressed stored programs x y).desktop programs x y app
        frames opened ∧
      opened.Within perFrame (max 1 limit) ∧
      (limit = 0 → opened.frames = 1 ∧
        (opened.cycles : ℕ∞) = min (perFrame : ℕ∞) launched.lifetime) ∧
      ReportsRun files environment configPath app.path source frames none alone ∧
      alone.Within perFrame limit := by
  intro launched perFrame limit
  -- The environment sets no icon grid, so the desktop is the stored one.
  have hpressed : (pressed (stored.override environment) programs x y).desktop.FirstUnder x y app :=
    hunder
  have hopens := opens_of_firstUnder hpressed hsource frames
  have hruns := runs_of_readText hsource (stored.override environment) frames none
  have hlimit : frames.getD (stored.override environment).maxFrames = limit :=
    getD_override frames environment.maxFrames stored.maxFrames
  have hlaunched : launched.cycles = 0 := rfl
  simp only [hlimit] at hopens hruns
  refine ⟨_, _, reportsApp_of_opens hstored hopens, ?_, ?_, reportsRun_of_runs hstored hruns,
    within_alone rfl app.path⟩
  · -- The frames behind the first one are those that a limit of at least one leaves.
    have hmax : max 1 limit = limit - 1 + 1 := by omega
    rw [hmax]
    exact within_opened hlaunched _
  · intro hzero
    have hcycles : (step^[perFrame] launched).cycles = slices 1 perFrame launched := by
      rw [cycles_iterate, hlaunched, Nat.zero_add]
    rw [hzero]
    exact ⟨rfl, (congrArg _ hcycles).trans natCast_slices_one⟩

end

theorem desktop_within_limit_spinning :
    Stored spinning (some "slow.json") { frameBudget := 3 } ∧
      (pressed { frameBudget := 3 } ["spin.void"] 9 9).desktop.FirstUnder 9 9
        ⟨"spin", "spin.void", ⟨9, 9, 27, 27⟩⟩ ∧
      spinning.readText "spin.void" = .ok "SET 0 2\nJMP 0 0" ∧
      ∃ opened alone : Report,
        ReportsApp spinning { maxFrames := some "2" } (some "slow.json")
          (pressed { frameBudget := 3 } ["spin.void"] 9 9).desktop ["spin.void"] 9 9
          ⟨"spin", "spin.void", ⟨9, 9, 27, 27⟩⟩ none opened ∧
        opened.Within 3 2 ∧
        ReportsRun spinning { maxFrames := some "2" } (some "slow.json") "spin.void"
          "SET 0 2\nJMP 0 0" none none alone ∧
        alone.Within 3 2 := by
  have hstored : Stored spinning (some "slow.json") { frameBudget := 3 } := .document (by decide)
  have hunder : (pressed { frameBudget := 3 } ["spin.void"] 9 9).desktop.FirstUnder 9 9
      ⟨"spin", "spin.void", ⟨9, 9, 27, 27⟩⟩ := Desktop.firstUnder_iff.2 (by decide)
  have hsource : spinning.readText "spin.void" = .ok "SET 0 2\nJMP 0 0" := by decide
  obtain ⟨opened, alone, hopened, hwithin, -, halone, hruns⟩ :=
    desktop_within_limit hstored hunder hsource { maxFrames := some "2" } none
  exact ⟨hstored, hunder, hsource, opened, alone, hopened, hwithin, halone, hruns⟩

/-- A limit of zero does not keep an app from running a frame. -/
theorem not_forall_desktop_within_limit :
    ¬ ∀ (files : Files) (config : Config) (programs : List String) (x y : Coordinate) (app : App)
      (source : String) (frames : Option Nat) (report : Report),
      (pressed config programs x y).desktop.FirstUnder x y app →
      files.readText app.path = .ok source →
      Opens files config programs x y frames app report →
      report.Within config.frameBudget (frames.getD config.maxFrames) := by
  intro h
  have hunder : (pressed {} ["spin.void"] 9 9).desktop.FirstUnder 9 9
      ⟨"spin", "spin.void", ⟨9, 9, 27, 27⟩⟩ := Desktop.firstUnder_iff.2 (by decide)
  have hsource : spinning.readText "spin.void" = .ok "SET 0 2\nJMP 0 0" := by decide
  have hopens := opens_of_firstUnder hunder hsource (some 0)
  have hwithin := h _ _ _ _ _ _ _ _ _ hunder hsource hopens
  exact absurd hwithin.frames_le (Nat.not_succ_le_zero _)

end Cli

end TernaryConsole
