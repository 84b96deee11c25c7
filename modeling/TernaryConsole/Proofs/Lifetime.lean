import Mathlib.Algebra.Order.Floor.Div
import Mathlib.Data.ENat.Lattice
import TernaryConsole.Proofs.Host

/-!
# Proofs.Lifetime — how long a machine runs, and in how many slices

Left to itself a machine takes one step after the other until it halts, and then it rests. The
number of its steps is its `lifetime`, which is infinite if it never halts. A driver cuts the run
into slices of a fixed number of steps and looks at the machine between them: `slices` counts the
ones that begin while it runs, and `natCast_slices` gives their number in terms of the lifetime.
The steps that were really taken are the slices of one step (`cycles_iterate`), and `trail` lists
what they executed.
-/

namespace TernaryConsole

namespace Machine

variable {m : Machine} {budget limit n k : Nat}

/-! ## Halting -/

theorem step_of_running (h : m.isHalted = false) : m.step = m.advance := by
  rw [step, h, if_neg Bool.false_ne_true]

theorem isRunning_eq (m : Machine) : m.isRunning = !m.isHalted := by
  cases hstate : m.state <;> simp [isRunning, isHalted, hstate]

theorem iterate_eq_of_isHalted (h : (step^[k] m).isHalted = true) (hle : k ≤ n) :
    step^[n] m = step^[k] m := by
  obtain ⟨more, rfl⟩ := Nat.exists_eq_add_of_le' hle
  rw [Function.iterate_add_apply, Function.iterate_fixed (step_of_isHalted h)]

/-- The number of steps after which the machine has halted. -/
noncomputable def lifetime (m : Machine) : ℕ∞ :=
  ⨅ (n : ℕ) (_ : (step^[n] m).isHalted = true), (n : ℕ∞)

theorem lifetime_le_iff : m.lifetime ≤ n ↔ (step^[n] m).isHalted = true := by
  constructor
  · intro hle
    by_contra hrunning
    -- A machine that had halted by then would have rested.
    have hlater : ((n + 1 : ℕ) : ℕ∞) ≤ m.lifetime := by
      refine le_iInf₂ fun k hk => ?_
      by_contra hlt
      have hearly : k ≤ n := Nat.lt_succ_iff.1 (Nat.cast_lt.1 (not_le.1 hlt))
      rw [iterate_eq_of_isHalted hk hearly] at hrunning
      exact hrunning hk
    have hsucc : n + 1 ≤ n := Nat.cast_le.1 (hlater.trans hle)
    exact absurd hsucc (Nat.not_succ_le_self n)
  · exact fun h => iInf₂_le n h

/-! ## Slices -/

/-- The number of slices of `budget` steps, at most `limit`, that begin while the machine runs. -/
def slices (budget : Nat) : Nat → Machine → Nat
  | 0, _ => 0
  | limit + 1, m => if m.isHalted then 0 else slices budget limit (step^[budget] m) + 1

theorem slices_of_isHalted (h : m.isHalted = true) (budget limit : Nat) :
    slices budget limit m = 0 := by
  cases limit with
  | zero => rfl
  | succ limit => exact if_pos h

theorem slices_succ (h : m.isHalted = false) (budget limit : Nat) :
    slices budget (limit + 1) m = slices budget limit (step^[budget] m) + 1 := by
  rw [slices, h, if_neg Bool.false_ne_true]

theorem slices_le_iff :
    slices budget limit m ≤ n ↔ limit ≤ n ∨ (step^[budget * n] m).isHalted = true := by
  induction limit generalizing m n with
  | zero => simp [slices]
  | succ limit ih =>
    cases hhalted : m.isHalted with
    | true => simp [slices_of_isHalted hhalted, Function.iterate_fixed (step_of_isHalted hhalted),
        hhalted]
    | false =>
      cases n with
      | zero => simp [slices_succ hhalted, hhalted]
      | succ n =>
        rw [slices_succ hhalted, Nat.succ_le_succ_iff, Nat.succ_le_succ_iff, ih, Nat.mul_succ,
          Function.iterate_add_apply]

theorem slices_le_iff_lifetime :
    slices budget limit m ≤ n ↔ limit ≤ n ∨ m.lifetime ≤ (budget * n : ℕ) := by
  rw [slices_le_iff, lifetime_le_iff]

/-- A slice that is begun counts as one: the lifetime is divided by the budget and rounded up. -/
theorem natCast_slices (hbudget : 0 < budget) :
    (slices budget limit m : ℕ∞) = min (limit : ℕ∞) (m.lifetime.map (· ⌈/⌉ budget)) := by
  have hslices : ∀ n, slices budget limit m ≤ n ↔ limit ≤ n ∨ m.lifetime ≤ (budget * n : ℕ) :=
    fun n => slices_le_iff_lifetime
  rcases eq_or_ne m.lifetime ⊤ with htop | hfinite
  · have hall : slices budget limit m = limit :=
      eq_of_forall_ge_iff fun n => by
        rw [hslices, htop, top_le_iff, or_iff_left (ENat.natCast_ne_top _)]
    rw [htop, hall]
    exact (min_eq_left le_top).symm
  · obtain ⟨life, hlife⟩ := ENat.ne_top_iff_exists.1 hfinite
    have hmin : slices budget limit m = min limit (life ⌈/⌉ budget) := by
      refine eq_of_forall_ge_iff fun n => ?_
      rw [hslices, ← hlife, min_le_iff, Nat.cast_le, ceilDiv_le_iff_le_smul hbudget, smul_eq_mul]
    rw [hmin, ← hlife]
    exact (Nat.mono_cast (α := ℕ∞)).map_min

/-- Slices without steps change nothing, so the limit decides. -/
theorem slices_zero (h : m.isHalted = false) (limit : Nat) : slices 0 limit m = limit := by
  induction limit with
  | zero => rfl
  | succ limit ih => rw [slices_succ h, Function.iterate_zero_apply, ih]

/-! ## Steps that are taken -/

theorem natCast_slices_one : (slices 1 n m : ℕ∞) = min (n : ℕ∞) m.lifetime := by
  have hsingle : (fun life : ℕ => life ⌈/⌉ 1) = id := funext ceilDiv_one
  rw [natCast_slices Nat.one_pos, hsingle]
  exact congrArg (min (n : ℕ∞)) (congrFun WithTop.map_id m.lifetime)

theorem slices_one_le (n : Nat) (m : Machine) : slices 1 n m ≤ n :=
  slices_le_iff.2 (Or.inl le_rfl)

/-- Steps beyond those that are taken change nothing. -/
theorem iterate_slices_one (n : Nat) (m : Machine) : step^[slices 1 n m] m = step^[n] m := by
  rcases slices_le_iff.1 (le_refl (slices 1 n m)) with hall | hhalted
  · rw [le_antisymm (slices_one_le n m) hall]
  · rw [Nat.one_mul] at hhalted
    exact (iterate_eq_of_isHalted hhalted (slices_one_le n m)).symm

theorem cycles_execute (m : Machine) (i : Instruction) : (m.execute i).cycles = m.cycles := by
  have heffect := effect_execute m i
  generalize m.execute i = after at heffect ⊢
  cases heffect <;> rfl

theorem cycles_step (h : m.isHalted = false) : m.step.cycles = m.cycles + 1 := by
  rw [step_of_running h]
  exact congrArg (· + 1) (cycles_execute m.skip m.current)

/-- Each step that is taken is counted. -/
theorem cycles_iterate (n : Nat) (m : Machine) :
    (step^[n] m).cycles = m.cycles + slices 1 n m := by
  induction n generalizing m with
  | zero => rfl
  | succ n ih =>
    cases hhalted : m.isHalted with
    | true =>
      rw [Function.iterate_fixed (step_of_isHalted hhalted), slices_of_isHalted hhalted]
      rfl
    | false =>
      rw [Function.iterate_succ_apply, ih, cycles_step hhalted, slices_succ hhalted,
        Function.iterate_one]
      omega

/-! ## Trails -/

/-- The instructions of the first steps and where they stood, as far as the machine runs. -/
def trail : Nat → Machine → List TraceEntry
  | 0, _ => []
  | n + 1, m => if m.isHalted then [] else ⟨m.pc, m.current⟩ :: trail n m.step

theorem trail_of_isHalted (h : m.isHalted = true) (n : Nat) : trail n m = [] := by
  cases n with
  | zero => rfl
  | succ n => exact if_pos h

theorem trail_succ (h : m.isHalted = false) (n : Nat) :
    trail (n + 1) m = ⟨m.pc, m.current⟩ :: trail n m.step := by
  rw [trail, h, if_neg Bool.false_ne_true]

theorem length_trail (n : Nat) (m : Machine) : (trail n m).length = slices 1 n m := by
  induction n generalizing m with
  | zero => rfl
  | succ n ih =>
    cases hhalted : m.isHalted with
    | true => rw [trail_of_isHalted hhalted, slices_of_isHalted hhalted, List.length_nil]
    | false => rw [trail_succ hhalted, slices_succ hhalted, List.length_cons, ih,
        Function.iterate_one]

/-- The entry of a step shows the counter in front of it and the instruction that it executes. -/
theorem getElem?_trail (h : k < slices 1 n m) :
    ∃ i, (step^[k] m).executes = some i ∧ (trail n m)[k]? = some ⟨(step^[k] m).pc, i⟩ := by
  induction n generalizing m k with
  | zero => exact absurd h (Nat.not_lt_zero k)
  | succ n ih =>
    have hrunning : m.isHalted = false := by
      by_contra hhalted
      rw [slices_of_isHalted (by simpa using hhalted)] at h
      exact absurd h (Nat.not_lt_zero k)
    rw [trail_succ hrunning]
    cases k with
    | zero => exact ⟨m.current, by simp [executes, hrunning], rfl⟩
    | succ k =>
      rw [slices_succ hrunning, Function.iterate_one] at h
      exact ih (Nat.lt_of_succ_lt_succ h)

/-- A trail is that of its first steps and that of the others. -/
theorem trail_add (first second : Nat) (m : Machine) :
    trail (first + second) m = trail first m ++ trail second (step^[first] m) := by
  induction first generalizing m with
  | zero => rw [Nat.zero_add, trail, Function.iterate_zero_apply, List.nil_append]
  | succ first ih =>
    rw [Nat.succ_add]
    cases hhalted : m.isHalted with
    | true =>
      rw [Function.iterate_fixed (step_of_isHalted hhalted), trail_of_isHalted hhalted,
        trail_of_isHalted hhalted, trail_of_isHalted hhalted, List.nil_append]
    | false =>
      rw [trail_succ hhalted, trail_succ hhalted, ih, Function.iterate_succ_apply, List.cons_append]

/-- A burst counts the steps of its trail. -/
theorem burstFrom_fst (executed budget : Nat) (m : Machine) :
    (burstFrom executed budget m).1 = executed + (trail budget m).length := by
  induction budget generalizing executed m with
  | zero => rfl
  | succ budget ih =>
    cases hhalted : m.isHalted with
    | true =>
      rw [burstFrom, if_pos hhalted, trail_of_isHalted hhalted]
      rfl
    | false =>
      rw [burstFrom, hhalted, if_neg Bool.false_ne_true, ih, trail_succ hhalted,
        step_of_running hhalted, List.length_cons]
      omega

theorem burst_fst (budget : Nat) (m : Machine) :
    (m.burst budget).1 = (trail budget m).length := by
  rw [burst, burstFrom_fst, Nat.zero_add]

/-- A traced burst adds the trail of its steps to the trace. -/
theorem traceFrom_eq (trace : Array TraceEntry) (n : Nat) (m : Machine) :
    traceFrom trace n m = (trace ++ (trail n m).toArray, step^[n] m) := by
  induction n generalizing trace m with
  | zero => simp [traceFrom, trail]
  | succ n ih =>
    cases hhalted : m.isHalted with
    | true =>
      rw [traceFrom, if_pos hhalted, trail_of_isHalted hhalted,
        Function.iterate_fixed (step_of_isHalted hhalted)]
      simp
    | false =>
      rw [traceFrom, hhalted, if_neg Bool.false_ne_true, ih, trail_succ hhalted,
        Function.iterate_succ_apply, step_of_running hhalted]
      simp

end Machine

end TernaryConsole
