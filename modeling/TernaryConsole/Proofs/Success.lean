import Mathlib.Data.List.Basic

/-!
# Proofs.Success — computations that did not fail

A computation that may fail and did not went through all of its steps.
-/

namespace TernaryConsole

variable {ε α β : Type}

/-- Both steps of a successful computation succeed. -/
theorem exists_of_bind_eq_ok {first : Except ε α} {next : α → Except ε β}
    {result : β} (h : (first >>= next) = .ok result) :
    ∃ value, first = .ok value ∧ next value = .ok result := by
  cases first with
  | error fault => exact absurd h (by simp [bind, Except.bind])
  | ok value => exact ⟨value, rfl, h⟩

/-- The last item of a list is taken in by the state that those in front of it leave. -/
theorem exists_of_foldlM_concat {step : β → α → Except ε β} {front : List α} {last : α}
    {state result : β} (h : (front ++ [last]).foldlM step state = .ok result) :
    ∃ middle, front.foldlM step state = .ok middle ∧ step middle last = .ok result := by
  rw [List.foldlM_append] at h
  obtain ⟨middle, hfront, hlast⟩ := exists_of_bind_eq_ok h
  rw [List.foldlM_cons] at hlast
  obtain ⟨reached, hstep, hend⟩ := exists_of_bind_eq_ok hlast
  obtain rfl := Except.ok.inj hend
  exact ⟨middle, hfront, hstep⟩

/-- What every item preserves, a list of items preserves. -/
theorem foldlM_preserves {step : β → α → Except ε β} {motive : β → Prop}
    (hstep : ∀ {state item next}, motive state → step state item = .ok next → motive next)
    {items : List α} {state result : β} (hstate : motive state)
    (h : items.foldlM step state = .ok result) : motive result := by
  induction items generalizing state with
  | nil =>
    obtain rfl := Except.ok.inj h
    exact hstate
  | cons item items ih =>
    rw [List.foldlM_cons] at h
    obtain ⟨next, hfirst, hrest⟩ := exists_of_bind_eq_ok h
    exact ih (hstep hstate hfirst) hrest

/-- Steps that succeed where others do make a list of them succeed where that of the others does. -/
theorem foldlM_of_imp {step other : β → α → Except ε β}
    (hstep : ∀ {state item next}, step state item = .ok next → other state item = .ok next)
    {items : List α} {state result : β} (h : items.foldlM step state = .ok result) :
    items.foldlM other state = .ok result := by
  induction items generalizing state with
  | nil => exact h
  | cons item items ih =>
    rw [List.foldlM_cons] at h ⊢
    obtain ⟨next, hfirst, hrest⟩ := exists_of_bind_eq_ok h
    rw [hstep hfirst]
    exact ih hrest

end TernaryConsole
