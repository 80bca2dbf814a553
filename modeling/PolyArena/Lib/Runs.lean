import Mathlib.Data.Option.Basic

/-!
# Runs of a machine

A machine is a partial step function on states, with an action for everything that can happen next.
`Run step guard s₀ s` says that `s` is reached from `s₀` by steps that are all taken where `guard`
holds.

1. `Run.invariant`: what the start satisfies and every guarded step preserves holds after every run.
2. `exec` runs a list of actions, checking the guard of each; `run_of_exec` turns it into a run.
-/

/-- The states reached from `s₀` by guarded steps. -/
inductive Run {σ α : Type*} (step : σ → α → Option σ) (guard : σ → α → Prop) (s₀ : σ) : σ → Prop
  | start : Run step guard s₀ s₀
  | next {s s' : σ} {a : α} (hrun : Run step guard s₀ s) (hguard : guard s a)
      (hstep : step s a = some s') : Run step guard s₀ s'

section

variable {σ α : Type*} {step : σ → α → Option σ} {guard : σ → α → Prop} {s₀ s : σ}

/-- **An invariant** of the guarded steps holds after every run. -/
theorem Run.invariant (inv : σ → Prop) (h₀ : inv s₀)
    (hkeep : ∀ s a s', inv s → guard s a → step s a = some s' → inv s') (h : Run step guard s₀ s) :
    inv s := by
  induction h with
  | start => exact h₀
  | next _ hguard hstep ih => exact hkeep _ _ _ ih hguard hstep

theorem Run.trans {s' : σ} (h : Run step guard s₀ s) (h' : Run step guard s s') :
    Run step guard s₀ s' := by
  induction h' with
  | start => exact h
  | next _ hguard hstep ih => exact .next ih hguard hstep

theorem Run.mono {guard' : σ → α → Prop} (hguard : ∀ s a, guard s a → guard' s a)
    (h : Run step guard s₀ s) :
    Run step guard' s₀ s := by
  induction h with
  | start => exact .start
  | next _ hg hstep ih => exact .next ih (hguard _ _ hg) hstep

/-- Run the listed actions, `none` when one is not possible or not guarded. -/
def exec (step : σ → α → Option σ) (guard : σ → α → Prop) [∀ s a, Decidable (guard s a)] :
    σ → List α → Option σ
  | s, [] => some s
  | s, a :: rest =>
    if guard s a then
      match step s a with
      | none => none
      | some s' => exec step guard s' rest
    else none

theorem exec_cons [∀ s a, Decidable (guard s a)] {s' : σ} {a : α} {as : List α} (hguard : guard s a)
    (hstep : step s a = some s') : exec step guard s (a :: as) = exec step guard s' as := by
  rw [exec, if_pos hguard, hstep]

theorem run_of_exec [∀ s a, Decidable (guard s a)] {as : List α}
    (h : exec step guard s₀ as = some s) :
    Run step guard s₀ s := by
  induction as generalizing s₀ with
  | nil =>
    cases h
    exact .start
  | cons a as ih =>
    unfold exec at h
    split at h
    · next hguard =>
      cases hs : step s₀ a with
      | none => simp [hs] at h
      | some s' =>
        simp only [hs] at h
        exact Run.trans (.next .start hguard hs) (ih h)
    · cases h

end
