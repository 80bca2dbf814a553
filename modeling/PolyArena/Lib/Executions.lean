import Mathlib.Algebra.Order.Group.Nat

/-!
# Executions without end

A statement about what happens later is about executions that go on: a state for every moment and
the action taken there.

1. `Execution.invariant`: what the start satisfies and every step preserves holds at every moment.
2. `Execution.since`: the same from a moment on.
3. `Execution.changes`: what does not hold at a moment and holds at a later one begins with a step
   between them.
4. `Execution.stay` and `Execution.cons` build one from finitely many steps and a state to stay in.
-/

/-- An execution from `s₀`: the state at every moment and the action that leads to the next one. -/
structure Execution {σ α : Type*} (step : σ → α → Option σ) (s₀ : σ) where
  state : ℕ → σ
  act : ℕ → α
  start : state 0 = s₀
  next : ∀ n, step (state n) (act n) = some (state (n + 1))

namespace Execution

variable {σ α : Type*} {step : σ → α → Option σ} {s₀ : σ} (e : Execution step s₀)

/-- **From a moment on**, a property of states that the steps keep. -/
theorem since (inv : σ → Prop) {n : ℕ} (hn : inv (e.state n))
    (hkeep : ∀ k, n ≤ k → inv (e.state k) → inv (e.state (k + 1))) {m : ℕ} (hm : n ≤ m) :
    inv (e.state m) := by
  induction m, hm using Nat.le_induction with
  | base => exact hn
  | succ k hk ih => exact hkeep k hk ih

theorem invariant (inv : σ → Prop) (h₀ : inv s₀)
    (hkeep : ∀ s a s', inv s → step s a = some s' → inv s') (n : ℕ) : inv (e.state n) :=
  e.since inv (e.start.symm ▸ h₀) (fun k _ hk => hkeep _ _ _ hk (e.next k)) (Nat.zero_le n)

/-- **A change takes a step.** -/
theorem changes (P : σ → Prop) {n m : ℕ} (hnm : n ≤ m) (hn : ¬ P (e.state n)) (hm : P (e.state m)) :
    ∃ k, n ≤ k ∧ k < m ∧ ¬ P (e.state k) ∧ P (e.state (k + 1)) := by
  induction m, hnm using Nat.le_induction with
  | base => exact absurd hm hn
  | succ k hk ih =>
    by_cases hPk : P (e.state k)
    · obtain ⟨j, hnj, hjk, hchange⟩ := ih hPk
      exact ⟨j, hnj, Nat.lt_succ_of_lt hjk, hchange⟩
    · exact ⟨k, hk, Nat.lt_succ_self k, hPk, hm⟩

/-- Stay in a state that a step does not change. -/
def stay {s : σ} (a : α) (h : step s a = some s) : Execution step s :=
  ⟨fun _ => s, fun _ => a, rfl, fun _ => h⟩

/-- Take a step first. -/
def cons {s : σ} (a : α) (h : step s₀ a = some s) (e : Execution step s) : Execution step s₀ where
  state
    | 0 => s₀
    | n + 1 => e.state n
  act
    | 0 => a
    | n + 1 => e.act n
  start := rfl
  next
    | 0 => h.trans (congrArg some e.start.symm)
    | n + 1 => e.next n

end Execution
