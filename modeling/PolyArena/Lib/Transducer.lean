import Mathlib.Data.List.Basic

/-!
# Machines with outputs

A machine takes its inputs one after the other, and each step gives a new state and some outputs.
`runOutputs_simulates` is the simulation rule: two machines of which each step answers a related one
with the same outputs give the same outputs on every list of inputs.
-/

/-- The state after the inputs, and the outputs of all steps. -/
def runOutputs {σ α ω : Type*} (step : σ → α → σ × List ω) : σ → List α → σ × List ω
  | s, [] => (s, [])
  | s, a :: rest =>
    let r := step s a
    let r' := runOutputs step r.1 rest
    (r'.1, r.2 ++ r'.2)

section

variable {σ τ α ω : Type*} {f : σ → α → σ × List ω} {g : τ → α → τ × List ω} {R : σ → τ → Prop}
  {s : σ} {t : τ}

@[simp] theorem runOutputs_nil : runOutputs f s [] = (s, []) := rfl

theorem runOutputs_cons (a : α) (as : List α) : runOutputs f s (a :: as) =
    ((runOutputs f (f s a).1 as).1, (f s a).2 ++ (runOutputs f (f s a).1 as).2) := rfl

theorem runOutputs_singleton (a : α) : runOutputs f s [a] = f s a := by
  rw [runOutputs_cons, runOutputs_nil, List.append_nil]

/-- **The simulation rule.** -/
theorem runOutputs_simulates
    (hstep : ∀ s t a, R s t → R (f s a).1 (g t a).1 ∧ (f s a).2 = (g t a).2) (h : R s t)
    (as : List α) :
    R (runOutputs f s as).1 (runOutputs g t as).1 ∧
      (runOutputs f s as).2 = (runOutputs g t as).2 := by
  induction as generalizing s t with
  | nil => exact ⟨h, rfl⟩
  | cons a as ih =>
    obtain ⟨hnext, hout⟩ := hstep s t a h
    obtain ⟨hend, houts⟩ := ih hnext
    rw [runOutputs_cons, runOutputs_cons]
    exact ⟨hend, by rw [hout, houts]⟩

end
