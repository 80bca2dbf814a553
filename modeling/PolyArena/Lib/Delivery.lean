import Mathlib.Data.List.Basic

/-!
# Messages that are delivered more than once

A receiver folds a step function over the messages it is handed.  `firstCopies` drops every copy of
a message after its first.  When a message that was handled changes nothing from then on
(`Absorbing`), handling all copies is handling the first ones (`Absorbing.foldl`).
-/

section

variable {σ α ι : Type*} {step : σ → α → σ}

/-- The messages without the copies of those already `seen`. -/
def firstCopies [DecidableEq ι] (key : α → ι) : List ι → List α → List α
  | _, [] => []
  | seen, a :: l =>
    if key a ∈ seen then firstCopies key seen l else a :: firstCopies key (key a :: seen) l

/-- On good states the receiver absorbs the messages `ms`: a message is done once it was handled, it
stays done, and one that is done changes nothing. -/
structure Absorbing (step : σ → α → σ) (key : α → ι) (good : σ → Prop) (ms : α → Prop)
    (done : σ → α → Prop) : Prop where
  keep : ∀ s a, good s → ms a → good (step s a)
  handled : ∀ s a, good s → ms a → done (step s a) a
  lasts : ∀ s a a', good s → ms a → ms a' → done s a → done (step s a') a
  skip : ∀ s a, good s → ms a → done s a → step s a = s
  copy : ∀ s a a', ms a → ms a' → key a' = key a → done s a → done s a'

/-- **Copies are harmless** to a receiver that absorbs its messages. -/
theorem Absorbing.foldl [DecidableEq ι] {key : α → ι} {good : σ → Prop} {ms : α → Prop}
    {done : σ → α → Prop} (h : Absorbing step key good ms done) {l : List α} (hl : ∀ a ∈ l, ms a) :
    ∀ {s : σ} {seen : List ι}, good s → (∀ a, ms a → key a ∈ seen → done s a) →
      l.foldl step s = (firstCopies key seen l).foldl step s := by
  induction l with
  | nil => exact fun _ _ => rfl
  | cons a l ih =>
    intro s seen hs hseen
    have ha : ms a := hl a (List.mem_cons_self ..)
    replace ih := @ih fun x hx => hl x (List.mem_cons_of_mem _ hx)
    unfold firstCopies
    by_cases hcopy : key a ∈ seen
    · rw [if_pos hcopy, List.foldl_cons, h.skip s a hs ha (hseen a ha hcopy)]
      exact ih hs hseen
    · rw [if_neg hcopy, List.foldl_cons, List.foldl_cons]
      refine ih (h.keep s a hs ha) fun x hx hkey => ?_
      rcases List.mem_cons.mp hkey with hsame | hold
      · exact h.copy _ a x ha hx hsame (h.handled s a hs ha)
      · exact h.lasts s x a hs hx ha (hseen x hx hold)

end
