import PolyArena.Lib.Transactions
import Mathlib.Data.Set.Insert

/-!
# Transactions that rely on what the others guarantee

A run of concurrent transactions need not be serializable to be right: it is enough that what a
transaction has read stays true enough.  `later x y` says what every commit guarantees of the store,
and what a transaction in progress may rely on.  The invariant may also speak of the stores of the
past, since a transaction may commit what it read in one of them.

1. `Concurrent.Passes`: a run, with the stores that it passes.
2. `Txn.Safe`: the rest of a transaction keeps the invariant and the guarantee, whatever the others
   do meanwhile.
3. `Concurrent.relies`: when every transaction is safe from the store that it starts on, every run
   keeps both.
-/

section

variable {σ ι : Type} {inv : Set σ → σ → Prop} {later : σ → σ → Prop} {past past' : Set σ}

/-- What is left of the transaction, on a store that is later than `x`, after the stores `past`. -/
def Txn.Safe (inv : Set σ → σ → Prop) (later : σ → σ → Prop) : Txn σ → Set σ → σ → Prop
  | .commit write, past, x => ∀ past' y, past ⊆ past' → y ∈ past' → later x y → inv past' y →
      inv (insert (write y) past') (write y) ∧ later y (write y)
  | @read _ _ _ query next, past, x =>
    ∀ past' y, past ⊆ past' → y ∈ past' → later x y → inv past' y →
      (next (query y)).Safe inv later past' y

theorem Txn.Safe.mono (htrans : ∀ x y z, later x y → later y z → later x z) {t : Txn σ} {x y : σ}
    (h : t.Safe inv later past x) (hpast : past ⊆ past') (hxy : later x y) :
    t.Safe inv later past' y := by
  cases t with
  | commit write =>
    exact fun past'' z hp hz hyz => h past'' z (hpast.trans hp) hz (htrans _ _ _ hxy hyz)
  | read query next =>
    exact fun past'' z hp hz hyz => h past'' z (hpast.trans hp) hz (htrans _ _ _ hxy hyz)

namespace Concurrent

variable {program : ι → Txn σ} {guard : Concurrent σ ι → TxnAction ι → Prop} {x₀ : σ}
  {s s' : Concurrent σ ι}

/-- A run from `x₀`, with the stores it has passed and those of before. -/
inductive Passes (program : ι → Txn σ) (guard : Concurrent σ ι → TxnAction ι → Prop) (past₀ : Set σ)
    (x₀ : σ) : Set σ → Concurrent σ ι → Prop
  | start : Passes program guard past₀ x₀ (insert x₀ past₀) (.init x₀)
  | next {past : Set σ} {s s' : Concurrent σ ι} {a : TxnAction ι}
      (h : Passes program guard past₀ x₀ past s) (hguard : guard s a)
      (hstep : s.step program a = some s') :
      Passes program guard past₀ x₀ (insert s'.store past) s'

/-- Every run passes some stores. -/
theorem passes_of_run (past₀ : Set σ) (h : Run (Concurrent.step program) guard (.init x₀) s) :
    ∃ past, Passes program guard past₀ x₀ past s := by
  induction h with
  | start => exact ⟨_, .start⟩
  | next _ hguard hstep ih =>
    obtain ⟨past, hpast⟩ := ih
    exact ⟨_, .next hpast hguard hstep⟩

/-- The store is a later one, and what is in progress is safe. -/
structure Relies (inv : Set σ → σ → Prop) (later : σ → σ → Prop) (x₀ : σ) (past : Set σ)
    (s : Concurrent σ ι) : Prop where
  store : inv past s.store
  passed : s.store ∈ past
  grown : later x₀ s.store
  rest : ∀ thread r, s.running thread = some r → r.rest.Safe inv later past s.store

theorem Relies.setRunning (h : Relies inv later x₀ past s) (thread : ℕ) {r : Option (Running σ ι)}
    (hr : ∀ r' ∈ r, r'.rest.Safe inv later past s.store) :
    Relies inv later x₀ past (s.setRunning thread r) := by
  refine ⟨h.store, h.passed, h.grown, fun thread' r' hget => ?_⟩
  by_cases he : thread' = thread
  · subst he
    simp only [Concurrent.setRunning, Function.update_self] at hget
    exact hr r' hget
  · simp only [Concurrent.setRunning, Function.update_of_ne he] at hget
    exact h.rest thread' r' hget

variable (hrefl : ∀ x, later x x) (htrans : ∀ x y z, later x y → later y z → later x z)

include hrefl htrans

/-- **One step.** -/
theorem Relies.step {a : TxnAction ι}
    (hprogram : ∀ name past x, x ∈ past → inv past x → (program name).Safe inv later past x)
    (h : Relies inv later x₀ past s) (hstep : s.step program a = some s') :
    Relies inv later x₀ (insert s'.store past) s' := by
  -- but for a commit the store stays
  have hstay : ∀ {thread : ℕ} {r : Option (Running σ ι)},
      (∀ r' ∈ r, r'.rest.Safe inv later past s.store) →
        Relies inv later x₀ (insert s.store past) (s.setRunning thread r) := fun hr => by
    rw [Set.insert_eq_of_mem h.passed]
    exact h.setRunning _ hr
  cases a with
  | start thread name =>
    simp only [Concurrent.step] at hstep
    split at hstep
    · cases hstep
      refine hstay fun r hr => ?_
      obtain rfl := Option.some.inj hr
      exact hprogram name past s.store h.passed h.store
    · cases hstep
  | proceed thread =>
    simp only [Concurrent.step] at hstep
    split at hstep
    · cases hstep
    · next name write seen hget =>
      cases hstep
      obtain ⟨hinv, hgrown⟩ :=
        h.rest thread _ hget past s.store (Set.Subset.refl _) h.passed (hrefl _) h.store
      have hrest := (h.setRunning thread (r := none) (by simp)).rest
      exact ⟨hinv, Set.mem_insert _ _, htrans _ _ _ h.grown hgrown, fun thread' r hr =>
        (hrest thread' r hr).mono htrans (Set.subset_insert _ _) hgrown⟩
    · next name β _ query next seen hget =>
      cases hstep
      refine hstay fun r hr => ?_
      obtain rfl := Option.some.inj hr
      exact h.rest thread _ hget past s.store (Set.Subset.refl _) h.passed (hrefl _) h.store
  | abort thread =>
    cases hstep
    exact hstay (by simp)

/-- **The rely rule.** -/
theorem relies {past₀ : Set σ}
    (hprogram : ∀ name past x, x ∈ past → inv past x → (program name).Safe inv later past x)
    (h₀ : inv (insert x₀ past₀) x₀) (hrun : Passes program guard past₀ x₀ past s) :
    inv past s.store ∧ later x₀ s.store := by
  have hrelies : Relies inv later x₀ past s := by
    induction hrun with
    | start => exact ⟨h₀, Set.mem_insert _ _, hrefl _, by simp [init]⟩
    | next _ _ hstep ih => exact ih.step hrefl htrans hprogram hstep
  exact ⟨hrelies.store, hrelies.grown⟩

end Concurrent

end
