import PolyArena.Lib.Runs
import Mathlib.Data.Nat.Notation
import Mathlib.Logic.Function.Basic

/-!
# Transactions that read, then commit

A transaction reads a shared store, one query at a time, and commits a single write at the end
(`Txn`).  Nothing is locked: other transactions may commit between a read and the write that was
computed from it.

1. `Txn.run` is the transaction alone.
2. `Concurrent` is a store with a transaction running on each of any number of threads; `step`
   starts one, lets one take its next read or its commit, or drops one.
3. `undisturbed` says that a transaction that commits still finds what it read.
4. `serializable`: a run whose commits are undisturbed leaves the store that the committed
   transactions leave one after the other, in the order of their commits.
-/

/-- A transaction over a store `σ`. -/
inductive Txn (σ : Type) : Type 1
  | commit (write : σ → σ)
  | read {β : Type} [DecidableEq β] (query : σ → β) (next : β → Txn σ)

/-- The transaction alone. -/
def Txn.run {σ : Type} : Txn σ → σ → σ
  | commit write, x => write x
  | @read _ _ _ query next, x => (next (query x)).run x

/-- A transaction in progress.  `seen x` says that its reads so far would find the same in `x`. -/
structure Running (σ ι : Type) : Type 1 where
  name : ι
  rest : Txn σ
  seen : σ → Bool

/-- A store, the transactions in progress and the names of the committed ones, the latest last. -/
structure Concurrent (σ ι : Type) : Type 1 where
  store : σ
  running : ℕ → Option (Running σ ι)
  committed : List ι

/-- What can happen next. -/
inductive TxnAction (ι : Type)
  | start (thread : ℕ) (name : ι)
  | proceed (thread : ℕ)
  | abort (thread : ℕ)

namespace Concurrent

variable {σ ι : Type} (program : ι → Txn σ)

/-- A store without transactions in progress. -/
def init (x : σ) : Concurrent σ ι := ⟨x, fun _ => none, []⟩

/-- What `thread` runs becomes `r`. -/
def setRunning (s : Concurrent σ ι) (thread : ℕ) (r : Option (Running σ ι)) : Concurrent σ ι :=
  { s with running := Function.update s.running thread r }

/-- One step of one thread. -/
def step (s : Concurrent σ ι) : TxnAction ι → Option (Concurrent σ ι)
  | .start thread name =>
    match s.running thread with
    | none => some (s.setRunning thread (some ⟨name, program name, fun _ => true⟩))
    | some _ => none
  | .proceed thread =>
    match s.running thread with
    | none => none
    | some ⟨name, .commit write, _⟩ =>
      some { s.setRunning thread none with
        store := write s.store
        committed := s.committed ++ [name] }
    | some ⟨name, @Txn.read _ _ _ query next, seen⟩ =>
      some (s.setRunning thread (some ⟨name, next (query s.store),
        fun x => seen x && query x = query s.store⟩))
  | .abort thread => some (s.setRunning thread none)

/-- A commit finds what its transaction read. -/
def undisturbed (s : Concurrent σ ι) : TxnAction ι → Bool
  | .proceed thread =>
    match s.running thread with
    | some ⟨_, .commit _, seen⟩ => seen s.store
    | _ => true
  | _ => true

/-- The store is what the committed transactions leave one after the other, and a store in which the
reads of a transaction in progress would find the same is one on which the rest of it does what the
whole of it does. -/
structure Inv (x₀ : σ) (s : Concurrent σ ι) : Prop where
  store : s.store = s.committed.foldl (fun x name => (program name).run x) x₀
  rest : ∀ thread r, s.running thread = some r → ∀ x, r.seen x = true →
    (program r.name).run x = r.rest.run x

variable {program} {x₀ : σ} {s s' : Concurrent σ ι}

theorem Inv.setRunning (h : Inv program x₀ s) (thread : ℕ) {r : Option (Running σ ι)}
    (hr : ∀ r' ∈ r, ∀ x, r'.seen x = true → (program r'.name).run x = r'.rest.run x) :
    Inv program x₀ (s.setRunning thread r) := by
  refine ⟨h.store, fun thread' r' hget => ?_⟩
  by_cases he : thread' = thread
  · subst he
    simp only [Concurrent.setRunning, Function.update_self] at hget
    exact hr r' hget
  · simp only [Concurrent.setRunning, Function.update_of_ne he] at hget
    exact h.rest thread' r' hget

/-- **One step.** -/
theorem Inv.step {a : TxnAction ι} (h : Inv program x₀ s) (hundisturbed : s.undisturbed a = true)
    (hstep : s.step program a = some s') : Inv program x₀ s' := by
  cases a with
  | start thread name =>
    simp only [Concurrent.step] at hstep
    split at hstep
    · cases hstep
      refine h.setRunning thread fun r hr x _ => ?_
      obtain rfl := Option.some.inj hr
      rfl
    · cases hstep
  | proceed thread =>
    simp only [Concurrent.step] at hstep
    simp only [undisturbed] at hundisturbed
    split at hstep
    · cases hstep
    · next name write seen hget =>
      cases hstep
      rw [hget] at hundisturbed
      have hrun : (program name).run s.store = write s.store :=
        h.rest thread _ hget s.store hundisturbed
      refine ⟨?_, (h.setRunning thread (by simp)).rest⟩
      rw [List.foldl_append, ← h.store, List.foldl_cons, List.foldl_nil, hrun]
    · next name β _ query next seen hget =>
      cases hstep
      refine h.setRunning thread fun r hr x hx => ?_
      obtain rfl := Option.some.inj hr
      rw [Bool.and_eq_true, decide_eq_true_eq] at hx
      calc (program name).run x = (Txn.read query next).run x := h.rest thread _ hget x hx.1
        _ = (next (query s.store)).run x := by rw [Txn.run, hx.2]
  | abort thread =>
    cases hstep
    exact h.setRunning thread (by simp)

/-- **Undisturbed commits are serializable**: the store is what the committed transactions leave
when they run one after the other. -/
theorem serializable
    (h : Run (Concurrent.step program) (fun s a => s.undisturbed a = true) (.init x₀) s) :
    s.store = s.committed.foldl (fun x name => (program name).run x) x₀ :=
  (h.invariant (Inv program x₀) ⟨rfl, by simp [init]⟩ fun _ _ _ => Inv.step).store

end Concurrent
