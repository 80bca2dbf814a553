import PolyArena.Api.StreamConsumers
import PolyArena.Handlers
import PolyArena.Lib.Runs

/-!
# The drain of the pending list

A consumer starts with `_drain_pending`: it reads the first ten entries that are pending for it,
hands each to the handler, and reads again until nothing is pending.  A handler that fails does not
acknowledge, and then the next read shows the entry again.

1. What the handlers do is an input: `acks id k` says whether the attempt `k` on the entry
   acknowledges.
2. `owed`: the attempts that an entry still needs.  A handler call takes one off its own entry and
   leaves the others (`owed_handle_lt`, `owed_handle_le`).
3. `drain_returns_iff`: the drain returns exactly when every entry that is pending for the consumer
   is acknowledged at some attempt.  One entry that never is keeps it reading
   (`malformed_never_drained`).
4. `drain_run`: what the drain does is a run of the worker, which ends in its reading loop.
-/

namespace PolyArena

/-! ## The loop -/

/-- The group in the middle of a drain, how often each entry was handled, and `count`. -/
structure Drain (μ : Type*) where
  group : ConsumerGroup μ String
  attempts : ℕ → ℕ := fun _ => 0
  count : ℕ := 0

section

variable {μ : Type*}

/-- `await handler(r, stream, group, msg_id, data)` and `count += 1`. -/
def Drain.handle (acks : ℕ → ℕ → Bool) (d : Drain μ) (id : ℕ) : Drain μ where
  group := if acks id (d.attempts id) then d.group.xack id else d.group
  attempts := Function.update d.attempts id (d.attempts id + 1)
  count := d.count + 1

/-- The messages of one read, one after the other. -/
def Drain.handleAll (acks : ℕ → ℕ → Bool) (d : Drain μ) (messages : List (ℕ × μ)) : Drain μ :=
  messages.foldl (fun d m => d.handle acks m.1) d

/-- `_drain_pending`: what it leaves when it returns within so many reads. -/
def drainPending (acks : ℕ → ℕ → Bool) (consumer : String) : ℕ → Drain μ → Option (Drain μ)
  | 0, _ => none
  | reads + 1, d =>
    let messages := d.group.readPending consumer READ_COUNT
    if messages.isEmpty then some d
    else drainPending acks consumer reads (d.handleAll acks messages)

/-- The drain of the group returns. -/
def DrainReturns (acks : ℕ → ℕ → Bool) (consumer : String) (g : ConsumerGroup μ String) : Prop :=
  ∃ reads, (drainPending acks consumer reads ⟨g, fun _ => 0, 0⟩).isSome

namespace Drain

variable {acks : ℕ → ℕ → Bool} {consumer : String} {d d' : Drain μ} {id id' reads : ℕ}
  {messages : List (ℕ × μ)}

/-! ## One handler call -/

theorem pendingFor_handle : (d.handle acks id').group.PendingFor consumer id ↔
    d.group.PendingFor consumer id ∧ (id = id' → acks id (d.attempts id) = false) := by
  unfold handle
  by_cases hack : acks id' (d.attempts id') = true
  · rw [if_pos hack, ConsumerGroup.pendingFor_xack]
    refine and_congr_right fun _ => ⟨fun hne heq => absurd heq hne, fun hnot heq => ?_⟩
    subst heq
    rw [hnot rfl] at hack
    cases hack
  · rw [if_neg hack]
    refine ⟨fun h => ⟨h, ?_⟩, And.left⟩
    rintro rfl
    exact Bool.not_eq_true _ ▸ hack

theorem attempts_handle_self : (d.handle acks id).attempts id = d.attempts id + 1 :=
  Function.update_self ..

theorem attempts_handle_of_ne (h : id ≠ id') : (d.handle acks id').attempts id = d.attempts id :=
  Function.update_of_ne h ..

/-- An entry that is never acknowledged stays. -/
theorem pendingFor_handleAll (hnever : ∀ k, acks id k = false)
    (hid : d.group.PendingFor consumer id) :
    (d.handleAll acks messages).group.PendingFor consumer id := by
  unfold handleAll
  induction messages generalizing d with
  | nil => exact hid
  | cons m messages ih => exact ih (pendingFor_handle.mpr ⟨hid, fun _ => hnever _⟩)

/-- **A poison message**: with an entry that is never acknowledged the drain goes on reading. -/
theorem not_returns (hnever : ∀ k, acks id k = false) (hid : d.group.PendingFor consumer id) :
    drainPending acks consumer reads d = none := by
  induction reads generalizing d with
  | zero => rfl
  | succ reads ih =>
    have hread : ¬ (d.group.readPending consumer READ_COUNT).isEmpty = true := fun hempty =>
      ConsumerGroup.not_pendingFor_of_readPending (show 0 < READ_COUNT by decide)
        (List.isEmpty_iff.mp hempty) hid
    rw [drainPending, if_neg hread]
    exact ih (pendingFor_handleAll hnever hid)

/-! ## The attempts that are left -/

/-- Every entry that is pending for the consumer is among `ids` and is acknowledged at its attempt
`need id`, which is still to come. -/
def InTime (acks : ℕ → ℕ → Bool) (consumer : String) (ids : Finset ℕ) (need : ℕ → ℕ)
    (d : Drain μ) : Prop :=
  ∀ id, d.group.PendingFor consumer id →
    id ∈ ids ∧ acks id (need id) = true ∧ d.attempts id ≤ need id

open Classical in
/-- The attempts that an entry still needs. -/
noncomputable def owed (consumer : String) (need : ℕ → ℕ) (d : Drain μ) (id : ℕ) : ℕ :=
  if d.group.PendingFor consumer id then need id + 1 - d.attempts id else 0

variable {ids : Finset ℕ} {need : ℕ → ℕ}

theorem InTime.handle (h : d.InTime acks consumer ids need) (id : ℕ) :
    (d.handle acks id).InTime acks consumer ids need := by
  intro i hi
  obtain ⟨hi, hnot⟩ := pendingFor_handle.mp hi
  obtain ⟨hmem, hack, hle⟩ := h i hi
  refine ⟨hmem, hack, ?_⟩
  by_cases heq : i = id
  · subst heq
    rw [attempts_handle_self]
    -- the attempt that acknowledges was not this one
    have hne : d.attempts i ≠ need i := fun h => by rw [h, hack] at hnot; cases hnot rfl
    omega
  · rw [attempts_handle_of_ne heq]
    exact hle

theorem owed_handle_le : owed consumer need (d.handle acks id') id ≤ owed consumer need d id := by
  classical
  unfold owed
  by_cases hpend : (d.handle acks id').group.PendingFor consumer id
  · rw [if_pos hpend, if_pos (pendingFor_handle.mp hpend).1]
    by_cases heq : id = id'
    · subst heq
      rw [attempts_handle_self]
      omega
    · rw [attempts_handle_of_ne heq]
  · rw [if_neg hpend]
    exact Nat.zero_le _

/-- **A handler call takes an attempt off its own entry.** -/
theorem owed_handle_lt (h : d.InTime acks consumer ids need)
    (hid : d.group.PendingFor consumer id) :
    owed consumer need (d.handle acks id) id < owed consumer need d id := by
  classical
  obtain ⟨-, -, hle⟩ := h id hid
  unfold owed
  rw [if_pos hid, attempts_handle_self]
  split <;> omega

/-- All the attempts that are left. -/
noncomputable def owedOf (consumer : String) (ids : Finset ℕ) (need : ℕ → ℕ) (d : Drain μ) : ℕ :=
  ∑ id ∈ ids, owed consumer need d id

theorem owedOf_handle_le :
    owedOf consumer ids need (d.handle acks id) ≤ owedOf consumer ids need d :=
  Finset.sum_le_sum fun _ _ => owed_handle_le

theorem owedOf_handleAll_le :
    owedOf consumer ids need (d.handleAll acks messages) ≤ owedOf consumer ids need d := by
  unfold handleAll
  induction messages generalizing d with
  | nil => exact le_rfl
  | cons m messages ih => exact ih.trans owedOf_handle_le

theorem InTime.handleAll (h : d.InTime acks consumer ids need) (messages : List (ℕ × μ)) :
    (d.handleAll acks messages).InTime acks consumer ids need :=
  List.foldlRecOn (motive := fun d : Drain μ => d.InTime acks consumer ids need) _ _ h
    fun _ h m _ => h.handle m.1

/-- A read that is not empty brings the end nearer. -/
theorem owedOf_round_lt (h : d.InTime acks consumer ids need)
    (hread : d.group.readPending consumer READ_COUNT ≠ []) :
    owedOf consumer ids need (d.handleAll acks (d.group.readPending consumer READ_COUNT)) <
      owedOf consumer ids need d := by
  obtain ⟨m, messages, heq⟩ := List.exists_cons_of_ne_nil hread
  have hid : d.group.PendingFor consumer m.1 :=
    ConsumerGroup.pendingFor_of_mem_readPending (heq ▸ List.mem_cons_self ..)
  have hrest : owedOf consumer ids need ((d.handle acks m.1).handleAll acks messages) ≤
      owedOf consumer ids need (d.handle acks m.1) := owedOf_handleAll_le
  rw [heq]
  calc owedOf consumer ids need (d.handleAll acks (m :: messages))
      ≤ owedOf consumer ids need (d.handle acks m.1) := hrest
    _ < owedOf consumer ids need d :=
      Finset.sum_lt_sum (fun _ _ => owed_handle_le) ⟨m.1, (h m.1 hid).1, owed_handle_lt h hid⟩

theorem InTime.returns (h : d.InTime acks consumer ids need) :
    ∃ reads, (drainPending acks consumer reads d).isSome := by
  induction hn : owedOf consumer ids need d using Nat.strong_induction_on generalizing d with
  | _ n ih =>
    subst hn
    by_cases hread : d.group.readPending consumer READ_COUNT = []
    · exact ⟨1, by simp [drainPending, hread]⟩
    · obtain ⟨reads, hsome⟩ := ih _ (owedOf_round_lt h hread) (h.handleAll _) rfl
      exact ⟨reads + 1, by simpa [drainPending, hread] using hsome⟩

end Drain

theorem DrainReturns.acked {acks : ℕ → ℕ → Bool} {consumer : String} {g : ConsumerGroup μ String}
    (h : DrainReturns acks consumer g) {id : ℕ} (hid : g.PendingFor consumer id) :
    ∃ k, acks id k = true := by
  obtain ⟨reads, hsome⟩ := h
  by_contra hnever
  simp only [not_exists, Bool.not_eq_true] at hnever
  have hnone : drainPending acks consumer reads ⟨g, fun _ => 0, 0⟩ = none :=
    Drain.not_returns hnever hid
  rw [hnone] at hsome
  cases hsome

/-- **When the drain returns**: every entry that is pending for the consumer is acknowledged at some
attempt. -/
theorem drain_returns_iff (acks : ℕ → ℕ → Bool) (consumer : String) (g : ConsumerGroup μ String) :
    DrainReturns acks consumer g ↔ ∀ id, g.PendingFor consumer id → ∃ k, acks id k = true := by
  refine ⟨fun h _ hid => h.acked hid, fun hacked => ?_⟩
  choose! need hneed using hacked
  have hintime : Drain.InTime acks consumer (g.pending.map (·.1.1)).toFinset need
      ⟨g, fun _ => 0, 0⟩ := by
    refine fun id hid => ⟨?_, hneed id hid, Nat.zero_le _⟩
    obtain ⟨e, he, -, rfl⟩ := hid
    exact List.mem_toFinset.mpr (List.mem_map_of_mem he)
  exact hintime.returns

/-! ## A message that no handler can read -/

/-- The data of a fill message, `none` when a field is missing or is not a number: then the handler
raises before it reads the database. -/
def handleFillData (now : Time) (fetch : CandleFetch) (db : Database) :
    Option FillMessage → Database × Bool
  | none => (db, false)
  | some m => handleOrderFill now fetch db m

/-- A pending fill message that is malformed. -/
def malformedPending : ConsumerGroup (Option FillMessage) String where
  nextId := 1
  pending := [((0, none), consumeOrderFills.name 1)]

/-- The drain of the order fills never gets past a malformed message, whenever it is handled and
whatever the database holds. -/
theorem malformed_never_drained (world : ℕ → Time × CandleFetch × Database) :
    ¬ DrainReturns (fun _ k => (handleFillData (world k).1 (world k).2.1 (world k).2.2 none).2)
      (consumeOrderFills.name 1) malformedPending := by
  intro hreturns
  obtain ⟨_, hacked⟩ := hreturns.acked ⟨_, List.mem_singleton_self _, rfl, rfl⟩
  cases hacked

/-- The drain does not return after every outcome. -/
theorem drain_stuck : ¬ ∀ (acks : ℕ → ℕ → Bool) (consumer : String)
    (g : ConsumerGroup (Option FillMessage) String), DrainReturns acks consumer g :=
  fun hall => malformed_never_drained (fun _ => (0, fun _ => none, oneOrderDb)) (hall _ _ _)

/-! ## The worker that drains -/

variable {c : StreamConsumer} {pid reads : ℕ} {acks : ℕ → ℕ → Bool} {d d' : Drain μ}
  {s : StreamWorkers μ}

theorem handleAll_run (acks : ℕ → ℕ → Bool) {messages : List (ℕ × μ)} (hgroup : s.group = d.group)
    (hw : s.workers pid = some ⟨true, messages⟩) :
    ∃ s', Run (StreamWorkers.step c) (fun _ _ => True) s s' ∧
      s'.group = (d.handleAll acks messages).group ∧ s'.workers pid = some ⟨true, []⟩ := by
  induction messages generalizing s d with
  | nil => exact ⟨s, .start, hgroup, hw⟩
  | cons m messages ih =>
    let acked := acks m.1 (d.attempts m.1)
    let s₁ := { s with group := if acked then s.group.xack m.1 else s.group }.setWorker pid
      (some ⟨true, messages⟩)
    have hstep : StreamWorkers.step c s (.handle pid acked) = some s₁ := by
      simp only [StreamWorkers.step, hw, s₁]
    have hgroup₁ : s₁.group = (d.handle acks m.1).group := by
      rw [Drain.handle, ← hgroup]
      rfl
    obtain ⟨s', hrun, hgroup', hw'⟩ := ih hgroup₁ (StreamWorkers.setWorker_self _)
    exact ⟨s', Run.trans (.next .start trivial hstep) hrun, hgroup', hw'⟩

/-- **A drain that returns is a run of its worker** into the reading loop. -/
theorem drain_run (hdrain : drainPending acks (c.name pid) reads d = some d')
    (hgroup : s.group = d.group) (hw : s.workers pid = some ⟨true, []⟩) :
    ∃ s', Run (StreamWorkers.step c) (fun _ _ => True) s s' ∧ s'.group = d'.group ∧
      s'.Reading pid := by
  induction reads generalizing s d with
  | zero => cases hdrain
  | succ reads ih =>
    have hread : StreamWorkers.step c s (.read pid) = some (s.drainPending c pid) := by
      simp only [StreamWorkers.step, hw]
    have hworker : (s.drainPending c pid).workers pid =
        some ⟨!(d.group.readPending (c.name pid) READ_COUNT).isEmpty,
          d.group.readPending (c.name pid) READ_COUNT⟩ := by
      rw [StreamWorkers.drainPending, StreamWorkers.setWorker_self, hgroup]
    rw [drainPending] at hdrain
    split at hdrain
    · next hempty =>
      cases hdrain
      rw [hempty] at hworker
      exact ⟨_, .next .start trivial hread, hgroup, _, hworker⟩
    · next hempty =>
      rw [Bool.not_eq_true] at hempty
      rw [hempty] at hworker
      obtain ⟨s₁, hrun₁, hgroup₁, hw₁⟩ :=
        handleAll_run (c := c) (s := s.drainPending c pid) (d := d) acks hgroup hworker
      obtain ⟨s₂, hrun₂, hgroup₂, hreading⟩ := ih hdrain hgroup₁ hw₁
      exact ⟨s₂, Run.trans (.next .start trivial hread) (Run.trans hrun₁ hrun₂), hgroup₂, hreading⟩

end

end PolyArena
