import Mathlib.Data.List.Nodup
import Mathlib.Data.List.Perm.Basic

/-!
# A consumer group of a stream

The entries of a stream are numbered as they are added.  The group hands an entry to one of its
named consumers, once, and keeps it in that consumer's pending list until it is acknowledged.

1. `readNew` takes entries that no consumer was given; they become pending for the reader.
2. `readPending` shows a consumer the entries that are pending for it, and no others.
3. `WellFormed`: no id is listed twice, so an entry is pending for one consumer only
   (`WellFormed.owner`), and every operation keeps this.
4. `OnlyFor`: an entry that was given to one consumer stays out of every other one's pending list.
-/

/-- A stream and a consumer group on it: the next id, the entries that were not delivered yet, and
the entries that were delivered to a consumer and not acknowledged. -/
structure ConsumerGroup (μ κ : Type*) where
  nextId : ℕ := 0
  waiting : List (ℕ × μ) := []
  pending : List ((ℕ × μ) × κ) := []
  deriving DecidableEq, Repr

namespace ConsumerGroup

variable {μ κ : Type*}

/-- `XADD`. -/
def xadd (g : ConsumerGroup μ κ) (m : μ) : ConsumerGroup μ κ :=
  { g with nextId := g.nextId + 1, waiting := g.waiting ++ [(g.nextId, m)] }

/-- `XREADGROUP` with an explicit id: the first `count` entries that are pending for `name`. -/
def readPending [DecidableEq κ] (g : ConsumerGroup μ κ) (name : κ) (count : ℕ) : List (ℕ × μ) :=
  ((g.pending.filter fun e => e.2 = name).map Prod.fst).take count

/-- `XREADGROUP` with `>`: the first `count` entries that were never delivered. -/
def readNew (g : ConsumerGroup μ κ) (name : κ) (count : ℕ) : List (ℕ × μ) × ConsumerGroup μ κ :=
  let entries := g.waiting.take count
  (entries, { g with
    waiting := g.waiting.drop count, pending := g.pending ++ entries.map (·, name) })

/-- `XACK`. -/
def xack (g : ConsumerGroup μ κ) (id : ℕ) : ConsumerGroup μ κ :=
  { g with pending := g.pending.filter fun e => e.1.1 ≠ id }

/-- The entry `id` was delivered to `name` and not acknowledged. -/
def PendingFor (g : ConsumerGroup μ κ) (name : κ) (id : ℕ) : Prop :=
  ∃ e ∈ g.pending, e.2 = name ∧ e.1.1 = id

/-- The ids that wait or are pending. -/
def ids (g : ConsumerGroup μ κ) : List ℕ :=
  g.waiting.map Prod.fst ++ g.pending.map (·.1.1)

structure WellFormed (g : ConsumerGroup μ κ) : Prop where
  distinct : g.ids.Nodup
  below : ∀ id ∈ g.ids, id < g.nextId

/-- The entry `id` was delivered, and is pending for no consumer other than `name`. -/
structure OnlyFor (g : ConsumerGroup μ κ) (name : κ) (id : ℕ) : Prop where
  below : id < g.nextId
  delivered : ∀ e ∈ g.waiting, e.1 ≠ id
  owner : ∀ name', g.PendingFor name' id → name' = name

section

variable {g : ConsumerGroup μ κ} {name : κ} {id count : ℕ}

theorem wellFormed_empty : (({} : ConsumerGroup μ κ)).WellFormed :=
  ⟨List.nodup_nil, fun _ h => absurd h List.not_mem_nil⟩

theorem WellFormed.pending_below (h : g.WellFormed) (hid : g.PendingFor name id) :
    id < g.nextId := by
  obtain ⟨e, he, -, rfl⟩ := hid
  exact h.below _ (List.mem_append_right _ (List.mem_map_of_mem he))

/-- **An entry is pending for one consumer only.** -/
theorem WellFormed.owner (h : g.WellFormed) {name' : κ} (hid : g.PendingFor name id)
    (hid' : g.PendingFor name' id) : name' = name := by
  obtain ⟨e, he, rfl, heq⟩ := hid
  obtain ⟨e', he', rfl, heq'⟩ := hid'
  have hnodup : (g.pending.map (·.1.1)).Nodup := (List.nodup_append.mp h.distinct).2.1
  rw [List.inj_on_of_nodup_map hnodup he' he (heq'.trans heq.symm)]

theorem WellFormed.waiting_not_pending (h : g.WellFormed) {e : ℕ × μ} (he : e ∈ g.waiting) :
    ¬ g.PendingFor name e.1 := by
  rintro ⟨e', he', -, heq⟩
  have hdisj := (List.nodup_append.mp h.distinct).2.2
  exact hdisj _ (List.mem_map_of_mem he) _ (List.mem_map_of_mem he') heq.symm

/-! ## What an operation leaves pending -/

@[simp] theorem pendingFor_xadd (m : μ) : (g.xadd m).PendingFor name id ↔ g.PendingFor name id :=
  Iff.rfl

@[simp] theorem pendingFor_xack {id' : ℕ} :
    (g.xack id').PendingFor name id ↔ g.PendingFor name id ∧ id ≠ id' := by
  simp only [PendingFor, xack, List.mem_filter, decide_eq_true_eq]
  constructor
  · rintro ⟨e, ⟨he, hne⟩, hname, rfl⟩
    exact ⟨⟨e, he, hname, rfl⟩, hne⟩
  · rintro ⟨⟨e, he, hname, rfl⟩, hne⟩
    exact ⟨e, ⟨he, hne⟩, hname, rfl⟩

theorem pendingFor_readNew {name' : κ} : (g.readNew name' count).2.PendingFor name id ↔
    g.PendingFor name id ∨ name' = name ∧ ∃ e ∈ (g.readNew name' count).1, e.1 = id := by
  simp only [PendingFor, readNew, List.mem_append, List.mem_map]
  constructor
  · rintro ⟨e, he | ⟨x, hx, rfl⟩, hname, hid⟩
    · exact .inl ⟨e, he, hname, hid⟩
    · exact .inr ⟨hname, x, hx, hid⟩
  · rintro (⟨e, he, hname, hid⟩ | ⟨rfl, x, hx, rfl⟩)
    · exact ⟨e, .inl he, hname, hid⟩
    · exact ⟨(x, name'), .inr ⟨x, hx, rfl⟩, rfl, rfl⟩

/-- **A consumer is shown its own pending entries**, and no others. -/
theorem pendingFor_of_mem_readPending [DecidableEq κ] {e : ℕ × μ}
    (he : e ∈ g.readPending name count) :
    g.PendingFor name e.1 := by
  obtain ⟨x, hx, rfl⟩ := List.mem_map.mp (List.mem_of_mem_take he)
  obtain ⟨hx, hname⟩ := List.mem_filter.mp hx
  exact ⟨x, hx, of_decide_eq_true hname, rfl⟩

/-- An empty answer says that nothing is pending for the consumer. -/
theorem not_pendingFor_of_readPending [DecidableEq κ] (hcount : 0 < count)
    (hread : g.readPending name count = []) : ¬ g.PendingFor name id := by
  rintro ⟨e, he, hname, -⟩
  have hempty := (List.take_eq_nil_iff.mp hread).resolve_left (Nat.ne_of_gt hcount)
  have hmem : e ∈ g.pending.filter fun e => e.2 = name :=
    List.mem_filter.mpr ⟨he, decide_eq_true hname⟩
  rw [List.map_eq_nil_iff.mp hempty] at hmem
  exact absurd hmem List.not_mem_nil

/-! ## The operations keep the group well formed -/

theorem WellFormed.xadd (h : g.WellFormed) (m : μ) : (g.xadd m).WellFormed := by
  have hperm : (g.xadd m).ids.Perm (g.nextId :: g.ids) := by
    simp only [ids, ConsumerGroup.xadd, List.map_append, List.map_cons, List.map_nil,
      List.append_assoc, List.singleton_append]
    exact List.perm_middle
  refine ⟨hperm.nodup_iff.mpr (List.nodup_cons.mpr ⟨fun hmem => ?_, h.distinct⟩), fun id hid => ?_⟩
  · exact absurd (h.below _ hmem) (Nat.lt_irrefl _)
  · rcases List.mem_cons.mp (hperm.mem_iff.mp hid) with rfl | hid
    · exact Nat.lt_succ_self _
    · exact Nat.lt_succ_of_lt (h.below id hid)

theorem WellFormed.readNew (h : g.WellFormed) (name : κ) (count : ℕ) :
    (g.readNew name count).2.WellFormed := by
  have hperm : (g.readNew name count).2.ids.Perm g.ids := by
    have hids : ((g.waiting.take count).map fun e => (e, name)).map (fun e => e.1.1) =
        (g.waiting.take count).map Prod.fst := by
      rw [List.map_map]
      rfl
    simp only [ids, ConsumerGroup.readNew, List.map_append, hids]
    rw [← List.append_assoc]
    refine List.perm_append_comm.trans ?_
    rw [← List.append_assoc, ← List.map_append, List.take_append_drop]
  exact ⟨hperm.nodup_iff.mpr h.distinct, fun id hid => h.below id (hperm.mem_iff.mp hid)⟩

theorem WellFormed.xack (h : g.WellFormed) (id : ℕ) : (g.xack id).WellFormed := by
  have hsub : List.Sublist (g.xack id).ids g.ids :=
    (List.Sublist.refl _).append ((List.filter_sublist ..).map _)
  exact ⟨hsub.nodup h.distinct, fun i hi => h.below i (hsub.subset hi)⟩

/-! ## Entries that only one consumer was given -/

theorem WellFormed.onlyFor (h : g.WellFormed) (hid : g.PendingFor name id) : g.OnlyFor name id :=
  ⟨h.pending_below hid, fun _ he heq => h.waiting_not_pending he (heq ▸ hid),
    fun _ hid' => h.owner hid hid'⟩

theorem OnlyFor.xadd (h : g.OnlyFor name id) (m : μ) : (g.xadd m).OnlyFor name id := by
  refine ⟨Nat.lt_succ_of_lt h.below, fun e he => ?_, h.owner⟩
  rcases List.mem_append.mp he with he | he
  · exact h.delivered e he
  · rw [List.mem_singleton.mp he]
    exact Nat.ne_of_gt h.below

theorem OnlyFor.xack (h : g.OnlyFor name id) (id' : ℕ) : (g.xack id').OnlyFor name id :=
  ⟨h.below, h.delivered, fun name' hid => h.owner name' (pendingFor_xack.mp hid).1⟩

theorem OnlyFor.readNew (h : g.OnlyFor name id) (name' : κ) (count : ℕ) :
    (g.readNew name' count).2.OnlyFor name id := by
  refine ⟨h.below, fun e he => h.delivered e (List.mem_of_mem_drop he), fun other hid => ?_⟩
  rcases pendingFor_readNew.mp hid with hid | ⟨-, e, he, heq⟩
  · exact h.owner other hid
  · exact absurd heq (h.delivered e (List.mem_of_mem_take he))

/-- What a consumer has just read is pending for it. -/
theorem WellFormed.onlyFor_readNew (h : g.WellFormed) {e : ℕ × μ}
    (he : e ∈ (g.readNew name count).1) : (g.readNew name count).2.OnlyFor name e.1 :=
  (h.readNew name count).onlyFor (pendingFor_readNew.mpr (.inr ⟨rfl, e, he, rfl⟩))

end

end ConsumerGroup
