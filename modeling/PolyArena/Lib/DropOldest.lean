import Mathlib.Data.List.Infix
import Mathlib.Data.Option.Basic

/-!
# Queues that drop their oldest entry

A queue of bounded capacity with one producer and one reader.  When it is full the producer takes
the oldest entry out before it puts the new one in.

1. `Lane.offer`, `Lane.take`: what the producer and the reader do.
2. `Lane.Sound`: what the reader got and what it can still get are in order what was put in, with
   the newest entries, as many as the capacity, among them.
3. `Sound.offer`, `Sound.take`: both operations keep it; `offer_queue` says what an offer drops.
-/

/-- A queue, oldest entry first, with what was taken out of it by the reader and what was put in so
far. -/
structure Lane (μ : Type*) where
  queue : List μ := []
  received : List μ := []
  served : List μ := []
  deriving DecidableEq

namespace Lane

variable {μ : Type*}

/-- The oldest entry leaves a full queue; the new one goes in when there is room. -/
def offer (capacity : ℕ) (m : μ) (l : Lane μ) : Lane μ :=
  let queue := if capacity ≤ l.queue.length then l.queue.tail else l.queue
  if capacity ≤ queue.length then { l with queue := queue }
  else { l with queue := queue ++ [m], served := l.served ++ [m] }

/-- The reader takes the oldest entry. -/
def take (l : Lane μ) : Option (Lane μ) :=
  match l.queue with
  | [] => none
  | m :: queue => some { l with queue := queue, received := l.received ++ [m] }

/-- What the reader has, followed by what it can still get. -/
def got (l : Lane μ) : List μ := l.received ++ l.queue

/-- Nothing is duplicated or out of order, the queue is the end of what was put in, and the newest
entries, as many as the capacity, were not dropped. -/
structure Sound (capacity : ℕ) (l : Lane μ) : Prop where
  bound : l.queue.length ≤ capacity
  queue : l.queue <:+ l.served
  got : l.got.Sublist l.served
  newest : l.served.drop (l.served.length - capacity) <:+ l.got

section

variable {capacity : ℕ} {m : μ} {l l' : Lane μ}

theorem sound_empty : Sound capacity ({} : Lane μ) :=
  ⟨Nat.zero_le _, List.suffix_rfl, List.Sublist.refl _, by simp [Lane.got]⟩

/-- There is room for the new entry. -/
theorem offer_of_lt (h : l.queue.length < capacity) :
    l.offer capacity m = { l with queue := l.queue ++ [m], served := l.served ++ [m] } := by
  unfold offer
  dsimp only
  rw [if_neg (not_le.mpr h), if_neg (not_le.mpr h)]

/-- The oldest entry makes room for the new one. -/
theorem offer_of_full {oldest : μ} {waiting : List μ} (h : l.queue = oldest :: waiting)
    (hfull : l.queue.length = capacity) :
    l.offer capacity m = { l with queue := waiting ++ [m], served := l.served ++ [m] } := by
  have hroom : ¬ capacity ≤ waiting.length := by
    rw [h, List.length_cons] at hfull
    omega
  unfold offer
  dsimp only
  rw [if_pos hfull.ge, h, List.tail_cons, if_neg hroom]

/-- What an offer does to the queue: it appends, or the queue was full and the oldest entry, with as
many newer ones as the capacity, is dropped. -/
inductive Offered (capacity : ℕ) (m : μ) (l l' : Lane μ) : Prop
  | appended (hlt : l.queue.length < capacity)
      (h : l' = { l with queue := l.queue ++ [m], served := l.served ++ [m] })
  | dropped (oldest : μ) (waiting : List μ) (hqueue : l.queue = oldest :: waiting)
      (hnewer : (waiting ++ [m]).length = capacity)
      (h : l' = { l with queue := waiting ++ [m], served := l.served ++ [m] })

theorem Sound.offered (h : Sound capacity l) (hcap : 0 < capacity) :
    Offered capacity m l (l.offer capacity m) := by
  rcases h.bound.lt_or_eq with hlt | hfull
  · exact .appended hlt (offer_of_lt hlt)
  · cases hqueue : l.queue with
    | nil =>
      rw [hqueue, List.length_nil] at hfull
      omega
    | cons oldest waiting =>
      refine .dropped oldest waiting hqueue ?_ (offer_of_full hqueue hfull)
      rw [hqueue, List.length_cons] at hfull
      rw [List.length_append, List.length_singleton, hfull]

theorem Offered.served (h : Offered capacity m l l') : l'.served = l.served ++ [m] := by
  cases h with
  | appended _ h => rw [h]
  | dropped _ _ _ _ h => rw [h]

/-- The end of a list of which the list is the end. -/
theorem drop_of_suffix {l₁ l₂ : List μ} (h : l₁ <:+ l₂) (hlen : l₁.length = capacity) :
    l₂.drop (l₂.length - capacity) = l₁ := by
  obtain ⟨before, rfl⟩ := h
  rw [List.length_append, hlen, Nat.add_sub_cancel, List.drop_left]

theorem concat_suffix {l₁ l₂ : List μ} (h : l₁ <:+ l₂) (m : μ) : l₁ ++ [m] <:+ l₂ ++ [m] := by
  obtain ⟨before, rfl⟩ := h
  exact ⟨before, (List.append_assoc before l₁ [m]).symm⟩

/-- The newest entries with one more put in: one of them may be among the older ones now. -/
theorem newest_concat (l : List μ) (m : μ) :
    (l ++ [m]).drop ((l ++ [m]).length - capacity) <:+ l.drop (l.length - capacity) ++ [m] := by
  rw [← List.drop_append_of_le_length (Nat.sub_le l.length capacity), List.length_append,
    List.length_singleton]
  exact List.drop_suffix_drop_left _ (by omega)

/-- **An offer** keeps the queue sound. -/
theorem Sound.offer (h : Sound capacity l) (hcap : 0 < capacity) (m : μ) :
    Sound capacity (l.offer capacity m) := by
  cases h.offered hcap (m := m) with
  | appended hlt heq =>
    have hgot : (l.offer capacity m).got = l.got ++ [m] := by
      rw [heq]
      exact (List.append_assoc l.received l.queue [m]).symm
    refine ⟨?_, ?_, ?_, ?_⟩
    · rw [heq, List.length_append, List.length_singleton]
      exact hlt
    · rw [heq]
      exact concat_suffix h.queue m
    · rw [hgot, heq]
      exact h.got.append (List.Sublist.refl [m])
    · rw [hgot, heq]
      exact (newest_concat l.served m).trans (concat_suffix h.newest m)
  | dropped oldest waiting hqueue hnewer heq =>
    have hgot : (l.offer capacity m).got = l.received ++ (waiting ++ [m]) := by rw [heq]; rfl
    have hkept : (l.received ++ waiting).Sublist l.got := by
      unfold Lane.got
      rw [hqueue]
      exact (List.Sublist.refl _).append (List.sublist_cons_self oldest waiting)
    have hsuffix : waiting ++ [m] <:+ l.served ++ [m] :=
      concat_suffix ((hqueue ▸ List.suffix_cons oldest waiting).trans h.queue) m
    refine ⟨?_, ?_, ?_, ?_⟩
    · rw [heq]
      exact hnewer.le
    · rw [heq]
      exact hsuffix
    · rw [hgot, heq, ← List.append_assoc]
      exact (hkept.trans h.got).append (List.Sublist.refl [m])
    · rw [hgot, heq, drop_of_suffix hsuffix hnewer]
      exact List.suffix_append _ _

theorem take_some (h : l.take = some l') : ∃ m, l.queue = m :: l'.queue ∧
    l'.received = l.received ++ [m] ∧
    l'.served = l.served := by
  unfold take at h
  cases hqueue : l.queue with
  | nil =>
    rw [hqueue] at h
    cases h
  | cons m waiting =>
    rw [hqueue] at h
    cases h
    exact ⟨m, rfl, rfl, rfl⟩

/-- **A read** moves the oldest entry to what the reader has. -/
theorem Sound.take (h : Sound capacity l) (htake : l.take = some l') : Sound capacity l' := by
  obtain ⟨m, hqueue, hreceived, hserved⟩ := take_some htake
  have hgot : l'.got = l.got := by
    unfold Lane.got
    rw [hqueue, hreceived, List.append_assoc]
    rfl
  have hbound := h.bound
  rw [hqueue, List.length_cons] at hbound
  refine ⟨(Nat.le_succ _).trans hbound, ?_, ?_, ?_⟩
  · rw [hserved]
    exact (hqueue ▸ List.suffix_cons m l'.queue).trans h.queue
  · rw [hgot, hserved]
    exact h.got
  · rw [hgot, hserved]
    exact h.newest

end

end Lane
