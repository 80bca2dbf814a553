import PolyArena.MatchingEngine.Cancellation
import PolyArena.OrderConsumer.Tracking

/-!
# The cancels that are published

The consumer publishes a cancel for a row when it refuses the payload, when a book reports the order
as cancelled, or when it finds the order cancelled by its placement.

1. `Taken` keeps which payloads the consumer took from the queue, and the orders it placed them
   under.
2. `ConsumerTells` and `DeskTells` say that every cancel that is published is that of a refused
   payload, or true of its order.  `deskTells_step` is the step lemma.
-/

namespace PolyArena

open Relation ShadowOrderbook

/-- The rows whose payloads were taken, each with the order it was placed under, `none` when it was
refused. -/
abbrev Taken := List (ℕ × Option OrderId)

/-- The cancel is that of a refused payload, or true of the order of its row. -/
def TellsCancel (taken : Taken) (c : BookCore) (m : CancelMessage) : Prop :=
  (m.boId, none) ∈ taken ∨ ∃ id, (m.boId, some id) ∈ taken ∧ Cancelled id m.filled m.avgEntryPrice c

/-- The tracked orders are those of their rows, and the published cancels are true. -/
structure ConsumerTells (taken : Taken) (core : BookCore) (c : OrderConsumer) : Prop where
  tracked : ∀ id boId, c.orderToBo.get? id = some boId → (boId, some id) ∈ taken
  cancels : ∀ m, .cancel m ∈ c.published → TellsCancel taken core m

section

variable {taken taken' : Taken} {core core' : BookCore} {c c' : OrderConsumer} {boId : ℕ}
  {id : OrderId} {e : OrderStateChangeEvent} {o : SimulatedOrder}

theorem TellsCancel.mono {m : CancelMessage} (h : TellsCancel taken core m)
    (htaken : ∀ x ∈ taken, x ∈ taken') (he : Effects core core') : TellsCancel taken' core' m := by
  rcases h with hrefused | ⟨id, hid, hcancelled⟩
  · exact .inl (htaken _ hrefused)
  · exact .inr ⟨id, htaken _ hid, hcancelled.effects he⟩

theorem ConsumerTells.mono (h : ConsumerTells taken core c) (htaken : ∀ x ∈ taken, x ∈ taken')
    (he : Effects core core') : ConsumerTells taken' core' c :=
  ⟨fun id boId hget => htaken _ (h.tracked id boId hget),
    fun m hm => (h.cancels m hm).mono htaken he⟩

theorem ConsumerTells.publish {m : StreamMessage} (h : ConsumerTells taken core c)
    (hm : ∀ x, m = .cancel x → TellsCancel taken core x) :
    ConsumerTells taken core (c.publish m) := by
  refine ⟨h.tracked, fun x hx => ?_⟩
  rcases List.mem_append.mp hx with hx | hx
  · exact h.cancels x hx
  · exact hm x (List.mem_singleton.mp hx).symm

theorem ConsumerTells.forget (h : ConsumerTells taken core c) (k : OrderId) :
    ConsumerTells taken core (c.forget k) := by
  refine ⟨fun id boId hget => h.tracked id boId ?_, h.cancels⟩
  by_cases hid : id = k
  · subst hid
    simp [OrderConsumer.forget] at hget
  · rwa [OrderConsumer.forget, SortedDict.get?_erase_ne hid] at hget

theorem ConsumerTells.register (h : ConsumerTells taken core c) (hmem : (boId, some id) ∈ taken) :
    ConsumerTells taken core (c.register id boId) := by
  refine ⟨fun k b hget => ?_, h.cancels⟩
  unfold OrderConsumer.register at hget
  by_cases hk : k = id
  · subst hk
    rw [SortedDict.get?_set_self] at hget
    cases hget
    exact hmem
  · rw [SortedDict.get?_set_ne hk] at hget
    exact h.tracked k b hget

theorem ConsumerTells.reject {reason : CancelReason} (h : ConsumerTells taken core c)
    (hmem : (boId, none) ∈ taken) : ConsumerTells taken core (c.reject boId reason) := by
  refine h.publish fun x hx => .inl ?_
  cases hx
  exact hmem

/-- **An event** is published as what it says. -/
theorem ConsumerTells.onStateChange (h : ConsumerTells taken core c)
    (he : e.eventType = .cancel → Cancelled e.orderId e.filled (e.avgEntryPrice.getD 0) core) :
    ConsumerTells taken core (c.onStateChange e) := by
  cases hget : c.orderToBo.get? e.orderId with
  | none =>
    rw [onStateChange_untracked hget]
    exact h
  | some boId =>
    have hpublished : ConsumerTells taken core (c.publish (e.message boId)) := by
      refine h.publish fun x hx => .inr ⟨e.orderId, ?_⟩
      obtain ⟨htype, rfl⟩ := message_eq_cancel.mp hx
      exact ⟨h.tracked _ _ hget, he htype⟩
    rw [onStateChange_some hget]
    split
    · exact hpublished.forget _
    · exact hpublished

theorem ConsumerTells.publishImmediateFill (h : ConsumerTells taken core c) :
    ConsumerTells taken core (c.publishImmediateFill o boId) := by
  unfold OrderConsumer.publishImmediateFill
  split
  · exact h.publish nofun
  · exact h

theorem ConsumerTells.publishImmediateCancel (h : ConsumerTells taken core c)
    (hmem : (boId, some id) ∈ taken)
    (ho : o.status = .canceled → Cancelled id o.filled (o.avgEntryPrice.getD 0) core) :
    ConsumerTells taken core (c.publishImmediateCancel o boId) := by
  unfold OrderConsumer.publishImmediateCancel
  split
  · next hs =>
    refine ConsumerTells.forget (h.publish fun x hx => .inr ⟨id, ?_⟩) _
    cases hx
    exact ⟨hmem, ho hs⟩
  · exact h

/-- **One delivery** of a batch. -/
theorem ConsumerTells.deliver {batch batch' : Batch} {n : ℕ} (h : ConsumerTells taken core c)
    (hbatch : Cancels core batch.events) (hd : batch.deliver n c = some (c', batch')) :
    ConsumerTells taken core c' ∧ Cancels core batch'.events := by
  cases batch with
  | collected events =>
    cases hd
    refine ⟨h, fun e he => ?_⟩
    obtain ⟨l, hl, he⟩ := List.mem_flatten.mp he
    exact hbatch e (List.eq_of_mem_replicate hl ▸ he)
  | firing events =>
    cases events with
    | nil => cases hd
    | cons e rest =>
      cases hd
      exact ⟨h.onStateChange (hbatch e List.mem_cons_self),
        fun x hx => hbatch x (List.mem_cons_of_mem _ hx)⟩

end

/-! ## The desk -/

/-- The payload that an action takes from the queue. -/
def DeskAction.takes : DeskAction → Option (ℕ × Option OrderId)
  | .place _ boId id _ | .placePrefilled _ boId id _ => some (boId, some id)
  | .reject boId => some (boId, none)
  | .consume | .feedOp .. | .deliver => none

namespace Desk

/-- The order at hand is that of its row, and its placement collected true cancels. -/
structure TaskTells (taken : Taken) (core : BookCore) (t : Task) : Prop where
  taken : (t.boId, some t.orderId) ∈ taken
  own : ∀ own, t.stage = .callbacks own → Cancels core own.events

structure DeskTells (taken : Taken) (d : Desk) : Prop where
  inv : DeskInv d
  priced : PricedCore d.book.core
  consumer : ConsumerTells taken d.book.core d.consumer
  task : ∀ t ∈ d.task, TaskTells taken d.book.core t
  feed : Cancels d.book.core d.feed.events

section

variable {taken taken' : Taken} {d d' : Desk} {t : Task} {o : SimulatedOrder} {now : Time}

theorem deskTells_new (tokenId : String) : DeskTells taken (new tokenId) :=
  ⟨deskInv_new tokenId, pricedCore_new tokenId,
    ⟨nofun, fun _ hm => absurd hm List.not_mem_nil⟩, nofun, .nil⟩

theorem TaskTells.effects {core core' : BookCore} (h : TaskTells taken core t)
    (he : Effects core core') : TaskTells taken core' t :=
  ⟨h.taken, fun own hs => (h.own own hs).effects he⟩

/-- The consumer thread takes a payload, and the book works. -/
theorem DeskTells.take (h : DeskTells taken d) {b : ShadowOrderbook}
    {x : Option (ℕ × Option OrderId)} {l : List OrderId}
    (hinv : DeskInv { d with book := b, task := some t, standard := l })
    (he : Effects d.book.core b.core) (ht : TaskTells (x.toList ++ taken) b.core t) :
    DeskTells (x.toList ++ taken) { d with book := b, task := some t, standard := l } := by
  refine ⟨hinv, effects_priced h.priced he,
    h.consumer.mono (fun _ hx => List.mem_append_right _ hx) he, fun t' ht' => ?_,
      h.feed.effects he⟩
  cases ht'
  exact ht

/-- The next step of the consumer thread. -/
theorem deskTells_work (h : DeskTells taken d) (ht : d.task = some t)
    (ho : d.book.orderObject t.orderId = some o) :
    DeskTells taken (d.work t o) ∧ Effects d.book.core (d.work t o).book.core := by
  have hinv : DeskInv (d.work t o) := deskInv_work h.inv ht ho
  have htask := h.task t ht
  -- the stages without events of their own
  have hstage : ∀ core (s : Stage), (∀ own, s ≠ .callbacks own) →
      TaskTells taken core { t with stage := s } := fun core s hs =>
    ⟨htask.taken, fun own he => absurd he (hs own)⟩
  unfold work at hinv ⊢
  cases hs : t.stage with
  | callbacks own =>
    rw [hs] at hinv
    dsimp only at hinv ⊢
    cases hd : own.deliver d.book.stateChangeCallbacks d.consumer with
    | some r =>
      rw [hd] at hinv
      obtain ⟨hc, hrest⟩ := h.consumer.deliver (htask.own own hs) hd
      refine ⟨⟨hinv, h.priced, hc, fun t' ht' => ?_, h.feed⟩, .refl⟩
      cases ht'
      refine ⟨htask.taken, fun own' he => ?_⟩
      cases he
      exact hrest
    | none =>
      rw [hd] at hinv
      refine ⟨⟨hinv, h.priced, h.consumer, fun t' ht' => ?_, h.feed⟩, .refl⟩
      cases ht'
      exact hstage _ _ nofun
  | publish =>
    rw [hs] at hinv
    have he : Effects d.book.core
        (if 0 < o.filled then d.book.resetFillLevels t.orderId else d.book).core := by
      split
      · exact effects_resetFillLevels h.inv.book t.orderId
      · exact .refl
    refine ⟨⟨hinv, effects_priced h.priced he, ?_, fun t' ht' => ?_, h.feed.effects he⟩, he⟩
    · exact (h.consumer.publishImmediateFill).mono (fun _ hx => hx) he
    · cases ht'
      exact hstage _ _ nofun
  | register =>
    rw [hs] at hinv
    refine ⟨⟨hinv, h.priced, h.consumer.register htask.taken, fun t' ht' => ?_, h.feed⟩, .refl⟩
    cases ht'
    exact hstage _ _ nofun
  | seed =>
    rw [hs] at hinv
    refine ⟨⟨hinv, h.priced, h.consumer, fun t' ht' => ?_, h.feed⟩, .refl⟩
    cases ht'
    exact hstage _ _ nofun
  | attach =>
    rw [hs] at hinv
    dsimp only at hinv ⊢
    have hfinish : ∀ t' ∈ some { t with stage := .finish }, TaskTells taken d.book.core t' := by
      rintro t' ⟨⟩
      exact hstage _ _ nofun
    split
    · next hreg =>
      rw [if_pos hreg] at hinv
      exact ⟨⟨hinv, h.priced, h.consumer, hfinish, h.feed⟩, .refl⟩
    · next hreg =>
      rw [if_neg hreg] at hinv
      exact ⟨⟨hinv, h.priced, ⟨h.consumer.tracked, h.consumer.cancels⟩, hfinish, h.feed⟩, .refl⟩
  | finish =>
    rw [hs] at hinv
    refine ⟨⟨hinv, h.priced, ?_, nofun, h.feed⟩, .refl⟩
    show ConsumerTells taken d.book.core
      (if t.prefilled then d.consumer else d.consumer.publishImmediateCancel o t.boId)
    split
    · exact h.consumer
    · exact h.consumer.publishImmediateCancel htask.taken
        (cancelled_of_object h.inv.book h.priced ho)

/-- **One step** publishes true cancels. -/
theorem deskTells_step {a : DeskAction} (h : DeskTells taken d) (hstep : d.step a = some d') :
    DeskTells (a.takes.toList ++ taken) d' ∧ Effects d.book.core d'.book.core := by
  cases steps_of_step hstep with
  | place now boId x r hidle hfresh hq =>
    have he := effects_placeVirtualOrder (t := now) (r := r) h.inv.book.core hfresh hq
    refine ⟨h.take (x := some (boId, some x)) (deskInv_place h.inv hidle hfresh hq) he ?_, he⟩
    refine ⟨List.mem_append_left _ (List.mem_singleton_self _), fun own ho => ?_⟩
    cases ho
    exact cancels_place h.inv.book h.priced hfresh hq
  | placePrefilled now boId x r hidle hfresh =>
    have he := works_effects (works_placePrefilled (t := now) (r := r) hfresh)
    refine ⟨h.take (x := some (boId, some x)) (deskInv_placePrefilled h.inv hidle hfresh) he ?_, he⟩
    exact ⟨List.mem_append_left _ (List.mem_singleton_self _), nofun⟩
  | reject boId hidle =>
    have hmono : ConsumerTells ((boId, none) :: taken) d.book.core d.consumer :=
      h.consumer.mono (fun _ hx => List.mem_cons_of_mem _ hx) .refl
    refine ⟨⟨deskInv_reject h.inv hidle boId .tokenRotated, h.priced,
      hmono.reject List.mem_cons_self, fun t ht => ?_, h.feed⟩, .refl⟩
    rw [show d.task = some t from ht] at hidle
    cases hidle
  | consume t o ht ho => exact deskTells_work h ht ho
  | feedOp now op hidle =>
    have he := effects_feedOp (t := now) h.inv.book op
    exact ⟨⟨deskInv_feedOp h.inv, effects_priced h.priced he, h.consumer.mono (fun _ hx => hx) he,
      fun t ht => TaskTells.effects (h.task t ht) he, cancels_feedOp h.inv.book h.priced op⟩, he⟩
  | deliver c f hd =>
    obtain ⟨hc, hfeed⟩ := h.consumer.deliver h.feed hd
    exact ⟨⟨deskInv_deliver h.inv hstep, h.priced, hc, h.task, hfeed⟩, .refl⟩

end

end Desk

end PolyArena
