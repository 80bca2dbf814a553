import PolyArena.OrderConsumer.Publication

/-!
# The first fill of an order

A filled order has a fill published, or one that is still to be published.

1. `Announced` says so of an order as the two threads see it.
2. `announced_step` is the step lemma; it needs that no step drops the first FILL event of an order.
3. `published_step`: what is published is about the row under which its order was placed.
-/

namespace PolyArena

open ShadowOrderbook OrderView

/-- A fill of the order is published, on its way from the feed thread, or about to be published by
the consumer thread. -/
structure OrderView.Announced (v : OrderView) : Prop where
  pos : ∀ f ∈ v.executed, 0 < f.2
  told : v.executed ≠ [] → v.phase = .entering ∨ v.published ≠ [] ∨ v.pending ≠ []

/-- A move that neither loses an event nor forgets an order before its immediate fill. -/
theorem OrderView.Announced.move {v v' : OrderView} {i : Bool} (h : v.Announced) (hm : Moves v v' i)
    (hpending : v.pending ≠ [] → v'.pending ≠ [] ∨ v'.published ≠ [])
    (hphase : v.phase = .entering → v'.phase ≠ .forgotten) : v'.Announced := by
  cases hm with
  | idle => exact h
  | execute hnone hne hpos hlevels hfilled =>
    refine ⟨fun f hf => ?_, fun _ => .inr (.inr (List.cons_ne_nil _ _))⟩
    exact (List.mem_append.mp hf).elim (h.pos f) (hpos f)
  | deliver htracked hone hlate =>
    exact ⟨h.pos, fun _ => .inr
      (.inl (List.append_ne_nil_of_right_ne_nil _ (List.cons_ne_nil _ _)))⟩
  | drop hone hold =>
    refine ⟨h.pos, fun _ => .inr (.inl ?_)⟩
    exact (hpending (by rw [hone]; exact List.cons_ne_nil _ _)).resolve_left (not_not.mpr rfl)
  | enter hentering hnone => exact ⟨h.pos, fun hne => absurd hnone hne⟩
  | enterFilled hentering hfilled =>
    exact ⟨h.pos, fun _ => .inr
      (.inl (List.append_ne_nil_of_right_ne_nil _ (List.cons_ne_nil _ _)))⟩
  | forget =>
    refine ⟨h.pos, fun hne => ?_⟩
    rcases h.told hne with hentering | htold
    · exact absurd rfl (hphase hentering)
    · exact .inr htold

namespace Desk

/-- The step drops a FILL event of an order of which no fill is published. -/
def DropsFirstFill (d : Desk) (a : DeskAction) : Prop :=
  ∃ id ∈ d.standard, d.phase id ≠ .entering ∧ publishedFills id d.consumer.published = [] ∧
    ∃ e ∈ d.droppedEvents a, e.isFillOf id

/-- A fill of the order is still to be published. -/
def OwesFill (d : Desk) (id : OrderId) : Prop :=
  d.phase id = .entering ∨ ∃ e ∈ d.feed.events, e.isFillOf id

instance (d : Desk) (a : DeskAction) : Decidable (d.DropsFirstFill a) :=
  inferInstanceAs (Decidable (∃ id ∈ d.standard, _ ∧ _ ∧ ∃ e ∈ d.droppedEvents a, _))

instance (d : Desk) (id : OrderId) : Decidable (d.OwesFill id) :=
  inferInstanceAs (Decidable (_ ∨ ∃ e ∈ d.feed.events, _))

section

variable {d d' : Desk} {t : Task} {o : SimulatedOrder} {a : DeskAction} {id : OrderId}
  {e : OrderStateChangeEvent}

/-- Nothing is executed, the feed's events stay, and what is published stays published. -/
theorem announced_same (h : (d.view id).Announced)
    (hfills : entryFills id d'.book.history = entryFills id d.book.history)
    (hfeed : d'.feed = d.feed)
    (hpub : publishedFills id d.consumer.published ≠ [] →
      publishedFills id d'.consumer.published ≠ [])
    (hphase : d.phase id = .entering → d'.phase id = .entering ∨ entryFills id d.book.history = [] ∨
      publishedFills id d'.consumer.published ≠ []) : (d'.view id).Announced := by
  have hexecuted : (d'.view id).executed = (d.view id).executed := by
    unfold view
    rw [hfills]
  refine ⟨fun f hf => h.pos f (hexecuted ▸ hf), fun hne => ?_⟩
  have hsome : entryFills id d.book.history ≠ [] := by
    rw [← hfills]
    exact fun hnil => hne (by rw [view, hnil]; rfl)
  rcases h.told (hexecuted ▸ hne) with hentering | htold | hpending
  · rcases hphase hentering with hstill | hnone | hdone
    · exact .inl hstill
    · exact absurd hnone hsome
    · exact .inr (.inl hdone)
  · exact .inr (.inl (hpub htold))
  · refine .inr (.inr ?_)
    unfold view
    rw [hfeed]
    exact hpending

/-! ## What is published stays published -/

theorem publishedFills_grow {ms ms' : List StreamMessage} (h : publishedFills id ms ≠ []) :
    publishedFills id (ms ++ ms') ≠ [] := by
  unfold publishedFills at h ⊢
  rw [List.filterMap_append]
  exact List.append_ne_nil_of_left_ne_nil h _

theorem grows_onStateChange {c : OrderConsumer} :
    ∃ ms, (c.onStateChange e).published = c.published ++ ms :=
  (show TracksOn e.orderId c (c.onStateChange e) from tracksOn_onStateChange).published

theorem grows_deliver {n : ℕ} {c c' : OrderConsumer} {f f' : Batch}
    (h : f.deliver n c = some (c', f')) :
    ∃ ms, c'.published = c.published ++ ms := by
  cases f with
  | collected events =>
    cases h
    exact ⟨[], (List.append_nil _).symm⟩
  | firing events =>
    cases events with
    | nil => cases h
    | cons e rest =>
      cases h
      exact grows_onStateChange

theorem work_published : ∃ ms, (d.work t o).consumer.published = d.consumer.published ++ ms := by
  have hsame : ∃ ms, d.consumer.published = d.consumer.published ++ ms :=
    ⟨[], (List.append_nil _).symm⟩
  unfold work
  split
  · split
    · next hd => exact grows_deliver hd
    · exact hsame
  · show ∃ ms, (d.consumer.publishImmediateFill o t.boId).published = _
    unfold OrderConsumer.publishImmediateFill
    split
    · exact ⟨_, rfl⟩
    · exact hsame
  · exact hsame
  · exact hsame
  · dsimp only
    split <;> exact hsame
  · show ∃ ms, (if t.prefilled then d.consumer
      else d.consumer.publishImmediateCancel o t.boId).published = _
    unfold OrderConsumer.publishImmediateCancel
    split_ifs
    · exact hsame
    · exact ⟨_, rfl⟩
    · exact hsame

theorem work_history : (d.work t o).book.history = d.book.history := by
  unfold work
  split
  · split <;> rfl
  · dsimp only
    split <;> rfl
  · rfl
  · rfl
  · dsimp only
    split <;> rfl
  · rfl

/-! ## The consumer thread -/

theorem entering_iff (h : DeskInv d) : d.phase id = .entering ↔
    ∃ t ∈ d.task, t.orderId = id ∧ t.stage.phase = .entering := by
  constructor
  · intro hphase
    unfold phase at hphase
    split at hphase
    · cases hphase
    · cases ht : d.task with
      | none => simp [ht] at hphase
      | some t =>
        simp only [ht] at hphase
        split at hphase
        · next hid => exact ⟨t, rfl, hid, hphase⟩
        · cases hphase
  · rintro ⟨t, ht, rfl, hstage⟩
    have hearly : t.stage.isEarly = true := by
      cases hs : t.stage <;> simp [hs, Stage.phase] at hstage <;> rfl
    rw [Option.mem_def] at ht
    simp [phase, (h.task t ht).early hearly, ht, hstage]

/-- The consumer thread's next step publishes the immediate fill of a filled order before it goes
on. -/
theorem announced_work (h : DeskInv d) (hann : (d.view id).Announced) (ht : d.task = some t)
    (ho : d.book.orderObject t.orderId = some o) : ((d.work t o).view id).Announced := by
  obtain ⟨ms, hms⟩ := work_published (d := d) (t := t) (o := o)
  refine announced_same hann (congrArg (entryFills id) work_history) work_feed
    (fun hne => hms ▸ publishedFills_grow hne) fun hentering => ?_
  obtain ⟨t', ht', rfl, hstage⟩ := (entering_iff h).mp hentering
  rw [ht] at ht'
  cases ht'
  have hinv := deskInv_work h ht ho
  cases hs : t.stage with
  | callbacks own =>
    left
    rw [entering_iff hinv]
    unfold work
    rw [hs]
    dsimp only
    split <;> exact ⟨_, rfl, rfl, rfl⟩
  | publish =>
    right
    obtain ⟨hoid, hofilled⟩ := orderObject_filled h.book ho
    by_cases hfilled : 0 < o.filled
    · right
      have hm : (o.fillMessage t.boId).orderId = some t.orderId := by
        rw [SimulatedOrder.fillMessage, hoid]
      unfold work
      rw [hs]
      simp only [OrderConsumer.publishImmediateFill, if_pos hfilled, OrderConsumer.publish,
        publishedFills_fill_self hm]
      exact List.append_ne_nil_of_right_ne_nil _ (List.cons_ne_nil _ _)
    · left
      by_contra hsome
      refine hfilled ?_
      rw [hofilled]
      refine sum_pos_of_fills (fun f hf => hann.pos f ?_) hsome
      exact List.mem_reverse.mpr hf
  | _ => rw [hs] at hstage; cases hstage

/-! ## The feed thread -/

theorem phase_entering_onStateChange (h : DeskInv d) (hentering : d.phase id = .entering) :
    { d with consumer := d.consumer.onStateChange e }.phase id = .entering := by
  obtain ⟨t, ht, rfl, hstage⟩ := (entering_iff h).mp hentering
  have hnone : (d.consumer.onStateChange e).orderToBo.get? t.orderId = none := by
    cases hafter : (d.consumer.onStateChange e).orderToBo.get? t.orderId with
    | none => rfl
    | some b =>
      have htracked : d.phase t.orderId = .tracked :=
        if_pos (by rw [tracked_of_onStateChange hafter]; rfl)
      rw [hentering] at htracked
      cases htracked
  rw [Option.mem_def] at ht
  simp [phase, hnone, ht, hstage]

/-- The feed thread hands its events to the callback, when one is attached. -/
theorem announced_fire {events : List OrderStateChangeEvent} (h : DeskInv d)
    (hann : (d.view id).Announced) (hid : id ∈ d.standard) (hfeed : d.feed = .collected events)
    (hguard : ¬ d.DropsFirstFill .deliver) :
    (view { d with feed := .firing (List.replicate d.book.stateChangeCallbacks events).flatten }
      id).Announced := by
  refine ⟨hann.pos, fun hne => ?_⟩
  rcases hann.told hne with hentering | htold | hpending
  · exact .inl hentering
  · exact .inr (.inl htold)
  · by_cases hcb : d.book.stateChangeCallbacks = 0
    · -- the events are dropped
      obtain ⟨e, he⟩ := List.exists_mem_of_ne_nil _ hpending
      obtain ⟨he, hfill⟩ := List.mem_filter.mp he
      rw [hfeed] at he
      by_contra hnot
      rw [not_or, not_or] at hnot
      refine hguard ⟨id, hid, hnot.1, not_not.mp hnot.2.1, e, ?_, hfill⟩
      rw [droppedEvents, hfeed]
      dsimp only
      rwa [if_pos hcb]
    · have hone : d.book.stateChangeCallbacks = 1 := by
        have hattached := h.attached
        split at hattached
        · exact hattached
        · exact absurd hattached hcb
      refine .inr (.inr ?_)
      have hsame :
          (Batch.firing (List.replicate d.book.stateChangeCallbacks events).flatten).events =
          d.feed.events := by
        rw [hone, hfeed]
        exact List.append_nil _
      unfold view
      dsimp only
      rw [hsame]
      exact hpending

/-- The callback runs on one event. -/
theorem announced_callback {e : OrderStateChangeEvent} {rest : List OrderStateChangeEvent}
    (h : DeskInv d) (hann : (d.view id).Announced) (hid : id ∈ d.standard)
    (hfeed : d.feed = .firing (e :: rest)) (hguard : ¬ d.DropsFirstFill .deliver) :
    (view { d with
      consumer := d.consumer.onStateChange e
      feed := .firing rest } id).Announced := by
  obtain ⟨ms, hms⟩ := grows_onStateChange (e := e) (c := d.consumer)
  refine ⟨hann.pos, fun hne => ?_⟩
  have hgrown : publishedFills id d.consumer.published ≠ [] →
      publishedFills id (d.consumer.onStateChange e).published ≠ [] :=
    fun hsome => hms ▸ publishedFills_grow hsome
  rcases hann.told hne with hentering | htold | hpending
  · exact .inl (phase_entering_onStateChange h hentering)
  · exact .inr (.inl (hgrown htold))
  · by_cases hfill : e.isFillOf id = true
    · cases hget : d.consumer.orderToBo.get? id with
      | some boId =>
        refine .inr (.inl ?_)
        have hm : (e.fillMessage boId).orderId = some id := by
          have hboth := of_decide_eq_true hfill
          exact congrArg some hboth.1
        show publishedFills id (d.consumer.onStateChange e).published ≠ []
        rw [published_onStateChange hget hfill, publishedFills_fill_self hm]
        exact List.append_ne_nil_of_right_ne_nil _ (List.cons_ne_nil _ _)
      | none =>
        -- the event is dropped
        by_contra hnot
        rw [not_or, not_or] at hnot
        have heid : e.orderId = id := (of_decide_eq_true hfill).1
        refine hguard ⟨id, hid, fun hentering => ?_, by_contra fun hsome => ?_, e, ?_, hfill⟩
        · exact hnot.1 (phase_entering_onStateChange h hentering)
        · exact hnot.2.1 (hgrown hsome)
        · rw [droppedEvents, hfeed]
          simp [heid, hget]
    · refine .inr (.inr ?_)
      rw [Bool.not_eq_true] at hfill
      have hrest : (d.view id).pending = rest.filter (·.isFillOf id) := by
        unfold view
        rw [hfeed]
        exact List.filter_cons_of_neg (by rw [hfill]; exact Bool.false_ne_true)
      show rest.filter (·.isFillOf id) ≠ []
      exact hrest ▸ hpending

theorem announced_deliver (h : DeskInv d) (hann : (d.view id).Announced) (hid : id ∈ d.standard)
    (hguard : ¬ d.DropsFirstFill .deliver) (hstep : d.step .deliver = some d') :
    (d'.view id).Announced := by
  unfold step at hstep
  cases hfeed : d.feed with
  | collected events =>
    rw [hfeed] at hstep
    cases hstep
    exact announced_fire h hann hid hfeed hguard
  | firing events =>
    cases events with
    | nil =>
      rw [hfeed] at hstep
      cases hstep
    | cons e rest =>
      rw [hfeed] at hstep
      cases hstep
      exact announced_callback h hann hid hfeed hguard

/-- **One step** that drops no first fill: every filled order stays announced. -/
theorem announced_step (h : DeskInv d) (hann : ∀ id ∈ d.standard, (d.view id).Announced)
    (hguard : ¬ d.DropsFirstFill a) (hstep : d.step a = some d') :
    ∀ id ∈ d'.standard, (d'.view id).Announced := by
  have hidle : d.task = none → ∀ id, d.phase id ≠ .entering := fun hnone id hentering => by
    obtain ⟨t, ht, -⟩ := (entering_iff h).mp hentering
    rw [hnone] at ht
    cases ht
  cases steps_of_step hstep with
  | place now boId x r hnone hfresh hq =>
    intro id hid
    rcases List.mem_cons.mp hid with rfl | hid
    · obtain ⟨fs, hpos, hview⟩ := view_place h hfresh hq
      rw [hview]
      exact ⟨hpos, fun _ => .inl rfl⟩
    · exact (hann id hid).move (moves_place (i := true) h hnone hfresh hq hid) .inl
        fun hentering => absurd hentering (hidle hnone id)
  | placePrefilled now boId x r hnone hfresh =>
    exact fun id hid => (hann id hid).move
      (moves_placePrefilled (i := true) h hnone hfresh hid) .inl
      fun hentering => absurd hentering (hidle hnone id)
  | reject boId hnone =>
    refine fun id hid => announced_same (hann id hid) rfl rfl (fun hsome => ?_) .inl
    rwa [← publishedFills_reject id boId .tokenRotated] at hsome
  | consume t o ht ho =>
    intro id hid
    rw [work_standard] at hid
    exact announced_work h (hann id hid) ht ho
  | feedOp now op hnone =>
    refine fun id hid => (hann id hid).move (moves_feedOp (i := true) h hnone hid) (fun hsome => ?_)
      fun hentering hforgotten => ?_
    · rw [view, hnone] at hsome
      exact absurd rfl hsome
    · have hsame : d.phase id = .forgotten := hforgotten
      cases hsame.symm.trans hentering
  | deliver c f hd =>
    intro id hid
    have hid : id ∈ d.standard := hid
    exact announced_deliver h (hann id hid) hid hguard hstep

/-! ## The rows of the published fills -/

/-- The fill is of an order that is tracked, or at hand, under its row. -/
def Fills (d : Desk) (m : FillMessage) : Prop :=
  ∃ id, m.orderId = some id ∧
    (d.consumer.orderToBo.get? id = some m.boId ∨ ∃ t ∈ d.task, t.orderId = id ∧ t.boId = m.boId)

theorem fills_onStateChange {m : FillMessage}
    (hm : .fill m ∈ (d.consumer.onStateChange e).published) :
    .fill m ∈ d.consumer.published ∨ d.Fills m := by
  cases hget : d.consumer.orderToBo.get? e.orderId with
  | none =>
    rw [onStateChange_untracked hget] at hm
    exact .inl hm
  | some boId =>
    have hmem : .fill m ∈ d.consumer.published ++ [e.message boId] := by
      rw [onStateChange_some hget] at hm
      split at hm <;> exact hm
    rcases List.mem_append.mp hmem with hold | hnew
    · exact .inl hold
    · right
      obtain ⟨-, rfl⟩ := message_eq_fill.mp (List.mem_singleton.mp hnew).symm
      exact ⟨e.orderId, rfl, .inl hget⟩

theorem fills_deliver {n : ℕ} {c : OrderConsumer} {f f' : Batch} {m : FillMessage}
    (h : f.deliver n d.consumer = some (c, f')) (hm : .fill m ∈ c.published) :
    .fill m ∈ d.consumer.published ∨ d.Fills m := by
  cases f with
  | collected events =>
    cases h
    exact .inl hm
  | firing events =>
    cases events with
    | nil => cases h
    | cons e rest =>
      cases h
      exact fills_onStateChange hm

theorem fills_work {m : FillMessage} (ht : d.task = some t) (hoid : o.orderId = t.orderId)
    (hm : .fill m ∈ (d.work t o).consumer.published) :
    .fill m ∈ d.consumer.published ∨ d.Fills m := by
  unfold work at hm
  split at hm
  · split at hm
    · next hd => exact fills_deliver hd hm
    · exact .inl hm
  · have hpublish : .fill m ∈ (d.consumer.publishImmediateFill o t.boId).published := hm
    unfold OrderConsumer.publishImmediateFill at hpublish
    split at hpublish
    · rcases List.mem_append.mp hpublish with hold | hnew
      · exact .inl hold
      · cases List.mem_singleton.mp hnew
        exact .inr ⟨t.orderId, congrArg some hoid, .inr ⟨t, ht, rfl, rfl⟩⟩
    · exact .inl hpublish
  · exact .inl hm
  · exact .inl hm
  · dsimp only at hm
    split at hm <;> exact .inl hm
  · have hcancel : .fill m ∈ (if t.prefilled then d.consumer
        else d.consumer.publishImmediateCancel o t.boId).published := hm
    unfold OrderConsumer.publishImmediateCancel at hcancel
    split_ifs at hcancel
    · exact .inl hcancel
    · rcases List.mem_append.mp hcancel with hold | hnew
      · exact .inl hold
      · cases List.mem_singleton.mp hnew
    · exact .inl hcancel

/-- **One step** publishes fills of the orders that are tracked or at hand. -/
theorem published_step {m : FillMessage} (h : DeskInv d) (hstep : d.step a = some d')
    (hm : .fill m ∈ d'.consumer.published) : .fill m ∈ d.consumer.published ∨ d.Fills m := by
  cases steps_of_step hstep with
  | place now boId x r hidle hfresh hq => exact .inl hm
  | placePrefilled now boId x r hidle hfresh => exact .inl hm
  | reject boId hidle =>
    rcases List.mem_append.mp hm with hold | hnew
    · exact .inl hold
    · cases List.mem_singleton.mp hnew
  | consume t o ht ho => exact fills_work ht (orderObject_filled h.book ho).1 hm
  | feedOp now op hidle => exact .inl hm
  | deliver c f hd => exact fills_deliver hd hm

end

end Desk

end PolyArena
