import PolyArena.OrderConsumer.Desk
import PolyArena.OrderConsumer.OrderView

/-!
# The threads and one order

`Desk.view` is what the two threads do, seen from one order.

1. `DeskInv` holds of every reachable desk; `sound_step` is its step lemma.
2. `moves_of_step`: a step that drops no news moves every order's view by one of the `Moves`.
-/

namespace PolyArena

open ShadowOrderbook OrderView

/-- How far the consumer thread is with its order while the order is not in `_order_to_bo`. -/
def Stage.phase : Stage → Phase
  | .callbacks _ | .publish => .entering
  | .register => .tracked
  | .seed | .attach | .finish => .forgotten

/-- The order is not in `_order_to_bo` yet. -/
def Stage.isEarly : Stage → Bool
  | .callbacks _ | .publish | .register => true
  | .seed | .attach | .finish => false

/-- The immediate fill is published, and the callback may not be attached yet. -/
def Stage.isRegistering : Stage → Bool
  | .register | .seed | .attach => true
  | .callbacks _ | .publish | .finish => false

namespace Desk

def phase (d : Desk) (id : OrderId) : Phase :=
  if (d.consumer.orderToBo.get? id).isSome then .tracked
  else
    match d.task with
    | none => .forgotten
    | some t => if t.orderId = id then t.stage.phase else .forgotten

/-- The order `id` as the two threads see it. -/
def view (d : Desk) (id : OrderId) : OrderView where
  executed := (entryFills id d.book.history).reverse
  pending := d.feed.events.filter (·.isFillOf id)
  published := publishedFills id d.consumer.published
  phase := d.phase id

/-- The events the step drops, for no callback is attached or the order is not tracked. -/
def droppedEvents (d : Desk) : DeskAction → List OrderStateChangeEvent
  | .deliver =>
    match d.feed with
    | .collected events => if d.book.stateChangeCallbacks = 0 then events else []
    | .firing [] => []
    | .firing (e :: _) => if (d.consumer.orderToBo.get? e.orderId).isNone then [e] else []
  | _ => []

/-- The step drops a FILL event that tells something new of the order being registered. -/
def LosesFill (d : Desk) (a : DeskAction) : Prop :=
  ∃ t ∈ d.task, t.prefilled = false ∧ t.stage.isRegistering ∧
    ∃ e ∈ d.droppedEvents a, e.isFillOf t.orderId ∧
      PolyArena.lastFilled t.orderId d.consumer.published < e.filled

/-- The step publishes an immediate fill. -/
def PublishesFill (d : Desk) (a : DeskAction) : Prop :=
  match a with
  | .consume => ∃ t ∈ d.task, t.prefilled = false ∧ t.stage = .publish ∧
      ∃ o ∈ d.book.orderObject t.orderId, 0 < o.filled
  | _ => False

/-- What holds of the order that the consumer thread is working on. -/
structure TaskInv (d : Desk) (t : Task) : Prop where
  placed : .placed t.orderId ∈ d.book.history
  early : t.stage.isEarly → d.consumer.orderToBo.get? t.orderId = none
  own : ∀ own, t.stage = .callbacks own →
    (∀ e ∈ own.events, .placed e.orderId ∈ d.book.history) ∧
      ∀ id ∈ d.standard, id ≠ t.orderId → own.events.filter (·.isFillOf id) = []
  prefilled : t.prefilled = true → t.orderId ∉ d.standard ∧ t.stage.phase ≠ .entering

/-- What holds of every reachable desk. -/
structure DeskInv (d : Desk) : Prop where
  book : BookInv d.book
  placed : ∀ id ∈ d.standard, .placed id ∈ d.book.history
  settled : ∀ id ∈ d.standard, SettledAt d.book id
  known : ∀ e ∈ d.feed.events, .placed e.orderId ∈ d.book.history
  unknown : ∀ id, .placed id ∉ d.book.history →
    d.consumer.orderToBo.get? id = none ∧ publishedFills id d.consumer.published = []
  attached : d.book.stateChangeCallbacks = if d.tokenId ∈ d.consumer.registeredBooks then 1 else 0
  unattached : d.book.stateChangeCallbacks = 0 → ∀ id, (d.consumer.orderToBo.get? id).isSome →
    ∃ t ∈ d.task, t.orderId = id ∧ (t.stage = .seed ∨ t.stage = .attach)
  task : ∀ t ∈ d.task, TaskInv d t

section

variable {d d' : Desk} {id : OrderId} {t : Task} {e : OrderStateChangeEvent} {o : SimulatedOrder}
  {i : Bool} {now : Time} {boId : ℕ}

theorem deskInv_new (tokenId : String) : DeskInv (new tokenId) :=
  ⟨bookInv_new tokenId, by simp [new], by simp [new], by simp [new, Batch.events],
    fun _ _ => ⟨rfl, rfl⟩, rfl, fun _ _ h => by simp [new] at h, by simp [new]⟩

/-- Two desks with the same fills, feed events and messages, at which the order is as far. -/
theorem moves_of_same (hfills : entryFills id d'.book.history = entryFills id d.book.history)
    (hfeed : d'.feed.events.filter (·.isFillOf id) = d.feed.events.filter (·.isFillOf id))
    (hpub : publishedFills id d'.consumer.published = publishedFills id d.consumer.published)
    (hphase : d'.phase id = d.phase id) : Moves (d.view id) (d'.view id) i := by
  have hview : d'.view id = d.view id := by
    unfold view
    rw [hfills, hfeed, hpub, hphase]
  rw [hview]
  exact .idle _

/-! ## Events reach the consumer -/

/-- Handling an event leaves an order as far as it was, or forgets it. -/
theorem phase_onStateChange (h : DeskInv d) (e : OrderStateChangeEvent) (id : OrderId) :
    let d' := { d with consumer := d.consumer.onStateChange e }
    d'.phase id = d.phase id ∨ d'.phase id = .forgotten := by
  intro d'
  cases hafter : d'.consumer.orderToBo.get? id with
  | some b =>
    have hbefore : d.consumer.orderToBo.get? id = some b := tracked_of_onStateChange hafter
    left
    rw [phase, phase, hafter, hbefore]
  | none =>
    cases hbefore : d.consumer.orderToBo.get? id with
    | none =>
      left
      rw [phase, phase, hafter, hbefore]
    | some b =>
      right
      rw [phase, hafter]
      change (match d.task with
        | none => Phase.forgotten
        | some t => if t.orderId = id then t.stage.phase else .forgotten) = _
      cases ht : d.task with
      | none => rfl
      | some t =>
        dsimp only
        split
        · next hid =>
          -- a tracked order is past the early stages
          have hlate : ¬ t.stage.isEarly = true := fun hearly => by
            have hnone := (h.task t ht).early hearly
            rw [hid, hbefore] at hnone
            cases hnone
          cases hs : t.stage <;> simp [hs, Stage.isEarly] at hlate <;> rfl
        · rfl

/-- An event that is not a FILL of the order, or of an order that is not tracked, says nothing about
it. -/
theorem moves_onStateChange (h : DeskInv d)
    (he : e.isFillOf id = false ∨ d.consumer.orderToBo.get? e.orderId = none) :
    Moves (d.view id) ({ d with consumer := d.consumer.onStateChange e }.view id) i := by
  rcases he with he | he
  · have hpub := publishedFills_onStateChange (c := d.consumer) he
    rcases phase_onStateChange h e id with hphase | hphase
    · exact moves_of_same rfl rfl hpub hphase
    · have hview : { d with consumer := d.consumer.onStateChange e }.view id =
          { d.view id with phase := .forgotten } := by
        unfold view
        rw [hpub, hphase]
      rw [hview]
      exact .forget _
  · rw [onStateChange_untracked he]
    exact .idle _

/-- Handling an event of a placed order keeps the invariant. -/
theorem DeskInv.onStateChange (h : DeskInv d) (he : .placed e.orderId ∈ d.book.history) :
    DeskInv { d with consumer := d.consumer.onStateChange e } := by
  have hnone : ∀ k, d.consumer.orderToBo.get? k = none →
      (d.consumer.onStateChange e).orderToBo.get? k = none := fun k hk => by
    cases hafter : (d.consumer.onStateChange e).orderToBo.get? k with
    | none => rfl
    | some b => rw [tracked_of_onStateChange hafter] at hk; cases hk
  have hbooks : (d.consumer.onStateChange e).registeredBooks = d.consumer.registeredBooks := by
    unfold OrderConsumer.onStateChange
    split
    · rfl
    · dsimp only; split <;> rfl
  refine ⟨h.book, h.placed, h.settled, h.known, fun k hk => ?_, ?_, fun hcb k hk => ?_,
    fun t ht => ?_⟩
  · obtain ⟨hget, hpub⟩ := h.unknown k hk
    have hne : e.orderId ≠ k := fun heq => hk (heq ▸ he)
    refine ⟨hnone k hget, ?_⟩
    rw [publishedFills_onStateChange (by simp [OrderStateChangeEvent.isFillOf, hne])]
    exact hpub
  · change d.book.stateChangeCallbacks = if d.tokenId ∈ (d.consumer.onStateChange e).registeredBooks
      then 1 else 0
    rw [hbooks]
    exact h.attached
  · obtain ⟨b, hb⟩ := Option.isSome_iff_exists.mp hk
    exact h.unattached hcb k (Option.isSome_iff_exists.mpr ⟨b, tracked_of_onStateChange hb⟩)
  · obtain ⟨hplaced, hearly, hown, hpre⟩ := h.task t ht
    exact ⟨hplaced, fun hs => hnone _ (hearly hs), hown, hpre⟩

/-! ## The book changes -/

/-- An operation of the book that loses nothing that was known. -/
theorem DeskInv.withBook {b : ShadowOrderbook} {f : Batch} (h : DeskInv d) (hbook : BookInv b)
    (hmono : ∀ k, .placed k ∈ d.book.history → .placed k ∈ b.history)
    (hsettled : ∀ k ∈ d.standard, SettledAt b k)
    (hcb : b.stateChangeCallbacks = d.book.stateChangeCallbacks)
    (hknown : ∀ e ∈ f.events, .placed e.orderId ∈ b.history) :
    DeskInv { d with book := b, feed := f } := by
  refine ⟨hbook, fun k hk => hmono k (h.placed k hk), hsettled, hknown,
    fun k hk => h.unknown k fun hp => hk (hmono k hp), hcb.trans h.attached,
    fun hzero => h.unattached (hcb ▸ hzero), fun t ht => ?_⟩
  obtain ⟨hplaced, hearly, hown, hpre⟩ := h.task t ht
  refine ⟨hmono _ hplaced, hearly, fun own hs => ?_, hpre⟩
  obtain ⟨hknown, hfills⟩ := hown own hs
  exact ⟨fun e he => hmono _ (hknown e he), hfills⟩

/-- The consumer thread takes its next order. -/
theorem DeskInv.withTask {b : ShadowOrderbook} {l : List OrderId} (h : DeskInv d)
    (hidle : d.task = none) (hbook : BookInv b)
    (hmono : ∀ k, .placed k ∈ d.book.history → .placed k ∈ b.history)
    (hplaced : ∀ k ∈ l, .placed k ∈ b.history) (hsettled : ∀ k ∈ l, SettledAt b k)
    (hcb : b.stateChangeCallbacks = d.book.stateChangeCallbacks)
    (ht : TaskInv { d with book := b, task := some t, standard := l } t) :
    DeskInv { d with book := b, task := some t, standard := l } := by
  refine ⟨hbook, hplaced, hsettled, fun e he => hmono _ (h.known e he),
    fun k hk => h.unknown k fun hp => hk (hmono k hp), hcb.trans h.attached, fun hzero k hk => ?_,
    fun t' ht' => ?_⟩
  · obtain ⟨t', ht', -⟩ := h.unattached (hcb ▸ hzero) k hk
    rw [hidle] at ht'
    cases ht'
  · cases ht'
    exact ht

/-- An order that the consumer thread takes up moves no other. -/
theorem phase_withTask (hidle : d.task = none) {b : ShadowOrderbook} {standard : List OrderId}
    (hne : t.orderId ≠ id) :
    ({ d with book := b, task := some t, standard := standard } : Desk).phase id = d.phase id := by
  unfold phase
  rw [hidle]
  dsimp only
  rw [if_neg hne]

/-- What is placed or registered is not among the placed orders. -/
theorem ne_of_fresh (h : DeskInv d) {x : OrderId} (hfresh : .placed x ∉ d.book.history)
    (hid : id ∈ d.standard) : id ≠ x := fun e => hfresh (e ▸ h.placed id hid)

theorem deskInv_place {x : OrderId} {r : OrderRequest} (h : DeskInv d) (hidle : d.task = none)
    (hfresh : .placed x ∉ d.book.history) (hq : 0 < r.quantity) :
    DeskInv { d with
      book := (d.book.placeVirtualOrder now x r).book
      task := some ⟨boId, x, false,
        .callbacks (.collected (d.book.placeVirtualOrder now x r).events)⟩
      standard := x :: d.standard } := by
  have hother : ∀ k ∈ d.standard, Reports k [] d.book (d.book.placeVirtualOrder now x r).book
      (d.book.placeVirtualOrder now x r).events := fun k hk =>
    reports_of_place_other h.book hfresh hq (h.placed k hk) (h.settled k hk)
  have hplaced : .placed x ∈ (d.book.placeVirtualOrder now x r).book.history :=
    placeVirtualOrder_placed h.book hfresh hq (.inr rfl)
  have hmono : ∀ k, .placed k ∈ d.book.history →
      .placed k ∈ (d.book.placeVirtualOrder now x r).book.history := fun k hk =>
    placeVirtualOrder_placed h.book hfresh hq (.inl hk)
  refine h.withTask hidle (h.book.placeVirtualOrder hfresh hq) hmono (fun k hk => ?_)
    (fun k hk => ?_)
    placeVirtualOrder_callbacks
    ⟨hplaced, fun _ => (h.unknown x hfresh).1, fun own hown => ?_, nofun⟩
  · rcases List.mem_cons.mp hk with rfl | hk
    · exact hplaced
    · exact hmono k (h.placed k hk)
  · rcases List.mem_cons.mp hk with rfl | hk
    · obtain ⟨fs, hfs⟩ := reports_of_place_self (t := now) h.book hfresh hq
      exact hfs.settled
    · exact (hother k hk).settled
  · cases hown
    refine ⟨fun e he => placeVirtualOrder_events_placed h.book hfresh hq he, fun k hk hne => ?_⟩
    rcases List.mem_cons.mp hk with rfl | hk
    · exact absurd rfl hne
    · rcases (hother k hk).events with ⟨-, hnone⟩ | ⟨habs, -⟩
      · exact hnone
      · exact absurd rfl habs

/-- Placing an order moves no other. -/
theorem moves_place {x : OrderId} {r : OrderRequest} (h : DeskInv d) (hidle : d.task = none)
    (hfresh : .placed x ∉ d.book.history) (hq : 0 < r.quantity) (hid : id ∈ d.standard) :
    Moves (d.view id) ({ d with
      book := (d.book.placeVirtualOrder now x r).book
      task := some ⟨boId, x, false,
        .callbacks (.collected (d.book.placeVirtualOrder now x r).events)⟩
      standard := x :: d.standard }.view id) i := by
  have hne := ne_of_fresh h hfresh hid
  have hr := reports_of_place_other (t := now) h.book hfresh hq (h.placed id hid) (h.settled id hid)
  exact moves_of_same hr.fills rfl rfl (phase_withTask hidle hne.symm)

/-- The order that is placed enters. -/
theorem view_place {x : OrderId} {r : OrderRequest} (h : DeskInv d)
    (hfresh : .placed x ∉ d.book.history) (hq : 0 < r.quantity) :
    ∃ fs, (∀ f ∈ fs, 0 < f.2) ∧ ({ d with
      book := (d.book.placeVirtualOrder now x r).book
      task := some ⟨boId, x, false,
        .callbacks (.collected (d.book.placeVirtualOrder now x r).events)⟩
      standard := x :: d.standard } : Desk).view x = ⟨fs, [], [], .entering⟩ := by
  obtain ⟨fs, hfs⟩ := reports_of_place_self (t := now) h.book hfresh hq
  obtain ⟨hget, hpub⟩ := h.unknown x hfresh
  have hnone : entryFills x (withNewOrder now x r d.book).history = [] :=
    (entryFills_cons rfl).trans (h.book.balance.known x hfresh)
  have hfeed : d.feed.events.filter (·.isFillOf x) = [] := by
    rw [List.filter_eq_nil_iff]
    intro e he hfill
    rw [OrderStateChangeEvent.isFillOf, decide_eq_true_eq] at hfill
    exact hfresh (hfill.1 ▸ h.known e he)
  refine ⟨fs, hfs.pos, ?_⟩
  simp only [view, phase, hpub, hfeed, hget, hfs.fills, hnone, List.append_nil,
    List.reverse_reverse]
  simp [Stage.phase]

theorem deskInv_placePrefilled {x : OrderId} {r : PrefilledRequest} (h : DeskInv d)
    (hidle : d.task = none) (hfresh : .placed x ∉ d.book.history) :
    DeskInv { d with
      book := (d.book.placePrefilledBracketOrder now x r).book
      task := some ⟨boId, x, true, .register⟩ } := by
  have hmono : ∀ k, .placed k ∈ d.book.history →
      .placed k ∈ (d.book.placePrefilledBracketOrder now x r).book.history := fun k hk =>
    placePrefilled_placed h.book hfresh (.inl hk)
  refine h.withTask (l := d.standard) hidle (h.book.placePrefilled hfresh) hmono
    (fun k hk => hmono k (h.placed k hk)) (fun k hk => ?_)
      (same_callbacks placePrefilled_bookkeeping)
    ⟨placePrefilled_placed h.book hfresh (.inr rfl), fun _ => (h.unknown x hfresh).1, nofun,
      fun _ => ⟨fun hk => hfresh (h.placed x hk), nofun⟩⟩
  exact (reports_of_placePrefilled h.book hfresh (h.placed k hk) (h.settled k hk)).settled

theorem moves_placePrefilled {x : OrderId} {r : PrefilledRequest} (h : DeskInv d)
    (hidle : d.task = none) (hfresh : .placed x ∉ d.book.history) (hid : id ∈ d.standard) :
    Moves (d.view id) ({ d with
      book := (d.book.placePrefilledBracketOrder now x r).book
      task := some ⟨boId, x, true, .register⟩ }.view id) i := by
  have hne := ne_of_fresh h hfresh hid
  have hr := reports_of_placePrefilled (t := now) (q := r) h.book hfresh (h.placed id hid)
    (h.settled id hid)
  exact moves_of_same hr.fills rfl rfl (phase_withTask hidle hne.symm)

/-! ## The feed thread -/

theorem deskInv_feedOp {op : FeedOp} (h : DeskInv d) :
    DeskInv { d with
      book := (op.apply now d.book).1
      feed := .collected (op.apply now d.book).2 } := by
  refine h.withBook (h.book.feedOp op) (fun k => effects_placed (effects_feedOp h.book op))
    (fun k hk => ?_) (feedOp_callbacks op) fun e he => feedOp_events_placed h.book op he
  obtain ⟨fs, hfs⟩ := reports_of_feedOp (t := now) h.book (h.placed k hk) (h.settled k hk) op
  exact hfs.settled

/-- What the feed thread fills, it reports. -/
theorem moves_feedOp {op : FeedOp} (h : DeskInv d) (hidle : d.feed = .firing [])
    (hid : id ∈ d.standard) :
    Moves (d.view id) ({ d with
      book := (op.apply now d.book).1
      feed := .collected (op.apply now d.book).2 }.view id) i := by
  obtain ⟨fs, -, hpos, hfills, hevents⟩ :=
    reports_of_feedOp (t := now) h.book (h.placed id hid) (h.settled id hid) op
  have hpending : (d.view id).pending = [] := by rw [view, hidle]; rfl
  rcases hevents with ⟨rfl, hnone⟩ | ⟨hne, e, hone, hlevels, hfilled⟩
  · refine moves_of_same hfills ?_ rfl rfl
    rw [hidle]
    exact hnone
  · have hview : { d with
        book := (op.apply now d.book).1
        feed := .collected (op.apply now d.book).2 }.view id =
        { d.view id with executed := (d.view id).executed ++ fs, pending := [e] } := by
      simp only [view, hfills, List.reverse_append, List.reverse_reverse, Batch.events, hone, phase]
    rw [hview]
    refine .execute (d.view id) hpending hne hpos hlevels ?_
    rw [hfilled, filledOf_of_fills hfills]
    simp [OrderView.filled, view, filledOf]

theorem tracked_cases (h : d.phase id = .tracked) : (d.consumer.orderToBo.get? id).isSome ∨
    ∃ t ∈ d.task, t.orderId = id ∧ t.stage = .register := by
  unfold phase at h
  split at h
  · next hsome => exact .inl hsome
  · right
    cases ht : d.task with
    | none => simp [ht] at h
    | some t =>
      rw [ht] at h
      dsimp only at h
      split at h
      · next hid =>
        refine ⟨t, rfl, hid, ?_⟩
        cases hs : t.stage <;> simp [hs, Stage.phase] at h ⊢
      · cases h

/-- A dropped FILL event says nothing new of the order being registered. -/
theorem old_of_guard {a : DeskAction} (h : DeskInv d) (hguard : ¬ d.LosesFill a)
    (hid : id ∈ d.standard) (ht : t ∈ d.task) (htid : t.orderId = id)
    (hreg : t.stage.isRegistering = true) (he : e ∈ d.droppedEvents a) (hfill : e.isFillOf id) :
    e.filled ≤ (d.view id).lastFilled := by
  by_contra hnew
  refine hguard ⟨t, ht, ?_, hreg, e, he, htid ▸ hfill, htid ▸ not_le.mp hnew⟩
  rw [← Bool.not_eq_true]
  exact fun hpre => ((h.task t ht).prefilled hpre).1 (htid ▸ hid)

/-- The callbacks start. -/
theorem moves_fire {events : List OrderStateChangeEvent} (h : DeskInv d)
    (hv : ViewInv (d.view id)) (hid : id ∈ d.standard) (hfeed : d.feed = .collected events)
    (hguard : ¬ d.LosesFill .deliver) :
    Moves (d.view id) ({ d with
      feed := .firing (List.replicate d.book.stateChangeCallbacks events).flatten }.view id) i := by
  by_cases hcb : d.book.stateChangeCallbacks = 0
  · rw [hcb]
    rcases hv.pending with hnil | ⟨e, hone, -⟩
    · refine moves_of_same rfl ?_ rfl rfl
      rw [show d.feed.events.filter (·.isFillOf id) = [] from hnil]
      rfl
    · have hmem : e ∈ events ∧ e.isFillOf id = true := by
        have : e ∈ (d.view id).pending := by rw [hone]; exact List.mem_singleton_self e
        rw [view, hfeed] at this
        exact List.mem_filter.mp this
      have hdropped : e ∈ d.droppedEvents .deliver := by
        rw [droppedEvents, hfeed]
        dsimp only
        rw [if_pos hcb]
        exact hmem.1
      refine .drop (d.view id) hone fun htracked => ?_
      rcases tracked_cases htracked with hsome | ⟨t, ht, htid, hs⟩
      · obtain ⟨t, ht, htid, hs⟩ := h.unattached hcb id hsome
        refine old_of_guard h hguard hid ht htid ?_ hdropped hmem.2
        rcases hs with hs | hs <;> rw [hs] <;> rfl
      · exact old_of_guard h hguard hid ht htid (by rw [hs]; rfl) hdropped hmem.2
  · have hone : d.book.stateChangeCallbacks = 1 := by
      have := h.attached
      split at this
      · exact this
      · exact absurd this hcb
    rw [hone]
    refine moves_of_same rfl ?_ rfl rfl
    rw [hfeed]
    simp [Batch.events]

/-- One event is delivered. -/
theorem moves_deliver {rest : List OrderStateChangeEvent} (h : DeskInv d)
    (hv : ViewInv (d.view id)) (hid : id ∈ d.standard) (hfeed : d.feed = .firing (e :: rest))
    (hguard : ¬ d.LosesFill .deliver) :
    Moves (d.view id) ({ d with
      consumer := d.consumer.onStateChange e
      feed := .firing rest }.view id) i := by
  cases hfill : e.isFillOf id with
  | false =>
    have hview : { d with consumer := d.consumer.onStateChange e, feed := .firing rest }.view id =
        { d with consumer := d.consumer.onStateChange e }.view id := by
      simp [view, hfeed, Batch.events, hfill, phase]
    rw [hview]
    exact moves_onStateChange h (.inl hfill)
  | true =>
    have hpending : (d.view id).pending = e :: rest.filter (·.isFillOf id) := by
      simp [view, hfeed, Batch.events, hfill]
    have hrest : rest.filter (·.isFillOf id) = [] := by
      rcases hv.pending with hnil | ⟨x, hone, -⟩
      · simp [hnil] at hpending
      · rw [hone, List.cons.injEq] at hpending
        exact hpending.2.symm
    rw [hrest] at hpending
    have heid : e.orderId = id := by
      rw [OrderStateChangeEvent.isFillOf, decide_eq_true_eq] at hfill
      exact hfill.1
    cases hget : d.consumer.orderToBo.get? id with
    | none =>
      rw [onStateChange_untracked (heid ▸ hget)]
      have hview : { d with feed := .firing rest }.view id = { d.view id with pending := [] } := by
        simp [view, Batch.events, hrest, phase]
      rw [hview]
      refine .drop (d.view id) hpending fun htracked => ?_
      have hdropped : e ∈ d.droppedEvents .deliver := by
        rw [droppedEvents, hfeed]
        simp [heid, hget]
      rcases tracked_cases htracked with hsome | ⟨t, ht, htid, hs⟩
      · rw [hget] at hsome
        cases hsome
      · exact old_of_guard h hguard hid ht htid (by rw [hs]; rfl) hdropped hfill
    | some boId =>
      have hphase : ({ d with consumer := d.consumer.onStateChange e }).phase id ≠ .entering := by
        rcases phase_onStateChange h e id with hp | hp
        · rw [hp, phase, hget]
          simp
        · rw [hp]
          simp
      have hview : { d with consumer := d.consumer.onStateChange e, feed := .firing rest }.view id =
          { d.view id with
            pending := []
            published := (d.view id).published ++ [e.fillMessage boId]
            phase := ({ d with consumer := d.consumer.onStateChange e }).phase id } := by
        have hpub := published_onStateChange hget hfill
        unfold view
        rw [hpub, publishedFills_fill_self (by rw [← heid]; rfl)]
        simp [Batch.events, hrest, phase]
      rw [hview]
      refine .deliver (d.view id) ?_ hpending hphase
      change d.phase id = _
      rw [phase, hget]
      rfl

/-! ## The consumer thread -/

section Work

variable (h : DeskInv d) (ht : d.task = some t)

include h ht

/-- The consumer thread goes on to a stage that asks for nothing more. -/
theorem DeskInv.withStage {s : Stage} (hearly : s.isEarly → t.stage.isEarly)
    (hlate : d.book.stateChangeCallbacks = 0 → t.stage = .seed ∨ t.stage = .attach →
      s = .seed ∨ s = .attach)
    (hown : ∀ own, s = .callbacks own → (∀ e ∈ own.events, .placed e.orderId ∈ d.book.history) ∧
      ∀ k ∈ d.standard, k ≠ t.orderId → own.events.filter (·.isFillOf k) = [])
    (hpre : s.phase = .entering → t.stage.phase = .entering) :
    DeskInv { d with task := some { t with stage := s } } := by
  refine ⟨h.book, h.placed, h.settled, h.known, h.unknown, h.attached, fun hcb k hk => ?_,
    fun t' ht' => ?_⟩
  · obtain ⟨t', ht', hk', hs⟩ := h.unattached hcb k hk
    rw [ht] at ht'
    cases ht'
    exact ⟨_, rfl, hk', hlate hcb hs⟩
  · cases ht'
    have hinv := h.task t ht
    exact ⟨hinv.placed, fun he => hinv.early (hearly he), hown,
      fun hp => ⟨(hinv.prefilled hp).1, fun he => (hinv.prefilled hp).2 (hpre he)⟩⟩

omit h in
theorem view_withStage {s : Stage} (hphase : s.phase = t.stage.phase) :
    ({ d with task := some { t with stage := s } } : Desk).view id = d.view id := by
  unfold view phase
  rw [ht]
  dsimp only
  rw [hphase]

/-- The events of the placement are delivered. -/
theorem deskInv_ownDeliver {own own' : Batch} {c : OrderConsumer} (hs : t.stage = .callbacks own)
    (hdeliver : own.deliver d.book.stateChangeCallbacks d.consumer = some (c, own')) :
    DeskInv { d with consumer := c, task := some { t with stage := .callbacks own' } } := by
  obtain ⟨hknown, hfills⟩ := (h.task t ht).own own hs
  have hlate : d.book.stateChangeCallbacks = 0 → t.stage = .seed ∨ t.stage = .attach →
      Stage.callbacks own' = .seed ∨ Stage.callbacks own' = .attach := by simp [hs]
  cases own with
  | collected events =>
    cases hdeliver
    refine h.withStage ht (fun _ => by rw [hs]; rfl) hlate (fun x hx => ?_) fun _ => by rw [hs]; rfl
    cases hx
    refine ⟨fun e he => ?_, fun k hk hne => ?_⟩
    · obtain ⟨l, hl, he⟩ := List.mem_flatten.mp he
      exact hknown e (List.eq_of_mem_replicate hl ▸ he)
    · rw [List.filter_eq_nil_iff]
      intro e he
      obtain ⟨l, hl, he⟩ := List.mem_flatten.mp he
      exact List.filter_eq_nil_iff.mp (hfills k hk hne) e (List.eq_of_mem_replicate hl ▸ he)
  | firing events =>
    cases events with
    | nil => cases hdeliver
    | cons e rest =>
      cases hdeliver
      refine (h.onStateChange (hknown e List.mem_cons_self)).withStage ht
        (fun _ => by rw [hs]; rfl) hlate (fun x hx => ?_) fun _ => by rw [hs]; rfl
      cases hx
      refine ⟨fun e' he' => hknown e' (List.mem_cons_of_mem _ he'), fun k hk hne => ?_⟩
      rw [List.filter_eq_nil_iff]
      exact fun e' he' => List.filter_eq_nil_iff.mp (hfills k hk hne) e'
        (List.mem_cons_of_mem _ he')

theorem moves_ownDeliver {own own' : Batch} {c : OrderConsumer} (hid : id ∈ d.standard)
    (hs : t.stage = .callbacks own)
    (hdeliver : own.deliver d.book.stateChangeCallbacks d.consumer = some (c, own')) :
    Moves (d.view id)
      ({ d with consumer := c, task := some { t with stage := .callbacks own' } }.view id) i := by
  have hphase : (Stage.callbacks own').phase = t.stage.phase := by rw [hs]; rfl
  rw [show ({ d with consumer := c, task := some { t with
    stage := .callbacks own' } } : Desk).view id =
    { d with consumer := c }.view id from view_withStage (d := { d with consumer := c }) ht hphase]
  cases own with
  | collected events =>
    cases hdeliver
    exact .idle _
  | firing events =>
    cases events with
    | nil => cases hdeliver
    | cons e rest =>
      cases hdeliver
      refine moves_onStateChange h ?_
      by_cases hne : id = t.orderId
      · cases hfill : e.isFillOf id with
        | false => exact .inl rfl
        | true =>
          rw [OrderStateChangeEvent.isFillOf, decide_eq_true_eq] at hfill
          refine .inr ?_
          rw [hfill.1, hne]
          exact (h.task t ht).early (by rw [hs]; rfl)
      · have hnone := ((h.task t ht).own _ hs).2 id hid hne
        left
        have := List.filter_eq_nil_iff.mp hnone e List.mem_cons_self
        simpa using this

/-- A message about the order at hand is published. -/
theorem DeskInv.publish (m : StreamMessage)
    (hm : ∀ k, k ≠ t.orderId → ∀ x, m = .fill x → x.orderId ≠ some k) :
    DeskInv { d with consumer := d.consumer.publish m } := by
  refine ⟨h.book, h.placed, h.settled, h.known, fun k hk => ?_, h.attached, h.unattached,
    fun t' ht' => ?_⟩
  · obtain ⟨hget, hpub⟩ := h.unknown k hk
    have hne : k ≠ t.orderId := fun e => hk (e ▸ (h.task t ht).placed)
    exact ⟨hget, (publishedFills_other (hm k hne)).trans hpub⟩
  · obtain ⟨hplaced, hearly, hown, hpre⟩ := h.task t' ht'
    exact ⟨hplaced, hearly, hown, hpre⟩

/-- The immediate fill is published. -/
theorem deskInv_publish (hs : t.stage = .publish) (ho : o.orderId = t.orderId) :
    DeskInv { d with
      book := if 0 < o.filled then d.book.resetFillLevels t.orderId else d.book
      consumer := d.consumer.publishImmediateFill o t.boId
      task := some { t with stage := .register } } := by
  have hnext : ∀ {d' : Desk}, DeskInv d' → d'.task = some t →
      DeskInv { d' with task := some { t with stage := .register } } := fun h' ht' =>
    h'.withStage ht' (fun _ => by rw [hs]; rfl) (by simp [hs]) nofun nofun
  unfold OrderConsumer.publishImmediateFill
  by_cases hfilled : 0 < o.filled
  · rw [if_pos hfilled, if_pos hfilled]
    have hpub := h.publish ht (.fill (o.fillMessage t.boId)) fun k hne x hx => by
      cases hx
      rw [SimulatedOrder.fillMessage, ho]
      exact fun e => hne (Option.some.inj e).symm
    exact hnext (hpub.withBook (f := d.feed) (h.book.resetFillLevels t.orderId) (fun _ hk => hk)
      (fun k hk => (h.settled k hk).resetFillLevels _) rfl h.known) ht
  · rw [if_neg hfilled, if_neg hfilled]
    exact hnext h ht

theorem moves_publish (hv : ViewInv (d.view id)) (hid : id ∈ d.standard) (hs : t.stage = .publish)
    (ho : d.book.orderObject t.orderId = some o)
    (hguard : i = false → ¬ d.PublishesFill .consume) :
    Moves (d.view id) ({ d with
      book := if 0 < o.filled then d.book.resetFillLevels t.orderId else d.book
      consumer := d.consumer.publishImmediateFill o t.boId
      task := some { t with stage := .register } }.view id) i := by
  obtain ⟨hoid, hofilled⟩ := orderObject_filled h.book ho
  have hhist : (if 0 < o.filled then d.book.resetFillLevels t.orderId else d.book).history =
      d.book.history := by split <;> rfl
  by_cases hne : id = t.orderId
  · subst hne
    have hget := (h.task t ht).early (by rw [hs]; rfl)
    have hphase : (d.view t.orderId).phase = .entering := by
      change d.phase t.orderId = _
      simp [phase, hget, ht, hs, Stage.phase]
    have hsum : (d.view t.orderId).filled = o.filled := by
      simp [OrderView.filled, view, hofilled, filledOf]
    unfold OrderConsumer.publishImmediateFill
    by_cases hfilled : 0 < o.filled
    · have hview : ({ d with
          book := if 0 < o.filled then d.book.resetFillLevels t.orderId else d.book
          consumer := if 0 < o.filled then d.consumer.publish (.fill (o.fillMessage t.boId))
            else d.consumer
          task := some { t with stage := .register } } : Desk).view t.orderId =
          { d.view t.orderId with
            published := (d.view t.orderId).published ++ [o.fillMessage t.boId]
            phase := .tracked } := by
        have hm : (o.fillMessage t.boId).orderId = some t.orderId := by
          rw [SimulatedOrder.fillMessage, hoid]
        simp only [view, if_pos hfilled, resetFillLevels, OrderConsumer.publish,
          publishedFills_fill_self hm]
        simp [phase, hget, Stage.phase]
      rw [hview]
      cases i with
      | true => exact .enterFilled _ hphase hsum.symm
      | false =>
        refine absurd ⟨t, ht, ?_, hs, o, ho, hfilled⟩ (hguard rfl)
        rw [← Bool.not_eq_true]
        exact fun hp => ((h.task t ht).prefilled hp).1 hid
    · have hview : ({ d with
          book := if 0 < o.filled then d.book.resetFillLevels t.orderId else d.book
          consumer := if 0 < o.filled then d.consumer.publish (.fill (o.fillMessage t.boId))
            else d.consumer
          task := some { t with stage := .register } } : Desk).view t.orderId =
          { d.view t.orderId with phase := .tracked } := by
        simp only [view, if_neg hfilled]
        simp [phase, hget, Stage.phase]
      rw [hview]
      refine .enter _ hphase ?_
      by_contra hsome
      exact hfilled (hsum ▸ sum_pos_of_fills hv.pos hsome)
  · refine moves_of_same (congrArg (entryFills id) hhist) rfl ?_ ?_
    · unfold OrderConsumer.publishImmediateFill
      dsimp only
      split
      · refine publishedFills_other fun m hm => ?_
        cases hm
        rw [SimulatedOrder.fillMessage, hoid]
        exact fun e => hne (Option.some.inj e).symm
      · rfl
    · have hget : (d.consumer.publishImmediateFill o t.boId).orderToBo = d.consumer.orderToBo := by
        unfold OrderConsumer.publishImmediateFill
        split <;> rfl
      simp [phase, hget, ht, Ne.symm hne]

/-- The order enters `_order_to_bo`. -/
theorem deskInv_register (hs : t.stage = .register) :
    DeskInv { d with
      consumer := d.consumer.register t.orderId t.boId
      task := some { t with stage := .seed } } := by
  have hother : ∀ k, k ≠ t.orderId →
      (d.consumer.register t.orderId t.boId).orderToBo.get? k = d.consumer.orderToBo.get? k :=
    fun k hne => SortedDict.get?_set_ne hne
  refine ⟨h.book, h.placed, h.settled, h.known, fun k hk => ?_, h.attached, fun hcb k hk => ?_,
    fun t' ht' => ?_⟩
  · have hne : k ≠ t.orderId := fun e => hk (e ▸ (h.task t ht).placed)
    exact (hother k hne).symm ▸ h.unknown k hk
  · by_cases hne : k = t.orderId
    · exact ⟨_, rfl, hne.symm, .inl rfl⟩
    · obtain ⟨t', ht', -, hlate⟩ := h.unattached hcb k (hother k hne ▸ hk)
      rw [ht] at ht'
      cases ht'
      simp [hs] at hlate
  · cases ht'
    have hinv := h.task t ht
    exact ⟨hinv.placed, nofun, nofun, fun hp => ⟨(hinv.prefilled hp).1, nofun⟩⟩

theorem moves_register (hs : t.stage = .register) :
    Moves (d.view id) ({ d with
      consumer := d.consumer.register t.orderId t.boId
      task := some { t with stage := .seed } }.view id) i := by
  refine moves_of_same rfl rfl rfl ?_
  by_cases hne : id = t.orderId
  · have hget := (h.task t ht).early (by rw [hs]; rfl)
    subst hne
    simp [phase, OrderConsumer.register, hget, ht, hs, Stage.phase]
  · simp [phase, OrderConsumer.register, SortedDict.get?_set_ne hne, ht, Ne.symm hne]

/-- The book's last report is seeded. -/
theorem deskInv_seed (ho : d.book.orderObject t.orderId = some o) :
    DeskInv { d with
      book := d.book.seedLastReported t.orderId o.filled o.status
      task := some { t with stage := .attach } } := by
  have hplaced := (h.task t ht).placed
  have hbook := h.withBook (f := d.feed) (h.book.seed hplaced o.filled o.status)
    (fun _ hk => hk) (fun k hk => ?_) rfl h.known
  · exact hbook.withStage ht nofun (fun _ _ => .inr rfl) nofun nofun
  · by_cases hne : k = t.orderId
    · subst hne
      exact (h.settled _ hk).seed h.book ho
    · exact (h.settled k hk).seed_ne hne

/-- The callback is attached, if it is not yet. -/
theorem deskInv_attach (hs : t.stage = .attach) : DeskInv (d.work t o) := by
  unfold work
  rw [hs]
  dsimp only
  by_cases htoken : d.tokenId ∈ d.consumer.registeredBooks
  · rw [if_pos htoken]
    have hone : d.book.stateChangeCallbacks = 1 := h.attached.trans (if_pos htoken)
    exact h.withStage ht nofun (fun hcb => by rw [hone] at hcb; cases hcb) nofun nofun
  · rw [if_neg htoken]
    have hzero : d.book.stateChangeCallbacks = 0 := h.attached.trans (if_neg htoken)
    have hone : d.book.registerStateChangeCallback.stateChangeCallbacks = 1 := by
      rw [registerStateChangeCallback, hzero]
    have hattached : DeskInv { d with
        book := d.book.registerStateChangeCallback
        consumer := { d.consumer with
          registeredBooks := d.tokenId :: d.consumer.registeredBooks } } := by
      refine ⟨h.book.of_works .refl rfl, h.placed, h.settled, h.known, h.unknown, ?_, ?_,
        fun t' ht' => ?_⟩
      · exact hone.trans (if_pos List.mem_cons_self).symm
      · exact fun hcb => by rw [hone] at hcb; cases hcb
      · obtain ⟨hplaced, hearly, hown, hpre⟩ := h.task t' ht'
        exact ⟨hplaced, hearly, hown, hpre⟩
    exact hattached.withStage ht nofun (fun hcb => by rw [hone] at hcb; cases hcb) nofun nofun

omit h in
theorem view_attach (hs : t.stage = .attach) : (d.work t o).view id = d.view id := by
  have hphase : Stage.finish.phase = t.stage.phase := by rw [hs]; rfl
  unfold work
  rw [hs]
  dsimp only
  split
  · exact view_withStage ht hphase
  · exact view_withStage (d := d) ht hphase

/-- The consumer thread is done with its order. -/
theorem DeskInv.idle (hs : t.stage = .finish) : DeskInv { d with task := none } := by
  refine ⟨h.book, h.placed, h.settled, h.known, h.unknown, h.attached, fun hcb k hk => ?_, nofun⟩
  obtain ⟨t', ht', -, hlate⟩ := h.unattached hcb k hk
  rw [ht] at ht'
  cases ht'
  simp [hs] at hlate

omit ht in
/-- The consumer tracks an order no longer. -/
theorem DeskInv.forget (k : OrderId) : DeskInv { d with consumer := d.consumer.forget k } := by
  have hsome : ∀ j, ((d.consumer.forget k).orderToBo.get? j).isSome →
      (d.consumer.orderToBo.get? j).isSome := fun j hj => by
    by_cases hjk : j = k
    · simp [OrderConsumer.forget, hjk] at hj
    · rwa [OrderConsumer.forget, SortedDict.get?_erase_ne hjk] at hj
  have hnone : ∀ j, d.consumer.orderToBo.get? j = none →
      (d.consumer.forget k).orderToBo.get? j = none := fun j hj => by
    cases hafter : (d.consumer.forget k).orderToBo.get? j with
    | none => rfl
    | some b =>
      have := hsome j (by rw [hafter]; rfl)
      rw [hj] at this
      cases this
  refine ⟨h.book, h.placed, h.settled, h.known, fun j hj => ?_, h.attached,
    fun hcb j hj => h.unattached hcb j (hsome j hj), fun t' ht' => ?_⟩
  · obtain ⟨hget, hpub⟩ := h.unknown j hj
    exact ⟨hnone j hget, hpub⟩
  · obtain ⟨hplaced, hearly, hown, hpre⟩ := h.task t' ht'
    exact ⟨hplaced, fun hs => hnone _ (hearly hs), hown, hpre⟩

/-- The immediate cancel is published. -/
theorem deskInv_finish (hs : t.stage = .finish) : DeskInv (d.work t o) := by
  unfold work
  rw [hs]
  dsimp only
  split
  · exact h.idle ht hs
  · unfold OrderConsumer.publishImmediateCancel
    split
    · have hpub := h.publish ht (.cancel (o.iocCancelMessage t.boId)) fun _ _ _ hx => by cases hx
      exact (hpub.forget o.orderId).idle ht hs
    · exact h.idle ht hs

omit h in
theorem moves_finish (hs : t.stage = .finish) : Moves (d.view id) ((d.work t o).view id) i := by
  have hidle : ({ d with task := none } : Desk).view id = d.view id := by
    simp only [view, phase, ht, hs, Stage.phase, ite_self]
  have hsame : Moves (d.view id) (({ d with task := none } : Desk).view id) i := by
    rw [hidle]
    exact .idle _
  unfold work
  rw [hs]
  dsimp only
  split
  · exact hsame
  · unfold OrderConsumer.publishImmediateCancel
    split
    · have hpub :
          publishedFills id (d.consumer.publish (.cancel (o.iocCancelMessage t.boId))).published =
          publishedFills id d.consumer.published := publishedFills_other fun _ hx => by cases hx
      by_cases hne : id = o.orderId
      · subst hne
        have hview : ({ d with
            consumer := (d.consumer.publish (.cancel (o.iocCancelMessage t.boId))).forget o.orderId
            task := none } : Desk).view o.orderId =
            { d.view o.orderId with phase := .forgotten } := by
          simp only [view, OrderConsumer.forget, hpub, phase, SortedDict.get?_erase_self]
          rfl
        rw [hview]
        exact .forget _
      · have hview : ({ d with
            consumer := (d.consumer.publish (.cancel (o.iocCancelMessage t.boId))).forget o.orderId
            task := none } : Desk).view id = d.view id := by
          rw [← hidle]
          simp only [view, OrderConsumer.forget, hpub, phase, SortedDict.get?_erase_ne hne]
          rfl
        rw [hview]
        exact .idle _
    · exact hsame

theorem deskInv_work (ho : d.book.orderObject t.orderId = some o) : DeskInv (d.work t o) := by
  cases hs : t.stage with
  | callbacks own =>
    unfold work
    rw [hs]
    dsimp only
    cases hdeliver : own.deliver d.book.stateChangeCallbacks d.consumer with
    | none =>
      exact h.withStage ht (fun _ => by rw [hs]; rfl) (by simp [hs]) nofun fun _ => by rw [hs]; rfl
    | some r => exact deskInv_ownDeliver h ht hs hdeliver
  | publish =>
    have := deskInv_publish h ht hs (orderObject_filled h.book ho).1
    unfold work
    rwa [hs]
  | register =>
    have := deskInv_register h ht hs
    unfold work
    rwa [hs]
  | seed =>
    have := deskInv_seed h ht ho
    unfold work
    rwa [hs]
  | attach => exact deskInv_attach h ht hs
  | finish => exact deskInv_finish h ht hs

theorem moves_work (hv : ViewInv (d.view id)) (hid : id ∈ d.standard)
    (ho : d.book.orderObject t.orderId = some o)
    (hguard : i = false → ¬ d.PublishesFill .consume) :
    Moves (d.view id) ((d.work t o).view id) i := by
  cases hs : t.stage with
  | callbacks own =>
    unfold work
    rw [hs]
    dsimp only
    cases hdeliver : own.deliver d.book.stateChangeCallbacks d.consumer with
    | none =>
      dsimp only
      rw [view_withStage ht (by rw [hs]; rfl)]
      exact .idle _
    | some r => exact moves_ownDeliver h ht hid hs hdeliver
  | publish =>
    have := moves_publish h ht hv hid hs ho hguard
    unfold work
    rwa [hs]
  | register =>
    have : Moves (d.view id) _ i := moves_register h ht hs
    unfold work
    rwa [hs]
  | seed =>
    unfold work
    rw [hs]
    dsimp only
    rw [show ({ d with
        book := d.book.seedLastReported t.orderId o.filled o.status
        task := some { t with stage := .attach } } : Desk).view id = d.view id from
      view_withStage (d := { d with book := d.book.seedLastReported t.orderId o.filled o.status })
        (s := .attach) ht (by rw [hs]; rfl)]
    exact .idle _
  | attach =>
    rw [view_attach ht hs]
    exact .idle _
  | finish => exact moves_finish ht hs

end Work

/-! ## Every step -/

/-- What every order of a reachable desk satisfies, too. -/
structure Sound (d : Desk) : Prop where
  inv : DeskInv d
  views : ∀ id ∈ d.standard, ViewInv (d.view id)

/-- A rejection is no fill of any order. -/
theorem publishedFills_reject {c : OrderConsumer} (id : OrderId) (boId : ℕ)
    (reason : CancelReason) :
    publishedFills id (c.reject boId reason).published = publishedFills id c.published :=
  publishedFills_other fun _ hx => by cases hx

theorem deskInv_reject (h : DeskInv d) (hidle : d.task = none) (boId : ℕ) (reason : CancelReason) :
    DeskInv { d with consumer := d.consumer.reject boId reason } := by
  refine ⟨h.book, h.placed, h.settled, h.known, fun k hk => ?_, h.attached, h.unattached,
    fun t ht => ?_⟩
  · obtain ⟨hget, hnone⟩ := h.unknown k hk
    exact ⟨hget, (publishedFills_reject k boId reason).trans hnone⟩
  · rw [show d.task = some t from ht] at hidle
    cases hidle

theorem deskInv_deliver (h : DeskInv d) (hstep : d.step .deliver = some d') : DeskInv d' := by
  unfold step at hstep
  cases hfeed : d.feed with
  | collected events =>
    rw [hfeed] at hstep
    cases hstep
    refine h.withBook h.book (fun _ hk => hk) h.settled rfl fun e he => ?_
    obtain ⟨l, hl, he⟩ := List.mem_flatten.mp he
    exact h.known e (by rw [hfeed]; exact List.eq_of_mem_replicate hl ▸ he)
  | firing events =>
    cases events with
    | nil =>
      rw [hfeed] at hstep
      cases hstep
    | cons e rest =>
      rw [hfeed] at hstep
      cases hstep
      have hknown : ∀ x ∈ e :: rest, .placed x.orderId ∈ d.book.history := fun x hx =>
        h.known x (by rw [hfeed]; exact hx)
      have h' := h.onStateChange (hknown e List.mem_cons_self)
      exact h'.withBook h'.book (fun _ hk => hk) h'.settled rfl fun x hx =>
        hknown x (List.mem_cons_of_mem _ hx)

theorem moves_deliverStep (h : Sound d) (hid : id ∈ d.standard) (hguard : ¬ d.LosesFill .deliver)
    (hstep : d.step .deliver = some d') : Moves (d.view id) (d'.view id) i := by
  unfold step at hstep
  cases hfeed : d.feed with
  | collected events =>
    rw [hfeed] at hstep
    cases hstep
    exact moves_fire h.inv (h.views id hid) hid hfeed hguard
  | firing events =>
    cases events with
    | nil =>
      rw [hfeed] at hstep
      cases hstep
    | cons e rest =>
      rw [hfeed] at hstep
      cases hstep
      exact moves_deliver h.inv (h.views id hid) hid hfeed hguard

/-- **One step** keeps the invariant of the desk, and moves every order or places it. -/
theorem moves_of_step {a : DeskAction} (h : Sound d) (hstep : d.step a = some d')
    (hguard : ¬ d.LosesFill a) (hpub : i = false → ¬ d.PublishesFill a) :
    DeskInv d' ∧ ∀ id ∈ d'.standard,
      id ∈ d.standard ∧ Moves (d.view id) (d'.view id) i ∨
      ∃ fs, (∀ f ∈ fs, 0 < f.2) ∧ d'.view id = ⟨fs, [], [], .entering⟩ := by
  cases steps_of_step hstep with
  | place now boId x r hidle hfresh hq =>
    refine ⟨deskInv_place h.inv hidle hfresh hq, fun id hid => ?_⟩
    rcases List.mem_cons.mp hid with rfl | hid
    · exact .inr (view_place h.inv hfresh hq)
    · exact .inl ⟨hid, moves_place h.inv hidle hfresh hq hid⟩
  | placePrefilled now boId x r hidle hfresh =>
    exact ⟨deskInv_placePrefilled h.inv hidle hfresh, fun id hid =>
      .inl ⟨hid, moves_placePrefilled h.inv hidle hfresh hid⟩⟩
  | reject boId hidle =>
    refine ⟨deskInv_reject h.inv hidle boId .tokenRotated, fun id hid => ?_⟩
    exact .inl ⟨hid, moves_of_same rfl rfl (publishedFills_reject id boId .tokenRotated) rfl⟩
  | consume t o ht ho =>
    refine ⟨deskInv_work h.inv ht ho, fun id hid => .inl ?_⟩
    rw [work_standard] at hid
    exact ⟨hid, moves_work h.inv ht (h.views id hid) hid ho hpub⟩
  | feedOp now op hidle =>
    exact ⟨deskInv_feedOp h.inv, fun id hid => .inl ⟨hid, moves_feedOp h.inv hidle hid⟩⟩
  | deliver c f hd =>
    refine ⟨deskInv_deliver h.inv hstep, fun id hid => .inl ?_⟩
    have hid : id ∈ d.standard := hid
    exact ⟨hid, moves_deliverStep h hid hguard hstep⟩

theorem sound_step {a : DeskAction} (h : Sound d) (hstep : d.step a = some d')
    (hguard : ¬ d.LosesFill a) : Sound d' := by
  obtain ⟨hinv, hmoves⟩ := moves_of_step (i := true) h hstep hguard nofun
  refine ⟨hinv, fun id hid => ?_⟩
  rcases hmoves id hid with ⟨hid', hm⟩ | ⟨fs, hpos, hview⟩
  · exact hm.inv (h.views id hid')
  · rw [hview]
    exact .initial fs hpos

theorem sound_new (tokenId : String) : Sound (new tokenId) := ⟨deskInv_new tokenId, by simp [new]⟩

end

end Desk

end PolyArena
