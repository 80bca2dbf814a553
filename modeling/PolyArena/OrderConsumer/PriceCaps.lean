import PolyArena.OrderConsumer.Publication

/-!
# What an order pays, on its way to the messages

The levels of a fill are with the order, then in an event of the book, then in a message.

1. `CappedAt cap`: an order has no fill level above `cap`, and it is over or a LIMIT BUY at up to
   `cap`.
2. `CappedCore cap ids` says so of the orders `ids` of a book, the pruned ones too.  `effect_capped`
   is its step lemma, and `capped_events` what it says of the events of an operation.
3. `CappedRow cap ids k`: the orders `ids` of the row `k` are capped, and no event or message tells
   a level above `cap` of them.  `cappedRow_step` is the step lemma; it asks of a placement for the
   row that its order is a LIMIT BUY at up to `cap`.
-/

namespace PolyArena

open ShadowOrderbook

/-- No level is above `cap`. -/
def LevelsWithin (cap : ℚ) (levels : List (ℚ × ℚ)) : Prop := ∀ f ∈ levels, f.1 ≤ cap

/-- A LIMIT BUY that asks for `cap` or less. -/
structure SimulatedOrder.AsksWithin (cap : ℚ) (o : SimulatedOrder) : Prop where
  side : o.side = .buy
  orderType : o.orderType = .limit
  price : o.price ≤ cap

/-- The order paid no more than `cap`, and will not. -/
structure SimulatedOrder.CappedAt (cap : ℚ) (o : SimulatedOrder) : Prop where
  levels : LevelsWithin cap o.fillLevels
  terms : o.status.isTerminal = true ∨ o.AsksWithin cap

/-- The orders `ids` of the core are capped. -/
structure CappedCore (cap : ℚ) (ids : List OrderId) (c : BookCore) : Prop where
  known : ∀ id ∈ ids, .placed id ∈ c.history
  orders : ∀ o ∈ c.orders ++ c.pruned, o.orderId ∈ ids → o.CappedAt cap

/-! ## The book -/

section

variable {cap p q : ℚ} {o o' : SimulatedOrder} {c c' : BookCore} {d : Bool} {ids : List OrderId}
  {id : OrderId} {b b' : ShadowOrderbook} {pre post : List SimulatedOrder} {now : Time}

theorem SimulatedOrder.AsksWithin.keeps (h : o.AsksWithin cap) (hterms : KeepsTerms o o') :
    o'.AsksWithin cap :=
  ⟨hterms.side.trans h.side, hterms.orderType.trans h.orderType, hterms.price ▸ h.price⟩

/-- A change of an order that leaves its levels and its terms alone, and does not open it again. -/
theorem SimulatedOrder.CappedAt.keeps (h : o.CappedAt cap) (hlevels : o'.fillLevels = o.fillLevels)
    (hterms : KeepsTerms o o') (hover : o.status.isTerminal = true → o'.status.isTerminal = true) :
    o'.CappedAt cap :=
  ⟨hlevels ▸ h.levels, h.terms.imp hover fun hwithin => hwithin.keeps hterms⟩

/-- **A match** of a capped order is at the cap or below. -/
theorem SimulatedOrder.CappedAt.addFill (h : o.CappedAt cap) (hactive : o.status.isTerminal = false)
    (haccepts : o.Accepts p) : (o.addFill p q).CappedAt cap := by
  have hwithin : o.AsksWithin cap :=
    h.terms.resolve_left (by rw [hactive]; exact Bool.false_ne_true)
  have hp : p ≤ cap := by
    unfold SimulatedOrder.Accepts at haccepts
    rw [hwithin.orderType, hwithin.side] at haccepts
    exact haccepts.trans hwithin.price
  refine ⟨fun f hf => ?_, .inr (hwithin.keeps (keepsTerms_addFill o p q))⟩
  rw [addFill_fillLevels] at hf
  rcases List.mem_append.mp hf with hold | hnew
  · exact h.levels f hold
  · rw [List.mem_singleton.mp hnew]
    exact hp

theorem SimulatedOrder.CappedAt.noLevels (h : o.CappedAt cap) :
    SimulatedOrder.CappedAt cap { o with fillLevels := [] } :=
  ⟨fun _ hf => absurd hf List.not_mem_nil, h.terms.imp id fun hw =>
    ⟨hw.side, hw.orderType, hw.price⟩⟩

/-- **One effect** leaves the orders capped. -/
theorem effect_capped (he : Effect c c' d) (h : CappedCore cap ids c) : CappedCore cap ids c' := by
  refine ⟨fun id hid => effect_placed he (h.known id hid), fun x hx hid => ?_⟩
  have hsame : x ∈ c.orders ++ c.pruned → x.CappedAt cap := fun hx => h.orders x hx hid
  -- an order replaced by another of its id
  have hreplaced : ∀ {pre post : List SimulatedOrder} {o o' : SimulatedOrder},
      c.orders = pre ++ o :: post → o'.orderId = o.orderId → (o.CappedAt cap → o'.CappedAt cap) →
      x ∈ (pre ++ o' :: post) ++ c.pruned → x.CappedAt cap := by
    intro pre post o o' horders hoid hcapped hx
    rcases mem_all_replace horders hx with rfl | hx
    · exact hcapped (h.orders o (by simp [horders]) (hoid ▸ hid))
    · exact hsame hx
  -- a new order has another id
  have hnew : ∀ {o : SimulatedOrder}, .placed o.orderId ∉ c.history →
      x ∈ (c.orders ++ [o]) ++ c.pruned → x.CappedAt cap := by
    intro o hfresh hx
    simp only [List.mem_append, List.mem_singleton] at hx
    rcases hx with (hx | rfl) | hx
    · exact hsame (List.mem_append_left _ hx)
    · exact absurd (h.known _ hid) hfresh
    · exact hsame (List.mem_append_right _ hx)
  cases he with
  | set side p size => exact hsame (by cases side <;> exact hx)
  | clear => exact hsame hx
  | place o hfresh _ => exact hnew hfresh hx
  | prefill o p hfresh _ => exact hnew hfresh hx
  | @fill _ time pre post o p q size horders hactive hsize hpos hle hrem haccepts =>
    refine hreplaced horders (addFill_orderId : (o.addFill p q).orderId = _)
      (fun ho => ho.addFill hactive haccepts) ?_
    unfold BookCore.fill at hx
    cases hside : o.side <;> rw [hside] at hx <;> exact hx
  | exit time horders htakes hexit =>
    exact hreplaced horders hexit.orderId
      (fun ho => ho.keeps hexit.fillLevels hexit.terms
        (by rw [hexit.status]; exact fun ht => ht)) hx
  | revise horders hrev =>
    refine hreplaced horders hrev.orderId (fun ho => ho.keeps hrev.fillLevels hrev.terms
      fun ht => ?_) hx
    rcases hrev.status with ⟨hs, -⟩ | ⟨-, hs, -⟩
    · rwa [hs]
    · rw [hs]
      rfl
  | prune drop =>
    refine hsame ?_
    simp only [List.mem_append, List.mem_filter] at hx ⊢
    tauto
  | @drain pre post o horders =>
    exact hreplaced horders (rfl : o.drained.orderId = _) (fun ho => ho.noLevels) hx

theorem effects_capped (he : Effects c c') (h : CappedCore cap ids c) : CappedCore cap ids c' := by
  induction he with
  | refl => exact h
  | tail _ hstep ih => exact effect_capped hstep ih

theorem works_capped (hw : Works c c') (h : CappedCore cap ids c) : CappedCore cap ids c' :=
  effects_capped (works_effects hw) h

/-- A new order is capped when it asks for the cap or less, and so are the others. -/
theorem CappedCore.append (h : CappedCore cap ids c) (ho : o.CappedAt cap)
    (records : List BookRecord) (hplaced : .placed o.orderId ∈ records)
    (hfresh : ∀ x ∈ c.orders ++ c.pruned, x.orderId ≠ o.orderId) :
    CappedCore cap (o.orderId :: ids) { c with
      orders := c.orders ++ [o]
      history := records ++ c.history } := by
  refine ⟨fun id hid => ?_, fun x hx hid => ?_⟩
  · rcases List.mem_cons.mp hid with rfl | hid
    · exact List.mem_append_left _ hplaced
    · exact List.mem_append_right _ (h.known id hid)
  · by_cases hxo : x = o
    · exact hxo ▸ ho
    · have hold : x ∈ c.orders ++ c.pruned := by
        simp only [List.mem_append, List.mem_singleton] at hx ⊢
        tauto
      exact h.orders x hold ((List.mem_cons.mp hid).resolve_left (hfresh x hold))

theorem BookInv.ne_of_fresh (h : BookInv b) (hfresh : .placed id ∉ b.history) :
    ∀ x ∈ b.virtualOrders ++ b.pruned, x.orderId ≠ id := by
  intro x hx hid
  rcases List.mem_append.mp hx with hx | hx
  · exact hfresh (hid ▸ h.core.placed x hx)
  · exact hfresh (hid ▸ h.retired.placed x hx)

/-- **A placement** of a LIMIT BUY at up to the cap, before its state changes are collected. -/
theorem capped_enterOrder {r : OrderRequest} (now : Time) (h : CappedCore cap ids b.core)
    (hinv : BookInv b) (hfresh : .placed id ∉ b.history) (hq : 0 < r.quantity)
    (hasks : (r.newOrder now id).AsksWithin cap) :
    CappedCore cap (id :: ids) (b.enterOrder now id r).1.core :=
  works_capped (works_matchNew hinv.core hfresh hq)
    (h.append (o := r.newOrder now id) ⟨fun _ hf => absurd hf List.not_mem_nil,
      .inr hasks⟩ [.placed id]
      List.mem_cons_self (hinv.ne_of_fresh hfresh))

/-- A prefilled order is over. -/
theorem capped_placePrefilled {r : PrefilledRequest} (h : CappedCore cap ids b.core)
    (hinv : BookInv b) (hfresh : .placed id ∉ b.history) :
    CappedCore cap (id :: ids) (b.placePrefilledBracketOrder now id r).book.core :=
  works_capped works_checkPrefilled
    (h.append (o := r.newOrder now id) ⟨fun _ hf => absurd hf List.not_mem_nil, .inl rfl⟩
      [.prefill id r.avgEntryPrice r.filled, .placed id] (List.mem_cons_of_mem _ List.mem_cons_self)
      (hinv.ne_of_fresh hfresh))

/-- No event tells a level above `cap` of the orders `ids`. -/
def EventsWithin (cap : ℚ) (ids : List OrderId) (events : List OrderStateChangeEvent) : Prop :=
  ∀ e ∈ events, e.orderId ∈ ids → LevelsWithin cap e.fillLevels

/-- An event that is collected copies the levels of its order. -/
theorem mem_collectOrders {e : OrderStateChangeEvent} {r : SortedDict OrderId (ℚ × OrderStatus)}
    {os : List SimulatedOrder} (he : e ∈ (ShadowOrderbook.collectOrders r os).2.2) :
    ∃ o ∈ os, e.orderId = o.orderId ∧ ∀ f ∈ e.fillLevels, f ∈ o.fillLevels := by
  induction os generalizing r with
  | nil => cases he
  | cons o os ih =>
    rcases List.mem_append.mp he with he | he
    · refine ⟨o, List.mem_cons_self .., ?_⟩
      unfold collectOrder at he
      dsimp only at he
      rcases List.mem_append.mp he with he | he <;> split at he
      · rw [List.mem_singleton.mp he]
        exact ⟨rfl, fun _ => id⟩
      · cases he
      · rw [List.mem_singleton.mp he]
        exact ⟨rfl, fun f hf => absurd hf List.not_mem_nil⟩
      · cases he
    · obtain ⟨o', ho', hcopies⟩ := ih he
      exact ⟨o', List.mem_cons_of_mem _ ho', hcopies⟩

theorem CappedCore.collect (h : CappedCore cap ids b.core) :
    EventsWithin cap ids b.collectStateChanges.2 := by
  intro e he hid f hf
  obtain ⟨o, ho, hoid, hcopies⟩ := mem_collectOrders he
  exact (h.orders o (List.mem_append_left _ ho) (hoid ▸ hid)).levels f (hcopies f hf)

/-- **The events of a feed operation** tell of capped orders. -/
theorem capped_events (h : CappedCore cap ids b.core) (hinv : BookInv b) (op : FeedOp) :
    EventsWithin cap ids (op.apply now b).2 := by
  have hbook := collection_book now hinv.core (a := .feed op) trivial rfl
  have hevents : (BookAction.feed op).events now b = _ := collection_events _
  cases hc : (BookAction.feed op).collection now b with
  | none =>
    rw [hc] at hevents
    exact fun e he => absurd he
      (by rw [show (op.apply now b).2 = [] from hevents]; exact List.not_mem_nil)
  | some collected =>
    rw [hc] at hevents hbook
    rw [show (op.apply now b).2 = collected.collectStateChanges.2 from hevents]
    exact (works_capped hbook.1 h).collect

end

/-! ## The consumer -/

/-- The tracked orders of the row `k` are among `ids`, and its fill messages tell no level above
`cap`. -/
structure ConsumerCapped (cap : ℚ) (ids : List OrderId) (k : ℕ) (c : OrderConsumer) : Prop where
  tracked : ∀ id, c.orderToBo.get? id = some k → id ∈ ids
  published : ∀ m, .fill m ∈ c.published → m.boId = k → LevelsWithin cap m.levels

namespace ConsumerCapped

variable {cap : ℚ} {ids : List OrderId} {k boId : ℕ} {c c' : OrderConsumer} {o : SimulatedOrder}
  {e : OrderStateChangeEvent} {id : OrderId}

theorem mono {ids' : List OrderId} (h : ConsumerCapped cap ids k c) (hids : ∀ id ∈ ids, id ∈ ids') :
    ConsumerCapped cap ids' k c :=
  ⟨fun id hget => hids id (h.tracked id hget), h.published⟩

theorem publish {m : StreamMessage} (h : ConsumerCapped cap ids k c)
    (hm : ∀ x, m = .fill x → x.boId = k → LevelsWithin cap x.levels) :
    ConsumerCapped cap ids k (c.publish m) := by
  refine ⟨h.tracked, fun x hx => ?_⟩
  rcases List.mem_append.mp hx with hx | hx
  · exact h.published x hx
  · exact hm x (List.mem_singleton.mp hx).symm

theorem forget (h : ConsumerCapped cap ids k c) (key : OrderId) :
    ConsumerCapped cap ids k (c.forget key) := by
  refine ⟨fun id hget => h.tracked id ?_, h.published⟩
  by_cases hid : id = key
  · subst hid
    simp [OrderConsumer.forget] at hget
  · rwa [OrderConsumer.forget, SortedDict.get?_erase_ne hid] at hget

theorem register (h : ConsumerCapped cap ids k c) (hid : boId = k → id ∈ ids) :
    ConsumerCapped cap ids k (c.register id boId) := by
  refine ⟨fun key hget => ?_, h.published⟩
  unfold OrderConsumer.register at hget
  by_cases hkey : key = id
  · subst hkey
    rw [SortedDict.get?_set_self, Option.some.injEq] at hget
    exact hid hget
  · rw [SortedDict.get?_set_ne hkey] at hget
    exact h.tracked key hget

/-- **An event** of an order of the row tells the levels it has. -/
theorem onStateChange (h : ConsumerCapped cap ids k c)
    (he : e.orderId ∈ ids → LevelsWithin cap e.fillLevels) :
    ConsumerCapped cap ids k (c.onStateChange e) := by
  cases hget : c.orderToBo.get? e.orderId with
  | none =>
    rw [onStateChange_untracked hget]
    exact h
  | some boId =>
    have hpublished : ConsumerCapped cap ids k (c.publish (e.message boId)) := by
      refine h.publish fun x hx hrow => ?_
      obtain ⟨-, rfl⟩ := message_eq_fill.mp hx
      rw [FillMessage.levels, OrderStateChangeEvent.fillMessage, levels_serialize]
      exact he (h.tracked _ (hrow ▸ hget))
    rw [onStateChange_some hget]
    split
    · exact hpublished.forget _
    · exact hpublished

theorem publishImmediateFill (h : ConsumerCapped cap ids k c) (ho : boId = k → o.CappedAt cap) :
    ConsumerCapped cap ids k (c.publishImmediateFill o boId) := by
  unfold OrderConsumer.publishImmediateFill
  split
  · refine h.publish fun x hx hrow => ?_
    cases hx
    rw [FillMessage.levels, SimulatedOrder.fillMessage, levels_serialize]
    exact (ho hrow).levels
  · exact h

theorem publishImmediateCancel (h : ConsumerCapped cap ids k c) :
    ConsumerCapped cap ids k (c.publishImmediateCancel o boId) := by
  unfold OrderConsumer.publishImmediateCancel
  split
  · refine ConsumerCapped.forget (h.publish fun x hx => ?_) _
    cases hx
  · exact h

/-- **One delivery** of a batch. -/
theorem deliver {batch batch' : Batch} {n : ℕ} (h : ConsumerCapped cap ids k c)
    (hbatch : EventsWithin cap ids batch.events) (hd : batch.deliver n c = some (c', batch')) :
    ConsumerCapped cap ids k c' ∧ EventsWithin cap ids batch'.events := by
  refine ⟨?_, fun e he => hbatch e (Desk.mem_of_deliver hd he)⟩
  cases batch with
  | collected events =>
    cases hd
    exact h
  | firing events =>
    cases events with
    | nil => cases hd
    | cons e rest =>
      cases hd
      exact h.onStateChange (hbatch e List.mem_cons_self)

end ConsumerCapped

/-! ## The desk -/

/-- The orders `ids` of the row `k` are capped, wherever their levels are. -/
structure CappedRow (cap : ℚ) (ids : List OrderId) (k : ℕ) (d : Desk) : Prop where
  book : CappedCore cap ids d.book.core
  consumer : ConsumerCapped cap ids k d.consumer
  task : ∀ t ∈ d.task, (t.boId = k → t.orderId ∈ ids) ∧ EventsWithin cap ids t.stage.events
  feed : EventsWithin cap ids d.feed.events

section

variable {cap : ℚ} {ids : List OrderId} {k : ℕ} {d d' : Desk} {t : Task} {o : SimulatedOrder}
  {a : DeskAction}

theorem cappedRow_new (tokenId : String) : CappedRow cap [] k (Desk.new tokenId) where
  book := ⟨nofun, fun _ _ hid => absurd hid List.not_mem_nil⟩
  consumer := ⟨nofun, fun _ hm => absurd hm List.not_mem_nil⟩
  task := nofun
  feed := fun _ he => absurd he List.not_mem_nil

theorem CappedCore.resetFillLevels {b : ShadowOrderbook} (h : CappedCore cap ids b.core)
    (key : OrderId) :
    CappedCore cap ids (b.resetFillLevels key).core := by
  refine ⟨h.known, fun x hx hid => ?_⟩
  rcases List.mem_append.mp hx with hx | hx
  · obtain ⟨y, hy, rfl⟩ := List.mem_map.mp hx
    have hold : y.orderId ∈ ids → y.CappedAt cap := h.orders y (List.mem_append_left _ hy)
    by_cases hkey : y.orderId = key
    · rw [if_pos hkey] at hid ⊢
      exact (hold hid).noLevels
    · rw [if_neg hkey] at hid ⊢
      exact hold hid
  · exact h.orders x (List.mem_append_right _ hx) hid

/-- The consumer thread's next step. -/
theorem cappedRow_work (h : CappedRow cap ids k d) (ht : d.task = some t)
    (ho : d.book.orderObject t.orderId = some o) : CappedRow cap ids k (d.work t o) := by
  obtain ⟨hrow, hown⟩ := h.task t ht
  have hobject : t.boId = k → o.CappedAt cap := fun hk => by
    have hid : o.orderId = t.orderId := by simpa using List.find?_some ho
    exact h.book.orders o (List.mem_of_find?_eq_some ho) (hid ▸ hrow hk)
  -- the stages without events of their own
  have hstage : ∀ s : Stage, s.events = [] →
      ∀ t' ∈ some { t with stage := s }, (t'.boId = k → t'.orderId ∈ ids) ∧
        EventsWithin cap ids t'.stage.events := by
    intro s hs t' ht'
    cases ht'
    exact ⟨hrow, fun e he => absurd he (by rw [hs]; exact List.not_mem_nil)⟩
  unfold Desk.work
  cases hs : t.stage with
  | callbacks own =>
    rw [hs] at hown
    dsimp only
    split
    · next c own' hd =>
      obtain ⟨hconsumer, hown'⟩ := h.consumer.deliver hown hd
      refine ⟨h.book, hconsumer, fun t' ht' => ?_, h.feed⟩
      cases ht'
      exact ⟨hrow, hown'⟩
    · exact ⟨h.book, h.consumer, hstage _ rfl, h.feed⟩
  | publish =>
    dsimp only
    refine ⟨?_, h.consumer.publishImmediateFill hobject, hstage _ rfl, h.feed⟩
    split
    · exact h.book.resetFillLevels t.orderId
    · exact h.book
  | register => exact ⟨h.book, h.consumer.register hrow, hstage _ rfl, h.feed⟩
  | seed => exact ⟨h.book, h.consumer, hstage _ rfl, h.feed⟩
  | attach =>
    dsimp only
    split
    · exact ⟨h.book, h.consumer, hstage _ rfl, h.feed⟩
    · exact ⟨h.book, ⟨h.consumer.tracked, h.consumer.published⟩, hstage _ rfl, h.feed⟩
  | finish =>
    refine ⟨h.book, ?_, nofun, h.feed⟩
    dsimp only
    split
    · exact h.consumer
    · exact h.consumer.publishImmediateCancel

/-- The action places a standard order for the row. -/
def DeskAction.PlacesFor (k : ℕ) (q : OrderRequest) : DeskAction → Prop
  | .place _ boId _ r => boId = k ∧ r = q
  | _ => False

/-- **One step** keeps the row capped when it places no order for it but a LIMIT BUY at up to the
cap. -/
theorem cappedRow_step (hinv : Desk.DeskInv d) (h : CappedRow cap ids k d)
    (hplaces : ∀ r, a.PlacesFor k r → r.side = .buy ∧ r.orderType = .limit ∧ r.price ≤ cap)
    (hstep : d.step a = some d') : ∃ ids', CappedRow cap ids' k d' := by
  cases Desk.steps_of_step hstep with
  | place now boId id r hidle hfresh hq =>
    have hnone : ∀ e ∈ d.feed.events, e.orderId ≠ id :=
      fun e he hid => hfresh (hid ▸ hinv.known e he)
    by_cases hk : boId = k
    · obtain ⟨hside, htype, hprice⟩ := hplaces r ⟨hk, rfl⟩
      have hentered := capped_enterOrder now h.book hinv.book hfresh hq ⟨hside, htype, hprice⟩
      refine ⟨id :: ids, effects_capped effects_collect hentered,
        h.consumer.mono fun _ => List.mem_cons_of_mem _, fun t ht => ?_, fun e he hid => ?_⟩
      · cases ht
        exact ⟨fun _ => List.mem_cons_self, hentered.collect⟩
      · exact h.feed e he ((List.mem_cons.mp hid).resolve_left (hnone e he))
    · have hentered := works_capped (works_enterOrder (t := now) hinv.book.core hfresh hq) h.book
      refine ⟨ids, effects_capped effects_collect hentered, h.consumer, fun t ht => ?_, h.feed⟩
      cases ht
      exact ⟨fun hrow => absurd hrow hk, hentered.collect⟩
  | placePrefilled now boId id r hidle hfresh =>
    have hnone : ∀ e ∈ d.feed.events, e.orderId ≠ id :=
      fun e he hid => hfresh (hid ▸ hinv.known e he)
    refine ⟨id :: ids, capped_placePrefilled h.book hinv.book hfresh,
      h.consumer.mono fun _ => List.mem_cons_of_mem _, fun t ht => ?_, fun e he hid => ?_⟩
    · cases ht
      exact ⟨fun _ => List.mem_cons_self, fun e he => absurd he List.not_mem_nil⟩
    · exact h.feed e he ((List.mem_cons.mp hid).resolve_left (hnone e he))
  | reject boId hidle => exact ⟨ids, h.book, h.consumer.publish nofun, h.task, h.feed⟩
  | consume t o ht ho => exact ⟨ids, cappedRow_work h ht ho⟩
  | feedOp now op hidle =>
    exact ⟨ids, effects_capped (effects_feedOp hinv.book op) h.book, h.consumer, h.task,
      capped_events h.book hinv.book op⟩
  | deliver c f hd =>
    obtain ⟨hconsumer, hfeed⟩ := h.consumer.deliver h.feed hd
    exact ⟨ids, h.book, hconsumer, h.task, hfeed⟩

end

end PolyArena
