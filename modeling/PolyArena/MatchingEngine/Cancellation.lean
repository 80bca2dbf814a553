import PolyArena.MatchingEngine.Feed
import PolyArena.MatchingEngine.Protection

/-!
# What a cancel says

A book reports an order as cancelled when it holds it as CANCELED, and an order that is CANCELED
stays as it is.  So what a cancel says of an order stays true.

1. `Final` orders gain no further fill (`Final.effects`).
2. `PricedCore`: no order has shares that cost nothing, except one that was registered with them.
3. `Cancelled` is what a cancel says.  It holds of the CANCEL events of every operation
   (`cancels_feedOp`, `cancels_place`) and of every order object that is CANCELED
   (`cancelled_of_object`).
-/

namespace PolyArena

open Relation ShadowOrderbook

/-! ## Orders that are over -/

/-- The order was placed, and it is not open any more. -/
structure Final (id : OrderId) (c : BookCore) : Prop where
  placed : .placed id ∈ c.history
  terminal : ∀ o ∈ c.orders, o.orderId = id → o.status.isTerminal = true

section

variable {c c' : BookCore} {d : Bool} {id : OrderId} {o o' : SimulatedOrder}
  {pre post : List SimulatedOrder}

theorem Final.effect (h : Final id c) (he : Effect c c' d) :
    Final id c' ∧ entryFills id c'.history = entryFills id c.history := by
  refine ⟨⟨effect_placed he h.placed, fun o' ho' hid => ?_⟩, ?_⟩
  · rcases effect_advance he o' ho' with ⟨o, ho, hoid, hadv⟩ | hnew
    · have ht := h.terminal o ho (hoid.trans hid)
      rw [hadv.2 ht]
      exact ht
    · exact absurd (hid ▸ h.placed) hnew
  · rcases effect_entryFills he id with hsame | ⟨o, ho, hid, hopen⟩ | hnew
    · exact hsame
    · rw [h.terminal o ho hid] at hopen
      cases hopen
    · exact absurd h.placed hnew

/-- **An order that is over** stays over, and gains no fill. -/
theorem Final.effects (h : Final id c) (he : Effects c c') :
    Final id c' ∧ entryFills id c'.history = entryFills id c.history := by
  induction he with
  | refl => exact ⟨h, rfl⟩
  | tail _ hstep ih =>
    obtain ⟨hfinal, hfills⟩ := ih.1.effect hstep
    exact ⟨hfinal, hfills.trans ih.2⟩

/-- Fills only add up. -/
theorem effect_filledOf (he : Effect c c' d) (id : OrderId) :
    filledOf id c.history ≤ filledOf id c'.history := by
  have hsame : entryFills id c'.history = entryFills id c.history →
      filledOf id c.history ≤ filledOf id c'.history := fun h => by
    unfold filledOf
    rw [h]
  cases he with
  | set side p size => exact hsame (by cases side <;> exact entryFills_cons rfl)
  | clear => exact hsame (entryFills_cons rfl)
  | place o hfresh hnew => exact hsame (entryFills_cons rfl)
  | prefill o p hfresh hnew =>
    by_cases hid : o.orderId = id
    · have hone : entryFills id (.prefill o.orderId p o.filled :: .placed o.orderId :: c.history) =
          (p, o.filled) :: entryFills id c.history := by
        rw [entryFills_cons_some (r := .prefill o.orderId p o.filled) (if_pos hid)]
        exact congrArg _ (entryFills_cons rfl)
      unfold filledOf
      rw [hone, List.map_cons, List.sum_cons]
      linarith [hnew.filled]
    · have hskip : BookRecord.entryFill id (.prefill o.orderId p o.filled) = none := if_neg hid
      exact hsame ((entryFills_cons hskip).trans (entryFills_cons rfl))
  | @fill _ time pre post o p q size horders hactive hsize hpos hle hrem =>
    by_cases hid : o.orderId = id
    · subst hid
      show filledOf o.orderId c.history ≤ filledOf o.orderId
        (.fill o.orderId o.side p q time :: c.history)
      rw [filledOf_fill_self]
      linarith
    · have hskip : BookRecord.entryFill id (.fill o.orderId o.side p q time) = none := if_neg hid
      exact hsame (entryFills_cons hskip)
  | exit time horders htakes hexit => exact hsame entryFills_exitRecords
  | revise horders hrev => exact le_rfl
  | prune drop => exact le_rfl
  | drain horders => exact le_rfl

theorem effects_filledOf (he : Effects c c') (id : OrderId) :
    filledOf id c.history ≤ filledOf id c'.history := by
  induction he with
  | refl => exact le_rfl
  | tail _ hstep ih => exact ih.trans (effect_filledOf hstep id)

/-! ## What the shares cost -/

/-- The shares of the order cost something, unless it was registered with them. -/
def Priced (o : SimulatedOrder) : Prop :=
  o.status = .filled ∨ 0 ≤ o.entryCost ∧ (0 < o.filled → 0 < o.entryCost)

/-- The levels of a core have positive prices, and its orders are priced, the pruned ones too. -/
structure PricedCore (c : BookCore) : Prop where
  bids : PositivePrices c.bids
  asks : PositivePrices c.asks
  orders : ∀ o ∈ c.orders ++ c.pruned, Priced o

theorem PositivePrices.takes {l l' : Ladder} {fs : List (ℚ × ℚ)} (hl : PositivePrices l)
    (h : Takes l fs l') : PositivePrices l' := by
  induction h with
  | nil => exact hl
  | cons hsize _ _ _ ih => exact ih (hl.consume (hl.pos hsize))

theorem priced_addFill {p q : ℚ} (ho : Priced o) (hactive : o.status.isTerminal = false)
    (hq : 0 < q) (hp : 0 < p) : Priced (o.addFill p q) := by
  have hcost : 0 ≤ o.entryCost := by
    rcases ho with hfilled | ⟨hcost, -⟩
    · rw [hfilled] at hactive
      cases hactive
    · exact hcost
  have hpos : 0 < (o.addFill p q).entryCost := by
    rw [addFill_entryCost]
    exact add_pos_of_nonneg_of_pos hcost (mul_pos hq hp)
  exact .inr ⟨hpos.le, fun _ => hpos⟩

theorem Revises.priced (h : Revises o o') (ho : Priced o) : Priced o' := by
  unfold Priced
  rw [h.entryCost, h.filled]
  rcases ho with hfilled | hcost
  · rcases h.status with ⟨hs, -⟩ | ⟨hs, -⟩
    · exact .inl (hs.trans hfilled)
    · rw [hfilled] at hs
      cases hs
  · exact .inr hcost

theorem PricedCore.replace {l : Ladder} {h : List BookRecord} (hc : PricedCore c)
    (hl : PositivePrices l) (horders : c.orders = pre ++ o :: post) (ho' : Priced o') :
    PricedCore { c with bids := l, orders := pre ++ o' :: post, history := h } := by
  refine ⟨hl, hc.asks, fun x hx => ?_⟩
  rcases mem_all_replace horders hx with rfl | hx
  · exact ho'
  · exact hc.orders x hx

theorem PricedCore.append {h : List BookRecord} (hc : PricedCore c) (ho : Priced o) :
    PricedCore { c with orders := c.orders ++ [o], history := h } := by
  refine ⟨hc.bids, hc.asks, fun x hx => ?_⟩
  simp only [List.mem_append, List.mem_singleton] at hx
  rcases hx with (hx | rfl) | hx
  · exact hc.orders x (List.mem_append_left _ hx)
  · exact ho
  · exact hc.orders x (List.mem_append_right _ hx)

/-- **One effect** keeps the orders priced. -/
theorem effect_priced (hc : PricedCore c) (he : Effect c c' d) : PricedCore c' := by
  cases he with
  | set side p size hsize hp =>
    cases side with
    | bid => exact ⟨hc.bids.setOrErase hp, hc.asks, hc.orders⟩
    | ask => exact ⟨hc.bids, hc.asks.setOrErase hp, hc.orders⟩
  | clear => exact ⟨fun _ _ => rfl, fun _ _ => rfl, hc.orders⟩
  | place o hfresh hnew =>
    refine hc.append (.inr ⟨hnew.entryCost.ge, fun hpos => ?_⟩)
    rw [hnew.filled] at hpos
    exact absurd hpos (lt_irrefl _)
  | prefill o p hfresh hnew => exact hc.append (.inl hnew.status)
  | @fill _ time pre post o p q size horders hactive hsize hpos hle hrem haccepts haffords =>
    have ho : Priced o := hc.orders o (by simp [horders])
    unfold BookCore.fill
    cases hside : o.side with
    | buy =>
      rw [hside] at hsize
      have hp : 0 < p := hc.asks.pos hsize
      have hreplaced := hc.replace (h := .fill o.orderId .buy p q time :: c.history) hc.bids horders
        (priced_addFill ho hactive hpos hp)
      exact ⟨hc.bids, hc.asks.consume hp, hreplaced.orders⟩
    | sell =>
      rw [hside] at hsize
      have hp : 0 < p := hc.bids.pos hsize
      exact hc.replace (hc.bids.consume hp) horders (priced_addFill ho hactive hpos hp)
  | @exit _ time pre post o o' fs bids horders htakes hexit =>
    have ho : Priced o := hc.orders o (by simp [horders])
    refine hc.replace (hc.bids.takes htakes) horders ?_
    unfold Priced
    rw [hexit.status, hexit.entryCost, hexit.filled]
    exact ho
  | @revise _ pre post o o' horders hrev =>
    have ho : Priced o := hc.orders o (by simp [horders])
    exact hc.replace (h := c.history) hc.bids horders (hrev.priced ho)
  | prune drop =>
    refine ⟨hc.bids, hc.asks, fun o ho => hc.orders o ?_⟩
    simp only [List.mem_append, List.mem_filter] at ho ⊢
    tauto
  | @drain pre post o horders =>
    have ho : Priced o.drained := hc.orders o (by simp [horders])
    exact hc.replace (h := c.history) hc.bids horders ho

theorem effects_priced (hc : PricedCore c) (he : Effects c c') : PricedCore c' := by
  induction he with
  | refl => exact hc
  | tail _ hstep ih => exact effect_priced ih hstep

/-! ## Cancels -/

/-- The order is over, with `filled` shares at an average price of `avg`. -/
structure Cancelled (id : OrderId) (filled avg : ℚ) (c : BookCore) : Prop where
  final : Final id c
  told : filled = filledOf id c.history
  priced : 0 < filled → 0 < avg

/-- **What a cancel says** stays true. -/
theorem Cancelled.effects {filled avg : ℚ} (h : Cancelled id filled avg c) (he : Effects c c') :
    Cancelled id filled avg c' := by
  obtain ⟨hfinal, hfills⟩ := h.final.effects he
  refine ⟨hfinal, ?_, h.priced⟩
  rw [h.told, filledOf, filledOf, hfills]

end

section

variable {b : ShadowOrderbook} {id : OrderId} {o : SimulatedOrder} {e : OrderStateChangeEvent}
  {evs : List OrderStateChangeEvent} {t : Time}

theorem pricedCore_new (tokenId : String) :
    PricedCore ({ tokenId := tokenId } : ShadowOrderbook).core :=
  ⟨fun _ _ => rfl, fun _ _ => rfl, fun _ ho => absurd ho List.not_mem_nil⟩

/-- The average price of an order that is CANCELED. -/
theorem avgEntryPrice_pos (ho : Priced o) (hs : o.status = .canceled) (hpos : 0 < o.filled) :
    0 < o.avgEntryPrice.getD 0 := by
  rcases ho with hfilled | ⟨-, hcost⟩
  · rw [hs] at hfilled
    cases hfilled
  · rw [SimulatedOrder.avgEntryPrice, if_pos hpos, Option.getD_some]
    exact div_pos (hcost hpos) hpos

/-- An order object that is CANCELED, pruned or not. -/
theorem cancelled_of_object (h : BookInv b) (hc : PricedCore b.core)
    (ho : b.orderObject id = some o) (hs : o.status = .canceled) :
    Cancelled id o.filled (o.avgEntryPrice.getD 0) b.core := by
  obtain ⟨hid, hfilled⟩ := orderObject_filled h ho
  have hmem : o ∈ b.core.orders ++ b.core.pruned := List.mem_of_find?_eq_some ho
  refine ⟨?_, hfilled, avgEntryPrice_pos (hc.orders o hmem) hs⟩
  rw [← hid]
  rcases List.mem_append.mp hmem with hlive | hpruned
  · refine ⟨h.core.placed o hlive, fun x hx hxid => ?_⟩
    rw [h.unique hlive hx hxid, hs]
    rfl
  · exact ⟨h.retired.placed o hpruned, fun x hx hxid => absurd hxid (h.retired.gone o hpruned x hx)⟩

/-- The CANCEL events among `evs` are true. -/
def Cancels (c : BookCore) (evs : List OrderStateChangeEvent) : Prop :=
  ∀ e ∈ evs, e.eventType = .cancel → Cancelled e.orderId e.filled (e.avgEntryPrice.getD 0) c

theorem Cancels.effects {c c' : BookCore} (h : Cancels c evs) (he : Effects c c') :
    Cancels c' evs :=
  fun e hmem htype => (h e hmem htype).effects he

theorem Cancels.nil {c : BookCore} : Cancels c [] := fun _ h => absurd h List.not_mem_nil

/-- A CANCEL event is collected from an order that is CANCELED. -/
theorem collectOrders_cancel {r : SortedDict OrderId (ℚ × OrderStatus)} {os : List SimulatedOrder}
    (he : e ∈ (collectOrders r os).2.2) (htype : e.eventType = .cancel) :
    ∃ o ∈ os, o.status = .canceled ∧ e.orderId = o.orderId ∧ e.filled = o.filled ∧
      e.avgEntryPrice = o.avgEntryPrice := by
  induction os generalizing r with
  | nil => exact absurd he List.not_mem_nil
  | cons o os ih =>
    rcases List.mem_append.mp he with he | he
    · refine ⟨o, List.mem_cons_self, ?_⟩
      unfold collectOrder at he
      dsimp only at he
      rcases List.mem_append.mp he with he | he
      · split at he
        · rw [List.mem_singleton.mp he] at htype
          cases htype
        · exact absurd he List.not_mem_nil
      · split at he
        · next hs =>
          rw [List.mem_singleton.mp he]
          exact ⟨hs.1, rfl, rfl, rfl⟩
        · exact absurd he List.not_mem_nil
    · obtain ⟨x, hx, hsame⟩ := ih he
      exact ⟨x, List.mem_cons_of_mem _ hx, hsame⟩

/-- **A collection** tells true cancels. -/
theorem cancels_collect (h : BookInv b) (hc : PricedCore b.core) :
    Cancels b.collectStateChanges.1.core b.collectStateChanges.2 := by
  refine Cancels.effects (c := b.core) (fun e he htype => ?_) effects_collect
  obtain ⟨o, ho, hs, hid, hfilled, havg⟩ := collectOrders_cancel he htype
  rw [hid, hfilled, havg]
  refine ⟨⟨h.core.placed o ho, fun x hx hxid => ?_⟩, h.balance.filled o ho,
    avgEntryPrice_pos (hc.orders o (List.mem_append_left _ ho)) hs⟩
  rw [h.unique ho hx hxid, hs]
  rfl

/-- **An operation of the feed thread** tells true cancels. -/
theorem cancels_feedOp (h : BookInv b) (hc : PricedCore b.core) (op : FeedOp) :
    Cancels (op.apply t b).1.core (op.apply t b).2 := by
  have hwork : ∀ b' : ShadowOrderbook, Works b.core b'.core → PricedCore b'.core :=
    fun b' hw => effects_priced hc (works_effects hw)
  cases op with
  | runMatching =>
    have hcollected := cancels_collect h.matchPass (hwork _ (works_matchPass (t := t) h.core))
    exact hcollected.effects effects_cleanup
  | expireAllPending =>
    have hw := works_expirePendingOrders (t := t) h.core.ok
    unfold FeedOp.apply ShadowOrderbook.expireAllPending
    dsimp only
    split
    · exact .nil
    · exact cancels_collect (h.of_works hw rfl) (hwork _ hw)
  | expireBook =>
    have hw := works_clearBook h.core.ok
    exact cancels_collect (h.of_works hw rfl) (hwork _ hw)
  | shutdownBook =>
    have hw := works_cancelAll h.core.ok
    exact cancels_collect (h.of_works hw rfl) (hwork _ hw)
  | _ => exact .nil

/-- **A placement** tells true cancels. -/
theorem cancels_place {x : OrderId} {r : OrderRequest} (h : BookInv b) (hc : PricedCore b.core)
    (hfresh : .placed x ∉ b.history) (hq : 0 < r.quantity) :
    Cancels (b.placeVirtualOrder t x r).book.core (b.placeVirtualOrder t x r).events := by
  have hw : Works b.core (b.enterOrder t x r).1.core := works_enterOrder h.core hfresh hq
  exact cancels_collect (h.enterOrder hfresh hq) (effects_priced hc (works_effects hw))

end

end PolyArena
