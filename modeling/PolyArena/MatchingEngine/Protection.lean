import PolyArena.MatchingEngine.Liquidity
import PolyArena.MatchingEngine.Placement

/-!
# Price protection

An order never trades past what it asks for.

1. `Protected` is the invariant of one order against the history of its book: every entry fill is at
   a price the order accepts, and a BUY has not spent more than its cost cap.  `effect_protected` is
   its step lemma.
2. `marketOk_step` says that an operation leaves no MARKET order PARTIAL: what a pass does not fill
   of it, the pass cancels.
3. `price_protected` is the result for every run of a reachable book.
-/

namespace PolyArena

open Relation ShadowOrderbook

/-! ## The terms of an order -/

section

variable {o o' : SimulatedOrder} {p q : ℚ}

theorem KeepsTerms.trans {o'' : SimulatedOrder} (h : KeepsTerms o o') (h' : KeepsTerms o' o'') :
    KeepsTerms o o'' :=
  ⟨h'.side.trans h.side, h'.orderType.trans h.orderType, h'.price.trans h.price,
    h'.maxSlippage.trans h.maxSlippage, h'.maxCost.trans h.maxCost,
    fun ref href => h'.refPrice ref (h.refPrice ref href)⟩

/-- A price that an order accepts stays acceptable. -/
theorem KeepsTerms.accepts (h : KeepsTerms o o') (hp : o.Accepts p) : o'.Accepts p := by
  unfold SimulatedOrder.Accepts SimulatedOrder.slippage at hp ⊢
  rw [h.orderType, h.side, h.price, h.maxSlippage]
  revert hp
  cases o.orderType <;> cases o.side
  · rintro ⟨ref, href, hle⟩
    exact ⟨ref, h.refPrice ref href, hle⟩
  · rintro ⟨ref, href, hle⟩
    exact ⟨ref, h.refPrice ref href, hle⟩
  · exact id
  · exact id

/-- **Paying for a match** keeps a BUY under its cap. -/
theorem cost_addFill (hp : 0 < p) (hside : o.side = .buy) {cap : ℚ} (hcap : cap ∈ o.maxCost)
    (haffords : o.Affords p q) : (o.addFill p q).entryCost ≤ cap := by
  have hq : q * p ≤ cap - o.entryCost := (le_div_iff₀ hp).mp (haffords hside cap hcap)
  rw [addFill_entryCost]
  linarith

end

/-- The order's entry fills are within its terms, and so is what it spent.  An order that bought
nothing has spent nothing, also under a negative cap. -/
structure Protected (h : List BookRecord) (o : SimulatedOrder) : Prop where
  fills : ∀ side p q t, .fill o.orderId side p q t ∈ h → side = o.side ∧ o.Accepts p
  cost : o.side = .buy → ∀ cap ∈ o.maxCost, o.entryCost ≤ max cap 0

/-! ## One effect -/

section

variable {l : Ladder} {h h' : List BookRecord} {o o' : SimulatedOrder} {p q : ℚ}

/-- No level has a price that is not positive. -/
def PositivePrices (l : Ladder) : Prop := ∀ p ≤ 0, l.get? p = none

theorem PositivePrices.pos {size : ℚ} (hl : PositivePrices l) (h : l.get? p = some size) :
    0 < p := by
  by_contra hp
  rw [hl p (not_lt.mp hp)] at h
  cases h

theorem PositivePrices.setOrErase {size : ℚ} (hl : PositivePrices l) (hp : 0 < p) :
    PositivePrices (l.setOrErase p size) := by
  intro p' hp'
  have hne : p' ≠ p := (hp'.trans_lt hp).ne
  unfold Ladder.setOrErase
  split
  · rw [SortedDict.get?_erase_ne hne, hl p' hp']
  · rw [SortedDict.get?_set_ne hne, hl p' hp']

theorem PositivePrices.consume (hl : PositivePrices l) (hp : 0 < p) :
    PositivePrices (l.consume p q) := by
  intro p' hp'
  rw [get?_consume_ne (hp'.trans_lt hp).ne, hl p' hp']

theorem fill_mem_exitRecords {now t : Time} {i id : OrderId} {side : OrderSide}
    {fs : List (ℚ × ℚ)} (hr : .fill id side p q t ∈ exitRecords now i fs h) :
    .fill id side p q t ∈ h := by
  unfold exitRecords at hr
  induction fs generalizing h with
  | nil => exact hr
  | cons f fs ih => simpa using ih hr

/-- An order that asks for the same and bought nothing since. -/
theorem Protected.of_terms (ho : Protected h o) (hterms : KeepsTerms o o')
    (hid : o'.orderId = o.orderId) (hcost : o'.entryCost = o.entryCost)
    (hfills : ∀ side p q t, .fill o.orderId side p q t ∈ h' → .fill o.orderId side p q t ∈ h) :
    Protected h' o' := by
  refine ⟨fun side p q t hr => ?_, fun hside cap hcap => ?_⟩
  · rw [hid] at hr
    obtain ⟨hs, hp⟩ := ho.fills side p q t (hfills side p q t hr)
    exact ⟨hs.trans hterms.side.symm, hterms.accepts hp⟩
  · rw [hcost]
    exact ho.cost (hterms.side ▸ hside) cap (hterms.maxCost ▸ hcap)

theorem Protected.of_fills (ho : Protected h o)
    (hfills : ∀ side p q t, .fill o.orderId side p q t ∈ h' → .fill o.orderId side p q t ∈ h) :
    Protected h' o :=
  ho.of_terms (.refl o) rfl rfl hfills

/-- **One match** keeps an order protected. -/
theorem Protected.addFill {t : Time} (ho : Protected h o) (hp : o.side = .buy → 0 < p)
    (haccepts : o.Accepts p) (haffords : o.Affords p q) :
    Protected (.fill o.orderId o.side p q t :: h) (o.addFill p q) := by
  have hterms := keepsTerms_addFill o p q
  refine ⟨fun side' p' q' t' hr => ?_, fun hbuy cap hcap => ?_⟩
  · rw [addFill_orderId] at hr
    rcases List.mem_cons.mp hr with hr | hr
    · cases hr
      exact ⟨hterms.side.symm, hterms.accepts haccepts⟩
    · obtain ⟨hs, hp'⟩ := ho.fills side' p' q' t' hr
      exact ⟨hs.trans hterms.side.symm, hterms.accepts hp'⟩
  · rw [hterms.side] at hbuy
    rw [hterms.maxCost] at hcap
    exact (cost_addFill (hp hbuy) hbuy hcap haffords).trans (le_max_left _ _)

end

/-- The asks of a core have positive prices, and its orders are protected, the pruned ones too. -/
structure ProtectedCore (c : BookCore) : Prop where
  asks : PositivePrices c.asks
  orders : ∀ o ∈ c.orders ++ c.pruned, Protected c.history o

section

variable {c c' : BookCore} {d : Bool} {o o' : SimulatedOrder} {pre post : List SimulatedOrder}
  {h : List BookRecord} {id : OrderId}

/-- No fill is recorded under an id that was never placed. -/
theorem BooksBalance.no_fill (hb : BooksBalance c) (hfresh : .placed id ∉ c.history)
    {side : OrderSide} {p q : ℚ} {t : Time} : .fill id side p q t ∉ c.history := by
  intro hr
  have hmem : (p, q) ∈ entryFills id c.history := List.mem_filterMap.mpr ⟨_, hr, if_pos rfl⟩
  rw [hb.known id hfresh] at hmem
  cases hmem

/-- Orders of a list with one order replaced, the pruned ones included. -/
theorem mem_all_replace (horders : c.orders = pre ++ o :: post) {x : SimulatedOrder}
    (hx : x ∈ (pre ++ o' :: post) ++ c.pruned) : x = o' ∨ x ∈ c.orders ++ c.pruned := by
  rw [horders]
  simp only [List.mem_append, List.mem_cons] at hx ⊢
  tauto

/-- An order is revised, or sells. -/
theorem ProtectedCore.replace {l : Ladder} (hc : ProtectedCore c)
    (horders : c.orders = pre ++ o :: post) (hterms : KeepsTerms o o')
    (hid : o'.orderId = o.orderId) (hcost : o'.entryCost = o.entryCost)
    (hfills : ∀ id side p q t, .fill id side p q t ∈ h → .fill id side p q t ∈ c.history) :
    ProtectedCore { c with bids := l, orders := pre ++ o' :: post, history := h } := by
  refine ⟨hc.asks, fun x hx => ?_⟩
  rcases mem_all_replace horders hx with rfl | hx
  · exact (hc.orders o (by simp [horders])).of_terms hterms hid hcost fun _ _ _ _ =>
      hfills _ _ _ _ _
  · exact (hc.orders x hx).of_fills fun _ _ _ _ => hfills _ _ _ _ _

/-- A new order has no fills. -/
theorem ProtectedCore.append (hc : ProtectedCore c) (hb : BooksBalance c)
    (hfresh : .placed o.orderId ∉ c.history)
    (hcost : o.side = .buy → ∀ cap ∈ o.maxCost, o.entryCost ≤ max cap 0)
    (hfills : ∀ id side p q t, .fill id side p q t ∈ h → .fill id side p q t ∈ c.history) :
    ProtectedCore { c with orders := c.orders ++ [o], history := h } := by
  refine ⟨hc.asks, fun x hx => ?_⟩
  by_cases hxo : x = o
  · subst hxo
    exact ⟨fun side p q t hr => absurd (hfills _ _ _ _ _ hr) (hb.no_fill hfresh), hcost⟩
  · have hx' : x ∈ c.orders ++ c.pruned := by
      simp only [List.mem_append, List.mem_singleton] at hx ⊢
      tauto
    exact (hc.orders x hx').of_fills fun _ _ _ _ => hfills _ _ _ _ _

/-- An order takes `q` at `p`. -/
theorem ProtectedCore.fill {p q size : ℚ} {t : Time} (hc : ProtectedCore c) (hinv : CoreInv c)
    (hr : Retired c) (horders : c.orders = pre ++ o :: post)
    (hsize : (c.ladder o.side.takes).get? p = some size) (haccepts : o.Accepts p)
    (haffords : o.Affords p q) : ProtectedCore (c.fill t o p q (pre ++ o.addFill p q :: post)) := by
  have ho : Protected c.history o := hc.orders o (by simp [horders])
  have hprotected : Protected (.fill o.orderId o.side p q t :: c.history) (o.addFill p q) := by
    refine ho.addFill (fun hbuy => ?_) haccepts haffords
    rw [hbuy] at hsize
    exact hc.asks.pos hsize
  refine ⟨?_, fun x hx => ?_⟩
  · cases hside : o.side with
    | buy =>
      rw [hside] at hsize
      simp only [BookCore.fill, hside]
      exact hc.asks.consume (hc.asks.pos hsize)
    | sell =>
      simp only [BookCore.fill, hside]
      exact hc.asks
  · have hpruned : (c.fill t o p q (pre ++ o.addFill p q :: post)).pruned = c.pruned := by
      unfold BookCore.fill
      cases o.side <;> rfl
    change x ∈ (pre ++ o.addFill p q :: post) ++ (BookCore.fill _ _ _ _ _ _).pruned at hx
    rw [hpruned] at hx
    change Protected (.fill o.orderId o.side p q t :: c.history) x
    by_cases hxo : x = o.addFill p q
    · exact hxo ▸ hprotected
    -- any other order has another id
    have hother : x ∈ c.orders ++ c.pruned ∧ x.orderId ≠ o.orderId := by
      have hnd := hinv.nodup
      rw [horders] at hnd
      rcases List.mem_append.mp hx with hx | hx
      · rcases mem_replace hnd hx with hx | hx
        · exact absurd hx hxo
        · exact ⟨List.mem_append_left _ (horders ▸ hx.1), hx.2⟩
      · exact ⟨List.mem_append_right _ hx, (hr.gone x hx o (by simp [horders])).symm⟩
    refine (hc.orders x hother.1).of_fills fun side' p' q' t' hmem => ?_
    rcases List.mem_cons.mp hmem with hmem | hmem
    · injection hmem with hi
      exact absurd hi hother.2
    · exact hmem

/-- **One effect** keeps the orders protected. -/
theorem effect_protected (hc : ProtectedCore c) (hinv : CoreInv c) (hb : BooksBalance c)
    (hr : Retired c) (he : Effect c c' d) : ProtectedCore c' := by
  cases he with
  | set side p size hsize hp =>
    have hfills : ∀ id side' p' q' t', .fill id side' p' q' t' ∈ .set side p size :: c.history →
        .fill id side' p' q' t' ∈ c.history := fun _ _ _ _ _ hmem => by simpa using hmem
    cases side with
    | bid => exact ⟨hc.asks, fun o ho => (hc.orders o ho).of_fills fun _ _ _ _ => hfills _ _ _ _ _⟩
    | ask =>
      exact ⟨hc.asks.setOrErase hp,
        fun o ho => (hc.orders o ho).of_fills fun _ _ _ _ => hfills _ _ _ _ _⟩
  | clear =>
    exact ⟨fun _ _ => rfl,
      fun o ho => (hc.orders o ho).of_fills fun _ _ _ _ hmem => by
        simpa [BookCore.clear] using hmem⟩
  | place o hfresh hnew =>
    refine hc.append hb hfresh (fun _ cap _ => ?_) fun _ _ _ _ _ hmem => by simpa using hmem
    rw [hnew.entryCost]
    exact le_max_right _ _
  | prefill o p hfresh hnew =>
    refine hc.append hb hfresh (fun _ cap hcap => ?_) fun _ _ _ _ _ hmem => by simpa using hmem
    rw [hnew.maxCost] at hcap
    cases hcap
  | fill time horders hactive hsize hpos hle hrem haccepts haffords =>
    exact hc.fill hinv hr horders hsize haccepts haffords
  | exit time horders htakes hexit =>
    exact hc.replace horders hexit.terms hexit.orderId hexit.entryCost
      fun _ _ _ _ _ => fill_mem_exitRecords
  | revise horders hrev =>
    exact hc.replace (l := c.bids) horders hrev.terms hrev.orderId hrev.entryCost
      fun _ _ _ _ _ => id
  | prune drop =>
    refine ⟨hc.asks, fun o ho => hc.orders o ?_⟩
    simp only [List.mem_append, List.mem_filter] at ho ⊢
    tauto
  | @drain pre post o horders =>
    have hterms : KeepsTerms o o.drained := ⟨rfl, rfl, rfl, rfl, rfl, fun _ => id⟩
    exact hc.replace (l := c.bids) horders hterms rfl rfl fun _ _ _ _ _ => id

theorem effects_protected (hc : ProtectedCore c) (hinv : CoreInv c) (hb : BooksBalance c)
    (hr : Retired c) (he : Effects c c') : ProtectedCore c' := by
  have hall : ∀ c', Effects c c' →
      CoreInv c' ∧ BooksBalance c' ∧ Retired c' ∧ ProtectedCore c' := by
    intro c' he
    induction he with
    | refl => exact ⟨hinv, hb, hr, hc⟩
    | tail _ hstep ih =>
      obtain ⟨hinv, hb, hr, hc⟩ := ih
      exact ⟨effect_inv hinv hstep, effect_balance hinv hb hstep, effect_retired hinv hb hr hstep,
        effect_protected hc hinv hb hr hstep⟩
  exact (hall c' he).2.2.2

theorem Changed.terms (h : Changed o o') : KeepsTerms o o' := by
  cases h with
  | same => exact .refl o
  | fill p q hactive hpos => exact keepsTerms_addFill o p q
  | exit hpos hexit => exact hexit.terms
  | revise hrev => exact hrev.terms
  | drain => exact ⟨rfl, rfl, rfl, rfl, rfl, fun _ => id⟩

/-- An order after an effect asks for what it did before, or it is new. -/
theorem effect_terms (he : Effect c c' d) : ∀ o' ∈ c'.orders,
    (∃ o ∈ c.orders, o.orderId = o'.orderId ∧ KeepsTerms o o') ∨
      .placed o'.orderId ∉ c.history := fun o' ho' =>
  (effect_changed he o' ho').imp_left fun ⟨o, ho, hid, hchanged⟩ => ⟨o, ho, hid, hchanged.terms⟩

/-- **Along a run** an order asks for the same. -/
theorem effects_terms (hinv : CoreInv c) (ho : o ∈ c.orders) (he : Effects c c') :
    ∀ o' ∈ c'.orders, o'.orderId = o.orderId → KeepsTerms o o' :=
  later_of_related hinv ho (effects_related
    (L := BookCore.orders) .refl KeepsTerms.trans effect_terms he)

end

theorem emptyCore_protected : ProtectedCore emptyCore :=
  ⟨fun _ _ => rfl, fun _ ho => absurd ho List.not_mem_nil⟩

/-! ## MARKET orders -/

/-- A MARKET order is not left PARTIAL. -/
def MarketOk (o : SimulatedOrder) : Prop := o.orderType = .market → o.status ≠ .partial_

section

variable {b b' : ShadowOrderbook} {o o' : SimulatedOrder} {os : List SimulatedOrder} {t : Time}

theorem Revises.marketOk (h : Revises o o') (ho : MarketOk o) : MarketOk o' := by
  intro htype
  rcases h.status with ⟨hs, -⟩ | ⟨-, hs, -⟩
  · rw [hs]
    exact ho (h.terms.orderType ▸ htype)
  · rw [hs]
    nofun

/-- **The IOC rule**: what a match leaves open of a MARKET order is cancelled. -/
theorem marketOk_iocCancel {had : Bool} (ho : OrderOk o) : MarketOk (iocCancel had o) := by
  unfold iocCancel
  split_ifs with h
  · intro _ hpart
    cases hpart
  · intro htype hpart
    have hstatus := ho.status (by rw [hpart]; decide)
    rw [hpart, SimulatedOrder.fillStatus] at hstatus
    have hfilled : 0 < o.filled := by
      by_contra hfilled
      rw [if_neg hfilled] at hstatus
      split_ifs at hstatus
    exact h ⟨htype, by rw [hpart]; decide, .inr hfilled⟩

theorem marketOk_matchAndCancel (ho : OrderOk o) (ha : o.status.isTerminal = false) :
    MarketOk (matchAndCancel t b o).2 := by
  obtain ⟨l, fs, l', hf⟩ := fills_matchOrder (t := t) (b := b) ho ha
  exact marketOk_iocCancel (hf.ok (revises_lockSlippage.ok ho))

theorem marketOk_matchOrders (hok : AllOk os) (hm : ∀ o ∈ os, MarketOk o) (b : ShadowOrderbook) :
    ∀ o ∈ (matchOrders t b os).2, MarketOk o := by
  induction os generalizing b with
  | nil => exact fun o ho => absurd ho List.not_mem_nil
  | cons x os ih =>
    have ih := ih (fun y hy => hok y (List.mem_cons_of_mem _ hy))
      (fun y hy => hm y (List.mem_cons_of_mem _ hy))
    have hx := hok x List.mem_cons_self
    unfold matchOrders
    dsimp only
    cases ha : x.status.isTerminal with
    | true =>
      intro o ho
      rcases List.mem_cons.mp ho with rfl | ho
      · exact hm _ List.mem_cons_self
      · exact ih _ o ho
    | false =>
      intro o ho
      rcases List.mem_cons.mp ho with rfl | ho
      · exact marketOk_matchAndCancel hx ha
      · exact ih _ o ho

theorem marketOk_checkBracket {bid : ℚ} (ho : MarketOk o) :
    MarketOk (checkBracket t bid b o).2.1 := by
  unfold checkBracket
  split
  · split <;> exact ho
  · exact ho

theorem marketOk_checkNewBracket (ho : MarketOk o) : MarketOk (checkNewBracket t b o).2.1 := by
  unfold checkNewBracket
  split
  · exact ho
  · exact marketOk_checkBracket ho

theorem marketOk_monitorOrders {bid : ℚ} (hm : ∀ o ∈ os, MarketOk o) (b : ShadowOrderbook) :
    ∀ o ∈ (monitorOrders t bid b os).2.1, MarketOk o := by
  induction os generalizing b with
  | nil => exact fun o ho => absurd ho List.not_mem_nil
  | cons x os ih =>
    intro o ho
    rcases List.mem_cons.mp ho with rfl | ho
    · exact marketOk_checkBracket (hm x List.mem_cons_self)
    · exact ih (fun y hy => hm y (List.mem_cons_of_mem _ hy)) _ o ho

theorem marketOk_collectOrders {r : SortedDict OrderId (ℚ × OrderStatus)}
    (hm : ∀ o ∈ os, MarketOk o) : ∀ o ∈ (collectOrders r os).2.1, MarketOk o := by
  intro o ho
  obtain ⟨x, hx, hox⟩ := exists_before forall₂_collectOrders ho
  rcases hox with rfl | rfl
  · exact hm o hx
  · exact hm x hx

theorem marketOk_map {f : SimulatedOrder → SimulatedOrder} (hok : AllOk os)
    (hf : ∀ o, OrderOk o → Revises o (f o)) (hm : ∀ o ∈ os, MarketOk o) :
    ∀ o ∈ os.map f, MarketOk o := by
  intro o ho
  obtain ⟨x, hx, rfl⟩ := List.mem_map.mp ho
  exact (hf x (hok x hx)).marketOk (hm x hx)

/-- Putting another order in the place of the order of an id. -/
theorem marketOk_mapIf {id : OrderId} (hm : ∀ o ∈ os, MarketOk o) (ho : MarketOk o') :
    ∀ o ∈ os.map (fun x => if x.orderId = id then o' else x), MarketOk o := by
  intro o hmem
  obtain ⟨x, hx, rfl⟩ := List.mem_map.mp hmem
  split
  · exact ho
  · exact hm x hx

theorem marketOk_matchPass (hinv : CoreInv b.core) (hm : ∀ o ∈ b.virtualOrders, MarketOk o) :
    ∀ o ∈ (b.matchPass t).virtualOrders, MarketOk o := by
  have hexpire := works_expirePendingOrders (t := t) (b := { b with depthCache := [] }) hinv.ok
  have hok := (effects_inv hinv (works_effects hexpire)).ok
  have hm' :
      ∀ o ∈ ({ b with depthCache := [] }.expirePendingOrders t).1.virtualOrders, MarketOk o :=
    marketOk_map hinv.ok (fun _ => revises_expireOrder) hm
  unfold matchPass
  dsimp only
  split
  · exact hm'
  · exact marketOk_matchOrders hok hm' _

theorem marketOk_cleanup (hm : ∀ o ∈ b.virtualOrders, MarketOk o) :
    ∀ o ∈ (b.cleanup t).virtualOrders, MarketOk o := by
  unfold cleanup
  split
  · exact fun o ho => hm o (List.mem_of_mem_filter ho)
  · exact hm

/-- **Between two operations no MARKET order is PARTIAL.** -/
theorem marketOk_step (hinv : CoreInv b.core) (hm : ∀ o ∈ b.virtualOrders, MarketOk o)
    (h : BookStep b b') : ∀ o ∈ b'.virtualOrders, MarketOk o := by
  have hok : AllOk b.virtualOrders := hinv.ok
  have hexpire : ∀ now, ∀ o ∈ (b.expirePendingOrders now).1.virtualOrders, MarketOk o :=
    fun now => marketOk_map hok (fun _ => revises_expireOrder) hm
  have hcancel : ∀ o ∈ b.virtualOrders.map cancelOpen, MarketOk o :=
    marketOk_map hok (fun _ => revises_cancelOpen) hm
  cases h with
  | applySnapshot | recordTrade | touch | seedLastReported | registerStateChangeCallback => exact hm
  | applyChanges now changes =>
    rwa [applyChanges_frame.1]
  | placeVirtualOrder now id r hfresh hq =>
    have hnew : OrderOk (r.newOrder now id) := (isNew_newOrder hq).ok
    refine marketOk_collectOrders fun o ho => ?_
    rcases List.mem_append.mp ho with ho | ho
    · exact hm o ho
    · rw [List.mem_singleton.mp ho]
      exact marketOk_checkNewBracket (marketOk_matchAndCancel hnew rfl)
  | placePrefilledBracketOrder now id r hfresh =>
    intro o ho
    unfold ShadowOrderbook.placePrefilledBracketOrder at ho
    dsimp only at ho
    rw [checkNewBracket_virtualOrders] at ho
    rcases List.mem_append.mp ho with ho | ho
    · exact hm o ho
    · rw [List.mem_singleton.mp ho]
      exact marketOk_checkNewBracket fun _ => nofun
  | runMatching now => exact marketOk_cleanup (marketOk_collectOrders (marketOk_matchPass hinv hm))
  | expirePendingOrders now => exact hexpire now
  | expireAllPending now =>
    unfold ShadowOrderbook.expireAllPending
    dsimp only
    split
    · exact hexpire now
    · exact marketOk_collectOrders (hexpire now)
  | monitorBracketOrders now =>
    unfold ShadowOrderbook.monitorBracketOrders
    split
    · exact hm
    · exact marketOk_monitorOrders hm b
  | forceCloseAtMarket now id =>
    unfold ShadowOrderbook.forceCloseAtMarket
    split
    · exact hm
    · next o hfind =>
      dsimp only
      have ho : MarketOk o := hm o (List.mem_of_find?_eq_some hfind)
      split
      · exact hm
      · split
        · exact hm
        · exact marketOk_mapIf hm ho
  | cancelOrder id =>
    unfold ShadowOrderbook.cancelOrder
    split
    · exact hm
    · next o hfind =>
      have hmem : o ∈ b.virtualOrders := List.mem_of_find?_eq_some hfind
      split
      · exact hm
      · exact marketOk_mapIf hm ((revises_cancelOpen (hok o hmem)).marketOk (hm o hmem))
  | cancelAllVirtual => exact hcancel
  | expireBook => exact marketOk_collectOrders hcancel
  | handleMarketResolved => exact marketOk_map hok (fun _ => revises_resolveOrder) hm
  | shutdownBook => exact marketOk_collectOrders hcancel
  | depth side levels =>
    unfold ShadowOrderbook.depth
    split <;> exact hm

theorem marketOk_run (hinv : CoreInv b.core) (hm : ∀ o ∈ b.virtualOrders, MarketOk o)
    (h : BookRun b b') : ∀ o ∈ b'.virtualOrders, MarketOk o := by
  induction h with
  | refl => exact hm
  | tail hrun hstep ih => exact marketOk_step (effects_of_run hinv hrun).1 ih hstep

end

/-! ## Runs -/

/-- **Price protection.**  In every reachable book the entry fills and the entry cost of every
order, in the list or pruned, are within its terms, no MARKET order is PARTIAL, and a PENDING one
has bought nothing.  Along every further run an order keeps its terms and a locked reference price,
and a MARKET order that has bought anything buys no more. -/
theorem price_protected {b b' : ShadowOrderbook} (hb : Reachable b) (hrun : BookRun b b') :
    (∀ o ∈ b'.virtualOrders ++ b'.pruned, Protected b'.history o) ∧
      (∀ o ∈ b'.virtualOrders, o.orderType = .market →
        o.status ≠ .partial_ ∧ (o.status = .pending → o.filled = 0)) ∧
      ∀ o ∈ b.virtualOrders,
        (∀ o' ∈ b'.virtualOrders, o'.orderId = o.orderId → KeepsTerms o o') ∧
        (o.orderType = .market → 0 < o.filled →
          entryFills o.orderId b'.history = entryFills o.orderId b.history) := by
  obtain ⟨tokenId, hrun₀⟩ := hb
  have hb : Reachable b := ⟨tokenId, hrun₀⟩
  obtain ⟨hinv, heff⟩ := effects_of_reachable hb
  obtain ⟨hinv', heff'⟩ := effects_of_run hinv hrun
  have hretired : Retired emptyCore := (bookInv_new tokenId).retired
  have hmarket := marketOk_run (b := { tokenId := tokenId }) emptyCore_inv
    (fun o ho => absurd ho List.not_mem_nil) hrun₀
  have hmarket' := marketOk_run hinv hmarket hrun
  -- an order that is PENDING, by its status, has bought nothing
  have hpending : ∀ o, OrderOk o → o.status = .pending → o.filled = 0 := by
    intro o ho hp
    have hstatus := ho.status (by rw [hp]; nofun)
    rw [hp, SimulatedOrder.fillStatus] at hstatus
    split_ifs at hstatus with h1 h2
    exact le_antisymm (not_lt.mp h2) ho.filled_nonneg
  refine ⟨(effects_protected emptyCore_protected emptyCore_inv emptyCore_balance hretired
    (heff.trans heff')).orders, fun o ho htype => ?_, fun o ho => ?_⟩
  · exact ⟨hmarket' o ho htype, hpending o (hinv'.ok o ho)⟩
  · refine ⟨effects_terms hinv ho heff', fun htype hfilled => ?_⟩
    refine (effects_laterOf hinv ho heff').entryFills ?_
    cases hs : o.status with
    | pending => exact absurd (hpending o (hinv.ok o ho) hs) hfilled.ne'
    | partial_ => exact absurd hs (hmarket o ho htype)
    | filled => rfl
    | canceled => rfl

/-- A MARKET BUY for at most `4`, placed in `offerBook`: it takes eight shares at `0.50`. -/
def marketBook : ShadowOrderbook :=
  (offerBook.placeVirtualOrder 1 7
    { side := .buy, price := 1 / 2, quantity := 20, orderType := .market, maxCost := some 4 }).book

theorem reachable_marketBook : Reachable marketBook :=
  ⟨"up", .tail (.single (.applySnapshot _ 0 [] [⟨1 / 2, 10, by norm_num⟩]))
    (.placeVirtualOrder offerBook 1 7 _ (by decide +kernel) (by norm_num))⟩

/-- The MARKET order of `marketBook`, through a matching pass. -/
theorem price_protected_marketBook :
    (∀ o ∈ (marketBook.runMatching 2).1.virtualOrders,
      o.entryCost ≤ 4 ∧ o.status ≠ .partial_) ∧
      entryFills 7 (marketBook.runMatching 2).1.history = [(1 / 2, 8)] := by
  obtain ⟨hprotected, hstatus, hlater⟩ := price_protected reachable_marketBook
    (.single (.runMatching marketBook 2))
  have hall : ∀ o ∈ (marketBook.runMatching 2).1.virtualOrders,
      o.side = .buy ∧ o.orderType = .market ∧ o.maxCost = some 4 := by decide +kernel
  refine ⟨fun o ho => ⟨?_, (hstatus o ho (hall o ho).2.1).1⟩, ?_⟩
  · have hcost := (hprotected o (List.mem_append_left _ ho)).cost (hall o ho).1 4 (hall o ho).2.2
    simpa using hcost
  · obtain ⟨o, ho, hid, htype, hfilled⟩ : ∃ o ∈ marketBook.virtualOrders, o.orderId = 7 ∧
        o.orderType = .market ∧ 0 < o.filled := by decide +kernel
    rw [← hid, (hlater o ho).2 htype hfilled, hid]
    decide +kernel

end PolyArena
