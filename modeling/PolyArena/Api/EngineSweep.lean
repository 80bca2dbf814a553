import PolyArena.Api.Snapshot
import PolyArena.MatchingEngine.Liquidity
import PolyArena.MatchingEngine.Reporting

/-!
# The API's sweep and the engine's

A MARKET BUY is filled by one of two loops: the API walks the asks of the snapshot for a budget
(`walkAsks`), the engine sweeps the asks of a book for a quantity under a cost cap (`sweepAsks`).

1. `InStep` relates their states.  The quantity is the budget at the best price, so at no better
   price is it the quantity that binds (`buyQty_inStep`).
2. `walk_inStep` is the simulation over the levels: the loops take the same and stop together,
   unless what is left of the budget buys less than the engine trades.
3. `snapshot_refines_engine` is the result for `_fill_market_from_snapshot` and `_match_order`.
-/

namespace PolyArena

open ShadowOrderbook

/-! ## The two loops in step -/

/-- The order `o` has spent what the walk `w` has, of the same budget, at prices not below
`best`. -/
structure InStep (best amount : ℚ) (o : SimulatedOrder) (w : Walk) : Prop where
  active : o.status.isTerminal = false
  orderType : o.orderType = .market
  maxCost : o.maxCost = some amount
  quantity : o.quantity = amount / best
  cost : w.totalCost = o.entryCost
  left : o.entryCost < amount
  bought : best * o.filled ≤ o.entryCost

/-- The levels of `rest`, ascending, are those of the ladder. -/
structure Offers (l : Ladder) (best : ℚ) (rest : List AskLevel) : Prop where
  sizes : ∀ a ∈ rest, l.get? a.price = some a.size
  ascending : rest.Pairwise fun a a' => a.price < a'.price
  best_le : ∀ a ∈ rest, best ≤ a.price
  dust_le : ∀ a ∈ rest, ME_DUST_THRESHOLD ≤ a.size

/-- The walk after `q` is taken at `p`. -/
def Walk.take (w : Walk) (p q : ℚ) : Walk :=
  { totalCost := w.totalCost + q * p
    totalQty := w.totalQty + q
    walkLevels := w.walkLevels ++ [⟨p, q, q * p⟩] }

def FillLevel.fill (lv : FillLevel) : ℚ × ℚ := (lv.price, lv.qty)

/-- What one list of fills has more than the other: at most one, of less than a dust quantity. -/
def DustTail (extra : List (ℚ × ℚ)) : Prop :=
  extra = [] ∨ ∃ p q, extra = [(p, q)] ∧ q < ME_DUST_THRESHOLD

section

variable {best amount maxPrice : ℚ} {o : SimulatedOrder} {w : Walk} {l : Ladder} {a : AskLevel}
  {rest : List AskLevel} {q : ℚ}

theorem Offers.tail (h : Offers l best (a :: rest)) : Offers l best rest :=
  ⟨fun x hx => h.sizes x (List.mem_cons_of_mem _ hx), (List.pairwise_cons.mp h.ascending).2,
    fun x hx => h.best_le x (List.mem_cons_of_mem _ hx),
    fun x hx => h.dust_le x (List.mem_cons_of_mem _ hx)⟩

/-- Taking from the first level leaves the later ones. -/
theorem Offers.consume (h : Offers l best (a :: rest)) :
    Offers (l.consume a.price q) best rest := by
  refine ⟨fun x hx => ?_, h.tail.ascending, h.tail.best_le, h.tail.dust_le⟩
  have hlt : a.price < x.price := (List.pairwise_cons.mp h.ascending).1 x hx
  rw [get?_consume_ne hlt.ne', h.tail.sizes x hx]

/-- **The quantity never binds**: what is left of it costs at least what is left of the budget. -/
theorem affordable_le_remaining (hbest : 0 < best) (h : InStep best amount o w)
    (hle : best ≤ a.price) : (amount - o.entryCost) / a.price ≤ o.remainingQty := by
  have hleft : 0 ≤ amount - o.entryCost := (sub_pos.mpr h.left).le
  calc (amount - o.entryCost) / a.price ≤ (amount - o.entryCost) / best :=
        div_le_div_of_nonneg_left hleft hbest hle
    _ ≤ (amount - best * o.filled) / best :=
        div_le_div_of_nonneg_right (by linarith [h.bought]) hbest.le
    _ = o.remainingQty := by
        unfold SimulatedOrder.remainingQty
        rw [h.quantity, sub_div, mul_div_cancel_left₀ _ hbest.ne']

/-- The engine takes of a level what the API does. -/
theorem buyQty_inStep (hbest : 0 < best) (h : InStep best amount o w) (hle : best ≤ a.price) :
    o.buyQty a.price a.size = some (min a.size ((amount - w.totalCost) / a.price)) := by
  have haff := affordable_le_remaining hbest h hle
  unfold SimulatedOrder.buyQty
  simp only [h.maxCost, h.cost]
  rw [if_neg (not_le.mpr (sub_pos.mpr h.left))]
  split_ifs with hlt
  · rw [min_eq_right (hlt.le.trans (min_le_right _ _))]
  · rw [Option.some.injEq]
    refine le_antisymm ?_ ?_
    · exact le_min (min_le_right _ _) (not_lt.mp hlt)
    · exact le_min ((min_le_right _ _).trans haff) (min_le_left _ _)

/-- Matches that leave some of the budget keep the loops in step. -/
theorem InStep.take (hbest : 0 < best) (h : InStep best amount o w) (hle : best ≤ a.price)
    (hq : 0 ≤ q) (hleft : o.entryCost + q * a.price < amount) :
    (o.addFill a.price q).status ≠ .filled ∧
      InStep best amount (o.addFill a.price q) (w.take a.price q) := by
  have hterms := keepsTerms_addFill o a.price q
  have hcost : best * (o.filled + q) ≤ o.entryCost + q * a.price := by
    have : q * best ≤ q * a.price := mul_le_mul_of_nonneg_left hle hq
    linarith [h.bought]
  have hopen : (o.addFill a.price q).status ≠ .filled := by
    have hlt : o.filled + q < o.quantity := by
      rw [h.quantity, lt_div_iff₀ hbest]
      linarith
    rw [addFill_status, if_neg (not_le.mpr hlt)]
    split_ifs
    · nofun
    · intro hs
      have := h.active
      rw [hs] at this
      cases this
  refine ⟨hopen, active_of_addFill h.active hopen, hterms.orderType.trans h.orderType,
    hterms.maxCost.trans h.maxCost, addFill_quantity.trans h.quantity, ?_, ?_, ?_⟩
  · rw [addFill_entryCost, Walk.take, h.cost]
  · rwa [addFill_entryCost]
  · rwa [addFill_entryCost, addFill_filled]

/-- The engine stops after a match when the cap is reached, as the API does when the budget is
spent. -/
theorem costReached_addFill (h : InStep best amount o w) {p : ℚ} :
    (o.addFill p q).costReached = true ↔ amount ≤ (w.take p q).totalCost := by
  unfold SimulatedOrder.costReached
  rw [(keepsTerms_addFill o p q).maxCost, h.maxCost, addFill_entryCost, Walk.take, h.cost]
  simp

/-- **The loops in step**: over the same levels they take the same, but for a dust tail of the
walk. -/
theorem walk_inStep (maxPrice : ℚ) (hbest : 0 < best) (hoffers : Offers l best rest)
    (h : InStep best amount o w) :
    ∃ fs extra, (walkAsks maxPrice amount rest w).walkLevels =
        w.walkLevels ++ fs ∧
      fs.map FillLevel.fill =
        (sweepAsks (some maxPrice) (rest.map AskLevel.price) l o).fills ++ extra ∧
      DustTail extra := by
  induction rest generalizing l o w with
  | nil => exact ⟨[], [], by simp [walkAsks], rfl, .inl rfl⟩
  | cons a rest ih =>
    have hle : best ≤ a.price := hoffers.best_le a List.mem_cons_self
    have hdust : ME_DUST_THRESHOLD ≤ a.size := hoffers.dust_le a List.mem_cons_self
    have hsize : l.getD a.price 0 = a.size := by
      unfold SortedDict.getD
      rw [hoffers.sizes a List.mem_cons_self]
      rfl
    rw [List.map_cons]
    unfold walkAsks sweepAsks
    dsimp only
    rw [hsize, if_neg (not_le.mpr (dust_pos.trans_le hdust))]
    have hbeyond : o.askBeyond (some maxPrice) a.price = true ↔ maxPrice < a.price := by
      unfold SimulatedOrder.askBeyond
      rw [h.orderType]
      simp
    by_cases hprice : maxPrice < a.price
    · rw [if_pos hprice, if_pos (hbeyond.mpr hprice)]
      exact ⟨[], [], by simp, rfl, .inl rfl⟩
    rw [if_neg hprice, if_neg fun hb => hprice (hbeyond.mp hb), buyQty_inStep hbest h hle]
    have hremaining : 0 < amount - w.totalCost := by
      rw [h.cost]
      exact sub_pos.mpr h.left
    rw [if_neg (not_le.mpr hremaining)]
    dsimp only
    generalize hq : min a.size ((amount - w.totalCost) / a.price) = q
    have hqpos : 0 < q := by
      rw [← hq]
      exact lt_min (dust_pos.trans_le hdust) (div_pos hremaining a.price_pos)
    by_cases hsmall : q < ME_DUST_THRESHOLD
    · -- only the budget binds at less than a dust quantity, so the walk spends it all and stops
      have hall : q * a.price = amount - w.totalCost := by
        have hq' : q = (amount - w.totalCost) / a.price := by
          rw [← hq]
          refine min_eq_right (le_of_lt ?_)
          by_contra hge
          rw [min_eq_left (not_lt.mp hge)] at hq
          exact absurd hsmall (not_lt.mpr (hq ▸ hdust))
        rw [hq', div_mul_cancel₀ _ a.price_pos.ne']
      rw [if_pos hsmall, if_pos (by linarith)]
      exact ⟨[⟨a.price, q, q * a.price⟩], [(a.price, q)], rfl, rfl, .inr ⟨_, _, rfl, hsmall⟩⟩
    rw [if_neg hsmall]
    by_cases hspent : amount ≤ w.totalCost + q * a.price
    · rw [if_pos hspent, if_pos (.inr ((costReached_addFill h).mpr hspent))]
      exact ⟨[⟨a.price, q, q * a.price⟩], [], rfl, rfl, .inl rfl⟩
    · rw [if_neg hspent]
      obtain ⟨hopen, hnext⟩ := h.take hbest hle hqpos.le (by
        rw [← h.cost]
        exact not_le.mp hspent)
      rw [if_neg (not_or.mpr ⟨hopen, fun hc => hspent ((costReached_addFill h).mp hc)⟩)]
      obtain ⟨fs, extra, hwalk, hfills, htail⟩ := ih hoffers.consume hnext
      refine ⟨⟨a.price, q, q * a.price⟩ :: fs, extra, ?_, ?_, htail⟩
      · change (walkAsks maxPrice amount rest (w.take a.price q)).walkLevels = _
        rw [hwalk, Walk.take, List.append_assoc]
        rfl
      · rw [List.map_cons, hfills]
        rfl

/-- A walk over levels that are not empty takes nothing, or adds to its quantity. -/
theorem walkAsks_grows (maxPrice amount : ℚ) (hsizes : ∀ a ∈ rest, 0 < a.size) :
    walkAsks maxPrice amount rest w = w ∨
      w.totalQty < (walkAsks maxPrice amount rest w).totalQty := by
  induction rest generalizing w with
  | nil => exact .inl rfl
  | cons a rest ih =>
    unfold walkAsks
    dsimp only
    by_cases hprice : maxPrice < a.price
    · rw [if_pos hprice]; exact .inl rfl
    rw [if_neg hprice]
    by_cases hremaining : amount - w.totalCost ≤ 0
    · rw [if_pos hremaining]; exact .inl rfl
    rw [if_neg hremaining]
    have hq : 0 < min a.size ((amount - w.totalCost) / a.price) :=
      lt_min (hsizes a List.mem_cons_self) (div_pos (not_le.mp hremaining) a.price_pos)
    right
    split
    · dsimp only
      linarith
    · refine lt_of_lt_of_le (lt_add_of_pos_right _ hq) ?_
      rcases ih (w := w.take a.price (min a.size ((amount - w.totalCost) / a.price)))
        fun x hx => hsizes x (List.mem_cons_of_mem _ hx) with h | h
      · exact (congrArg Walk.totalQty h).ge
      · exact h.le

end

/-! ## The API function and the engine -/

/-- The fills a fill function reports; an order it refuses has none. -/
def reportedFills : Except HttpDetail (ℚ × ℚ × List FillLevel) → List (ℚ × ℚ)
  | .ok (_, _, levels) => levels.map FillLevel.fill
  | .error _ => []

section

variable {best : AskLevel} {rest : List AskLevel} {amount : ℚ} {slippage : Option ℚ}
  {b : ShadowOrderbook} {now : Time} {id : OrderId} {r : OrderRequest}

theorem fillMarket_rejected {orderType : TimeInForce} {ceiling : Option ℚ} {detail : HttpDetail}
    (h : marketRejection orderType ceiling amount
      (walkAsks (marketMaxPrice (best :: rest) slippage ceiling) amount
      (best :: rest) {}) = some detail) :
    fillMarketFromSnapshot (.asks (best :: rest)) amount slippage orderType ceiling =
      .error detail := by
  simp only [fillMarketFromSnapshot, SnapshotRead.levels, bind, Except.bind, h]
  rfl

theorem reportedFills_accepted {orderType : TimeInForce} {ceiling : Option ℚ}
    (h : marketRejection orderType ceiling amount
      (walkAsks (marketMaxPrice (best :: rest) slippage ceiling) amount
      (best :: rest) {}) = none) :
    reportedFills (fillMarketFromSnapshot
      (.asks (best :: rest)) amount slippage orderType ceiling) =
      (walkAsks (marketMaxPrice (best :: rest) slippage ceiling) amount
        (best :: rest) {}).walkLevels.map
        FillLevel.fill := by
  simp only [fillMarketFromSnapshot, SnapshotRead.levels, bind, Except.bind, h]
  rfl

/-- Without a ceiling a FAK order is rejected when nothing was filled. -/
theorem marketRejection_fak (amount : ℚ) (w : Walk) :
    marketRejection .fak none amount w = if w.totalQty = 0 then some .couldNotFill else none := by
  unfold marketRejection
  simp

/-- A FAK order without a ceiling is filled by one walk. -/
theorem reportedFills_fillMarket (hsizes : ∀ a ∈ best :: rest, 0 < a.size) :
    reportedFills (fillMarketFromSnapshot (.asks (best :: rest)) amount slippage .fak none) =
      (walkAsks (best.price * (1 + slippage.getD DEFAULT_SLIPPAGE_TOLERANCE)) amount
        (best :: rest) {}).walkLevels.map FillLevel.fill := by
  have hmax : marketMaxPrice (best :: rest) slippage none =
      best.price * (1 + slippage.getD DEFAULT_SLIPPAGE_TOLERANCE) := rfl
  rw [← hmax]
  rcases walkAsks_grows (marketMaxPrice (best :: rest) slippage none) amount
    (w := {}) hsizes with hsame | hgrows
  · have hnothing := marketRejection_fak amount
      (walkAsks (marketMaxPrice (best :: rest) slippage none) amount (best :: rest) {})
    rw [if_pos (congrArg Walk.totalQty hsame)] at hnothing
    rw [fillMarket_rejected hnothing, hsame]
    rfl
  · exact reportedFills_accepted (by rw [marketRejection_fak, if_neg hgrows.ne'])

/-- The sweep of `_match_order` reports its fills on the order. -/
theorem Fills.fillLevels {l l' : Ladder} {o o' : SimulatedOrder} {fs : List (ℚ × ℚ)}
    (h : Fills l o fs l' o') : o'.fillLevels = o.fillLevels ++ fs := by
  induction h with
  | nil => simp
  | cons _ _ _ _ _ _ _ _ ih => rw [ih, addFill_fillLevels, List.append_assoc]; rfl

/-- **The API's sweep refines the engine's.**  On the same asks, ascending and each of at least a
dust quantity, a FAK MARKET BUY for `amount` is filled by the API as the engine fills a MARKET BUY
of `amount` at the best ask with `amount` as its cost cap, but for one last fill of less than a dust
quantity that the API may add. -/
theorem snapshot_refines_engine
    (hascending : (best :: rest).Pairwise fun a a' => a.price < a'.price)
    (hdust : ∀ a ∈ best :: rest, ME_DUST_THRESHOLD ≤ a.size) (hamount : 0 < amount)
    (hasks : b.asks.items = (best :: rest).map fun a => (a.price, a.size))
    (hside : r.side = .buy) (htype : r.orderType = .market)
    (hquantity : r.quantity = amount / best.price) (hcost : r.maxCost = some amount)
    (hslippage : r.maxSlippage = slippage) :
    ∃ extra,
      reportedFills (fillMarketFromSnapshot (.asks (best :: rest)) amount slippage .fak none) =
        (matchOrder now b (r.newOrder now id)).2.fillLevels ++ extra ∧ DustTail extra := by
  obtain ⟨side, price, quantity, tp, sl, timeframe, ttl, onExit, type, maxSlippage, maxCost⟩ := r
  dsimp only at hside htype hquantity hcost hslippage
  subst hside htype hquantity hcost hslippage
  set o := OrderRequest.newOrder now id _ with ho
  set locked := { o with slippageRefPrice := some best.price } with hlocked
  have hlock : b.lockSlippage o =
      (locked, some (best.price * (1 + maxSlippage.getD DEFAULT_SLIPPAGE_TOLERANCE))) := by
    have hbest : b.bestAsk = some best.price := by
      rw [bestAsk, SortedDict.peekFirst, hasks]
      rfl
    unfold lockSlippage
    rw [hbest]
    rfl
  have hkeys : b.asks.keys = (best :: rest).map AskLevel.price := by
    rw [SortedDict.keys, hasks, List.map_map]
    rfl
  have hsizes : ∀ a ∈ best :: rest, b.asks.get? a.price = some a.size := by
    intro a ha
    refine SortedDict.get?_of_mem_items ?_
    rw [hasks]
    exact List.mem_map_of_mem ha
  have hoffers : Offers b.asks best.price (best :: rest) := by
    refine ⟨hsizes, hascending, fun a ha => ?_, hdust⟩
    rcases List.mem_cons.mp ha with rfl | ha
    · exact le_rfl
    · exact ((List.pairwise_cons.mp hascending).1 a ha).le
  have hstep : InStep best.price amount locked {} := by
    exact ⟨rfl, rfl, rfl, rfl, rfl, hamount, (mul_zero _).le⟩
  obtain ⟨fs, extra, hwalk, hfills, htail⟩ := walk_inStep
    (best.price * (1 + maxSlippage.getD DEFAULT_SLIPPAGE_TOLERANCE)) best.price_pos hoffers hstep
  refine ⟨extra, ?_, htail⟩
  have hsweep :=
    (fills_matchBuy (b := b) (o := o) (by rw [hlock]; rfl) (by rw [hlock]; rfl)).fillLevels
  have hmatched : (matchOrder now b o).2 =
      (sweepAsks (b.lockSlippage o).2 b.asks.keys b.asks (b.lockSlippage o).1).order := by
    unfold matchOrder
    rw [hlock]
    rfl
  have hlevels : (matchOrder now b o).2.fillLevels =
      (sweepAsks (some (best.price * (1 + maxSlippage.getD DEFAULT_SLIPPAGE_TOLERANCE)))
        ((best :: rest).map AskLevel.price) b.asks locked).fills := by
    rw [hmatched, hsweep, hlock, hkeys]
    rfl
  rw [reportedFills_fillMarket fun a ha => dust_pos.trans_le (hdust a ha), hwalk, hlevels, ← hfills]
  rfl

end

/-- Two levels of asks. -/
def twoAsks : List AskLevel :=
  [⟨1 / 2, 10, pos_one_half, nonneg_ten⟩, ⟨11 / 20, 10, pos_eleven_twentieths, nonneg_ten⟩]

def twoAsksBook : ShadowOrderbook :=
  ({ tokenId := "up" } : ShadowOrderbook).applySnapshot 0 []
    [⟨1 / 2, 10, pos_one_half⟩, ⟨11 / 20, 10, pos_eleven_twentieths⟩]

/-- A MARKET BUY for the first level of `twoAsks` and a ten-millionth more. -/
def dustyRequest : OrderRequest :=
  { side := .buy, price := 1 / 2, quantity := (5 + 1 / 10 ^ 7) / (1 / 2), orderType := .market,
    maxCost := some (5 + 1 / 10 ^ 7) }

/-- The API spends the rest of the budget at the second level, the engine keeps it. -/
theorem snapshot_refines_engine_dustTail :
    (matchOrder 1 twoAsksBook (dustyRequest.newOrder 1 7)).2.fillLevels = [(1 / 2, 10)] ∧
      ∃ extra,
        reportedFills (fillMarketFromSnapshot (.asks twoAsks) (5 + 1 / 10 ^ 7) none .fak none) =
          (1 / 2, 10) :: extra ∧ DustTail extra ∧ extra ≠ [] := by
  have hrefines : ∃ extra,
      reportedFills (fillMarketFromSnapshot (.asks twoAsks) (5 + 1 / 10 ^ 7) none .fak none) =
        (matchOrder 1 twoAsksBook (dustyRequest.newOrder 1 7)).2.fillLevels ++ extra ∧
      DustTail extra :=
    snapshot_refines_engine (by simp; norm_num) (by simp [ME_DUST_THRESHOLD]; norm_num)
      (by norm_num) (by decide +kernel) rfl rfl rfl rfl rfl
  have hfills : (matchOrder 1 twoAsksBook (dustyRequest.newOrder 1 7)).2.fillLevels =
      [(1 / 2, 10)] := by decide +kernel
  have hlength : (reportedFills (fillMarketFromSnapshot (.asks twoAsks) (5 + 1 / 10 ^ 7) none .fak
      none)).length = 2 := by decide +kernel
  obtain ⟨extra, hapi, htail⟩ := hrefines
  rw [hfills] at hapi
  refine ⟨hfills, extra, hapi, htail, ?_⟩
  rintro rfl
  rw [hapi] at hlength
  cases hlength

end PolyArena
