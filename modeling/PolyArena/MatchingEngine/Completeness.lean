import PolyArena.MatchingEngine.Levels
import PolyArena.MatchingEngine.OrderRelations
import PolyArena.MatchingEngine.Placement

/-!
# Completeness of matching

The SELL loop of `_match_order` goes on until its order is filled or no level suits it.  The BUY
loop also stops at the first match below the dust threshold, which may be a level of that size with
better ones behind it.

1. `Missed`: an order is left waiting although a level suits it; `not_missed_sweepBids` says that a
   SELL never is.
2. `Blocks`: a level below the dust threshold stands before one that suits the order;
   `missed_sweepAsks` says that a BUY is missed just then.
3. `sweepAsks_shield`: what stands behind such a level stays for the whole pass.
4. `matching_complete_iff`: a pass, and a placement, is complete if and only if no order is blocked
   at its turn.
-/

namespace PolyArena

open ShadowOrderbook

/-! ## Orders left waiting -/

/-- A LIMIT order, without a cost cap when it buys. -/
def SimulatedOrder.PlainLimit (o : SimulatedOrder) : Prop :=
  o.orderType = .limit ∧ (o.side = .buy → o.maxCost = none)

/-- The order is left waiting for a dust quantity or more, with a level of at least that at a price
that suits it. -/
structure Missed (l : Ladder) (o : SimulatedOrder) : Prop where
  active : o.status.isTerminal = false
  short : ME_DUST_THRESHOLD ≤ o.remainingQty
  suited : ∃ p size, l.get? p = some size ∧ ME_DUST_THRESHOLD ≤ size ∧ o.Accepts p

/-- No plain LIMIT order of the book is left waiting. -/
def ShadowOrderbook.Complete (b : ShadowOrderbook) : Prop :=
  ∀ o ∈ b.virtualOrders, o.PlainLimit → ¬ Missed (b.core.ladder o.side.takes) o

/-- Among the asks `levels`, cheapest first, one below the dust threshold stands before one that
suits a BUY at `price`, and those before it leave a BUY of `qty` short. -/
def DustBefore (levels : List (ℚ × ℚ)) (price qty : ℚ) : Prop :=
  ∃ pre dust rest, levels = pre ++ dust :: rest ∧ dust.2 < ME_DUST_THRESHOLD ∧
    (∃ f ∈ rest, ME_DUST_THRESHOLD ≤ f.2 ∧ f.1 ≤ price) ∧
      (pre.map Prod.snd).sum + ME_DUST_THRESHOLD ≤ qty

/-- The asks `levels` block the order: it is a plain LIMIT BUY that is still open. -/
structure Blocks (levels : List (ℚ × ℚ)) (o : SimulatedOrder) : Prop where
  buys : o.side = .buy
  plain : o.PlainLimit
  active : o.status.isTerminal = false
  blocked : DustBefore levels o.price o.remainingQty

section

variable {l : Ladder} {o o' : SimulatedOrder} {p size price qty : ℚ} {levels rest : List (ℚ × ℚ)}
  {limit : Option ℚ}

theorem dustBefore_cons : DustBefore ((p, size) :: rest) price qty ↔
    (size < ME_DUST_THRESHOLD ∧ ME_DUST_THRESHOLD ≤ qty ∧ ∃ f ∈ rest, ME_DUST_THRESHOLD ≤ f.2 ∧
      f.1 ≤ price) ∨
      DustBefore rest price (qty - size) := by
  constructor
  · rintro ⟨pre, dust, post, hlevels, hdust, hsuits, hqty⟩
    cases pre with
    | nil =>
      obtain ⟨rfl, rfl⟩ := List.cons.inj hlevels
      exact .inl ⟨hdust, by simpa using hqty, hsuits⟩
    | cons e pre =>
      obtain ⟨rfl, hrest⟩ := List.cons.inj hlevels
      rw [List.map_cons, List.sum_cons] at hqty
      exact .inr ⟨pre, dust, post, hrest, hdust, hsuits, by linarith⟩
  · rintro (⟨hdust, hqty, hsuits⟩ | ⟨pre, dust, post, rfl, hdust, hsuits, hqty⟩)
    · exact ⟨[], (p, size), rest, rfl, hdust, hsuits, by simpa using hqty⟩
    · refine ⟨(p, size) :: pre, dust, post, rfl, hdust, hsuits, ?_⟩
      rw [List.map_cons, List.sum_cons]
      linarith

theorem DustBefore.short (h : DustBefore levels price qty) (hpos : ∀ f ∈ levels, 0 < f.2) :
    ME_DUST_THRESHOLD ≤ qty := by
  obtain ⟨pre, dust, post, rfl, -, -, hqty⟩ := h
  have hsum : 0 ≤ (pre.map Prod.snd).sum := by
    refine List.sum_nonneg fun y hy => ?_
    obtain ⟨f, hf, rfl⟩ := List.mem_map.mp hy
    exact (hpos f (List.mem_append_left _ hf)).le
  linarith

theorem DustBefore.suits (h : DustBefore levels price qty) :
    ∃ f ∈ levels, ME_DUST_THRESHOLD ≤ f.2 ∧ f.1 ≤ price := by
  obtain ⟨pre, dust, post, rfl, -, ⟨f, hf, hsuits⟩, -⟩ := h
  exact ⟨f, List.mem_append_right _ (List.mem_cons_of_mem _ hf), hsuits⟩

theorem mem_items_iff : (p, size) ∈ l.items ↔ l.get? p = some size := by
  constructor
  · exact SortedDict.get?_of_mem_items
  · intro h
    obtain ⟨e, he, rfl⟩ := Option.map_eq_some_iff.mp h
    have hp : e.1 = p := by simpa using List.find?_some he
    exact hp ▸ List.mem_of_find?_eq_some he

theorem addFill_remainingQty : (o.addFill p qty).remainingQty = o.remainingQty - qty := by
  rw [SimulatedOrder.remainingQty, addFill_filled, addFill_quantity,
    SimulatedOrder.remainingQty, sub_sub]

/-- A match leaves a FILLED order nothing to wait for. -/
theorem remainingQty_of_filled (hactive : o.status.isTerminal = false)
    (h : (o.addFill p qty).status = .filled) :
    (o.addFill p qty).remainingQty ≤ 0 := by
  rw [addFill_status] at h
  rw [addFill_remainingQty, SimulatedOrder.remainingQty]
  split_ifs at h with hle
  · linarith
  · rw [h] at hactive
    cases hactive

/-- A match that leaves the order open takes all of the level. -/
theorem whole_of_open (h : (o.addFill p (min o.remainingQty size)).status ≠ .filled) :
    min o.remainingQty size = size := by
  rcases min_choice o.remainingQty size with hmin | hmin
  · have hopen := isOpen_of_addFill h
    have hnone : (o.addFill p (min o.remainingQty size)).remainingQty = 0 := by
      rw [addFill_remainingQty, hmin, sub_self]
    rw [SimulatedOrder.IsOpen, ← sub_pos] at hopen
    exact absurd hnone hopen.ne'
  · exact hmin

theorem plainLimit_addFill (h : o.PlainLimit) : (o.addFill p qty).PlainLimit := by
  have hterms := keepsTerms_addFill o p qty
  refine ⟨hterms.orderType.trans h.1, fun hside => ?_⟩
  rw [hterms.maxCost]
  exact h.2 (hterms.side.symm.trans hside)

/-! ## The SELL loop -/

/-- **A SELL** is never left waiting. -/
theorem not_missed_sweepBids (limit : Option ℚ) (hitems : l.items.reverse = levels)
    (hpos : ∀ f ∈ levels, 0 < f.2) (hbelow : levels.Pairwise fun f g => g.1 < f.1)
    (hside : o.side = .sell) (htype : o.orderType = .limit)
    (hactive : o.status.isTerminal = false) :
    ¬ Missed (sweepBids limit (levels.map Prod.fst) l o).ladder
      (sweepBids limit (levels.map Prod.fst) l o).order := by
  induction levels generalizing l o with
  | nil =>
    rintro ⟨-, -, p, size, hget, -⟩
    have hmem : (p, size) ∈ l.items.reverse := List.mem_reverse.mpr (mem_items_iff.mpr hget)
    rw [hitems] at hmem
    cases hmem
  | cons f rest ih =>
    obtain ⟨p, size⟩ := f
    obtain ⟨hlower, hbelow⟩ := List.pairwise_cons.mp hbelow
    have hsize : 0 < size := hpos _ List.mem_cons_self
    have hgetD : l.getD p 0 = size :=
      SortedDict.getD_items (p, size) (List.mem_reverse.mp (hitems ▸ List.mem_cons_self))
    rw [List.map_cons]
    unfold sweepBids
    dsimp only
    rw [hgetD, if_neg (not_le.mpr hsize)]
    by_cases hbeyond : o.bidBeyond limit p = true
    · -- every bid is below the limit
      rw [if_pos hbeyond]
      rintro ⟨-, -, p', size', hget, -, haccepts⟩
      have hlow : p < o.price := by simpa [SimulatedOrder.bidBeyond, htype] using hbeyond
      have hhigh : o.price ≤ p' := by simpa [SimulatedOrder.Accepts, htype, hside] using haccepts
      have hmem := List.mem_reverse.mpr (mem_items_iff.mpr hget)
      rw [hitems] at hmem
      rcases List.mem_cons.mp hmem with heq | hmem
      · obtain ⟨rfl, -⟩ := Prod.mk.inj heq
        linarith
      · linarith [hlower _ hmem]
    rw [if_neg hbeyond]
    by_cases hfilled : (o.addFill p (min o.remainingQty size)).status = .filled
    · rw [if_pos hfilled]
      rintro ⟨-, hshort, -⟩
      linarith [remainingQty_of_filled hactive hfilled, dust_pos]
    · rw [if_neg hfilled]
      have hwhole : min o.remainingQty size = size := whole_of_open (p := p) hfilled
      rw [hwhole] at hfilled ⊢
      have hterms := keepsTerms_addFill o p size
      have hleft : (l.consume p size).items.reverse = rest := by
        rw [consume_top hitems, sub_self, if_pos dust_pos]
      exact ih hleft (fun f hf => hpos f (List.mem_cons_of_mem _ hf)) hbelow
        (hterms.side.trans hside)
        (hterms.orderType.trans htype) (active_of_addFill hactive hfilled)

/-! ## The BUY loop -/

/-- A BUY that takes nothing. -/
theorem missed_iff (hitems : l.items = levels) (hside : o.side = .buy) (hplain : o.PlainLimit)
    (hactive : o.status.isTerminal = false) : Missed l o ↔ ME_DUST_THRESHOLD ≤ o.remainingQty ∧
      ∃ f ∈ levels, ME_DUST_THRESHOLD ≤ f.2 ∧ f.1 ≤ o.price := by
  have haccepts : ∀ {q}, o.Accepts q ↔ q ≤ o.price := fun {q} => by
    rw [SimulatedOrder.Accepts, hplain.1, hside]
  constructor
  · rintro ⟨-, hshort, p, size, hget, hsize, hprice⟩
    exact ⟨hshort, (p, size), hitems ▸ mem_items_iff.mpr hget, hsize, haccepts.mp hprice⟩
  · rintro ⟨hshort, ⟨p, size⟩, hmem, hsize, hprice⟩
    exact ⟨hactive, hshort, p, size, mem_items_iff.mp (hitems ▸ hmem), hsize, haccepts.mpr hprice⟩

/-- **A BUY** is left waiting if and only if dust stands before a level that suits it. -/
theorem missed_sweepAsks (hitems : l.items = levels) (hpos : ∀ f ∈ levels, 0 < f.2)
    (habove : levels.Pairwise fun f g => f.1 < g.1) (hside : o.side = .buy) (hplain : o.PlainLimit)
    (hactive : o.status.isTerminal = false) :
    Missed (sweepAsks limit (levels.map Prod.fst) l o).ladder
      (sweepAsks limit (levels.map Prod.fst) l o).order ↔
        DustBefore levels o.price o.remainingQty := by
  induction levels generalizing l o with
  | nil =>
    refine (missed_iff hitems hside hplain hactive).trans ⟨fun h => ?_,
      fun h => ⟨h.short hpos, h.suits⟩⟩
    obtain ⟨-, f, hf, -⟩ := h
    cases hf
  | cons f rest ih =>
    have hstopped := missed_iff hitems hside hplain hactive
    obtain ⟨p, size⟩ := f
    obtain ⟨hhigher, habove⟩ := List.pairwise_cons.mp habove
    have hsize : 0 < size := hpos _ List.mem_cons_self
    have hrest : ∀ f ∈ rest, 0 < f.2 := fun f hf => hpos f (List.mem_cons_of_mem _ hf)
    have hgetD : l.getD p 0 = size := SortedDict.getD_items (p, size) (hitems ▸ List.mem_cons_self)
    have hqty : o.buyQty p size = some (min o.remainingQty size) := by
      rw [SimulatedOrder.buyQty, hplain.2 hside]
    rw [List.map_cons]
    unfold sweepAsks
    dsimp only
    rw [hgetD, if_neg (not_le.mpr hsize)]
    by_cases hbeyond : o.askBeyond limit p = true
    · -- every ask is above the limit
      rw [if_pos hbeyond]
      have hhigh : o.price < p := by simpa [SimulatedOrder.askBeyond, hplain.1] using hbeyond
      refine hstopped.trans ⟨fun h => ?_, fun h => ⟨h.short hpos, h.suits⟩⟩
      obtain ⟨-, f, hf, -, hprice⟩ := h
      rcases List.mem_cons.mp hf with rfl | hf
      · exact absurd hprice (not_le.mpr hhigh)
      · linarith [hhigher f hf]
    rw [if_neg hbeyond, hqty]
    dsimp only
    by_cases hdust : min o.remainingQty size < ME_DUST_THRESHOLD
    · -- too little is wanted, or the level is dust
      rw [if_pos hdust]
      refine hstopped.trans ⟨fun h => ?_, fun h => ⟨h.short hpos, h.suits⟩⟩
      obtain ⟨hshort, f, hf, hbig, hprice⟩ := h
      have hsmall : size < ME_DUST_THRESHOLD :=
        (min_lt_iff.mp hdust).resolve_left (not_lt.mpr hshort)
      refine dustBefore_cons.mpr (.inl ⟨hsmall, hshort, f, ?_, hbig, hprice⟩)
      rcases List.mem_cons.mp hf with rfl | hf
      · exact absurd hbig (not_le.mpr hsmall)
      · exact hf
    rw [if_neg hdust]
    obtain ⟨-, hbig⟩ := le_min_iff.mp (not_lt.mp hdust)
    have hcost : (o.addFill p (min o.remainingQty size)).costReached = false := by
      rw [SimulatedOrder.costReached, (keepsTerms_addFill o p _).maxCost, hplain.2 hside]
      simp
    rw [hcost]
    by_cases hfilled : (o.addFill p (min o.remainingQty size)).status = .filled
    · rw [if_pos (.inl hfilled)]
      have hnone := remainingQty_of_filled hactive hfilled
      constructor
      · rintro ⟨-, hshort, -⟩
        linarith [dust_pos]
      · intro h
        rcases dustBefore_cons.mp h with ⟨hsmall, -, -⟩ | h
        · exact absurd hbig (not_le.mpr hsmall)
        · have hleft := h.short hrest
          rw [addFill_remainingQty] at hnone
          linarith [min_le_right o.remainingQty size, dust_pos]
    · rw [if_neg (by simp [hfilled])]
      have hwhole : min o.remainingQty size = size := whole_of_open (p := p) hfilled
      rw [hwhole] at hfilled ⊢
      have hterms := keepsTerms_addFill o p size
      rw [ih (consume_lowest hitems) hrest habove (hterms.side.trans hside)
        (plainLimit_addFill hplain)
        (active_of_addFill hactive hfilled), dustBefore_cons, hterms.price, addFill_remainingQty]
      exact ⟨.inr, fun h => h.resolve_left fun hsmall => absurd hbig (not_le.mpr hsmall.1)⟩

/-- Below dust, the BUY loop stops: what stands there and above stays. -/
theorem sweepAsks_shield {prices : List ℚ} {d : ℚ} (hsorted : prices.Pairwise (· < ·))
    (hmem : d ∈ prices) (hget : l.get? d = some size) (hsize : 0 < size)
    (hdust : size < ME_DUST_THRESHOLD) (hp : d ≤ p) :
    (sweepAsks limit prices l o).ladder.get? p = l.get? p := by
  induction prices generalizing l o with
  | nil => cases hmem
  | cons q rest ih =>
    obtain ⟨hhigher, hsorted⟩ := List.pairwise_cons.mp hsorted
    unfold sweepAsks
    dsimp only
    rcases List.mem_cons.mp hmem with rfl | hmem
    · -- the dust itself is not taken
      have hgetD : l.getD d 0 = size := by rw [SortedDict.getD, hget]; rfl
      rw [hgetD, if_neg (not_le.mpr hsize)]
      by_cases hbeyond : o.askBeyond limit d = true
      · rw [if_pos hbeyond]
      rw [if_neg hbeyond]
      cases hqty : o.buyQty d size with
      | none => rfl
      | some qty =>
        have hsmall : qty < ME_DUST_THRESHOLD :=
          ((buyQty_le hqty).trans (min_le_right _ _)).trans_lt hdust
        dsimp only
        rw [if_pos hsmall]
    · -- what is below the dust is taken without touching it
      have hq : q < d := hhigher d hmem
      by_cases hnone : l.getD q 0 ≤ 0
      · rw [if_pos hnone]
        exact ih hsorted hmem hget
      rw [if_neg hnone]
      by_cases hbeyond : o.askBeyond limit q = true
      · rw [if_pos hbeyond]
      rw [if_neg hbeyond]
      cases hqty : o.buyQty q (l.getD q 0) with
      | none => rfl
      | some qty =>
        dsimp only
        split_ifs
        · rfl
        · exact get?_consume_ne (hq.trans_le hp).ne'
        · exact (ih hsorted hmem ((get?_consume_ne hq.ne').trans hget)).trans
            (get?_consume_ne (hq.trans_le hp).ne')

end

/-! ## A turn -/

namespace ShadowOrderbook

/-- The turn of an order in the matching loop. -/
def matchTurn (now : Time) (b : ShadowOrderbook) (o : SimulatedOrder) :
    ShadowOrderbook × SimulatedOrder :=
  if o.status.isTerminal then (b, o) else matchAndCancel now b o

/-- The turns of the matching loop: each order with the book as it is then. -/
def turns (now : Time) : ShadowOrderbook → List SimulatedOrder →
    List (ShadowOrderbook × SimulatedOrder)
  | _, [] => []
  | b, o :: rest => (b, o) :: turns now (matchTurn now b o).1 rest

/-- The levels of both sides have a size. -/
def Sized (b : ShadowOrderbook) : Prop :=
  ∀ side p size, (b.core.ladder side).get? p = some size → 0 < size

end ShadowOrderbook

section

variable {b : ShadowOrderbook} {o : SimulatedOrder} {os : List SimulatedOrder} {now : Time}
  {p size d : ℚ}

theorem ShadowOrderbook.Sized.of_thins {b' : ShadowOrderbook} (h : b.Sized)
    (hthins : ∀ side, Thins (b.core.ladder side) (b'.core.ladder side)) : b'.Sized := by
  intro side p size' hget
  obtain ⟨size, hsize, -, hpos⟩ := hthins side p size' hget
  exact hpos (h side p size hsize)

/-- What a match leaves of what an order asks for. -/
theorem fixed_request : Fixed fun o : SimulatedOrder =>
    (o.side, o.price, o.orderType, o.maxCost) := by
  refine ⟨fun o p q => ?_, fun _ _ => rfl, fun _ => rfl⟩
  have hterms := keepsTerms_addFill o p q
  rw [hterms.side, hterms.price, hterms.orderType, hterms.maxCost]

/-- What an order asks for stays. -/
theorem matchTurn_request (now : Time) (b : ShadowOrderbook) (o : SimulatedOrder) :
    (matchTurn now b o).2.side = o.side ∧ (matchTurn now b o).2.price = o.price ∧
    (matchTurn now b o).2.orderType = o.orderType ∧ (matchTurn now b o).2.maxCost = o.maxCost := by
  have hsame : ((matchTurn now b o).2.side, (matchTurn now b o).2.price,
      (matchTurn now b o).2.orderType,
      (matchTurn now b o).2.maxCost) = (o.side, o.price, o.orderType, o.maxCost) := by
    unfold matchTurn
    split
    · rfl
    · exact fixed_request.matchAndCancel
  simpa only [Prod.mk.injEq] using hsame

theorem plainLimit_matchTurn : (matchTurn now b o).2.PlainLimit ↔ o.PlainLimit := by
  obtain ⟨hside, -, htype, hcap⟩ := matchTurn_request now b o
  rw [SimulatedOrder.PlainLimit, SimulatedOrder.PlainLimit, hside, htype, hcap]

theorem matchTurn_terminal (h : o.status.isTerminal = true) : matchTurn now b o = (b, o) := if_pos h

/-- The IOC rule does not apply to a LIMIT order. -/
theorem matchTurn_limit (htype : o.orderType = .limit) (hactive : o.status.isTerminal = false) :
    matchTurn now b o = matchOrder now b o := by
  have hkept := (matchTurn_request now b o).2.2.1.trans htype
  unfold matchTurn at hkept ⊢
  rw [hactive] at hkept ⊢
  rw [if_neg Bool.false_ne_true] at hkept ⊢
  unfold matchAndCancel iocCancel at hkept ⊢
  dsimp only at hkept ⊢
  split_ifs at hkept ⊢ with hioc
  · cases hioc.1.symm.trans hkept
  · rfl

/-- **A turn** leaves a plain LIMIT order waiting if and only if the asks block it. -/
theorem missed_turn (now : Time) (hsized : b.Sized) (hplain : o.PlainLimit) :
    Missed ((matchTurn now b o).1.core.ladder o.side.takes) (matchTurn now b o).2 ↔
      Blocks b.asks.items o := by
  cases hactive : o.status.isTerminal with
  | true =>
    rw [matchTurn_terminal hactive]
    constructor
    · intro h
      cases h.active.symm.trans hactive
    · intro h
      cases h.active.symm.trans hactive
  | false =>
    have hlock : b.lockSlippage o = (o, none) := by
      unfold lockSlippage
      rw [hplain.1]
    rw [matchTurn_limit hplain.1 hactive]
    unfold matchOrder
    rw [hlock]
    dsimp only
    cases hside : o.side with
    | buy =>
      have hpos : ∀ f ∈ b.asks.items, 0 < f.2 := fun f hf =>
        hsized .ask f.1 f.2 (SortedDict.get?_of_mem_items hf)
      refine (missed_sweepAsks rfl hpos b.asks.sorted hside hplain hactive).trans ?_
      exact ⟨fun h => ⟨hside, hplain, hactive, h⟩, fun h => h.blocked⟩
    | sell =>
      have hpos : ∀ f ∈ b.bids.items.reverse, 0 < f.2 := fun f hf =>
        hsized .bid f.1 f.2 (SortedDict.get?_of_mem_items (List.mem_reverse.mp hf))
      have hkeys : b.bids.keys.reverse = b.bids.items.reverse.map Prod.fst := by
        rw [List.map_reverse]
        rfl
      rw [hkeys]
      have hnone := not_missed_sweepBids none rfl hpos
        (List.pairwise_reverse.mpr b.bids.sorted) hside
        hplain.1 hactive
      refine ⟨fun h => absurd h hnone, fun h => ?_⟩
      cases h.buys.symm.trans hside

/-- A turn only takes from the levels. -/
theorem thins_matchTurn (ho : OrderOk o) (side : BookSide) :
    Thins (b.core.ladder side) ((matchTurn now b o).1.core.ladder side) := by
  cases hactive : o.status.isTerminal with
  | true =>
    rw [matchTurn_terminal hactive]
    exact .refl _
  | false =>
    have hlocked : (b.lockSlippage o).1.status.isTerminal = false := by
      rw [lockSlippage_status, hactive]
    have hopen := (revises_lockSlippage.ok ho).isOpen hlocked
    unfold matchTurn
    rw [hactive, if_neg Bool.false_ne_true]
    unfold matchAndCancel matchOrder
    dsimp only
    cases hside : (b.lockSlippage o).1.side with
    | buy =>
      cases side with
      | bid => exact .refl _
      | ask => exact (fills_matchBuy hside hlocked).thins
    | sell =>
      cases side with
      | bid => exact (fills_matchSell hside hlocked hopen).thins
      | ask => exact .refl _

/-- A turn leaves what stands behind dust. -/
theorem matchTurn_shield (hget : b.asks.get? d = some size) (hsize : 0 < size)
    (hdust : size < ME_DUST_THRESHOLD) (hp : d ≤ p) :
    (matchTurn now b o).1.asks.get? p = b.asks.get? p := by
  have hmem : d ∈ b.asks.keys := SortedDict.mem_keys.mpr ⟨size, hget⟩
  unfold matchTurn
  split
  · rfl
  · unfold matchAndCancel matchOrder
    dsimp only
    cases hside : (b.lockSlippage o).1.side with
    | buy => exact sweepAsks_shield b.asks.pairwise_keys hmem hget hsize hdust hp
    | sell => rfl

/-! ## The loop -/

theorem thins_matchOrders (hok : AllOk os) (side : BookSide) :
    Thins (b.core.ladder side) ((matchOrders now b os).1.core.ladder side) := by
  induction os generalizing b with
  | nil => exact .refl _
  | cons o os ih =>
    exact (thins_matchTurn (hok o List.mem_cons_self) side).trans
      (ih fun x hx => hok x (List.mem_cons_of_mem _ hx))

theorem matchOrders_shield (hget : b.asks.get? d = some size) (hsize : 0 < size)
    (hdust : size < ME_DUST_THRESHOLD) (hp : d ≤ p) :
    (matchOrders now b os).1.asks.get? p = b.asks.get? p := by
  induction os generalizing b with
  | nil => rfl
  | cons o os ih =>
    have hturn : ∀ {q}, d ≤ q → (matchTurn now b o).1.asks.get? q = b.asks.get? q :=
      fun {_} hq => matchTurn_shield hget hsize hdust hq
    exact (ih ((hturn le_rfl).trans hget)).trans (hturn hp)

/-- A level that the order would have taken but for the dust stays to the end. -/
theorem Blocks.stays (h : Blocks b.asks.items o) (hsized : b.Sized) (now : Time)
    (os : List SimulatedOrder) :
    ∃ f ∈ b.asks.items, ME_DUST_THRESHOLD ≤ f.2 ∧ f.1 ≤ o.price ∧
      (matchOrders now b os).1.asks.get? f.1 = some f.2 := by
  obtain ⟨pre, ⟨d, small⟩, rest, hitems, hdust, ⟨f, hf, hbig, hprice⟩, -⟩ := h.blocked
  have hbefore : (d, small) ∈ b.asks.items := by
    rw [hitems]
    exact List.mem_append_right _ List.mem_cons_self
  have hbehind : f ∈ b.asks.items := by
    rw [hitems]
    exact List.mem_append_right _ (List.mem_cons_of_mem _ hf)
  have hlower : d < f.1 := by
    have hsorted := b.asks.sorted
    rw [hitems, List.pairwise_append] at hsorted
    exact (List.pairwise_cons.mp hsorted.2.1).1 f hf
  have hsmall := SortedDict.get?_of_mem_items hbefore
  refine ⟨f, hbehind, hbig, hprice, ?_⟩
  rw [matchOrders_shield hsmall (hsized .ask d small hsmall) hdust hlower.le]
  exact SortedDict.get?_of_mem_items hbehind

theorem Missed.of_thins {l l' : Ladder} (h : Missed l' o) (hthins : Thins l l') : Missed l o := by
  obtain ⟨p, size', hget', hbig, haccepts⟩ := h.suited
  obtain ⟨size, hget, hle, -⟩ := hthins p size' hget'
  exact ⟨h.active, h.short, p, size, hget, hbig.trans hle, haccepts⟩

/-- **The matching loop** is complete if and only if no order is blocked at its turn. -/
theorem complete_matchOrders_iff (hok : AllOk os) (hsized : b.Sized) :
    (∀ o ∈ (matchOrders now b os).2, o.PlainLimit →
        ¬ Missed ((matchOrders now b os).1.core.ladder o.side.takes) o) ↔
      ∀ x ∈ turns now b os, ¬ Blocks x.1.asks.items x.2 := by
  induction os generalizing b with
  | nil => simp [matchOrders, turns]
  | cons o os ih =>
    have ho := hok o List.mem_cons_self
    have hrest : AllOk os := fun x hx => hok x (List.mem_cons_of_mem _ hx)
    have hsized' : (matchTurn now b o).1.Sized := hsized.of_thins (thins_matchTurn ho)
    have hloop : matchOrders now b (o :: os) = ((matchOrders now (matchTurn now b o).1 os).1,
      (matchTurn now b o).2 :: (matchOrders now (matchTurn now b o).1 os).2) := rfl
    unfold turns
    rw [hloop, List.forall_mem_cons, List.forall_mem_cons, ih hrest hsized']
    refine and_congr ?_ Iff.rfl
    have hside := (matchTurn_request now b o).1
    rw [plainLimit_matchTurn, hside]
    constructor
    · intro h hblocks
      refine h hblocks.plain ?_
      -- what stands behind the dust is there at the end of the loop
      have hturn := (missed_turn now hsized hblocks.plain).mpr hblocks
      obtain ⟨⟨p, size⟩, hmem, hbig, hprice, hstays⟩ := hblocks.stays hsized now (o :: os)
      rw [hblocks.buys]
      refine ⟨hturn.active, hturn.short, p, size, hstays, hbig, ?_⟩
      obtain ⟨-, hsame, htype, -⟩ := matchTurn_request now b o
      rw [SimulatedOrder.Accepts, htype, hside, hblocks.plain.1, hblocks.buys, hsame]
      exact hprice
    · intro h hplain hmissed
      exact h ((missed_turn now hsized hplain).mp (hmissed.of_thins (thins_matchOrders hrest _)))

/-! ## A pass, and a placement -/

theorem sized_of_reachable (hb : Reachable b) :
    b.Sized := fun side _ _ => size_pos_of_reachable hb side

theorem Missed.drained_iff {l : Ladder} : Missed l o.drained ↔ Missed l o :=
  ⟨fun h => ⟨h.active, h.short, h.suited⟩, fun h => ⟨h.active, h.short, h.suited⟩⟩

/-- Collecting the state changes is no matter of matching. -/
theorem complete_collect_iff : b.collectStateChanges.1.Complete ↔ b.Complete := by
  have hlisted :
      List.Forall₂ (fun o' o => o' = o ∨ o' = o.drained) b.collectStateChanges.1.virtualOrders
      b.virtualOrders := forall₂_collectOrders
  constructor
  · intro h o ho hplain hmissed
    obtain ⟨o', ho', hsame⟩ := exists_after hlisted ho
    rcases hsame with rfl | rfl
    · exact h o' ho' hplain hmissed
    · exact h _ ho' hplain (Missed.drained_iff.mpr hmissed)
  · intro h o' ho' hplain hmissed
    obtain ⟨o, ho, hsame⟩ := exists_before hlisted ho'
    rcases hsame with rfl | rfl
    · exact h o' ho hplain hmissed
    · exact h o ho hplain (Missed.drained_iff.mp hmissed)

/-- The cleanup removes orders that wait for nothing. -/
theorem complete_cleanup_iff : (b.cleanup now).Complete ↔ b.Complete := by
  have hladder : ∀ side, (b.cleanup now).core.ladder side = b.core.ladder side := fun side => by
    unfold cleanup
    cases side <;> split <;> rfl
  unfold ShadowOrderbook.Complete
  simp only [hladder]
  refine ⟨fun h o ho hplain hmissed => h o ?_ hplain hmissed, fun h o ho => h o (cleanup_mem ho)⟩
  have hkept : isPrunable now o = false := by
    unfold isPrunable
    have hactive := hmissed.active
    cases hstatus : o.status with
    | pending | partial_ => rfl
    | filled | canceled =>
      rw [hstatus] at hactive
      cases hactive
  unfold cleanup
  split
  · exact List.mem_filter.mpr ⟨ho, by simp [hkept]⟩
  · exact ho

/-- Checking the bracket of an order is no matter of its matching: it sells what a BUY has
bought. -/
theorem missed_checkNewBracket (now : Time) (b : ShadowOrderbook) (o : SimulatedOrder) :
    Missed ((checkNewBracket now b o).1.core.ladder o.side.takes) (checkNewBracket now b o).2.1 ↔
      Missed (b.core.ladder o.side.takes) o := by
  unfold checkNewBracket
  cases b.bestBid with
  | none => exact Iff.rfl
  | some bestBid =>
    dsimp only
    unfold checkBracket
    split
    · next heligible =>
      simp only [SimulatedOrder.isEligibleForBracket, decide_eq_true_eq] at heligible
      cases bracketTrigger o bestBid with
      | none => exact Iff.rfl
      | some trigger =>
        rw [heligible.1]
        exact ⟨fun h => ⟨h.active, h.short, h.suited⟩, fun h => ⟨h.active, h.short, h.suited⟩⟩
    · exact Iff.rfl

/-- **Matching is complete**: after a pass that is not skipped no plain LIMIT order waits for a
level that suits it, and after a placement the placed order does not, if and only if dust never
stands before such a level at the turn of a BUY. -/
theorem matching_complete_iff (hb : Reachable b) (now : Time) :
    (b.dead now = false → ((b.runMatching now).1.Complete ↔
        ∀ x ∈ turns now (b.passBook now) (b.passBook now).virtualOrders,
          ¬ Blocks x.1.asks.items x.2)) ∧
      ∀ id (r : OrderRequest), (r.newOrder now id).PlainLimit →
        (Missed ((b.placeVirtualOrder now id r).book.core.ladder r.side.takes)
          (b.placeVirtualOrder now id r).order ↔
          Blocks b.asks.items (r.newOrder now id)) := by
  have hinv := (effects_of_reachable hb).1
  have hsized := sized_of_reachable hb
  refine ⟨fun hlive => ?_, fun id r hplain => ?_⟩
  · have hexpired := works_effects (works_expirePendingOrders (t := now)
      (b := { b with depthCache := [] }) hinv.ok)
    have hpass : b.matchPass now =
      { (matchOrders now (b.passBook now) (b.passBook now).virtualOrders).1 with
        virtualOrders := (matchOrders now (b.passBook now) (b.passBook now).virtualOrders).2 } := by
      have hskip : ¬ (b.expired = true ∨ b.isStale now ME_BOOK_STALE_MAX_S = true) := by
        simpa [ShadowOrderbook.dead] using hlive
      exact if_neg hskip
    refine complete_cleanup_iff.trans (complete_collect_iff.trans ?_)
    rw [hpass]
    exact complete_matchOrders_iff (effects_inv hinv hexpired).ok hsized
  · have hturn := missed_turn now (b := { b with history := .placed id :: b.history })
      (o := r.newOrder now id)
      hsized hplain
    have hentered : Missed ((b.placeVirtualOrder now id r).book.core.ladder r.side.takes)
        (enteredOrder now id r b) ↔ Blocks b.asks.items (r.newOrder now id) := by
      refine Iff.trans ?_ hturn
      have hchecked := missed_checkNewBracket now
        (matchTurn now { b with history := .placed id :: b.history } (r.newOrder now id)).1
        (matchTurn now { b with history := .placed id :: b.history } (r.newOrder now id)).2
      rw [(matchTurn_request ..).1] at hchecked
      exact hchecked
    rcases (placed_last b now id r).2 with horder | horder
    · rw [horder]
      exact hentered
    · rw [horder]
      exact Missed.drained_iff.trans hentered

end

/-- Ten shares are offered at `0.55`, behind an offer of `size` at `0.50`, and an order waits for
five up to `0.60` that came before the asks. -/
def offersBehind (size : ℚ) : List (Time × BookAction) :=
  [(0, .place 7 { side := .buy, price := 3 / 5, quantity := 5 }),
    (1, .feed (.applySnapshot [] [⟨1 / 2, size, pos_one_half⟩,
      ⟨11 / 20, 10, pos_eleven_twentieths⟩]))]

theorem matching_complete_offersBehind : ∃ b,
    exec bookStep (fun _ _ => True) { tokenId := "up" } (offersBehind 2) = some b ∧
      b.dead 1 = false ∧
      ((b.runMatching 1).1.Complete ↔
        ∀ x ∈ turns 1 (b.passBook 1) (b.passBook 1).virtualOrders,
          ¬ Blocks x.1.asks.items x.2) := by
  have hrun : (exec bookStep (fun _ _ => True) { tokenId := "up" } (offersBehind 2)).any
      (fun b => !b.dead 1) = true := by decide +kernel
  obtain ⟨b, hb, hlive⟩ := (Option.any_eq_true _ _).mp hrun
  rw [Bool.not_eq_true'] at hlive
  exact ⟨b, hb, hlive, (matching_complete_iff (reachable_of_exec hb) 1).1 hlive⟩

/-- **An order is left waiting** for the ten shares at `0.55`: a dust quantity is offered at
`0.50`. -/
theorem matching_incomplete : ¬ ∀ (b : ShadowOrderbook) (now : Time), Reachable b →
    b.dead now = false →
    (b.runMatching now).1.Complete := by
  intro hall
  have hrun : (exec bookStep (fun _ _ => True) { tokenId := "up" }
    (offersBehind (1 / 10000000))).any (fun b =>
      !b.dead 1 && (b.runMatching 1).1.asks.get? (11 / 20) == some 10 &&
        (b.runMatching 1).1.virtualOrders.any fun o => o.orderType == .limit && o.side == .buy &&
          o.maxCost == none && !o.status.isTerminal && o.remainingQty == 5 &&
            o.price == 3 / 5) = true := by
    decide +kernel
  obtain ⟨b, hb, hwaits⟩ := (Option.any_eq_true _ _).mp hrun
  simp only [Bool.and_eq_true, List.any_eq_true, Bool.not_eq_true', beq_iff_eq] at hwaits
  obtain ⟨⟨hlive, hask⟩, o, ho, ⟨⟨⟨⟨htype, hside⟩, hcap⟩, hactive⟩, hrem⟩, hprice⟩ := hwaits
  have hcomplete := hall b 1 (reachable_of_exec hb) hlive o ho ⟨htype, fun _ => hcap⟩
  rw [hside] at hcomplete
  refine hcomplete ⟨hactive, ?_, 11 / 20, 10, hask, ?_, ?_⟩
  · rw [hrem, ME_DUST_THRESHOLD]
    norm_num
  · rw [ME_DUST_THRESHOLD]
    norm_num
  · rw [SimulatedOrder.Accepts, htype, hside, hprice]
    norm_num

end PolyArena
