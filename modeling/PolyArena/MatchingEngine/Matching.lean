import PolyArena.MatchingEngine.Order

/-!
# The sweeps of a book

The three loops of `ShadowOrderbook` that take liquidity, as functions of the ladder they consume:

1. `sweepAsks`: the BUY loop of `_match_order`, asks ascending;
2. `sweepBids`: its SELL loop, bids descending;
3. `walkExit`: the loop of `_execute_bracket_exit`, bids descending.

Each is a recursion over the prices the source's loop runs over, the keys of the ladder at its
start.
-/

namespace PolyArena

/-- `ladder[price] -= qty`, and the level is deleted when less than a dust quantity is left. -/
def Ladder.consume (l : Ladder) (price qty : ℚ) : Ladder :=
  let left := l.getD price 0 - qty
  if left < ME_DUST_THRESHOLD then l.erase price else l.set price left

/-- The outcome of a sweep: the ladder and the order after it, and the fills in order. -/
structure Sweep where
  ladder : Ladder
  order : SimulatedOrder
  fills : List (ℚ × ℚ)

namespace SimulatedOrder

/-- A BUY stops at a price above its limit, or above the slippage limit of a MARKET order. -/
def askBeyond (o : SimulatedOrder) (slippageLimit : Option ℚ) (askPrice : ℚ) : Bool :=
  match o.orderType with
  | .market => ∃ limit ∈ slippageLimit, limit < askPrice
  | .limit => o.price < askPrice

/-- A SELL stops at a price below its limit, or below the slippage limit of a MARKET order. -/
def bidBeyond (o : SimulatedOrder) (slippageLimit : Option ℚ) (bidPrice : ℚ) : Bool :=
  match o.orderType with
  | .market => ∃ limit ∈ slippageLimit, bidPrice < limit
  | .limit => bidPrice < o.price

/-- The quantity a BUY takes of an ask level, `none` when its cost cap is used up. -/
def buyQty (o : SimulatedOrder) (askPrice askSize : ℚ) : Option ℚ :=
  let matchQty := min o.remainingQty askSize
  match o.maxCost with
  | none => some matchQty
  | some cap =>
    let budgetRemaining := cap - o.entryCost
    if budgetRemaining ≤ 0 then none
    else
      let affordableQty := budgetRemaining / askPrice
      if affordableQty < matchQty then some affordableQty else some matchQty

/-- `order.max_cost is not None and order._entry_cost >= order.max_cost`. -/
def costReached (o : SimulatedOrder) : Bool := ∃ cap ∈ o.maxCost, cap ≤ o.entryCost

end SimulatedOrder

def sweepAsks (slippageLimit : Option ℚ) : List ℚ → Ladder → SimulatedOrder → Sweep
  | [], asks, o => ⟨asks, o, []⟩
  | askPrice :: rest, asks, o =>
    let askSize := asks.getD askPrice 0
    if askSize ≤ 0 then sweepAsks slippageLimit rest asks o
    else if o.askBeyond slippageLimit askPrice then ⟨asks, o, []⟩
    else
      match o.buyQty askPrice askSize with
      | none => ⟨asks, o, []⟩
      | some matchQty =>
        if matchQty < ME_DUST_THRESHOLD then ⟨asks, o, []⟩
        else
          let o' := o.addFill askPrice matchQty
          let asks' := asks.consume askPrice matchQty
          if o'.status = .filled ∨ o'.costReached then ⟨asks', o', [(askPrice, matchQty)]⟩
          else
            let s := sweepAsks slippageLimit rest asks' o'
            { s with fills := (askPrice, matchQty) :: s.fills }

def sweepBids (slippageLimit : Option ℚ) : List ℚ → Ladder → SimulatedOrder → Sweep
  | [], bids, o => ⟨bids, o, []⟩
  | bidPrice :: rest, bids, o =>
    let bidSize := bids.getD bidPrice 0
    if bidSize ≤ 0 then sweepBids slippageLimit rest bids o
    else if o.bidBeyond slippageLimit bidPrice then ⟨bids, o, []⟩
    else
      let matchQty := min o.remainingQty bidSize
      let o' := o.addFill bidPrice matchQty
      let bids' := bids.consume bidPrice matchQty
      if o'.status = .filled then ⟨bids', o', [(bidPrice, matchQty)]⟩
      else
        let s := sweepBids slippageLimit rest bids' o'
        { s with fills := (bidPrice, matchQty) :: s.fills }

/-- The accumulators of `_execute_bracket_exit`. -/
structure ExitWalk where
  bids : Ladder
  qtyExited : ℚ
  totalValue : ℚ
  levels : List (ℚ × ℚ)

def walkExit (qtyToClose : ℚ) : List ℚ → ExitWalk → ExitWalk
  | [], w => w
  | bidPrice :: rest, w =>
    let bidSize := w.bids.getD bidPrice 0
    if bidSize ≤ 0 then walkExit qtyToClose rest w
    else
      let fillQty := min (qtyToClose - w.qtyExited) bidSize
      let w' : ExitWalk :=
        { bids := w.bids.consume bidPrice fillQty
          qtyExited := w.qtyExited + fillQty
          totalValue := w.totalValue + fillQty * bidPrice
          levels := w.levels ++ [(bidPrice, fillQty)] }
      if qtyToClose ≤ w'.qtyExited then w' else walkExit qtyToClose rest w'

/-! ## What a sweep does -/

namespace SimulatedOrder

/-- `max_slippage`, or the default. -/
def slippage (o : SimulatedOrder) : ℚ := o.maxSlippage.getD ME_DEFAULT_SLIPPAGE

/-- A price the order may trade at: its limit or better, and for a MARKET order within its slippage
of the reference price that was locked. -/
def Accepts (o : SimulatedOrder) (p : ℚ) : Prop :=
  match o.orderType, o.side with
  | .limit, .buy => p ≤ o.price
  | .limit, .sell => o.price ≤ p
  | .market, .buy => ∃ ref ∈ o.slippageRefPrice, p ≤ ref * (1 + o.slippage)
  | .market, .sell => ∃ ref ∈ o.slippageRefPrice, ref * (1 - o.slippage) ≤ p

/-- A BUY can pay for `q` shares at `p` out of what is left under its cost cap. -/
def Affords (o : SimulatedOrder) (p q : ℚ) : Prop :=
  o.side = .buy → ∀ cap ∈ o.maxCost, q ≤ (cap - o.entryCost) / p

end SimulatedOrder

/-- The ladder `l` and the order `o` become `l'` and `o'` by the listed matches, one after the
other. Each takes a positive part of a level at a price the order accepts, for an order that is not
FILLED or CANCELED, still needs as much and can pay for it. -/
inductive Fills : Ladder → SimulatedOrder → List (ℚ × ℚ) → Ladder → SimulatedOrder → Prop
  | nil (l : Ladder) (o : SimulatedOrder) : Fills l o [] l o
  | cons {l l' : Ladder} {o o' : SimulatedOrder} {fs : List (ℚ × ℚ)} {p q size : ℚ}
      (hactive : o.status.isTerminal = false) (hsize : l.get? p = some size) (hpos : 0 < q)
      (hle : q ≤ size) (hrem : q ≤ o.remainingQty) (haccepts : o.Accepts p)
      (haffords : o.Affords p q) (hrest : Fills (l.consume p q) (o.addFill p q) fs l' o') :
      Fills l o ((p, q) :: fs) l' o'

/-- The ladder `l` becomes `l'` when the listed quantities are consumed one after the other. -/
inductive Takes : Ladder → List (ℚ × ℚ) → Ladder → Prop
  | nil (l : Ladder) : Takes l [] l
  | cons {l l' : Ladder} {fs : List (ℚ × ℚ)} {p q size : ℚ} (hsize : l.get? p = some size)
      (hpos : 0 < q) (hle : q ≤ size) (hrest : Takes (l.consume p q) fs l') :
      Takes l ((p, q) :: fs) l'

/-- Some of the order is still open. -/
def SimulatedOrder.IsOpen (o : SimulatedOrder) : Prop := o.filled < o.quantity

section

variable {o : SimulatedOrder} {l : Ladder} {p q : ℚ}

theorem exists_size (h : ¬ l.getD p 0 ≤ 0) : ∃ size, l.get? p = some size ∧ l.getD p 0 = size := by
  unfold SortedDict.getD at h ⊢
  cases hp : l.get? p with
  | none => simp [hp] at h
  | some size => exact ⟨size, rfl, rfl⟩

@[simp] theorem updateStatus_filled : o.updateStatus.filled = o.filled := by
  unfold SimulatedOrder.updateStatus
  split_ifs <;> rfl

@[simp] theorem updateStatus_quantity : o.updateStatus.quantity = o.quantity := by
  unfold SimulatedOrder.updateStatus
  split_ifs <;> rfl

theorem updateStatus_status : o.updateStatus.status =
    if o.quantity ≤ o.filled then .filled else if 0 < o.filled then .partial_ else o.status := by
  unfold SimulatedOrder.updateStatus
  split_ifs <;> rfl

@[simp] theorem addFill_filled : (o.addFill p q).filled = o.filled + q := by
  simp [SimulatedOrder.addFill]

@[simp] theorem addFill_quantity : (o.addFill p q).quantity = o.quantity := by
  simp [SimulatedOrder.addFill]

theorem addFill_status : (o.addFill p q).status =
    if o.quantity ≤ o.filled + q then .filled
    else if 0 < o.filled + q then .partial_ else o.status := by
  unfold SimulatedOrder.addFill
  rw [updateStatus_status]

/-- An order that is not FILLED after a match is still open. -/
theorem isOpen_of_addFill (h : (o.addFill p q).status ≠ .filled) : (o.addFill p q).IsOpen := by
  unfold SimulatedOrder.IsOpen
  rw [addFill_filled, addFill_quantity]
  by_contra hle
  rw [addFill_status, if_pos (not_lt.mp hle)] at h
  exact h rfl

theorem active_of_addFill (ho : o.status.isTerminal = false)
    (h : (o.addFill p q).status ≠ .filled) : (o.addFill p q).status.isTerminal = false := by
  rw [addFill_status] at h ⊢
  split_ifs at h ⊢
  · exact absurd rfl h
  · rfl
  · exact ho

theorem buyQty_le {size : ℚ} (h : o.buyQty p size = some q) : q ≤ min o.remainingQty size := by
  unfold SimulatedOrder.buyQty at h
  cases hc : o.maxCost with
  | none =>
    simp only [hc, Option.some.injEq] at h
    exact h.ge
  | some cap =>
    simp only [hc] at h
    split_ifs at h with h1 h2
    · rw [Option.some.injEq] at h
      exact h ▸ h2.le
    · rw [Option.some.injEq] at h
      exact h.ge

theorem affords_of_buyQty {size : ℚ} (h : o.buyQty p size = some q) : o.Affords p q := by
  intro _ cap hcap
  rw [Option.mem_def] at hcap
  unfold SimulatedOrder.buyQty at h
  simp only [hcap] at h
  split_ifs at h with h1 h2
  · rw [Option.some.injEq] at h
    exact h.ge
  · rw [Option.some.injEq] at h
    exact h ▸ not_lt.mp h2

theorem accepts_of_not_askBeyond {limit : Option ℚ} (hside : o.side = .buy)
    (hlock : o.orderType = .market → ∃ ref ∈ o.slippageRefPrice,
      limit = some (ref * (1 + o.slippage))) (h : ¬ o.askBeyond limit p = true) : o.Accepts p := by
  unfold SimulatedOrder.askBeyond at h
  unfold SimulatedOrder.Accepts
  rw [hside]
  cases htype : o.orderType with
  | market =>
    obtain ⟨ref, href, rfl⟩ := hlock htype
    rw [htype] at h
    exact ⟨ref, href, by simpa using h⟩
  | limit =>
    rw [htype] at h
    simpa using h

theorem accepts_of_not_bidBeyond {limit : Option ℚ} (hside : o.side = .sell)
    (hlock : o.orderType = .market → ∃ ref ∈ o.slippageRefPrice,
      limit = some (ref * (1 - o.slippage))) (h : ¬ o.bidBeyond limit p = true) : o.Accepts p := by
  unfold SimulatedOrder.bidBeyond at h
  unfold SimulatedOrder.Accepts
  rw [hside]
  cases htype : o.orderType with
  | market =>
    obtain ⟨ref, href, rfl⟩ := hlock htype
    rw [htype] at h
    exact ⟨ref, href, by simpa using h⟩
  | limit =>
    rw [htype] at h
    simpa using h

end

/-- What an order asks for stays, and a reference price that is locked stays locked. -/
structure KeepsTerms (o o' : SimulatedOrder) : Prop where
  side : o'.side = o.side
  orderType : o'.orderType = o.orderType
  price : o'.price = o.price
  maxSlippage : o'.maxSlippage = o.maxSlippage
  maxCost : o'.maxCost = o.maxCost
  refPrice : ∀ ref ∈ o.slippageRefPrice, ref ∈ o'.slippageRefPrice

theorem KeepsTerms.refl (o : SimulatedOrder) : KeepsTerms o o :=
  ⟨rfl, rfl, rfl, rfl, rfl, fun _ => id⟩

theorem keepsTerms_addFill (o : SimulatedOrder) (p q : ℚ) : KeepsTerms o (o.addFill p q) := by
  unfold SimulatedOrder.addFill SimulatedOrder.updateStatus
  split_ifs <;> exact ⟨rfl, rfl, rfl, rfl, rfl, fun _ => id⟩

theorem addFill_refPrice (o : SimulatedOrder) (p q : ℚ) :
    (o.addFill p q).slippageRefPrice = o.slippageRefPrice := by
  unfold SimulatedOrder.addFill SimulatedOrder.updateStatus
  split_ifs <;> rfl

theorem addFill_slippage (o : SimulatedOrder) (p q : ℚ) :
    (o.addFill p q).slippage = o.slippage := by
  rw [SimulatedOrder.slippage, (keepsTerms_addFill o p q).maxSlippage, SimulatedOrder.slippage]

/-- **The BUY loop** is a sequence of matches. -/
theorem fills_sweepAsks (slippageLimit : Option ℚ) (prices : List ℚ) (asks : Ladder)
    (o : SimulatedOrder) (ho : o.status.isTerminal = false) (hside : o.side = .buy)
    (hlock : prices ≠ [] → o.orderType = .market → ∃ ref ∈ o.slippageRefPrice,
      slippageLimit = some (ref * (1 + o.slippage))) :
    Fills asks o (sweepAsks slippageLimit prices asks o).fills
      (sweepAsks slippageLimit prices asks o).ladder
      (sweepAsks slippageLimit prices asks o).order := by
  induction prices generalizing asks o with
  | nil => exact .nil _ _
  | cons p rest ih =>
    unfold sweepAsks
    dsimp only
    have hlock := hlock (List.cons_ne_nil _ _)
    by_cases hsize : asks.getD p 0 ≤ 0
    · rw [if_pos hsize]; exact ih asks o ho hside fun _ => hlock
    rw [if_neg hsize]
    by_cases hbeyond : o.askBeyond slippageLimit p = true
    · rw [if_pos hbeyond]; exact .nil _ _
    rw [if_neg hbeyond]
    have haccepts := accepts_of_not_askBeyond hside hlock hbeyond
    cases hq : o.buyQty p (asks.getD p 0) with
    | none => exact .nil _ _
    | some q =>
      dsimp only
      by_cases hdust : q < ME_DUST_THRESHOLD
      · rw [if_pos hdust]; exact .nil _ _
      rw [if_neg hdust]
      obtain ⟨size, hget, hgetD⟩ := exists_size hsize
      have hle := buyQty_le hq
      rw [hgetD, le_min_iff] at hle
      have hpos : 0 < q := dust_pos.trans_le (not_lt.mp hdust)
      have haffords := affords_of_buyQty hq
      by_cases hstop : (o.addFill p q).status = .filled ∨ (o.addFill p q).costReached = true
      · rw [if_pos hstop]
        exact .cons ho hget hpos hle.2 hle.1 haccepts haffords (.nil _ _)
      · rw [if_neg hstop]
        have ho' := active_of_addFill ho (not_or.mp hstop).1
        have hterms := keepsTerms_addFill o p q
        refine .cons ho hget hpos hle.2 hle.1 haccepts haffords
          (ih _ _ ho' (hterms.side.trans hside) fun _ hmarket => ?_)
        rw [addFill_refPrice, addFill_slippage]
        exact hlock (hterms.orderType.symm.trans hmarket)

/-- **The SELL loop** is a sequence of matches, as long as the order is open when it starts. -/
theorem fills_sweepBids (slippageLimit : Option ℚ) (prices : List ℚ) (bids : Ladder)
    (o : SimulatedOrder) (ha : o.status.isTerminal = false) (ho : o.IsOpen) (hside : o.side = .sell)
    (hlock : prices ≠ [] → o.orderType = .market → ∃ ref ∈ o.slippageRefPrice,
      slippageLimit = some (ref * (1 - o.slippage))) :
    Fills bids o (sweepBids slippageLimit prices bids o).fills
      (sweepBids slippageLimit prices bids o).ladder
      (sweepBids slippageLimit prices bids o).order := by
  induction prices generalizing bids o with
  | nil => exact .nil _ _
  | cons p rest ih =>
    unfold sweepBids
    dsimp only
    have hlock := hlock (List.cons_ne_nil _ _)
    by_cases hsize : bids.getD p 0 ≤ 0
    · rw [if_pos hsize]; exact ih bids o ha ho hside fun _ => hlock
    rw [if_neg hsize]
    by_cases hbeyond : o.bidBeyond slippageLimit p = true
    · rw [if_pos hbeyond]; exact .nil _ _
    rw [if_neg hbeyond]
    have haccepts := accepts_of_not_bidBeyond hside hlock hbeyond
    have haffords : o.Affords p (min o.remainingQty (bids.getD p 0)) := by
      intro hbuy
      rw [hside] at hbuy
      cases hbuy
    obtain ⟨size, hget, hgetD⟩ := exists_size hsize
    have hrem : 0 < o.remainingQty := sub_pos.mpr ho
    have hpos : 0 < min o.remainingQty (bids.getD p 0) := lt_min hrem (not_le.mp hsize)
    have hle : min o.remainingQty (bids.getD p 0) ≤ size := hgetD ▸ min_le_right _ _
    by_cases hfilled : (o.addFill p (min o.remainingQty (bids.getD p 0))).status = .filled
    · rw [if_pos hfilled]
      exact .cons ha hget hpos hle (min_le_left _ _) haccepts haffords (.nil _ _)
    · rw [if_neg hfilled]
      have hterms := keepsTerms_addFill o p (min o.remainingQty (bids.getD p 0))
      refine .cons ha hget hpos hle (min_le_left _ _) haccepts haffords
        (ih _ _ (active_of_addFill ha hfilled) (isOpen_of_addFill hfilled)
          (hterms.side.trans hside) fun _ hmarket => ?_)
      rw [addFill_refPrice, addFill_slippage]
      exact hlock (hterms.orderType.symm.trans hmarket)

/-- **The exit loop** consumes bids, as long as there is something left to close. -/
theorem takes_walkExit (qtyToClose : ℚ) (prices : List ℚ) (w : ExitWalk)
    (hopen : w.qtyExited < qtyToClose) :
    ∃ fs, (walkExit qtyToClose prices w).levels = w.levels ++ fs ∧
      (walkExit qtyToClose prices w).qtyExited = w.qtyExited + (fs.map Prod.snd).sum ∧
      (walkExit qtyToClose prices w).totalValue = w.totalValue + (fs.map fun f => f.2 * f.1).sum ∧
      (walkExit qtyToClose prices w).qtyExited ≤ qtyToClose ∧
      Takes w.bids fs (walkExit qtyToClose prices w).bids := by
  induction prices generalizing w with
  | nil => exact ⟨[], by simp [walkExit], by simp [walkExit], by simp [walkExit], hopen.le, .nil _⟩
  | cons p rest ih =>
    unfold walkExit
    dsimp only
    by_cases hsize : w.bids.getD p 0 ≤ 0
    · rw [if_pos hsize]; exact ih w hopen
    rw [if_neg hsize]
    obtain ⟨size, hget, hgetD⟩ := exists_size hsize
    generalize hq : min (qtyToClose - w.qtyExited) (w.bids.getD p 0) = q
    have hpos : 0 < q := hq ▸ lt_min (sub_pos.mpr hopen) (not_le.mp hsize)
    have hle : q ≤ size := by rw [← hq, ← hgetD]; exact min_le_right _ _
    have hrem : w.qtyExited + q ≤ qtyToClose := by
      have : q ≤ qtyToClose - w.qtyExited := hq ▸ min_le_left _ _
      linarith
    by_cases hdone : qtyToClose ≤ w.qtyExited + q
    · rw [if_pos hdone]
      exact ⟨[(p, q)], rfl, by simp, by simp, hrem, .cons hget hpos hle (.nil _)⟩
    · rw [if_neg hdone]
      obtain ⟨fs, hl, hx, hv, hb, ht⟩ := ih
        ⟨w.bids.consume p q, w.qtyExited + q, w.totalValue + q * p, w.levels ++ [(p, q)]⟩
        (not_le.mp hdone)
      refine ⟨(p, q) :: fs, ?_, ?_, ?_, hb, .cons hget hpos hle ht⟩
      · rw [hl, List.append_assoc]; rfl
      · rw [hx]; simp [add_assoc]
      · rw [hv]; simp [add_assoc]

end PolyArena
