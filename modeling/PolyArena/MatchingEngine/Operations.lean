import PolyArena.MatchingEngine.Effects

/-!
# The operations of a book

`BookStep` lists the operations on a book: the feed handlers, placements, the matching pass, expiry,
cancels, bracket exits and the administrative calls.  `effects_of_step` resolves each into
elementary effects, and `Reachable` is what any sequence of operations makes of an empty book.
-/

namespace PolyArena

open Relation ShadowOrderbook

section

variable {b : ShadowOrderbook} {c : BookCore} {o o' : SimulatedOrder}
  {os os' : List SimulatedOrder} {t : Time} (pre post : List SimulatedOrder)

/-! ## Revisions of the whole order list -/

theorem works_revise (h : Revises o o') :
    Works { c with orders := pre ++ o :: post } { c with orders := pre ++ o' :: post } :=
  .single (.revise { c with orders := pre ++ o :: post } rfl h)

theorem works_reviseAll (h : List.Forall₂ Revises os os') :
    Works { c with orders := pre ++ os } { c with orders := pre ++ os' } := by
  induction h generalizing pre with
  | nil => exact .refl
  | @cons o o' os os' ho _ ih =>
    have hrest := ih (pre ++ [o'])
    rw [List.append_assoc, List.append_assoc] at hrest
    exact (works_revise pre os ho).trans hrest

theorem forall₂_map {f : SimulatedOrder → SimulatedOrder} (h : ∀ o ∈ os, Revises o (f o)) :
    List.Forall₂ Revises os (os.map f) := by
  induction os with
  | nil => exact .nil
  | cons o os ih =>
    exact .cons (h o List.mem_cons_self) (ih fun x hx => h x (List.mem_cons_of_mem _ hx))

theorem works_map {f : SimulatedOrder → SimulatedOrder} (h : ∀ o ∈ c.orders, Revises o (f o)) :
    Works c { c with orders := c.orders.map f } :=
  works_reviseAll [] (forall₂_map h)

theorem exists_after {α : Type*} {R : α → α → Prop} {x : α} {xs xs' : List α}
    (h : List.Forall₂ R xs' xs) (hx : x ∈ xs) : ∃ x' ∈ xs', R x' x := by
  induction h with
  | nil => cases hx
  | cons hrel _ ih =>
    rcases List.mem_cons.mp hx with rfl | hx
    · exact ⟨_, List.mem_cons_self, hrel⟩
    · obtain ⟨x', hx', hrel⟩ := ih hx
      exact ⟨x', List.mem_cons_of_mem _ hx', hrel⟩

theorem exists_before {α : Type*} {R : α → α → Prop} {x' : α} {xs xs' : List α}
    (h : List.Forall₂ R xs' xs) (hx' : x' ∈ xs') : ∃ x ∈ xs, R x' x := by
  induction h with
  | nil => cases hx'
  | cons hrel _ ih =>
    rcases List.mem_cons.mp hx' with rfl | hx'
    · exact ⟨_, List.mem_cons_self, hrel⟩
    · obtain ⟨x, hx, hrel⟩ := ih hx'
      exact ⟨x, List.mem_cons_of_mem _ hx, hrel⟩

theorem revises_cancelOpen (ho : OrderOk o) : Revises o (cancelOpen o) := by
  unfold cancelOpen
  cases ha : o.status.isTerminal with
  | true => exact .refl o
  | false => exact ⟨rfl, rfl, rfl, rfl, rfl, id, .inr ⟨ha, rfl, ho.filled_le⟩,
      ⟨rfl, rfl, rfl, rfl, rfl, fun _ => id⟩⟩

theorem revises_expireOrder (ho : OrderOk o) : Revises o ((expireOrder t o).getD o) := by
  unfold expireOrder
  by_cases h : ∃ e ∈ o.expireAt, e ≤ t
  · rw [if_pos h]
    cases hs : o.status with
    | pending =>
      refine ⟨rfl, rfl, rfl, rfl, rfl, id, .inr ⟨?_, rfl, ho.filled_le⟩,
        ⟨rfl, rfl, rfl, rfl, rfl, fun _ => id⟩⟩
      rw [hs]; rfl
    | partial_ =>
      refine ⟨rfl, rfl, rfl, rfl, rfl, id, .inr ⟨?_, rfl, le_rfl⟩,
        ⟨rfl, rfl, rfl, rfl, rfl, fun _ => id⟩⟩
      rw [hs]; rfl
    | filled =>
      dsimp only
      by_cases hc : o.positionClosed = true
      · rw [if_pos hc]; exact .refl o
      · rw [if_neg hc]
        exact ⟨rfl, rfl, rfl, rfl, rfl, fun _ => rfl, .inl ⟨hs.symm, rfl⟩,
          ⟨rfl, rfl, rfl, rfl, rfl, fun _ => id⟩⟩
    | canceled => exact .refl o
  · rw [if_neg h]; exact .refl o

theorem revises_resolveOrder (ho : OrderOk o) : Revises o (resolveOrder o) := by
  unfold resolveOrder
  split_ifs with hc
  · exact .refl o
  · have h := revises_cancelOpen ho
    exact ⟨h.orderId, h.filled, h.entryCost, h.exitFilled, h.fillLevels, fun _ => rfl, h.status,
      h.terms.side, h.terms.orderType, h.terms.price, h.terms.maxSlippage, h.terms.maxCost,
      h.terms.refPrice⟩

/-- Collecting the state changes of an order drains its levels or leaves it alone. -/
theorem collectOrder_order (reported : SortedDict OrderId (ℚ × OrderStatus)) :
    (collectOrder reported o).2.1 = o ∨ (collectOrder reported o).2.1 = o.drained := by
  unfold collectOrder
  dsimp only
  split_ifs
  · exact .inr rfl
  · exact .inl rfl

/-- Collecting drains orders or leaves them alone. -/
theorem forall₂_collectOrders {reported : SortedDict OrderId (ℚ × OrderStatus)} :
    List.Forall₂ (fun o' o => o' = o ∨ o' = o.drained) (collectOrders reported os).2.1 os := by
  induction os generalizing reported with
  | nil => exact .nil
  | cons o os ih => exact .cons (collectOrder_order reported) ih

theorem effects_collectOrders (reported : SortedDict OrderId (ℚ × OrderStatus)) :
    Effects { c with orders := pre ++ os }
      { c with orders := pre ++ (collectOrders reported os).2.1 } := by
  induction os generalizing pre reported with
  | nil => exact .refl
  | cons o os ih =>
    have hrest := ih (pre ++ [(collectOrder reported o).2.1]) (collectOrder reported o).1
    rw [List.append_assoc, List.append_assoc] at hrest
    refine .trans ?_ hrest
    rcases collectOrder_order (o := o) reported with h | h
    · rw [h]; exact .refl
    · rw [h]; exact .single (.drain { c with orders := pre ++ o :: os } rfl)

theorem effects_collect : Effects b.core b.collectStateChanges.1.core :=
  effects_collectOrders [] (c := b.core) b.lastReported

/-! ## Matching -/

/-- The matches of a sweep, as effects. -/
theorem Fills.works {l l' : Ladder} {fs : List (ℚ × ℚ)} (h : Fills l o fs l' o')
    (c : BookCore) (hl : c.ladder o.side.takes = l) :
    Works { c with orders := pre ++ o :: post }
      { c.withLadder o.side.takes l' with
        orders := pre ++ o' :: post
        history := fillRecords t o fs c.history } := by
  induction h generalizing c with
  | nil l o =>
    subst hl
    have hsame : c.withLadder o.side.takes (c.ladder o.side.takes) = c := by
      cases o.side <;> rfl
    rw [hsame]
    exact .refl
  | @cons l l' o o' fs p q size hactive hsize hpos hle hrem haccepts haffords _ ih =>
    subst hl
    have hstep : Effect { c with orders := pre ++ o :: post }
        (c.fill t o p q (pre ++ o.addFill p q :: post)) false := by
      have hget : (BookCore.ladder { c with orders := pre ++ o :: post } o.side.takes).get? p =
          some size := by
        cases hs : o.side <;> rw [hs] at hsize <;> exact hsize
      have h := Effect.fill (d := false) { c with
        orders := pre ++ o :: post } t rfl hactive hget hpos
        hle hrem haccepts haffords
      unfold BookCore.fill at h ⊢
      cases hs : o.side <;> rw [hs] at h <;> exact h
    have hrest := ih (c.fill t o p q (pre ++ o.addFill p q :: post)) (by
      rw [addFill_side]; unfold BookCore.fill; cases o.side <;> rfl)
    have hfinal : { (c.fill t o p q (pre ++ o.addFill p q :: post)).withLadder
          (o.addFill p q).side.takes l' with
          orders := pre ++ o' :: post
          history := fillRecords t (o.addFill p q) fs
            (c.fill t o p q (pre ++ o.addFill p q :: post)).history } =
        { c.withLadder o.side.takes l' with
          orders := pre ++ o' :: post
          history := fillRecords t o ((p, q) :: fs) c.history } := by
      unfold BookCore.fill fillRecords
      rw [addFill_side, addFill_orderId]
      cases o.side <;> rfl
    rw [hfinal] at hrest
    exact .head hstep hrest

theorem revises_lockSlippage : Revises o (b.lockSlippage o).1 := by
  unfold lockSlippage
  cases htype : o.orderType with
  | limit => exact .refl o
  | market =>
    cases hside : o.side with
    | buy =>
      dsimp only
      cases b.bestAsk with
      | none => exact .refl o
      | some best =>
        exact ⟨rfl, rfl, rfl, rfl, rfl, id, .inl ⟨rfl, rfl⟩, hside.symm, htype.symm, rfl, rfl, rfl,
          fun ref href => congrArg some (Option.mem_def.mp href ▸ rfl)⟩
    | sell =>
      dsimp only
      cases b.bestBid with
      | none => exact .refl o
      | some best =>
        exact ⟨rfl, rfl, rfl, rfl, rfl, id, .inl ⟨rfl, rfl⟩, hside.symm, htype.symm, rfl, rfl, rfl,
          fun ref href => congrArg some (Option.mem_def.mp href ▸ rfl)⟩

theorem lockSlippage_status : (b.lockSlippage o).1.status = o.status := by
  unfold lockSlippage
  cases o.orderType <;> cases o.side <;> dsimp only <;> split <;> rfl

/-- With something to match against, a MARKET BUY has a locked reference price. -/
theorem lockSlippage_buy (hside : (b.lockSlippage o).1.side = .buy) (hasks : b.asks.keys ≠ [])
    (htype : (b.lockSlippage o).1.orderType = .market) :
    ∃ ref ∈ (b.lockSlippage o).1.slippageRefPrice,
      (b.lockSlippage o).2 = some (ref * (1 + (b.lockSlippage o).1.slippage)) := by
  have hterms := (revises_lockSlippage (b := b) (o := o)).terms
  rw [hterms.side] at hside
  rw [hterms.orderType] at htype
  obtain ⟨best, hbest⟩ : ∃ best, b.bestAsk = some best := by
    cases hitems : b.asks.items with
    | nil => simp [SortedDict.keys, hitems] at hasks
    | cons x xs => exact ⟨x.1, by simp [bestAsk, SortedDict.peekFirst, hitems]⟩
  unfold lockSlippage
  simp only [htype, hside, hbest]
  exact ⟨_, rfl, rfl⟩

/-- With something to match against, a MARKET SELL has a locked reference price. -/
theorem lockSlippage_sell (hside : (b.lockSlippage o).1.side = .sell) (hbids : b.bids.keys ≠ [])
    (htype : (b.lockSlippage o).1.orderType = .market) :
    ∃ ref ∈ (b.lockSlippage o).1.slippageRefPrice,
      (b.lockSlippage o).2 = some (ref * (1 - (b.lockSlippage o).1.slippage)) := by
  have hterms := (revises_lockSlippage (b := b) (o := o)).terms
  rw [hterms.side] at hside
  rw [hterms.orderType] at htype
  obtain ⟨best, hbest⟩ : ∃ best, b.bestBid = some best := by
    cases hitems : b.bids.items.getLast? with
    | none => simp [SortedDict.keys, List.getLast?_eq_none_iff.mp hitems] at hbids
    | some x => exact ⟨x.1, by simp [bestBid, SortedDict.peekLast, hitems]⟩
  unfold lockSlippage
  simp only [htype, hside, hbest]
  exact ⟨_, rfl, rfl⟩

/-- The BUY sweep of `_match_order`. -/
theorem fills_matchBuy (hside : (b.lockSlippage o).1.side = .buy)
    (hactive : (b.lockSlippage o).1.status.isTerminal = false) :
    Fills b.asks (b.lockSlippage o).1
      (sweepAsks (b.lockSlippage o).2 b.asks.keys b.asks (b.lockSlippage o).1).fills
      (sweepAsks (b.lockSlippage o).2 b.asks.keys b.asks (b.lockSlippage o).1).ladder
      (sweepAsks (b.lockSlippage o).2 b.asks.keys b.asks (b.lockSlippage o).1).order :=
  fills_sweepAsks _ _ _ _ hactive hside fun hasks htype => lockSlippage_buy hside hasks htype

/-- The SELL sweep of `_match_order`. -/
theorem fills_matchSell (hside : (b.lockSlippage o).1.side = .sell)
    (hactive : (b.lockSlippage o).1.status.isTerminal = false)
    (hopen : (b.lockSlippage o).1.IsOpen) :
    Fills b.bids (b.lockSlippage o).1
      (sweepBids (b.lockSlippage o).2 b.bids.keys.reverse b.bids (b.lockSlippage o).1).fills
      (sweepBids (b.lockSlippage o).2 b.bids.keys.reverse b.bids (b.lockSlippage o).1).ladder
      (sweepBids (b.lockSlippage o).2 b.bids.keys.reverse b.bids (b.lockSlippage o).1).order :=
  fills_sweepBids _ _ _ _ hactive hopen hside fun hbids htype =>
    lockSlippage_sell hside (fun h => hbids (by rw [h]; rfl)) htype

/-- What `_match_order` does to an order that is not terminal. -/
theorem works_matchOrder (ho : OrderOk o) (ha : o.status.isTerminal = false) :
    Works { b.core with orders := pre ++ o :: post }
      { (matchOrder t b o).1.core with orders := pre ++ (matchOrder t b o).2 :: post } := by
  have hrev := revises_lockSlippage (b := b) (o := o)
  have hactive : (b.lockSlippage o).1.status.isTerminal = false := by rw [lockSlippage_status, ha]
  have hopen := (hrev.ok ho).isOpen hactive
  refine (works_revise pre post hrev).trans ?_
  unfold matchOrder
  dsimp only
  cases hside : (b.lockSlippage o).1.side with
  | buy =>
    have heff := (fills_matchBuy hside hactive).works pre post (t := t) b.core (by rw [hside]; rfl)
    rw [hside] at heff
    exact heff
  | sell =>
    have heff := (fills_matchSell hside hactive hopen).works pre post (t := t) b.core
      (by rw [hside]; rfl)
    rw [hside] at heff
    exact heff

/-- Only an order that is still open is cancelled by the IOC rule. -/
theorem revises_iocCancel {had : Bool} (ho : OrderOk o) (ha : o.status ≠ .canceled) :
    Revises o (iocCancel had o) := by
  unfold iocCancel
  split_ifs with h
  · refine ⟨rfl, rfl, rfl, rfl, rfl, id, .inr ⟨?_, rfl, ho.filled_le⟩,
      ⟨rfl, rfl, rfl, rfl, rfl, fun _ => id⟩⟩
    cases hs : o.status with
    | pending => rfl
    | partial_ => rfl
    | filled => exact absurd hs h.2.1
    | canceled => exact absurd hs ha
  · exact .refl o

theorem Fills.ok {l l' : Ladder} {fs : List (ℚ × ℚ)} (h : Fills l o fs l' o') (ho : OrderOk o) :
    OrderOk o' := by
  induction h with
  | nil => exact ho
  | cons _ _ hpos _ hrem _ _ _ ih => exact ih (ho.addFill hpos hrem)

/-- A sweep cancels nothing. -/
theorem Fills.not_canceled {l l' : Ladder} {fs : List (ℚ × ℚ)} (h : Fills l o fs l' o')
    (ho : o.status ≠ .canceled) : o'.status ≠ .canceled := by
  induction h with
  | nil => exact ho
  | cons _ _ _ _ _ _ _ _ ih =>
    refine ih ?_
    rw [addFill_status]
    split_ifs <;> first | exact ho | simp

/-- The order after `_match_order` comes from a sweep of the order before it. -/
theorem fills_matchOrder (ho : OrderOk o) (ha : o.status.isTerminal = false) :
    ∃ l fs l', Fills l (b.lockSlippage o).1 fs l' (matchOrder t b o).2 := by
  have hactive : (b.lockSlippage o).1.status.isTerminal = false := by rw [lockSlippage_status, ha]
  have hopen := (revises_lockSlippage.ok ho).isOpen hactive
  unfold matchOrder
  dsimp only
  cases hside : (b.lockSlippage o).1.side with
  | buy => exact ⟨_, _, _, fills_matchBuy hside hactive⟩
  | sell => exact ⟨_, _, _, fills_matchSell hside hactive hopen⟩

theorem not_canceled_of_active (ha : o.status.isTerminal = false) : o.status ≠ .canceled := by
  intro h
  rw [h] at ha
  cases ha

theorem revises_ioc_matchOrder {had : Bool} (ho : OrderOk o) (ha : o.status.isTerminal = false) :
    Revises (matchOrder t b o).2 (iocCancel had (matchOrder t b o).2) := by
  obtain ⟨l, fs, l', hf⟩ := fills_matchOrder (t := t) (b := b) ho ha
  refine revises_iocCancel (hf.ok (revises_lockSlippage.ok ho)) (hf.not_canceled ?_)
  rw [lockSlippage_status]
  exact not_canceled_of_active ha

theorem works_matchAndCancel (ho : OrderOk o) (ha : o.status.isTerminal = false) :
    Works { b.core with orders := pre ++ o :: post }
      { (matchAndCancel t b o).1.core with
        orders := pre ++ (matchAndCancel t b o).2 :: post } :=
  (works_matchOrder pre post ho ha).trans (works_revise pre post (revises_ioc_matchOrder ho ha))

/-- The matching loop, order by order. -/
theorem works_matchOrders (hok : AllOk os) (b : ShadowOrderbook) :
    Works { b.core with orders := pre ++ os }
      { (matchOrders t b os).1.core with orders := pre ++ (matchOrders t b os).2 } := by
  induction os generalizing b pre with
  | nil => exact .refl
  | cons o os ih =>
    have ho := hok o List.mem_cons_self
    have hrest := fun b' (o' : SimulatedOrder) =>
      ih (pre ++ [o']) (fun x hx => hok x (List.mem_cons_of_mem _ hx)) b'
    simp only [List.append_assoc, List.singleton_append] at hrest
    unfold matchOrders
    dsimp only
    cases ha : o.status.isTerminal with
    | true => exact hrest b o
    | false => exact (works_matchAndCancel pre os ho ha).trans (hrest _ _)

/-! ## Bracket exits -/

/-- An exit of an order that has something left to sell takes from the bids. -/
theorem exits_executeBracketExit (t : Time) (b : ShadowOrderbook) (bid : ℚ) (trigger : Trigger)
    (hlt : o.exited < o.filled) :
    ∃ fs, Exits o fs (executeBracketExit t b o bid trigger).2.1 ∧
      Takes b.bids fs (executeBracketExit t b o bid trigger).1.bids ∧
      (executeBracketExit t b o bid trigger).1.history = exitRecords t o.orderId fs b.history := by
  have hpos : (0 : ℚ) < o.filled - o.exited := sub_pos.mpr hlt
  obtain ⟨fs, hlevels, hexited, -, hle, htakes⟩ :=
    takes_walkExit (o.filled - o.exited) b.bids.keys.reverse ⟨b.bids, 0, 0, []⟩ hpos
  rw [List.nil_append] at hlevels
  rw [zero_add] at hexited
  refine ⟨fs, ?_, htakes, congrArg (fun levels => exitRecords t o.orderId levels b.history) hlevels⟩
  refine ⟨rfl, rfl, rfl, rfl, rfl, rfl, ?_, ?_, rfl, ⟨rfl, rfl, rfl, rfl, rfl, fun _ => id⟩⟩
  · rw [← hexited]; rfl
  · have htotal : o.exited + (walkExit (o.filled - o.exited) b.bids.keys.reverse
        ⟨b.bids, 0, 0, []⟩).qtyExited ≤ o.filled := by linarith
    exact htotal

theorem works_executeBracketExit {bid : ℚ} {trigger : Trigger}
    (hlt : o.exited < o.filled) :
    Works { b.core with orders := pre ++ o :: post }
      { (executeBracketExit t b o bid trigger).1.core with
        orders := pre ++ (executeBracketExit t b o bid trigger).2.1 :: post } := by
  obtain ⟨fs, hexit, htakes, hhist⟩ :=
    exits_executeBracketExit t b bid trigger hlt
  have hcore : { (executeBracketExit t b o bid trigger).1.core with
      orders := pre ++ (executeBracketExit t b o bid trigger).2.1 :: post } =
      { b.core with
        bids := (executeBracketExit t b o bid trigger).1.bids
        orders := pre ++ (executeBracketExit t b o bid trigger).2.1 :: post
        history := exitRecords t o.orderId fs b.history } := by
    rw [← hhist]
    rfl
  rw [hcore]
  exact .single (.exit { b.core with orders := pre ++ o :: post } t rfl htakes hexit)

theorem exited_lt_of_eligible (ho : OrderOk o) (h : o.isEligibleForBracket = true) :
    o.exited < o.filled := by
  simp only [SimulatedOrder.isEligibleForBracket, decide_eq_true_eq] at h
  exact ho.exited_lt (by simpa using h.2.2.2.1) h.2.2.1

theorem works_checkBracket {bestBid : ℚ} (ho : OrderOk o) :
    Works { b.core with orders := pre ++ o :: post }
      { (checkBracket t bestBid b o).1.core with
        orders := pre ++ (checkBracket t bestBid b o).2.1 :: post } := by
  unfold checkBracket
  cases he : o.isEligibleForBracket with
  | false => exact .refl
  | true =>
    rw [if_pos rfl]
    cases bracketTrigger o bestBid with
    | none => exact .refl
    | some trigger => exact works_executeBracketExit pre post (exited_lt_of_eligible ho he)

theorem works_checkNewBracket (ho : OrderOk o) :
    Works { b.core with orders := pre ++ o :: post }
      { (checkNewBracket t b o).1.core with
        orders := pre ++ (checkNewBracket t b o).2.1 :: post } := by
  unfold checkNewBracket
  cases b.bestBid with
  | none => exact .refl
  | some bestBid => exact works_checkBracket pre post ho

/-- The monitoring loop, order by order. -/
theorem works_monitorOrders {bestBid : ℚ} (hok : AllOk os) (b : ShadowOrderbook) :
    Works { b.core with orders := pre ++ os }
      { (monitorOrders t bestBid b os).1.core with
        orders := pre ++ (monitorOrders t bestBid b os).2.1 } := by
  induction os generalizing b pre with
  | nil => exact .refl
  | cons o os ih =>
    have hrest := fun b' (o' : SimulatedOrder) =>
      ih (pre ++ [o']) (fun x hx => hok x (List.mem_cons_of_mem _ hx)) b'
    simp only [List.append_assoc, List.singleton_append] at hrest
    exact (works_checkBracket pre os (hok o List.mem_cons_self)).trans (hrest _ _)

theorem works_monitorBracketOrders (hok : AllOk b.virtualOrders) :
    Works b.core (b.monitorBracketOrders t).1.core := by
  unfold monitorBracketOrders
  cases b.bestBid with
  | none => exact .refl
  | some bestBid => exact works_monitorOrders [] hok b

/-- Changing the one order of an id. -/
theorem map_replace {id : OrderId} (hnd : (os.map SimulatedOrder.orderId).Nodup)
    (hfind : os.find? (fun x => x.orderId = id) = some o) (o' : SimulatedOrder) :
    ∃ pre post, os = pre ++ o :: post ∧
      os.map (fun x => if x.orderId = id then o' else x) = pre ++ o' :: post := by
  induction os with
  | nil => simp at hfind
  | cons x os ih =>
    rw [List.map_cons, List.nodup_cons] at hnd
    by_cases hx : x.orderId = id
    · rw [List.find?_cons_of_pos (by simpa using hx)] at hfind
      obtain rfl : x = o := by simpa using hfind
      have hrest : os.map (fun y => if y.orderId = id then o' else y) = os := by
        have hother : ∀ y ∈ os, (if y.orderId = id then o' else y) = y := by
          intro y hy
          refine if_neg fun e => hnd.1 ?_
          rw [hx, ← e]
          exact List.mem_map_of_mem hy
        calc _ = os.map fun y => y := List.map_congr_left hother
          _ = os := List.map_id' os
      exact ⟨[], os, rfl, by rw [List.map_cons, if_pos hx, hrest]; rfl⟩
    · rw [List.find?_cons_of_neg (by simpa using hx)] at hfind
      obtain ⟨pre, post, hos, hmap⟩ := ih hnd.2 hfind
      refine ⟨x :: pre, post, by rw [hos]; rfl, ?_⟩
      rw [List.map_cons, if_neg hx, hmap]
      rfl

theorem works_forceClose {id : OrderId} (hinv : CoreInv b.core) :
    Works b.core (b.forceCloseAtMarket t id).1.core := by
  unfold forceCloseAtMarket
  cases hfind : b.virtualOrders.find? (fun o => o.orderId = id) with
  | none => exact .refl
  | some o =>
    dsimp only
    by_cases hclosed : o.filled ≤ 0 ∨ o.positionClosed = true
    · rw [if_pos hclosed]
    rw [if_neg hclosed]
    cases b.bestBid with
    | none => exact .refl
    | some bestBid =>
      have ho : OrderOk o := hinv.ok o (List.mem_of_find?_eq_some hfind)
      have hlt : o.exited < o.filled :=
        ho.exited_lt (by simpa using (not_or.mp hclosed).2) (not_le.mp (not_or.mp hclosed).1)
      obtain ⟨pre, post, hos, hmap⟩ := map_replace hinv.nodup hfind
        (executeBracketExit t b o bestBid .forceClose).2.1
      have h : Works { b.core with orders := pre ++ o :: post }
          { (executeBracketExit t b o bestBid .forceClose).1.core with
            orders := pre ++ (executeBracketExit t b o bestBid .forceClose).2.1 :: post } :=
        works_executeBracketExit pre post hlt
      rw [← hmap, ← hos] at h
      exact h

theorem works_cancelOrder {id : OrderId} (hinv : CoreInv b.core) :
    Works b.core (b.cancelOrder id).1.core := by
  unfold cancelOrder
  cases hfind : b.virtualOrders.find? (fun o => o.orderId = id) with
  | none => exact .refl
  | some o =>
    dsimp only
    split
    · exact .refl
    · have ho : OrderOk o := hinv.ok o (List.mem_of_find?_eq_some hfind)
      obtain ⟨pre, post, hos, hmap⟩ := map_replace hinv.nodup hfind (cancelOpen o)
      have h := works_revise pre post (c := b.core) (revises_cancelOpen ho)
      rw [← hmap, ← hos] at h
      exact h

/-! ## Feed -/

/-- Setting the levels of a snapshot one by one. -/
def BookCore.setLevels (c : BookCore) (side : BookSide) (entries : List FeedLevel) : BookCore :=
  entries.foldl (fun c e => if 0 < e.size then c.setLevel side e.price e.size else c) c

theorem works_setLevels (c : BookCore) (side : BookSide) (entries : List FeedLevel) :
    Works c (c.setLevels side entries) := by
  unfold BookCore.setLevels
  induction entries generalizing c with
  | nil => exact .refl
  | cons e entries ih =>
    rw [List.foldl_cons]
    split_ifs with h
    · exact .head (.set c side e.price e.size h.le e.price_pos) (ih _)
    · exact ih c

theorem setLevels_bid (c : BookCore) (entries : List FeedLevel) :
    c.setLevels .bid entries = { c with
      bids := entries.foldl (fun l e => if 0 < e.size then l.set e.price e.size else l) c.bids
      rawBids := entries.foldl (fun l e => if 0 < e.size then l.set e.price e.size else l) c.rawBids
      history := setRecords .bid entries c.history } := by
  unfold BookCore.setLevels setRecords
  induction entries generalizing c with
  | nil => rfl
  | cons e entries ih =>
    simp only [List.foldl_cons]
    split_ifs with h
    · rw [ih]
      simp only [BookCore.setLevel, Ladder.setOrErase, if_neg (not_le.mpr h)]
    · rw [ih]

theorem setLevels_ask (c : BookCore) (entries : List FeedLevel) :
    c.setLevels .ask entries = { c with
      asks := entries.foldl (fun l e => if 0 < e.size then l.set e.price e.size else l) c.asks
      rawAsks := entries.foldl (fun l e => if 0 < e.size then l.set e.price e.size else l) c.rawAsks
      history := setRecords .ask entries c.history } := by
  unfold BookCore.setLevels setRecords
  induction entries generalizing c with
  | nil => rfl
  | cons e entries ih =>
    simp only [List.foldl_cons]
    split_ifs with h
    · rw [ih]
      simp only [BookCore.setLevel, Ladder.setOrErase, if_neg (not_le.mpr h)]
    · rw [ih]

theorem works_applySnapshot (bids asks : List FeedLevel) :
    Works b.core (b.applySnapshot t bids asks).core := by
  have h := (works_setLevels b.core.clear .bid bids).trans
    (works_setLevels (b.core.clear.setLevels .bid bids) .ask asks)
  rw [setLevels_ask, setLevels_bid] at h
  exact .head (.clear b.core) h

theorem core_applyChange (ch : FeedChange) :
    (b.applyChange ch).core = b.core.setLevel ch.side ch.price (max 0 ch.size) := by
  have hput : ∀ l : Ladder, putLevel l ch.toFeedLevel = l.setOrErase ch.price (max 0 ch.size) := by
    intro l
    unfold putLevel Ladder.setOrErase
    by_cases h : ch.size ≤ 0
    · rw [if_pos h, if_pos (max_le le_rfl h)]
    · rw [if_neg h, max_eq_right (not_le.mp h).le, if_neg h]
  unfold applyChange
  cases hs : ch.side <;> simp only [hput] <;> rfl

theorem works_applyChanges (changes : List FeedChange) :
    Works b.core (b.applyChanges t changes).core := by
  have hfold : ∀ b : ShadowOrderbook, Works b.core (changes.foldl applyChange b).core := by
    intro b
    induction changes generalizing b with
    | nil => exact .refl
    | cons ch changes ih =>
      refine .head ?_ (ih (b.applyChange ch))
      rw [core_applyChange]
      exact .set _ _ _ _ (le_max_left _ _) ch.price_pos
  exact hfold { b with depthCache := [] }

/-! ## Passes and placements -/

theorem works_expirePendingOrders (hok : AllOk b.virtualOrders) :
    Works b.core (b.expirePendingOrders t).1.core :=
  works_map (c := b.core) fun _ ho => revises_expireOrder (hok _ ho)

theorem works_matchPass (hinv : CoreInv b.core) : Works b.core (b.matchPass t).core := by
  unfold matchPass
  dsimp only
  have hexpire := works_expirePendingOrders (t := t) (b := { b with depthCache := [] }) hinv.ok
  have hinv' := effects_inv hinv (works_effects hexpire)
  generalize ({ b with depthCache := [] }.expirePendingOrders t).1 = b' at hexpire hinv' ⊢
  split
  · exact hexpire
  · exact hexpire.trans (works_matchOrders [] hinv'.ok b')

theorem effects_cleanup : Effects b.core (b.cleanup t).core := by
  unfold cleanup
  split
  · exact .single (.prune _ _)
  · exact .refl

theorem effects_runMatching (hinv : CoreInv b.core) : Effects b.core (b.runMatching t).1.core :=
  ((works_effects (works_matchPass hinv)).trans effects_collect).trans effects_cleanup

theorem works_cancelAll (hok : AllOk b.virtualOrders) :
    Works b.core b.cancelAllVirtual.core :=
  works_map (c := b.core) fun _ ho => revises_cancelOpen (hok _ ho)

theorem works_handleMarketResolved (hok : AllOk b.virtualOrders) :
    Works b.core b.handleMarketResolved.core :=
  works_map (c := b.core) fun _ ho => revises_resolveOrder (hok _ ho)

theorem works_clearBook (hok : AllOk b.virtualOrders) : Works b.core b.clearBook.core :=
  .head (.clear b.core) (works_map (c := b.core.clear) fun _ ho => revises_cancelOpen (hok _ ho))

theorem isNew_newOrder {id : OrderId} {r : OrderRequest} (hq : 0 < r.quantity) :
    IsNew (r.newOrder t id) := ⟨hq, rfl, rfl, rfl, rfl, rfl⟩

@[simp] theorem checkNewBracket_virtualOrders :
    (checkNewBracket t b o).1.virtualOrders = b.virtualOrders := by
  unfold checkNewBracket checkBracket
  cases b.bestBid with
  | none => rfl
  | some bestBid =>
    dsimp only
    split
    · split <;> rfl
    · rfl

theorem AllOk.last (h : AllOk (pre ++ [o])) : OrderOk o := h o (by simp)

/-- Matching the order that was just placed, and checking its bracket. -/
theorem works_matchNew {id : OrderId} {r : OrderRequest} (hinv : CoreInv b.core)
    (hfresh : .placed id ∉ b.history) (hq : 0 < r.quantity) :
    Works { b.core with
      orders := b.virtualOrders ++ [r.newOrder t id]
      history := .placed id :: b.history } (b.enterOrder t id r).1.core := by
  have hnew : IsNew (r.newOrder t id) := isNew_newOrder hq
  have hplace : Effect b.core { b.core with
      orders := b.virtualOrders ++ [r.newOrder t id]
      history := .placed id :: b.history } false :=
    .place b.core (r.newOrder t id) hfresh hnew
  have hmatch := works_matchAndCancel b.virtualOrders [] (t := t)
    (b := { b with history := .placed id :: b.history }) hnew.ok rfl
  have hok : OrderOk (matchAndCancel t { b with history := .placed id :: b.history }
      (r.newOrder t id)).2 :=
    (effects_inv (effect_inv hinv hplace) (works_effects hmatch)).ok.last _
  exact hmatch.trans (works_checkNewBracket b.virtualOrders [] hok)

theorem works_enterOrder {id : OrderId} {r : OrderRequest} (hinv : CoreInv b.core)
    (hfresh : .placed id ∉ b.history) (hq : 0 < r.quantity) :
    Works b.core (b.enterOrder t id r).1.core :=
  .head (.place b.core (r.newOrder t id) hfresh (isNew_newOrder hq)) (works_matchNew hinv hfresh hq)

theorem effects_placeVirtualOrder {id : OrderId} {r : OrderRequest} (hinv : CoreInv b.core)
    (hfresh : .placed id ∉ b.history) (hq : 0 < r.quantity) :
    Effects b.core (b.placeVirtualOrder t id r).book.core :=
  (works_effects (works_enterOrder hinv hfresh hq)).trans effects_collect

theorem isPrefilled_newOrder {id : OrderId} {r : PrefilledRequest} :
    IsPrefilled (r.newOrder t id) r.avgEntryPrice :=
  ⟨r.filled_nonneg, rfl, rfl, rfl, rfl, rfl, rfl⟩

/-- Checking the bracket of an order that was just registered already filled. -/
theorem works_checkPrefilled {id : OrderId} {r : PrefilledRequest} :
    Works { b.core with
      orders := b.virtualOrders ++ [r.newOrder t id]
      history := .prefill id r.avgEntryPrice r.filled :: .placed id :: b.history }
      (b.placePrefilledBracketOrder t id r).book.core := by
  have hnew : IsPrefilled (r.newOrder t id) r.avgEntryPrice := isPrefilled_newOrder
  have hcheck := works_checkNewBracket b.virtualOrders [] (t := t) (b := { b with
    history := .prefill id r.avgEntryPrice r.filled :: .placed id :: b.history }) hnew.ok
  refine hcheck.trans ?_
  unfold placePrefilledBracketOrder
  dsimp only
  rw [checkNewBracket_virtualOrders]
  exact .refl

theorem works_placePrefilled {id : OrderId} {r : PrefilledRequest}
    (hfresh : .placed id ∉ b.history) :
    Works b.core (b.placePrefilledBracketOrder t id r).book.core :=
  .head (.prefill b.core (r.newOrder t id) r.avgEntryPrice hfresh isPrefilled_newOrder)
    works_checkPrefilled

theorem effects_expireAllPending (hok : AllOk b.virtualOrders) :
    Effects b.core (b.expireAllPending t).1.core := by
  have hexpire := works_effects (works_expirePendingOrders (t := t) hok)
  unfold expireAllPending
  dsimp only
  split
  · exact hexpire
  · exact hexpire.trans effects_collect

end

/-! ## Runs -/

/-- One operation on a book.  Order ids are fresh and orders are for a positive quantity. -/
inductive BookStep : ShadowOrderbook → ShadowOrderbook → Prop
  | applySnapshot (b : ShadowOrderbook) (now : Time) (bids asks : List FeedLevel) :
      BookStep b (b.applySnapshot now bids asks)
  | applyChanges (b : ShadowOrderbook) (now : Time) (changes : List FeedChange) :
      BookStep b (b.applyChanges now changes)
  | recordTrade (b : ShadowOrderbook) (now : Time) (price size : ℚ) (side : String) :
      BookStep b (b.recordTrade now price size side)
  | touch (b : ShadowOrderbook) (now : Time) : BookStep b (b.touch now)
  | placeVirtualOrder (b : ShadowOrderbook) (now : Time) (id : OrderId) (r : OrderRequest)
      (hfresh : .placed id ∉ b.history) (hq : 0 < r.quantity) :
      BookStep b (b.placeVirtualOrder now id r).book
  | placePrefilledBracketOrder (b : ShadowOrderbook) (now : Time) (id : OrderId)
      (r : PrefilledRequest) (hfresh : .placed id ∉ b.history) :
      BookStep b (b.placePrefilledBracketOrder now id r).book
  | runMatching (b : ShadowOrderbook) (now : Time) : BookStep b (b.runMatching now).1
  | expirePendingOrders (b : ShadowOrderbook) (now : Time) :
      BookStep b (b.expirePendingOrders now).1
  | expireAllPending (b : ShadowOrderbook) (now : Time) : BookStep b (b.expireAllPending now).1
  | monitorBracketOrders (b : ShadowOrderbook) (now : Time) :
      BookStep b (b.monitorBracketOrders now).1
  | forceCloseAtMarket (b : ShadowOrderbook) (now : Time) (id : OrderId) :
      BookStep b (b.forceCloseAtMarket now id).1
  | cancelOrder (b : ShadowOrderbook) (id : OrderId) : BookStep b (b.cancelOrder id).1
  | cancelAllVirtual (b : ShadowOrderbook) : BookStep b b.cancelAllVirtual
  | expireBook (b : ShadowOrderbook) : BookStep b b.expireBook.1
  | handleMarketResolved (b : ShadowOrderbook) : BookStep b b.handleMarketResolved
  | shutdownBook (b : ShadowOrderbook) : BookStep b b.shutdownBook.1
  | seedLastReported (b : ShadowOrderbook) (id : OrderId) (filled : ℚ) (status : OrderStatus) :
      BookStep b (b.seedLastReported id filled status)
  | registerStateChangeCallback (b : ShadowOrderbook) : BookStep b b.registerStateChangeCallback
  | depth (b : ShadowOrderbook) (side : BookSide) (levels : ℕ) :
      BookStep b (b.depth side levels).2

/-- Any finite sequence of operations. -/
abbrev BookRun : ShadowOrderbook → ShadowOrderbook → Prop := ReflTransGen BookStep

/-- What a run makes of a new book. -/
def Reachable (b : ShadowOrderbook) : Prop := ∃ tokenId, BookRun { tokenId := tokenId } b

/-- **The effects of an operation.** -/
theorem effects_of_step {b b' : ShadowOrderbook} (hinv : CoreInv b.core) (h : BookStep b b') :
    Effects b.core b'.core := by
  cases h with
  | applySnapshot now bids asks => exact works_effects (works_applySnapshot bids asks)
  | applyChanges now changes => exact works_effects (works_applyChanges changes)
  | recordTrade => exact .refl
  | touch => exact .refl
  | placeVirtualOrder now id r hfresh hq => exact effects_placeVirtualOrder hinv hfresh hq
  | placePrefilledBracketOrder now id r hfresh => exact works_effects (works_placePrefilled hfresh)
  | runMatching now => exact effects_runMatching hinv
  | expirePendingOrders now => exact works_effects (works_expirePendingOrders hinv.ok)
  | expireAllPending now => exact effects_expireAllPending hinv.ok
  | monitorBracketOrders now => exact works_effects (works_monitorBracketOrders hinv.ok)
  | forceCloseAtMarket now id => exact works_effects (works_forceClose hinv)
  | cancelOrder id => exact works_effects (works_cancelOrder hinv)
  | cancelAllVirtual => exact works_effects (works_cancelAll hinv.ok)
  | expireBook => exact (works_effects (works_clearBook hinv.ok)).trans effects_collect
  | handleMarketResolved => exact works_effects (works_handleMarketResolved hinv.ok)
  | shutdownBook => exact (works_effects (works_cancelAll hinv.ok)).trans effects_collect
  | seedLastReported => exact .refl
  | registerStateChangeCallback => exact .refl
  | depth side levels =>
    unfold ShadowOrderbook.depth
    split <;> exact .refl

theorem effects_of_run {b b' : ShadowOrderbook} (hinv : CoreInv b.core) (h : BookRun b b') :
    CoreInv b'.core ∧ Effects b.core b'.core := by
  induction h with
  | refl => exact ⟨hinv, .refl⟩
  | tail _ hstep ih =>
    have heff := effects_of_step ih.1 hstep
    exact ⟨effects_inv ih.1 heff, ih.2.trans heff⟩

/-- The core of a new book. -/
def emptyCore : BookCore := ⟨∅, ∅, ∅, ∅, [], [], []⟩

theorem emptyCore_inv : CoreInv emptyCore :=
  ⟨fun _ h => absurd h List.not_mem_nil, List.nodup_nil, fun _ h => absurd h List.not_mem_nil⟩

/-- **The effects of a run.** -/
theorem effects_of_reachable {b : ShadowOrderbook} (h : Reachable b) :
    CoreInv b.core ∧ Effects emptyCore b.core := by
  obtain ⟨tokenId, hrun⟩ := h
  exact effects_of_run (b := { tokenId := tokenId }) emptyCore_inv hrun

/-! ## A sample -/

/-- A book with ten shares on offer at `0.50`. -/
def offerBook : ShadowOrderbook :=
  ({ tokenId := "up" } : ShadowOrderbook).applySnapshot 0 [] [⟨1 / 2, 10, pos_one_half⟩]

/-- A LIMIT BUY of twenty shares at `0.60`, placed in `offerBook`: it takes the ten on offer. -/
def restingBook : ShadowOrderbook :=
  (offerBook.placeVirtualOrder 1 7 { side := .buy, price := 3 / 5, quantity := 20 }).book

theorem reachable_restingBook : Reachable restingBook :=
  ⟨"up", .tail (.single (.applySnapshot _ 0 [] [⟨1 / 2, 10, by norm_num⟩]))
    (.placeVirtualOrder offerBook 1 7 _ (by decide +kernel) (by norm_num))⟩

end PolyArena
