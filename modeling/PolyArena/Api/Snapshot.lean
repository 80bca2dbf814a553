import PolyArena.Models

/-!
# Filling from the orderbook snapshot

The API fills new orders from the snapshot of the asks that the feed service keeps in Redis.
`_fill_market_from_snapshot` and `_fill_limit_from_snapshot` walk the asks with the same loop
(`walkAsks`) under different price caps.  `walkAsks_cost` says in closed form what the loop spends.
-/

namespace PolyArena

open Rounding

/-- One level of the snapshot's asks.  A price of zero would make the loops divide by it. -/
structure AskLevel where
  price : ℚ
  size : ℚ
  price_pos : 0 < price
  size_nonneg : 0 ≤ size

/-- What reading a snapshot from Redis gives. -/
inductive SnapshotRead
  | missing
  | malformed
  | asks (levels : List AskLevel)

/-- Why the API refuses an order, with the values its message shows. -/
inductive HttpDetail
  | invalidApiKey
  | botNotActive (status : BotStatus)
  | insufficientBalance (balance amount : ℚ)
  | insufficientBalanceWithFee
  | pastCandle (timestamp candleOpen currentOpen : ℤ)
  | tooFarInFuture (timestamp candleOpen maxAllowed : ℤ)
  | sessionNotAvailable
  | priceDataUnavailable
  | ceilingBelowBestAsk (ceiling bestAsk : ℚ)
  | slNotBelowBestAsk (sl bestAsk : ℚ)
  | tpNotAboveBestAsk (tp bestAsk : ℚ)
  | insufficientBalanceAggressive
  | snapshotUnavailable
  | snapshotMalformed
  | snapshotNoAsks
  | fokInsufficientLiquidity (ceiling available requested : ℚ)
  | fokNoLiquidity (ceiling : Option ℚ)
  | couldNotFill
  deriving DecidableEq, Repr

def HttpDetail.statusCode : HttpDetail → ℕ
  | .invalidApiKey => 401
  | .sessionNotAvailable | .priceDataUnavailable | .snapshotUnavailable | .snapshotMalformed
  | .snapshotNoAsks | .couldNotFill => 503
  | _ => 400

/-- `_snapshot_best_ask`: the first ask of the snapshot. -/
def snapshotBestAsk : SnapshotRead → Option ℚ
  | .asks (best :: _) => some best.price
  | _ => none

/-! ## The walk -/

structure Walk where
  totalCost : ℚ := 0
  totalQty : ℚ := 0
  walkLevels : List FillLevel := []
  deriving DecidableEq, Repr

/-- Take the asks in order until the price cap is exceeded or the budget is spent.  The quotient is
exact; in the code it has 28 digits, so that what is left of the budget may not be spent to the last
unit: the code then refuses a FOK order under a ceiling that the asks could fill (`10` at `0.30`),
or goes on to a level of dust. -/
def walkAsks (maxPrice budget : ℚ) : List AskLevel → Walk → Walk
  | [], w => w
  | a :: rest, w =>
    if maxPrice < a.price then w
    else
      let remaining := budget - w.totalCost
      if remaining ≤ 0 then w
      else
        let fillQty := min a.size (remaining / a.price)
        let levelCost := fillQty * a.price
        let w' : Walk :=
          { totalCost := w.totalCost + levelCost
            totalQty := w.totalQty + fillQty
            walkLevels := w.walkLevels ++ [⟨a.price, fillQty, levelCost⟩] }
        if budget ≤ w'.totalCost then w' else walkAsks maxPrice budget rest w'

def DEFAULT_SLIPPAGE_TOLERANCE : ℚ := 1 / 10

/-- The asks a fill function walks, or its error. -/
def SnapshotRead.levels : SnapshotRead → Except HttpDetail (List AskLevel)
  | .missing => .error .snapshotUnavailable
  | .malformed => .error .snapshotMalformed
  | .asks [] => .error .snapshotNoAsks
  | .asks levels => .ok levels

/-- The price cap of a MARKET order: the slippage above the best ask, and the ceiling. -/
def marketMaxPrice (asks : List AskLevel) (slippageTolerance ceilingPrice : Option ℚ) : ℚ :=
  let bestAsk := (asks.head?.map AskLevel.price).getD 0
  let maxPrice := bestAsk * (1 + slippageTolerance.getD DEFAULT_SLIPPAGE_TOLERANCE)
  match ceilingPrice with
  | some ceiling => min maxPrice ceiling
  | none => maxPrice

/-- Why a MARKET walk is refused: a FOK must spend its amount, and something must be filled. -/
def marketRejection (orderType : TimeInForce) (ceilingPrice : Option ℚ) (amount : ℚ) (w : Walk) :
    Option HttpDetail :=
  if orderType = .fok ∧ ceilingPrice.isSome ∧ w.totalCost < amount ∧ 0 < w.totalQty then
    some (.fokInsufficientLiquidity (ceilingPrice.getD 0) w.totalCost amount)
  else if w.totalQty = 0 then
    some (if orderType = .fok then .fokNoLiquidity ceilingPrice else .couldNotFill)
  else none

/-- `_fill_market_from_snapshot`, as `create_bo` calls it (without a limit price): the average
price, the shares and the walk levels. -/
def fillMarketFromSnapshot (snapshot : SnapshotRead) (amount : ℚ) (slippageTolerance : Option ℚ)
    (orderType : TimeInForce) (ceilingPrice : Option ℚ) :
    Except HttpDetail (ℚ × ℚ × List FillLevel) := do
  let asks ← snapshot.levels
  let w := walkAsks (marketMaxPrice asks slippageTolerance ceilingPrice) amount asks {}
  match marketRejection orderType ceilingPrice amount w with
  | some detail => throw detail
  | none => return (round8 (w.totalCost / w.totalQty), round8 w.totalQty, w.walkLevels)

/-- What `_fill_limit_from_snapshot` returns. -/
structure LimitFill where
  avgPrice : ℚ
  numShares : ℚ
  walkLevels : List FillLevel
  remainingBudget : ℚ
  deriving DecidableEq, Repr

/-- `_fill_limit_from_snapshot`. -/
def fillLimitFromSnapshot (snapshot : SnapshotRead) (amount limitPrice : ℚ) :
    Except HttpDetail LimitFill := do
  let asks ← snapshot.levels
  let w := walkAsks limitPrice amount asks {}
  let remainingBudget := if amount - w.totalCost < 0 then 0 else amount - w.totalCost
  let avgPrice := if 0 < w.totalQty then w.totalCost / w.totalQty else 0
  return {
    avgPrice := round8 avgPrice
    numShares := round8 w.totalQty
    walkLevels := w.walkLevels
    remainingBudget := round8 remainingBudget }

/-! ## What the walk takes -/

/-- The asks up to the first one above the price cap. -/
def reachable (maxPrice : ℚ) (asks : List AskLevel) : List AskLevel :=
  asks.takeWhile fun a => a.price ≤ maxPrice

/-- The cost of all that is on offer at up to `maxPrice`. -/
def offeredCost (maxPrice : ℚ) (asks : List AskLevel) : ℚ :=
  ((reachable maxPrice asks).map fun a => a.size * a.price).sum

/-- The quantity of all that is on offer at up to `maxPrice`. -/
def offeredQty (maxPrice : ℚ) (asks : List AskLevel) : ℚ :=
  ((reachable maxPrice asks).map AskLevel.size).sum

section

variable {maxPrice budget : ℚ} {a : AskLevel} {asks : List AskLevel} {w : Walk}

theorem reachable_cons_pos (h : a.price ≤ maxPrice) :
    reachable maxPrice (a :: asks) = a :: reachable maxPrice asks :=
  List.takeWhile_cons_of_pos (by simpa using h)

theorem reachable_cons_neg (h : maxPrice < a.price) : reachable maxPrice (a :: asks) = [] :=
  List.takeWhile_cons_of_neg (by simpa using h)

theorem offeredCost_nonneg : 0 ≤ offeredCost maxPrice asks := by
  refine List.sum_nonneg fun x hx => ?_
  obtain ⟨a, -, rfl⟩ := List.mem_map.mp hx
  exact mul_nonneg a.size_nonneg a.price_pos.le

theorem offeredQty_nonneg : 0 ≤ offeredQty maxPrice asks := by
  refine List.sum_nonneg fun x hx => ?_
  obtain ⟨a, -, rfl⟩ := List.mem_map.mp hx
  exact a.size_nonneg

theorem offeredCost_cons (h : a.price ≤ maxPrice) :
    offeredCost maxPrice (a :: asks) = a.size * a.price + offeredCost maxPrice asks := by
  unfold offeredCost
  rw [reachable_cons_pos h, List.map_cons, List.sum_cons]

theorem offeredQty_cons (h : a.price ≤ maxPrice) :
    offeredQty maxPrice (a :: asks) = a.size + offeredQty maxPrice asks := by
  unfold offeredQty
  rw [reachable_cons_pos h, List.map_cons, List.sum_cons]

/-- The cost of one level is what is offered there, or the rest of the budget. -/
theorem levelCost_eq (a : AskLevel) (remaining : ℚ) :
    min a.size (remaining / a.price) * a.price = min (a.size * a.price) remaining := by
  rw [min_mul_of_nonneg _ _ a.price_pos.le, div_mul_cancel₀ _ a.price_pos.ne']

/-- **What the walk spends**: all that is on offer, or the budget. -/
theorem walkAsks_cost (maxPrice budget : ℚ) (asks : List AskLevel) (w : Walk)
    (hw : w.totalCost ≤ budget) :
    (walkAsks maxPrice budget asks w).totalCost =
      min budget (w.totalCost + offeredCost maxPrice asks) := by
  induction asks generalizing w with
  | nil => simp [walkAsks, offeredCost, reachable, hw]
  | cons a asks ih =>
    unfold walkAsks
    dsimp only
    by_cases hprice : maxPrice < a.price
    · rw [if_pos hprice, offeredCost, reachable_cons_neg hprice]
      simp [hw]
    rw [if_neg hprice, offeredCost_cons (not_lt.mp hprice)]
    have hoffer : 0 ≤ a.size * a.price := mul_nonneg a.size_nonneg a.price_pos.le
    have hrest : 0 ≤ offeredCost maxPrice asks := offeredCost_nonneg
    by_cases hspent : budget - w.totalCost ≤ 0
    · have hall : budget ≤ w.totalCost + (a.size * a.price + offeredCost maxPrice asks) := by
        linarith
      rw [if_pos hspent, min_eq_left hall]
      linarith
    rw [if_neg hspent, levelCost_eq]
    by_cases hfull : a.size * a.price ≤ budget - w.totalCost
    · rw [min_eq_left hfull]
      by_cases hdone : budget ≤ w.totalCost + a.size * a.price
      · have hall : budget ≤ w.totalCost + (a.size * a.price + offeredCost maxPrice asks) := by
          linarith
        rw [if_pos hdone, min_eq_left hall]
        dsimp only
        linarith
      · rw [if_neg hdone, ih _ (not_le.mp hdone).le, add_assoc]
    · have hall : budget ≤ w.totalCost + (a.size * a.price + offeredCost maxPrice asks) := by
        linarith
      have hdone : budget ≤ w.totalCost + (budget - w.totalCost) := by linarith
      rw [min_eq_right (not_le.mp hfull).le, if_pos hdone, min_eq_left hall]
      dsimp only
      linarith

/-- A walk that does not spend the budget takes all that is on offer. -/
theorem walkAsks_qty (maxPrice budget : ℚ) (asks : List AskLevel) (w : Walk)
    (hleft : w.totalCost + offeredCost maxPrice asks < budget) :
    (walkAsks maxPrice budget asks w).totalQty = w.totalQty + offeredQty maxPrice asks := by
  induction asks generalizing w with
  | nil => simp [walkAsks, offeredQty, reachable]
  | cons a asks ih =>
    unfold walkAsks
    dsimp only
    by_cases hprice : maxPrice < a.price
    · rw [if_pos hprice, offeredQty, reachable_cons_neg hprice]
      simp
    rw [offeredCost_cons (not_lt.mp hprice)] at hleft
    rw [if_neg hprice, offeredQty_cons (not_lt.mp hprice)]
    have hoffer : 0 ≤ a.size * a.price := mul_nonneg a.size_nonneg a.price_pos.le
    have hrest : 0 ≤ offeredCost maxPrice asks := offeredCost_nonneg
    have hqty : min a.size ((budget - w.totalCost) / a.price) = a.size := by
      rw [min_eq_left_iff, le_div_iff₀ a.price_pos]
      linarith
    have hopen : ¬ budget - w.totalCost ≤ 0 := by linarith
    have hmore : ¬ budget ≤ w.totalCost + a.size * a.price := by linarith
    rw [if_neg hopen, hqty, if_neg hmore, ih _ (by linarith), add_assoc]

/-- The walk levels say what the walk spent. -/
theorem walkAsks_levels (maxPrice budget : ℚ) (asks : List AskLevel) (w : Walk)
    (hsum : (w.walkLevels.map FillLevel.cost).sum = w.totalCost)
    (hqty : ∀ lv ∈ w.walkLevels, 0 ≤ lv.qty) :
    ((walkAsks maxPrice budget asks w).walkLevels.map FillLevel.cost).sum =
        (walkAsks maxPrice budget asks w).totalCost ∧
      ∀ lv ∈ (walkAsks maxPrice budget asks w).walkLevels, 0 ≤ lv.qty := by
  induction asks generalizing w with
  | nil => exact ⟨hsum, hqty⟩
  | cons a asks ih =>
    unfold walkAsks
    dsimp only
    by_cases hprice : maxPrice < a.price
    · rw [if_pos hprice]; exact ⟨hsum, hqty⟩
    rw [if_neg hprice]
    by_cases hspent : budget - w.totalCost ≤ 0
    · rw [if_pos hspent]; exact ⟨hsum, hqty⟩
    rw [if_neg hspent]
    have hq0 : 0 ≤ min a.size ((budget - w.totalCost) / a.price) :=
      le_min a.size_nonneg (div_pos (not_le.mp hspent) a.price_pos).le
    generalize min a.size ((budget - w.totalCost) / a.price) = q at hq0 ⊢
    have hsum' : ((w.walkLevels ++ [FillLevel.mk a.price q (q * a.price)]).map FillLevel.cost).sum =
        w.totalCost + q * a.price := by
      simp [hsum]
    have hqty' : ∀ lv ∈ w.walkLevels ++ [FillLevel.mk a.price q (q * a.price)], 0 ≤ lv.qty := by
      intro lv hlv
      rcases List.mem_append.mp hlv with hlv | hlv
      · exact hqty lv hlv
      · rw [List.mem_singleton.mp hlv]; exact hq0
    by_cases hdone : budget ≤ w.totalCost + q * a.price
    · rw [if_pos hdone]; exact ⟨hsum', hqty'⟩
    · rw [if_neg hdone]; exact ih _ hsum' hqty'

/-- A level that was taken from the ask `a`. -/
structure FillLevel.TakenFrom (lv : FillLevel) (a : AskLevel) : Prop where
  price : lv.price = a.price
  cost : lv.cost = lv.qty * lv.price
  qty : 0 ≤ lv.qty

/-- **What the walk takes**: levels of the asks up to the price cap. -/
theorem walkAsks_taken (maxPrice budget : ℚ) (asks : List AskLevel) (w : Walk) {lv : FillLevel}
    (hlv : lv ∈ (walkAsks maxPrice budget asks w).walkLevels) :
    lv ∈ w.walkLevels ∨ ∃ a ∈ asks, a.price ≤ maxPrice ∧ lv.TakenFrom a := by
  induction asks generalizing w with
  | nil => exact .inl hlv
  | cons a asks ih =>
    unfold walkAsks at hlv
    dsimp only at hlv
    split_ifs at hlv with hprice hspent hdone
    · exact .inl hlv
    · exact .inl hlv
    -- the level taken here is the last one, or the walk goes on behind it
    all_goals
      have htaken : ∀ lv ∈ w.walkLevels ++ [⟨a.price, min a.size ((budget - w.totalCost) / a.price),
          min a.size ((budget - w.totalCost) / a.price) * a.price⟩],
          lv ∈ w.walkLevels ∨ ∃ a' ∈ a :: asks, a'.price ≤ maxPrice ∧ lv.TakenFrom a' := by
        intro lv hlv
        rcases List.mem_append.mp hlv with hlv | hlv
        · exact .inl hlv
        · rw [List.mem_singleton.mp hlv]
          exact .inr ⟨a, List.mem_cons_self .., not_lt.mp hprice, rfl, rfl,
            le_min a.size_nonneg (div_pos (not_le.mp hspent) a.price_pos).le⟩
    · exact htaken lv hlv
    · rcases ih _ hlv with hlv | ⟨a', ha', hcap, hfrom⟩
      · exact htaken lv hlv
      · exact .inr ⟨a', List.mem_cons_of_mem _ ha', hcap, hfrom⟩

end

/-! ## What the fills report -/

theorem levels_ok {snapshot : SnapshotRead} {asks : List AskLevel}
    (h : snapshot.levels = .ok asks) : snapshot = .asks asks := by
  unfold SnapshotRead.levels at h
  split at h
  all_goals first | contradiction | (cases h; rfl)

/-- The walk a fill function makes costs at most its budget, and no level of it is negative. -/
theorem walkAsks_ok (maxPrice amount : ℚ) (asks : List AskLevel) :
    ((walkAsks maxPrice amount asks {}).walkLevels.map FillLevel.cost).sum =
        (walkAsks maxPrice amount asks {}).totalCost ∧
      ∀ lv ∈ (walkAsks maxPrice amount asks {}).walkLevels, 0 ≤ lv.qty :=
  walkAsks_levels _ _ _ _ (by simp) (by simp)

section LimitFills

variable {snapshot : SnapshotRead} {amount limitPrice : ℚ} {f : LimitFill}

/-- A LIMIT fill reports what one walk did. -/
theorem fillLimit_ok (h : fillLimitFromSnapshot snapshot amount limitPrice = .ok f) :
    ∃ asks, snapshot = .asks asks ∧ f.walkLevels = (walkAsks limitPrice amount asks {}).walkLevels ∧
      f.numShares = round8 (walkAsks limitPrice amount asks {}).totalQty ∧
      f.remainingBudget = round8
        (max 0 (amount - (walkAsks limitPrice amount asks {}).totalCost)) := by
  unfold fillLimitFromSnapshot at h
  cases hl : snapshot.levels with
  | error e => rw [hl] at h; cases h
  | ok asks =>
    rw [hl] at h
    cases h
    refine ⟨asks, levels_ok hl, rfl, rfl, ?_⟩
    dsimp only
    congr 1
    by_cases hneg : amount - (walkAsks limitPrice amount asks {}).totalCost < 0
    · rw [if_pos hneg, max_eq_left hneg.le]
    · rw [if_neg hneg, max_eq_right (not_lt.mp hneg)]

/-- **What a LIMIT fill leaves of the budget**: what is not on offer. -/
theorem remainingBudget_eq (h : fillLimitFromSnapshot snapshot amount limitPrice = .ok f)
    (hamount : 0 ≤ amount) : ∃ asks, snapshot = .asks asks ∧
      f.remainingBudget = round8 (max 0 (amount - offeredCost limitPrice asks)) := by
  obtain ⟨asks, hs, -, -, hrem⟩ := fillLimit_ok h
  refine ⟨asks, hs, ?_⟩
  rw [hrem, walkAsks_cost _ _ _ _ hamount]
  congr 1
  dsimp only
  rw [zero_add]
  rcases le_total amount (offeredCost limitPrice asks) with hle | hle
  · rw [min_eq_left hle, sub_self, max_self, max_eq_left (sub_nonpos.mpr hle)]
  · rw [min_eq_right hle]

/-- A LIMIT fill that leaves some of the budget took all that is on offer. -/
theorem numShares_eq (h : fillLimitFromSnapshot snapshot amount limitPrice = .ok f)
    (hamount : 0 ≤ amount) (hrem : 0 < f.remainingBudget) :
    ∃ asks, snapshot = .asks asks ∧ f.numShares = round8 (offeredQty limitPrice asks) := by
  obtain ⟨asks, hs, -, hqty, hrem'⟩ := fillLimit_ok h
  refine ⟨asks, hs, ?_⟩
  rw [walkAsks_cost _ _ _ _ hamount] at hrem'
  have hleft : ({} : Walk).totalCost + offeredCost limitPrice asks < amount := by
    by_contra hle
    rw [min_eq_left (not_lt.mp hle), sub_self, max_self] at hrem'
    exact hrem.ne' (hrem'.trans (roundTo_zero 8))
  rw [hqty, walkAsks_qty _ _ _ _ hleft]
  dsimp only
  rw [zero_add]

theorem limitFill_fee_nonneg (h : fillLimitFromSnapshot snapshot amount limitPrice = .ok f) :
    0 ≤ takerFeeFromLevels f.walkLevels := by
  obtain ⟨asks, -, hlevels, -, -⟩ := fillLimit_ok h
  rw [hlevels]
  exact takerFeeFromLevels_nonneg (walkAsks_ok _ _ _).2

end LimitFills

/-- No level of a MARKET fill is negative. -/
theorem fillMarket_nonneg {snapshot : SnapshotRead} {amount avgPrice numShares : ℚ}
    {slippage ceiling : Option ℚ} {orderType : TimeInForce} {levels : List FillLevel}
    (h : fillMarketFromSnapshot snapshot amount slippage orderType ceiling =
      .ok (avgPrice, numShares, levels)) : ∀ lv ∈ levels, 0 ≤ lv.qty := by
  unfold fillMarketFromSnapshot at h
  cases hl : snapshot.levels with
  | error e => rw [hl] at h; cases h
  | ok asks =>
    rw [hl] at h
    simp only [bind, Except.bind] at h
    split at h
    · cases h
    · cases h
      exact (walkAsks_ok _ _ _).2

end PolyArena
