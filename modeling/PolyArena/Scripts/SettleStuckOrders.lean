import PolyArena.Payout
import PolyArena.SettlementPasses

/-!
# The repair script

`scripts/settle_stuck_orders.py` settles or cancels orders by hand.  It has its own copy of the
settlement logic, without the gate on the engine's status.

1. `settleOrder` and `cancelUnfilledOrder` are the script's two actions.
2. `scriptVerdict_eq` compares the copied profit formulas with those of the service: they part where
fill data is missing.
3. `repair_agrees_iff` says on which rows the two write the same.
-/

namespace PolyArena

open Rounding

/-! ## The script -/

/-- The script's profit formulas, `none` where the arithmetic on a missing `avg_price` raises. -/
def scriptVerdict (bo : BinaryOption) (c : Candle) : Option (BOResult × ℚ) :=
  let won := c.dir = bo.forecast
  match bo.shadowExit with
  | some (exitPrice, exitFilled) =>
    match bo.avgPrice with
    | none => none
    | some avg =>
      let shadowProfit := round8 ((exitPrice - avg) * exitFilled)
      let remainder :=
        match bo.numShares with
        | none => 0
        | some n => if exitFilled < n then binaryProfit avg (n - exitFilled) won else 0
      let profit := shadowProfit + remainder
      some (if 0 ≤ profit then .win else .loss, profit)
  | none =>
    let profit :=
      match bo.avgPrice, bo.numShares with
      | some avg, some n => binaryProfit avg n won
      -- no fill data: the whole amount is won or lost
      | _, _ => if won then round8 bo.amount else -bo.amount
    some (if won then .win else .loss, profit)

/-- The candle of up to three requests. -/
def retriedCandle (fetch : ℕ → CandleFetch) (bo : BinaryOption) : Option Candle :=
  (List.range 3).findSome? fun attempt => fetch attempt bo.candleRequest

/-- The row that `settle_order` writes. -/
def repairedRow (bo : BinaryOption) (c : Candle) (result : BOResult) (profit : ℚ) : BinaryOption :=
  { bo with
    result := result
    profit := some profit
    priceOpen := some c.openPrice
    priceClose := some c.closePrice }

/-- `settle_order`, `none` when it raises. -/
def settleOrder (dryRun : Bool) (fetch : ℕ → CandleFetch) (db : Database) (bo : BinaryOption) :
    Option Database :=
  if bo.settlementAt = none then some db
  else
    match retriedCandle fetch bo with
    | none => some db
    | some c =>
      match scriptVerdict bo c with
      | none => none
      | some (result, profit) =>
        if dryRun then some db
        else
          some ((db.setOrder (repairedRow bo c result profit)).refundBot bo.botName
            (round8 (bo.amount + profit)) bo.id)

/-- `cancel_unfilled_order`: the row alone, no refund. -/
def cancelUnfilledOrder (dryRun : Bool) (db : Database) (bo : BinaryOption) : Database :=
  if bo.meOrderStatus ≠ some .pending then db
  else if dryRun then db
  else db.setOrder { cancelledRow bo with meOrderStatus := some .canceled }

/-! ## The service's side -/

/-- What the loop body of `settle_pending_trades` does before it asks for a candle. -/
def unfilledBranch (base db : Database) (bo : BinaryOption) : Database :=
  if bo.positionClosed then db
  else if bo.meOrderStatus = some .pending then cancelWithRefund base db (unfilledRow bo)
  else db

theorem settlePendingOne_unfilled {fetch : CandleFetch} {base db : Database} {bo : BinaryOption}
    (hpending : bo.result = .pending)
    (hbranch : bo.positionClosed = true ∨ bo.meOrderStatus = some .pending) :
    settlePendingOne fetch base db bo = some (unfilledBranch base db bo) := by
  unfold settlePendingOne unfilledBranch
  rw [if_neg (not_not.mpr hpending)]
  by_cases hclosed : bo.positionClosed = true
  · rw [if_pos hclosed, if_pos hclosed]
  · rw [if_neg hclosed, if_neg hclosed, if_pos (hbranch.resolve_left hclosed),
      if_pos (hbranch.resolve_left hclosed)]

/-! ## What is compared -/

def Database.resultOf (db : Database) (id : ℕ) : Option BOResult :=
  (db.orders.get id).map BinaryOption.result

def Database.profitOf (db : Database) (id : ℕ) : Option (Option ℚ) :=
  (db.orders.get id).map BinaryOption.profit

/-- The same result and profit of the order, and the same balance of its bot. -/
def SameSettlement (bo : BinaryOption) (db db' : Database) : Prop :=
  db.resultOf bo.id = db'.resultOf bo.id ∧ db.profitOf bo.id = db'.profitOf bo.id ∧
    db.balanceOf bo.botName = db'.balanceOf bo.botName

/-- The same result of the order, and the same balance of its bot. -/
def SameCancel (bo : BinaryOption) (db db' : Database) : Prop :=
  db.resultOf bo.id = db'.resultOf bo.id ∧ db.balanceOf bo.botName = db'.balanceOf bo.botName

instance (bo : BinaryOption) (db db' : Database) : Decidable (SameSettlement bo db db') :=
  inferInstanceAs (Decidable (_ ∧ _))

instance (bo : BinaryOption) (db db' : Database) : Decidable (SameCancel bo db db') :=
  inferInstanceAs (Decidable (_ ∧ _))

/-- The service has a formula for the row: an exit record, or the two columns that a fill sets. -/
def BinaryOption.HasFormula (bo : BinaryOption) : Prop :=
  bo.shadowExit ≠ none ∨ bo.avgPrice ≠ none ∧ bo.numShares ≠ none

section

variable {base db : Database} {bo : BinaryOption} {c : Candle} {fetch : ℕ → CandleFetch}
  {result : BOResult} {profit : ℚ}

/-- **The copied formulas** are the service's, except that missing fill data settles the amount. -/
theorem scriptVerdict_eq (bo : BinaryOption) (c : Candle) :
    (∃ result profit, verdict bo c = .settled result profit ∧
        scriptVerdict bo c = some (result, profit) ∧
        bo.HasFormula) ∨
      verdict bo c = .raises ∧ scriptVerdict bo c = none ∧ bo.HasFormula ∨
      verdict bo c = .missingFill ∧ ¬ bo.HasFormula ∧
        ∃ result profit, result ∈ [BOResult.win, .loss] ∧
          scriptVerdict bo c = some (result, profit) := by
  have hmem : (if c.dir = bo.forecast then BOResult.win else .loss) ∈ [BOResult.win, .loss] := by
    split_ifs <;> simp
  unfold verdict scriptVerdict BinaryOption.HasFormula
  cases hexit : bo.shadowExit with
  | some exit =>
    obtain ⟨exitPrice, exitFilled⟩ := exit
    cases havg : bo.avgPrice with
    | none => exact .inr (.inl ⟨rfl, rfl, .inl nofun⟩)
    | some avg => exact .inl ⟨_, _, rfl, rfl, .inl nofun⟩
  | none =>
    cases havg : bo.avgPrice with
    | none => exact .inr (.inr ⟨rfl, fun h => h.elim (· rfl) (·.1 rfl), _, _, hmem, rfl⟩)
    | some avg =>
      cases hnum : bo.numShares with
      | none => exact .inr (.inr ⟨rfl, fun h => h.elim (· rfl) (·.2 rfl), _, _, hmem, rfl⟩)
      | some n => exact .inl ⟨_, _, rfl, rfl, .inr ⟨nofun, nofun⟩⟩

/-! ## The columns after a write -/

theorem get_setOrder (row : BinaryOption) (hrow : db.orders.get bo.id = some bo)
    (hid : row.id = bo.id) :
    (db.setOrder row).orders.get bo.id = some row := by
  rw [← hid] at hrow ⊢
  exact Table.get_put_self hrow

theorem columns_refund (row : BinaryOption) (x : ℚ) (hrow : db.orders.get bo.id = some bo)
    (hid : row.id = bo.id) :
    ((db.setOrder row).refundBot bo.botName x bo.id).resultOf bo.id = some row.result ∧
      ((db.setOrder row).refundBot bo.botName x bo.id).profitOf bo.id = some row.profit ∧
      ((db.setOrder row).refundBot bo.botName x bo.id).balanceOf bo.botName =
        (db.balanceOf bo.botName).map fun b => round8 (b + x) := by
  unfold Database.resultOf Database.profitOf
  rw [refundBot_orders, get_setOrder row hrow hid]
  refine ⟨rfl, rfl, ?_⟩
  rw [balanceOf_congr (refundBot_bots ..), balanceOf_creditBot rfl]
  rfl

/-! ## Where the two agree -/

theorem settleOrder_eq (hsettle : bo.settlementAt ≠ none)
    (hcandle : retriedCandle fetch bo = some c) :
    settleOrder false fetch db bo = (scriptVerdict bo c).map fun p =>
      (db.setOrder (repairedRow bo c p.1 p.2)).refundBot bo.botName
        (round8 (bo.amount + p.2)) bo.id := by
  unfold settleOrder
  rw [if_neg hsettle, hcandle]
  dsimp only
  cases scriptVerdict bo c with
  | none => rfl
  | some p => rfl

/-- What the service books for a verdict that it settles. -/
theorem columns_settleSingleTrade (base : Database) (hrow : db.orders.get bo.id = some bo)
    (hv : verdict bo c = .settled result profit) :
    ∃ db', settleSingleTrade base db bo c = some db' ∧
      db'.resultOf bo.id = some result ∧ db'.profitOf bo.id = some (some profit) ∧
      db'.balanceOf bo.botName =
        (db.balanceOf bo.botName).map fun b => round8 (b + round8 (bo.amount + profit)) := by
  unfold settleSingleTrade
  rw [hv]
  obtain ⟨hresult, hprofit, hbalance⟩ :=
    columns_refund (settledRow bo c result profit .candleSettled)
      (round8 (bo.amount + profit)) hrow rfl
  refine ⟨_, rfl, ?_, ?_, ?_⟩
  · unfold Database.resultOf at hresult ⊢
    rwa [recordUserBalance_orders, pauseIfBroke_orders]
  · unfold Database.profitOf at hprofit ⊢
    rwa [recordUserBalance_orders, pauseIfBroke_orders]
  · rw [balanceOf_congr recordUserBalance_bots, balanceOf_pauseIfBroke]
    exact hbalance

/-- The result after the service had the order; an exception writes none. -/
theorem resultOf_settleSingleTrade (base : Database) (c : Candle)
    (hrow : db.orders.get bo.id = some bo) (hpending : bo.result = .pending) :
    ((settleSingleTrade base db bo c).getD db).resultOf bo.id = some (verdict bo c).result := by
  unfold Database.resultOf
  cases hs : settleSingleTrade base db bo c with
  | none =>
    rw [verdict_raises.mpr (settleSingleTrade_eq_none.mp hs), Option.getD_none, hrow,
      Option.map_some, hpending]
    rfl
  | some db' =>
    obtain ⟨profit, a, hrow'⟩ := settleSingleTrade_row hrow hs
    rw [Option.getD_some, hrow']
    rfl

/-- Without a settlement time the script writes nothing, and the service settles or cancels. -/
theorem settle_agrees_skipped (hrow : db.orders.get bo.id = some bo)
    (hpending : bo.result = .pending) (hsettle : bo.settlementAt = none) :
    SameSettlement bo ((settleOrder false fetch db bo).getD db)
      ((settleSingleTrade base db bo c).getD db) ↔
      bo.exitedUnfilled := by
  have hskip : settleOrder false fetch db bo = some db := if_pos hsettle
  rw [hskip]
  constructor
  · intro h
    by_contra hsettles
    have hresult := h.1.symm.trans ((congrArg (Option.map BinaryOption.result) hrow).trans
      (congrArg some hpending))
    rw [resultOf_settleSingleTrade base c hrow hpending, Option.some.injEq] at hresult
    have hresolved := (verdict_result_resolved (c := c)).mpr hsettles
    rw [hresult] at hresolved
    exact hresolved.elim nofun (·.elim nofun nofun)
  · intro hraises
    rw [settleSingleTrade_eq_none.mpr hraises]
    exact ⟨rfl, rfl, rfl⟩

/-- With a settlement time the two agree on the rows that the service has a formula for. -/
theorem settle_agrees_due (hrow : db.orders.get bo.id = some bo) (hpending : bo.result = .pending)
    (hsettle : bo.settlementAt ≠ none) (hcandle : retriedCandle fetch bo = some c) :
    SameSettlement bo ((settleOrder false fetch db bo).getD db)
      ((settleSingleTrade base db bo c).getD db) ↔
      bo.HasFormula := by
  rw [settleOrder_eq hsettle hcandle]
  rcases scriptVerdict_eq bo c with ⟨result, profit, hv, hscript, hformula⟩ | ⟨hv,
    hscript, hformula⟩ |
    ⟨hv, hformula, result, profit, hmem, hscript⟩
  · obtain ⟨db', hdb', hresult, hprofit, hbalance⟩ := columns_settleSingleTrade base hrow hv
    obtain ⟨hresult', hprofit', hbalance'⟩ := columns_refund (repairedRow bo c result profit)
      (round8 (bo.amount + profit)) hrow rfl
    rw [hscript, hdb']
    exact ⟨fun _ => hformula, fun _ => ⟨hresult'.trans hresult.symm, hprofit'.trans hprofit.symm,
      hbalance'.trans hbalance.symm⟩⟩
  · rw [hscript, settleSingleTrade_eq_none.mpr (verdict_raises.mp hv)]
    exact ⟨fun _ => hformula, fun _ => ⟨rfl, rfl, rfl⟩⟩
  · refine ⟨fun h => ?_, fun h => absurd h hformula⟩
    have hresult' :=
      (columns_refund (repairedRow bo c result profit) (round8 (bo.amount + profit)) hrow rfl).1
    have hresult := h.1
    rw [hscript, resultOf_settleSingleTrade base c hrow hpending, hv] at hresult
    have heq : some result = some BOResult.cancelled := hresult'.symm.trans hresult
    rw [Option.some.inj heq] at hmem
    simp at hmem

/-- An unfilled order: the script does not look at `position_closed` and gives nothing back. -/
theorem cancel_agrees_iff (hrow : db.orders.get bo.id = some bo) (hpending : bo.result = .pending) :
    SameCancel bo (cancelUnfilledOrder false db bo) (unfilledBranch base db bo) ↔
      bo.meOrderStatus ≠ some .pending ∨
        bo.positionClosed = false ∧ ∀ b ∈ db.balanceOf bo.botName, round8 (b + bo.amount) = b := by
  unfold cancelUnfilledOrder unfilledBranch
  by_cases hme : bo.meOrderStatus = some .pending
  · rw [if_neg (not_not.mpr hme), if_neg Bool.false_ne_true]
    have hcancelled :
        (db.setOrder { cancelledRow bo with meOrderStatus := some .canceled }).resultOf bo.id =
        some .cancelled := by
      unfold Database.resultOf
      rw [get_setOrder { cancelledRow bo with meOrderStatus := some .canceled } hrow rfl]
      rfl
    by_cases hclosed : bo.positionClosed = true
    · rw [if_pos hclosed]
      refine ⟨fun h => ?_, fun h => ?_⟩
      · have hbefore : db.resultOf bo.id = some .pending := by
          unfold Database.resultOf
          rw [hrow, Option.map_some, hpending]
        exact nomatch hcancelled.symm.trans (h.1.trans hbefore)
      · exact h.elim (fun h => absurd hme h) fun h =>
          absurd (hclosed.symm.trans h.1) Bool.noConfusion
    · rw [if_neg hclosed, if_pos hme]
      obtain ⟨hresult, -, hbalance⟩ :=
        columns_refund (cancelledRow (unfilledRow bo)) bo.amount hrow rfl
      have hresult' : (cancelWithRefund base db (unfilledRow bo)).resultOf bo.id =
          some .cancelled := by
        unfold cancelWithRefund Database.resultOf at *
        rw [recordUserBalance_orders]
        exact hresult
      have hbalance' : (cancelWithRefund base db (unfilledRow bo)).balanceOf bo.botName =
          (db.balanceOf bo.botName).map fun b => round8 (b + bo.amount) := by
        unfold cancelWithRefund
        rw [balanceOf_congr recordUserBalance_bots]
        exact hbalance
      have hkept : (db.setOrder { cancelledRow bo with
          meOrderStatus := some .canceled }).balanceOf bo.botName =
          db.balanceOf bo.botName := balanceOf_congr (setOrder_bots _)
      unfold SameCancel
      rw [hcancelled, hresult', hkept, hbalance']
      cases db.balanceOf bo.botName with
      | none => simp [hclosed]
      | some b => simp [hclosed, hme, eq_comm]
  · rw [if_pos hme, if_neg hme, ite_self]
    exact ⟨fun _ => .inl hme, fun _ => ⟨rfl, rfl⟩⟩

/-- **The repair script agrees with the service** on a pending row exactly as follows.
`settle_order` does when the row has a settlement time and the service a formula for it, or when
both raise on an exit without the price of its shares; `cancel_unfilled_order` does when the row is
not the engine's to fill, or when its position is not closed and giving the amount back changes no
balance. -/
theorem repair_agrees_iff (hrow : db.orders.get bo.id = some bo) (hpending : bo.result = .pending)
    (hcandle : retriedCandle fetch bo = some c) :
    (SameSettlement bo ((settleOrder false fetch db bo).getD db)
      ((settleSingleTrade base db bo c).getD db) ↔
      bo.settlementAt ≠ none ∧ bo.HasFormula ∨ bo.exitedUnfilled) ∧
    (SameCancel bo (cancelUnfilledOrder false db bo) (unfilledBranch base db bo) ↔
      bo.meOrderStatus ≠ some .pending ∨
        bo.positionClosed = false ∧ ∀ b ∈ db.balanceOf bo.botName, round8 (b + bo.amount) = b) := by
  refine ⟨?_, cancel_agrees_iff hrow hpending⟩
  by_cases hsettle : bo.settlementAt = none
  · rw [settle_agrees_skipped hrow hpending hsettle]
    exact ⟨.inr, fun h => h.resolve_left fun h => h.1 hsettle⟩
  · rw [settle_agrees_due hrow hpending hsettle hcandle]
    exact ⟨fun h => .inl ⟨hsettle, h⟩, fun h => h.elim (·.2) fun h =>
      .inl (Option.isSome_iff_ne_none.mp h.1)⟩

end

/-! ## Samples -/

/-- A bot with an order of `10` that never filled. -/
def stuckOrder : BinaryOption :=
  { id := 1, botName := "alpha", symbol := .btc, timeframe := .m5, forecast := .green, amount := 10,
    settlementAt := some 300, meOrderStatus := some .pending }

/-- The same order with its fill. -/
def filledOrder : BinaryOption := { stuckOrder with avgPrice := some (1 / 2), numShares := some 20 }

def stuckDb (bo : BinaryOption) : Database where
  bots := ⟨[{ botName := "alpha", apiKey := "a", initialBalance := 100, balance := 90 }], by simp⟩
  orders := ⟨[bo], nodup_one bo⟩
  users := ⟨[], List.nodup_nil⟩

/-- A green candle, which every request gets. -/
def greenCandle : Candle := ⟨100, 101⟩

/-- On the order with its fill both settle the same. -/
theorem repair_agrees_filled :
    SameSettlement filledOrder
      ((settleOrder false (fun _ _ => some greenCandle) (stuckDb filledOrder) filledOrder).getD
        (stuckDb filledOrder))
      ((settleSingleTrade (stuckDb filledOrder) (stuckDb filledOrder) filledOrder greenCandle).getD
        (stuckDb filledOrder)) :=
  (repair_agrees_iff rfl rfl rfl).1.mpr (.inl ⟨nofun, .inr ⟨nofun, nofun⟩⟩)

/-- **The script pays an order that never filled**: it wins its whole amount where the service gives
the amount back, and a cancel by hand gives nothing back. -/
theorem repair_pays_unfilled :
    let settled :=
  (settleOrder false (fun _ _ => some greenCandle) (stuckDb stuckOrder) stuckOrder).getD
      (stuckDb stuckOrder)
    let served := (settleSingleTrade (stuckDb stuckOrder)
      (stuckDb stuckOrder) stuckOrder greenCandle).getD
      (stuckDb stuckOrder)
    let cancelled := cancelUnfilledOrder false (stuckDb stuckOrder) stuckOrder
    let refunded := unfilledBranch (stuckDb stuckOrder) (stuckDb stuckOrder) stuckOrder
    (settled.resultOf 1 = some .win ∧ settled.balanceOf "alpha" = some 110 ∧
      served.resultOf 1 = some .cancelled ∧ served.balanceOf "alpha" = some 100 ∧
      ¬ SameSettlement stuckOrder settled served) ∧
    cancelled.balanceOf "alpha" = some 90 ∧ refunded.balanceOf "alpha" = some 100 ∧
      ¬ SameCancel stuckOrder cancelled refunded := by
  decide +kernel

end PolyArena
