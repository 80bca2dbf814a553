import PolyArena.Models

/-!
# Settlement

`services/settlement.py`: the candle decides a due order.  A function that can raise returns an
option; `none` is the exception, after which the caller's transaction is rolled back.  Candles come
from an external service: a `CandleFetch` says what each request returned.
-/

namespace PolyArena

open Rounding

/-- The `(open, close)` pair of a kline. -/
structure Candle where
  openPrice : ℚ
  closePrice : ℚ
  deriving DecidableEq, Repr

/-- The arguments `fetch_binance_candle` is called with, and the order it is called for. -/
structure CandleRequest where
  boId : ℕ
  symbol : BOSymbol
  timeframe : BOTimeframe
  settlementAt : Option Time
  deriving DecidableEq, Repr

/-- What `fetch_binance_candle` returned for a request, `none` on failure. -/
abbrev CandleFetch := CandleRequest → Option Candle

/-- The request for the candle that decides `bo`. -/
def BinaryOption.candleRequest (bo : BinaryOption) : CandleRequest :=
  ⟨bo.id, bo.symbol, bo.timeframe, bo.settlementAt⟩

/-- The direction of a candle; a doji counts as green. -/
def Candle.dir (c : Candle) : BOForecast :=
  if c.closePrice > c.openPrice then .green
  else if c.closePrice < c.openPrice then .red
  else .green

/-- Profit of `shares` held to the candle close: each pays 1 or nothing. -/
def binaryProfit (avg shares : ℚ) (won : Bool) : ℚ :=
  if won then round8 ((1 - avg) * shares) else round8 (-avg * shares)

/-- How `_settle_single_trade` decides an order. -/
inductive Verdict
  | raises
  | missingFill
  | settled (result : BOResult) (profit : ℚ)
  deriving DecidableEq, Repr

/-- The exit record `_settle_single_trade` uses: a TP or SL trigger with a price and a quantity. -/
def BinaryOption.shadowExit (bo : BinaryOption) : Option (ℚ × ℚ) :=
  match bo.exitTrigger, bo.exitPrice, bo.exitFilled with
  | some .tp, some price, some filled => some (price, filled)
  | some .sl, some price, some filled => some (price, filled)
  | _, _, _ => none

theorem BinaryOption.shadowExit_of_forceClose {bo : BinaryOption}
    (h : bo.exitTrigger = some .forceClose) :
    bo.shadowExit = none := by
  unfold shadowExit
  rw [h]

/-- The profit matrix of `_settle_single_trade`. -/
def verdict (bo : BinaryOption) (c : Candle) : Verdict :=
  let won := c.dir = bo.forecast
  match bo.shadowExit with
  | some (exitPrice, exitFilled) =>
    match bo.avgPrice with
    -- `bo.exit_price - bo.avg_price` on `None` raises
    | none => .raises
    | some avg =>
      let shadowProfit := round8 ((exitPrice - avg) * exitFilled)
      let remainder :=
        match bo.numShares with
        | none => 0
        | some n => if exitFilled < n then binaryProfit avg (n - exitFilled) won else 0
      let profit := shadowProfit + remainder
      .settled (if 0 ≤ profit then .win else .loss) profit
  | none =>
    match bo.avgPrice, bo.numShares with
    | some avg, some n => .settled (if won then .win else .loss) (binaryProfit avg n won)
    | _, _ => .missingFill

/-- The row of an order settled on the candle `c`. -/
def settledRow (bo : BinaryOption) (c : Candle) (result : BOResult) (profit : ℚ) (a : TraceAction) :
    BinaryOption :=
  { bo with
    result := result
    profit := some profit
    priceOpen := some c.openPrice
    priceClose := some c.closePrice }.appendTrace a

/-- The row of an order a settlement pass cancels. -/
def cancelledRow (bo : BinaryOption) : BinaryOption :=
  { bo with result := .cancelled, profit := some 0 }

/-- `_settle_single_trade` on the session state `db`, whose queries see `base`. -/
def settleSingleTrade (base db : Database) (bo : BinaryOption) (c : Candle) : Option Database :=
  match verdict bo c with
  | .raises => none
  | .missingFill =>
    let db₁ := db.setOrder (settledRow bo c .cancelled 0 .missingFillCancel)
    let db₂ := db₁.refundBot bo.botName bo.amount bo.id
    some (db₂.recordUserBalance base bo.botName (some bo.id) none)
  | .settled result profit =>
    let payout := round8 (bo.amount + profit)
    let db₁ := db.setOrder (settledRow bo c result profit .candleSettled)
    let db₂ := (db₁.refundBot bo.botName payout bo.id).pauseIfBroke bo.botName
    some (db₂.recordUserBalance base bo.botName (some bo.id) (some profit))

/-- What the settlement of one order does, for each verdict that does not raise. -/
inductive Settles (base db : Database) (bo : BinaryOption) (c : Candle) : Database → Prop
  | missingFill (hv : verdict bo c = .missingFill) :
      Settles base db bo c
        (((db.setOrder (settledRow bo c .cancelled 0 .missingFillCancel)).refundBot bo.botName
        bo.amount bo.id).recordUserBalance base bo.botName (some bo.id) none)
  | settled (result : BOResult) (profit : ℚ) (hv : verdict bo c = .settled result profit) :
      Settles base db bo c
        ((((db.setOrder (settledRow bo c result profit .candleSettled)).refundBot bo.botName
        (round8 (bo.amount + profit)) bo.id).pauseIfBroke bo.botName).recordUserBalance
        base bo.botName (some bo.id) (some profit))

theorem settles_of_some {base db db' : Database} {bo : BinaryOption} {c : Candle}
    (hs : settleSingleTrade base db bo c = some db') : Settles base db bo c db' := by
  unfold settleSingleTrade at hs
  cases hv : verdict bo c with
  | raises => simp [hv] at hs
  | missingFill =>
    simp only [hv, Option.some.injEq] at hs
    exact hs ▸ .missingFill hv
  | settled result profit =>
    simp only [hv, Option.some.injEq] at hs
    exact hs ▸ .settled result profit hv

/-- `CANCELLED` with a full refund of the amount, as the settlement passes write it. -/
def cancelWithRefund (base db : Database) (bo : BinaryOption) : Database :=
  let db₁ := (db.setOrder (cancelledRow bo)).refundBot bo.botName bo.amount bo.id
  db₁.recordUserBalance base bo.botName (some bo.id) none

/-- The row of an order the engine never filled, before it is cancelled. -/
def unfilledRow (bo : BinaryOption) : BinaryOption :=
  { bo with meOrderStatus := some .canceled }.appendTrace .unfilledCancel

/-- The body of the loop of `settle_pending_trades`. -/
def settlePendingOne (fetch : CandleFetch) (base db : Database) (bo : BinaryOption) :
    Option Database :=
  if bo.result ≠ .pending then some db
  -- market resolved: skipped here
  else if bo.positionClosed then some db
  else if bo.meOrderStatus = some .pending then
    some (cancelWithRefund base db (unfilledRow bo))
  else
    match fetch bo.candleRequest with
    | none => some db
    | some c => settleSingleTrade base db bo c

/-- The rows `settle_pending_trades` selects. -/
def isDue (now : Time) (bo : BinaryOption) : Bool :=
  bo.result = .pending ∧ ∃ t ∈ bo.settlementAt, t ≤ now

/-- One pass of `settle_pending_trades`, `none` when it raises before its commit. -/
def settlePendingTrades (now : Time) (fetch : CandleFetch) (db : Database) : Option Database :=
  (db.orders.rows.filter (isDue now)).foldlM (settlePendingOne fetch db) db

/-- The loop body of `sweep_stuck_orders` for orders with a settlement time. -/
def sweepStuckOne (fetch : CandleFetch) (base db : Database) (bo : BinaryOption) :
    Option Database :=
  if bo.result ≠ .pending then some db
  else
    match fetch bo.candleRequest with
    | some c => settleSingleTrade base db bo c
    | none => some (cancelWithRefund base db bo)

/-- The loop body of `sweep_stuck_orders` for orders without one. -/
def sweepOrphanOne (base db : Database) (bo : BinaryOption) : Option Database :=
  if bo.result ≠ .pending then some db else some (cancelWithRefund base db bo)

/-- Pending, with a settlement time that passed `STUCK_THRESHOLD` ago. -/
def isStuck (now : Time) (bo : BinaryOption) : Bool :=
  bo.result = .pending ∧ ∃ t ∈ bo.settlementAt, t ≤ now - STUCK_THRESHOLD

/-- Pending, without a settlement time, created `NULL_SETTLE_THRESHOLD` ago. -/
def isOrphaned (now : Time) (bo : BinaryOption) : Bool :=
  bo.result = .pending ∧ bo.settlementAt = none ∧
    ∃ t ∈ bo.createdAt, t ≤ now - NULL_SETTLE_THRESHOLD

/-- One pass of `sweep_stuck_orders`.  Its second query is emitted before anything is flushed, so
it selects from the committed rows as the first one does. -/
def sweepStuckOrders (now : Time) (fetch : CandleFetch) (db : Database) : Option Database := do
  let swept ← (db.orders.rows.filter (isStuck now)).foldlM (sweepStuckOne fetch db) db
  (db.orders.rows.filter (isOrphaned now)).foldlM (sweepOrphanOne db) swept

end PolyArena
