import PolyArena.Models
import PolyArena.Lib.SortedDict

/-!
# Virtual orders

`SimulatedOrder` of `matching_engine.py` with its properties, and what a book reports about it.  A
price ladder maps prices to sizes in ascending price order.
-/

namespace PolyArena

inductive OrderSide
  | buy
  | sell
  deriving DecidableEq, Repr

inductive OrderType
  | market
  | limit
  deriving DecidableEq, Repr

/-- Price to size. -/
abbrev Ladder := SortedDict ℚ ℚ

/-- A virtual order.  `onBracketExit` is the order row the exit callback reports to. -/
structure SimulatedOrder where
  orderId : OrderId
  side : OrderSide
  price : ℚ
  quantity : ℚ
  orderType : OrderType := .limit
  maxSlippage : Option ℚ := none
  maxCost : Option ℚ := none
  filled : ℚ := 0
  status : OrderStatus := .pending
  createdAt : Time
  expireAt : Option Time := none
  entryCost : ℚ := 0
  slippageRefPrice : Option ℚ := none
  fillLevels : List (ℚ × ℚ) := []
  tpPrice : Option ℚ := none
  slPrice : Option ℚ := none
  positionClosed : Bool := false
  exitPrice : Option ℚ := none
  exitTrigger : Option Trigger := none
  exitFilled : Option ℚ := none
  onBracketExit : Option ℕ := none
  deriving DecidableEq, Repr

/-- `status in (FILLED, CANCELED)`. -/
def OrderStatus.isTerminal : OrderStatus → Bool
  | .filled | .canceled => true
  | .pending | .partial_ => false

namespace SimulatedOrder

def remainingQty (o : SimulatedOrder) : ℚ := o.quantity - o.filled

/-- Weighted average entry price across all fill levels. -/
def avgEntryPrice (o : SimulatedOrder) : Option ℚ :=
  if 0 < o.filled then some (o.entryCost / o.filled) else none

def hasBracket (o : SimulatedOrder) : Bool := o.tpPrice.isSome || o.slPrice.isSome

def isEligibleForBracket (o : SimulatedOrder) : Bool :=
  o.side = .buy ∧ o.hasBracket ∧ 0 < o.filled ∧ ¬ o.positionClosed ∧
    o.status ∈ [.filled, .partial_, .canceled]

/-- `_update_status`. -/
def updateStatus (o : SimulatedOrder) : SimulatedOrder :=
  if o.quantity ≤ o.filled then { o with status := .filled }
  else if 0 < o.filled then { o with status := .partial_ }
  else o

/-- What one match does to the order: `match_qty` shares at `price`. -/
def addFill (o : SimulatedOrder) (price matchQty : ℚ) : SimulatedOrder :=
  { o with
    filled := o.filled + matchQty
    entryCost := o.entryCost + matchQty * price
    fillLevels := o.fillLevels ++ [(price, matchQty)] }.updateStatus

/-- `calculate_profit`. -/
def calculateProfit (o : SimulatedOrder) : Option ℚ :=
  match o.exitFilled, o.avgEntryPrice, o.exitPrice with
  | some exited, some avg, some price =>
    if exited ≤ 0 then none else some (exited * price - exited * avg)
  | _, _, _ => none

end SimulatedOrder

/-- `OrderStateChangeEvent.event_type`. -/
inductive StateChange
  | fill
  | cancel
  deriving DecidableEq, Repr

/-- Emitted when the fill or the status of a virtual order changes. -/
structure OrderStateChangeEvent where
  orderId : OrderId
  eventType : StateChange
  filled : ℚ
  avgEntryPrice : Option ℚ
  status : OrderStatus
  cancelReason : Option CancelReason := none
  fillLevels : List (ℚ × ℚ) := []
  deriving DecidableEq, Repr

/-- The outcome of one bracket exit. -/
structure BracketFillResult where
  orderId : OrderId
  trigger : Trigger
  triggerPrice : Option ℚ
  marketBid : ℚ
  qtyToClose : ℚ
  qtyExited : ℚ
  avgExitPrice : ℚ
  levelsConsumed : ℕ
  fillLevels : List (ℚ × ℚ)
  timestamp : Time
  deriving DecidableEq, Repr

structure LastTrade where
  price : ℚ
  size : ℚ
  side : String
  timestamp : Time
  deriving DecidableEq, Repr

/-- `candle_expire_at`: the close of the candle that contains `now`. -/
def candleExpireAt (timeframe : BOTimeframe) (now : Time) : Time :=
  let period := TF_SECONDS timeframe
  ⌊now / period⌋ * period + period

end PolyArena
