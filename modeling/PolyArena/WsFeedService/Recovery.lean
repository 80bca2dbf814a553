import PolyArena.OrderConsumer.Process
import PolyArena.WsFeedService.SessionLifecycle

/-!
# Recovery

`_recover_pending_orders` (`main.py`): at the start of the service the PENDING orders of the
database are queued again.  A recovered payload names a token and has no direction, unlike those of
the API.

1. `recoverOrder` is what recovery does with one row, `recoverPendingOrders` with all;
2. `processRecovered` is `_process_order` on a recovered payload.
-/

namespace PolyArena

open ShadowOrderbook

/-- The payload that recovery queues. -/
structure RecoveryPayload where
  boId : ℕ
  tokenId : String
  side : OrderSide := .buy
  price : ℚ
  quantity : ℚ
  limitPrice : Option ℚ
  tpPrice : Option ℚ
  slPrice : Option ℚ
  timeframe : BOTimeframe
  ttl : Option Time
  sessionId : SessionId
  prefilled : Bool := false
  prefilledAvgPrice : Option ℚ := none
  prefilledFilled : Option ℚ := none
  deriving DecidableEq, Repr

namespace BinaryOption

def hasBracket (bo : BinaryOption) : Bool := bo.tpPrice.isSome || bo.slPrice.isSome

def isLimit (bo : BinaryOption) : Bool := bo.limitPrice.isSome

/-- The two columns that a fill sets, when they are both set. -/
def fillData (bo : BinaryOption) : Option (ℚ × ℚ) :=
  match bo.avgPrice, bo.numShares with
  | some avgPrice, some numShares => some (avgPrice, numShares)
  | _, _ => none

/-- `is_unfilled`. -/
def isUnfilled (bo : BinaryOption) : Bool := bo.fillData.isNone

/-- `ttl_remaining`, at least one second. -/
def ttlRemaining (bo : BinaryOption) (now : Time) : Option Time :=
  match bo.ttl, bo.createdAt with
  | some ttl, some createdAt => some (max 1 (ttl - (now - createdAt)))
  | _, _ => none

/-- The orders that the query selects and the checks on the row let pass. -/
def isRecovered (bo : BinaryOption) (now : Time) : Bool :=
  bo.result = .pending && bo.exitTrigger.isNone &&
    (bo.hasBracket || bo.isLimit || bo.meOrderStatus = some .pending) &&
    !(bo.meOrderStatus = some .canceled || bo.meOrderStatus = some .filled) &&
    !(bo.isUnfilled && !bo.isLimit) &&
    (bo.ttlRemaining now).all fun ttl => 1 < ttl

/-- The combo whose token the order is for. -/
def combo (bo : BinaryOption) : Combo := ⟨bo.symbol, bo.timeframe, FORECAST_TO_DIR bo.forecast⟩

/-- The session of the order: its candle ends when the order settles. -/
def recoverySession (bo : BinaryOption) (now : Time) : SessionId where
  symbol := bo.symbol
  timeframe := bo.timeframe
  candleOpen :=
    match bo.settlementAt with
    | some settlementAt => ⌊settlementAt⌋ - TF_SECONDS bo.timeframe
    | none => currentCandleOpen bo.timeframe ⌊now⌋

/-- `is_already_filled`. -/
def isAlreadyFilled (bo : BinaryOption) : Bool := !bo.isUnfilled && !bo.isLimit && bo.hasBracket

/-- `rec_price` and `rec_quantity`. -/
def recoveryFill (bo : BinaryOption) : ℚ × ℚ :=
  match bo.fillData with
  | some fill => fill
  | none =>
    let limitPrice := bo.limitPrice.getD 0
    (limitPrice, round8 (bo.amount / limitPrice))

def recoveryPayload (bo : BinaryOption) (now : Time) (token : String) : RecoveryPayload where
  boId := bo.id
  tokenId := token
  price := bo.recoveryFill.1
  quantity := bo.recoveryFill.2
  limitPrice := bo.limitPrice
  tpPrice := bo.tpPrice
  slPrice := bo.slPrice
  timeframe := bo.timeframe
  ttl := bo.ttlRemaining now
  sessionId := bo.recoverySession now
  prefilled := bo.isAlreadyFilled
  prefilledAvgPrice := if bo.isAlreadyFilled then bo.avgPrice else none
  prefilledFilled := if bo.isAlreadyFilled then bo.numShares else none

/-- The session that recovery queues the order to, with the token it names. -/
def recoveryTarget (bo : BinaryOption) (now : Time) (r : TokenRegistry) :
    Option (SessionId × String) :=
  if bo.isRecovered now then (r.getTokenId bo.combo).map fun token =>
    (bo.recoverySession now, token)
  else none

end BinaryOption

/-- The loop body of `_recover_pending_orders`: a missing session is made of the registry's current
tokens. -/
def recoverOrder (m : SessionManager) (r : TokenRegistry) (now : Time) (bo : BinaryOption) :
    SessionManager × Option RecoveryPayload :=
  match bo.recoveryTarget now r with
  | none => (m, none)
  | some (id, token) =>
    (m.createSession id (r.currentTokens bo.symbol bo.timeframe) .active,
      some (bo.recoveryPayload now token))

/-- `_recover_pending_orders`: the manager afterwards, and the payloads in the order they are
queued. -/
def recoverPendingOrders (m : SessionManager) (r : TokenRegistry) (now : Time)
    (orders : List BinaryOption) :
    SessionManager × List RecoveryPayload :=
  orders.foldl (fun acc bo =>
    let recovered := recoverOrder acc.1 r now bo
    (recovered.1, acc.2 ++ recovered.2.toList)) (m, [])

/-! ## The consumer -/

namespace RecoveryPayload

/-- The callback for bracket exits is made for an order with a bracket. -/
def onBracketExit (p : RecoveryPayload) : Option ℕ :=
  if p.tpPrice.isSome || p.slPrice.isSome then some p.boId else none

/-- The order that `_process_standard_order` places.  The payload has no amount, no settlement time
and no slippage tolerance. -/
def orderRequest (p : RecoveryPayload) : OrderRequest where
  side := p.side
  price := p.limitPrice.getD p.price
  quantity := p.quantity
  tpPrice := QueuePayload.condition p.tpPrice
  slPrice := QueuePayload.condition p.slPrice
  timeframe := some p.timeframe
  ttlSeconds := p.ttl
  onBracketExit := p.onBracketExit
  orderType := if p.limitPrice.isNone then .market else .limit

/-- The order that `_process_prefilled_order` registers, without an expiry; `none` when the payload
cannot be read. -/
def prefilledRequest (p : RecoveryPayload) : Option PrefilledRequest :=
  match p.prefilledAvgPrice, p.prefilledFilled with
  | some avg, some filled =>
    if h : 0 ≤ filled then
      some {
        side := .buy
        avgEntryPrice := avg
        filled := filled
        filled_nonneg := h
        tpPrice := QueuePayload.condition p.tpPrice
        slPrice := QueuePayload.condition p.slPrice
        onBracketExit := p.onBracketExit }
    -- no row has a negative number of shares
    else none
  | _, _ => none

end RecoveryPayload

namespace FeedService

/-- `_process_order` on a recovered payload. -/
def processRecovered (s : FeedService) (now : Time) (p : RecoveryPayload) (id : OrderId) :
    FeedService :=
  match s.manager.getSession p.sessionId with
  | none => s.reject p.boId .sessionNotFound
  | some session =>
    if p.prefilled then
      match p.prefilledRequest with
      | none => s
      | some r => s.enterPrefilled now session p.tokenId p.boId r id
    else s.enterStandard now session p.tokenId p.boId p.orderRequest id

end FeedService

end PolyArena
