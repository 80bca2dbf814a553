import PolyArena.MatchingEngine.Matching

/-!
# The shadow orderbook

`ShadowOrderbook` of `matching_engine.py`: one function per method, from the book to the book.  What
a method does under the book's lock happens at one instant `now`.  The state-change events a method
collected are returned; they are delivered to the callbacks after the lock is released.

Two fields are not in the source.  `history` lists what happened to the book, newest first: the
levels the feed set and every fill; no function reads it.  `pruned` keeps the orders that left the
list, which are objects that the caller of a placement may still hold.
-/

namespace PolyArena

inductive BookSide
  | bid
  | ask
  deriving DecidableEq, Repr

/-- A price level of the feed.  Prices of outcome shares are positive. -/
structure FeedLevel where
  price : ℚ
  size : ℚ
  price_pos : 0 < price

/-- One entry of `changes`. -/
structure FeedChange extends FeedLevel where
  side : BookSide

/-- What happened to a book. -/
inductive BookRecord
  /-- the feed set a level; size `0` removed it -/
  | set (side : BookSide) (price size : ℚ)
  /-- every level was set to zero -/
  | cleared
  | placed (orderId : OrderId)
  | fill (orderId : OrderId) (side : OrderSide) (price qty : ℚ) (time : Time)
  | prefill (orderId : OrderId) (price qty : ℚ)
  | exitFill (orderId : OrderId) (price qty : ℚ) (time : Time)
  deriving DecidableEq, Repr

structure ShadowOrderbook where
  tokenId : String
  bids : Ladder := ∅
  asks : Ladder := ∅
  depthCache : List ((BookSide × ℕ) × List (ℚ × ℚ)) := []
  rawBids : Ladder := ∅
  rawAsks : Ladder := ∅
  lastTrade : Option LastTrade := none
  lastUpdate : Option Time := none
  virtualOrders : List SimulatedOrder := []
  bracketLog : List BracketFillResult := []
  cleanupCounter : ℕ := 0
  expired : Bool := false
  lastReported : SortedDict OrderId (ℚ × OrderStatus) := ∅
  stateChangeCallbacks : ℕ := 0
  pruned : List SimulatedOrder := []
  history : List BookRecord := []

namespace ShadowOrderbook

/-! ## Feed -/

/-- `bids[price] = size` for the entries of positive size. -/
def fillLadder (entries : List FeedLevel) : Ladder :=
  entries.foldl (fun l e => if 0 < e.size then l.set e.price e.size else l) ∅

def setRecords (side : BookSide) (entries : List FeedLevel) (h : List BookRecord) :
    List BookRecord :=
  entries.foldl (fun h e => if 0 < e.size then .set side e.price e.size :: h else h) h

/-- `apply_snapshot`. -/
def applySnapshot (now : Time) (bids asks : List FeedLevel) (b : ShadowOrderbook) :
    ShadowOrderbook :=
  { b with
    bids := fillLadder bids
    asks := fillLadder asks
    depthCache := []
    rawBids := fillLadder bids
    rawAsks := fillLadder asks
    lastUpdate := some now
    history := setRecords .ask asks (setRecords .bid bids (.cleared :: b.history)) }

/-- `target[price] = size`, or `target.pop(price, None)`. -/
def putLevel (l : Ladder) (e : FeedLevel) : Ladder :=
  if e.size ≤ 0 then l.erase e.price else l.set e.price e.size

/-- The loop body of `apply_changes`. -/
def applyChange (b : ShadowOrderbook) (ch : FeedChange) : ShadowOrderbook :=
  let b := { b with history := .set ch.side ch.price (max 0 ch.size) :: b.history }
  match ch.side with
  | .bid => { b with
      bids := putLevel b.bids ch.toFeedLevel, rawBids := putLevel b.rawBids ch.toFeedLevel }
  | .ask => { b with
      asks := putLevel b.asks ch.toFeedLevel, rawAsks := putLevel b.rawAsks ch.toFeedLevel }

/-- `apply_changes`. -/
def applyChanges (now : Time) (changes : List FeedChange) (b : ShadowOrderbook) :
    ShadowOrderbook :=
  { changes.foldl applyChange { b with depthCache := [] } with lastUpdate := some now }

/-- `record_trade`. -/
def recordTrade (now : Time) (price size : ℚ) (side : String) (b : ShadowOrderbook) :
    ShadowOrderbook :=
  { b with lastTrade := some ⟨price, size, side, now⟩ }

/-! ## Queries -/

def bestAsk (b : ShadowOrderbook) : Option ℚ := b.asks.peekFirst.map Prod.fst

def bestBid (b : ShadowOrderbook) : Option ℚ := b.bids.peekLast.map Prod.fst

/-- The first `levels` levels of the shadow ladder, best first.  `[-0:]` is the whole list. -/
def topLevels (b : ShadowOrderbook) (side : BookSide) (levels : ℕ) : List (ℚ × ℚ) :=
  match side with
  | .bid => if levels = 0 then b.bids.items.reverse else b.bids.items.reverse.take levels
  | .ask => b.asks.items.take levels

/-- `depth`: cached until the book changes. -/
def depth (b : ShadowOrderbook) (side : BookSide) (levels : ℕ) :
    List (ℚ × ℚ) × ShadowOrderbook :=
  match b.depthCache.lookup (side, levels) with
  | some cached => (cached, b)
  | none =>
    let result := b.topLevels side levels
    (result, { b with depthCache := ((side, levels), result) :: b.depthCache })

/-- `is_stale`. -/
def isStale (now maxAge : Time) (b : ShadowOrderbook) : Bool :=
  match b.lastUpdate with
  | none => true
  | some t => maxAge < now - t

/-! ## Matching -/

/-- The slippage set-up of `_match_order`: the reference price is locked at the first match with
something to match against. -/
def lockSlippage (b : ShadowOrderbook) (o : SimulatedOrder) : SimulatedOrder × Option ℚ :=
  match o.orderType with
  | .limit => (o, none)
  | .market =>
    let slippage := o.maxSlippage.getD ME_DEFAULT_SLIPPAGE
    match o.side with
    | .buy =>
      match b.bestAsk with
      | none => (o, none)
      | some best =>
        let ref := o.slippageRefPrice.getD best
        ({ o with slippageRefPrice := some ref }, some (ref * (1 + slippage)))
    | .sell =>
      match b.bestBid with
      | none => (o, none)
      | some best =>
        let ref := o.slippageRefPrice.getD best
        ({ o with slippageRefPrice := some ref }, some (ref * (1 - slippage)))

def fillRecords (now : Time) (o : SimulatedOrder) (fills : List (ℚ × ℚ)) (h : List BookRecord) :
    List BookRecord :=
  fills.foldl (fun h f => .fill o.orderId o.side f.1 f.2 now :: h) h

/-- `_match_order`: the book and the order after it. -/
def matchOrder (now : Time) (b : ShadowOrderbook) (o : SimulatedOrder) :
    ShadowOrderbook × SimulatedOrder :=
  let (o, slippageLimit) := b.lockSlippage o
  match o.side with
  | .buy =>
    let s := sweepAsks slippageLimit b.asks.keys b.asks o
    ({ b with
      depthCache := []
      asks := s.ladder
      history := fillRecords now o s.fills b.history }, s.order)
  | .sell =>
    let s := sweepBids slippageLimit b.bids.keys.reverse b.bids o
    ({ b with
      depthCache := []
      bids := s.ladder
      history := fillRecords now o s.fills b.history }, s.order)

/-- `bool(self.asks)` for a BUY, `bool(self.bids)` for a SELL. -/
def hadLiquidity (b : ShadowOrderbook) (o : SimulatedOrder) : Bool :=
  match o.side with
  | .buy => !b.asks.isEmpty
  | .sell => !b.bids.isEmpty

/-- MARKET orders are Immediate-Or-Cancel once they met a populated book. -/
def iocCancel (hadLiquidity : Bool) (o : SimulatedOrder) : SimulatedOrder :=
  if o.orderType = .market ∧ o.status ≠ .filled ∧ (hadLiquidity = true ∨ 0 < o.filled) then
    { o with status := .canceled }
  else o

/-- Match one order and cancel what a MARKET order leaves. -/
def matchAndCancel (now : Time) (b : ShadowOrderbook) (o : SimulatedOrder) :
    ShadowOrderbook × SimulatedOrder :=
  let r := matchOrder now b o
  (r.1, iocCancel (b.hadLiquidity o) r.2)

/-- The matching loop of `run_matching`. -/
def matchOrders (now : Time) : ShadowOrderbook → List SimulatedOrder →
    ShadowOrderbook × List SimulatedOrder
  | b, [] => (b, [])
  | b, o :: rest =>
    let r := if o.status.isTerminal then (b, o) else matchAndCancel now b o
    let s := matchOrders now r.1 rest
    (s.1, r.2 :: s.2)

/-! ## Bracket exits -/

def exitRecords (now : Time) (orderId : OrderId) (levels : List (ℚ × ℚ)) (h : List BookRecord) :
    List BookRecord :=
  levels.foldl (fun h f => .exitFill orderId f.1 f.2 now :: h) h

/-- `_execute_bracket_exit`. -/
def executeBracketExit (now : Time) (b : ShadowOrderbook) (o : SimulatedOrder) (marketBid : ℚ)
    (trigger : Trigger) : ShadowOrderbook × SimulatedOrder × BracketFillResult :=
  let alreadyExited := o.exitFilled.getD 0
  let qtyToClose := o.filled - alreadyExited
  let w := walkExit qtyToClose b.bids.keys.reverse ⟨b.bids, 0, 0, []⟩
  let avgExit := if 0 < w.qtyExited then w.totalValue / w.qtyExited else marketBid
  let totalExited := alreadyExited + w.qtyExited
  let cumulativeAvg :=
    match o.exitPrice with
    | some prev =>
      if 0 < alreadyExited then
        if 0 < totalExited then (prev * alreadyExited + w.totalValue) / totalExited else avgExit
      else avgExit
    | none => avgExit
  ({ b with
      depthCache := []
      bids := w.bids
      history := exitRecords now o.orderId w.levels b.history },
    { o with
      positionClosed := o.filled ≤ totalExited
      exitPrice := some cumulativeAvg
      exitTrigger := some trigger
      exitFilled := some totalExited },
    { orderId := o.orderId
      trigger := trigger
      triggerPrice := if trigger = .tp then o.tpPrice else o.slPrice
      marketBid := marketBid
      qtyToClose := qtyToClose
      qtyExited := w.qtyExited
      avgExitPrice := avgExit
      levelsConsumed := w.levels.length
      fillLevels := w.levels
      timestamp := now })

/-- The condition of the order that `bestBid` meets; the stop loss is looked at second. -/
def bracketTrigger (o : SimulatedOrder) (bestBid : ℚ) : Option Trigger :=
  if ∃ tp ∈ o.tpPrice, tp ≤ bestBid then some .tp
  else if ∃ sl ∈ o.slPrice, bestBid ≤ sl then some .sl
  else none

/-- The bracket check of one order against `bestBid`. -/
def checkBracket (now : Time) (bestBid : ℚ) (b : ShadowOrderbook) (o : SimulatedOrder) :
    ShadowOrderbook × SimulatedOrder × List BracketFillResult :=
  if o.isEligibleForBracket then
    match bracketTrigger o bestBid with
    | none => (b, o, [])
    | some trigger =>
      let (b, o, result) := executeBracketExit now b o bestBid trigger
      ({ b with bracketLog := b.bracketLog ++ [result] }, o, [result])
  else (b, o, [])

/-- The loop of `monitor_bracket_orders`. -/
def monitorOrders (now : Time) (bestBid : ℚ) : ShadowOrderbook → List SimulatedOrder →
    ShadowOrderbook × List SimulatedOrder × List BracketFillResult
  | b, [] => (b, [], [])
  | b, o :: rest =>
    let r := checkBracket now bestBid b o
    let s := monitorOrders now bestBid r.1 rest
    (s.1, r.2.1 :: s.2.1, r.2.2 ++ s.2.2)

/-- `monitor_bracket_orders`. -/
def monitorBracketOrders (now : Time) (b : ShadowOrderbook) :
    ShadowOrderbook × List BracketFillResult :=
  match b.bestBid with
  | none => (b, [])
  | some bestBid =>
    let r := monitorOrders now bestBid b b.virtualOrders
    ({ r.1 with virtualOrders := r.2.1 }, r.2.2)

/-- `force_close_at_market`. -/
def forceCloseAtMarket (now : Time) (orderId : OrderId) (b : ShadowOrderbook) :
    ShadowOrderbook × Option BracketFillResult :=
  match b.virtualOrders.find? fun o => o.orderId = orderId with
  | none => (b, none)
  | some o =>
    if o.filled ≤ 0 ∨ o.positionClosed then (b, none)
    else
      match b.bestBid with
      | none => (b, none)
      | some bestBid =>
        let (b', o', result) := executeBracketExit now b o bestBid .forceClose
        ({ b' with
            virtualOrders := b.virtualOrders.map fun x => if x.orderId = orderId then o' else x
            bracketLog := b'.bracketLog ++ [result] }, some result)

/-! ## State changes -/

/-- The loop body of `collect_state_changes`. -/
def collectOrder (reported : SortedDict OrderId (ℚ × OrderStatus)) (o : SimulatedOrder) :
    SortedDict OrderId (ℚ × OrderStatus) × SimulatedOrder × List OrderStateChangeEvent :=
  let (prevFilled, prevStatus) := (reported.get? o.orderId).getD (0, .pending)
  let (o', fillEvents) :=
    if prevFilled < o.filled then
      ({ o with fillLevels := [] },
        [{ orderId := o.orderId
           eventType := .fill
           filled := o.filled
           avgEntryPrice := o.avgEntryPrice
           status := o.status
           fillLevels := o.fillLevels }])
    else (o, [])
  let cancelEvents :=
    if o.status = .canceled ∧ prevStatus ≠ .canceled then
      [{ orderId := o.orderId
         eventType := .cancel
         filled := o.filled
         avgEntryPrice := o.avgEntryPrice
         status := o.status
         cancelReason := some .ttlExpired }]
    else []
  (reported.set o.orderId (o.filled, o.status), o', fillEvents ++ cancelEvents)

def collectOrders : SortedDict OrderId (ℚ × OrderStatus) → List SimulatedOrder →
    SortedDict OrderId (ℚ × OrderStatus) × List SimulatedOrder × List OrderStateChangeEvent
  | reported, [] => (reported, [], [])
  | reported, o :: rest =>
    let r := collectOrder reported o
    let s := collectOrders r.1 rest
    (s.1, r.2.1 :: s.2.1, r.2.2 ++ s.2.2)

/-- `collect_state_changes`. -/
def collectStateChanges (b : ShadowOrderbook) : ShadowOrderbook × List OrderStateChangeEvent :=
  let r := collectOrders b.lastReported b.virtualOrders
  let liveIds := b.virtualOrders.map SimulatedOrder.orderId
  ({ b with
      virtualOrders := r.2.1
      lastReported := r.1.filterKeys fun k => k ∈ liveIds }, r.2.2)

/-- `seed_last_reported`. -/
def seedLastReported (orderId : OrderId) (filled : ℚ) (status : OrderStatus)
    (b : ShadowOrderbook) : ShadowOrderbook :=
  { b with lastReported := b.lastReported.set orderId (filled, status) }

/-- `register_state_change_callback`. -/
def registerStateChangeCallback (b : ShadowOrderbook) : ShadowOrderbook :=
  { b with stateChangeCallbacks := b.stateChangeCallbacks + 1 }

/-! ## Expiry, cancels and pruning -/

/-- The loop body of `_expire_pending_orders`, `none` when the order is left alone. -/
def expireOrder (now : Time) (o : SimulatedOrder) : Option SimulatedOrder :=
  if ∃ t ∈ o.expireAt, t ≤ now then
    match o.status with
    | .pending => some { o with status := .canceled }
    | .partial_ => some { o with quantity := o.filled, status := .canceled }
    | .filled => if o.positionClosed then none else some { o with positionClosed := true }
    | .canceled => none
  else none

/-- `_expire_pending_orders`. -/
def expirePendingOrders (now : Time) (b : ShadowOrderbook) :
    ShadowOrderbook × List SimulatedOrder :=
  ({ b with virtualOrders := b.virtualOrders.map fun o => (expireOrder now o).getD o },
    b.virtualOrders.filterMap (expireOrder now))

/-- `order.status = CANCELED` unless the order is terminal. -/
def cancelOpen (o : SimulatedOrder) : SimulatedOrder :=
  if o.status.isTerminal then o else { o with status := .canceled }

/-- `cancel_order`. -/
def cancelOrder (orderId : OrderId) (b : ShadowOrderbook) :
    ShadowOrderbook × Option SimulatedOrder :=
  match b.virtualOrders.find? fun o => o.orderId = orderId with
  | none => (b, none)
  | some o =>
    if o.status.isTerminal then (b, none)
    else
      ({ b with
          virtualOrders := b.virtualOrders.map fun x =>
            if x.orderId = orderId then cancelOpen o else x }, some (cancelOpen o))

/-- `cancel_all_virtual`. -/
def cancelAllVirtual (b : ShadowOrderbook) : ShadowOrderbook :=
  { b with virtualOrders := b.virtualOrders.map cancelOpen }

/-- `_is_prunable`. -/
def isPrunable (now : Time) (o : SimulatedOrder) : Bool :=
  match o.status with
  | .canceled =>
    !o.isEligibleForBracket && decide (PRUNE_GRACE_S < now - o.expireAt.getD o.createdAt)
  | .filled => o.positionClosed
  | _ => false

def BRACKET_LOG_MAX : ℕ := 500

/-- `_prune_terminal_orders`. -/
def pruneTerminalOrders (now : Time) (b : ShadowOrderbook) : ShadowOrderbook :=
  { b with
    virtualOrders := b.virtualOrders.filter fun o => !isPrunable now o
    pruned := b.pruned ++ b.virtualOrders.filter fun o => isPrunable now o
    bracketLog := b.bracketLog.drop (b.bracketLog.length - BRACKET_LOG_MAX) }

/-! ## The matching pass -/

/-- The part of `run_matching` before the state changes are collected. -/
def matchPass (now : Time) (b : ShadowOrderbook) : ShadowOrderbook :=
  let b := (expirePendingOrders now { b with depthCache := [] }).1
  if b.expired ∨ b.isStale now ME_BOOK_STALE_MAX_S then b
  else
    let r := matchOrders now b b.virtualOrders
    { r.1 with virtualOrders := r.2 }

/-- The periodic cleanup of `run_matching`. -/
def cleanup (now : Time) (b : ShadowOrderbook) : ShadowOrderbook :=
  if ME_CLEANUP_INTERVAL ≤ b.cleanupCounter + 1 then
    pruneTerminalOrders now { b with cleanupCounter := 0 }
  else { b with cleanupCounter := b.cleanupCounter + 1 }

/-- `run_matching`. -/
def runMatching (now : Time) (b : ShadowOrderbook) :
    ShadowOrderbook × List OrderStateChangeEvent :=
  let r := (matchPass now b).collectStateChanges
  (cleanup now r.1, r.2)

/-- The part of `expire_book` before the state changes are collected. -/
def clearBook (b : ShadowOrderbook) : ShadowOrderbook :=
  { b with
    expired := true
    virtualOrders := b.virtualOrders.map cancelOpen
    bids := ∅
    asks := ∅
    rawBids := ∅
    rawAsks := ∅
    depthCache := []
    history := .cleared :: b.history }

/-- `expire_book`. -/
def expireBook (b : ShadowOrderbook) : ShadowOrderbook × List OrderStateChangeEvent :=
  b.clearBook.collectStateChanges

/-! ## Placement -/

/-- The arguments of `place_virtual_order`. -/
structure OrderRequest where
  side : OrderSide
  price : ℚ
  quantity : ℚ
  tpPrice : Option ℚ := none
  slPrice : Option ℚ := none
  timeframe : Option BOTimeframe := none
  ttlSeconds : Option Time := none
  onBracketExit : Option ℕ := none
  orderType : OrderType := .limit
  maxSlippage : Option ℚ := none
  maxCost : Option ℚ := none
  deriving DecidableEq, Repr

/-- The expiry of a new order: the user's TTL, else the candle close, else none. -/
def OrderRequest.expireAt (now : Time) (r : OrderRequest) : Option Time :=
  match r.ttlSeconds, r.timeframe with
  | some ttl, _ => some (now + ttl)
  | none, some timeframe => some (candleExpireAt timeframe now)
  | none, none => none

/-- The order `place_virtual_order` creates, under the fresh id `orderId`. -/
def OrderRequest.newOrder (now : Time) (orderId : OrderId) (r : OrderRequest) : SimulatedOrder :=
  { orderId := orderId
    side := r.side
    price := r.price
    quantity := r.quantity
    orderType := r.orderType
    maxSlippage := r.maxSlippage
    maxCost := r.maxCost
    createdAt := now
    expireAt := r.expireAt now
    tpPrice := r.tpPrice
    slPrice := r.slPrice
    onBracketExit := r.onBracketExit }

/-- The bracket check of a new order. -/
def checkNewBracket (now : Time) (b : ShadowOrderbook) (o : SimulatedOrder) :
    ShadowOrderbook × SimulatedOrder × List BracketFillResult :=
  match b.bestBid with
  | none => (b, o, [])
  | some bestBid => checkBracket now bestBid b o

/-- What `place_virtual_order` returns. -/
structure Placement where
  book : ShadowOrderbook
  order : SimulatedOrder
  bracketResults : List BracketFillResult
  events : List OrderStateChangeEvent

/-- The part of `place_virtual_order` before the state changes are collected: the order is matched
and its bracket is checked. -/
def enterOrder (now : Time) (orderId : OrderId) (r : OrderRequest) (b : ShadowOrderbook) :
    ShadowOrderbook × List BracketFillResult :=
  let (b', o) := matchAndCancel now { b with history := .placed orderId :: b.history }
    (r.newOrder now orderId)
  let (b', o, results) := checkNewBracket now b' o
  ({ b' with virtualOrders := b.virtualOrders ++ [o] }, results)

/-- `place_virtual_order`.  The returned order is the object in the book, as the state-change
collection left it. -/
def placeVirtualOrder (now : Time) (orderId : OrderId) (r : OrderRequest) (b : ShadowOrderbook) :
    Placement :=
  let (b, results) := b.enterOrder now orderId r
  let (b, events) := b.collectStateChanges
  ⟨b, b.virtualOrders.getLastD (r.newOrder now orderId), results, events⟩

/-- The arguments of `place_prefilled_bracket_order`.  Nobody registers a negative quantity. -/
structure PrefilledRequest where
  side : OrderSide
  avgEntryPrice : ℚ
  filled : ℚ
  filled_nonneg : 0 ≤ filled
  tpPrice : Option ℚ := none
  slPrice : Option ℚ := none
  onBracketExit : Option ℕ := none
  expireAt : Option Time := none

def PrefilledRequest.newOrder (now : Time) (orderId : OrderId) (r : PrefilledRequest) :
    SimulatedOrder :=
  { orderId := orderId
    side := r.side
    price := r.avgEntryPrice
    quantity := r.filled
    orderType := .market
    filled := r.filled
    status := .filled
    createdAt := now
    entryCost := r.avgEntryPrice * r.filled
    tpPrice := r.tpPrice
    slPrice := r.slPrice
    expireAt := r.expireAt
    onBracketExit := r.onBracketExit }

/-- `place_prefilled_bracket_order`: no matching, and no state changes are collected. -/
def placePrefilledBracketOrder (now : Time) (orderId : OrderId) (r : PrefilledRequest)
    (b : ShadowOrderbook) : Placement :=
  let records := [.prefill orderId r.avgEntryPrice r.filled, .placed orderId]
  let (b, o, results) := checkNewBracket now { b with history := records ++ b.history }
    (r.newOrder now orderId)
  ⟨{ b with virtualOrders := b.virtualOrders ++ [o] }, o, results, []⟩

/-! ## The object of an order -/

/-- The order object that a placement returned, as the book's operations left it. -/
def orderObject (id : OrderId) (b : ShadowOrderbook) : Option SimulatedOrder :=
  (b.virtualOrders ++ b.pruned).find? fun o => o.orderId = id

/-- `order._fill_levels = []`.  Nobody reads the levels of a pruned order. -/
def resetFillLevels (id : OrderId) (b : ShadowOrderbook) : ShadowOrderbook :=
  { b with virtualOrders := b.virtualOrders.map fun o =>
      if o.orderId = id then { o with fillLevels := [] } else o }

/-! ## What sessions do to a book -/

/-- The `best_bid_ask` event without changes: the book counts as updated. -/
def touch (now : Time) (b : ShadowOrderbook) : ShadowOrderbook := { b with lastUpdate := some now }

/-- `_handle_market_resolved` on one order. -/
def resolveOrder (o : SimulatedOrder) : SimulatedOrder :=
  if o.positionClosed then o
  else { cancelOpen o with tpPrice := none, slPrice := none, positionClosed := true }

/-- `_handle_market_resolved` on one book. -/
def handleMarketResolved (b : ShadowOrderbook) : ShadowOrderbook :=
  { b with virtualOrders := b.virtualOrders.map resolveOrder }

/-- `SessionEngine.expire_all_pending` on one book. -/
def expireAllPending (now : Time) (b : ShadowOrderbook) :
    ShadowOrderbook × List OrderStateChangeEvent :=
  let r := expirePendingOrders now b
  if r.2.isEmpty then (r.1, []) else r.1.collectStateChanges

/-- The part of `shutdown` about one book. -/
def shutdownBook (b : ShadowOrderbook) : ShadowOrderbook × List OrderStateChangeEvent :=
  b.cancelAllVirtual.collectStateChanges

end ShadowOrderbook

end PolyArena
