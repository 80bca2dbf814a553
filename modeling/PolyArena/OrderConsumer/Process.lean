import PolyArena.Api.CreateBo
import PolyArena.OrderConsumer.Session

/-!
# Processing the queue

`OrderConsumer._process_order` and what it calls, run without interruption, for the payloads that
`create_bo` queues: they name a direction and an order row.

1. `processOrder` refuses an order whose session or token it cannot resolve;
2. `processPrefilledOrder` registers an order that is already filled, for its bracket;
3. `processStandardOrder` places an order to be matched.

An exception other than the one for an expired book is logged, and the order is gone.
-/

namespace PolyArena

open ShadowOrderbook

/-! ## What a payload asks for -/

namespace QueuePayload

def hasBracket (m : QueuePayload) : Bool := m.tpPrice.isSome || m.slPrice.isSome

/-- The callback for bracket exits is made for an order with a bracket. -/
def onBracketExit (m : QueuePayload) : Option ℕ := if m.hasBracket then some m.boId else none

/-- `Decimal(str(price)) if price else None`. -/
def condition (price : Option ℚ) : Option ℚ := price.filter fun p => p ≠ 0

/-- The time to live: that of an order for a later session lasts until the session settles. -/
def ttlSeconds (m : QueuePayload) (now : Time) : Option Time :=
  match m.settlementAt with
  | none => m.ttl.map Nat.cast
  | some settlementAt =>
    if 1 ≤ m.sessionOffset then
      let minTtl := max (settlementAt - now) 1
      some (match m.ttl with
        | some ttl => max ttl minTtl
        | none => minTtl)
    else m.ttl.map Nat.cast

/-- `OrderSide(data.get("side", "BUY"))`. -/
def orderSide (m : QueuePayload) : Option OrderSide :=
  if m.side = "BUY" then some .buy else if m.side = "SELL" then some .sell else none

/-- The quantity of a MARKET order is recomputed from the engine's best ask. -/
def marketQuantity (m : QueuePayload) (bestAsk : Option ℚ) (quantity : ℚ) : ℚ :=
  match m.amount, bestAsk with
  | some amount, some ask => if 0 < ask then amount / ask else quantity
  | _, _ => quantity

/-- The order `_process_standard_order` places; `none` when the payload cannot be read. -/
def orderRequest (m : QueuePayload) (now : Time) (bestAsk : Option ℚ) : Option OrderRequest :=
  match m.orderSide, m.price, m.quantity with
  | some side, some price, some quantity =>
    let isMarket := m.limitPrice.isNone
    some {
      side := side
      price := m.limitPrice.getD price
      quantity := if isMarket then m.marketQuantity bestAsk quantity else quantity
      tpPrice := condition m.tpPrice
      slPrice := condition m.slPrice
      timeframe := some m.timeframe
      ttlSeconds := m.ttlSeconds now
      onBracketExit := m.onBracketExit
      orderType := if isMarket then .market else .limit
      maxSlippage := m.slippageTolerance
      maxCost := if isMarket ∧ side = .buy then m.amount else none }
  | _, _, _ => none

/-- The order `_process_prefilled_order` registers; `none` when the payload cannot be read. -/
def prefilledRequest (m : QueuePayload) : Option PrefilledRequest :=
  match m.prefilledAvgPrice, m.prefilledFilled with
  | some avg, some filled =>
    if h : 0 ≤ filled then
      some {
        side := .buy
        avgEntryPrice := avg
        filled := filled
        filled_nonneg := h
        tpPrice := condition m.tpPrice
        slPrice := condition m.slPrice
        onBracketExit := m.onBracketExit
        expireAt := m.settlementAt }
    -- the API queues no negative quantity
    else none
  | _, _ => none

end QueuePayload

/-! ## The service -/

/-- The sessions and the consumer. -/
structure FeedService where
  manager : SessionManager
  consumer : OrderConsumer := {}

namespace FeedService

def reject (s : FeedService) (boId : ℕ) (reason : CancelReason) : FeedService :=
  { s with consumer := s.consumer.reject boId reason }

/-- `on_bracket_exit(br)` for the exits of a placement. -/
def publishExits (s : FeedService) (now : Time) (boId : ℕ) (results : List BracketFillResult) :
    FeedService :=
  { s with
    consumer := results.foldl (fun c r => c.publish (.exit (r.exitMessage now boId))) s.consumer }

/-- Enter the order in `_order_to_bo`, seed the last report of the token's book, and attach the
callback to it. -/
def track (s : FeedService) (token : String) (boId : ℕ) (o : SimulatedOrder) : FeedService :=
  let c := s.consumer.register o.orderId boId
  match s.manager.getBook token with
  | none => { s with consumer := c }
  | some (session, dir, b) =>
    let b := b.seedLastReported o.orderId o.filled o.status
    if token ∈ c.registeredBooks then ⟨s.manager.setBook session dir b, c⟩
    else
      ⟨s.manager.setBook session dir b.registerStateChangeCallback,
        { c with registeredBooks := token :: c.registeredBooks }⟩

/-- `_process_prefilled_order`. -/
def processPrefilledOrder (s : FeedService) (now : Time) (session : SessionEngine) (token : String)
    (m : QueuePayload) (id : OrderId) : FeedService :=
  match m.prefilledRequest with
  | none => s
  | some r =>
    match session.bookForPrefilled token with
    | none => s.reject m.boId .tokenRotated
    | some (dir, b) =>
      let p := b.placePrefilledBracketOrder now id r
      let s := { s with manager := s.manager.setBook session dir p.book }
      (s.track token m.boId p.order).publishExits now m.boId p.bracketResults

/-- `_process_standard_order`. -/
def processStandardOrder (s : FeedService) (now : Time) (session : SessionEngine) (token : String)
    (m : QueuePayload) (id : OrderId) : FeedService :=
  match m.orderRequest now (s.manager.bestAsk now token) with
  | none => s
  | some r =>
    match session.bookForOrder token with
    | none => s.reject m.boId .tokenRotated
    | some (dir, b) =>
      let p := b.placeVirtualOrder now id r
      let fired := (List.replicate p.book.stateChangeCallbacks p.events).flatten
      let c := (s.consumer.onStateChanges fired).publishImmediateFill p.order m.boId
      let b := if 0 < p.order.filled then p.book.resetFillLevels id else p.book
      let s := track ⟨s.manager.setBook session dir b, c⟩ token m.boId p.order
      let s := { s with consumer := s.consumer.publishImmediateCancel p.order m.boId }
      s.publishExits now m.boId p.bracketResults

/-- The registration of `_process_prefilled_order`, once the payload is read. -/
def enterPrefilled (s : FeedService) (now : Time) (session : SessionEngine) (token : String)
    (boId : ℕ) (r : PrefilledRequest) (id : OrderId) : FeedService :=
  match session.bookForPrefilled token with
  | none => s.reject boId .tokenRotated
  | some (dir, b) =>
    let p := b.placePrefilledBracketOrder now id r
    let s := { s with manager := s.manager.setBook session dir p.book }
    (s.track token boId p.order).publishExits now boId p.bracketResults

/-- The placement of `_process_standard_order`, once the payload is read. -/
def enterStandard (s : FeedService) (now : Time) (session : SessionEngine) (token : String)
    (boId : ℕ) (r : OrderRequest) (id : OrderId) : FeedService :=
  match session.bookForOrder token with
  | none => s.reject boId .tokenRotated
  | some (dir, b) =>
    let p := b.placeVirtualOrder now id r
    let fired := (List.replicate p.book.stateChangeCallbacks p.events).flatten
    let c := (s.consumer.onStateChanges fired).publishImmediateFill p.order boId
    let b := if 0 < p.order.filled then p.book.resetFillLevels id else p.book
    let s := track ⟨s.manager.setBook session dir b, c⟩ token boId p.order
    let s := { s with consumer := s.consumer.publishImmediateCancel p.order boId }
    s.publishExits now boId p.bracketResults

/-- `_process_order`; `id` is the order id a placement draws. -/
def processOrder (s : FeedService) (now : Time) (sessionId : SessionId) (m : QueuePayload)
    (id : OrderId) : FeedService :=
  match s.manager.getSession sessionId with
  | none => s.reject m.boId .sessionNotFound
  | some session =>
    match session.tokens m.direction with
    | none => s.reject m.boId .noTokenResolved
    | some token =>
      if m.prefilled then s.processPrefilledOrder now session token m id
      else s.processStandardOrder now session token m id

/-! ## What the steps leave alone -/

theorem processPrefilledOrder_eq (s : FeedService) (now : Time) (session : SessionEngine)
    (token : String) (m : QueuePayload) (id : OrderId) :
    s.processPrefilledOrder now session token m id =
      match m.prefilledRequest with
      | none => s
      | some r => s.enterPrefilled now session token m.boId r id := rfl

theorem processStandardOrder_eq (s : FeedService) (now : Time) (session : SessionEngine)
    (token : String) (m : QueuePayload) (id : OrderId) :
    s.processStandardOrder now session token m id =
      match m.orderRequest now (s.manager.bestAsk now token) with
      | none => s
      | some r => s.enterStandard now session token m.boId r id := rfl

section Frames

variable {s : FeedService} {now : Time} {boId k : ℕ} {token : String} {o : SimulatedOrder}
  {sid : SessionId} {dir : Direction} {b : ShadowOrderbook} {results : List BracketFillResult}
  {id : OrderId} {c : OrderConsumer}

@[simp] theorem publishExits_manager : (s.publishExits now boId results).manager = s.manager := rfl

@[simp] theorem publishExits_orderToBo :
    (s.publishExits now boId results).consumer.orderToBo = s.consumer.orderToBo := by
  have hfold : ∀ c : OrderConsumer, (results.foldl (fun c r =>
      c.publish (.exit (r.exitMessage now boId))) c).orderToBo = c.orderToBo := by
    intro c
    induction results generalizing c with
    | nil => rfl
    | cons r results ih => exact ih _
  exact hfold s.consumer

theorem track_orderToBo : (s.track token boId o).consumer.orderToBo =
    s.consumer.orderToBo.set o.orderId boId := by
  unfold track
  dsimp only
  split
  · rfl
  · split <;> rfl

/-- Tracking an order keeps the orders and the history of every book. -/
theorem track_bookAt (token : String) (boId : ℕ) (o : SimulatedOrder)
    (h : s.manager.bookAt sid dir = some b) :
    ∃ b', (s.track token boId o).manager.bookAt sid dir = some b' ∧
      b'.virtualOrders = b.virtualOrders ∧ b'.history = b.history := by
  have hput : ∀ (session : SessionEngine) (d : Direction) (b₀ b₁ : ShadowOrderbook),
      s.manager.getSession session.sessionId = some session → session.books d = some b₀ →
      b₁.virtualOrders = b₀.virtualOrders → b₁.history = b₀.history →
      ∃ b', (s.manager.setBook session d b₁).bookAt sid dir = some b' ∧
        b'.virtualOrders = b.virtualOrders ∧ b'.history = b.history := by
    intro session d b₀ b₁ hs hb₀ horders hhistory
    by_cases hsame : sid = session.sessionId ∧ dir = d
    · obtain ⟨rfl, rfl⟩ := hsame
      rw [SessionManager.bookAt, hs] at h
      obtain rfl : b₀ = b := Option.some.inj (hb₀.symm.trans h)
      exact ⟨b₁, bookAt_setBook_self hs hb₀ b₁, horders, hhistory⟩
    · exact ⟨b, (bookAt_setBook_ne hs b₁ hsame).trans h, rfl, rfl⟩
  unfold track
  dsimp only
  cases hg : s.manager.getBook token with
  | none => exact ⟨b, h, rfl, rfl⟩
  | some r =>
    obtain ⟨session, d, b₀⟩ := r
    obtain ⟨hs, hb₀⟩ := getBook_spec hg
    dsimp only
    split
    · exact hput session d b₀ _ hs hb₀ rfl rfl
    · exact hput session d b₀ _ hs hb₀ rfl rfl

end Frames

end FeedService

end PolyArena
