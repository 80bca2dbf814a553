import PolyArena.Api.Snapshot

/-!
# Creating an order

`create_bo`: the request is checked, the bot is debited, and one of three paths decides what the row
says and what goes to the matching engine:

1. `aggressiveLimit`: the limit is at or above the best ask;
2. `passiveLimit`: the limit is below it;
3. `marketOrder`: there is no limit.

An error is raised before the commit, so it leaves the database as it was.
-/

namespace PolyArena

open Rounding

/-! ## The request -/

/-- What `price_in_range` accepts. -/
def PriceInRange (price : Option ℚ) : Prop := ∀ p ∈ price, 0 < p ∧ p < 1

/-- The request body, with what its validators check. -/
structure BOCreate where
  symbol : BOSymbol
  timeframe : BOTimeframe
  forecast : BOForecast
  amount : ℚ
  limitPrice : Option ℚ := none
  tpPrice : Option ℚ := none
  slPrice : Option ℚ := none
  ttl : Option ℕ := none
  slippageTolerance : Option ℚ := none
  sessionOffset : Option ℕ := some 0
  timestamp : Option ℤ := none
  orderType : Option TimeInForce := some .fak
  ceilingPrice : Option ℚ := none
  amount_positive : 0 < amount
  limitPrice_in_range : PriceInRange limitPrice
  tpPrice_in_range : PriceInRange tpPrice
  slPrice_in_range : PriceInRange slPrice
  ttl_positive : ∀ t ∈ ttl, 0 < t
  slippage_in_range : ∀ s ∈ slippageTolerance, 0 < s ∧ s ≤ 1
  sessionOffset_le : ∀ n ∈ sessionOffset, n ≤ 3
  timestamp_positive : ∀ t ∈ timestamp, 0 < t
  ceilingPrice_in_range : PriceInRange ceilingPrice

def BOCreate.hasBracket (p : BOCreate) : Bool := p.tpPrice.isSome || p.slPrice.isSome

/-- `_FORECAST_TO_STATUS`, which the consumer calls `_FORECAST_TO_DIR`. -/
def FORECAST_TO_DIR : BOForecast → Direction
  | .green => .up
  | .red => .down

/-! ## Session resolution -/

structure SessionInfo where
  candleOpen : ℤ
  settlementAt : Time
  sessionOffset : ℕ
  deriving DecidableEq, Repr

def SessionInfo.isCurrent (s : SessionInfo) : Bool := s.sessionOffset = 0

def MAX_SESSION_OFFSET : ℕ := 3

/-- `resolve_session`. -/
def resolveSession (now : Time) (timeframe : BOTimeframe) (timestamp : Option ℤ)
    (sessionOffset : ℕ) : Except HttpDetail SessionInfo :=
  let period : ℤ := TF_SECONDS timeframe
  let now := ⌊now⌋
  let currentOpen := now - now % period
  let maxOpen := currentOpen + period * MAX_SESSION_OFFSET
  match timestamp with
  | some timestamp =>
    let targetOpen := timestamp - timestamp % period
    if targetOpen < currentOpen then .error (.pastCandle timestamp targetOpen currentOpen)
    else if maxOpen < targetOpen then .error (.tooFarInFuture timestamp targetOpen maxOpen)
    else
      .ok {
        candleOpen := targetOpen
        settlementAt := (targetOpen + period : ℤ)
        sessionOffset := ((targetOpen - currentOpen) / period).toNat }
  | none =>
    let effectiveOffset := min sessionOffset MAX_SESSION_OFFSET
    let candleOpen := currentOpen + period * effectiveOffset
    .ok {
      candleOpen := candleOpen
      settlementAt := (candleOpen + period : ℤ)
      sessionOffset := effectiveOffset }

/-! ## Admission -/

/-- The active bot with the key. -/
def Database.botByKey (db : Database) (apiKey : String) : Option Bot :=
  db.bots.rows.find? fun bot => bot.apiKey = apiKey ∧ bot.isActive

/-- The bot of the request, when it may trade and can pay. -/
def admitBot (db : Database) (apiKey : String) (p : BOCreate) : Except HttpDetail Bot :=
  let maxFee := if p.limitPrice.isNone then estimateMaxTakerFee p.amount else 0
  match db.botByKey apiKey with
  | none => .error .invalidApiKey
  | some bot =>
    if bot.status ≠ .active then .error (.botNotActive bot.status)
    else if bot.balance < p.amount then .error (.insufficientBalance bot.balance p.amount)
    else if bot.balance < p.amount + maxFee then .error .insufficientBalanceWithFee
    else .ok bot

/-- The best ask of the session, when the session is on offer. -/
def sessionBestAsk (session : SessionInfo) (first : SnapshotRead) : Except HttpDetail ℚ :=
  match snapshotBestAsk first with
  | some bestAsk => .ok bestAsk
  | none => .error (if session.isCurrent then .priceDataUnavailable else .sessionNotAvailable)

/-- The pre-validation of the ceiling and of the conditions against the best ask. -/
def preValidate (p : BOCreate) (bestAsk : ℚ) : Except HttpDetail Unit := do
  if let some ceiling := p.ceilingPrice then
    if ceiling < bestAsk then throw (.ceilingBelowBestAsk ceiling bestAsk)
  if let some sl := p.slPrice then
    if bestAsk ≤ sl then throw (.slNotBelowBestAsk sl bestAsk)
  if let some tp := p.tpPrice then
    if tp ≤ bestAsk then throw (.tpNotAboveBestAsk tp bestAsk)

/-- What `create_bo` knows when it chooses a path.  `balance` is the balance after the debit. -/
structure Admitted where
  bot : Bot
  balance : ℚ
  session : SessionInfo
  bestAsk : ℚ

def admitRequest (now : Time) (db : Database) (apiKey : String) (p : BOCreate)
    (first : SnapshotRead) :
    Except HttpDetail Admitted := do
  let bot ← admitBot db apiKey p
  let session ← resolveSession now p.timeframe p.timestamp (p.sessionOffset.getD 0)
  let bestAsk ← sessionBestAsk session first
  preValidate p bestAsk
  return ⟨bot, round8 (bot.balance - p.amount), session, bestAsk⟩

/-! ## The row and the payload -/

/-- The payload `_queue_order_to_session` pushes. -/
structure QueuePayload where
  boId : ℕ
  sessionId : SessionId
  direction : Direction
  symbol : BOSymbol
  forecast : BOForecast
  side : String := "BUY"
  price : Option ℚ := none
  expectedPrice : Option ℚ := none
  quantity : Option ℚ := none
  amount : Option ℚ := none
  limitPrice : Option ℚ := none
  tpPrice : Option ℚ
  slPrice : Option ℚ
  timeframe : BOTimeframe
  ttl : Option ℕ := none
  slippageTolerance : Option ℚ := none
  sessionOffset : ℕ
  settlementAt : Option Time
  prefilled : Bool := false
  prefilledAvgPrice : Option ℚ := none
  prefilledFilled : Option ℚ := none
  deriving DecidableEq, Repr

namespace Admitted

variable (r : Admitted) (now : Time) (p : BOCreate) (id : ℕ)

def sessionId : SessionId := ⟨p.symbol, p.timeframe, r.session.candleOpen⟩

/-- The columns that all paths fill alike. -/
def baseRow (amount : ℚ) : BinaryOption :=
  { id := id
    botName := r.bot.botName
    symbol := p.symbol
    timeframe := p.timeframe
    forecast := p.forecast
    amount := amount
    settlementAt := some r.session.settlementAt
    createdAt := some now
    orderType := p.orderType
    ceilingPrice := p.ceilingPrice
    tpPrice := p.tpPrice
    slPrice := p.slPrice
    ttl := p.ttl
    traces := if p.hasBracket then [.sessionRouted, .preValidationOk] else [.sessionRouted]
    sessionOffset := r.session.sessionOffset
    sessionId := some (r.sessionId p)
    candleOpen := some r.session.candleOpen }

/-- A passive LIMIT at `limit` worth `amount`, as both LIMIT paths queue it. -/
def limitPayload (limit amount : ℚ) : QueuePayload :=
  { boId := id
    sessionId := r.sessionId p
    direction := FORECAST_TO_DIR p.forecast
    symbol := p.symbol
    forecast := p.forecast
    price := some limit
    expectedPrice := some limit
    quantity := some (round8 (amount / limit))
    amount := some amount
    limitPrice := some limit
    tpPrice := p.tpPrice
    slPrice := p.slPrice
    timeframe := p.timeframe
    ttl := p.ttl
    slippageTolerance := p.slippageTolerance
    sessionOffset := r.session.sessionOffset
    settlementAt := some r.session.settlementAt }

/-- The payload of `_queue_prefilled_to_me`. -/
def prefilledPayload (avgPrice numShares : ℚ) : QueuePayload :=
  { boId := id
    sessionId := r.sessionId p
    direction := FORECAST_TO_DIR p.forecast
    symbol := p.symbol
    forecast := p.forecast
    tpPrice := p.tpPrice
    slPrice := p.slPrice
    timeframe := p.timeframe
    sessionOffset := r.session.sessionOffset
    settlementAt := some r.session.settlementAt
    prefilled := true
    prefilledAvgPrice := some avgPrice
    prefilledFilled := some numShares }

end Admitted

/-- What a path decided: the new balance of the bot, the row, and what goes to the matching engine
with the trace written once it is queued. -/
structure Draft (id : ℕ) where
  balance : ℚ
  row : BinaryOption
  queue : Option (QueuePayload × Option TraceAction)
  row_id : row.id = id

/-- `bot.balance = round(bot.balance - entry_fee, 8)`, when there is a fee. -/
def chargeFee (balance entryFee : ℚ) : ℚ :=
  if 0 < entryFee then round8 (balance - entryFee) else balance

/-! ## The three paths -/

section Paths

variable (now : Time) (r : Admitted) (p : BOCreate) (second : SnapshotRead) (id : ℕ)

/-- What the fill `f` of an aggressive LIMIT makes of the order. -/
def aggressiveDraft (limit : ℚ) (f : LimitFill) : Draft id :=
  let entryFee := takerFeeFromLevels f.walkLevels
  let hasRemainder := 0 < f.remainingBudget
  let filled := 0 < f.numShares
  let row := { r.baseRow now p id
      (if filled then round8 (p.amount - f.remainingBudget) else p.amount) with
    originalAmount := some p.amount
    avgPrice := if filled then some f.avgPrice else none
    numShares := if filled then some f.numShares else none
    limitPrice := some limit
    entryFee := some entryFee
    meOrderStatus :=
      if filled then
        if hasRemainder then some .partial_ else if p.hasBracket then some .prefilled else none
      else some .pending
    walkPrices := if f.walkLevels.isEmpty then none else some { entry := f.walkLevels } }
  let queue :=
    if hasRemainder then
      let rest := r.limitPayload p id limit f.remainingBudget
      some (
        { rest with
          prefilled := filled
          prefilledAvgPrice := if filled then some f.avgPrice else none
          prefilledFilled := if filled then some f.numShares else none }, some .remainderQueued)
    else if p.hasBracket then
      some (r.prefilledPayload p id f.avgPrice f.numShares, some .bracketQueued)
    else none
  ⟨chargeFee r.balance entryFee, row.appendTrace .aggressiveLimitFill, queue, rfl⟩

/-- Fill what is on offer at up to the limit and queue the rest. -/
def aggressiveLimit (limit : ℚ) : Except HttpDetail (Draft id) := do
  if r.balance < estimateMaxTakerFee p.amount then throw .insufficientBalanceAggressive
  let f ← fillLimitFromSnapshot second p.amount limit
  return aggressiveDraft now r p id limit f

/-- Queue the order; no fee is charged upfront. -/
def passiveLimit (limit : ℚ) : Draft id :=
  let row := { r.baseRow now p id p.amount with
    originalAmount := some p.amount
    limitPrice := some limit
    entryFee := some 0
    meOrderStatus := some .pending }
  ⟨r.balance, row.appendTrace .orderQueued, some (r.limitPayload p id limit p.amount, none), rfl⟩

/-- What a fill of a MARKET order makes of it: what was not spent is refunded. -/
def marketDraft (avgPrice numShares : ℚ) (walkLevels : List FillLevel) : Draft id :=
  let actualCost := (walkLevels.map FillLevel.cost).sum
  let refunded := actualCost < p.amount
  let balance :=
    if refunded then round8 (r.balance + round8 (p.amount - actualCost)) else r.balance
  let amount := if refunded then round8 actualCost else p.amount
  let entryFee := takerFeeFromLevels walkLevels
  let row := { r.baseRow now p id amount with
    originalAmount := some amount
    avgPrice := some avgPrice
    numShares := some numShares
    entryFee := some entryFee
    meOrderStatus := if p.hasBracket then some .prefilled else none
    walkPrices := some { entry := walkLevels } }
  let queue :=
    if p.hasBracket then
      some (r.prefilledPayload p id avgPrice numShares, some .bracketQueued)
    else none
  ⟨chargeFee balance entryFee, row.appendTrace .snapshotFill, queue, rfl⟩

/-- Fill from the snapshot. -/
def marketOrder : Except HttpDetail (Draft id) := do
  let (avgPrice, numShares, walkLevels) ← fillMarketFromSnapshot second p.amount
    p.slippageTolerance (p.orderType.getD .fak) p.ceilingPrice
  return marketDraft now r p id avgPrice numShares walkLevels

/-- The path of the order. -/
def choosePath : Except HttpDetail (Draft id) :=
  match p.limitPrice with
  | some limit =>
    if r.bestAsk ≤ limit then aggressiveLimit now r p second id limit
    else .ok (passiveLimit now r p id limit)
  | none => marketOrder now r p second id

end Paths

/-! ## The commit -/

/-- The id the database gives to a new row. -/
abbrev Database.FreshId (db : Database) := { id : ℕ // id ∉ db.orders.rows.map BinaryOption.id }

/-- What `create_bo` leaves: the database with the new row, and the payload that was queued. -/
structure Created where
  db : Database
  bo : BinaryOption
  queued : Option QueuePayload
  stored : db.orders.get bo.id = some bo

/-- The trace that follows a successful push. -/
def queuedRow (bo : BinaryOption) (queueUp : Bool)
    (queue : Option (QueuePayload × Option TraceAction)) : BinaryOption :=
  match queue, queueUp with
  | some (_, some a), true => bo.appendTrace a
  | _, _ => bo

theorem queuedRow_id (bo : BinaryOption) (queueUp : Bool)
    (queue : Option (QueuePayload × Option TraceAction)) :
    (queuedRow bo queueUp queue).id = bo.id := by
  unfold queuedRow
  split <;> rfl

/-- Commit the balance and the row, push the payload when the queue is up, and commit its trace. -/
def commitDraft (db : Database) (bot : Bot) (queueUp : Bool) (id : db.FreshId)
    (d : Draft id.val) : Created :=
  let bo := queuedRow d.row queueUp d.queue
  have hnew : bo.id ∉ db.orders.rows.map BinaryOption.id := by
    rw [queuedRow_id, d.row_id]
    exact id.property
  { db := { db.setBot { bot with balance := d.balance } with orders := db.orders.insert bo hnew }
    bo := bo
    queued := if queueUp then d.queue.map Prod.fst else none
    stored := Table.get_insert_self (h := hnew) }

/-- `create_bo`.  `first` is the snapshot read for the best ask, `second` the one read for the fill,
and `queueUp` says whether pushing to the queue succeeds. -/
def createBo (now : Time) (db : Database) (apiKey : String) (p : BOCreate)
    (first second : SnapshotRead) (queueUp : Bool) (id : db.FreshId) :
    Except HttpDetail Created := do
  let r ← admitRequest now db apiKey p first
  let d ← choosePath now r p second id.val
  return commitDraft db r.bot queueUp id d

/-! ## What an accepted request went through -/

theorem ok_of_bind {ε α β : Type} {x : Except ε α} {f : α → Except ε β} {b : β}
    (h : (x >>= f) = .ok b) : ∃ a, x = .ok a ∧ f a = .ok b := by
  cases x with
  | error e => cases h
  | ok a => exact ⟨a, rfl, h⟩

section Accepted

variable {now : Time} {db : Database} {apiKey : String} {p : BOCreate} {first second : SnapshotRead}
  {queueUp : Bool} {bot : Bot} {r : Admitted} {k : ℕ} {limit : ℚ}

theorem admitBot_ok (h : admitBot db apiKey p = .ok bot) : db.botByKey apiKey = some bot := by
  unfold admitBot at h
  cases hb : db.botByKey apiKey with
  | none => rw [hb] at h; cases h
  | some b =>
    simp only [hb] at h
    split_ifs at h <;> cases h <;> rfl

/-- An admitted request is debited from its bot. -/
theorem admitRequest_ok (h : admitRequest now db apiKey p first = .ok r) :
    db.botByKey apiKey = some r.bot ∧ r.balance = round8 (r.bot.balance - p.amount) ∧
      snapshotBestAsk first = some r.bestAsk := by
  unfold admitRequest at h
  obtain ⟨bot, hbot, h⟩ := ok_of_bind h
  obtain ⟨session, -, h⟩ := ok_of_bind h
  obtain ⟨bestAsk, hask, h⟩ := ok_of_bind h
  obtain ⟨-, -, h⟩ := ok_of_bind h
  cases h
  refine ⟨admitBot_ok hbot, rfl, ?_⟩
  unfold sessionBestAsk at hask
  cases hs : snapshotBestAsk first with
  | none => rw [hs] at hask; cases hask
  | some best => rw [hs] at hask; cases hask; rfl

theorem aggressiveLimit_ok {d : Draft k} (h : aggressiveLimit now r p second k limit = .ok d) :
    ∃ f, fillLimitFromSnapshot second p.amount limit = .ok f ∧
      d = aggressiveDraft now r p k limit f := by
  unfold aggressiveLimit at h
  split at h
  · cases h
  · obtain ⟨f, hf, h⟩ := ok_of_bind h
    cases h
    exact ⟨f, hf, rfl⟩

theorem marketOrder_ok {d : Draft k} (h : marketOrder now r p second k = .ok d) :
    ∃ avg shares levels, fillMarketFromSnapshot second p.amount p.slippageTolerance
        (p.orderType.getD .fak) p.ceilingPrice = .ok (avg, shares, levels) ∧
      d = marketDraft now r p k avg shares levels := by
  unfold marketOrder at h
  obtain ⟨⟨avg, shares, levels⟩, hf, h⟩ := ok_of_bind h
  cases h
  exact ⟨avg, shares, levels, hf, rfl⟩

/-- **What an accepted request went through**: the admission, one of the paths, and the commit. -/
theorem createBo_ok {id : db.FreshId} {c : Created}
    (h : createBo now db apiKey p first second queueUp id = .ok c) :
    ∃ r d, admitRequest now db apiKey p first = .ok r ∧ choosePath now r p second id.val = .ok d ∧
      c = commitDraft db r.bot queueUp id d := by
  unfold createBo at h
  obtain ⟨r, hr, h⟩ := ok_of_bind h
  obtain ⟨d, hd, h⟩ := ok_of_bind h
  cases h
  exact ⟨r, d, hr, hd, rfl⟩

end Accepted

/-! ## A sample -/

def oneBot : Bot := { botName := "alpha", apiKey := "k", initialBalance := 100, balance := 100 }

theorem nodup_oneBot : ([oneBot].map Bot.botName).Nodup := List.nodup_singleton _

/-- One bot of `100` without orders. -/
def oneBotDb : Database where
  bots := ⟨[oneBot], nodup_oneBot⟩
  orders := ⟨[], List.nodup_nil⟩
  users := ⟨[], List.nodup_nil⟩

theorem fresh_oneBotDb : 1 ∉ oneBotDb.orders.rows.map BinaryOption.id := List.not_mem_nil

theorem priceInRange_none : PriceInRange none := fun _ h => nomatch h

/-- A LIMIT order of `10` at `0.50`. -/
def limitRequest : BOCreate where
  symbol := .btc
  timeframe := .m5
  forecast := .green
  amount := 10
  limitPrice := some (1 / 2)
  amount_positive := by norm_num
  limitPrice_in_range := by intro p hp; cases hp; norm_num
  tpPrice_in_range := priceInRange_none
  slPrice_in_range := priceInRange_none
  ttl_positive := by simp
  slippage_in_range := by simp
  sessionOffset_le := by simp
  timestamp_positive := by simp
  ceilingPrice_in_range := priceInRange_none

/-- Ten shares at `0.40` are all that is on offer. -/
def thinAsks : SnapshotRead := .asks [⟨2 / 5, 10, pos_two_fifths, nonneg_ten⟩]

/-- Ten shares at `0.90`, above the limit. -/
def dearAsks : SnapshotRead := .asks [⟨9 / 10, 10, by norm_num, by norm_num⟩]

/-- What `create_bo` does with `limitRequest` on `thinAsks`. -/
def limitOnThinAsks : Except HttpDetail Created :=
  createBo 1000 oneBotDb "k" limitRequest thinAsks thinAsks true ⟨1, fresh_oneBotDb⟩

end PolyArena
