import PolyArena.Handlers
import PolyArena.Api.CreateBo
import PolyArena.Lib.Transactions

/-!
# The balance transactions, read by read

Every function that moves money loads rows into a database session, computes on the loaded copies
and commits.  A row is loaded by the first query that returns it and not refreshed by later ones,
nothing is locked, and the commit writes the columns whose value differs from the loaded one.

1. `Booking` is what one order comes to: its new row and what goes to its bot.
2. `LoadPhase` is a query for orders and the decision on each; a settlement pass is one phase over
   many orders, a stream handler one phase over at most one, the sweeper has two.
3. `BalanceTransaction` lists the transactions.  `apply` is what each does to the database when it
   runs alone, by the functions of `Handlers` and `Settlement`; `txn` is its reads and its commit.

`balance_history` and `user_balance_history`, to which the transactions only append, are left out of
the concurrent store (`Accounts`).
-/

namespace PolyArena

open Rounding

/-- The rows that the transactions overwrite. -/
structure Accounts where
  bots : Table Bot.botName
  orders : Table BinaryOption.id

def Database.accounts (db : Database) : Accounts := ⟨db.bots, db.orders⟩

/-! ## What a commit writes -/

/-- A column of an `UPDATE`: it is written when the session's value is not the one it loaded. -/
def updateColumn {α : Type} [DecidableEq α] (loaded new current : α) : α :=
  if new = loaded then current else new

@[simp] theorem updateColumn_self {α : Type} [DecidableEq α] (loaded new : α) :
    updateColumn loaded new loaded = new := by
  unfold updateColumn
  split
  · next h => exact h.symm
  · rfl

/-- The row `current` of the database after the session that loaded `loaded` commits `new`. -/
def Bot.update (loaded new current : Bot) : Bot where
  botName := current.botName
  apiKey := updateColumn loaded.apiKey new.apiKey current.apiKey
  isActive := updateColumn loaded.isActive new.isActive current.isActive
  initialBalance := updateColumn loaded.initialBalance new.initialBalance current.initialBalance
  balance := updateColumn loaded.balance new.balance current.balance
  status := updateColumn loaded.status new.status current.status
  userId := updateColumn loaded.userId new.userId current.userId

/-- The row `current` of the database after the session that loaded `loaded` commits `new`. -/
def BinaryOption.update (loaded new current : BinaryOption) : BinaryOption where
  id := current.id
  botName := updateColumn loaded.botName new.botName current.botName
  symbol := updateColumn loaded.symbol new.symbol current.symbol
  timeframe := updateColumn loaded.timeframe new.timeframe current.timeframe
  forecast := updateColumn loaded.forecast new.forecast current.forecast
  amount := updateColumn loaded.amount new.amount current.amount
  originalAmount := updateColumn loaded.originalAmount new.originalAmount current.originalAmount
  result := updateColumn loaded.result new.result current.result
  profit := updateColumn loaded.profit new.profit current.profit
  priceOpen := updateColumn loaded.priceOpen new.priceOpen current.priceOpen
  priceClose := updateColumn loaded.priceClose new.priceClose current.priceClose
  avgPrice := updateColumn loaded.avgPrice new.avgPrice current.avgPrice
  numShares := updateColumn loaded.numShares new.numShares current.numShares
  settlementAt := updateColumn loaded.settlementAt new.settlementAt current.settlementAt
  createdAt := updateColumn loaded.createdAt new.createdAt current.createdAt
  limitPrice := updateColumn loaded.limitPrice new.limitPrice current.limitPrice
  entryFee := updateColumn loaded.entryFee new.entryFee current.entryFee
  orderType := updateColumn loaded.orderType new.orderType current.orderType
  ceilingPrice := updateColumn loaded.ceilingPrice new.ceilingPrice current.ceilingPrice
  tpPrice := updateColumn loaded.tpPrice new.tpPrice current.tpPrice
  slPrice := updateColumn loaded.slPrice new.slPrice current.slPrice
  exitPrice := updateColumn loaded.exitPrice new.exitPrice current.exitPrice
  exitTrigger := updateColumn loaded.exitTrigger new.exitTrigger current.exitTrigger
  exitFilled := updateColumn loaded.exitFilled new.exitFilled current.exitFilled
  exitAt := updateColumn loaded.exitAt new.exitAt current.exitAt
  meOrderId := updateColumn loaded.meOrderId new.meOrderId current.meOrderId
  meOrderStatus := updateColumn loaded.meOrderStatus new.meOrderStatus current.meOrderStatus
  ttl := updateColumn loaded.ttl new.ttl current.ttl
  walkPrices := updateColumn loaded.walkPrices new.walkPrices current.walkPrices
  traces := updateColumn loaded.traces new.traces current.traces
  positionClosed := updateColumn loaded.positionClosed new.positionClosed current.positionClosed
  sessionOffset := updateColumn loaded.sessionOffset new.sessionOffset current.sessionOffset
  sessionId := updateColumn loaded.sessionId new.sessionId current.sessionId
  candleOpen := updateColumn loaded.candleOpen new.candleOpen current.candleOpen

theorem Bot.update_self {loaded new : Bot} (h : new.botName = loaded.botName) :
    Bot.update loaded new loaded = new := by
  cases new
  simp_all [Bot.update]

theorem BinaryOption.update_self {loaded new : BinaryOption} (h : new.id = loaded.id) :
    BinaryOption.update loaded new loaded = new := by
  cases new
  simp_all [BinaryOption.update]

/-! ## Bookings -/

/-- What the order `bo`, as it was loaded, comes to: its new row, and what its bot is credited. -/
structure Booking (bo : BinaryOption) where
  row : BinaryOption
  credit : Option ℚ := none
  /-- A bot that is broke after the credit is paused. -/
  pausing : Bool := false
  row_id : row.id = bo.id
  decides_pending : row.result = bo.result ∨ bo.result = .pending

/-- An order with its booking. -/
abbrev Booked := Σ bo, Booking bo

namespace Booking

variable {bo : BinaryOption}

/-- The session's copy of the bot afterwards. -/
def onBot (b : Booking bo) (bot : Bot) : Bot :=
  match b.credit with
  | none => bot
  | some x =>
    let bot := { bot with balance := round8 (bot.balance + x) }
    if b.pausing ∧ bot.balance ≤ 0 then { bot with status := .paused } else bot

@[simp] theorem onBot_botName (b : Booking bo) (bot : Bot) :
    (b.onBot bot).botName = bot.botName := by
  unfold onBot
  split
  · rfl
  · dsimp only
    split <;> rfl

end Booking

namespace Booked

/-- The effect on a bot row, which is that of another bot or the order's own. -/
def onBot (b : Booked) (bot : Bot) : Bot := if bot.botName = b.1.botName then b.2.onBot bot else bot

@[simp] theorem onBot_botName (b : Booked) (bot : Bot) : (b.onBot bot).botName = bot.botName := by
  unfold onBot
  split
  · exact b.2.onBot_botName bot
  · rfl

/-- The bots that are read, in order. -/
def creditedBots (booked : List Booked) : List BotName :=
  (booked.filter fun b => b.2.credit.isSome).map fun b => b.1.botName

end Booked

/-- What the code makes of a loaded order: an exception, nothing, or a booking. -/
abbrev Decision (bo : BinaryOption) := Option (Option (Booking bo))

namespace Decision

variable {bo : BinaryOption}

def raise : Decision bo := none

def skip : Decision bo := some none

def book (b : Booking bo) : Decision bo := some (some b)

end Decision

/-- The bookings for the orders, `none` when one raises. -/
def decideAll (decide : ∀ bo, Decision bo) : List BinaryOption → Option (List Booked)
  | [] => some []
  | bo :: rest => do
    let decision ← decide bo
    let booked ← decideAll decide rest
    return (decision.map (Sigma.mk bo)).toList ++ booked

/-! ## Sessions -/

/-- Load the bots `names`.  A bot that is loaded is not read again. -/
def readBots : List BotName → List Bot → (List Bot → Txn Accounts) → Txn Accounts
  | [], loaded, next => next loaded
  | name :: names, loaded, next =>
    if name ∈ loaded.map Bot.botName then readBots names loaded next
    else .read (fun x => x.bots.get name) fun found => readBots names (loaded ++ found.toList) next

/-- The row `current` after the commit of a session that loaded the bots `loaded`. -/
def commitBot (loaded : List Bot) (booked : List Booked) (current : Bot) : Bot :=
  match loaded.find? fun bot => bot.botName = current.botName with
  | none => current
  | some bot => Bot.update bot (booked.foldl (fun bot b => b.onBot bot) bot) current

/-- The row `current` after the commit of a session with the bookings `booked`. -/
def commitOrder (booked : List Booked) (current : BinaryOption) : BinaryOption :=
  booked.foldl (fun row b => if row.id = b.1.id then BinaryOption.update b.1 b.2.row row else row)
    current

theorem commitBot_botName (loaded : List Bot) (booked : List Booked) (current : Bot) :
    (commitBot loaded booked current).botName = current.botName := by
  unfold commitBot
  split <;> rfl

theorem commitOrder_id (booked : List Booked) (current : BinaryOption) :
    (commitOrder booked current).id = current.id := by
  unfold commitOrder
  induction booked generalizing current with
  | nil => rfl
  | cons b rest ih =>
    rw [List.foldl_cons, ih]
    split <;> rfl

/-- The commit of a session. -/
def commitSession (loaded : List Bot) (booked : List Booked) (x : Accounts) : Accounts where
  bots := x.bots.mapRows (commitBot loaded booked) (commitBot_botName loaded booked)
  orders := x.orders.mapRows (commitOrder booked) (commitOrder_id booked)

/-- A query for orders, and what becomes of each. -/
structure LoadPhase where
  select : Accounts → List BinaryOption
  decide : ∀ bo, Decision bo

/-- The phases of one session, then its commit.  An exception leaves the database as it is. -/
def runPhases : List LoadPhase → List Bot → List Booked → Txn Accounts
  | [], loaded, booked => .commit (commitSession loaded booked)
  | phase :: rest, loaded, booked =>
    .read phase.select fun rows =>
      match decideAll phase.decide rows with
      | none => .commit fun x => x
      | some new =>
        readBots (Booked.creditedBots new) loaded fun loaded =>
          runPhases rest loaded (booked ++ new)

/-! ## What each function decides -/

section Decisions

variable (now : Time) (fetch : CandleFetch) (bo : BinaryOption)

/-- `_settle_single_trade` on a pending order. -/
def decideSettlement (c : Candle) (h : bo.result = .pending) : Decision bo :=
  match verdict bo c with
  | .raises => .raise
  | .missingFill => .book
    { row := settledRow bo c .cancelled 0 .missingFillCancel
      credit := some bo.amount
      row_id := rfl
      decides_pending := .inr h }
  | .settled result profit => .book
    { row := settledRow bo c result profit .candleSettled
      credit := some (round8 (bo.amount + profit))
      pausing := true
      row_id := rfl
      decides_pending := .inr h }

/-- A settlement pass cancels a pending order with a full refund. -/
def decideRefund (row : BinaryOption) (hid : row.id = bo.id) (h : bo.result = .pending) :
    Decision bo :=
  .book
    { row := cancelledRow row
      credit := some bo.amount
      row_id := hid
      decides_pending := .inr h }

/-- The loop body of `settle_pending_trades`. -/
def decidePending : Decision bo :=
  if h : bo.result = .pending then
    if bo.positionClosed then .skip
    else if bo.meOrderStatus = some .pending then decideRefund bo (unfilledRow bo) rfl h
    else
      match fetch bo.candleRequest with
      | none => .skip
      | some c => decideSettlement bo c h
  else .skip

/-- The first loop body of `sweep_stuck_orders`. -/
def decideStuck : Decision bo :=
  if h : bo.result = .pending then
    match fetch bo.candleRequest with
    | some c => decideSettlement bo c h
    | none => decideRefund bo bo rfl h
  else .skip

/-- The second loop body of `sweep_stuck_orders`. -/
def decideOrphan : Decision bo :=
  if h : bo.result = .pending then decideRefund bo bo rfl h else .skip

/-- The first transaction of `_handle_order_fill`. -/
def decideFill (m : FillMessage) : Decision bo :=
  if bo.result ≠ .pending then .skip
  else .book
    { row := filledRow bo m
      credit := if 0 < fillRebate bo m then some (fillRebate bo m) else none
      row_id := filledRow_id bo m
      decides_pending := .inl (filledRow_result bo m) }

/-- The second transaction of `_handle_order_fill`, which loads the order again. -/
def decideLateFill (m : FillMessage) : Decision bo :=
  if h : isLateFill now bo m then
    match fetch bo.candleRequest with
    | none => .skip
    | some c => decideSettlement bo c (of_decide_eq_true h).2.1
  else .skip

/-- `_handle_order_cancel`. -/
def decideCancel (m : CancelMessage) : Decision bo :=
  if h : bo.result = .pending then
    if 0 < m.filled ∧ 0 < m.avgEntryPrice then .book
      { row := partialCancelRow bo m
        credit := if 0 < unfilledRefund bo m then some (unfilledRefund bo m) else none
        row_id := rfl
        decides_pending := .inr h }
    else .book
      { row := zeroFillCancelRow bo m
        credit := some bo.amount
        row_id := rfl
        decides_pending := .inr h }
  else .skip

/-- `_handle_bracket_exit`. -/
def decideExit (m : ExitMessage) : Decision bo :=
  if bo.exitTrigger = none ∧ bo.result = .pending then
    if isFullExit bo m ∧ bo.avgPrice = none then .raise
    else .book { row := exitRow now bo m, row_id := rfl, decides_pending := .inl rfl }
  else .skip

/-- `_handle_market_resolved`. -/
def decideResolved : Decision bo :=
  .book { row := resolvedRow bo, row_id := rfl, decides_pending := .inl rfl }

/-- The second transaction of `create_bo`: the trace that follows a successful push. -/
def decideTrace (a : TraceAction) : Decision bo :=
  .book { row := bo.appendTrace a, row_id := rfl, decides_pending := .inl rfl }

end Decisions

/-! ## The transactions -/

/-- The transactions, with what each is called with and what it gets from outside the database. -/
inductive BalanceTransaction
  | createBo (now : Time) (apiKey : String) (p : BOCreate) (first second : SnapshotRead) (id : ℕ)
  | traceQueued (boId : ℕ) (a : TraceAction)
  | fill (m : FillMessage)
  | lateFill (now : Time) (fetch : CandleFetch) (m : FillMessage)
  | cancel (m : CancelMessage)
  | exit (now : Time) (m : ExitMessage)
  | resolved (boIds : List ℕ)
  | settle (now : Time) (fetch : CandleFetch)
  | sweep (now : Time) (fetch : CandleFetch)

/-- Load one order by its id. -/
def onOrder (k : ℕ) (decide : ∀ bo, Decision bo) :
    LoadPhase := ⟨fun x => (x.orders.get k).toList, decide⟩

/-- Load the orders with a property. -/
def onOrders (p : BinaryOption → Bool) (decide : ∀ bo, Decision bo) : LoadPhase :=
  ⟨fun x => x.orders.rows.filter p, decide⟩

/-- The session of `create_bo` once it has loaded the bot, when there is one. -/
def sessionWith (bot : Option Bot) : Database where
  bots := ⟨bot.toList, by cases bot <;> simp⟩
  orders := ⟨[], List.nodup_nil⟩
  users := ⟨[], List.nodup_nil⟩

/-- What `create_bo` decides for the bot it loaded. -/
def draftBo (now : Time) (apiKey : String) (p : BOCreate) (first second : SnapshotRead) (id : ℕ)
    (bot : Option Bot) : Except HttpDetail (Bot × Draft id) := do
  let r ← admitRequest now (sessionWith bot) apiKey p first
  let d ← choosePath now r p second id
  return (r.bot, d)

/-- The commit of `create_bo`: the balance, and the new row under an id that is not taken. -/
def commitBo {id : ℕ} (bot : Bot) (d : Draft id) (x : Accounts) : Accounts :=
  if h : d.row.id ∉ x.orders.rows.map BinaryOption.id then
    { bots := x.bots.mapRows
        (fun current => if current.botName = bot.botName then
          Bot.update bot { bot with balance := d.balance } current else current)
        fun current => by split <;> rfl
      orders := x.orders.insert d.row h }
  else x

/-- The first transaction of `create_bo`, up to the commit of the row. -/
def insertBo (now : Time) (apiKey : String) (p : BOCreate) (first second : SnapshotRead) (id : ℕ)
    (db : Database) : Database :=
  if h : id ∉ db.orders.rows.map BinaryOption.id then
    match createBo now db apiKey p first second false ⟨id, h⟩ with
    | .error _ => db
    | .ok created => created.db
  else db

/-- The second transaction of `create_bo`. -/
def recordQueued (db : Database) (k : ℕ) (a : TraceAction) : Database :=
  match db.orders.get k with
  | none => db
  | some bo => db.setOrder (bo.appendTrace a)

/-- The first transaction of `_handle_order_fill`. -/
def recordFillOf (db : Database) (m : FillMessage) : Database :=
  match db.orders.get m.boId with
  | none => db
  | some bo => if bo.result ≠ .pending then db else recordFill db bo m

/-- The second transaction of `_handle_order_fill`. -/
def settleLateFill (now : Time) (fetch : CandleFetch) (db : Database) (m : FillMessage) :
    Database :=
  match db.orders.get m.boId with
  | none => db
  | some bo =>
    if isLateFill now bo m then
      match fetch bo.candleRequest with
      | none => db
      | some c => (settleSingleTrade db db bo c).getD db
    else db

namespace BalanceTransaction

/-- The phases of a transaction other than `create_bo`'s first. -/
def phases : BalanceTransaction → List LoadPhase
  | createBo .. => []
  | traceQueued k a => [onOrder k fun bo => decideTrace bo a]
  | fill m => [onOrder m.boId fun bo => decideFill bo m]
  | lateFill now fetch m => [onOrder m.boId fun bo => decideLateFill now fetch bo m]
  | cancel m => [onOrder m.boId fun bo => decideCancel bo m]
  | exit now m => [onOrder m.boId fun bo => decideExit now bo m]
  | resolved boIds =>
    [onOrders (fun bo => bo.id ∈ boIds ∧ bo.result = .pending ∧ ¬ bo.positionClosed) decideResolved]
  | settle now fetch => [onOrders (isDue now) (decidePending fetch)]
  | sweep now fetch =>
    [onOrders (isStuck now) (decideStuck fetch), onOrders (isOrphaned now) decideOrphan]

/-- The reads and the commit. -/
def txn : BalanceTransaction → Txn Accounts
  | createBo now apiKey p first second id =>
    .read (fun x => x.bots.rows.find? fun bot => bot.apiKey = apiKey ∧ bot.isActive) fun bot =>
      match draftBo now apiKey p first second id bot with
      | .error _ => .commit fun x => x
      | .ok (bot, d) => .commit (commitBo bot d)
  | t => runPhases t.phases [] []

/-- `create_bo` changes nothing when it rejects the request. -/
theorem run_createBo_error {now : Time} {apiKey : String} {p : BOCreate}
    {first second : SnapshotRead} {id : ℕ}
    {x : Accounts} {e : HttpDetail} (h : draftBo now apiKey p first second id
      (x.bots.rows.find? fun bot => bot.apiKey = apiKey ∧ bot.isActive) = .error e) :
    (createBo now apiKey p first second id).txn.run x = x := by
  simp only [txn, Txn.run]
  rw [h]
  rfl

theorem run_createBo_ok {now : Time} {apiKey : String} {p : BOCreate}
    {first second : SnapshotRead} {id : ℕ}
    {x : Accounts} {bot : Bot} {d : Draft id} (h : draftBo now apiKey p first second id
      (x.bots.rows.find? fun bot => bot.apiKey = apiKey ∧ bot.isActive) = .ok (bot, d)) :
    (createBo now apiKey p first second id).txn.run x = commitBo bot d x := by
  simp only [txn, Txn.run]
  rw [h]
  rfl

/-- The transaction alone. -/
def apply (db : Database) : BalanceTransaction → Database
  | createBo now apiKey p first second id => insertBo now apiKey p first second id db
  | traceQueued k a => recordQueued db k a
  | fill m => recordFillOf db m
  | lateFill now fetch m => settleLateFill now fetch db m
  | cancel m => (handleOrderCancel db m).1
  | exit now m => (handleBracketExit now db m).1
  | resolved boIds => (handleMarketResolved db boIds).1
  | settle now fetch => (settlePendingTrades now fetch db).getD db
  | sweep now fetch => (sweepStuckOrders now fetch db).getD db

end BalanceTransaction

/-- The transactions `ts` one after the other. -/
def serially (db : Database) (ts : List BalanceTransaction) : Database :=
  ts.foldl BalanceTransaction.apply db

end PolyArena
