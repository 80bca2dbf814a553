import PolyArena.Config
import PolyArena.Lib.Table

/-!
# Database rows

The rows of `models.py` that order processing reads or writes: bots, orders (`BinaryOption`), users
and the two balance histories.  `NULL`-able columns are options.  A trace keeps its action; the text
and the data shown in the UI, which no handler reads back, are left out.
-/

namespace PolyArena

open Rounding

abbrev BotName := String
abbrev OrderId := ℕ

inductive BOSymbol
  | btc
  | eth
  deriving DecidableEq, Repr

inductive BOTimeframe
  | m5
  | m15
  deriving DecidableEq, Repr

/-- The length of a candle. -/
def TF_SECONDS : BOTimeframe → ℕ
  | .m5 => 300
  | .m15 => 900

theorem period_pos (tf : BOTimeframe) : 0 < TF_SECONDS tf := by cases tf <;> decide

theorem period_le (tf : BOTimeframe) : TF_SECONDS tf ≤ 900 := by cases tf <;> decide

inductive BOForecast
  | green
  | red
  deriving DecidableEq, Repr

/-- The token of a market that pays on an up or a down candle. -/
inductive Direction
  | up
  | down
  deriving DecidableEq, Repr

inductive BOResult
  | pending
  | win
  | loss
  | tie
  | cancelled
  deriving DecidableEq, Repr

inductive BotStatus
  | active
  | paused
  | deleted
  deriving DecidableEq, Repr

/-- `FAK` or `FOK`. -/
inductive TimeInForce
  | fak
  | fok
  deriving DecidableEq, Repr

/-- The values `me_order_status` takes. -/
inductive MeOrderStatus
  | pending
  | partial_
  | filled
  | canceled
  | prefilled
  | resolved
  deriving DecidableEq, Repr

/-- The status of an order in the matching engine. -/
inductive OrderStatus
  | pending
  | partial_
  | filled
  | canceled
  deriving DecidableEq, Repr

/-- Why an order was cancelled. -/
inductive CancelReason
  | ttlExpired
  | marketIocCancel
  | sessionNotFound
  | noTokenResolved
  | tokenRotated
  deriving DecidableEq, Repr

/-- What made a position close. -/
inductive Trigger
  | tp
  | sl
  | forceClose
  deriving DecidableEq, Repr

/-- The `action` of an order trace. -/
inductive TraceAction
  | sessionRouted
  | preValidationOk
  | aggressiveLimitFill
  | remainderQueued
  | orderQueued
  | snapshotFill
  | bracketQueued
  | bracketExit
  | bracketExitFull
  | partialExit
  | partialFillExpiry
  | orderCancelled
  | orderFilled
  | partialFill
  | marketResolved
  | missingFillCancel
  | candleSettled
  | unfilledCancel
  deriving DecidableEq, Repr

/-- The session of one candle, `"BTC:M5:1709313000"`. -/
structure SessionId where
  symbol : BOSymbol
  timeframe : BOTimeframe
  candleOpen : ℤ
  deriving DecidableEq, Repr

/-- The JSON column `{"entry": [...], "exit": [...]}`; an absent key reads as the empty list. -/
structure WalkPrices where
  entry : List FillLevel := []
  exit : List FillLevel := []
  deriving DecidableEq, Repr

structure User where
  id : ℕ
  initialBalance : ℚ
  deriving DecidableEq, Repr

structure Bot where
  botName : BotName
  apiKey : String
  isActive : Bool := true
  initialBalance : ℚ
  balance : ℚ
  status : BotStatus := .active
  userId : Option ℕ := none
  deriving DecidableEq, Repr

/-- An order row. -/
structure BinaryOption where
  id : ℕ
  botName : BotName
  symbol : BOSymbol
  timeframe : BOTimeframe
  forecast : BOForecast
  amount : ℚ
  originalAmount : Option ℚ := none
  result : BOResult := .pending
  profit : Option ℚ := none
  priceOpen : Option ℚ := none
  priceClose : Option ℚ := none
  avgPrice : Option ℚ := none
  numShares : Option ℚ := none
  settlementAt : Option Time := none
  createdAt : Option Time := none
  limitPrice : Option ℚ := none
  entryFee : Option ℚ := some 0
  orderType : Option TimeInForce := some .fak
  ceilingPrice : Option ℚ := none
  tpPrice : Option ℚ := none
  slPrice : Option ℚ := none
  exitPrice : Option ℚ := none
  exitTrigger : Option Trigger := none
  exitFilled : Option ℚ := none
  exitAt : Option Time := none
  meOrderId : Option OrderId := none
  meOrderStatus : Option MeOrderStatus := none
  ttl : Option ℕ := none
  walkPrices : Option WalkPrices := none
  traces : List TraceAction := []
  positionClosed : Bool := false
  sessionOffset : ℕ := 0
  sessionId : Option SessionId := none
  candleOpen : Option ℤ := none
  deriving DecidableEq, Repr

structure BalanceHistory where
  botName : BotName
  balance : ℚ
  tradeId : Option ℕ
  deriving DecidableEq, Repr

structure UserBalanceHistory where
  userId : ℕ
  balance : ℚ
  tradeId : Option ℕ
  botName : BotName
  pnlAmount : Option ℚ
  deriving DecidableEq, Repr

structure Database where
  bots : Table Bot.botName
  orders : Table BinaryOption.id
  users : Table User.id
  balanceHistory : List BalanceHistory := []
  userBalanceHistory : List UserBalanceHistory := []

/-! ## Row updates the handlers share -/

namespace BinaryOption

/-- `append_trace`. -/
def appendTrace (bo : BinaryOption) (a : TraceAction) : BinaryOption :=
  { bo with traces := bo.traces ++ [a] }

/-- `if order_id and not bo.me_order_id: bo.me_order_id = order_id`. -/
def recordOrderId (bo : BinaryOption) (orderId : Option OrderId) : BinaryOption :=
  { bo with meOrderId := bo.meOrderId.or orderId }

/-- The entry fee, `NULL` counting as zero. -/
def fee (bo : BinaryOption) : ℚ := bo.entryFee.getD 0

end BinaryOption

namespace Database

def setOrder (db : Database) (bo : BinaryOption) : Database :=
  { db with orders := db.orders.put bo }

def setBot (db : Database) (bot : Bot) : Database := { db with bots := db.bots.put bot }

/-- `bot.balance = round(bot.balance + x, 8)` on the order's bot, when there is one. -/
def creditBot (db : Database) (name : BotName) (x : ℚ) : Database :=
  match db.bots.get name with
  | none => db
  | some bot => db.setBot { bot with balance := round8 (bot.balance + x) }

/-- `db.add(BalanceHistory(...))` for the bot's present balance. -/
def addBalanceHistory (db : Database) (name : BotName) (tradeId : ℕ) : Database :=
  match db.bots.get name with
  | none => db
  | some bot =>
    { db with balanceHistory := db.balanceHistory ++ [⟨name, bot.balance, some tradeId⟩] }

/-- Credit the bot and write its balance history. -/
def refundBot (db : Database) (name : BotName) (x : ℚ) (tradeId : ℕ) : Database :=
  (db.creditBot name x).addBalanceHistory name tradeId

/-- Auto-pause on bankruptcy. -/
def pauseIfBroke (db : Database) (name : BotName) : Database :=
  match db.bots.get name with
  | none => db
  | some bot => if bot.balance ≤ 0 then db.setBot { bot with status := .paused } else db

/-- The sum of the settled profits of the bots `names`. -/
def settledProfit (db : Database) (names : List BotName) : ℚ :=
  db.orders.total fun o =>
    if o.botName ∈ names ∧ o.result ∈ [.win, .loss] then o.profit.getD 0 else 0

/-- `record_user_balance`.  The session does not autoflush, so its queries see the rows as committed
(`base`), while the new row joins the session's own state. -/
def recordUserBalance (db base : Database) (name : BotName) (tradeId : Option ℕ)
    (pnl : Option ℚ) : Database :=
  match base.bots.get name with
  | none => db
  | some bot =>
    match bot.userId.bind base.users.get with
    | none => db
    | some user =>
      let names := (base.bots.rows.filter fun b => b.userId = some user.id ∧ b.isActive).map
        Bot.botName
      if names = [] then db
      else
        let realized := round8 (user.initialBalance + base.settledProfit names)
        { db with userBalanceHistory := db.userBalanceHistory ++
            [⟨user.id, realized, tradeId, name, pnl⟩] }

end Database

/-! ## What an update leaves alone -/

section Views

variable {base db : Database} {name : BotName} {k : ℕ} {x : ℚ}

@[simp] theorem setOrder_bots (bo : BinaryOption) : (db.setOrder bo).bots = db.bots := rfl

@[simp] theorem setOrder_orders (bo : BinaryOption) :
    (db.setOrder bo).orders = db.orders.put bo := rfl

@[simp] theorem creditBot_orders : (db.creditBot name x).orders = db.orders := by
  unfold Database.creditBot
  split <;> rfl

@[simp] theorem addBalanceHistory_orders :
    (db.addBalanceHistory name k).orders = db.orders := by
  unfold Database.addBalanceHistory
  split <;> rfl

@[simp] theorem addBalanceHistory_bots : (db.addBalanceHistory name k).bots = db.bots := by
  unfold Database.addBalanceHistory
  split <;> rfl

@[simp] theorem refundBot_orders : (db.refundBot name x k).orders = db.orders := by
  simp [Database.refundBot]

@[simp] theorem refundBot_bots : (db.refundBot name x k).bots = (db.creditBot name x).bots := by
  simp [Database.refundBot]

@[simp] theorem pauseIfBroke_orders : (db.pauseIfBroke name).orders = db.orders := by
  unfold Database.pauseIfBroke
  split
  · rfl
  · split <;> rfl

@[simp] theorem recordUserBalance_orders {t : Option ℕ} {p : Option ℚ} :
    (db.recordUserBalance base name t p).orders = db.orders := by
  unfold Database.recordUserBalance
  split
  · rfl
  · split
    · rfl
    · dsimp only; split <;> rfl

@[simp] theorem recordUserBalance_bots {t : Option ℕ} {p : Option ℚ} :
    (db.recordUserBalance base name t p).bots = db.bots := by
  unfold Database.recordUserBalance
  split
  · rfl
  · split
    · rfl
    · dsimp only; split <;> rfl

end Views

/-! ## What samples are made of -/

theorem pos_one_half : (0 : ℚ) < 1 / 2 := by norm_num

theorem pos_two_fifths : (0 : ℚ) < 2 / 5 := by norm_num

theorem pos_three_fifths : (0 : ℚ) < 3 / 5 := by norm_num

theorem pos_four_fifths : (0 : ℚ) < 4 / 5 := by norm_num

theorem pos_three_quarters : (0 : ℚ) < 3 / 4 := by norm_num

theorem pos_nine_twentieths : (0 : ℚ) < 9 / 20 := by norm_num

theorem pos_eleven_twentieths : (0 : ℚ) < 11 / 20 := by norm_num

theorem nonneg_ten : (0 : ℚ) ≤ 10 := by norm_num

theorem nonneg_hundred : (0 : ℚ) ≤ 100 := by norm_num

theorem nodup_one (bo : BinaryOption) : ([bo].map BinaryOption.id).Nodup := List.nodup_singleton _

theorem nodup_sampleUser : ([⟨1, 100⟩].map User.id).Nodup := List.nodup_singleton _

theorem nodup_sampleBot :
    ([{ botName := "alpha", apiKey := "k", initialBalance := 100,
        balance := 90 }].map Bot.botName).Nodup :=
  List.nodup_singleton _

end PolyArena
