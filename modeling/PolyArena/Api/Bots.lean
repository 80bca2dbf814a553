import PolyArena.Api.CreateBo
import Mathlib.Data.List.DropRight

/-!
# Bots and their owner's pool

The handlers of `routers/bots.py` that move money between a user's pool and the bots, and the one of
`routers/admin.py` that deactivates a bot.  A user's pool is `available`: the initial balance of the
user less the initial balances of the active bots.  A bot is named by its unique name in place of
its number.  The columns keep eight digits.

1. `createBot`, `adjustBotBalance`, `deleteBot` and `adminDeleteBot` are the handlers.
2. Each has a lemma that says what an accepted request did.
-/

namespace PolyArena

open Rounding

/-- What a `Numeric(18, 8)` column stores of a value. -/
abbrev numeric8 (x : ℚ) : ℚ := toColumn 8 x

/-! ## Requests and errors -/

/-- The code points of Python's white space. -/
def pySpaces : List ℕ :=
  [0x09, 0x0a, 0x0b, 0x0c, 0x0d, 0x1c, 0x1d, 0x1e, 0x1f, 0x20, 0x85, 0xa0, 0x1680, 0x2000,
    0x2001, 0x2002,
    0x2003, 0x2004, 0x2005, 0x2006, 0x2007, 0x2008, 0x2009, 0x200a, 0x2028, 0x2029, 0x202f,
      0x205f, 0x3000]

/-- `str.strip`. -/
def strip (s : String) : String :=
  let space (c : Char) : Bool := c.toNat ∈ pySpaces
  String.ofList ((s.toList.dropWhile space).rdropWhile space)

structure BotCreate where
  botName : String
  initialBalance : ℚ := 1000
  deriving DecidableEq, Repr

structure BotBalanceAdjust where
  balance : ℚ
  balance_positive : 0 < balance

/-- The `detail` of the errors. -/
inductive BotDetail
  | userNotFound
  | emptyName
  | nameExists (name : BotName)
  | insufficientPool (available requested : ℚ)
  | insufficientPoolForIncrease (available requested : ℚ)
  | botNotFound
  | notYourBot
  | alreadyDeactivated
  | deactivated
  | pendingTrades (count : ℕ)
  deriving DecidableEq, Repr

def BotDetail.statusCode : BotDetail → ℕ
  | .userNotFound => 401
  | .emptyName => 422
  | .nameExists _ => 409
  | .botNotFound => 404
  | .notYourBot => 403
  | _ => 400

namespace Database

/-! ## The pool -/

/-- The active bots of a user. -/
def activeBots (db : Database) (userId : ℕ) : List Bot :=
  db.bots.rows.filter fun bot => bot.userId = some userId ∧ bot.isActive

/-- The sum of the initial balances of the active bots. -/
def allocated (db : Database) (userId : ℕ) : ℚ :=
  ((db.activeBots userId).map Bot.initialBalance).sum

/-- What is left in the user's pool. -/
def available (db : Database) (user : User) : ℚ := user.initialBalance - db.allocated user.id

def setUser (db : Database) (user : User) : Database := { db with users := db.users.put user }

/-- How many orders of the bot are pending. -/
def pendingCount (db : Database) (name : BotName) : ℕ :=
  (db.orders.rows.filter fun bo => bo.botName = name ∧ bo.result = .pending).length

/-! ## The handlers -/

/-- `get_current_user`.  The users of the model are the active ones; the others are refused. -/
def currentUser (db : Database) (userId : ℕ) : Except BotDetail User :=
  match db.users.get userId with
  | none => .error .userNotFound
  | some user => .ok user

/-- The checks on the bot that a request of the user is about. -/
def ownBot (db : Database) (user : User) (name : BotName) (inactive : BotDetail) :
    Except BotDetail Bot :=
  match db.bots.get name with
  | none => .error .botNotFound
  | some bot =>
    if bot.userId ≠ some user.id then .error .notYourBot
    else if ¬ bot.isActive then .error inactive
    else .ok bot

/-- `create_bot`. -/
def createBot (db : Database) (userId : ℕ) (payload : BotCreate) (apiKey : String) :
    Except BotDetail Database := do
  let user ← db.currentUser userId
  let name := strip payload.botName
  if name = "" then .error .emptyName
  else if h : name ∈ db.bots.rows.map Bot.botName then .error (.nameExists name)
  else if db.available user < payload.initialBalance then
    .error (.insufficientPool (db.available user) payload.initialBalance)
  else
    let bot : Bot :=
      { botName := name
        apiKey := apiKey
        initialBalance := numeric8 payload.initialBalance
        balance := numeric8 payload.initialBalance
        userId := some user.id }
    .ok { db with bots := db.bots.insert bot h }

/-- `adjust_bot_balance`. -/
def adjustBotBalance (db : Database) (userId : ℕ) (name : BotName) (payload : BotBalanceAdjust) :
    Except BotDetail Database := do
  let user ← db.currentUser userId
  let bot ← db.ownBot user name .deactivated
  let delta := payload.balance - bot.initialBalance
  if 0 < delta ∧ db.available user < delta then
    .error (.insufficientPoolForIncrease (db.available user) delta)
  else
    let bot := { bot with
      initialBalance := numeric8 payload.balance
      balance := round8 (bot.balance + delta) }
    .ok { db.setBot bot with
      balanceHistory := db.balanceHistory ++ [⟨bot.botName, bot.balance, none⟩] }

/-- `delete_bot` of the owner: what the bot won or lost goes to the user's initial balance. -/
def deleteBot (db : Database) (userId : ℕ) (name : BotName) : Except BotDetail Database := do
  let user ← db.currentUser userId
  let bot ← db.ownBot user name .alreadyDeactivated
  if 0 < db.pendingCount bot.botName then .error (.pendingTrades (db.pendingCount bot.botName))
  else
    let pnl := bot.balance - bot.initialBalance
    let db := db.setBot { bot with isActive := false, status := .deleted, balance := 0 }
    .ok <|
      if pnl ≠ 0
      then db.setUser { user with initialBalance := round8 (user.initialBalance + pnl) }
      else db

/-- `delete_bot` of the admin. -/
def adminDeleteBot (db : Database) (name : BotName) : Except BotDetail Database :=
  match db.bots.get name with
  | none => .error .botNotFound
  | some bot => .ok (db.setBot { bot with isActive := false })

end Database

/-! ## What an accepted request did -/

section

variable {db db' : Database} {userId : ℕ} {user : User} {bot : Bot} {name : BotName}
  {detail : BotDetail}

theorem currentUser_ok (h : db.currentUser userId = .ok user) :
    db.users.get userId = some user := by
  unfold Database.currentUser at h
  cases hu : db.users.get userId with
  | none => rw [hu] at h; cases h
  | some u => rw [hu] at h; cases h; rfl

theorem ownBot_ok (h : db.ownBot user name detail = .ok bot) :
    db.bots.get name = some bot ∧ bot.userId = some user.id ∧ bot.isActive = true := by
  unfold Database.ownBot at h
  cases hb : db.bots.get name with
  | none => rw [hb] at h; cases h
  | some b =>
    simp only [hb] at h
    split_ifs at h with huser hactive
    cases h
    exact ⟨rfl, not_not.mp huser, by simpa using hactive⟩

/-- **An accepted `create_bot`** adds an active bot whose two balances are what the column stores of
an amount that the pool covers. -/
theorem createBot_ok {payload : BotCreate} {apiKey : String}
    (h : db.createBot userId payload apiKey = .ok db') :
    ∃ user bot, ∃ hnew : bot.botName ∉ db.bots.rows.map Bot.botName,
      db.users.get userId = some user ∧ bot.userId = some user.id ∧ bot.isActive = true ∧
      bot.initialBalance = numeric8 payload.initialBalance ∧
      bot.balance = numeric8 payload.initialBalance ∧ payload.initialBalance ≤ db.available user ∧
      db' = { db with bots := db.bots.insert bot hnew } := by
  unfold Database.createBot at h
  obtain ⟨user, huser, h⟩ := ok_of_bind h
  dsimp only at h
  split_ifs at h with hname hexists hpool
  cases h
  exact ⟨user, _, hexists, currentUser_ok huser, rfl, rfl, rfl, rfl, not_lt.mp hpool, rfl⟩

/-- **An accepted `adjust_bot_balance`** moves both balances of one of the user's active bots. -/
theorem adjustBotBalance_ok {payload : BotBalanceAdjust}
    (h : db.adjustBotBalance userId name payload = .ok db') :
    ∃ user bot, db.users.get userId = some user ∧ db.bots.get name = some bot ∧
      bot.userId = some user.id ∧ bot.isActive = true ∧
      (0 < payload.balance - bot.initialBalance →
        payload.balance - bot.initialBalance ≤ db.available user) ∧
      db'.bots = db.bots.put { bot with
        initialBalance := numeric8 payload.balance
        balance := round8 (bot.balance + (payload.balance - bot.initialBalance)) } ∧
      db'.users = db.users ∧ db'.orders = db.orders := by
  unfold Database.adjustBotBalance at h
  obtain ⟨user, huser, h⟩ := ok_of_bind h
  obtain ⟨bot, hbot, h⟩ := ok_of_bind h
  dsimp only at h
  obtain ⟨hget, hown, hactive⟩ := ownBot_ok hbot
  split_ifs at h with hpool
  cases h
  exact ⟨user, bot, currentUser_ok huser, hget, hown, hactive,
    fun hpos => not_lt.mp fun hlt => hpool ⟨hpos, hlt⟩, rfl, rfl, rfl⟩

/-- **An accepted `delete_bot`** of the owner deactivates one of the user's active bots without
pending orders, and moves what it won or lost to the user. -/
theorem deleteBot_ok (h : db.deleteBot userId name = .ok db') :
    ∃ user bot, db.users.get userId = some user ∧ db.bots.get name = some bot ∧
      bot.userId = some user.id ∧ bot.isActive = true ∧ db.pendingCount name = 0 ∧
      db'.bots = db.bots.put { bot with isActive := false, status := .deleted, balance := 0 } ∧
      db'.users = (if bot.balance - bot.initialBalance ≠ 0 then
        db.users.put { user with
          initialBalance := round8 (user.initialBalance + (bot.balance - bot.initialBalance)) }
        else db.users) ∧ db'.orders = db.orders := by
  unfold Database.deleteBot at h
  obtain ⟨user, huser, h⟩ := ok_of_bind h
  obtain ⟨bot, hbot, h⟩ := ok_of_bind h
  dsimp only at h
  obtain ⟨hget, hown, hactive⟩ := ownBot_ok hbot
  have hname : bot.botName = name := Table.key_of_get hget
  by_cases hpending : 0 < db.pendingCount bot.botName
  · rw [if_pos hpending] at h
    cases h
  · rw [if_neg hpending, Except.ok.injEq] at h
    rw [hname] at hpending
    subst h
    refine ⟨user, bot, currentUser_ok huser, hget, hown, hactive,
      Nat.eq_zero_of_not_pos hpending, ?_, ?_, ?_⟩
    · split_ifs <;> rfl
    · split_ifs <;> rfl
    · split_ifs <;> rfl

/-- The admin's `delete_bot` does nothing but mark the bot. -/
theorem adminDeleteBot_ok (h : db.adminDeleteBot name = .ok db') :
    ∃ bot, db.bots.get name = some bot ∧ db' = db.setBot { bot with isActive := false } := by
  unfold Database.adminDeleteBot at h
  cases hb : db.bots.get name with
  | none => rw [hb] at h; cases h
  | some bot => rw [hb] at h; cases h; exact ⟨bot, rfl, rfl⟩

end

end PolyArena
