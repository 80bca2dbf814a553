import PolyArena.Api.Bots
import PolyArena.Api.FeeBound
import PolyArena.Api.Traded
import PolyArena.Lib.Runs
import Mathlib.Algebra.Group.Submonoid.BigOperators

/-!
# The solvency of a pool

A user's bots and pool are solvent when no active bot has a negative initial balance or balance and
the pool is not overdrawn.

1. `PoolAction.step`: the accepted requests of all users, and every transaction on orders.
2. `PoolAction.Covered`: what the money of a step has to come from, before it is taken.
3. `solvent_request_iff`: an accepted request keeps a user solvent exactly when it is covered;
   `solvent_trade`: so does a covered transaction.
4. `pool_solvent`: so do all runs of covered steps.
5. `negative_bot_accepted`: `create_bot` takes a negative initial balance, which `BotBalanceAdjust`
   excludes.
-/

namespace PolyArena

open Rounding

/-- The columns of the users and the bots hold eight digits. -/
structure OnColumns (db : Database) : Prop where
  user : ∀ user ∈ db.users.rows, user.initialBalance ∈ grid 8
  initialBalance : ∀ bot ∈ db.bots.rows, bot.initialBalance ∈ grid 8
  balance : ∀ bot ∈ db.bots.rows, bot.balance ∈ grid 8

/-- No active bot of the user is in debt, and neither is the pool. -/
structure Solvent (userId : ℕ) (db : Database) : Prop where
  bots : ∀ bot ∈ db.activeBots userId, 0 ≤ bot.initialBalance ∧ 0 ≤ bot.balance
  pool : ∀ user, db.users.get userId = some user → 0 ≤ db.available user

/-- A bot that passes the pre-check for the order can pay the fee of the levels that it takes. -/
def BOCreate.PaysFee (p : BOCreate) (first second : SnapshotRead) (bot : Bot) : Prop :=
  let levels := p.takenLevels first second
  estimateMaxTakerFee p.amount ≤ beforeFee bot.balance p levels →
    takerFeeFromLevels levels ≤ beforeFee bot.balance p levels

instance (p : BOCreate) (first second : SnapshotRead) (bot : Bot) :
    Decidable (p.PaysFee first second bot) :=
  inferInstanceAs (Decidable (_ → _))

/-- The transaction has the money for what it takes off the bots `own`: the bot of a new order can
pay its fee, and an order that is settled or cancelled does not lose more than it holds. -/
def BalanceTransaction.Covered (own : List BotName) (db : Database) : BalanceTransaction → Prop
  | createBo _ apiKey p first second _ =>
    ∀ bot ∈ db.botByKey apiKey, bot.botName ∈ own → p.PaysFee first second bot
  | lateFill now fetch m =>
    ∀ bo ∈ db.orders.get m.boId, bo.botName ∈ own → isLateFill now bo m = true →
      bo.Covered fetch
  | cancel m => ∀ bo ∈ db.orders.get m.boId, bo.botName ∈ own → bo.result = .pending → 0 ≤ bo.amount
  | settle now fetch =>
    ∀ bo ∈ db.orders.rows, bo.botName ∈ own → isDue now bo = true → bo.Covered fetch
  | sweep now fetch => ∀ bo ∈ db.orders.rows, bo.botName ∈ own →
      isStuck now bo = true ∨ isOrphaned now bo = true → bo.Covered fetch
  -- a fill credits a rebate only, and the others leave the balances alone
  | traceQueued .. | fill _ | exit .. | resolved _ => True

instance (own : List BotName) (db : Database) :
    (t : BalanceTransaction) → Decidable (t.Covered own db)
  | .createBo _ apiKey p first second _ =>
    inferInstanceAs (Decidable (∀ bot ∈ db.botByKey apiKey, bot.botName ∈ own →
      p.PaysFee first second bot))
  | .lateFill now fetch m =>
    inferInstanceAs (Decidable (∀ bo ∈ db.orders.get m.boId, bo.botName ∈ own →
      isLateFill now bo m = true → bo.Covered fetch))
  | .cancel m => inferInstanceAs (Decidable (∀ bo ∈ db.orders.get m.boId, bo.botName ∈ own →
      bo.result = .pending → 0 ≤ bo.amount))
  | .settle now fetch => inferInstanceAs (Decidable (∀ bo ∈ db.orders.rows, bo.botName ∈ own →
      isDue now bo = true → bo.Covered fetch))
  | .sweep now fetch => inferInstanceAs (Decidable (∀ bo ∈ db.orders.rows, bo.botName ∈ own →
      isStuck now bo = true ∨ isOrphaned now bo = true → bo.Covered fetch))
  | .traceQueued .. | .fill _ | .exit .. | .resolved _ => .isTrue trivial

inductive PoolAction
  | createBot (userId : ℕ) (payload : BotCreate) (apiKey : String)
  | adjustBotBalance (userId : ℕ) (name : BotName) (payload : BotBalanceAdjust)
  | deleteBot (userId : ℕ) (name : BotName)
  | trade (t : BalanceTransaction)

namespace PoolAction

/-- An accepted request, or a transaction on orders; a refused request changes nothing. -/
def step (db : Database) : PoolAction → Option Database
  | createBot userId payload apiKey => (db.createBot userId payload apiKey).toOption
  | adjustBotBalance userId name payload => (db.adjustBotBalance userId name payload).toOption
  | deleteBot userId name => (db.deleteBot userId name).toOption
  | trade t => some (t.apply db)

/-- The user's new bot does not start in debt, a bot has what a decrease takes off it, and a
transaction on orders is covered for the active bots of the user. -/
def Covered (userId : ℕ) (db : Database) : PoolAction → Prop
  | createBot u payload _ => u = userId → 0 ≤ numeric8 payload.initialBalance
  | adjustBotBalance u name payload => u = userId → ∀ bot ∈ db.bots.get name,
      0 ≤ round8 (bot.balance + (payload.balance - bot.initialBalance))
  | deleteBot .. => True
  | trade t => t.Covered ((db.activeBots userId).map Bot.botName) db

instance (userId : ℕ) (db : Database) : (a : PoolAction) → Decidable (a.Covered userId db)
  | .createBot u payload _ =>
    inferInstanceAs (Decidable (u = userId → 0 ≤ numeric8 payload.initialBalance))
  | .adjustBotBalance u name payload =>
    inferInstanceAs (Decidable (u = userId → ∀ bot ∈ db.bots.get name,
      0 ≤ round8 (bot.balance + (payload.balance - bot.initialBalance))))
  | .deleteBot .. => .isTrue trivial
  | .trade t => inferInstanceAs (Decidable (t.Covered ((db.activeBots userId).map Bot.botName) db))

end PoolAction

section

variable {db db' db₀ : Database} {userId u : ℕ} {user : User} {bot bot' : Bot} {name : BotName}
  {a : PoolAction}

/-! ## Sums over the active bots -/

/-- What an active bot of the user counts for in a sum over them. -/
def shareOf (userId : ℕ) (f : Bot → ℚ) (bot : Bot) : ℚ :=
  if bot.userId = some userId ∧ bot.isActive then f bot else 0

theorem sum_activeBots (db : Database) (userId : ℕ) (f : Bot → ℚ) :
    ((db.activeBots userId).map f).sum = db.bots.total (shareOf userId f) := by
  unfold Database.activeBots Table.total
  induction db.bots.rows with
  | nil => rfl
  | cons bot rows ih =>
    by_cases h : bot.userId = some userId ∧ bot.isActive
    · rw [List.filter_cons_of_pos (by simpa using h), List.map_cons, List.map_cons, List.sum_cons,
        List.sum_cons, ih, shareOf, if_pos h]
    · rw [List.filter_cons_of_neg (by simpa using h), List.map_cons, List.sum_cons, ih,
        shareOf, if_neg h, zero_add]

theorem allocated_eq (db : Database) (userId : ℕ) :
    db.allocated userId = db.bots.total (shareOf userId Bot.initialBalance) :=
  sum_activeBots db userId Bot.initialBalance

theorem total_insert (f : Bot → ℚ) (hnew : bot.botName ∉ db.bots.rows.map Bot.botName) :
    (db.bots.insert bot hnew).total f = db.bots.total f + f bot := by
  unfold Table.total Table.insert
  rw [List.map_append, List.sum_append, List.map_singleton, List.sum_singleton]

theorem mem_activeBots : bot ∈ db.activeBots userId ↔
    bot ∈ db.bots.rows ∧ bot.userId = some userId ∧ bot.isActive = true := by
  unfold Database.activeBots
  rw [List.mem_filter, decide_eq_true_eq]

theorem shareOf_own (f : Bot → ℚ) (huser : bot.userId = some userId)
    (hactive : bot.isActive = true) :
    shareOf userId f bot = f bot := if_pos ⟨huser, hactive⟩

theorem shareOf_other (f : Bot → ℚ) (huser : bot.userId = some u) (hne : u ≠ userId) :
    shareOf userId f bot = 0 :=
  if_neg fun h => hne (Option.some.inj (huser.symm.trans h.1))

theorem shareOf_inactive (f : Bot → ℚ) (h : bot.isActive = false) : shareOf userId f bot = 0 :=
  if_neg fun h' => by rw [h] at h'; cases h'.2

theorem total_mem_grid {f : Bot → ℚ} (h : ∀ bot ∈ db.bots.rows, f bot ∈ grid 8) :
    db.bots.total f ∈ grid 8 := by
  refine list_sum_mem fun x hx => ?_
  obtain ⟨bot, hbot, rfl⟩ := List.mem_map.mp hx
  exact h bot hbot

theorem OnColumns.allocated (h : OnColumns db) (userId : ℕ) : db.allocated userId ∈ grid 8 := by
  rw [allocated_eq]
  refine total_mem_grid fun bot hbot => ?_
  unfold shareOf
  split
  · exact h.initialBalance bot hbot
  · exact zero_mem _

theorem OnColumns.available (h : OnColumns db) (huser : db.users.get userId = some user) :
    db.available user ∈ grid 8 :=
  sub_mem (h.user user (Table.mem_of_get huser)) (h.allocated user.id)

/-! ## The columns -/

theorem OnColumns.put (h : OnColumns db) (hbots : db'.bots = db.bots.put bot)
    (husers : db'.users = db.users) (hinitial : bot.initialBalance ∈ grid 8)
    (hbalance : bot.balance ∈ grid 8) : OnColumns db' where
  user := husers ▸ h.user
  initialBalance := by
    intro x hx
    rw [hbots] at hx
    rcases Table.mem_put hx with rfl | ⟨hx, -⟩
    · exact hinitial
    · exact h.initialBalance x hx
  balance := by
    intro x hx
    rw [hbots] at hx
    rcases Table.mem_put hx with rfl | ⟨hx, -⟩
    · exact hbalance
    · exact h.balance x hx

theorem OnColumns.trades (h : OnColumns db) (ht : Trades KeepsBot db db') : OnColumns db' := by
  obtain ⟨husers, f, hf, hkeeps⟩ := ht
  refine ⟨husers ▸ h.user, fun x hx => ?_, fun x hx => ?_⟩
  · rw [hf] at hx
    obtain ⟨bot, hbot, rfl⟩ := List.mem_map.mp hx
    rw [(hkeeps bot hbot).initialBalance]
    exact h.initialBalance bot hbot
  · rw [hf] at hx
    obtain ⟨bot, hbot, rfl⟩ := List.mem_map.mp hx
    exact (hkeeps bot hbot).onGrid (h.balance bot hbot)

theorem toOption_ok {ε α : Type} {x : Except ε α} {y : α} (h : x.toOption = some y) :
    x = .ok y := by
  cases x with
  | error e => cases h
  | ok z => cases h; rfl

/-- **Every step** keeps the columns. -/
theorem onColumns_step (h : OnColumns db) (hstep : PoolAction.step db a = some db') :
    OnColumns db' := by
  cases a with
  | createBot u payload apiKey =>
    obtain ⟨user, bot, hnew, -, -, -, hinitial, hbalance, -, rfl⟩ :=
      createBot_ok (toOption_ok hstep)
    refine ⟨h.user, fun x hx => ?_, fun x hx => ?_⟩
    · rcases List.mem_append.mp hx with hx | hx
      · exact h.initialBalance x hx
      · rw [List.mem_singleton.mp hx, hinitial]
        exact toColumn_mem_grid _ _
    · rcases List.mem_append.mp hx with hx | hx
      · exact h.balance x hx
      · rw [List.mem_singleton.mp hx, hbalance]
        exact toColumn_mem_grid _ _
  | adjustBotBalance u name payload =>
    obtain ⟨user, bot, -, -, -, -, -, hbots, husers, -⟩ := adjustBotBalance_ok (toOption_ok hstep)
    exact h.put hbots husers (toColumn_mem_grid _ _) (roundTo_mem_grid _ _)
  | deleteBot u name =>
    obtain ⟨user, bot, -, hget, -, -, -, hbots, husers, -⟩ := deleteBot_ok (toOption_ok hstep)
    have hput : OnColumns (db.setBot { bot with
        isActive := false, status := .deleted, balance := 0 }) :=
      h.put rfl rfl (h.initialBalance bot (Table.mem_of_get hget)) (zero_mem _)
    refine ⟨fun x hx => ?_, hbots ▸ hput.initialBalance, hbots ▸ hput.balance⟩
    rw [husers] at hx
    split at hx
    · rcases Table.mem_put hx with rfl | ⟨hx, -⟩
      · exact roundTo_mem_grid _ _
      · exact h.user x hx
    · exact h.user x hx
  | trade t =>
    cases hstep
    exact h.trades (trades_apply t)

/-! ## What the requests do to the pool -/

theorem userId_eq (huser : db.users.get u = some user) : user.id = u := Table.key_of_get huser

/-- The pool of the user after a decision on a bot that the user owns. -/
theorem allocated_put (userId : ℕ) (hbots : db'.bots = db.bots.put bot')
    (hget : db.bots.get bot.botName = some bot) (hname : bot'.botName = bot.botName) :
    db'.allocated userId = db.allocated userId -
      shareOf userId Bot.initialBalance bot + shareOf userId Bot.initialBalance bot' := by
  rw [allocated_eq, allocated_eq, hbots, Table.total_put _ (hname ▸ hget)]

/-- What a deletion adds to the user's initial balance. -/
theorem deleted_user (h : OnColumns db) (huser : db.users.get u = some user)
    (hbot : bot ∈ db.bots.rows) (husers : db'.users = if bot.balance - bot.initialBalance ≠ 0 then
      db.users.put { user with
        initialBalance := round8 (user.initialBalance + (bot.balance - bot.initialBalance)) }
      else db.users) :
    db'.users.get u = some { user with
      initialBalance := user.initialBalance + (bot.balance - bot.initialBalance) } := by
  have hgrid : user.initialBalance + (bot.balance - bot.initialBalance) ∈ grid 8 :=
    add_mem (h.user user (Table.mem_of_get huser))
      (sub_mem (h.balance bot hbot) (h.initialBalance bot hbot))
  have hid : user.id = u := userId_eq huser
  rw [husers]
  split
  · rw [round8, roundTo_of_mem hgrid]
    subst hid
    exact Table.get_put_self (a := { user with
      initialBalance := user.initialBalance + (bot.balance - bot.initialBalance) }) huser
  · next hzero =>
    rw [huser, not_not.mp hzero, add_zero]

/-- Only the active bots, their initial balances and the user count. -/
theorem solvent_congr (hbots : ∀ x, x ∈ db'.activeBots userId ↔ x ∈ db.activeBots userId)
    (husers : db'.users.get userId = db.users.get userId)
    (hallocated : db'.allocated userId = db.allocated userId) : Solvent userId db' ↔
      Solvent userId db := by
  have hpool : ∀ user, db.users.get userId = some user →
      db'.available user = db.available user := by
    intro user huser
    rw [Database.available, Database.available, userId_eq huser, hallocated]
  constructor
  · exact fun h => ⟨fun x hx => h.bots x ((hbots x).mpr hx), fun user huser =>
      hpool user huser ▸ h.pool user (husers.trans huser)⟩
  · exact fun h => ⟨fun x hx => h.bots x ((hbots x).mp hx), fun user huser =>
      (hpool user (husers.symm.trans huser)).symm ▸ h.pool user (husers.symm.trans huser)⟩

/-- Work on a bot of another user. -/
theorem solvent_put_other (hbots : db'.bots = db.bots.put bot')
    (hget : db.bots.get bot.botName = some bot) (hname : bot'.botName = bot.botName)
    (huser : bot.userId = some u) (huser' : bot'.userId = some u) (hne : u ≠ userId)
    (husers : db'.users.get userId = db.users.get userId) :
    Solvent userId db' ↔ Solvent userId db := by
  refine solvent_congr (fun x => ?_) husers ?_
  · rw [mem_activeBots, mem_activeBots, hbots]
    constructor
    · rintro ⟨hx, hown, hactive⟩
      rcases Table.mem_put hx with rfl | ⟨hx, -⟩
      · exact absurd (Option.some.inj (huser'.symm.trans hown)) hne
      · exact ⟨hx, hown, hactive⟩
    · rintro ⟨hx, hown, hactive⟩
      refine ⟨List.mem_map.mpr ⟨x, hx, if_neg fun hkey => hne ?_⟩, hown, hactive⟩
      have hsame := Table.get_of_mem hx
      rw [hkey, hname, hget] at hsame
      cases hsame
      exact Option.some.inj (huser.symm.trans hown)
  · rw [allocated_put userId hbots hget hname, shareOf_other _ huser hne,
      shareOf_other _ huser' hne, sub_zero, add_zero]

/-! ## The steps -/

theorem solvent_createBot {payload : BotCreate} {apiKey : String} (h : Solvent userId db)
    (hcol : OnColumns db) (hok : db.createBot u payload apiKey = .ok db') :
    Solvent userId db' ↔ (u = userId → 0 ≤ numeric8 payload.initialBalance) := by
  obtain ⟨user, bot, hnew, huser, hown, hactive, hinitial, hbalance, hpool, rfl⟩ := createBot_ok hok
  rw [userId_eq huser] at hown
  have hallocated : Database.allocated { db with bots := db.bots.insert bot hnew } userId =
      db.allocated userId + shareOf userId Bot.initialBalance bot := by
    rw [allocated_eq, allocated_eq]
    exact total_insert _ hnew
  have hmem : ∀ x, x ∈ Database.activeBots { db with bots := db.bots.insert bot hnew } userId ↔
      x ∈ db.activeBots userId ∨ x = bot ∧ u = userId := by
    intro x
    rw [mem_activeBots, mem_activeBots]
    change x ∈ db.bots.rows ++ [bot] ∧ _ ↔ _
    rw [List.mem_append, List.mem_singleton]
    constructor
    · rintro ⟨hx | rfl, hx'⟩
      · exact .inl ⟨hx, hx'⟩
      · exact .inr ⟨rfl, Option.some.inj (hown.symm.trans hx'.1)⟩
    · rintro (⟨hx, hx'⟩ | ⟨rfl, rfl⟩)
      · exact ⟨.inl hx, hx'⟩
      · exact ⟨.inr rfl, hown, hactive⟩
  by_cases hu : u = userId
  · subst hu
    constructor
    · intro h' _
      rw [← hinitial]
      exact (h'.bots bot ((hmem bot).mpr (.inr ⟨rfl, rfl⟩))).1
    · intro hpos
      have hpos := hpos rfl
      refine ⟨fun x hx => ?_, fun user' huser' => ?_⟩
      · rcases (hmem x).mp hx with hx | ⟨rfl, -⟩
        · exact h.bots x hx
        · rw [hinitial, hbalance]
          exact ⟨hpos, hpos⟩
      · obtain rfl : user = user' := Option.some.inj (huser.symm.trans huser')
        have hle : numeric8 payload.initialBalance ≤ db.available user :=
          toColumn_le_of_mem (hcol.available huser) hpool
        unfold Database.available at hle ⊢
        rw [userId_eq huser] at hle ⊢
        rw [hallocated, shareOf_own _ hown hactive, hinitial]
        linarith
  · rw [shareOf_other _ hown hu, add_zero] at hallocated
    have hsame := fun x => (hmem x).trans (or_iff_left fun hx => hu hx.2)
    exact iff_of_true ((solvent_congr hsame rfl hallocated).mpr h) fun hu' => absurd hu' hu

theorem solvent_adjustBotBalance {payload : BotBalanceAdjust} (h : Solvent userId db)
    (hcol : OnColumns db) (hok : db.adjustBotBalance u name payload = .ok db') :
    Solvent userId db' ↔ (u = userId → ∀ bot ∈ db.bots.get name,
      0 ≤ round8 (bot.balance + (payload.balance - bot.initialBalance))) := by
  obtain ⟨user, bot, huser, hget, hown, hactive, hpool, hbots, husers, -⟩ := adjustBotBalance_ok hok
  rw [userId_eq huser] at hown
  have hget' : db.bots.get bot.botName = some bot := Table.get_key_of_get hget
  have hmem := Table.mem_of_get hget
  by_cases hu : u = userId
  · subst hu
    constructor
    · intro h' _ bot' hbot'
      obtain rfl : bot = bot' := Option.some.inj (hget.symm.trans hbot')
      have hput := Table.mem_put_self (a := { bot with
        initialBalance := numeric8 payload.balance
        balance := round8 (bot.balance + (payload.balance - bot.initialBalance)) }) hget'
      rw [← hbots] at hput
      exact (h'.bots _ (mem_activeBots.mpr ⟨hput, hown, hactive⟩)).2
    · intro hpos
      refine ⟨fun x hx => ?_, fun user' huser' => ?_⟩
      · obtain ⟨hx, hown', hactive'⟩ := mem_activeBots.mp hx
        rw [hbots] at hx
        rcases Table.mem_put hx with rfl | ⟨hx, -⟩
        · exact ⟨toColumn_nonneg payload.balance_positive.le, hpos rfl bot hget⟩
        · exact h.bots x (mem_activeBots.mpr ⟨hx, hown', hactive'⟩)
      · rw [husers] at huser'
        obtain rfl : user = user' := Option.some.inj (huser.symm.trans huser')
        have havail := h.pool user huser
        have hgrid : db.available user + bot.initialBalance ∈ grid 8 :=
          add_mem (hcol.available huser) (hcol.initialBalance bot hmem)
        have hle : numeric8 payload.balance ≤ db.available user + bot.initialBalance := by
          refine toColumn_le_of_mem hgrid ?_
          rcases lt_or_ge 0 (payload.balance - bot.initialBalance) with hinc | hdec
          · linarith [hpool hinc]
          · linarith
        have hallocated := allocated_put u hbots hget' rfl
        unfold Database.available at hle ⊢
        rw [userId_eq huser] at hle ⊢
        rw [hallocated, shareOf_own _ hown hactive,
          shareOf_own _ (by exact hown) (by exact hactive)]
        dsimp only
        linarith
  · exact iff_of_true ((solvent_put_other hbots hget' rfl hown hown hu (by rw [husers])).mpr h)
      fun hu' => absurd hu' hu

theorem solvent_deleteBot (h : Solvent userId db) (hcol : OnColumns db)
    (hok : db.deleteBot u name = .ok db') : Solvent userId db' := by
  obtain ⟨user, bot, huser, hget, hown, hactive, -, hbots, husers, -⟩ := deleteBot_ok hok
  have hid := userId_eq huser
  rw [hid] at hown
  have hget' : db.bots.get bot.botName = some bot := Table.get_key_of_get hget
  by_cases hu : u = userId
  · subst hu
    refine ⟨fun x hx => ?_, fun user' huser' => ?_⟩
    · obtain ⟨hx, hown', hactive'⟩ := mem_activeBots.mp hx
      rw [hbots] at hx
      rcases Table.mem_put hx with rfl | ⟨hx, -⟩
      · cases hactive'
      · exact h.bots x (mem_activeBots.mpr ⟨hx, hown', hactive'⟩)
    · rw [deleted_user hcol huser (Table.mem_of_get hget) husers, Option.some.injEq] at huser'
      subst huser'
      have havail := h.pool user huser
      have hbalance := (h.bots bot (mem_activeBots.mpr ⟨Table.mem_of_get hget, hown, hactive⟩)).2
      have hallocated := allocated_put u hbots hget' rfl
      unfold Database.available at havail ⊢
      rw [hid] at havail ⊢
      rw [hallocated, shareOf_own _ hown hactive, shareOf_inactive _ rfl]
      linarith
  · refine (solvent_put_other hbots hget' rfl hown hown hu ?_).mpr h
    rw [husers]
    split
    · exact Table.get_put_ne fun hkey => hu (by rw [← hid]; exact hkey.symm)
    · rfl

/-- Trading keeps the pool. -/
theorem solvent_trades (h : Solvent userId db) (ht : Trades KeepsBot db db') :
    Solvent userId db' ↔ ∀ bot ∈ db'.activeBots userId, 0 ≤ bot.balance := by
  refine ⟨fun h' bot hbot => (h'.bots bot hbot).2, fun hpos => ?_⟩
  obtain ⟨husers, f, hf, hkeeps⟩ := ht
  have hshare : ∀ bot ∈ db.bots.rows,
      shareOf userId Bot.initialBalance (f bot) = shareOf userId Bot.initialBalance bot := by
    intro bot hbot
    unfold shareOf
    rw [(hkeeps bot hbot).userId, (hkeeps bot hbot).isActive, (hkeeps bot hbot).initialBalance]
  have hallocated : db'.allocated userId = db.allocated userId := by
    rw [allocated_eq, allocated_eq, Table.total, Table.total, hf, List.map_map]
    exact congrArg List.sum (List.map_congr_left hshare)
  refine ⟨fun x hx => ⟨?_, hpos x hx⟩, fun user huser => ?_⟩
  · obtain ⟨hrow, hown, hactive⟩ := mem_activeBots.mp hx
    rw [hf] at hrow
    obtain ⟨bot, hbot, rfl⟩ := List.mem_map.mp hrow
    have hk := hkeeps bot hbot
    rw [hk.initialBalance]
    exact (h.bots bot (mem_activeBots.mpr ⟨hbot, hk.userId ▸ hown, hk.isActive ▸ hactive⟩)).1
  · rw [husers] at huser
    have havail := h.pool user huser
    rwa [Database.available, userId_eq huser, ← hallocated, ← userId_eq huser] at havail

/-- **An accepted request** keeps a user solvent exactly when it is covered. -/
theorem solvent_request_iff (h : Solvent userId db) (hcol : OnColumns db)
    (hstep : PoolAction.step db a = some db') (hrequest : ∀ t, a ≠ .trade t) :
    Solvent userId db' ↔ a.Covered userId db := by
  cases a with
  | createBot u payload apiKey => exact solvent_createBot h hcol (toOption_ok hstep)
  | adjustBotBalance u name payload => exact solvent_adjustBotBalance h hcol (toOption_ok hstep)
  | deleteBot u name => exact iff_of_true (solvent_deleteBot h hcol (toOption_ok hstep)) trivial
  | trade t => exact absurd rfl (hrequest t)

/-! ## Transactions -/

/-- Nothing that pays only brings a bot into debt. -/
theorem nonneg_of_pays (h : Solvent userId db) (hcol : OnColumns db)
    (ht : Trades (PaysBot ((db.activeBots userId).map Bot.botName)) db db') :
    ∀ bot ∈ db'.activeBots userId, 0 ≤ bot.balance := by
  obtain ⟨-, f, hf, hpays⟩ := ht
  intro x hx
  obtain ⟨hrow, hown, hactive⟩ := mem_activeBots.mp hx
  rw [hf] at hrow
  obtain ⟨bot, hbot, rfl⟩ := List.mem_map.mp hrow
  have hp := hpays bot hbot
  have hmem := mem_activeBots.mpr ⟨hbot, hp.userId ▸ hown, hp.isActive ▸ hactive⟩
  exact (h.bots bot hmem).2.trans (hp.le (List.mem_map_of_mem hmem) (hcol.balance bot hbot))

/-- A bot that can pay the fee has a balance after its order. -/
theorem nonneg_insertBo {now : Time} {apiKey : String} {p : BOCreate}
    {first second : SnapshotRead} {k : ℕ}
    (h : Solvent userId db) (hcovered : ∀ bot ∈ db.botByKey apiKey,
      bot.botName ∈ (db.activeBots userId).map Bot.botName → p.PaysFee first second bot) :
    ∀ bot ∈ (insertBo now apiKey p first second k db).activeBots userId, 0 ≤ bot.balance := by
  intro x hx
  unfold insertBo at hx
  split at hx
  · next hfresh =>
    cases hc : createBo now db apiKey p first second false ⟨k, hfresh⟩ with
    | error e =>
      rw [hc] at hx
      exact (h.bots x hx).2
    | ok c =>
      rw [hc] at hx
      obtain ⟨hrow, hown, hactive⟩ := mem_activeBots.mp hx
      obtain ⟨r, d, hadmit, -, rfl⟩ := createBo_ok hc
      have hbot := (admitRequest_ok hadmit).1
      have hself := Table.get_of_mem hrow
      rcases Table.mem_put hrow with rfl | ⟨hold, -⟩
      · -- the bot of the order
        obtain ⟨after, hafter, hbalance, hnonneg, hcheck⟩ := balance_createBo hc hbot
        obtain rfl := Option.some.inj (hself.symm.trans hafter)
        rw [entryLevels_createBo hc] at hbalance hnonneg hcheck
        have hmine : r.bot ∈ db.activeBots userId :=
          mem_activeBots.mpr ⟨List.mem_of_find?_eq_some hbot, hown, hactive⟩
        rw [hbalance, sub_nonneg]
        by_cases hnil : p.takenLevels first second = []
        · rw [hnil] at hnonneg ⊢
          exact (roundTo_zero 8).trans_le hnonneg
        · exact hcovered r.bot hbot (List.mem_map_of_mem hmine) (hcheck hnil)
      · exact (h.bots x (mem_activeBots.mpr ⟨hold, hown, hactive⟩)).2
  · exact (h.bots x hx).2

/-- **A covered transaction** keeps a user solvent. -/
theorem solvent_trade (h : Solvent userId db) (hcol : OnColumns db) {t : BalanceTransaction}
    (hcovered : t.Covered ((db.activeBots userId).map Bot.botName) db) :
    Solvent userId (t.apply db) := by
  refine (solvent_trades h (trades_apply t)).mpr ?_
  cases t with
  | createBo now apiKey p first second id => exact nonneg_insertBo h hcovered
  | traceQueued k a => exact nonneg_of_pays h hcol (trades_recordQueued paysBot_relation k a)
  | fill m => exact nonneg_of_pays h hcol (trades_recordFillOf paysBot_relation m)
  | lateFill now fetch m =>
    exact nonneg_of_pays h hcol (trades_settleLateFill paysBot_relation m fun bo hbo hlate =>
      paysBot_allows_credits fun hown => hcovered bo hbo hown hlate)
  | cancel m =>
    exact nonneg_of_pays h hcol (trades_cancel paysBot_relation m fun bo hbo hpending =>
      paysBot_allows fun hown => hcovered bo hbo hown hpending)
  | exit now m => exact nonneg_of_pays h hcol (trades_exit paysBot_relation m)
  | resolved boIds => exact nonneg_of_pays h hcol (trades_resolved paysBot_relation boIds)
  | settle now fetch =>
    exact nonneg_of_pays h hcol (trades_settle paysBot_relation fun bo hbo hdue =>
      paysBot_allows_credits fun hown => hcovered bo hbo hown hdue)
  | sweep now fetch =>
    exact nonneg_of_pays h hcol (trades_sweep paysBot_relation fun bo hbo hstuck =>
      paysBot_allows_credits fun hown => hcovered bo hbo hown hstuck)

theorem solvent_step (h : Solvent userId db) (hcol : OnColumns db) (hcovered : a.Covered userId db)
    (hstep : PoolAction.step db a = some db') : Solvent userId db' := by
  by_cases htrade : ∃ t, a = .trade t
  · obtain ⟨t, rfl⟩ := htrade
    cases hstep
    exact solvent_trade h hcol hcovered
  · exact (solvent_request_iff h hcol hstep fun t ht => htrade ⟨t, ht⟩).mpr hcovered

/-- **Pool solvency.** In every run of accepted requests and transactions on orders that are
covered, the active bots of the user are never in debt, and neither is the pool. -/
theorem pool_solvent (hcol : OnColumns db₀) (h₀ : Solvent userId db₀)
    (hrun : Run PoolAction.step (PoolAction.Covered userId) db₀ db) : Solvent userId db := by
  have h : OnColumns db ∧ Solvent userId db :=
    Run.invariant (fun db => OnColumns db ∧ Solvent userId db)
      ⟨hcol, h₀⟩ (fun _ _ _ h hguard hstep =>
        ⟨onColumns_step h.1 hstep, solvent_step h.2 h.1 hguard hstep⟩) hrun
  exact h.2

end

/-! ## Samples -/

/-- A user with a pool of `100` and no bots. -/
def poolDb : Database where
  bots := ⟨[], List.nodup_nil⟩
  orders := ⟨[], List.nodup_nil⟩
  users := ⟨[⟨1, 100⟩], nodup_sampleUser⟩

theorem onColumns_poolDb : OnColumns poolDb where
  user := by decide +kernel
  initialBalance := fun _ h => nomatch h
  balance := fun _ h => nomatch h

theorem solvent_poolDb : Solvent 1 poolDb where
  bots := fun _ h => nomatch h
  pool := by
    intro user huser
    cases huser
    decide +kernel

/-- The candle falls. -/
def fallingFetch : CandleFetch := fun _ => some ⟨101, 100⟩

/-- The user makes a bot, which loses an order of `10`, takes half of it back, and deletes it. -/
theorem pool_solvent_deleted : ∃ db, Run PoolAction.step (PoolAction.Covered 1) poolDb db ∧
    (db.activeBots 1).length = 0 ∧ (db.orders.get 1).any (fun bo => bo.result = .loss) ∧
      Solvent 1 db := by
  have hexec : (exec PoolAction.step (PoolAction.Covered 1) poolDb
      [.createBot 1 ⟨" alpha ", 60⟩ "k", .trade (.createBo 1000 "k" fokRequest dearAsks dearAsks 1),
        .trade (.settle 2000 fallingFetch), .adjustBotBalance 1 "alpha" ⟨30, by norm_num⟩,
        .deleteBot 1 "alpha"]).any fun db =>
          decide ((db.activeBots 1).length = 0 ∧ (db.orders.get 1).any fun bo =>
            bo.result = .loss) := by
    decide +kernel
  obtain ⟨db, hdb, hend⟩ := (Option.any_eq_true _ _).mp hexec
  obtain ⟨hnone, hlost⟩ := of_decide_eq_true hend
  exact ⟨db, run_of_exec hdb, hnone, hlost, pool_solvent onColumns_poolDb solvent_poolDb
    (run_of_exec hdb)⟩

/-- **A bot in debt from the start**: `create_bot` accepts an initial balance of `-50`, and the pool
grows by it. -/
theorem negative_bot_accepted : ∃ db, Run PoolAction.step (fun _ _ => True) poolDb db ∧
    ¬ Solvent 1 db := by
  have hexec :
    (exec PoolAction.step (fun _ _ => True) poolDb [.createBot 1 ⟨"alpha", -50⟩ "k"]).any fun db =>
      (db.activeBots 1).any fun bot => bot.balance < 0 := by
    decide +kernel
  obtain ⟨db, hdb, hdebt⟩ := (Option.any_eq_true _ _).mp hexec
  obtain ⟨bot, hbot, hneg⟩ := List.any_eq_true.mp hdebt
  exact ⟨db, run_of_exec hdb, fun h => (of_decide_eq_true hneg).not_ge (h.bots bot hbot).2⟩

end PolyArena
