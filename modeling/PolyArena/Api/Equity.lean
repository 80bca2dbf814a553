import PolyArena.Api.PoolSolvency
import PolyArena.Ledger

/-!
# The equity of a user

A user's equity is the pool and the balances of the active bots.  It is spread over three columns of
two tables, and the handlers that manage bots move it between them.

1. `equity_conserved_iff`: which of them leave the equity of a user as it was and move what a
   deactivated bot won or lost to the user's initial balance.
2. `realized_continuous_iff`: the owner's deletion of a bot leaves the realized balance as it was
   exactly when the bot paid no fees on balance.
-/

namespace PolyArena

open Rounding

/-- The available pool and the balances of the active bots. -/
def Database.equity (db : Database) (user : User) : ℚ :=
  db.available user + ((db.activeBots user.id).map Bot.balance).sum

/-- What a bot won or lost. -/
def Bot.pnl (bot : Bot) : ℚ := bot.balance - bot.initialBalance

inductive ManagementAction
  | createBot (userId : ℕ) (payload : BotCreate) (apiKey : String)
  | adjustBotBalance (userId : ℕ) (name : BotName) (payload : BotBalanceAdjust)
  | deleteBot (userId : ℕ) (name : BotName)
  | adminDeleteBot (name : BotName)

namespace ManagementAction

/-- An accepted request. -/
def step (db : Database) : ManagementAction → Option Database
  | createBot userId payload apiKey => (db.createBot userId payload apiKey).toOption
  | adjustBotBalance userId name payload => (db.adjustBotBalance userId name payload).toOption
  | deleteBot userId name => (db.deleteBot userId name).toOption
  | adminDeleteBot name => (db.adminDeleteBot name).toOption

/-- The handler rounds the bot's balance as the column rounds its initial balance, and the admin
deactivates no active bot of the user that won or lost anything. -/
def Conserves (userId : ℕ) (db : Database) : ManagementAction → Prop
  | createBot .. => True
  | adjustBotBalance u name payload => u = userId → ∀ bot ∈ db.bots.get name,
      round8 (bot.balance + (payload.balance - bot.initialBalance)) =
        bot.balance + (numeric8 payload.balance - bot.initialBalance)
  | deleteBot .. => True
  | adminDeleteBot name => ∀ bot ∈ db.bots.get name,
      bot.userId = some userId → bot.isActive = true → bot.balance = bot.initialBalance

end ManagementAction

/-- The equity of the user stayed, and what a bot that is not active any more won or lost went to
the initial balance. -/
structure EquityKept (userId : ℕ) (db db' : Database) (user user' : User) : Prop where
  found : db'.users.get userId = some user'
  equity : db'.equity user' = db.equity user
  absorbed : ∀ bot ∈ db.activeBots userId, ∀ bot' ∈ db'.bots.rows, bot'.botName = bot.botName →
    bot'.isActive = false → user'.initialBalance = user.initialBalance + bot.pnl

section

variable {db db' : Database} {userId u : ℕ} {user user' : User} {bot bot' : Bot} {name : BotName}
  {a : ManagementAction}

theorem equity_eq (hid : user.id = userId) : db.equity user = user.initialBalance -
    db.bots.total (shareOf userId Bot.initialBalance) +
      db.bots.total (shareOf userId Bot.balance) := by
  rw [Database.equity, Database.available, hid, allocated_eq, sum_activeBots]

/-- Overwriting a bot moves the equity by what it counts for. -/
theorem equity_put (user user' : User) (bot' : Bot) (hbots : db'.bots = db.bots.put bot')
    (hget : db.bots.get bot.botName = some bot) (hname : bot'.botName = bot.botName)
    (hid : user.id = userId) (hid' : user'.id = userId) :
    db'.equity user' = db.equity user + (user'.initialBalance - user.initialBalance) +
      (shareOf userId Bot.balance bot' - shareOf userId Bot.initialBalance bot') -
      (shareOf userId Bot.balance bot - shareOf userId Bot.initialBalance bot) := by
  rw [equity_eq hid, equity_eq hid', hbots, Table.total_put _ (hname ▸ hget),
    Table.total_put _ (hname ▸ hget)]
  ring

theorem eq_of_mem (hget : db.bots.get bot.botName = some bot) (hmem : bot' ∈ db.bots.rows)
    (hname : bot'.botName = bot.botName) : bot' = bot := by
  have h := Table.get_of_mem hmem
  rw [hname, hget] at h
  exact (Option.some.inj h).symm

/-- A bot that was active and is overwritten by an active one was not deactivated. -/
theorem not_deactivated (hbots : db'.bots = db.bots.put bot) (hactive : bot.isActive = true)
    {x x' : Bot} (hx : x ∈ db.activeBots userId) (hx' : x' ∈ db'.bots.rows)
    (hname : x'.botName = x.botName) :
    x'.isActive = true := by
  obtain ⟨hrow, -, hxactive⟩ := mem_activeBots.mp hx
  rw [hbots] at hx'
  rcases Table.mem_put hx' with rfl | ⟨hx', -⟩
  · exact hactive
  · rw [eq_of_mem (Table.get_of_mem hrow) hx' hname]
    exact hxactive

theorem equity_createBot {payload : BotCreate} {apiKey : String}
    (huser : db.users.get userId = some user) (hok : db.createBot u payload apiKey = .ok db') :
    EquityKept userId db db' user user := by
  obtain ⟨owner, bot, hnew, -, -, -, hinitial, hbalance, -, rfl⟩ := createBot_ok hok
  refine ⟨huser, ?_, fun x hx x' hx' hname hinactive => ?_⟩
  · have hsame : shareOf userId Bot.initialBalance bot = shareOf userId Bot.balance bot := by
      unfold shareOf
      rw [hinitial, hbalance]
    rw [equity_eq (userId_eq huser), equity_eq (userId_eq huser)]
    change _ - (db.bots.insert bot hnew).total _ + (db.bots.insert bot hnew).total _ = _
    rw [total_insert, total_insert, hsame]
    ring
  · obtain ⟨hrow, -, hactive⟩ := mem_activeBots.mp hx
    rcases List.mem_append.mp hx' with hx' | hx'
    · rw [eq_of_mem (Table.get_of_mem hrow) hx' hname, hactive] at hinactive
      cases hinactive
    · rw [List.mem_singleton.mp hx'] at hname
      exact absurd (hname ▸ List.mem_map_of_mem hrow) hnew

theorem equity_adjustBotBalance {payload : BotBalanceAdjust}
    (huser : db.users.get userId = some user) (hok : db.adjustBotBalance u name payload = .ok db') :
    (∃ user', EquityKept userId db db' user user') ↔
      (ManagementAction.adjustBotBalance u name payload).Conserves userId db := by
  obtain ⟨owner, bot, howner, hget, hown, hactive, -, hbots, husers, -⟩ := adjustBotBalance_ok hok
  have hget' : db.bots.get bot.botName = some bot := Table.get_key_of_get hget
  have hid := userId_eq huser
  rw [userId_eq howner] at hown
  have hequity := equity_put user user _ hbots hget' rfl hid hid
  have habsorbed : ∀ x ∈ db.activeBots userId, ∀ x' ∈ db'.bots.rows, x'.botName = x.botName →
      x'.isActive = false → user.initialBalance = user.initialBalance + x.pnl :=
    fun x hx x' hx' hname hinactive => by
      rw [not_deactivated hbots hactive hx hx' hname] at hinactive
      cases hinactive
  by_cases hu : u = userId
  · subst hu
    simp only [shareOf, hown, hactive, and_self, ↓reduceIte] at hequity
    constructor
    · rintro ⟨user', hkept⟩ - bot' hbot'
      obtain rfl : bot = bot' := Option.some.inj (hget.symm.trans hbot')
      obtain rfl : user = user' := by
        have hfound := hkept.found
        rw [husers, huser] at hfound
        exact Option.some.inj hfound
      have hkeep := hkept.equity
      linarith
    · intro h
      have hround := h rfl bot hget
      refine ⟨user, by rw [husers]; exact huser, ?_, habsorbed⟩
      rw [hequity]
      linarith
  · simp only [shareOf, hown, Option.some.injEq, hu, false_and, ↓reduceIte] at hequity
    refine iff_of_true ⟨user, by rw [husers]; exact huser, ?_, habsorbed⟩ fun hu' => absurd hu' hu
    rw [hequity]
    ring

theorem equity_deleteBot (hcol : OnColumns db) (huser : db.users.get userId = some user)
    (hok : db.deleteBot u name = .ok db') : ∃ user', EquityKept userId db db' user user' := by
  obtain ⟨owner, bot, howner, hget, hown, hactive, -, hbots, husers, -⟩ := deleteBot_ok hok
  have hget' : db.bots.get bot.botName = some bot := Table.get_key_of_get hget
  have hid := userId_eq huser
  have hoid := userId_eq howner
  rw [hoid] at hown
  by_cases hu : u = userId
  · subst hu
    obtain rfl : owner = user := Option.some.inj (howner.symm.trans huser)
    refine ⟨_, deleted_user hcol huser (Table.mem_of_get hget) husers, ?_, ?_⟩
    · rw [equity_put owner { owner with
          initialBalance := owner.initialBalance + (bot.balance - bot.initialBalance) } _
        hbots hget' rfl hid hid,
        shareOf_own _ hown hactive, shareOf_own _ hown hactive, shareOf_inactive _ rfl,
          shareOf_inactive _ rfl]
      ring
    · intro x hx x' hx' hname hinactive
      obtain ⟨hrow, -, hxactive⟩ := mem_activeBots.mp hx
      rw [hbots] at hx'
      rcases Table.mem_put hx' with rfl | ⟨hx', -⟩
      · rw [eq_of_mem hget' hrow hname.symm]
        rfl
      · rw [eq_of_mem (Table.get_of_mem hrow) hx' hname, hxactive] at hinactive
        cases hinactive
  · refine ⟨user, ?_, ?_, ?_⟩
    · rw [husers]
      split
      · rw [Table.get_put_ne fun hkey => hu (by rw [← hoid]; exact hkey.symm)]
        exact huser
      · exact huser
    · rw [equity_put user user _ hbots hget' rfl hid hid, shareOf_other _ hown hu,
        shareOf_other _ hown hu, shareOf_inactive _ rfl, shareOf_inactive _ rfl]
      ring
    · intro x hx x' hx' hname hinactive
      obtain ⟨hrow, hxown, hxactive⟩ := mem_activeBots.mp hx
      rw [hbots] at hx'
      rcases Table.mem_put hx' with rfl | ⟨hx', -⟩
      · rw [eq_of_mem hget' hrow hname.symm, hown] at hxown
        exact absurd (Option.some.inj hxown) hu
      · rw [eq_of_mem (Table.get_of_mem hrow) hx' hname, hxactive] at hinactive
        cases hinactive

theorem equity_adminDeleteBot (huser : db.users.get userId = some user)
    (hok : db.adminDeleteBot name = .ok db') :
    (∃ user', EquityKept userId db db' user user') ↔
      (ManagementAction.adminDeleteBot name).Conserves userId db := by
  obtain ⟨bot, hget, rfl⟩ := adminDeleteBot_ok hok
  have hget' : db.bots.get bot.botName = some bot := Table.get_key_of_get hget
  have hid := userId_eq huser
  have hequity : (db.setBot { bot with isActive := false }).equity user = db.equity user -
      (shareOf userId Bot.balance bot - shareOf userId Bot.initialBalance bot) := by
    rw [equity_put user user { bot with isActive := false } rfl hget' rfl hid hid,
      shareOf_inactive _ rfl, shareOf_inactive _ rfl]
    ring
  constructor
  · rintro ⟨user', hkept⟩ bot' hbot' hown hactive
    obtain rfl : bot = bot' := Option.some.inj (hget.symm.trans hbot')
    obtain rfl : user = user' := Option.some.inj (huser.symm.trans hkept.found)
    have hkeep := hkept.equity
    rw [hequity, shareOf_own _ hown hactive, shareOf_own _ hown hactive] at hkeep
    linarith
  · intro h
    have hshare : shareOf userId Bot.balance bot = shareOf userId Bot.initialBalance bot := by
      unfold shareOf
      split
      · next hown => exact h bot hget hown.1 hown.2
      · rfl
    refine ⟨user, huser, by rw [hequity, hshare, sub_self, sub_zero], ?_⟩
    intro x hx x' hx' hname hinactive
    obtain ⟨hrow, hxown, hxactive⟩ := mem_activeBots.mp hx
    rcases Table.mem_put hx' with rfl | ⟨hx', -⟩
    · rw [eq_of_mem hget' hrow hname.symm] at hxown hxactive ⊢
      rw [Bot.pnl, h bot hget hxown hxactive, sub_self, add_zero]
    · rw [eq_of_mem (Table.get_of_mem hrow) hx' hname, hxactive] at hinactive
      cases hinactive

/-- **Equity is conserved** by an accepted request of any user exactly under the conditions of
`Conserves`. -/
theorem equity_conserved_iff (hcol : OnColumns db) (huser : db.users.get userId = some user)
    (hstep : a.step db = some db') :
    (∃ user', EquityKept userId db db' user user') ↔ a.Conserves userId db := by
  cases a with
  | createBot u payload apiKey =>
    exact iff_of_true ⟨user, equity_createBot huser (toOption_ok hstep)⟩ trivial
  | adjustBotBalance u name payload => exact equity_adjustBotBalance huser (toOption_ok hstep)
  | deleteBot u name => exact iff_of_true (equity_deleteBot hcol huser (toOption_ok hstep)) trivial
  | adminDeleteBot name => exact equity_adminDeleteBot huser (toOption_ok hstep)

/-- An amount of at most eight digits is rounded alike. -/
theorem conserves_adjust (hcol : OnColumns db) {payload : BotBalanceAdjust}
    (h : payload.balance ∈ grid 8) :
    (ManagementAction.adjustBotBalance u name payload).Conserves userId db := by
  intro _ bot hbot
  have hmem := Table.mem_of_get hbot
  have hgrid : bot.balance + (payload.balance - bot.initialBalance) ∈ grid 8 :=
    add_mem (hcol.balance bot hmem) (sub_mem h (hcol.initialBalance bot hmem))
  rw [round8, roundTo_of_mem hgrid, numeric8, toColumn_of_mem h]

/-! ## The realized balance -/

/-- What `record_user_balance` computes for a user, when there are active bots. -/
def Database.realizedBalance (db : Database) (user : User) : Option ℚ :=
  let names := (db.activeBots user.id).map Bot.botName
  if names = [] then none else some (round8 (user.initialBalance + db.settledProfit names))

/-- The row that is added carries it. -/
theorem recordUserBalance_realized {base : Database} {x : ℚ} {tradeId : Option ℕ} {pnl : Option ℚ}
    (hbot : base.bots.get name = some bot) (hown : bot.userId = some userId)
    (huser : base.users.get userId = some user) (hx : base.realizedBalance user = some x) :
    (db.recordUserBalance base name tradeId pnl).userBalanceHistory =
      db.userBalanceHistory ++ [⟨userId, x, tradeId, name, pnl⟩] := by
  have hid := userId_eq huser
  unfold Database.recordUserBalance
  rw [hbot]
  dsimp only
  rw [hown, Option.bind_some, huser]
  unfold Database.realizedBalance Database.activeBots at hx
  dsimp only at hx ⊢
  split at hx
  · cases hx
  · next hnames =>
    cases hx
    rw [if_neg hnames, hid]

/-- The account of a bot is consistent with its orders. -/
def LedgerConsistent (db : Database) (bot : Bot) : Prop :=
  bot.balance = bot.initialBalance + db.orders.total (realizedOf bot.botName) -
    db.orders.total (feeOf bot.botName) - db.orders.total (stakeOf bot.botName)

theorem orderTotal_mem_grid {f : BinaryOption → ℚ} (h : ∀ bo ∈ db.orders.rows, f bo ∈ grid 8) :
    db.orders.total f ∈ grid 8 := by
  refine list_sum_mem fun x hx => ?_
  obtain ⟨bo, hbo, rfl⟩ := List.mem_map.mp hx
  exact h bo hbo

/-- The settled profit of a bot and of others. -/
theorem settledProfit_split {names names' : List BotName} (hnew : name ∉ names')
    (hmem : ∀ x, x ∈ names ↔ x = name ∨ x ∈ names') :
    db.settledProfit names = db.orders.total (realizedOf name) + db.settledProfit names' := by
  have hrow : ∀ bo : BinaryOption,
      (if bo.botName ∈ names ∧ bo.result ∈ [.win, .loss] then bo.profit.getD 0 else 0) =
        realizedOf name bo +
          (if bo.botName ∈ names' ∧ bo.result ∈ [.win, .loss] then bo.profit.getD 0 else 0) := by
    intro bo
    unfold realizedOf
    by_cases hname : bo.botName = name
    · by_cases hsettled : bo.result = .win ∨ bo.result = .loss <;>
        simp [hname, hmem, hnew, hsettled]
    · simp [hmem, hname]
  unfold Database.settledProfit
  rw [Table.total, Table.total, Table.total, ← List.sum_map_add]
  exact congrArg List.sum (List.map_congr_left fun bo _ => hrow bo)

theorem stake_zero (h : db.pendingCount name = 0) : db.orders.total (stakeOf name) = 0 := by
  refine List.sum_eq_zero fun x hx => ?_
  obtain ⟨bo, hbo, rfl⟩ := List.mem_map.mp hx
  refine if_neg fun hpending => ?_
  have hnil := List.length_eq_zero_iff.mp h
  have : bo ∈ db.orders.rows.filter fun bo => bo.botName = name ∧ bo.result = .pending :=
    List.mem_filter.mpr ⟨hbo, decide_eq_true hpending⟩
  rw [hnil] at this
  cases this

/-- The active bots of the owner after one of them is deactivated are the others. -/
theorem activeNames_deactivated (hbots : db'.bots = db.bots.put bot')
    (hname : bot'.botName = bot.botName) (hinactive : bot'.isActive = false)
    (hget : db.bots.get bot.botName = some bot) (hown : bot.userId = some userId)
    (hactive : bot.isActive = true) :
    bot.botName ∉ (db'.activeBots userId).map Bot.botName ∧ ∀ x,
      x ∈ (db.activeBots userId).map Bot.botName ↔
      x = bot.botName ∨ x ∈ (db'.activeBots userId).map Bot.botName := by
  refine ⟨fun hx => ?_, fun x => ⟨fun hx => ?_, ?_⟩⟩
  · obtain ⟨b, hb, hbname⟩ := List.mem_map.mp hx
    obtain ⟨hrow, -, hbactive⟩ := mem_activeBots.mp hb
    rw [hbots] at hrow
    rcases Table.mem_put hrow with rfl | ⟨-, hne⟩
    · rw [hinactive] at hbactive
      cases hbactive
    · exact hne (hbname.trans hname.symm)
  · obtain ⟨b, hb, rfl⟩ := List.mem_map.mp hx
    by_cases hne : b.botName = bot.botName
    · exact .inl hne
    · obtain ⟨hrow, hb⟩ := mem_activeBots.mp hb
      refine .inr (List.mem_map.mpr ⟨b, mem_activeBots.mpr ⟨?_, hb⟩, rfl⟩)
      rw [hbots]
      exact List.mem_map.mpr ⟨b, hrow, if_neg fun h => hne (h.trans hname)⟩
  · rintro (rfl | hx)
    · exact List.mem_map_of_mem (mem_activeBots.mpr ⟨Table.mem_of_get hget, hown, hactive⟩)
    · obtain ⟨b, hb, rfl⟩ := List.mem_map.mp hx
      obtain ⟨hrow, hb⟩ := mem_activeBots.mp hb
      rw [hbots] at hrow
      rcases Table.mem_put hrow with rfl | ⟨hrow, -⟩
      · rw [hinactive] at hb
        cases hb.2
      · exact List.mem_map_of_mem (mem_activeBots.mpr ⟨hrow, hb⟩)

/-- The settled profits are amounts of eight digits when the profits are. -/
theorem settledProfit_mem_grid (hprofits : ∀ bo ∈ db.orders.rows, bo.profit.getD 0 ∈ grid 8)
    (names : List BotName) :
    db.settledProfit names ∈ grid 8 := by
  refine orderTotal_mem_grid fun bo hbo => ?_
  split
  · exact hprofits bo hbo
  · exact zero_mem _

/-- With an active bot, and from amounts of eight digits, nothing is rounded away. -/
theorem realizedBalance_eq (hactive : (db.activeBots user.id).map Bot.botName ≠ [])
    (hinitial : user.initialBalance ∈ grid 8)
    (hprofit : db.settledProfit ((db.activeBots user.id).map Bot.botName) ∈ grid 8) :
    db.realizedBalance user =
      some (user.initialBalance + db.settledProfit ((db.activeBots user.id).map Bot.botName)) := by
  unfold Database.realizedBalance
  dsimp only
  rw [if_neg hactive, round8, roundTo_of_mem (add_mem hinitial hprofit)]

/-- **The realized balance is continuous** over the owner's deletion of a bot whose account is
consistent, while another bot stays active, exactly when the bot's entry fees, less its rebates,
come to nothing. -/
theorem realized_continuous_iff (hcol : OnColumns db)
    (hprofits : ∀ bo ∈ db.orders.rows, bo.profit.getD 0 ∈ grid 8)
    (hok : db.deleteBot userId name = .ok db')
    (hledger : ∀ bot ∈ db.bots.get name, LedgerConsistent db bot)
    (hother : ∃ bot ∈ db.activeBots userId, bot.botName ≠ name) :
    (∃ user user' x, db.users.get userId = some user ∧ db'.users.get userId = some user' ∧
      db.realizedBalance user = some x ∧ db'.realizedBalance user' = some x) ↔
      db.orders.total (feeOf name) = 0 := by
  obtain ⟨user, bot, huser, hget, hown, hactive, hpending, hbots, husers, hsame⟩ := deleteBot_ok hok
  have hid := userId_eq huser
  obtain rfl : bot.botName = name := Table.key_of_get hget
  have hmem : bot ∈ db.bots.rows := Table.mem_of_get hget
  rw [hid] at hown
  obtain ⟨hgone, hnames⟩ : bot.botName ∉ (db'.activeBots userId).map Bot.botName ∧
      ∀ x, x ∈ (db.activeBots userId).map Bot.botName ↔
        x = bot.botName ∨ x ∈ (db'.activeBots userId).map Bot.botName :=
    activeNames_deactivated hbots rfl rfl hget hown hactive
  obtain ⟨other, hotherActive, hne⟩ := hother
  have hnil : (db.activeBots userId).map Bot.botName ≠ [] :=
    List.ne_nil_of_mem (List.mem_map_of_mem hotherActive)
  have hnil' : (db'.activeBots userId).map Bot.botName ≠ [] :=
    List.ne_nil_of_mem
      (((hnames other.botName).mp (List.mem_map_of_mem hotherActive)).resolve_left hne)
  -- the bot's account
  have hpnl : bot.balance - bot.initialBalance =
      db.orders.total (realizedOf bot.botName) - db.orders.total (feeOf bot.botName) := by
    have h := hledger bot hget
    unfold LedgerConsistent at h
    rw [stake_zero hpending] at h
    linarith
  have hsplit : db.settledProfit _ = _ := settledProfit_split hgone hnames
  have hprofit : db'.settledProfit ((db'.activeBots userId).map Bot.botName) =
      db.settledProfit ((db'.activeBots userId).map Bot.botName) := by
    unfold Database.settledProfit
    rw [hsame]
  have hfound := deleted_user hcol huser hmem husers
  have hinitial := hcol.user user (Table.mem_of_get huser)
  have hbefore : db.realizedBalance user =
      some (user.initialBalance + db.settledProfit ((db.activeBots userId).map Bot.botName)) := by
    rw [← hid] at hnil ⊢
    exact realizedBalance_eq hnil hinitial (settledProfit_mem_grid hprofits _)
  have hafter : db'.realizedBalance { user with
        initialBalance := user.initialBalance + (bot.balance - bot.initialBalance) } =
      some (user.initialBalance + (bot.balance - bot.initialBalance) +
        db.settledProfit ((db'.activeBots userId).map Bot.botName)) := by
    have hmoved : user.initialBalance + (bot.balance - bot.initialBalance) ∈ grid 8 :=
      add_mem hinitial (sub_mem (hcol.balance bot hmem) (hcol.initialBalance bot hmem))
    have hgrid := hprofit ▸ settledProfit_mem_grid hprofits
      ((db'.activeBots userId).map Bot.botName)
    rw [← hprofit]
    rw [← hid] at hnil' hgrid ⊢
    exact realizedBalance_eq hnil' hmoved hgrid
  constructor
  · rintro ⟨user₀, user', x, huser₀, huser', hx, hx'⟩
    obtain rfl : user = user₀ := Option.some.inj (huser.symm.trans huser₀)
    obtain rfl := Option.some.inj (hfound.symm.trans huser')
    rw [hbefore, Option.some.injEq] at hx
    rw [hafter, Option.some.injEq] at hx'
    linarith
  · intro hfee
    refine ⟨user, _, _, huser, hfound, hbefore, ?_⟩
    rw [hafter, Option.some.injEq]
    linarith

end

/-! ## Samples -/

/-- A user whose bot `alpha` won `5` with an order that cost the given entry fee. -/
def wonDb (fee : ℚ) : Database where
  bots := ⟨[
    { botName := "alpha", apiKey := "a", initialBalance := 50, balance := 55 - fee,
      userId := some 1 },
    { botName := "beta", apiKey := "b", initialBalance := 20, balance := 20, userId := some 1 }],
    by simp⟩
  orders :=
    ⟨[{ id := 1, botName := "alpha", symbol := .btc, timeframe := .m5,
        forecast := .green, amount := 10,
                result := .win, profit := some 5, avgPrice := some (1 / 2), numShares := some 10,
                entryFee := some fee }], by simp⟩
  users := ⟨[⟨1, 100⟩], nodup_sampleUser⟩

theorem onColumns_wonDb {fee : ℚ} (h : fee ∈ grid 8) : OnColumns (wonDb fee) where
  user := by
    intro user huser
    rw [List.mem_singleton.mp huser]
    decide +kernel
  initialBalance := by
    intro bot hbot
    rcases List.mem_cons.mp hbot with rfl | hbot
    · change (50 : ℚ) ∈ grid 8
      decide +kernel
    · rw [List.mem_singleton.mp hbot]
      decide +kernel
  balance := by
    intro bot hbot
    rcases List.mem_cons.mp hbot with rfl | hbot
    · exact sub_mem (by decide +kernel) h
    · rw [List.mem_singleton.mp hbot]
      decide +kernel

/-- The owner's deletion keeps the equity. -/
theorem equity_conserved_deleted :
    ∃ db', (ManagementAction.deleteBot 1 "alpha").step (wonDb 0) = some db' ∧
    ∃ user', EquityKept 1 (wonDb 0) db' ⟨1, 100⟩ user' := by
  have hsome : ((ManagementAction.deleteBot 1 "alpha").step (wonDb 0)).isSome = true := by
    decide +kernel
  obtain ⟨db', hdb'⟩ := Option.isSome_iff_exists.mp hsome
  exact ⟨db', hdb', (equity_conserved_iff (onColumns_wonDb (zero_mem _)) rfl hdb').mpr trivial⟩

/-- **The admin's deletion loses what the bot won**: the equity of `105` becomes `100`. -/
theorem admin_delete_loses_pnl :
    ∃ db', (ManagementAction.adminDeleteBot "alpha").step (wonDb 0) = some db' ∧
    (wonDb 0).pendingCount "alpha" = 0 ∧ (wonDb 0).equity ⟨1, 100⟩ = 105 ∧
      db'.equity ⟨1, 100⟩ = 100 ∧
    ¬ ∃ user', EquityKept 1 (wonDb 0) db' ⟨1, 100⟩ user' := by
  have hdb' : (ManagementAction.adminDeleteBot "alpha").step (wonDb 0) = some ((wonDb 0).setBot
      { botName := "alpha", apiKey := "a", isActive := false, initialBalance := 50,
        balance := 55 - 0, userId := some 1 }) := rfl
  refine ⟨_, hdb', by decide +kernel, by decide +kernel, by decide +kernel, ?_⟩
  rintro ⟨user', hkept⟩
  obtain rfl : (⟨1, 100⟩ : User) = user' := Option.some.inj (Eq.trans (by rfl) hkept.found)
  have hequity := hkept.equity
  revert hequity
  decide +kernel

theorem ledgerConsistent_wonDb (fee : ℚ) : ∀ bot ∈ (wonDb fee).bots.get "alpha",
    LedgerConsistent (wonDb fee) bot := by
  intro bot hbot
  cases hbot
  simp [LedgerConsistent, wonDb, Table.total, realizedOf, feeOf, stakeOf, BinaryOption.fee]
  ring

/-- A bot that paid no fee. -/
theorem realized_continuous_without_fee : ∃ db', (wonDb 0).deleteBot 1 "alpha" = .ok db' ∧
    ∃ user user' x, (wonDb 0).users.get 1 = some user ∧ db'.users.get 1 = some user' ∧
      (wonDb 0).realizedBalance user = some x ∧ db'.realizedBalance user' = some x := by
  have hok : ((wonDb 0).deleteBot 1 "alpha").toOption.isSome = true := by decide +kernel
  obtain ⟨db', hdb'⟩ := Option.isSome_iff_exists.mp hok
  exact ⟨db', toOption_ok hdb',
    (realized_continuous_iff (onColumns_wonDb (zero_mem _)) (by decide +kernel)
    (toOption_ok hdb') (ledgerConsistent_wonDb 0) (by decide +kernel)).mpr (by decide +kernel)⟩

/-- **Fees make the realized balance jump**: `105` before the deletion and `104.9` after it. -/
theorem fee_makes_realized_jump : ∃ db' user', (wonDb (1 / 10)).deleteBot 1 "alpha" = .ok db' ∧
    (∀ bot ∈ (wonDb (1 / 10)).bots.get "alpha", LedgerConsistent (wonDb (1 / 10)) bot) ∧
    (∃ bot ∈ db'.activeBots 1, bot.botName = "beta") ∧ db'.users.get 1 = some user' ∧
    (wonDb (1 / 10)).realizedBalance ⟨1, 100⟩ = some 105 ∧
    db'.realizedBalance user' = some (1049 / 10) := by
  have hok : ((wonDb (1 / 10)).deleteBot 1 "alpha").toOption.any (fun db' =>
      (db'.activeBots 1).any (fun bot => bot.botName == "beta") &&
          (db'.users.get 1).any fun user' =>
        db'.realizedBalance user' == some (1049 / 10)) = true := by decide +kernel
  obtain ⟨db', hdb', hcheck⟩ := (Option.any_eq_true _ _).mp hok
  obtain ⟨hbeta, huser⟩ := Bool.and_eq_true_iff.mp hcheck
  obtain ⟨bot, hbot, hname⟩ := List.any_eq_true.mp hbeta
  obtain ⟨user', huser', hrealized⟩ := (Option.any_eq_true _ _).mp huser
  exact ⟨db', user', toOption_ok hdb', ledgerConsistent_wonDb _,
    ⟨bot, hbot, by simpa using hname⟩, huser', by decide +kernel, by simpa using hrealized⟩

end PolyArena
