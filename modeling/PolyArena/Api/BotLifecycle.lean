import PolyArena.Api.PoolSolvency
import PolyArena.Api.Renames

/-!
# The life of a bot

The requests on bots of `routers/bots.py` and `routers/admin.py`, and every transaction on orders,
as one machine.  A bot is known by its API key, since its name may change.

1. `ApiAction.step`, and `ApiEffect`, which says once what an accepted step does (`effect_of_step`).
2. `apiInv_run`: in every reachable database the rows name bots that are there, and no two bots
   share a key.
3. `rename_commutes`: a rename does not interfere with trading.
-/

namespace PolyArena

open Rounding

/-! ## The requests -/

/-- The `detail` of the errors of `pause_bot` and `resume_bot`. -/
inductive StatusDetail
  | request (detail : BotDetail)
  | notActive (status : BotStatus)
  | notPaused (status : BotStatus)
  | zeroBalance
  deriving DecidableEq, Repr

def StatusDetail.statusCode : StatusDetail → ℕ
  | .request detail => detail.statusCode
  | _ => 400

namespace Database

/-- `pause_bot`. -/
def pauseBot (db : Database) (userId : ℕ) (name : BotName) : Except StatusDetail Database := do
  let user ← (db.currentUser userId).mapError .request
  let bot ← (db.anyOwnBot user name).mapError .request
  if bot.status ≠ .active then .error (.notActive bot.status)
  else if 0 < db.pendingCount bot.botName then
    .error (.request (.pendingTrades (db.pendingCount bot.botName)))
  else .ok (db.setBot { bot with status := .paused })

/-- `resume_bot`. -/
def resumeBot (db : Database) (userId : ℕ) (name : BotName) : Except StatusDetail Database := do
  let user ← (db.currentUser userId).mapError .request
  let bot ← (db.anyOwnBot user name).mapError .request
  if bot.status ≠ .paused then .error (.notPaused bot.status)
  else if bot.balance ≤ 0 then .error .zeroBalance
  else .ok (db.setBot { bot with status := .active })

/-- `delete_bot_trades` of the admin. -/
def deleteBotTrades (db : Database) (name : BotName) : Except BotDetail Database :=
  match db.bots.get name with
  | none => .error .botNotFound
  | some bot => .ok
    { db.setBot { bot with balance := bot.initialBalance } with
      orders := db.orders.filter fun bo => bo.botName ≠ bot.botName
      balanceHistory := db.balanceHistory.filter fun row => row.botName ≠ bot.botName }

/-- `adjust_user_balance` of the admin. -/
def adjustUserBalance (db : Database) (userId : ℕ) (balance : ℚ) : Except BotDetail Database :=
  match db.users.get userId with
  | none => .error .userNotFound
  | some user => .ok (db.setUser { user with initialBalance := numeric8 balance })

/-- The API keys that are taken. -/
def apiKeys (db : Database) : List String := db.bots.rows.map Bot.apiKey

end Database

/-! ## The machine -/

inductive ApiAction
  | createBot (userId : ℕ) (payload : BotCreate) (apiKey : String)
  | adjustBotBalance (userId : ℕ) (name : BotName) (payload : BotBalanceAdjust)
  | deleteBot (userId : ℕ) (name : BotName)
  | renameBot (userId : ℕ) (name : BotName) (payload : BotRename)
  | pauseBot (userId : ℕ) (name : BotName)
  | resumeBot (userId : ℕ) (name : BotName)
  | adminDeleteBot (name : BotName)
  | deleteBotTrades (name : BotName)
  | adjustUserBalance (userId : ℕ) (balance : ℚ)
  | trade (t : BalanceTransaction)

namespace ApiAction

/-- An accepted request, or a transaction on orders.  The column of the API keys is unique. -/
def step (db : Database) : ApiAction → Option Database
  | createBot userId payload apiKey =>
    if apiKey ∈ db.apiKeys then none else (db.createBot userId payload apiKey).toOption
  | adjustBotBalance userId name payload => (db.adjustBotBalance userId name payload).toOption
  | deleteBot userId name => (db.deleteBot userId name).toOption
  | renameBot userId name payload => (db.renameBot userId name payload).toOption
  | pauseBot userId name => (db.pauseBot userId name).toOption
  | resumeBot userId name => (db.resumeBot userId name).toOption
  | adminDeleteBot name => (db.adminDeleteBot name).toOption
  | deleteBotTrades name => (db.deleteBotTrades name).toOption
  | adjustUserBalance userId balance => (db.adjustUserBalance userId balance).toOption
  | trade t => some (t.apply db)

/-- The action is a request of the bot's owner or of the admin about the bot. -/
def Manages (bot : Bot) : ApiAction → Prop
  | adjustBotBalance userId name _ => name = bot.botName ∧ bot.userId = some userId
  | deleteBot userId name => name = bot.botName ∧ bot.userId = some userId
  | renameBot userId name _ => name = bot.botName ∧ bot.userId = some userId
  | pauseBot userId name => name = bot.botName ∧ bot.userId = some userId
  | resumeBot userId name => name = bot.botName ∧ bot.userId = some userId
  | adminDeleteBot name => name = bot.botName
  | deleteBotTrades name => name = bot.botName
  | _ => False

instance (bot : Bot) (a : ApiAction) : Decidable (a.Manages bot) := by
  cases a <;> unfold Manages <;> infer_instance

/-- The action is the admin's deletion of trades. -/
def DeletesTrades : ApiAction → Prop
  | deleteBotTrades _ => True
  | _ => False

instance (a : ApiAction) : Decidable a.DeletesTrades := by
  cases a <;> unfold DeletesTrades <;> infer_instance

end ApiAction

/-- What a request writes over the row of a bot. -/
structure Rewrites (bot bot' : Bot) : Prop where
  botName : bot'.botName = bot.botName
  apiKey : bot'.apiKey = bot.apiKey
  userId : bot'.userId = bot.userId
  /-- No request takes a deletion back. -/
  deleted : bot.isActive = false → bot.status = .deleted →
    bot'.isActive = false ∧ bot'.status = .deleted

/-- What a request about a bot leaves of the histories. -/
structure Histories (bot : Bot) (db db' : Database) : Prop where
  bots : ∀ row ∈ db'.balanceHistory, row ∈ db.balanceHistory ∨ row.botName = bot.botName
  users : db'.userBalanceHistory = db.userBalanceHistory

/-- What an accepted step does. -/
inductive ApiEffect (db db' : Database) (a : ApiAction) : Prop
  | inserts (bot : Bot) (userId : ℕ) (hnew : bot.botName ∉ db.bots.rows.map Bot.botName)
      (hkey : bot.apiKey ∉ db.apiKeys) (ha : ∃ payload, a = .createBot userId payload bot.apiKey)
      (howner : bot.userId = some userId) (hdb : db' = { db with bots := db.bots.insert bot hnew })
  | rewrites (bot bot' : Bot) (hget : db.bots.get bot.botName = some bot)
      (hbots : db'.bots = db.bots.put bot') (horders : db'.orders = db.orders)
      (hrow : Rewrites bot bot') (hhistory : Histories bot db db') (hmanages : a.Manages bot)
      (husers : ∀ u, bot.userId ≠ some u → db'.users.get u = db.users.get u)
  | renames (bot : Bot) (new : BotName) (hget : db.bots.get bot.botName = some bot)
      (hnew : new ∉ db.bots.rows.map Bot.botName) (hmanages : a.Manages bot)
      (hdb : db' = db.renamed bot.botName new hnew)
  | clears (bot : Bot) (hget : db.bots.get bot.botName = some bot)
      (ha : a = .deleteBotTrades bot.botName)
      (hbots : db'.bots = db.bots.put { bot with balance := bot.initialBalance })
      (horders : db'.orders = db.orders.filter fun bo => bo.botName ≠ bot.botName)
      (hhistory : Histories bot db db')
  | users (users : Table User.id) (ha : ∃ userId balance, a = .adjustUserBalance userId balance)
      (hdb : db' = { db with users := users })
  | trades (t : BalanceTransaction) (ha : a = .trade t) (hdb : db' = t.apply db)

section

variable {db db' : Database} {userId : ℕ} {user : User} {bot bot' : Bot} {name new : BotName}
  {a : ApiAction}

theorem ok_of_mapError {ε ε' α : Type} {f : ε → ε'} {x : Except ε α} {y : α}
    (h : x.mapError f = .ok y) :
    x = .ok y := by
  cases x with
  | error e => cases h
  | ok z => cases h; rfl

theorem anyOwnBot_ok (h : db.anyOwnBot user name = .ok bot) :
    db.bots.get name = some bot ∧ bot.userId = some user.id := by
  unfold Database.anyOwnBot at h
  cases hb : db.bots.get name with
  | none => rw [hb] at h; cases h
  | some b =>
    simp only [hb] at h
    split_ifs at h with huser
    cases h
    exact ⟨rfl, not_not.mp huser⟩

/-- The checks that the requests on a bot of one's own begin with. -/
theorem own_ok {ε : Type} {f : BotDetail → ε}
    (huser : (db.currentUser userId).mapError f = .ok user)
    (hbot : (db.anyOwnBot user name).mapError f = .ok bot) :
    db.bots.get name = some bot ∧ bot.userId = some userId := by
  obtain ⟨hget, hown⟩ := anyOwnBot_ok (ok_of_mapError hbot)
  exact ⟨hget, hown.trans (congrArg some (userId_eq (currentUser_ok (ok_of_mapError huser))))⟩

theorem pauseBot_ok (h : db.pauseBot userId name = .ok db') : ∃ bot, db.bots.get name = some bot ∧
    bot.userId = some userId ∧ bot.status = .active ∧ db.pendingCount name = 0 ∧
    db' = db.setBot { bot with status := .paused } := by
  obtain ⟨user, huser, h⟩ := ok_of_bind h
  obtain ⟨bot, hbot, h⟩ := ok_of_bind h
  obtain ⟨hget, hown⟩ := own_ok huser hbot
  have hname : bot.botName = name := Table.key_of_get hget
  split_ifs at h with hstatus hpending
  cases h
  rw [hname] at hpending
  exact ⟨bot, hget, hown, not_not.mp hstatus, Nat.eq_zero_of_not_pos hpending, rfl⟩

theorem resumeBot_ok (h : db.resumeBot userId name = .ok db') : ∃ bot, db.bots.get name = some bot ∧
    bot.userId = some userId ∧ bot.status = .paused ∧ 0 < bot.balance ∧
    db' = db.setBot { bot with status := .active } := by
  obtain ⟨user, huser, h⟩ := ok_of_bind h
  obtain ⟨bot, hbot, h⟩ := ok_of_bind h
  obtain ⟨hget, hown⟩ := own_ok huser hbot
  split_ifs at h with hstatus hbalance
  cases h
  exact ⟨bot, hget, hown, not_not.mp hstatus, not_le.mp hbalance, rfl⟩

theorem renameBot_ok {payload : BotRename} (h : db.renameBot userId name payload = .ok db') :
    ∃ bot new, ∃ hnew : new ∉ db.bots.rows.map Bot.botName, db.bots.get name = some bot ∧
      bot.userId = some userId ∧ db' = db.renamed bot.botName new hnew := by
  obtain ⟨user, huser, h⟩ := ok_of_bind h
  obtain ⟨bot, hbot, h⟩ := ok_of_bind h
  obtain ⟨hget, hown⟩ := own_ok huser hbot
  dsimp only at h
  split_ifs at h with hkey hempty hsame htaken
  cases h
  exact ⟨bot, _, htaken, hget, hown, rfl⟩

theorem deleteBotTrades_ok (h : db.deleteBotTrades name = .ok db') :
    ∃ bot, db.bots.get name = some bot ∧
    db'.bots = db.bots.put { bot with balance := bot.initialBalance } ∧
    (db'.orders = db.orders.filter fun bo => bo.botName ≠ bot.botName) ∧ Histories bot db db' := by
  unfold Database.deleteBotTrades at h
  cases hb : db.bots.get name with
  | none => rw [hb] at h; cases h
  | some bot =>
    rw [hb] at h
    cases h
    exact ⟨bot, rfl, rfl, rfl, fun row hrow => .inl (List.mem_of_mem_filter hrow), rfl⟩

/-- The histories are as they were. -/
theorem Histories.same (bot : Bot) (h : db'.balanceHistory = db.balanceHistory)
    (husers : db'.userBalanceHistory = db.userBalanceHistory) : Histories bot db db' :=
  ⟨fun _ hrow => .inl (h ▸ hrow), husers⟩

theorem adjustBotBalance_histories {payload : BotBalanceAdjust} (hget : db.bots.get name = some bot)
    (h : db.adjustBotBalance userId name payload = .ok db') : Histories bot db db' := by
  obtain ⟨user, -, h⟩ := ok_of_bind h
  obtain ⟨found, hfound, h⟩ := ok_of_bind h
  obtain rfl : found = bot := Option.some.inj ((ownBot_ok hfound).1.symm.trans hget)
  dsimp only at h
  split_ifs at h
  cases h
  refine ⟨fun row hrow => (List.mem_append.mp hrow).imp_right fun hnew => ?_, rfl⟩
  rw [List.mem_singleton.mp hnew]

theorem deleteBot_histories (bot : Bot) (h : db.deleteBot userId name = .ok db') :
    Histories bot db db' := by
  obtain ⟨user, -, h⟩ := ok_of_bind h
  obtain ⟨found, -, h⟩ := ok_of_bind h
  dsimp only at h
  split_ifs at h <;> cases h <;> exact .same bot rfl rfl

/-- **What an accepted step does.** -/
theorem effect_of_step (h : a.step db = some db') : ApiEffect db db' a := by
  cases a with
  | createBot userId payload apiKey =>
    simp only [ApiAction.step] at h
    split_ifs at h with hkey
    obtain ⟨user, huser, hok⟩ := ok_of_bind (toOption_ok h)
    dsimp only at hok
    split_ifs at hok with hname hexists hpool
    cases hok
    exact .inserts _ userId hexists hkey ⟨payload, rfl⟩
      (congrArg some (userId_eq (currentUser_ok huser))) rfl
  | adjustBotBalance userId name payload =>
    obtain ⟨user, bot, huser, hget, hown, hactive, -, hbots, husers, horders⟩ :=
      adjustBotBalance_ok (toOption_ok h)
    have hname : bot.botName = name := Table.key_of_get hget
    refine .rewrites bot _ (Table.get_key_of_get hget) hbots horders ⟨rfl, rfl, rfl, fun hoff => ?_⟩
      (adjustBotBalance_histories hget (toOption_ok h)) ⟨hname.symm, ?_⟩ fun u _ => by rw [husers]
    · rw [hactive] at hoff
      cases hoff
    · rw [hown, userId_eq huser]
  | deleteBot userId name =>
    obtain ⟨user, bot, huser, hget, hown, -, -, hbots, husers, horders⟩ :=
      deleteBot_ok (toOption_ok h)
    have hname : bot.botName = name := Table.key_of_get hget
    refine .rewrites bot _ (Table.get_key_of_get hget) hbots horders ⟨rfl, rfl, rfl,
      fun _ _ => ⟨rfl, rfl⟩⟩
      (deleteBot_histories bot (toOption_ok h)) ⟨hname.symm, ?_⟩ fun u hu => ?_
    · rw [hown, userId_eq huser]
    · rw [husers]
      split
      · exact Table.get_put_ne fun e => hu (hown.trans (congrArg some e.symm))
      · rfl
  | renameBot userId name payload =>
    obtain ⟨bot, new, hnew, hget, hown, rfl⟩ := renameBot_ok (toOption_ok h)
    have hname : bot.botName = name := Table.key_of_get hget
    exact .renames bot new (Table.get_key_of_get hget) hnew ⟨hname.symm, hown⟩ rfl
  | pauseBot userId name =>
    obtain ⟨bot, hget, hown, hstatus, -, rfl⟩ := pauseBot_ok (toOption_ok h)
    have hname : bot.botName = name := Table.key_of_get hget
    refine .rewrites bot _ (Table.get_key_of_get hget) rfl rfl ⟨rfl, rfl, rfl, fun _ hdel => ?_⟩
      (.same bot rfl rfl) ⟨hname.symm, hown⟩ fun _ _ => rfl
    rw [hstatus] at hdel
    cases hdel
  | resumeBot userId name =>
    obtain ⟨bot, hget, hown, hstatus, -, rfl⟩ := resumeBot_ok (toOption_ok h)
    have hname : bot.botName = name := Table.key_of_get hget
    refine .rewrites bot _ (Table.get_key_of_get hget) rfl rfl ⟨rfl, rfl, rfl, fun _ hdel => ?_⟩
      (.same bot rfl rfl) ⟨hname.symm, hown⟩ fun _ _ => rfl
    rw [hstatus] at hdel
    cases hdel
  | adminDeleteBot name =>
    obtain ⟨bot, hget, rfl⟩ := adminDeleteBot_ok (toOption_ok h)
    have hname : bot.botName = name := Table.key_of_get hget
    exact .rewrites bot _ (Table.get_key_of_get hget) rfl rfl ⟨rfl, rfl, rfl,
      fun _ hdel => ⟨rfl, hdel⟩⟩
      (.same bot rfl rfl) hname.symm fun _ _ => rfl
  | deleteBotTrades name =>
    obtain ⟨bot, hget, hbots, horders, hhistory⟩ := deleteBotTrades_ok (toOption_ok h)
    have hname : bot.botName = name := Table.key_of_get hget
    exact .clears bot (Table.get_key_of_get hget) (congrArg _ hname.symm) hbots horders hhistory
  | adjustUserBalance userId balance =>
    have hok := toOption_ok h
    unfold Database.adjustUserBalance at hok
    cases hu : db.users.get userId with
    | none => rw [hu] at hok; cases hok
    | some user =>
      rw [hu] at hok
      cases hok
      exact .users _ ⟨userId, balance, rfl⟩ rfl
  | trade t =>
    cases h
    exact .trades t rfl rfl

/-! ## Names and keys -/

/-- What every reachable database satisfies. -/
structure ApiInv (db : Database) : Prop where
  names : db.NamesBots
  keys : db.apiKeys.Nodup

/-- The key of the bot with a name. -/
def Database.keyOf (db : Database) (name : BotName) : Option String :=
  (db.bots.get name).map Bot.apiKey

theorem mem_names (h : db.bots.get name = some bot) : name ∈ db.bots.rows.map Bot.botName :=
  List.mem_map.mpr ⟨bot, Table.mem_of_get h, Table.key_of_get h⟩

/-- A request that writes over a bot keeps the keys. -/
theorem put_keys (hget : db.bots.get bot.botName = some bot) (hbots : db'.bots = db.bots.put bot')
    (hname : bot'.botName = bot.botName) (hkey : bot'.apiKey = bot.apiKey) :
    db'.apiKeys = db.apiKeys ∧ db'.bots.rows.map Bot.botName = db.bots.rows.map Bot.botName ∧
      ∀ name, db'.keyOf name = db.keyOf name := by
  have hself : ∀ r ∈ db.bots.rows, r.botName = bot'.botName → r = bot := by
    intro r hr hr'
    have hsame := Table.get_of_mem hr
    rw [hr', hname, hget, Option.some.injEq] at hsame
    exact hsame.symm
  refine ⟨?_, ?_, fun name => ?_⟩
  · unfold Database.apiKeys
    rw [hbots, Table.put, List.map_map]
    refine List.map_congr_left fun r hr => ?_
    rw [Function.comp_apply]
    split
    · next hr' => rw [hkey, hself r hr hr']
    · rfl
  · rw [hbots, Table.put, List.map_map]
    refine List.map_congr_left fun r hr => ?_
    rw [Function.comp_apply]
    split
    · next hr' => exact hr'.symm
    · rfl
  · unfold Database.keyOf
    rw [hbots]
    by_cases hn : name = bot'.botName
    · have hget' : db.bots.get bot'.botName = some bot := hname ▸ hget
      rw [hn, Table.get_put_self hget', hget', Option.map_some, Option.map_some, hkey]
    · rw [Table.get_put_ne hn]

theorem keys_apply (t : BalanceTransaction) : (t.apply db).apiKeys = db.apiKeys := by
  obtain ⟨f, hf, hkeeps⟩ := bots_apply t db
  unfold Database.apiKeys
  rw [hf, List.map_map]
  refine List.map_congr_left fun bot hbot => ?_
  obtain ⟨⟨x, s, hx⟩, -⟩ := hkeeps bot hbot
  rw [Function.comp_apply, hx]

theorem keyOf_apply (t : BalanceTransaction) (name : BotName) :
    (t.apply db).keyOf name = db.keyOf name := by
  obtain ⟨x, s, hget⟩ := get_apply_bots db t name
  unfold Database.keyOf
  rw [hget, Option.map_map]
  rfl

theorem keyOf_relabel {σ : Equiv.Perm BotName} (name : BotName) :
    (db.relabel σ).keyOf (σ name) = db.keyOf name := by
  unfold Database.keyOf
  rw [get_relabel_bots, Option.map_map]
  rfl

/-- A request about a bot mentions no name that was not mentioned. -/
theorem namesBots_about (h : db.NamesBots) (hget : db.bots.get bot.botName = some bot)
    (hnames : db'.bots.rows.map Bot.botName = db.bots.rows.map Bot.botName)
    (horders : ∀ row ∈ db'.orders.rows, row ∈ db.orders.rows) (hhistory : Histories bot db db') :
    db'.NamesBots := by
  intro name hname
  rw [hnames]
  rcases mem_mentioned.mp hname with hbot | ⟨bo, hbo, hn⟩ | ⟨row, hrow, hn⟩ | ⟨row, hrow, hn⟩
  · rw [← hnames]
    exact List.mem_map.mpr hbot
  · exact h name (mem_mentioned.mpr (.inr (.inl ⟨bo, horders bo hbo, hn⟩)))
  · rcases hhistory.bots row hrow with hold | hnew
    · exact h name (mem_mentioned.mpr (.inr (.inr (.inl ⟨row, hold, hn⟩))))
    · rw [← hn, hnew]
      exact mem_names hget
  · rw [hhistory.users] at hrow
    exact h name (mem_mentioned.mpr (.inr (.inr (.inr ⟨row, hrow, hn⟩))))

/-- **Every step** keeps the names and the keys. -/
theorem apiInv_step (h : ApiInv db) (hstep : a.step db = some db') : ApiInv db' := by
  cases effect_of_step hstep with
  | inserts bot userId hnew hkey ha howner hdb =>
    subst hdb
    refine ⟨fun name hname => ?_, ?_⟩
    · rw [show (db.bots.insert bot hnew).rows.map Bot.botName =
        db.bots.rows.map Bot.botName ++ [bot.botName] from
        List.map_append]
      rcases mem_mentioned.mp hname with ⟨x, hx, rfl⟩ | hrest
      · rcases List.mem_append.mp hx with hx | hx
        · exact List.mem_append_left _ (List.mem_map_of_mem hx)
        · rw [List.mem_singleton.mp hx]
          exact List.mem_append_right _ List.mem_cons_self
      · exact List.mem_append_left _ (h.names name (mem_mentioned.mpr (.inr hrest)))
    · show ((db.bots.rows ++ [bot]).map Bot.apiKey).Nodup
      rw [List.map_append]
      refine h.keys.append (List.nodup_singleton _) fun key hkey' hsingle => hkey ?_
      rw [List.map_singleton, List.mem_singleton] at hsingle
      exact hsingle ▸ hkey'
  | rewrites bot bot' hget hbots horders hrow hhistory hmanages husers =>
    obtain ⟨hkeys, hnames, -⟩ := put_keys hget hbots hrow.botName hrow.apiKey
    exact ⟨namesBots_about h.names hget hnames (fun row hrow => horders ▸ hrow) hhistory,
      hkeys ▸ h.keys⟩
  | renames bot new hget hnew hmanages hdb =>
    rw [hdb, renamed_eq_relabel h.names hnew]
    refine ⟨namesBots_relabel h.names, ?_⟩
    rw [show (db.relabel _).apiKeys = db.apiKeys from List.map_map]
    exact h.keys
  | clears bot hget ha hbots horders hhistory =>
    obtain ⟨hkeys, hnames, -⟩ := put_keys hget hbots rfl rfl
    refine ⟨namesBots_about h.names hget hnames (fun row hrow => ?_) hhistory, hkeys ▸ h.keys⟩
    rw [horders] at hrow
    exact List.mem_of_mem_filter hrow
  | users users ha hdb =>
    subst hdb
    exact ⟨h.names, h.keys⟩
  | trades t ha hdb =>
    subst hdb
    exact ⟨namesBots_apply t h.names, (keys_apply t).symm ▸ h.keys⟩

/-- Every reachable database. -/
theorem apiInv_run {guard : Database → ApiAction → Prop} {db₀ : Database} (h₀ : ApiInv db₀)
    (hrun : Run ApiAction.step guard db₀ db) : ApiInv db :=
  hrun.invariant ApiInv h₀ fun _ _ _ h _ hstep => apiInv_step h hstep

end

/-! ## A sample -/

def alphaBot : Bot :=
  { botName := "alpha", apiKey := "a", initialBalance := 60, balance := 50, userId := some 1 }

def betaBot : Bot :=
  { botName := "beta", apiKey := "b", initialBalance := 40, balance := 40, userId := some 2 }

theorem nodup_twoBots : ([alphaBot, betaBot].map Bot.botName).Nodup := by decide

theorem nodup_twoUsers : ([⟨1, 100⟩, ⟨2, 50⟩].map User.id).Nodup := by decide

def alphaOrder : BinaryOption :=
  { id := 1, botName := "alpha", symbol := .btc, timeframe := .m5, forecast := .green, amount := 10,
    limitPrice := some (1 / 2), meOrderStatus := some .pending }

/-- Two users with a bot each.  The bot of the first one has a pending order. -/
def twoUsersDb : Database where
  bots := ⟨[alphaBot, betaBot], nodup_twoBots⟩
  orders := ⟨[alphaOrder], nodup_one alphaOrder⟩
  users := ⟨[⟨1, 100⟩, ⟨2, 50⟩], nodup_twoUsers⟩

theorem apiInv_twoUsersDb : ApiInv twoUsersDb := ⟨by decide, by decide⟩

section

variable {db db' : Database} {userId : ℕ} {user : User} {bot bot' : Bot} {name new : BotName}
  {a : ApiAction}

/-- **A rename does not interfere with trading.**  In every reachable database, a rename in the
middle of any transactions on orders leaves what the same rename leaves after them, and it is
refused in the one place exactly when it is refused in the other. -/
theorem rename_commutes {guard : Database → ApiAction → Prop} {db₀ : Database} {payload : BotRename}
    (h₀ : ApiInv db₀) (hrun : Run ApiAction.step guard db₀ db) (ts : List BalanceTransaction) :
    (serially db ts).renameBot userId name payload =
      (db.renameBot userId name payload).map fun db' => serially db' ts :=
  renameBot_serially (apiInv_run h₀ hrun).names ts

/-- The rename of a bot whose order is cancelled. -/
theorem rename_commutes_cancel : (twoUsersDb.renameBot 1 "alpha" ⟨"gamma", none⟩).isOk = true ∧
    (serially twoUsersDb [.cancel ⟨1, some 7, .ttlExpired, 0, 0⟩]).renameBot 1 "alpha"
      ⟨"gamma", none⟩ =
      (twoUsersDb.renameBot 1 "alpha" ⟨"gamma", none⟩).map fun db =>
        serially db [.cancel ⟨1, some 7, .ttlExpired, 0, 0⟩] :=
  have hstart : Run ApiAction.step (fun _ _ => True) twoUsersDb twoUsersDb := .start
  ⟨by decide +kernel, rename_commutes apiInv_twoUsersDb hstart _⟩

end

end PolyArena
