import PolyArena.Api.BalanceSnapshots
import PolyArena.Lib.Grouping

/-!
# Statistics and profit and loss

The read side of `routers/binary_options.py`, `routers/bots.py` and `routers/auth.py`: statistics
over groups of orders, and the profit and loss of bots and users.

1. `stats_add_up`: the statistics by bot, by timeframe and by forecast add up to the summary.
2. `user_pnl_all_agrees`: the page over all users, which loads the tables once and groups them,
   shows for each user what the user's own page shows.
3. `pnl_reconciles`: the numbers on the page of a user agree with the books, with the balance
   history and with the snapshots.
-/

namespace PolyArena

open Rounding

/-! ## Statistics -/

/-- The figures that all statistics have. -/
structure BOTally where
  total : ℕ
  wins : ℕ
  losses : ℕ
  pending : ℕ
  winRate : ℚ
  totalProfit : ℚ
  deriving DecidableEq, Repr

structure BOStats extends BOTally where
  totalAmount : ℚ
  deriving DecidableEq, Repr

structure BOBotStats extends BOStats where
  botName : BotName
  roi : ℚ
  deriving DecidableEq, Repr

structure BOTimeframeStats extends BOTally where
  timeframe : BOTimeframe
  avgAmount : ℚ
  deriving DecidableEq, Repr

structure BOForecastStats extends BOTally where
  forecast : BOForecast
  deriving DecidableEq, Repr

def countOf (result : BOResult) (items : List BinaryOption) : ℕ :=
  items.countP fun b => b.result = result

/-- What the settled orders won. -/
def BinaryOption.settledProfit (b : BinaryOption) : ℚ := if b.isSettled then b.profit.getD 0 else 0

def percent (part whole : ℚ) : ℚ := if whole = 0 then 0 else roundTo 2 (part / whole * 100)

/-- `_compute_stats`. -/
def computeStats (items : List BinaryOption) : BOStats :=
  let wins := countOf .win items
  let losses := countOf .loss items
  { total := items.length
    wins := wins
    losses := losses
    pending := countOf .pending items
    winRate := percent wins (wins + losses : ℕ)
    totalProfit := round8 (items.map BinaryOption.settledProfit).sum
    totalAmount := round8 (items.map BinaryOption.amount).sum }

namespace Database

variable (db : Database)

/-- `bo_stats_summary`.  `keep` is the `ILIKE` on the bot's name. -/
def boStatsSummary (keep : BotName → Bool) : BOStats :=
  computeStats (db.orders.rows.filter fun b => keep b.botName)

/-- `bo_stats_by_bot`. -/
def boStatsByBot : List BOBotStats :=
  let groups := Groups.addAll [] BinaryOption.botName db.orders.rows
  let result := (groups.insertionSort fun a b => a.1 ≤ b.1).map fun (botName, items) =>
    let s := computeStats items
    { s with botName := botName, roi := percent s.totalProfit s.totalAmount }
  result.insertionSort fun a b => b.totalProfit ≤ a.totalProfit

/-- `bo_stats_by_timeframe`. -/
def boStatsByTimeframe (keep : BotName → Bool) : List BOTimeframeStats :=
  let groups := Groups.addAll [] BinaryOption.timeframe
    (db.orders.rows.filter fun b => keep b.botName)
  ([.m5, .m15].filter (· ∈ groups.keys)).map fun tf =>
    let s := computeStats (groups.get tf)
    { s with
      timeframe := tf,
      avgAmount := if s.total = 0 then 0 else round8 (s.totalAmount / s.total) }

/-- `bo_stats_by_forecast`. -/
def boStatsByForecast (keep : BotName → Bool) : List BOForecastStats :=
  let groups := Groups.addAll [] BinaryOption.forecast
    (db.orders.rows.filter fun b => keep b.botName)
  ([.green, .red].filter (· ∈ groups.keys)).map fun forecast =>
    { computeStats (groups.get forecast) with forecast := forecast }

end Database

/-- The statistics of the parts add up to those of the whole, the profits when those of the orders
have eight digits. -/
structure AddsUp (items : List BinaryOption) (whole : BOStats) (parts : List BOTally) : Prop where
  total : (parts.map BOTally.total).sum = whole.total
  wins : (parts.map BOTally.wins).sum = whole.wins
  losses : (parts.map BOTally.losses).sum = whole.losses
  pending : (parts.map BOTally.pending).sum = whole.pending
  totalProfit : (∀ b ∈ items, b.settledProfit ∈ grid 8) →
    (parts.map BOTally.totalProfit).sum = whole.totalProfit

section Stats

variable {κ : Type} [DecidableEq κ] {key : BinaryOption → κ} {items : List BinaryOption}
  {parts parts' : List BOTally} {f : BinaryOption → ℚ}

theorem AddsUp.perm {whole : BOStats} (h : AddsUp items whole parts) (hperm : parts'.Perm parts) :
    AddsUp items whole parts' where
  total := (hperm.map _).sum_eq.trans h.total
  wins := (hperm.map _).sum_eq.trans h.wins
  losses := (hperm.map _).sum_eq.trans h.losses
  pending := (hperm.map _).sum_eq.trans h.pending
  totalProfit := fun hgrid => (hperm.map _).sum_eq.trans (h.totalProfit hgrid)

theorem sum_map_mem_grid (h : ∀ b ∈ items, f b ∈ grid 8) : (items.map f).sum ∈ grid 8 := by
  refine list_sum_mem fun x hx => ?_
  obtain ⟨b, hb, rfl⟩ := List.mem_map.mp hx
  exact h b hb

theorem nodup_groups : (Groups.addAll [] key items).keys.Nodup := Groups.nodup_addAll List.nodup_nil

theorem get_groups (k : κ) : (Groups.addAll [] key items).get k = items.filter fun b => key b = k :=
  Groups.get_addAll.trans (List.nil_append _)

theorem sum_indicator (p : BinaryOption → Bool) (items : List BinaryOption) :
    (items.map fun b => if p b then 1 else 0).sum = items.countP p := by
  induction items with
  | nil => rfl
  | cons b rest ih =>
    rw [List.map_cons, List.sum_cons, ih, List.countP_cons, add_comm]

variable (key items)

/-- What is counted in each group. -/
theorem count_groups (p : BinaryOption → Bool) :
    ((Groups.addAll [] key items).map fun e => e.2.countP p).sum = items.countP p := by
  have htotal : (Groups.addAll [] key items).total (fun b => if p b then 1 else 0) = _ :=
    Groups.total_addAll _ List.nodup_nil
  rw [sum_indicator p items] at htotal
  refine Eq.trans ?_ (htotal.trans (zero_add _))
  exact congrArg List.sum (List.map_congr_left fun e _ => (sum_indicator p e.2).symm)

/-- What is rounded in each group. -/
theorem round_groups (hgrid : ∀ b ∈ items, f b ∈ grid 8) :
    ((Groups.addAll [] key items).map fun e => round8 (e.2.map f).sum).sum =
      round8 (items.map f).sum := by
  have htotal : (Groups.addAll [] key items).total f = _ := Groups.total_addAll f List.nodup_nil
  have hround : ∀ e ∈ Groups.addAll [] key items, round8 (e.2.map f).sum = (e.2.map f).sum := by
    intro e he
    rw [Groups.snd_of_mem nodup_groups he, get_groups]
    exact roundTo_of_mem (sum_map_mem_grid fun b hb => hgrid b (List.mem_of_mem_filter hb))
  calc _ = (Groups.addAll [] key items).total f := congrArg List.sum (List.map_congr_left hround)
    _ = (items.map f).sum := htotal.trans (zero_add _)
    _ = _ := (roundTo_of_mem (sum_map_mem_grid hgrid)).symm

/-- **Groups add up**, by whatever key. -/
theorem addsUp_groups : AddsUp items (computeStats items)
    ((Groups.addAll [] key items).map fun e => (computeStats e.2).toBOTally) where
  total := by
    rw [List.map_map]
    have hcount : ((Groups.addAll [] key items).map fun e => e.2.countP fun _ => true).sum = _ :=
      count_groups key items _
    simp only [List.countP_true] at hcount
    exact hcount
  wins := by
    rw [List.map_map]
    exact count_groups key items _
  losses := by
    rw [List.map_map]
    exact count_groups key items _
  pending := by
    rw [List.map_map]
    exact count_groups key items _
  totalProfit := fun hgrid => by
    rw [List.map_map]
    exact round_groups key items hgrid

/-- The groups of the keys that occur. -/
theorem addsUp_keys (ks : List κ) (hks : ks.Nodup) (hall : ∀ b ∈ items, key b ∈ ks) :
    AddsUp items (computeStats items)
        ((ks.filter (· ∈ (Groups.addAll [] key items).keys)).map fun k =>
      (computeStats ((Groups.addAll [] key items).get k)).toBOTally) := by
  refine (addsUp_groups key items).perm ?_
  have hkeys : (ks.filter (· ∈ (Groups.addAll [] key items).keys)).Perm
      (Groups.addAll [] key items).keys := by
    refine (List.perm_ext_iff_of_nodup (hks.filter _) nodup_groups).mpr fun k => ?_
    rw [List.mem_filter, decide_eq_true_eq, and_iff_right_iff_imp]
    intro hk
    rcases Groups.mem_keys_addAll.mp hk with h | ⟨b, hb, rfl⟩
    · cases h
    · exact hall b hb
  refine (hkeys.map _).trans (List.Perm.of_eq ?_)
  rw [Groups.keys, List.map_map]
  refine List.map_congr_left fun e he => ?_
  rw [Function.comp_apply, ← Groups.snd_of_mem nodup_groups he]

/-- The groups of the bots, in the order of the page. -/
theorem boStatsByBot_perm (db : Database) {α : Type} (f : BOStats → α) :
    (db.boStatsByBot.map fun s => f s.toBOStats).Perm
      ((Groups.addAll [] BinaryOption.botName db.orders.rows).map fun e =>
        f (computeStats e.2)) := by
  refine ((List.perm_insertionSort _ _).map _).trans ?_
  rw [List.map_map]
  exact (List.perm_insertionSort _ _).map fun e : BotName × List BinaryOption =>
    f (computeStats e.2)

/-- The summary of all orders. -/
theorem boStatsSummary_all (db : Database) :
    db.boStatsSummary (fun _ => true) = computeStats db.orders.rows := by
  unfold Database.boStatsSummary
  rw [List.filter_eq_self.mpr fun _ _ => rfl]

/-- **Statistics add up** to the summary: by bot, by timeframe and by forecast. -/
theorem stats_add_up (db : Database) (keep : BotName → Bool) :
    AddsUp db.orders.rows (db.boStatsSummary fun _ => true)
      (db.boStatsByBot.map fun s => s.toBOTally) ∧
      ((∀ b ∈ db.orders.rows, b.amount ∈ grid 8) →
        (db.boStatsByBot.map fun s => s.totalAmount).sum =
        (db.boStatsSummary fun _ => true).totalAmount) ∧
      AddsUp (db.orders.rows.filter fun b => keep b.botName) (db.boStatsSummary keep)
        ((db.boStatsByTimeframe keep).map fun s => s.toBOTally) ∧
      AddsUp (db.orders.rows.filter fun b => keep b.botName) (db.boStatsSummary keep)
        ((db.boStatsByForecast keep).map fun s => s.toBOTally) := by
  rw [boStatsSummary_all]
  refine ⟨?_, fun hgrid => ?_, ?_, ?_⟩
  · exact (addsUp_groups BinaryOption.botName db.orders.rows).perm
      (boStatsByBot_perm db BOStats.toBOTally)
  · exact (boStatsByBot_perm db BOStats.totalAmount).sum_eq.trans
      (round_groups BinaryOption.botName _ hgrid)
  · unfold Database.boStatsByTimeframe
    rw [List.map_map]
    exact addsUp_keys BinaryOption.timeframe _ [.m5, .m15] (by decide) fun b _ => by
      cases b.timeframe <;> simp
  · unfold Database.boStatsByForecast
    rw [List.map_map]
    exact addsUp_keys BinaryOption.forecast _ [.green, .red] (by decide) fun b _ => by
      cases b.forecast <;> simp

end Stats

/-! ## Profit and loss -/

structure BotPnlResponse where
  botName : BotName
  status : BotStatus
  initialBalance : ℚ
  currentBalance : ℚ
  realizedPnl : ℚ
  realizedPnlPct : ℚ
  wins : ℕ
  losses : ℕ
  pending : ℕ
  totalTrades : ℕ
  winRate : ℚ
  avgProfitPerTrade : ℚ
  totalFees : ℚ
  deriving DecidableEq, Repr

structure UserPnlResponse where
  userId : ℕ
  initialBalance : ℚ
  allocatedBalance : ℚ
  availableBalance : ℚ
  currentBalance : ℚ
  realizedPnl : ℚ
  realizedPnlPct : ℚ
  wins : ℕ
  losses : ℕ
  pending : ℕ
  totalTrades : ℕ
  winRate : ℚ
  avgProfitPerTrade : ℚ
  totalFees : ℚ
  bots : List BotPnlResponse
  deriving DecidableEq, Repr

structure UserResponse where
  id : ℕ
  initialBalance : ℚ
  allocatedBalance : ℚ
  availableBalance : ℚ
  totalBalance : ℚ
  totalPnl : ℚ
  deriving DecidableEq, Repr

/-- `_bot_pnl`. -/
def botPnl (bot : Bot) (trades : List BinaryOption) : BotPnlResponse :=
  let wins := countOf .win trades
  let losses := countOf .loss trades
  let decided := wins + losses
  let realizedPnl := round8 (trades.map BinaryOption.settledProfit).sum
  let initial := bot.initialBalance
  { botName := bot.botName
    status := bot.status
    initialBalance := initial
    currentBalance := bot.balance
    realizedPnl := realizedPnl
    realizedPnlPct := percent realizedPnl initial
    wins := wins
    losses := losses
    pending := countOf .pending trades
    totalTrades := trades.length
    winRate := percent wins decided
    avgProfitPerTrade := if decided = 0 then 0 else round8 (realizedPnl / decided)
    totalFees := round8 (trades.map BinaryOption.fee).sum }

/-- `_user_pnl`: of the bots, only the active ones count. -/
def userPnlOf (user : User) (bots : List Bot) (tradesByBot : Groups BotName BinaryOption) :
    UserPnlResponse :=
  let activeBots := bots.filter Bot.isActive
  let activePnls := activeBots.map fun b => botPnl b (tradesByBot.get b.botName)
  let wins := (activePnls.map BotPnlResponse.wins).sum
  let losses := (activePnls.map BotPnlResponse.losses).sum
  let decided := wins + losses
  let realizedPnl := round8 (activePnls.map BotPnlResponse.realizedPnl).sum
  let allocated := (activeBots.map Bot.initialBalance).sum
  let available := user.initialBalance - allocated
  let initial := user.initialBalance
  { userId := user.id
    initialBalance := initial
    allocatedBalance := allocated
    availableBalance := available
    currentBalance := round8 ((activeBots.map Bot.balance).sum + available)
    realizedPnl := realizedPnl
    realizedPnlPct := percent realizedPnl initial
    wins := wins
    losses := losses
    pending := (activePnls.map BotPnlResponse.pending).sum
    totalTrades := (activePnls.map BotPnlResponse.totalTrades).sum
    winRate := percent wins decided
    avgProfitPerTrade := if decided = 0 then 0 else round8 (realizedPnl / decided)
    totalFees := round8 (activePnls.map BotPnlResponse.totalFees).sum
    bots := activePnls }

namespace Database

variable (db : Database)

/-- The orders of the bots `names`. -/
def tradesOf (names : List BotName) : List BinaryOption :=
  db.orders.rows.filter fun b => b.botName ∈ names

/-- `bots_pnl`. -/
def botsPnl (botName : Option String) : List BotPnlResponse :=
  let bots := (botName.filter (· ≠ "")).elim db.bots.rows fun name => db.bots.rows.filter fun b =>
    b.botName = name
  let botNames := bots.map Bot.botName
  if botNames = [] then []
  else
    let tradesByBot := Groups.addAll (Groups.ofKeys botNames) BinaryOption.botName
      (db.tradesOf botNames)
    (bots.map fun b => botPnl b (tradesByBot.get b.botName)).insertionSort fun a b =>
      b.realizedPnl ≤ a.realizedPnl

/-- `user_pnl`. -/
def userPnl (user : User) : UserPnlResponse :=
  let bots := db.bots.rows.filter fun bot => bot.userId = some user.id
  let botNames := bots.map Bot.botName
  let trades := if botNames = [] then [] else db.tradesOf botNames
  userPnlOf user bots (Groups.addAll (Groups.ofKeys botNames) BinaryOption.botName trades)

/-- `user_pnl_all`.  `active` are the users whose `is_active` is set. -/
def userPnlAll (active : ℕ → Bool) : List UserPnlResponse :=
  let users := db.users.rows.filter fun user => active user.id
  let botNames := db.bots.rows.map Bot.botName
  let allTrades := if botNames = [] then [] else db.tradesOf botNames
  let tradesByBot := Groups.addAll [] BinaryOption.botName allTrades
  -- A user's number is truthy when it is there and not zero.
  let botsByUser := Groups.addAll [] (fun bot : Bot => bot.userId.getD 0)
    (db.bots.rows.filter fun bot => bot.userId.getD 0 ≠ 0)
  let result := users.filterMap fun user =>
    let userBots := botsByUser.get user.id
    if userBots = [] then none else some (userPnlOf user userBots tradesByBot)
  result.insertionSort fun a b => b.realizedPnl ≤ a.realizedPnl

/-- `me` of `routers/auth.py`. -/
def me (user : User) : UserResponse :=
  let userBots := db.activeBots user.id
  let allocated := (userBots.map Bot.initialBalance).sum
  let botNames := userBots.map Bot.botName
  let totalPnl := if botNames = [] then 0 else db.settledProfit botNames
  { id := user.id
    initialBalance := user.initialBalance
    allocatedBalance := allocated
    availableBalance := user.initialBalance - allocated
    totalBalance := roundTo 2 (userBots.map Bot.balance).sum
    totalPnl := roundTo 2 totalPnl }

/-- The line of a bot, by its own orders. -/
def ownPnl (bot : Bot) : BotPnlResponse := botPnl bot (db.tradesOf [bot.botName])

end Database

section Pages

variable {db : Database} {user : User} {bots : List Bot} {names : List BotName} {name : BotName}
  {bot : Bot} {d d' : Groups BotName BinaryOption}

theorem tradesOf_filter (h : name ∈ names) :
    ((db.tradesOf names).filter fun b => b.botName = name) = db.tradesOf [name] := by
  unfold Database.tradesOf
  rw [List.filter_filter]
  refine List.filter_congr fun b _ => ?_
  by_cases hb : b.botName = name
  · simp [hb, h]
  · simp [hb]

/-- The group of a bot holds its orders. -/
theorem get_tradesByBot (db : Database) (hd : d.get name = []) (h : name ∈ names) :
    (Groups.addAll d BinaryOption.botName (if names = [] then [] else db.tradesOf names)).get name =
      db.tradesOf [name] := by
  rw [if_neg (List.ne_nil_of_mem h), Groups.get_addAll, hd, List.nil_append]
  exact tradesOf_filter h

theorem userPnlOf_congr (h : ∀ bot ∈ bots, d.get bot.botName = d'.get bot.botName) :
    userPnlOf user bots d = userPnlOf user bots d' := by
  have hpnls : ((bots.filter Bot.isActive).map fun b => botPnl b (d.get b.botName)) =
      (bots.filter Bot.isActive).map fun b => botPnl b (d'.get b.botName) :=
    List.map_congr_left fun bot hbot => congrArg (botPnl bot) (h bot (List.mem_of_mem_filter hbot))
  unfold userPnlOf
  dsimp only
  rw [hpnls]

theorem filter_active (db : Database) (userId : ℕ) :
    (db.bots.rows.filter fun bot => bot.userId = some userId).filter Bot.isActive =
      db.activeBots userId := by
  unfold Database.activeBots
  rw [List.filter_filter]
  exact List.filter_congr fun bot _ => by rw [Bool.decide_and, Bool.decide_eq_true, Bool.and_comm]

/-- The lines on the page of a user. -/
theorem userPnl_bots : (db.userPnl user).bots = (db.activeBots user.id).map db.ownPnl := by
  show ((db.bots.rows.filter _).filter Bot.isActive).map _ = _
  rw [filter_active]
  refine List.map_congr_left fun bot hbot => congrArg (botPnl bot) ?_
  obtain ⟨hrow, hown, -⟩ := mem_activeBots.mp hbot
  refine get_tradesByBot db (Groups.get_ofKeys _) (List.mem_map.mpr ⟨bot, ?_, rfl⟩)
  exact List.mem_filter.mpr ⟨hrow, decide_eq_true hown⟩

/-- The bots that are grouped under a user. -/
theorem get_botsByUser (rows : List Bot) (userId : ℕ) :
    (Groups.addAll [] (fun bot : Bot => bot.userId.getD 0)
      (rows.filter fun bot => bot.userId.getD 0 ≠ 0)).get userId =
      if userId = 0 then [] else rows.filter fun bot => bot.userId = some userId := by
  rw [Groups.get_addAll, List.filter_filter]
  split_ifs with hzero
  · refine List.filter_eq_nil_iff.mpr fun bot _ => ?_
    simp [hzero]
  · refine List.filter_congr fun bot _ => ?_
    cases bot.userId with
    | none => simp
    | some n =>
      by_cases hn : n = userId
      · simp [hn, hzero]
      · simp [hn]

/-- **The pages agree.**  The page over all users groups all bots and all orders at once; it lists,
by their profit, the pages of the active users that own a bot.  The lines on a user's page are those
of the bots that are active, by their own orders, and so are the lines of the page over all bots. -/
theorem user_pnl_all_agrees (db : Database) (active : ℕ → Bool) :
    db.userPnlAll active =
        ((db.users.rows.filter fun user => active user.id ∧ user.id ≠ 0 ∧
          ∃ bot ∈ db.bots.rows, bot.userId = some user.id).map db.userPnl).insertionSort
          (fun a b => b.realizedPnl ≤ a.realizedPnl) ∧
      (∀ user, (db.userPnl user).bots = (db.activeBots user.id).map db.ownPnl) ∧
      db.botsPnl none = (db.bots.rows.map db.ownPnl).insertionSort fun a b =>
        b.realizedPnl ≤ a.realizedPnl := by
  refine ⟨?_, fun user => userPnl_bots, ?_⟩
  · unfold Database.userPnlAll
    refine congrArg (List.insertionSort fun a b : UserPnlResponse =>
      b.realizedPnl ≤ a.realizedPnl) ?_
    rw [List.filterMap_filter, ← List.filterMap_eq_map (f := db.userPnl), List.filterMap_filter]
    refine List.filterMap_congr fun user _ => ?_
    rw [get_botsByUser]
    by_cases hactive : active user.id = true
    · by_cases hzero : user.id = 0
      · simp [hzero]
      · by_cases hbots : ∃ bot ∈ db.bots.rows, bot.userId = some user.id
        · have hne : (db.bots.rows.filter fun bot => bot.userId = some user.id) ≠ [] := by
            obtain ⟨bot, hbot, hown⟩ := hbots
            exact List.ne_nil_of_mem (List.mem_filter.mpr ⟨hbot, decide_eq_true hown⟩)
          rw [if_pos hactive, if_neg hzero, if_neg hne,
            if_pos (decide_eq_true ⟨hactive, hzero, hbots⟩)]
          refine congrArg some (userPnlOf_congr fun bot hbot => ?_)
          have hrow := List.mem_of_mem_filter hbot
          rw [get_tradesByBot db rfl (List.mem_map_of_mem hrow),
            get_tradesByBot db (Groups.get_ofKeys _) (List.mem_map_of_mem hbot)]
        · have hnil : (db.bots.rows.filter fun bot => bot.userId = some user.id) = [] :=
            List.filter_eq_nil_iff.mpr fun bot hbot hown =>
              hbots ⟨bot, hbot, of_decide_eq_true hown⟩
          rw [if_pos hactive, if_neg hzero, if_pos hnil, if_neg]
          exact fun h => hbots (of_decide_eq_true h).2.2
    · rw [if_neg hactive, if_neg]
      exact fun h => hactive (of_decide_eq_true h).1
  · unfold Database.botsPnl
    dsimp only [Option.filter_none, Option.elim_none]
    split_ifs with hnil
    · rw [List.map_eq_nil_iff.mp hnil]
      rfl
    · refine congrArg (List.insertionSort fun a b : BotPnlResponse =>
        b.realizedPnl ≤ a.realizedPnl) ?_
      refine List.map_congr_left fun bot hbot => congrArg (botPnl bot) ?_
      have hname : bot.botName ∈ db.bots.rows.map Bot.botName := List.mem_map_of_mem hbot
      have hget := get_tradesByBot db (Groups.get_ofKeys (db.bots.rows.map Bot.botName)) hname
      rwa [if_neg hnil] at hget

end Pages

/-! ## The pages and the books -/

section Reconciles

variable {db : Database} {s s₀ : SnapshotStore} {user : User} {bot : Bot} {name : BotName}
  {bots : List Bot}

theorem sum_tradesOf {f g : BinaryOption → ℚ} (hown : ∀ b, b.botName = name → f b = g b)
    (hother : ∀ b, b.botName ≠ name → g b = 0) :
    ((db.tradesOf [name]).map f).sum = db.orders.total g := by
  have hrows : db.tradesOf [name] = (db.orders.filter fun b => b.botName = name).rows := by
    refine List.filter_congr fun b _ => ?_
    rw [decide_eq_decide, List.mem_singleton]
  have hcongr : (db.tradesOf [name]).map f = (db.tradesOf [name]).map g := by
    refine List.map_congr_left fun b hb => hown b ?_
    exact List.mem_singleton.mp (of_decide_eq_true (List.mem_filter.mp hb).2)
  rw [hcongr, hrows]
  exact Table.total_filter fun b hb => hother b (of_decide_eq_false hb)

theorem ownPnl_fees (h : OnGrid db) :
    (db.ownPnl bot).totalFees = db.orders.total (feeOf bot.botName) := by
  have hsum : ((db.tradesOf [bot.botName]).map BinaryOption.fee).sum =
      db.orders.total (feeOf bot.botName) :=
    sum_tradesOf (fun b hb => (if_pos hb).symm) fun b hb => feeOf_ne hb
  show round8 _ = _
  rw [hsum]
  refine roundTo_of_mem (orderTotal_mem_grid fun b hb => ?_)
  unfold feeOf
  split_ifs
  · exact h.fee b hb
  · exact zero_mem _

theorem ownPnl_realized (db : Database) (bot : Bot) :
    |(db.ownPnl bot).realizedPnl - db.orders.total (realizedOf bot.botName)| ≤
      1 / (2 * 10 ^ 8) := by
  have hsum : ((db.tradesOf [bot.botName]).map BinaryOption.settledProfit).sum =
      db.orders.total (realizedOf bot.botName) := by
    refine sum_tradesOf (fun b hb => ?_) fun b hb => realizedOf_ne hb
    simp [BinaryOption.settledProfit, BinaryOption.isSettled, realizedOf, hb]
  show |round8 _ - _| ≤ _
  rw [hsum]
  exact abs_roundTo_sub_le 8 _

theorem ownPnl_trades (db : Database) (bot : Bot) :
    (db.ownPnl bot).totalTrades = db.orderCount bot.botName := by
  refine congrArg List.length (List.filter_congr fun b _ => ?_)
  rw [decide_eq_decide, List.mem_singleton]

/-- What a line of the page misses of the account. -/
theorem ownPnl_close (h : Books db) (hrow : bot ∈ db.bots.rows) (hactive : bot.isActive = true) :
    |bot.balance - (bot.initialBalance + (db.ownPnl bot).realizedPnl - (db.ownPnl bot).totalFees -
      db.orders.total (stakeOf bot.botName))| ≤ ((db.ownPnl bot).totalTrades + 1) / 10 ^ 8 := by
  have hdrift := h.close bot hrow hactive
  have hrealized := ownPnl_realized db bot
  rw [ownPnl_fees h.onGrid, ownPnl_trades, add_div]
  have hsplit : bot.balance - (bot.initialBalance + (db.ownPnl bot).realizedPnl -
      db.orders.total (feeOf bot.botName) - db.orders.total (stakeOf bot.botName)) =
      db.drift bot - ((db.ownPnl bot).realizedPnl - db.orders.total (realizedOf bot.botName)) := by
    unfold Database.drift
    ring
  rw [hsplit]
  refine (abs_sub _ _).trans (add_le_add hdrift (hrealized.trans ?_))
  norm_num

theorem abs_sum_sub_le {α : Type} {f g k : α → ℚ} {l : List α} (h : ∀ a ∈ l, |f a - g a| ≤ k a) :
    |(l.map f).sum - (l.map g).sum| ≤ (l.map k).sum := by
  have hsub : (l.map f).sum - (l.map g).sum = (l.map fun a => f a - g a).sum := by
    clear h
    induction l with
    | nil => exact sub_zero 0
    | cons a l ih =>
      rw [List.map_cons, List.map_cons, List.map_cons, List.sum_cons, List.sum_cons,
        List.sum_cons, ← ih]
      ring
  rw [hsub]
  exact abs_sum_map_le h

theorem sum_accounts (initial realized fees stake : Bot → ℚ) (bots : List Bot) :
    (bots.map fun bot => initial bot + realized bot - fees bot - stake bot).sum =
      (bots.map initial).sum + (bots.map realized).sum - (bots.map fees).sum -
        (bots.map stake).sum := by
  induction bots with
  | nil => simp
  | cons bot rest ih =>
    simp only [List.map_cons, List.sum_cons, ih]
    ring

theorem sum_units (trades : Bot → ℕ) (bots : List Bot) :
    (bots.map fun bot => ((trades bot + 1) / 10 ^ 8 : ℚ)).sum =
      (((bots.map trades).sum : ℕ) + bots.length : ℚ) / 10 ^ 8 := by
  induction bots with
  | nil => simp
  | cons bot rest ih =>
    rw [List.map_cons, List.map_cons, List.sum_cons, List.sum_cons, ih, List.length_cons]
    push_cast
    ring

/-- What the page of a user misses. -/
theorem activePnls_close (h : Books db) (userId : ℕ) :
    |((db.activeBots userId).map Bot.balance).sum - ((db.activeBots userId).map fun bot =>
      bot.initialBalance +
      (db.ownPnl bot).realizedPnl - (db.ownPnl bot).totalFees -
        db.orders.total (stakeOf bot.botName)).sum| ≤
      (((db.activeBots userId).map fun bot =>
        (db.ownPnl bot).totalTrades).sum + (db.activeBots userId).length) /
        10 ^ 8 := by
  rw [← sum_units]
  refine abs_sum_sub_le fun bot hbot => ?_
  obtain ⟨hrow, -, hactive⟩ := mem_activeBots.mp hbot
  exact ownPnl_close h hrow hactive

theorem settledProfit_nil (db : Database) : db.settledProfit [] = 0 := by
  refine List.sum_eq_zero fun x hx => ?_
  obtain ⟨b, -, rfl⟩ := List.mem_map.mp hx
  exact if_neg fun h => List.not_mem_nil h.1

theorem settledProfit_names (h : (bots.map Bot.botName).Nodup) :
    db.settledProfit (bots.map Bot.botName) =
      (bots.map fun bot => db.orders.total (realizedOf bot.botName)).sum := by
  induction bots with
  | nil => exact settledProfit_nil db
  | cons bot rest ih =>
    obtain ⟨hnew, hnodup⟩ := List.nodup_cons.mp h
    rw [List.map_cons, List.map_cons, List.sum_cons, ← ih hnodup]
    exact settledProfit_split hnew fun x => List.mem_cons

/-- The page of a user, by the lines of the active bots. -/
theorem userPnl_eq (hcol : OnColumns db) (huser : user ∈ db.users.rows) :
    let page := db.userPnl user
    page.currentBalance = db.equity user ∧
      page.realizedPnl = ((db.activeBots user.id).map fun bot => (db.ownPnl bot).realizedPnl).sum ∧
      page.totalFees = ((db.activeBots user.id).map fun bot => (db.ownPnl bot).totalFees).sum ∧
      page.totalTrades = ((db.activeBots user.id).map fun bot =>
        (db.ownPnl bot).totalTrades).sum := by
  have hgrid : ∀ f : BotPnlResponse → ℚ, (∀ bot, f (db.ownPnl bot) ∈ grid 8) →
      round8 ((db.userPnl user).bots.map f).sum =
        ((db.activeBots user.id).map fun bot => f (db.ownPnl bot)).sum := by
    intro f hf
    rw [userPnl_bots, List.map_map]
    refine roundTo_of_mem (list_sum_mem fun x hx => ?_)
    obtain ⟨bot, -, rfl⟩ := List.mem_map.mp hx
    exact hf bot
  refine ⟨?_, hgrid _ fun bot => roundTo_mem_grid 8 _, hgrid _ fun bot => roundTo_mem_grid 8 _, ?_⟩
  · show round8 ((((db.bots.rows.filter _).filter _).map Bot.balance).sum +
      (user.initialBalance - (((db.bots.rows.filter _).filter _).map Bot.initialBalance).sum)) = _
    rw [filter_active, Database.equity, Database.available, Database.allocated, add_comm]
    refine roundTo_of_mem (add_mem (sub_mem (hcol.user user huser) (hcol.allocated user.id))
      (list_sum_mem fun x hx => ?_))
    obtain ⟨bot, hbot, rfl⟩ := List.mem_map.mp hx
    exact hcol.balance bot (mem_activeBots.mp hbot).1
  · show ((db.userPnl user).bots.map BotPnlResponse.totalTrades).sum = _
    rw [userPnl_bots, List.map_map]
    rfl

/-- What the settled orders of a user won, and the profit on the page. -/
theorem settledProfit_close (hcol : OnColumns db) (huser : user ∈ db.users.rows) :
    |db.settledProfit ((db.activeBots user.id).map Bot.botName) - (db.userPnl user).realizedPnl| ≤
      (db.userPnl user).bots.length / (2 * 10 ^ 8) := by
  have hnames : ((db.activeBots user.id).map Bot.botName).Nodup :=
    db.bots.nodup.sublist (List.filter_sublist.map Bot.botName)
  obtain ⟨-, hrealized, -, -⟩ := userPnl_eq hcol huser
  rw [settledProfit_names hnames, hrealized, userPnl_bots, List.length_map, div_eq_mul_one_div,
    ← nsmul_eq_mul, ← List.sum_replicate, ← List.map_const']
  refine abs_sum_sub_le fun bot _ => ?_
  rw [abs_sub_comm]
  exact ownPnl_realized db bot

theorem userPnl_length : (db.userPnl user).bots.length = (db.activeBots user.id).length :=
  (congrArg List.length userPnl_bots).trans (List.length_map _)

theorem userPnl_close (hbooks : Books db) (hcol : OnColumns db) (huser : user ∈ db.users.rows) :
    |(db.userPnl user).currentBalance - (user.initialBalance + (db.userPnl user).realizedPnl -
      (db.userPnl user).totalFees -
      ((db.activeBots user.id).map fun bot => db.orders.total (stakeOf bot.botName)).sum)| ≤
      ((db.userPnl user).totalTrades + (db.userPnl user).bots.length) / 10 ^ 8 := by
  obtain ⟨hcurrent, hrealized, hfees, htrades⟩ := userPnl_eq hcol huser
  have hclose := activePnls_close hbooks user.id
  rw [sum_accounts, ← hrealized, ← hfees, ← htrades, ← userPnl_length] at hclose
  rw [hcurrent, Database.equity, Database.available, Database.allocated]
  refine le_of_eq_of_le (congrArg _ ?_) hclose
  ring

theorem realizedBalance_close (hcol : OnColumns db) (huser : user ∈ db.users.rows) {x : ℚ}
    (hx : x ∈ db.realizedBalance user) :
    |x - (user.initialBalance + (db.userPnl user).realizedPnl)| ≤
      ((db.userPnl user).bots.length + 1) / (2 * 10 ^ 8) := by
  have hprofit := settledProfit_close hcol huser
  have hround := abs_roundTo_sub_le 8 (user.initialBalance +
    db.settledProfit ((db.activeBots user.id).map Bot.botName))
  unfold Database.realizedBalance at hx
  dsimp only at hx
  split_ifs at hx
  · cases hx
  obtain rfl := Option.some.inj hx
  rw [← add_sub_add_left_eq_sub _ _ user.initialBalance] at hprofit
  refine (abs_sub_le _ _ _).trans ((add_le_add hround hprofit).trans_eq ?_)
  ring

theorem me_balance_close (hcol : OnColumns db) (huser : user ∈ db.users.rows) :
    |(db.me user).totalBalance + (db.me user).availableBalance - (db.userPnl user).currentBalance| ≤
      1 / 200 := by
  have hround := abs_roundTo_sub_le 2 ((db.activeBots user.id).map Bot.balance).sum
  have htotal : (db.me user).totalBalance = roundTo 2
    ((db.activeBots user.id).map Bot.balance).sum := rfl
  have havailable : (db.me user).availableBalance = db.available user := rfl
  rw [(userPnl_eq hcol huser).1, Database.equity, htotal, havailable, add_comm (db.available user),
    add_sub_add_right_eq_sub]
  exact hround.trans (by norm_num)

theorem me_profit_close (hcol : OnColumns db) (huser : user ∈ db.users.rows) :
    |(db.me user).totalPnl - (db.userPnl user).realizedPnl| ≤
      1 / 200 + (db.userPnl user).bots.length / (2 * 10 ^ 8) := by
  have hprofit := settledProfit_close hcol huser
  have hround := abs_roundTo_sub_le 2 (db.settledProfit ((db.activeBots user.id).map Bot.botName))
  have htotal : (db.me user).totalPnl = roundTo 2
      (db.settledProfit ((db.activeBots user.id).map Bot.botName)) := by
    unfold Database.me
    dsimp only
    split_ifs with hnil
    · rw [hnil, settledProfit_nil]
    · rfl
  rw [htotal]
  refine (abs_sub_le _ _ _).trans (add_le_add (hround.trans ?_) hprofit)
  norm_num

/-- **The page of a user reconciles with the books.**  In every run the current balance on it is the
equity of the user; it is the initial balance, plus the profit on the page, less its fees and what
is at stake, up to a unit for each order and each bot; what the balance history records is the
initial balance and the profit, up to half a unit for each bot and one more; and `me` shows the same
balance and the same profit, up to half a cent. -/
theorem pnl_reconciles (h₀ : Reconciling s₀.db)
    (hrun : Run SchedulerAction.step SchedulerAction.KeepsBooks s₀ s)
    (huser : user ∈ s.db.users.rows) :
    let page := s.db.userPnl user
    let me := s.db.me user
    page.currentBalance = s.db.equity user ∧
      |page.currentBalance - (user.initialBalance + page.realizedPnl - page.totalFees -
        ((s.db.activeBots user.id).map fun bot => s.db.orders.total (stakeOf bot.botName)).sum)| ≤
          (page.totalTrades + page.bots.length) / 10 ^ 8 ∧
      (∀ x ∈ s.db.realizedBalance user, |x - (user.initialBalance + page.realizedPnl)| ≤
        (page.bots.length + 1) / (2 * 10 ^ 8)) ∧
      |me.totalBalance + me.availableBalance - page.currentBalance| ≤ 1 / 200 ∧
      |me.totalPnl - page.realizedPnl| ≤ 1 / 200 + page.bots.length / (2 * 10 ^ 8) := by
  have hinv := reconciling_run (fun _ _ h => h) h₀ hrun
  have hcol := hinv.onColumns
  exact ⟨(userPnl_eq hcol huser).1, userPnl_close hinv.books hcol huser,
    fun x hx => realizedBalance_close hcol huser hx,
    me_balance_close hcol huser, me_profit_close hcol huser⟩

theorem reconciling_candleStore : Reconciling candleStore.db where
  books :=
    { onGrid := ⟨by decide +kernel, by decide +kernel, by decide +kernel⟩
      initial := by decide +kernel
      close := by
        intro bot hbot _
        have hzero : candleStore.db.drift bot = 0 := by
          revert bot
          unfold Database.drift
          decide +kernel
        rw [hzero, abs_zero]
        positivity }
  api := ⟨by decide, by decide⟩
  user := by decide +kernel

/-- The page after the order has won ten. -/
theorem pnl_reconciles_won : ∃ s,
    Run SchedulerAction.step SchedulerAction.KeepsBooks candleStore s ∧
    ∃ user ∈ s.db.users.rows, (s.db.userPnl user).realizedPnl = 10 ∧ (s.db.userPnl user).wins = 1 ∧
      (s.db.userPnl user).currentBalance = s.db.equity user := by
  have hstep :
      ((SchedulerAction.api (.trade (.settle 1205 fun _ => some ⟨1, 2⟩))).step candleStore).any
        (fun s => decide
      (∃ user ∈ s.db.users.rows, (s.db.userPnl user).realizedPnl = 10 ∧
        (s.db.userPnl user).wins = 1)) = true := by
    decide +kernel
  obtain ⟨s, hs, hpage⟩ := Option.any_eq_true _ _ |>.mp hstep
  obtain ⟨user, huser, hprofit, hwins⟩ := of_decide_eq_true hpage
  have hrun : Run SchedulerAction.step SchedulerAction.KeepsBooks candleStore s :=
    .next .start (a := .api (.trade (.settle 1205 fun _ => some ⟨1, 2⟩))) trivial hs
  exact ⟨s, hrun, user, huser, hprofit, hwins,
    (pnl_reconciles reconciling_candleStore hrun huser).1⟩

end Reconciles

end PolyArena
