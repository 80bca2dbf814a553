import PolyArena.Api.Pnl

/-!
# The maintenance scripts

`scripts/reset_balances.py` starts the competition afresh, and `scripts/backfill_balance_history.py`
rebuilds the balance history of the bots from their settled orders.

1. `reset_repairs`: whatever the books were before, a reset leaves five thousand to every user and
   all accounts in order, and so does every run after it.
2. `backfill_reconciles`: the rebuilt history of a bot ends with its balance, its fees and what is
   at stake; a second run of the script changes nothing.
-/

namespace PolyArena

open Rounding

/-! ## The reset -/

def BOT_BALANCE : ℚ := 1000
def USER_TOTAL : ℚ := 5000

/-- An active bot after the reset. -/
def Bot.reset (bot : Bot) : Bot :=
  if bot.isActive
  then { bot with balance := BOT_BALANCE, initialBalance := BOT_BALANCE, status := .active }
  else bot

theorem Bot.reset_botName (bot : Bot) : bot.reset.botName = bot.botName := by
  unfold Bot.reset
  split_ifs <;> rfl

def User.reset (user : User) : User := { user with initialBalance := USER_TOTAL }

namespace Database

variable (db : Database)

/-- What `reset_balances` does to the accounts. -/
def resetBalances : Database where
  bots := db.bots.mapRows Bot.reset Bot.reset_botName
  orders := ⟨[], List.nodup_nil⟩
  users := db.users.mapRows User.reset fun _ => rfl

/-- The snapshot that `reset_balances` adds for a user. -/
def resetSnapshot (recordedAt : Time) (user : User) : UserBalanceSnapshot :=
  let allocated := (db.activeBots user.id).length * BOT_BALANCE
  { userId := user.id
    balance := USER_TOTAL
    botBalance := allocated
    available := USER_TOTAL - allocated
    sessionId := none
    sessionPnl := none
    prevBalance := none
    botPnl := none
    recordedAt := recordedAt }

end Database

/-- `reset_balances` with `--apply`. -/
def SnapshotStore.resetBalances (s : SnapshotStore) (recordedAt : ℕ → Time) : SnapshotStore where
  db := s.db.resetBalances
  clock := s.clock
  snapshots := s.db.users.rows.map fun user => s.db.resetSnapshot (recordedAt user.id) user

section Reset

variable {db : Database} {s s' : SnapshotStore} {bot : Bot} {user : User} {userId : ℕ}
  {recordedAt : ℕ → Time} {a : SchedulerAction}

theorem mem_resetBots : bot ∈ db.resetBalances.bots.rows ↔
    ∃ old ∈ db.bots.rows, old.reset = bot := List.mem_map

theorem reset_isActive (bot : Bot) : bot.reset.isActive = bot.isActive := by
  unfold Bot.reset
  split_ifs <;> rfl

/-- An active bot has the same balance and initial balance. -/
theorem reset_active (h : bot.isActive = true) :
    bot.reset.balance = BOT_BALANCE ∧ bot.reset.initialBalance = BOT_BALANCE := by
  unfold Bot.reset
  rw [if_pos h]
  exact ⟨rfl, rfl⟩

theorem apiInv_reset (h : ApiInv db) : ApiInv db.resetBalances where
  names := by
    intro name hname
    rcases mem_mentioned.mp hname with ⟨bot, hbot, rfl⟩ | ⟨bo, hbo, -⟩ | ⟨row, hrow,
      -⟩ | ⟨row, hrow, -⟩
    · exact List.mem_map_of_mem hbot
    · cases hbo
    · cases hrow
    · cases hrow
  keys := by
    have hkeys : db.resetBalances.apiKeys = db.apiKeys := by
      unfold Database.apiKeys Database.resetBalances Table.mapRows
      dsimp only
      rw [List.map_map]
      refine List.map_congr_left fun bot _ => ?_
      rw [Function.comp_apply, Bot.reset]
      split_ifs <;> rfl
    rw [hkeys]
    exact h.keys

theorem onColumns_reset (h : OnColumns db) : OnColumns db.resetBalances where
  user := by
    intro user huser
    obtain ⟨old, -, rfl⟩ := List.mem_map.mp huser
    exact (by decide +kernel : USER_TOTAL ∈ grid 8)
  initialBalance := by
    intro bot hbot
    obtain ⟨old, hold, rfl⟩ := mem_resetBots.mp hbot
    unfold Bot.reset
    split_ifs
    · exact (by decide +kernel : BOT_BALANCE ∈ grid 8)
    · exact h.initialBalance old hold
  balance := by
    intro bot hbot
    obtain ⟨old, hold, rfl⟩ := mem_resetBots.mp hbot
    unfold Bot.reset
    split_ifs
    · exact (by decide +kernel : BOT_BALANCE ∈ grid 8)
    · exact h.balance old hold

/-- **A reset** puts the accounts in order. -/
theorem reconciling_reset (hinv : ApiInv db) (hcol : OnColumns db) :
    Reconciling db.resetBalances where
  books :=
    { onGrid := ⟨(onColumns_reset hcol).balance, fun _ h => absurd h List.not_mem_nil,
        fun _ h => absurd h List.not_mem_nil⟩
      initial := (onColumns_reset hcol).initialBalance
      close := by
        intro bot hbot hactive
        obtain ⟨old, -, rfl⟩ := mem_resetBots.mp hbot
        obtain ⟨hbalance, hinitial⟩ := reset_active ((reset_isActive old).symm.trans hactive)
        rw [drift_of_no_orders fun _ h => absurd h List.not_mem_nil, hbalance, hinitial,
          sub_self, abs_zero]
        positivity }
  api := apiInv_reset hinv
  user := (onColumns_reset hcol).user

theorem activeBots_reset (db : Database) (userId : ℕ) :
    db.resetBalances.activeBots userId = (db.activeBots userId).map Bot.reset := by
  unfold Database.activeBots Database.resetBalances Table.mapRows
  rw [List.filter_map]
  congr 1
  refine List.filter_congr fun bot _ => ?_
  rw [Function.comp_apply, reset_isActive, Bot.reset]
  split_ifs <;> rfl

/-- What the active bots have after the reset. -/
theorem sum_activeBots_reset (db : Database) (userId : ℕ) (f : Bot → ℚ)
    (hf : ∀ bot : Bot, bot.isActive = true → f bot.reset = BOT_BALANCE) :
    ((db.resetBalances.activeBots userId).map f).sum =
      (db.activeBots userId).length * BOT_BALANCE := by
  rw [activeBots_reset, List.map_map]
  have hconst : ∀ bot ∈ db.activeBots userId, (f ∘ Bot.reset) bot = BOT_BALANCE := fun bot hbot =>
    hf bot (mem_activeBots.mp hbot).2.2
  rw [List.map_congr_left hconst, List.map_const', List.sum_replicate, nsmul_eq_mul]

theorem available_reset (db : Database) (user : User) : db.resetBalances.available user.reset =
    USER_TOTAL - (db.activeBots user.id).length * BOT_BALANCE := by
  have hallocated := sum_activeBots_reset db user.id Bot.initialBalance fun bot h =>
    (reset_active h).2
  show USER_TOTAL - ((db.resetBalances.activeBots user.id).map Bot.initialBalance).sum = _
  rw [hallocated]

theorem equity_reset (db : Database) (user : User) :
    db.resetBalances.equity user.reset = USER_TOTAL := by
  have hbalance := sum_activeBots_reset db user.id Bot.balance fun bot h => (reset_active h).1
  show db.resetBalances.available user.reset +
    ((db.resetBalances.activeBots user.id).map Bot.balance).sum = _
  rw [available_reset, hbalance, sub_add_cancel]

theorem snapshotsOf_reset (s : SnapshotStore) (recordedAt : ℕ → Time) (userId : ℕ) :
    (s.resetBalances recordedAt).snapshotsOf userId =
      (s.db.users.get userId).toList.map fun user =>
        s.db.resetSnapshot (recordedAt user.id) user := by
  unfold SnapshotStore.snapshotsOf SnapshotStore.resetBalances
  dsimp only
  rw [List.filter_map, ← Table.filter_key]
  rfl

theorem snapshotsInv_reset (s : SnapshotStore) (recordedAt : ℕ → Time) (userId : ℕ) :
    SnapshotsInv ((s.resetBalances recordedAt).snapshotsOf userId) := by
  rw [snapshotsOf_reset]
  cases s.db.users.get userId with
  | none => exact ⟨trivial, fun _ h => absurd h List.not_mem_nil, rfl⟩
  | some user =>
    refine ⟨⟨⟨rfl, rfl, (add_sub_cancel _ _).symm⟩, trivial⟩, fun row hrow => ?_, rfl⟩
    rw [List.mem_singleton.mp hrow]
    exact (by decide +kernel : USER_TOTAL ∈ grid 8)

/-- The snapshots are only added to. -/
theorem snapshots_prefix_step (hstep : a.step s = some s') : s.snapshots <+: s'.snapshots := by
  cases a with
  | tick now =>
    simp only [SchedulerAction.step] at hstep
    split_ifs at hstep
    cases hstep
    exact List.prefix_rfl
  | api a =>
    obtain ⟨db, -, rfl⟩ := Option.map_eq_some_iff.mp hstep
    exact List.prefix_rfl
  | snapshot now active recordedAt =>
    cases hstep
    exact List.prefix_append _ _

/-- **A reset repairs the books.** Whatever they were before: after the reset every user has five
thousand, of which a thousand is with each active bot; and in every run from there the accounts stay
in order, and the snapshots of a user start from five thousand and add up. -/
theorem reset_repairs (hinv : ApiInv s.db) (hcol : OnColumns s.db)
    (hrun : Run SchedulerAction.step (fun s a => a.KeepsBooks s ∧ a.Advances s)
      (s.resetBalances recordedAt) s') :
    Reconciling s'.db ∧ ∀ user ∈ s.db.users.rows,
      s.db.resetBalances.equity user.reset = USER_TOTAL ∧
        s.db.resetBalances.available user.reset =
          USER_TOTAL - (s.db.activeBots user.id).length * BOT_BALANCE ∧
        ∃ first rest, s'.snapshotsOf user.id = first :: rest ∧ first.balance = USER_TOTAL ∧
          lastBalance none (s'.snapshotsOf user.id) =
            some (USER_TOTAL + (rest.map fun row => row.sessionPnl.getD 0).sum) := by
  have hreconciling : Reconciling s'.db :=
    reconciling_run (fun _ _ h => h.1) (reconciling_reset hinv hcol) hrun
  have hsnapshots : ∀ userId, SnapshotsInv (s'.snapshotsOf userId) :=
    snapshotsInv_run (fun _ _ h => h.2) (snapshotsInv_reset s recordedAt) hrun
  have hprefix : (s.resetBalances recordedAt).snapshots <+: s'.snapshots :=
    hrun.invariant (fun x => (s.resetBalances recordedAt).snapshots <+: x.snapshots) List.prefix_rfl
      fun _ _ _ h _ hstep => h.trans (snapshots_prefix_step hstep)
  refine ⟨hreconciling, fun user huser => ⟨equity_reset s.db user, available_reset s.db user, ?_⟩⟩
  have hfirst : (s.resetBalances recordedAt).snapshotsOf user.id =
      [s.db.resetSnapshot (recordedAt user.id) user] := by
    rw [snapshotsOf_reset, Table.get_of_mem huser]
    rfl
  obtain ⟨rest, hrest⟩ := hprefix.filter fun row => row.userId = user.id
  have hrows : s'.snapshotsOf user.id = s.db.resetSnapshot (recordedAt user.id) user :: rest := by
    unfold SnapshotStore.snapshotsOf at hfirst ⊢
    rw [← hrest, hfirst]
    rfl
  refine ⟨_, rest, hrows, rfl, ?_⟩
  have hchained := (hsnapshots user.id).chained
  rw [hrows] at hchained ⊢
  rw [lastBalance_cons]
  exact hchained.2.telescopes

end Reset

/-- Two orders of the first user's bot are on the books before the reset, and a snapshot is taken
after it. -/
theorem reset_repairs_snapshot :
    ∃ s, Run SchedulerAction.step (fun s a => a.KeepsBooks s ∧ a.Advances s)
    (orderedStore.resetBalances fun _ => 1000) s ∧ s.snapshots.length = 4 ∧
      ∀ user ∈ orderedStore.db.users.rows,
      orderedStore.db.resetBalances.equity user.reset = USER_TOTAL := by
  have hinv : ApiInv orderedStore.db := apiInv_step (a := .trade lowLimit) apiInv_twoUsersDb rfl
  have hcol : OnColumns orderedStore.db := ⟨by decide +kernel, by decide +kernel, by decide +kernel⟩
  have hjob : ∃ s, (SchedulerAction.snapshot 1300 (fun _ => true) fun _ => 1300).step
      (orderedStore.resetBalances fun _ => 1000) = some s ∧ s.snapshots.length = 4 :=
        ⟨_, rfl, by decide +kernel⟩
  obtain ⟨s, hstep, hlength⟩ := hjob
  have hlater : (SchedulerAction.snapshot 1300 (fun _ => true) fun _ => 1300).Advances
      (orderedStore.resetBalances fun _ => 1000) := by
    decide +kernel
  have hrun : Run SchedulerAction.step (fun s a => a.KeepsBooks s ∧ a.Advances s)
      (orderedStore.resetBalances fun _ => 1000) s :=
    .next .start (a := .snapshot 1300 (fun _ => true) fun _ => 1300) ⟨trivial, hlater⟩ hstep
  exact ⟨s, hrun, hlength, fun user huser => ((reset_repairs hinv hcol hrun).2 user huser).1⟩

/-! ## The backfill -/

/-- By time of creation; those without one are last. -/
def BinaryOption.CreatedBefore (a b : BinaryOption) : Prop :=
  ∀ y ∈ b.createdAt, ∃ x ∈ a.createdAt, x ≤ y

instance (a b : BinaryOption) : Decidable (a.CreatedBefore b) := by
  unfold BinaryOption.CreatedBefore
  infer_instance

/-- The records of the trades, from the balance before them. -/
def runningRecords (name : BotName) : ℚ → List BinaryOption → List BalanceHistory
  | _, [] => []
  | balance, t :: rest =>
    let balance := round8 (balance + t.profit.getD 0)
    ⟨name, balance, some t.id⟩ :: runningRecords name balance rest

namespace Database

variable (db : Database)

/-- The settled orders of a bot, in their order. -/
def settledTrades (name : BotName) : List BinaryOption :=
  (db.orders.rows.filter fun b => b.botName = name ∧ b.isSettled ∧ b.profit ≠ none).insertionSort
    BinaryOption.CreatedBefore

/-- The records that `backfill` writes for a bot. -/
def backfillRecords (bot : Bot) : List BalanceHistory :=
  ⟨bot.botName, bot.initialBalance, none⟩ ::
    runningRecords bot.botName bot.initialBalance (db.settledTrades bot.botName)

/-- One bot of `backfill`. -/
def backfillBot (force : Bool) (history : List BalanceHistory) (bot : Bot) : List BalanceHistory :=
  let existing := history.countP fun row => row.botName = bot.botName
  if existing ≠ 0 ∧ ¬ force then history
  else
    let history :=
      if existing ≠ 0 ∧ force then history.filter fun row => row.botName ≠ bot.botName else history
    history ++ db.backfillRecords bot

/-- The balance history of a bot. -/
def historyOf (name : BotName) : List BalanceHistory :=
  db.balanceHistory.filter fun row => row.botName = name

/-- `backfill`, for the bots in the order of their creation. -/
def backfill (force : Bool) (bots : List Bot) : Database :=
  { db with balanceHistory := bots.foldl (db.backfillBot force) db.balanceHistory }

end Database

section Backfill

variable {db db₀ : Database} {bot : Bot} {bots : List Bot} {name : BotName}
  {history : List BalanceHistory} {trades : List BinaryOption} {row : BalanceHistory} {force : Bool}

theorem botName_of_mem_runningRecords {balance : ℚ} (h : row ∈ runningRecords name balance trades) :
    row.botName = name := by
  induction trades generalizing balance with
  | nil => cases h
  | cons t rest ih =>
    rcases List.mem_cons.mp h with rfl | hrest
    · rfl
    · exact ih hrest

theorem botName_of_mem_backfillRecords (h : row ∈ db.backfillRecords bot) :
    row.botName = bot.botName := by
  rcases List.mem_cons.mp h with rfl | hrest
  · rfl
  · exact botName_of_mem_runningRecords hrest

/-- Other bots keep their records. -/
theorem backfillBot_other (h : bot.botName ≠ name) :
    (db.backfillBot force history bot).filter (fun row => row.botName = name) =
      history.filter fun row => row.botName = name := by
  have hrecords : (db.backfillRecords bot).filter (fun row => row.botName = name) = [] := by
    refine List.filter_eq_nil_iff.mpr fun row hrow heq => h ?_
    exact (botName_of_mem_backfillRecords hrow).symm.trans (of_decide_eq_true heq)
  unfold Database.backfillBot
  dsimp only
  split_ifs
  · rfl
  · rw [List.filter_append, hrecords, List.append_nil, List.filter_filter]
    refine List.filter_congr fun row _ => ?_
    by_cases hrow : row.botName = name
    · simp [hrow, h.symm]
    · simp [hrow]
  · rw [List.filter_append, hrecords, List.append_nil]

/-- A bot has its new records, unless it had some and they are kept. -/
theorem backfillBot_own (force : Bool) (history : List BalanceHistory) (bot : Bot) :
    (db.backfillBot force history bot).filter (fun row => row.botName = bot.botName) =
      if history.filter (fun row => row.botName = bot.botName) = [] ∨
        force = true then db.backfillRecords bot
      else history.filter fun row => row.botName = bot.botName := by
  have hrecords : (db.backfillRecords bot).filter (fun row => row.botName = bot.botName) =
      db.backfillRecords bot :=
    List.filter_eq_self.mpr fun row hrow => decide_eq_true (botName_of_mem_backfillRecords hrow)
  have hexisting : (history.countP fun row => row.botName = bot.botName) = 0 ↔
      history.filter (fun row => row.botName = bot.botName) = [] := by
    rw [List.countP_eq_length_filter, List.length_eq_zero_iff]
  unfold Database.backfillBot
  dsimp only
  by_cases hnone : history.filter (fun row => row.botName = bot.botName) = []
  · have hzero := hexisting.mpr hnone
    rw [if_neg fun h => h.1 hzero, if_neg fun h => h.1 hzero, if_pos (.inl hnone),
      List.filter_append, hnone, hrecords, List.nil_append]
  · have hsome := fun h => hnone (hexisting.mp h)
    cases force with
    | false =>
      rw [if_pos ⟨hsome, Bool.false_ne_true⟩, if_neg (not_or.mpr ⟨hnone, Bool.false_ne_true⟩)]
    | true =>
      have hgone : (history.filter fun row => row.botName ≠ bot.botName).filter
          (fun row => row.botName = bot.botName) =
          [] := by
        rw [List.filter_filter]
        exact List.filter_eq_nil_iff.mpr fun row _ => by simp
      rw [if_neg fun h => h.2 rfl, if_pos ⟨hsome, rfl⟩, if_pos (.inr rfl), List.filter_append,
        hgone, hrecords, List.nil_append]

theorem backfill_other (hnew : name ∉ bots.map Bot.botName) (history : List BalanceHistory) :
    (bots.foldl (db.backfillBot force) history).filter (fun row => row.botName = name) =
      history.filter fun row => row.botName = name := by
  induction bots generalizing history with
  | nil => rfl
  | cons bot rest ih =>
    rw [List.map_cons, List.mem_cons, not_or] at hnew
    rw [List.foldl_cons, ih hnew.2, backfillBot_other (Ne.symm hnew.1)]

theorem backfill_own (hnodup : (bots.map Bot.botName).Nodup) (hbot : bot ∈ bots)
    (history : List BalanceHistory) :
    (bots.foldl (db.backfillBot force) history).filter (fun row => row.botName = bot.botName) =
      if history.filter (fun row => row.botName = bot.botName) = [] ∨
        force = true then db.backfillRecords bot
      else history.filter fun row => row.botName = bot.botName := by
  induction bots generalizing history with
  | nil => cases hbot
  | cons first rest ih =>
    obtain ⟨hnew, hrest⟩ := List.nodup_cons.mp hnodup
    rw [List.foldl_cons]
    rcases List.mem_cons.mp hbot with rfl | hmem
    · rw [backfill_other hnew, backfillBot_own]
    · have hne : first.botName ≠ bot.botName := fun h => hnew (h ▸ List.mem_map_of_mem hmem)
      rw [ih hrest hmem, backfillBot_other hne]

/-- A second run finds records everywhere. -/
theorem backfill_kept
    (h : ∀ bot ∈ bots, history.filter (fun row => row.botName = bot.botName) ≠ []) :
    bots.foldl (db.backfillBot false) history = history := by
  induction bots with
  | nil => rfl
  | cons bot rest ih =>
    have hkept : db.backfillBot false history bot = history := by
      refine if_pos ⟨fun hzero => h bot List.mem_cons_self ?_, Bool.false_ne_true⟩
      rwa [List.countP_eq_length_filter, List.length_eq_zero_iff] at hzero
    rw [List.foldl_cons, hkept, ih fun b hb => h b (List.mem_cons_of_mem _ hb)]

/-- The last of the running records. -/
theorem runningRecords_last (balance : ℚ) (tradeId : Option ℕ) :
    ∃ row, ((⟨name, balance, tradeId⟩ : BalanceHistory) ::
      runningRecords name balance trades).getLast? = some row ∧
      |row.balance - (balance + (trades.map fun t => t.profit.getD 0).sum)| ≤
        trades.length / (2 * 10 ^ 8) := by
  induction trades generalizing balance tradeId with
  | nil => exact ⟨⟨name, balance, tradeId⟩, rfl, by simp⟩
  | cons t rest ih =>
    obtain ⟨row, hlast, hclose⟩ := ih (round8 (balance + t.profit.getD 0)) (some t.id)
    refine ⟨row, ?_, ?_⟩
    · rw [runningRecords, List.getLast?_cons_cons]
      exact hlast
    · have hround := abs_roundTo_sub_le 8 (balance + t.profit.getD 0)
      rw [List.map_cons, List.sum_cons, List.length_cons, ← add_assoc]
      rw [← add_sub_add_right_eq_sub _ _ (rest.map fun t => t.profit.getD 0).sum] at hround
      refine (abs_sub_le _ _ _).trans ((add_le_add hclose hround).trans_eq ?_)
      push_cast
      ring

theorem sum_settledTrades (db : Database) (name : BotName) :
    ((db.settledTrades name).map fun t => t.profit.getD 0).sum =
      db.orders.total (realizedOf name) := by
  unfold Database.settledTrades
  rw [((List.perm_insertionSort _ _).map _).sum_eq]
  have hrows :
      ∀ b ∈ (db.orders.filter fun b => b.botName = name ∧ b.isSettled ∧ b.profit ≠ none).rows,
      b.profit.getD 0 = realizedOf name b := by
    intro b hb
    obtain ⟨hname, hsettled, -⟩ := of_decide_eq_true (List.mem_filter.mp hb).2
    exact (if_pos ⟨hname, of_decide_eq_true hsettled⟩).symm
  refine (congrArg List.sum (List.map_congr_left hrows)).trans (Table.total_filter fun b hb => ?_)
  have hnot := of_decide_eq_false hb
  unfold realizedOf
  split_ifs with hsettled
  · cases hprofit : b.profit with
    | none => rfl
    | some x => exact absurd ⟨hsettled.1, decide_eq_true hsettled.2, by rw [hprofit]; simp⟩ hnot
  · rfl

theorem length_settledTrades (db : Database) (name : BotName) :
    (db.settledTrades name).length ≤ db.orderCount name := by
  unfold Database.settledTrades Database.orderCount
  rw [(List.perm_insertionSort _ _).length_eq, ← List.countP_eq_length_filter,
    ← List.countP_eq_length_filter]
  exact List.countP_mono_left fun b _ h => decide_eq_true (of_decide_eq_true h).1

/-- The last of the rebuilt records, by the books. -/
theorem backfillRecords_last (h : Books db) (hbot : bot ∈ db.bots.rows)
    (hactive : bot.isActive = true) :
    ∃ row, (db.backfillRecords bot).getLast? = some row ∧
      |row.balance - (bot.balance + db.orders.total (feeOf bot.botName) +
        db.orders.total (stakeOf bot.botName))| ≤
        3 * db.orderCount bot.botName / (2 * 10 ^ 8) := by
  have hrecords : ∃ row, (db.backfillRecords bot).getLast? = some row ∧
      |row.balance - (bot.initialBalance + ((db.settledTrades bot.botName).map fun t =>
        t.profit.getD 0).sum)| ≤
        (db.settledTrades bot.botName).length / (2 * 10 ^ 8) :=
          runningRecords_last bot.initialBalance none
  obtain ⟨row, hlast, hclose⟩ := hrecords
  refine ⟨row, hlast, ?_⟩
  rw [sum_settledTrades] at hclose
  have hdrift := h.close bot hbot hactive
  have hcount : ((db.settledTrades bot.botName).length : ℚ) ≤ db.orderCount bot.botName := by
    exact_mod_cast length_settledTrades db bot.botName
  have hsplit : row.balance - (bot.balance + db.orders.total (feeOf bot.botName) +
        db.orders.total (stakeOf bot.botName)) =
      row.balance - (bot.initialBalance + db.orders.total (realizedOf bot.botName)) -
        db.drift bot := by
    unfold Database.drift
    ring
  rw [hsplit]
  refine (abs_sub _ _).trans ((add_le_add hclose hdrift).trans ?_)
  linarith

/-- **The backfill reconciles with the books.** After any run of the API, the script leaves to each
bot its records, or the rebuilt ones where it had none or is forced; the rebuilt ones of an active
bot end with its balance, its fees and what is at stake, up to rounding; and a second run of the
script changes nothing. -/
theorem backfill_reconciles (h₀ : Books db₀) (hinv₀ : ApiInv db₀)
    (hrun : Run ApiAction.step ApiAction.KeepsBooks db₀ db) (hbots : bots.Perm db.bots.rows)
    (force : Bool) :
    (∀ bot ∈ bots, (db.backfill force bots).historyOf bot.botName =
        if db.historyOf bot.botName = [] ∨ force = true
        then db.backfillRecords bot else db.historyOf bot.botName) ∧
      (∀ bot ∈ bots, bot.isActive = true → ∃ row, (db.backfillRecords bot).getLast? = some row ∧
        |row.balance - (bot.balance + db.orders.total (feeOf bot.botName) +
          db.orders.total (stakeOf bot.botName))| ≤
          3 * db.orderCount bot.botName / (2 * 10 ^ 8)) ∧
      (db.backfill force bots).backfill false bots = db.backfill force bots := by
  have hbooks : Books db := books_run h₀ hinv₀ hrun
  have hnodup : (bots.map Bot.botName).Nodup := (hbots.map Bot.botName).nodup_iff.mpr db.bots.nodup
  have hown : ∀ bot ∈ bots, (db.backfill force bots).historyOf bot.botName =
      if db.historyOf bot.botName = [] ∨ force = true
      then db.backfillRecords bot else db.historyOf bot.botName :=
    fun bot hbot => backfill_own hnodup hbot db.balanceHistory
  refine ⟨hown, fun bot hbot hactive => backfillRecords_last hbooks
    (hbots.mem_iff.mp hbot) hactive, ?_⟩
  unfold Database.backfill
  congr 1
  refine backfill_kept fun bot hbot => ?_
  have hafter := hown bot hbot
  split_ifs at hafter with hcond
  · intro hnil
    exact List.cons_ne_nil _ _ (hafter.symm.trans hnil)
  · intro hnil
    exact hcond (.inl (hafter.symm.trans hnil))

end Backfill

/-- One order has won. -/
theorem backfill_reconciles_won : ∃ db, Run ApiAction.step ApiAction.KeepsBooks candleStore.db db ∧
    (db.settledTrades "alpha").length = 1 ∧ ∀ bot ∈ db.bots.rows,
      (db.backfill true db.bots.rows).historyOf bot.botName = db.backfillRecords bot := by
  have hexec : ((ApiAction.trade (.settle 1205 fun _ => some ⟨1, 2⟩)).step candleStore.db).any
      (fun db => decide
      ((db.settledTrades "alpha").length = 1)) = true := by
    decide +kernel
  obtain ⟨db, hstep, hlength⟩ := Option.any_eq_true _ _ |>.mp hexec
  have hrun : Run ApiAction.step ApiAction.KeepsBooks candleStore.db db :=
    .next .start (a := .trade (.settle 1205 fun _ => some ⟨1, 2⟩)) trivial hstep
  refine ⟨db, hrun, of_decide_eq_true hlength, fun bot hbot => ?_⟩
  have hown := (backfill_reconciles reconciling_candleStore.books reconciling_candleStore.api hrun
    (.refl _) true).1
  exact (hown bot hbot).trans (if_pos (.inr rfl))

end PolyArena
