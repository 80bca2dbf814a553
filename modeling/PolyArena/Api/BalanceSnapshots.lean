import PolyArena.Api.Books
import PolyArena.Api.Equity
import Mathlib.Data.List.MinMax

/-!
# Balance snapshots

The scheduler snapshots the balance of every active user, every five minutes and beside the requests
and the transactions on orders (`snapshot_all_user_balances`).

1. `snapshots_chain`: each snapshot of a user carries the balance of the one before and the
   difference, so that the differences add up.
2. `snapshot_reconciles`: the balance is the equity of the user, and by the books of the bots it is
   the initial balance, plus what the orders won, less their fees and what is at stake.
3. `bot_pnl_zero`: the scheduler passes the candle that has just opened, and an order on it is
   settled after it has closed.  `bot_pnl` never counts an order.
-/

namespace PolyArena

open Rounding

structure UserBalanceSnapshot where
  userId : ℕ
  balance : ℚ
  botBalance : ℚ
  available : ℚ
  sessionId : Option (BOTimeframe × ℤ)
  sessionPnl : Option ℚ
  prevBalance : Option ℚ
  botPnl : Option ℚ
  recordedAt : Time
  deriving DecidableEq, Repr

/-- The most recent snapshot of the user. -/
def latestSnapshot (snapshots : List UserBalanceSnapshot) (userId : ℕ) :
    Option UserBalanceSnapshot :=
  (snapshots.filter fun row => row.userId = userId).argmax UserBalanceSnapshot.recordedAt

namespace Database

variable (db : Database)

/-- The profits of the bots `names` that were settled in the session of a candle. -/
def candleProfit (names : List BotName) (candleOpen : ℤ) : ℚ :=
  db.orders.total fun bo =>
    if bo.botName ∈ names ∧ bo.isSettled ∧ bo.candleOpen = some candleOpen
    then bo.profit.getD 0 else 0

/-- The row of one user. -/
def snapshotOf (snapshots : List UserBalanceSnapshot) (sessionLabel : Option (BOTimeframe × ℤ))
    (candleOpen : Option ℤ) (recordedAt : Time) (user : User) : UserBalanceSnapshot :=
  let activeBots := db.activeBots user.id
  let botBalance := round8 (activeBots.map Bot.balance).sum
  let available := round8 (user.initialBalance - db.allocated user.id)
  let balance := round8 (botBalance + available)
  let prevBalance := (latestSnapshot snapshots user.id).map UserBalanceSnapshot.balance
  { userId := user.id
    balance := balance
    botBalance := botBalance
    available := available
    sessionId := sessionLabel
    sessionPnl := prevBalance.map fun prev => round8 (balance - prev)
    prevBalance := prevBalance
    botPnl :=
      if activeBots = [] then none
      else candleOpen.map fun candleOpen =>
        numeric8 (db.candleProfit (activeBots.map Bot.botName) candleOpen)
    recordedAt := recordedAt }

/-- `snapshot_all_user_balances`: the rows that it adds.  `active` are the users whose `is_active`
is set. -/
def snapshotAllUserBalances (snapshots : List UserBalanceSnapshot)
    (sessionLabel : Option (BOTimeframe × ℤ)) (candleOpen : Option ℤ) (active : ℕ → Bool)
    (recordedAt : ℕ → Time) :
    List UserBalanceSnapshot :=
  (db.users.rows.filter fun user => active user.id).map fun user =>
    db.snapshotOf snapshots sessionLabel candleOpen (recordedAt user.id) user

end Database

/-- The start of the five minutes of `now`. -/
def snapshotCandle (now : Time) : ℤ := ⌊now⌋ / 300 * 300

/-! ## The machine -/

/-- The database with the snapshots.  No worker has read a time after `clock`. -/
structure SnapshotStore where
  db : Database
  clock : Time
  snapshots : List UserBalanceSnapshot := []

def SnapshotStore.snapshotsOf (s : SnapshotStore) (userId : ℕ) : List UserBalanceSnapshot :=
  s.snapshots.filter fun row => row.userId = userId

inductive SchedulerAction
  | tick (now : Time)
  | api (a : ApiAction)
  | snapshot (now : Time) (active : ℕ → Bool) (recordedAt : ℕ → Time)

namespace SchedulerAction

/-- Time passes, a request or a transaction runs, or the scheduler's job does
(`_run_balance_snapshot`). -/
def step (s : SnapshotStore) : SchedulerAction → Option SnapshotStore
  | tick now => if s.clock ≤ now then some { s with clock := now } else none
  | api a => (a.step s.db).map fun db => { s with db := db }
  | snapshot now active recordedAt =>
    let candleOpen := snapshotCandle now
    some { s with
      snapshots := s.snapshots ++
        s.db.snapshotAllUserBalances s.snapshots (some (.m5, candleOpen))
          (some candleOpen) active recordedAt }

/-- The time of a row is later than those of the user's rows before it. -/
def Advances (s : SnapshotStore) : SchedulerAction → Prop
  | snapshot _ _ recordedAt => ∀ row ∈ s.snapshots, row.recordedAt < recordedAt row.userId
  | _ => True

instance (s : SnapshotStore) (a : SchedulerAction) : Decidable (a.Advances s) := by
  cases a <;> unfold Advances <;> infer_instance

/-- A transaction has read no later time than the clock's, and the job runs within its five
minutes. -/
def OnTime (s : SnapshotStore) : SchedulerAction → Prop
  | api (.trade t) => ∀ now ∈ t.now, now ≤ s.clock
  | snapshot now _ _ => s.clock < (snapshotCandle now + 300 : ℤ)
  | _ => True

instance (s : SnapshotStore) : (a : SchedulerAction) → Decidable (a.OnTime s)
  | api (.trade t) => inferInstanceAs (Decidable (∀ now ∈ t.now, now ≤ s.clock))
  | snapshot now _ _ => inferInstanceAs (Decidable (s.clock < (snapshotCandle now + 300 : ℤ)))
  | api (.createBot ..) | api (.adjustBotBalance ..) | api (.deleteBot ..) | api (.renameBot ..)
  | api (.pauseBot ..)
  | api (.resumeBot ..) | api (.adminDeleteBot _) | api (.deleteBotTrades _)
  | api (.adjustUserBalance ..)
  | tick _ => inferInstanceAs (Decidable True)

def KeepsBooks (s : SnapshotStore) : SchedulerAction → Prop
  | api a => a.KeepsBooks s.db
  | _ => True

end SchedulerAction

/-! ## The chain of snapshots -/

/-- The snapshot carries the balance before, and the difference. -/
structure UserBalanceSnapshot.Follows (prev : Option ℚ) (row : UserBalanceSnapshot) : Prop where
  prevBalance : row.prevBalance = prev
  sessionPnl : row.sessionPnl = prev.map fun prev => row.balance - prev
  balance : row.balance = row.botBalance + row.available

/-- Each snapshot follows the one before. -/
def Chained (prev : Option ℚ) : List UserBalanceSnapshot → Prop
  | [] => True
  | row :: rest => row.Follows prev ∧ Chained (some row.balance) rest

section Chain

variable {db db' : Database} {s s₀ : SnapshotStore} {user : User} {userId : ℕ} {prev : Option ℚ}
  {x : ℚ} {row : UserBalanceSnapshot} {rows : List UserBalanceSnapshot}

/-- The balance at the end of a chain. -/
def lastBalance (prev : Option ℚ) (rows : List UserBalanceSnapshot) : Option ℚ :=
  (rows.getLast?.map UserBalanceSnapshot.balance).or prev

theorem lastBalance_cons : lastBalance prev (row :: rows) =
    lastBalance (some row.balance) rows := by
  unfold lastBalance
  rw [List.getLast?_cons]
  cases rows.getLast? <;> rfl

theorem chained_append : Chained prev (rows ++ [row]) ↔
    Chained prev rows ∧ row.Follows (lastBalance prev rows) := by
  induction rows generalizing prev with
  | nil => exact and_comm.trans (and_congr_left' Iff.rfl)
  | cons first rest ih => rw [List.cons_append, Chained, Chained, ih, lastBalance_cons, and_assoc]

/-- The differences add up. -/
theorem Chained.telescopes (h : Chained (some x) rows) :
    lastBalance (some x) rows = some (x + (rows.map fun row => row.sessionPnl.getD 0).sum) := by
  induction rows generalizing x with
  | nil => exact congrArg some (add_zero x).symm
  | cons row rest ih =>
    obtain ⟨hrow, hrest⟩ := h
    rw [lastBalance_cons, ih hrest, List.map_cons, List.sum_cons, hrow.sessionPnl, Option.map_some,
      Option.getD_some]
    congr 1
    ring

theorem latestSnapshot_append (h : ∀ r ∈ rows, r.recordedAt < row.recordedAt) :
    (rows ++ [row]).argmax UserBalanceSnapshot.recordedAt = some row := by
  rw [List.argmax_concat]
  cases hmax : rows.argmax UserBalanceSnapshot.recordedAt with
  | none => rfl
  | some latest => exact if_pos (h latest (List.argmax_mem hmax))

/-- What the snapshots of a user are like. -/
structure SnapshotsInv (rows : List UserBalanceSnapshot) : Prop where
  chained : Chained none rows
  onGrid : ∀ row ∈ rows, row.balance ∈ grid 8
  latest : rows.argmax UserBalanceSnapshot.recordedAt = rows.getLast?

theorem snapshotOf_balance (db : Database) (rows : List UserBalanceSnapshot)
    (label : Option (BOTimeframe × ℤ)) (candleOpen : Option ℤ) (recordedAt : Time) (user : User) :
    let row := db.snapshotOf rows label candleOpen recordedAt user
    row.balance = row.botBalance + row.available ∧ row.balance ∈ grid 8 := by
  intro row
  have hgrid : row.botBalance + row.available ∈ grid 8 :=
    add_mem (roundTo_mem_grid 8 _) (roundTo_mem_grid 8 _)
  exact ⟨roundTo_of_mem hgrid, roundTo_mem_grid 8 _⟩

/-- A job adds at most one row of a user. -/
theorem snapshotsOf_job (label : Option (BOTimeframe × ℤ)) (candleOpen : Option ℤ)
    (active : ℕ → Bool) (recordedAt : ℕ → Time) (userId : ℕ) :
    (db.snapshotAllUserBalances rows label candleOpen active recordedAt).filter
      (fun row => row.userId = userId) =
      ((db.users.get userId).filter fun user => active user.id).toList.map fun user =>
        db.snapshotOf rows label candleOpen (recordedAt user.id) user := by
  unfold Database.snapshotAllUserBalances
  rw [List.filter_map]
  congr 1
  have hcomm : (db.users.rows.filter fun user => active user.id).filter
      ((fun row : UserBalanceSnapshot => decide (row.userId = userId)) ∘ fun user =>
        db.snapshotOf rows label candleOpen (recordedAt user.id) user) =
      (db.users.rows.filter fun user => user.id = userId).filter fun user => active user.id := by
    rw [List.filter_filter, List.filter_filter]
    exact List.filter_congr fun user _ => Bool.and_comm ..
  rw [hcomm, Table.filter_key]
  cases db.users.get userId with
  | none => rfl
  | some user =>
    rw [Option.filter_some, Option.toList_some]
    by_cases hactive : active user.id = true
    · rw [if_pos hactive]
      exact List.filter_cons_of_pos (p := fun user : User => active user.id) hactive
    · rw [if_neg hactive]
      exact List.filter_cons_of_neg (p := fun user : User => active user.id) hactive

theorem SnapshotsInv.append (h : SnapshotsInv rows) (hfollows : row.Follows (lastBalance none rows))
    (hgrid : row.balance ∈ grid 8) (hlater : ∀ r ∈ rows, r.recordedAt < row.recordedAt) :
    SnapshotsInv (rows ++ [row]) where
  chained := chained_append.mpr ⟨h.chained, hfollows⟩
  onGrid := by
    intro r hr
    rcases List.mem_append.mp hr with hr | hr
    · exact h.onGrid r hr
    · rw [List.mem_singleton.mp hr]
      exact hgrid
  latest := (latestSnapshot_append hlater).trans List.getLast?_concat.symm

/-- **A job** continues the chain of every user. -/
theorem snapshotsInv_step {a : SchedulerAction} {s' : SnapshotStore}
    (h : ∀ userId, SnapshotsInv (s.snapshotsOf userId)) (hguard : a.Advances s)
    (hstep : a.step s = some s') :
    ∀ userId, SnapshotsInv (s'.snapshotsOf userId) := by
  intro userId
  cases a with
  | tick now =>
    simp only [SchedulerAction.step] at hstep
    split_ifs at hstep
    cases hstep
    exact h userId
  | api a =>
    obtain ⟨db, -, rfl⟩ := Option.map_eq_some_iff.mp hstep
    exact h userId
  | snapshot now active recordedAt =>
    cases hstep
    unfold SnapshotStore.snapshotsOf
    dsimp only
    rw [List.filter_append, snapshotsOf_job]
    cases hget : s.db.users.get userId with
    | none => exact (List.append_nil _).symm ▸ h userId
    | some user =>
      rw [Option.filter_some]
      split_ifs
      · have hid : user.id = userId := Table.key_of_get hget
        obtain ⟨hsum, hgrid⟩ := snapshotOf_balance s.db s.snapshots (some (.m5, snapshotCandle now))
          (some (snapshotCandle now)) (recordedAt user.id) user
        have hlast : latestSnapshot s.snapshots user.id = (s.snapshotsOf userId).getLast? := by
          unfold latestSnapshot
          rw [hid]
          exact (h userId).latest
        refine (h userId).append ⟨?_, ?_, hsum⟩ hgrid fun r hr => ?_
        · show (latestSnapshot s.snapshots user.id).map _ = lastBalance none _
          rw [hlast, lastBalance, Option.or_none]
        · show ((latestSnapshot s.snapshots user.id).map _).map _ = (lastBalance none _).map _
          rw [hlast, lastBalance, Option.or_none]
          cases hprev : (s.snapshotsOf userId).getLast? with
          | none => rfl
          | some prev =>
            have hprevGrid := (h userId).onGrid prev (List.mem_of_getLast? hprev)
            exact congrArg some (roundTo_of_mem (sub_mem hgrid hprevGrid))
        · obtain ⟨hmem, hr⟩ := List.mem_filter.mp hr
          have hlater := hguard r hmem
          rwa [of_decide_eq_true hr, ← hid] at hlater
      · exact (List.append_nil _).symm ▸ h userId

/-- **Every run** in which time advances. -/
theorem snapshotsInv_run {guard : SnapshotStore → SchedulerAction → Prop}
    (hguard : ∀ s a, guard s a → a.Advances s) (h₀ : ∀ userId, SnapshotsInv (s₀.snapshotsOf userId))
    (hrun : Run SchedulerAction.step guard s₀ s) (userId : ℕ) :
    SnapshotsInv (s.snapshotsOf userId) :=
  hrun.invariant (fun s => ∀ userId, SnapshotsInv (s.snapshotsOf userId)) h₀
      (fun s a _ h hallowed hstep =>
    snapshotsInv_step h (hguard s a hallowed) hstep) userId

/-- **The snapshots of a user are a chain.**  Whatever is requested and traded in between: each
carries the balance of the one before and the difference, which add up from the first balance to the
last. -/
theorem snapshots_chain (h₀ : ∀ userId, SnapshotsInv (s₀.snapshotsOf userId))
    (hrun : Run SchedulerAction.step SchedulerAction.Advances s₀ s) (userId : ℕ) :
    Chained none (s.snapshotsOf userId) ∧ ∀ first rest, s.snapshotsOf userId = first :: rest →
      lastBalance none (s.snapshotsOf userId) =
        some (first.balance + (rest.map fun row => row.sessionPnl.getD 0).sum) := by
  have hchained := (snapshotsInv_run (fun _ _ h => h) h₀ hrun userId).chained
  refine ⟨hchained, fun first rest heq => ?_⟩
  rw [heq] at hchained ⊢
  rw [lastBalance_cons]
  exact hchained.2.telescopes

end Chain

/-- Two users, without a snapshot. -/
def twoUsersStore : SnapshotStore := ⟨twoUsersDb, 1000, []⟩

/-- The order of the first user's bot is cancelled between two snapshots. -/
theorem snapshots_chain_cancel :
    ∃ s, Run SchedulerAction.step SchedulerAction.Advances twoUsersStore s ∧
    ∃ first second, s.snapshotsOf 1 = [first, second] ∧ first.balance = 90 ∧
      lastBalance none (s.snapshotsOf 1) = some (90 + (second.sessionPnl.getD 0 + 0)) := by
  have hexec : (exec SchedulerAction.step SchedulerAction.Advances twoUsersStore
      [.snapshot 1000 (fun _ => true) fun _ => 1000,
        .api (.trade (.cancel ⟨1, some 7, .ttlExpired, 0, 0⟩)),
        .snapshot 1300 (fun _ => true) fun _ => 1300]).any
      (fun s => decide ((s.snapshotsOf 1).map UserBalanceSnapshot.balance = [90, 100])) = true := by
    decide +kernel
  obtain ⟨s, hs, hbalances⟩ := Option.any_eq_true _ _ |>.mp hexec
  have hrun := run_of_exec hs
  obtain ⟨first, rest, hfirst, hbalance, hrest⟩ :=
    List.map_eq_cons_iff.mp (of_decide_eq_true hbalances)
  obtain ⟨second, tail, rfl, -, hnil⟩ := List.map_eq_cons_iff.mp hrest
  obtain rfl := List.map_eq_nil_iff.mp hnil
  have h₀ : ∀ userId, SnapshotsInv (twoUsersStore.snapshotsOf userId) :=
    fun userId => ⟨trivial, by simp [twoUsersStore, SnapshotStore.snapshotsOf], rfl⟩
  have hsum := (snapshots_chain h₀ hrun 1).2 first [second] hfirst
  exact ⟨s, hrun, first, second, hfirst, hbalance, hbalance ▸ hsum⟩

/-! ## What a snapshot says -/

section Reconciles

variable {db db' : Database} {s s' s₀ : SnapshotStore} {user : User} {userId : ℕ} {a : ApiAction}
  {rows : List UserBalanceSnapshot}

/-- What an account adds to the initial balance. -/
def Database.earnings (db : Database) (bot : Bot) : ℚ :=
  db.orders.total (realizedOf bot.botName) - db.orders.total (feeOf bot.botName) -
    db.orders.total (stakeOf bot.botName)

theorem usersOnGrid_step (hcol : OnColumns db) (hstep : a.step db = some db') :
    ∀ user ∈ db'.users.rows, user.initialBalance ∈ grid 8 := by
  cases a with
  | createBot userId payload apiKey =>
    simp only [ApiAction.step] at hstep
    split_ifs at hstep
    exact (onColumns_step (a := .createBot userId payload apiKey) hcol hstep).user
  | adjustBotBalance userId name payload =>
    exact (onColumns_step (a := .adjustBotBalance userId name payload) hcol hstep).user
  | deleteBot userId name => exact (onColumns_step (a := .deleteBot userId name) hcol hstep).user
  | renameBot userId name payload =>
    obtain ⟨bot, new, hnew, -, -, rfl⟩ := renameBot_ok (toOption_ok hstep)
    exact hcol.user
  | pauseBot userId name =>
    obtain ⟨bot, -, -, -, -, rfl⟩ := pauseBot_ok (toOption_ok hstep)
    exact hcol.user
  | resumeBot userId name =>
    obtain ⟨bot, -, -, -, -, rfl⟩ := resumeBot_ok (toOption_ok hstep)
    exact hcol.user
  | adminDeleteBot name =>
    obtain ⟨bot, -, rfl⟩ := adminDeleteBot_ok (toOption_ok hstep)
    exact hcol.user
  | deleteBotTrades name =>
    have hok := toOption_ok hstep
    unfold Database.deleteBotTrades at hok
    cases hbot : db.bots.get name with
    | none =>
      rw [hbot] at hok
      cases hok
    | some bot =>
      rw [hbot] at hok
      cases hok
      exact hcol.user
  | adjustUserBalance userId balance =>
    have hok := toOption_ok hstep
    unfold Database.adjustUserBalance at hok
    cases huser : db.users.get userId with
    | none =>
      rw [huser] at hok
      cases hok
    | some user =>
      rw [huser] at hok
      cases hok
      intro u hu
      rcases Table.mem_put hu with rfl | ⟨hu, -⟩
      · exact toColumn_mem_grid 8 _
      · exact hcol.user u hu
  | trade t => exact (onColumns_step (a := .trade t) hcol hstep).user

theorem abs_sum_map_le {α : Type} {f g : α → ℚ} {l : List α} (h : ∀ x ∈ l, |f x| ≤ g x) :
    |(l.map f).sum| ≤ (l.map g).sum := by
  induction l with
  | nil => exact abs_zero.le
  | cons x l ih =>
    rw [List.map_cons, List.map_cons, List.sum_cons, List.sum_cons]
    have hrest := ih fun y hy => h y (List.mem_cons_of_mem _ hy)
    exact (abs_add_le _ _).trans (add_le_add (h x List.mem_cons_self) hrest)

/-- On balances of eight digits nothing is rounded off. -/
theorem snapshotOf_equity (hcol : OnColumns db) (huser : user ∈ db.users.rows)
    (label : Option (BOTimeframe × ℤ)) (candleOpen : Option ℤ) (recordedAt : Time) :
    (db.snapshotOf rows label candleOpen recordedAt user).balance = db.equity user := by
  have hbots : ((db.activeBots user.id).map Bot.balance).sum ∈ grid 8 := by
    refine list_sum_mem fun x hx => ?_
    obtain ⟨bot, hbot, rfl⟩ := List.mem_map.mp hx
    exact hcol.balance bot (mem_activeBots.mp hbot).1
  have havailable : user.initialBalance - db.allocated user.id ∈ grid 8 :=
    sub_mem (hcol.user user huser) (hcol.allocated user.id)
  show round8 (round8 _ + round8 _) = _
  rw [round8, round8, roundTo_of_mem hbots, round8, roundTo_of_mem havailable,
    roundTo_of_mem (add_mem hbots havailable), Database.equity, Database.available, add_comm]

/-- The equity by the accounts of the bots. -/
theorem equity_earnings : db.equity user =
    user.initialBalance + ((db.activeBots user.id).map db.earnings).sum +
    ((db.activeBots user.id).map db.drift).sum := by
  have hsplit : ∀ l : List Bot, (l.map Bot.balance).sum =
      (l.map Bot.initialBalance).sum + (l.map db.earnings).sum + (l.map db.drift).sum := by
    intro l
    induction l with
    | nil => simp
    | cons bot l ih =>
      rw [List.map_cons, List.map_cons, List.map_cons, List.map_cons, List.sum_cons, List.sum_cons,
        List.sum_cons, List.sum_cons, ih]
      unfold Database.drift Database.earnings
      ring
  rw [Database.equity, hsplit, Database.available, Database.allocated]
  ring

/-- What the accounts rest on. -/
structure Reconciling (db : Database) : Prop where
  books : Books db
  api : ApiInv db
  user : ∀ user ∈ db.users.rows, user.initialBalance ∈ grid 8

theorem Reconciling.onColumns (h : Reconciling db) :
    OnColumns db := ⟨h.user, h.books.initial, h.books.onGrid.balance⟩

theorem reconciling_step {a : SchedulerAction} (h : Reconciling s.db) (hguard : a.KeepsBooks s)
    (hstep : a.step s = some s') : Reconciling s'.db := by
  cases a with
  | tick now =>
    simp only [SchedulerAction.step] at hstep
    split_ifs at hstep
    cases hstep
    exact h
  | api a =>
    obtain ⟨db, hdb, rfl⟩ := Option.map_eq_some_iff.mp hstep
    exact ⟨books_step h.books h.api hguard hdb, apiInv_step h.api hdb,
      usersOnGrid_step h.onColumns hdb⟩
  | snapshot now active recordedAt =>
    cases hstep
    exact h

/-- **Every run** that keeps the books. -/
theorem reconciling_run {guard : SnapshotStore → SchedulerAction → Prop}
    (hguard : ∀ s a, guard s a → a.KeepsBooks s) (h₀ : Reconciling s₀.db)
    (hrun : Run SchedulerAction.step guard s₀ s) : Reconciling s.db :=
  hrun.invariant (fun s => Reconciling s.db) h₀ fun s a _ h hallowed hstep =>
    reconciling_step h (hguard s a hallowed) hstep

/-- **A snapshot reconciles with the books.**  Its balance is the equity of the user, and that is
the initial balance, plus what the orders of the active bots won, less their fees and what is at
stake, up to a unit for each order. -/
theorem snapshot_reconciles (h₀ : Reconciling s₀.db)
    (hrun : Run SchedulerAction.step SchedulerAction.KeepsBooks s₀ s) {now : Time}
    {active : ℕ → Bool} {recordedAt : ℕ → Time}
    (hstep : (SchedulerAction.snapshot now active recordedAt).step s = some s') :
    ∃ rows, s'.snapshots = s.snapshots ++ rows ∧ ∀ row ∈ rows, ∃ user ∈ s.db.users.rows,
      row.userId = user.id ∧
      row.balance = s.db.equity user ∧
      |row.balance - (user.initialBalance + ((s.db.activeBots user.id).map s.db.earnings).sum)| ≤
        ((s.db.activeBots user.id).map fun bot =>
          (s.db.orderCount bot.botName / 10 ^ 8 : ℚ)).sum := by
  have hinv := reconciling_run (fun _ _ h => h) h₀ hrun
  cases hstep
  refine ⟨_, rfl, fun row hrow => ?_⟩
  obtain ⟨user, huser, rfl⟩ := List.mem_map.mp hrow
  have hmem := (List.mem_filter.mp huser).1
  refine ⟨user, hmem, rfl, snapshotOf_equity hinv.onColumns hmem _ _ _, ?_⟩
  rw [snapshotOf_equity hinv.onColumns hmem, equity_earnings, add_sub_cancel_left]
  refine abs_sum_map_le fun bot hbot => ?_
  obtain ⟨hrow, -, hactive⟩ := mem_activeBots.mp hbot
  exact hinv.books.close bot hrow hactive

theorem reconciling_twoUsersDb : Reconciling twoUsersDb :=
  ⟨books_twoUsersDb, apiInv_twoUsersDb, by decide +kernel⟩

/-- The two users after a second order of the first one's bot. -/
def orderedStore : SnapshotStore := ⟨lowLimit.apply twoUsersDb, 1000, []⟩

theorem snapshot_reconciles_ordered : orderedStore.db.orderCount "alpha" = 2 ∧
    ∃ (s : SnapshotStore) (rows : _), s.snapshots = orderedStore.snapshots ++ rows ∧
      rows.length = 2 ∧
      ∀ row ∈ rows, ∃ user ∈ orderedStore.db.users.rows,
        row.balance = orderedStore.db.equity user := by
  have hrun : Run SchedulerAction.step SchedulerAction.KeepsBooks twoUsersStore orderedStore :=
    .next .start (a := .api (.trade lowLimit)) keepsBooks_lowLimit rfl
  have hjob : ∃ s, (SchedulerAction.snapshot 1000 (fun _ => true) fun _ =>
      1000).step orderedStore = some s ∧
      s.snapshots.length = 2 := ⟨_, rfl, by decide +kernel⟩
  obtain ⟨s, hstep, hlength⟩ := hjob
  obtain ⟨rows, hrows, hall⟩ := snapshot_reconciles reconciling_twoUsersDb hrun hstep
  rw [hrows] at hlength
  refine ⟨by decide +kernel, s, rows, hrows, hlength, fun row hrow => ?_⟩
  obtain ⟨user, huser, -, hequity, -⟩ := hall row hrow
  exact ⟨user, huser, hequity⟩

end Reconciles

/-! ## The profit of a session -/

section Profit

variable {db db' : Database} {s s' s₀ : SnapshotStore} {row : BinaryOption} {a : ApiAction}

/-- Orders on a candle are settled after it has closed, and no snapshot has counted one. -/
structure Timely (s : SnapshotStore) : Prop where
  onCandle : ∀ bo ∈ s.db.orders.rows, bo.OnCandle
  closed : ∀ bo ∈ s.db.orders.rows, bo.isSettled = true →
    ∀ c ∈ bo.candleOpen, ((c + 300 : ℤ) : ℚ) ≤ s.clock
  pnl : ∀ row ∈ s.snapshots, row.botPnl = none ∨ row.botPnl = some 0

/-- **Where an order comes from**: the requests on bots leave its terms and its result. -/
theorem api_origin (hstep : a.step db = some db') (hrow : row ∈ db'.orders.rows) :
    (∃ bo ∈ db.orders.rows, row.terms = bo.terms ∧ row.isSettled = bo.isSettled) ∨
      ∃ t, a = .trade t ∧ row ∈ (t.apply db).orders.rows := by
  cases effect_of_step hstep with
  | inserts bot userId hnew hkey ha howner hdb =>
    rw [hdb] at hrow
    exact .inl ⟨row, hrow, rfl, rfl⟩
  | rewrites bot bot' hget hbots horders hrewrites hhistory hmanages husers =>
    rw [horders] at hrow
    exact .inl ⟨row, hrow, rfl, rfl⟩
  | renames bot new hget hnew hmanages hdb =>
    rw [hdb] at hrow
    obtain ⟨bo, hbo, rfl⟩ := List.mem_map.mp hrow
    exact .inl ⟨bo, hbo, rfl, rfl⟩
  | clears bot hget ha hbots horders hhistory =>
    rw [horders] at hrow
    exact .inl ⟨row, List.mem_of_mem_filter hrow, rfl, rfl⟩
  | users users ha hdb =>
    rw [hdb] at hrow
    exact .inl ⟨row, hrow, rfl, rfl⟩
  | trades t ha hdb => exact .inr ⟨t, ha, hdb ▸ hrow⟩

theorem candleOpen_of_terms {bo : BinaryOption} (h : row.terms = bo.terms) :
    row.candleOpen = bo.candleOpen :=
  congrArg OrderTerms.candleOpen h

theorem settlementAt_of_terms {bo : BinaryOption} (h : row.terms = bo.terms) :
    row.settlementAt = bo.settlementAt :=
  congrArg OrderTerms.settlementAt h

theorem onCandle_congr {bo : BinaryOption} (h : row.terms = bo.terms) (hbo : bo.OnCandle) :
    row.OnCandle := by
  intro c hc
  obtain ⟨τ, hτ, hle⟩ := hbo c (candleOpen_of_terms h ▸ hc)
  exact ⟨τ, (settlementAt_of_terms h).symm ▸ hτ, hle⟩

/-- The profit of a candle that has not closed. -/
theorem candleProfit_open (h : Timely s) {c : ℤ} (hc : s.clock < (c + 300 : ℤ))
    (names : List BotName) :
    s.db.candleProfit names c = 0 := by
  refine List.sum_eq_zero fun x hx => ?_
  obtain ⟨bo, hbo, rfl⟩ := List.mem_map.mp hx
  refine if_neg fun hcond => ?_
  obtain ⟨-, hsettled, hopen⟩ := hcond
  exact absurd (h.closed bo hbo hsettled c hopen) (not_le.mpr hc)

theorem timely_step {a : SchedulerAction} (h : Timely s) (hguard : a.OnTime s)
    (hstep : a.step s = some s') :
    Timely s' := by
  cases a with
  | tick now =>
    simp only [SchedulerAction.step] at hstep
    split_ifs at hstep with hle
    cases hstep
    exact ⟨h.onCandle, fun bo hbo hs c hc => (h.closed bo hbo hs c hc).trans hle, h.pnl⟩
  | api a =>
    obtain ⟨db, hdb, rfl⟩ := Option.map_eq_some_iff.mp hstep
    refine ⟨fun row hrow => ?_, fun row hrow hs c hc => ?_, h.pnl⟩
    · rcases api_origin hdb hrow with ⟨bo, hbo, hterms, -⟩ | ⟨t, rfl, hrow⟩
      · exact onCandle_congr hterms (h.onCandle bo hbo)
      · rcases settled_apply hrow with ⟨bo, hbo, hterms, -⟩ | ⟨-, hon⟩
        · exact onCandle_congr hterms (h.onCandle bo hbo)
        · exact hon
    · rcases api_origin hdb hrow with ⟨bo, hbo, hterms, hsame⟩ | ⟨t, rfl, hrow⟩
      · exact h.closed bo hbo (hsame ▸ hs) c (candleOpen_of_terms hterms ▸ hc)
      · rcases settled_apply hrow with ⟨bo, hbo, hterms, hfrom⟩ | ⟨hpending, -⟩
        · have hcandle : c ∈ bo.candleOpen := candleOpen_of_terms hterms ▸ hc
          rcases hfrom hs with hold | ⟨now, hnow, τ, hτ, hdue⟩
          · exact h.closed bo hbo hold c hcandle
          · obtain ⟨τ', hτ', hclose⟩ := h.onCandle bo hbo c hcandle
            obtain rfl : τ = τ' := Option.mem_unique hτ hτ'
            exact hclose.trans (hdue.trans (hguard now hnow))
        · rw [hpending] at hs
          cases hs
  | snapshot now active recordedAt =>
    cases hstep
    refine ⟨h.onCandle, h.closed, fun row hrow => ?_⟩
    rcases List.mem_append.mp hrow with hold | hnew
    · exact h.pnl row hold
    · obtain ⟨user, -, rfl⟩ := List.mem_map.mp hnew
      have hzero := candleProfit_open h hguard ((s.db.activeBots user.id).map Bot.botName)
      show (if _ then none else some (numeric8 _)) = none ∨
        (if _ then none else some (numeric8 _)) = some 0
      split_ifs
      · exact .inl rfl
      · refine .inr ?_
        rw [hzero]
        exact congrArg some (toColumn_of_mem (zero_mem _))

/-- **`bot_pnl` counts nothing.**  The job passes the candle that has just opened; an order on it is
settled after it has closed. -/
theorem bot_pnl_zero (h₀ : Timely s₀)
    (hrun : Run SchedulerAction.step SchedulerAction.OnTime s₀ s) :
    ∀ row ∈ s.snapshots, row.botPnl = none ∨ row.botPnl = some 0 :=
  (hrun.invariant Timely h₀ fun _ _ _ h hguard hstep => timely_step h hguard hstep).pnl

end Profit

/-- An order of the first bot, filled, on the candle of `900`. -/
def candleOrder : BinaryOption :=
  { id := 1, botName := "alpha", symbol := .btc, timeframe := .m5, forecast := .green, amount := 10,
    avgPrice := some (1 / 2), numShares := some 20, settlementAt := some 1200,
      meOrderStatus := some .filled,
    candleOpen := some 900 }

def candleStore : SnapshotStore where
  db := { twoUsersDb with orders := ⟨[candleOrder], nodup_one candleOrder⟩ }
  clock := 1000

theorem timely_candleStore : Timely candleStore where
  onCandle := by
    intro bo hbo c hc
    obtain rfl := List.mem_singleton.mp hbo
    obtain rfl : (900 : ℤ) = c := Option.some.inj hc
    exact ⟨1200, rfl, by norm_num⟩
  closed := by decide +kernel
  pnl := by simp [candleStore]

/-- The order has won ten when the job runs, and no snapshot counts it. -/
theorem bot_pnl_zero_won : ∃ s, Run SchedulerAction.step SchedulerAction.OnTime candleStore s ∧
    (∃ bo ∈ s.db.orders.rows, bo.profit = some 10) ∧ s.snapshots.length = 2 ∧
      ∀ row ∈ s.snapshots, row.botPnl = none ∨ row.botPnl = some 0 := by
  have hexec : (exec SchedulerAction.step SchedulerAction.OnTime candleStore
      [.tick 1210, .api (.trade (.settle 1205 fun _ => some ⟨1, 2⟩)),
        .snapshot 1210 (fun _ => true) fun _ => 1210]).any
      (fun s => decide
        ((∃ bo ∈ s.db.orders.rows, bo.profit = some 10) ∧ s.snapshots.length = 2)) = true := by
    decide +kernel
  obtain ⟨s, hs, hsettled⟩ := Option.any_eq_true _ _ |>.mp hexec
  have hrun := run_of_exec hs
  obtain ⟨hprofit, hlength⟩ := of_decide_eq_true hsettled
  exact ⟨s, hrun, hprofit, hlength, bot_pnl_zero timely_candleStore hrun⟩

end PolyArena
