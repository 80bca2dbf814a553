import PolyArena.Api.BotLifecycle
import PolyArena.Api.Conservation
import PolyArena.Continued
import PolyArena.Ledger

/-!
# The books of the whole API

The account of a bot is its initial balance, plus what its orders won, less their fees and what is
at stake.  Order processing keeps that to the digit; placing an order rounds twice, and the requests
on bots move the balance and the initial balance together.

1. `drift` is how far a balance is from its account; no transaction on placed orders moves it
   (`phases_account`).  For this the initial balances are shifted by the drifts, which no
   transaction looks at (`apply_shift`).
2. `books_insertBo`: placing an order moves it by what the order takes beyond its row.
3. `books_of_run`: in every run of the API the drift of an active bot is at most a unit for each of
   its orders.
-/

namespace PolyArena

open Rounding

namespace Database

/-- How far the balance is from the account. -/
def drift (db : Database) (bot : Bot) : ℚ :=
  bot.balance - (bot.initialBalance + db.orders.total (realizedOf bot.botName) -
    db.orders.total (feeOf bot.botName) - db.orders.total (stakeOf bot.botName))

def orderCount (db : Database) (name : BotName) : ℕ :=
  (db.orders.rows.filter fun bo => bo.botName = name).length

end Database

/-- The balance of every active bot is its account, up to a unit for each of its orders. -/
structure Books (db : Database) : Prop where
  onGrid : OnGrid db
  initial : ∀ bot ∈ db.bots.rows, bot.initialBalance ∈ grid 8
  close : ∀ bot ∈ db.bots.rows, bot.isActive = true → |db.drift bot| ≤
    db.orderCount bot.botName / 10 ^ 8

/-! ## Transactions on placed orders -/

section Shift

variable {db db' : Database} {x y : Accounts} {t : BalanceTransaction} (δ : BotName → ℚ)

/-- The initial balance, moved. -/
def Bot.shift (bot : Bot) : Bot := { bot with initialBalance := bot.initialBalance + δ bot.botName }

def Accounts.shift (x : Accounts) : Accounts :=
  { x with bots := x.bots.mapRows (Bot.shift δ) fun _ => rfl }

def Database.shift (db : Database) : Database :=
  { db with bots := db.bots.mapRows (Bot.shift δ) fun _ => rfl }

theorem onBot_shift (b : Booked) (bot : Bot) : b.onBot (bot.shift δ) = (b.onBot bot).shift δ := by
  unfold Booked.onBot
  change (if bot.botName = b.1.botName then _ else _) = _
  split_ifs
  · unfold Booking.onBot
    cases b.2.credit with
    | none => rfl
    | some x =>
      change (if b.2.pausing ∧ round8 (bot.balance + x) ≤ 0 then _ else _) =
        Bot.shift δ (if _ then _ else _)
      split_ifs <;> rfl
  · rfl

theorem book_shift (x : Accounts) (b : Booked) :
    Booked.book (x.shift δ) b = (Booked.book x b).shift δ := by
  refine Accounts.ext_rows ?_ rfl
  change (x.bots.rows.map (Bot.shift δ)).map b.onBot = (x.bots.rows.map b.onBot).map (Bot.shift δ)
  rw [List.map_map, List.map_map]
  exact List.map_congr_left fun bot _ => onBot_shift δ b bot

theorem foldl_book_shift (bs : List Booked) (x : Accounts) :
    bs.foldl Booked.book (x.shift δ) = (bs.foldl Booked.book x).shift δ := by
  induction bs generalizing x with
  | nil => rfl
  | cons b rest ih => rw [List.foldl_cons, book_shift, ih, List.foldl_cons]

/-- Loading looks at the orders only. -/
theorem bookings_shift (x : Accounts) (t : BalanceTransaction) :
    bookings (x.shift δ) t.phases = bookings x t.phases := by
  cases t <;> rfl

theorem run_phases_shift (x : Accounts) (t : BalanceTransaction) :
    (runPhases t.phases [] []).run (x.shift δ) = ((runPhases t.phases [] []).run x).shift δ := by
  rw [run_phases (selects_phases t), run_phases (selects_phases t), bookings_shift]
  cases bookings x t.phases with
  | none => rfl
  | some new => exact foldl_book_shift δ new x

end Shift

/-- The transaction is not that of a request for an order. -/
def BalanceTransaction.OnPlaced : BalanceTransaction → Prop
  | .createBo .. => False
  | _ => True

section Placed

variable {db db' : Database} {t : BalanceTransaction} {bot bot' : Bot}

/-- A transaction on placed orders is its phases. -/
theorem accounts_placed (ht : t.OnPlaced) (db : Database) :
    (t.apply db).accounts = (runPhases t.phases [] []).run db.accounts := by
  rw [accounts_apply]
  cases t with
  | createBo => exact ht.elim
  | _ => rfl

theorem apply_shift (ht : t.OnPlaced) (δ : BotName → ℚ) (db : Database) :
    (t.apply (db.shift δ)).accounts = ((t.apply db).shift δ).accounts := by
  rw [accounts_placed ht]
  change (runPhases t.phases [] []).run (db.accounts.shift δ) = (t.apply db).accounts.shift δ
  rw [run_phases_shift, accounts_placed ht]

/-- The transactions of the ledger. -/
theorem ledgerInv_apply (h : LedgerInv db) (ht : t.OnPlaced)
    (hcancel : ∀ m, t = .cancel m → CancelWithin db m) :
    LedgerInv (t.apply db) := by
  cases t with
  | createBo => exact ht.elim
  | traceQueued k a =>
    change LedgerInv (recordQueued db k a)
    unfold recordQueued
    cases hget : db.orders.get k with
    | none => exact h
    | some bo =>
      have hmem := Table.mem_of_get hget
      exact h.rewrite (bo.appendTrace a) (Table.get_key_of_get hget) rfl rfl
        (h.onGrid.amount bo hmem)
        (h.onGrid.fee bo hmem) rfl
  | fill m =>
    change LedgerInv (recordFillOf db m)
    unfold recordFillOf
    cases hget : db.orders.get m.boId with
    | none => exact h
    | some bo =>
      dsimp only
      split_ifs with hp
      · exact h
      · exact ledgerInv_recordFill h (Table.get_key_of_get hget) (not_not.mp hp)
  | lateFill now fetch m =>
    change LedgerInv (settleLateFill now fetch db m)
    unfold settleLateFill
    cases hget : db.orders.get m.boId with
    | none => exact h
    | some bo =>
      dsimp only
      split_ifs with hlate
      · cases fetch bo.candleRequest with
        | none => exact h
        | some c =>
          dsimp only
          cases hs : settleSingleTrade db db bo c with
          | none => exact h
          | some db' =>
            have hpending : bo.result = .pending := (of_decide_eq_true hlate).2.1
            exact ledgerInv_settleSingleTrade h (Table.get_key_of_get hget) hpending hs
      · exact h
  | cancel m => exact ledgerInv_handleOrderCancel h (hcancel m rfl)
  | exit now m => exact ledgerInv_handleBracketExit h
  | resolved boIds => exact ledgerInv_handleMarketResolved h
  | settle now fetch =>
    change LedgerInv ((settlePendingTrades now fetch db).getD db)
    cases hs : settlePendingTrades now fetch db with
    | none => exact h
    | some db' => exact ledgerInv_settlePendingTrades h hs
  | sweep now fetch =>
    change LedgerInv ((sweepStuckOrders now fetch db).getD db)
    cases hs : sweepStuckOrders now fetch db with
    | none => exact h
    | some db' => exact ledgerInv_sweepStuckOrders h hs

theorem foldl_onOrder_id (new : List Booked) (row : BinaryOption) :
    (new.foldl (fun row b => b.onOrder row) row).id = row.id := by
  induction new generalizing row with
  | nil => rfl
  | cons b rest ih =>
    rw [List.foldl_cons, ih]
    unfold Booked.onOrder
    split_ifs with hid
    · exact hid.symm
    · rfl

/-- The orders of a bot stay orders of the bot. -/
theorem orderCount_placed (ht : t.OnPlaced) (db : Database) (name : BotName) :
    (t.apply db).orderCount name = db.orderCount name := by
  have hrows : ∃ g, (t.apply db).orders.rows = db.orders.rows.map g ∧
      ∀ row ∈ db.orders.rows, (g row).botName = row.botName := by
    have hselects := selects_phases (x := db.accounts) t
    change ∃ g, (t.apply db).accounts.orders.rows = _ ∧ _
    rw [accounts_placed ht, run_phases hselects]
    cases hnew : bookings db.accounts t.phases with
    | none => exact ⟨id, (List.map_id _).symm, fun _ _ => rfl⟩
    | some new =>
      refine ⟨_, Booked.book_orders new _, fun row hrow => ?_⟩
      have hid := foldl_onOrder_id new row
      rcases foldl_onOrder_cases new row with hsame | ⟨b, hb, hbooked⟩
      · rw [hsame]
      · rw [hbooked] at hid ⊢
        obtain rfl : row = b.1 := (hselects.known hnew).order_eq hb hrow (hid.symm.trans b.2.row_id)
        obtain ⟨phase, hphase, hselect, hdecide⟩ := bookings_decided hnew hb
        exact (booked_continues hphase hselect hdecide).continues.botName
  obtain ⟨g, hrows, hname⟩ := hrows
  unfold Database.orderCount
  rw [hrows, ← List.countP_eq_length_filter, ← List.countP_eq_length_filter, List.countP_map]
  refine List.countP_congr fun row hrow => ?_
  rw [Function.comp_apply, hname row hrow]

/-- The drift of the bot with the name. -/
def Database.driftOf (db : Database) (name : BotName) : ℚ :=
  ((db.bots.get name).map db.drift).getD 0

theorem driftOf_of_mem (h : bot ∈ db.bots.rows) : db.driftOf bot.botName = db.drift bot := by
  unfold Database.driftOf
  rw [Table.get_of_mem h]
  rfl

/-- With the initial balances moved by the drifts, the ledger is exact. -/
theorem ledgerInv_shift (h : OnGrid db) : LedgerInv (db.shift db.driftOf) := by
  refine ⟨fun bot' hbot' => ?_, ⟨fun bot' hbot' => ?_, h.amount, h.fee⟩⟩
  · obtain ⟨bot, hbot, rfl⟩ := List.mem_map.mp hbot'
    change bot.balance = bot.initialBalance + db.driftOf bot.botName +
      db.orders.total (realizedOf bot.botName) -
      db.orders.total (feeOf bot.botName) - db.orders.total (stakeOf bot.botName)
    rw [driftOf_of_mem hbot]
    unfold Database.drift
    ring
  · obtain ⟨bot, hbot, rfl⟩ := List.mem_map.mp hbot'
    exact h.balance bot hbot

/-- **A transaction on placed orders** moves no drift. -/
theorem phases_account (h : OnGrid db) (ht : t.OnPlaced)
    (hcancel : ∀ m, t = .cancel m → CancelWithin db m) :
    OnGrid (t.apply db) ∧ ∀ bot' ∈ (t.apply db).bots.rows, ∃ bot ∈ db.bots.rows, bot.Trades bot' ∧
      (t.apply db).drift bot' = db.drift bot := by
  have happlied : LedgerInv (t.apply (db.shift db.driftOf)) :=
    ledgerInv_apply (ledgerInv_shift h) ht hcancel
  have haccounts := apply_shift ht db.driftOf db
  have hledger : LedgerInv ((t.apply db).shift db.driftOf) :=
    happlied.congr (congrArg Accounts.bots haccounts).symm (congrArg Accounts.orders haccounts).symm
  have hmem : ∀ bot' ∈ (t.apply db).bots.rows,
      bot'.shift db.driftOf ∈ ((t.apply db).shift db.driftOf).bots.rows :=
    fun bot' hbot' => List.mem_map_of_mem hbot'
  refine ⟨⟨fun bot' hbot' => hledger.onGrid.balance (bot'.shift db.driftOf) (hmem bot' hbot'),
    hledger.onGrid.amount, hledger.onGrid.fee⟩, fun bot' hbot' => ?_⟩
  have hbalanced := hledger.balanced _ (hmem bot' hbot')
  change bot'.balance = bot'.initialBalance + db.driftOf bot'.botName +
    (t.apply db).orders.total (realizedOf bot'.botName) - (t.apply db).orders.total
      (feeOf bot'.botName) -
      (t.apply db).orders.total (stakeOf bot'.botName) at hbalanced
  have hdrift : (t.apply db).drift bot' = db.driftOf bot'.botName := by
    unfold Database.drift
    linarith
  obtain ⟨f, hrows, htrades⟩ := bots_apply t db
  rw [hrows] at hbot'
  obtain ⟨bot, hbot, rfl⟩ := List.mem_map.mp hbot'
  obtain ⟨x, s, heq⟩ := (htrades bot hbot).1
  have hname : (f bot).botName = bot.botName := by rw [heq]
  refine ⟨bot, hbot, ⟨x, s, heq⟩, ?_⟩
  rw [hdrift, hname, driftOf_of_mem hbot]

theorem books_placed (h : Books db) (ht : t.OnPlaced)
    (hcancel : ∀ m, t = .cancel m → CancelWithin db m) :
    Books (t.apply db) := by
  obtain ⟨hgrid, hdrift⟩ := phases_account h.onGrid ht hcancel
  refine ⟨hgrid, fun bot' hbot' => ?_, fun bot' hbot' hactive => ?_⟩
  · obtain ⟨bot, hbot, ⟨x, s, rfl⟩, -⟩ := hdrift bot' hbot'
    exact h.initial bot hbot
  · obtain ⟨bot, hbot, ⟨x, s, rfl⟩, hsame⟩ := hdrift bot' hbot'
    rw [hsame, orderCount_placed ht]
    exact h.close bot hbot hactive

end Placed

/-! ## Placing an order -/

section Placing

variable {db : Database} {now : Time} {apiKey : String} {p : BOCreate} {first second : SnapshotRead}
  {id : ℕ} {r : Admitted} {row : BinaryOption} {placed : Bot} {x : ℚ}

/-- The row of a request and the new balance are on the grid. -/
theorem choosePath_onGrid {d : Draft id} (hbalance : r.balance ∈ grid 8)
    (hamount : p.amount ∈ grid 8) (h : choosePath now r p second id = .ok d) :
    d.row.result = .pending ∧ d.row.amount ∈ grid 8 ∧ d.row.fee ∈ grid 8 ∧ d.balance ∈ grid 8 := by
  unfold choosePath at h
  split at h
  · next limit _ =>
    split_ifs at h
    · obtain ⟨f, -, rfl⟩ := aggressiveLimit_ok h
      refine ⟨rfl, ?_, takerFeeFromLevels_mem_grid _, chargeFee_mem_grid hbalance⟩
      change (if 0 < f.numShares then round8 (p.amount - f.remainingBudget) else p.amount) ∈ grid 8
      split_ifs
      · exact roundTo_mem_grid _ _
      · exact hamount
    · cases h
      exact ⟨rfl, hamount, zero_mem _, hbalance⟩
  · obtain ⟨avg, shares, levels, -, rfl⟩ := marketOrder_ok h
    refine ⟨rfl, ?_, takerFeeFromLevels_mem_grid _, chargeFee_mem_grid ?_⟩
    · change (if (levels.map FillLevel.cost).sum < p.amount then round8
        (levels.map FillLevel.cost).sum
        else p.amount) ∈ grid 8
      split_ifs
      · exact roundTo_mem_grid _ _
      · exact hamount
    · split_ifs
      · exact roundTo_mem_grid _ _
      · exact hbalance

theorem orderCount_insert (db' : Database) (hnew : row.id ∉ db.orders.rows.map BinaryOption.id)
    (horders : db'.orders = db.orders.insert row hnew) (name : BotName) :
    db'.orderCount name = db.orderCount name + if row.botName = name then 1 else 0 := by
  unfold Database.orderCount
  rw [horders]
  change ((db.orders.rows ++ [row]).filter _).length = _
  rw [List.filter_append, List.length_append, List.filter_singleton]
  by_cases hname : row.botName = name <;> simp [hname]

/-- A pending order that takes at most a unit beyond its row. -/
theorem Books.place (h : Books db) (hmem : placed ∈ db.bots.rows)
    (hnew : row.id ∉ db.orders.rows.map BinaryOption.id) (hname : row.botName = placed.botName)
    (hp : row.result = .pending) (ha : row.amount ∈ grid 8) (hf : row.fee ∈ grid 8)
    (hx : x ∈ grid 8) (hclose : |placed.balance - x - (row.amount + row.fee)| ≤ 1 / 10 ^ 8) :
    Books { db.setBot { placed with balance := x } with orders := db.orders.insert row hnew } := by
  have hcount := orderCount_insert
    { db.setBot { placed with balance := x } with orders := db.orders.insert row hnew } hnew rfl
  refine ⟨⟨fun bot hbot => ?_, fun o ho => ?_, fun o ho => ?_⟩, fun bot hbot => ?_,
    fun bot hbot hactive => ?_⟩
  · rcases Table.mem_put hbot with rfl | ⟨hbot, -⟩
    · exact hx
    · exact h.onGrid.balance bot hbot
  · rcases List.mem_append.mp ho with ho | ho
    · exact h.onGrid.amount o ho
    · rw [List.mem_singleton.mp ho]
      exact ha
  · rcases List.mem_append.mp ho with ho | ho
    · exact h.onGrid.fee o ho
    · rw [List.mem_singleton.mp ho]
      exact hf
  · rcases Table.mem_put hbot with rfl | ⟨hbot, -⟩
    · exact h.initial placed hmem
    · exact h.initial bot hbot
  · rw [hcount]
    unfold Database.drift
    dsimp only
    rw [Table.total_insert, Table.total_insert, Table.total_insert]
    rcases Table.mem_put hbot with rfl | ⟨hbot, hne⟩
    · have hold := h.close placed hmem hactive
      unfold Database.drift at hold
      have hentry := entry_pending hp
      unfold entry at hentry
      rw [hname] at hentry
      dsimp only
      rw [if_pos hname, Nat.cast_add, Nat.cast_one, add_div]
      refine le_trans ?_ (add_le_add hold hclose)
      refine le_trans (le_of_eq ?_) (abs_sub _ _)
      congr 1
      linarith
    · have hold := h.close bot hbot hactive
      unfold Database.drift at hold
      have hother : row.botName ≠ bot.botName := fun heq => hne (heq.symm.trans hname)
      rw [if_neg hother, Nat.add_zero, realizedOf_ne hother, feeOf_ne hother, stakeOf_ne hother]
      simpa using hold

/-- **Placing an order** that leaves none of its budget. -/
theorem books_insertBo (h : Books db) (hamount : p.amount ∈ grid 8)
    (hleaves : ¬ LeavesBudget p first second) :
    Books (insertBo now apiKey p first second id db) := by
  unfold insertBo
  split
  · next hfresh =>
    cases hc : createBo now db apiKey p first second false ⟨id, hfresh⟩ with
    | error e => exact h
    | ok c =>
      obtain ⟨r, d, hadmit, hpath, rfl⟩ := createBo_ok hc
      obtain ⟨hbot, hdebit, hbest⟩ := admitRequest_ok hadmit
      have hmem : r.bot ∈ db.bots.rows := List.mem_of_find?_eq_some hbot
      have hbalance := h.onGrid.balance r.bot hmem
      rw [round8_sub hbalance hamount] at hdebit
      have hgrid : r.balance ∈ grid 8 := hdebit ▸ sub_mem hbalance hamount
      obtain ⟨hpending, ha, hf, hx⟩ := choosePath_onGrid hgrid hamount hpath
      have hover := (choosePath_overdebit_iff hdebit hgrid hamount hbest hpath).mpr hleaves
      have hnew : (queuedRow d.row false d.queue).id ∉ db.orders.rows.map BinaryOption.id := by
        rw [queuedRow_id, d.row_id]
        exact hfresh
      rw [← queuedRow_false d.row d.queue] at hpending ha hf
      have hname : (queuedRow d.row false d.queue).botName = r.bot.botName := by
        rw [queuedRow_false]
        exact choosePath_botName hpath
      unfold Draft.overdebit at hover
      rw [← queuedRow_false d.row d.queue] at hover
      exact h.place hmem hnew hname hpending ha hf hx hover
  · exact h

end Placing

/-! ## The requests -/

namespace ApiAction

/-- A new balance has eight digits, a cancellation gives back no more than the order holds, and an
order has an amount of eight digits and leaves none of its budget. -/
def KeepsBooks (db : Database) : ApiAction → Prop
  | adjustBotBalance _ _ payload => payload.balance ∈ grid 8
  | trade (.cancel m) => CancelWithin db m
  | trade (.createBo _ _ p first second _) => p.amount ∈ grid 8 ∧ ¬ LeavesBudget p first second
  | _ => True

end ApiAction

section Requests

variable {db db' db₀ : Database} {bot bot' : Bot} {name old new : BotName} {a : ApiAction}

/-- A bot is overwritten: it stays as far from its account, or is not active any more. -/
theorem Books.overwrite (h : Books db) (hget : db.bots.get bot.botName = some bot)
    (hbots : db'.bots = db.bots.put bot')
    (horders : db'.orders = db.orders) (hname : bot'.botName = bot.botName)
    (hinitial : bot'.initialBalance ∈ grid 8)
    (hbalance : bot'.balance ∈ grid 8) (hsame : bot'.isActive = true →
      bot.isActive = true ∧ bot'.balance - bot'.initialBalance =
        bot.balance - bot.initialBalance) : Books db' := by
  have hmem := Table.mem_of_get hget
  refine ⟨⟨fun b hb => ?_, horders ▸ h.onGrid.amount, horders ▸ h.onGrid.fee⟩, fun b hb => ?_,
    fun b hb hactive => ?_⟩
  · rcases Table.mem_put (hbots ▸ hb) with rfl | ⟨hb, -⟩
    · exact hbalance
    · exact h.onGrid.balance b hb
  · rcases Table.mem_put (hbots ▸ hb) with rfl | ⟨hb, -⟩
    · exact hinitial
    · exact h.initial b hb
  · unfold Database.drift Database.orderCount
    rw [horders]
    rcases Table.mem_put (hbots ▸ hb) with rfl | ⟨hb, -⟩
    · obtain ⟨hold, hpnl⟩ := hsame hactive
      have hclose := h.close bot hmem hold
      unfold Database.drift Database.orderCount at hclose
      rw [hname]
      refine le_of_eq_of_le ?_ hclose
      congr 1
      linarith
    · exact h.close b hb hactive

/-- Without orders an account is the initial balance. -/
theorem drift_of_no_orders (h : ∀ bo ∈ db.orders.rows, bo.botName ≠ bot.botName) :
    db.drift bot = bot.balance - bot.initialBalance := by
  have hzero : ∀ f : BinaryOption → ℚ, (∀ bo, bo.botName ≠ bot.botName → f bo = 0) →
      db.orders.total f = 0 :=
    fun f hf => List.sum_eq_zero fun x hx => by
      obtain ⟨bo, hbo, rfl⟩ := List.mem_map.mp hx
      exact hf bo (h bo hbo)
  unfold Database.drift
  rw [hzero _ fun _ => realizedOf_ne, hzero _ fun _ => feeOf_ne, hzero _ fun _ => stakeOf_ne]
  ring

theorem Books.insert (h : Books db) (hnames : db.NamesBots)
    (hnew : bot.botName ∉ db.bots.rows.map Bot.botName) (hinitial : bot.initialBalance ∈ grid 8)
    (hbalance : bot.balance = bot.initialBalance) :
    Books { db with bots := db.bots.insert bot hnew } := by
  refine ⟨⟨fun b hb => ?_, h.onGrid.amount, h.onGrid.fee⟩, fun b hb => ?_, fun b hb hactive => ?_⟩
  · rcases List.mem_append.mp hb with hb | hb
    · exact h.onGrid.balance b hb
    · rw [List.mem_singleton.mp hb, hbalance]
      exact hinitial
  · rcases List.mem_append.mp hb with hb | hb
    · exact h.initial b hb
    · rw [List.mem_singleton.mp hb]
      exact hinitial
  · rcases List.mem_append.mp hb with hb | hb
    · exact h.close b hb hactive
    · obtain rfl := List.mem_singleton.mp hb
      have hnone : ∀ bo ∈ db.orders.rows, bo.botName ≠ b.botName := fun bo hbo heq =>
        hnew (heq ▸ hnames bo.botName (mem_mentioned.mpr (.inr (.inl ⟨bo, hbo, rfl⟩))))
      have hdrift : Database.drift { db with bots := db.bots.insert b hnew } b =
          b.balance - b.initialBalance :=
        drift_of_no_orders hnone
      rw [hdrift, hbalance, sub_self, abs_zero]
      positivity

/-- The trades of a bot are deleted, and it starts again. -/
theorem Books.clear (h : Books db) (hget : db.bots.get bot.botName = some bot)
    (hbots : db'.bots = db.bots.put { bot with balance := bot.initialBalance })
    (horders : db'.orders = db.orders.filter fun bo => bo.botName ≠ bot.botName) : Books db' := by
  have hmem := Table.mem_of_get hget
  have hsub : ∀ bo ∈ db'.orders.rows, bo ∈ db.orders.rows := fun bo hbo => by
    rw [horders] at hbo
    exact List.mem_of_mem_filter hbo
  refine ⟨⟨fun b hb => ?_, fun bo hbo => h.onGrid.amount bo (hsub bo hbo),
    fun bo hbo => h.onGrid.fee bo (hsub bo hbo)⟩, fun b hb => ?_, fun b hb hactive => ?_⟩
  · rcases Table.mem_put (hbots ▸ hb) with rfl | ⟨hb, -⟩
    · exact h.initial bot hmem
    · exact h.onGrid.balance b hb
  · rcases Table.mem_put (hbots ▸ hb) with rfl | ⟨hb, -⟩
    · exact h.initial bot hmem
    · exact h.initial b hb
  · rcases Table.mem_put (hbots ▸ hb) with rfl | ⟨hb, hne⟩
    · have hnone : ∀ bo ∈ db'.orders.rows, bo.botName ≠ bot.botName := fun bo hbo => by
        rw [horders] at hbo
        exact of_decide_eq_true (List.mem_filter.mp hbo).2
      have hdrift : db'.drift { bot with balance := bot.initialBalance } =
          bot.initialBalance - bot.initialBalance :=
        drift_of_no_orders hnone
      rw [hdrift, sub_self, abs_zero]
      positivity
    · have hold := h.close b hb hactive
      have hkeep : ∀ f : BinaryOption → ℚ, (∀ bo, bo.botName ≠ b.botName → f bo = 0) →
          db'.orders.total f = db.orders.total f := by
        intro f hf
        rw [horders]
        refine Table.total_filter fun bo hbo => hf bo fun heq => hne ?_
        exact heq.symm.trans (not_not.mp (of_decide_eq_false hbo))
      have hcount : db'.orderCount b.botName = db.orderCount b.botName := by
        unfold Database.orderCount
        rw [horders]
        change ((db.orders.rows.filter _).filter _).length = _
        rw [List.filter_filter]
        congr 1
        refine List.filter_congr fun bo _ => ?_
        by_cases hname : bo.botName = b.botName
        · simp [hname, hne]
        · simp [hname]
      unfold Database.drift at hold ⊢
      rw [hkeep _ fun _ => realizedOf_ne, hkeep _ fun _ => feeOf_ne,
        hkeep _ fun _ => stakeOf_ne, hcount]
      exact hold

theorem Books.rename (h : Books db) (hnames : db.NamesBots)
    (hnew : new ∉ db.bots.rows.map Bot.botName) :
    Books (db.renamed old new hnew) := by
  have hsame : ∀ bot ∈ db.bots.rows, ∀ bo ∈ db.orders.rows,
      (newName old new bo.botName = newName old new bot.botName ↔ bo.botName = bot.botName) := by
    intro bot hbot bo hbo
    have hmem := hnames bo.botName (mem_mentioned.mpr (.inr (.inl ⟨bo, hbo, rfl⟩)))
    exact ⟨newName_injOn hnew _ hmem _ (List.mem_map_of_mem hbot), fun heq => by rw [heq]⟩
  have htotal : ∀ bot ∈ db.bots.rows, ∀ f : BotName → BinaryOption → ℚ,
      (∀ bo ∈ db.orders.rows, f (newName old new bot.botName) (bo.renamed old new) =
        f bot.botName bo) →
        (db.renamed old new hnew).orders.total (f (newName old new bot.botName)) =
          db.orders.total (f bot.botName) := by
    intro bot hbot f hf
    change ((db.orders.rows.map (BinaryOption.renamed old new)).map _).sum =
      (db.orders.rows.map _).sum
    rw [List.map_map]
    exact congrArg List.sum (List.map_congr_left hf)
  refine ⟨⟨fun b hb => ?_, fun bo hbo => ?_, fun bo hbo => ?_⟩, fun b hb => ?_,
    fun b hb hactive => ?_⟩
  · obtain ⟨bot, hbot, rfl⟩ := List.mem_map.mp hb
    exact h.onGrid.balance bot hbot
  · obtain ⟨row, hrow, rfl⟩ := List.mem_map.mp hbo
    exact h.onGrid.amount row hrow
  · obtain ⟨row, hrow, rfl⟩ := List.mem_map.mp hbo
    exact h.onGrid.fee row hrow
  · obtain ⟨bot, hbot, rfl⟩ := List.mem_map.mp hb
    exact h.initial bot hbot
  · obtain ⟨bot, hbot, rfl⟩ := List.mem_map.mp hb
    have hcount : (db.renamed old new hnew).orderCount (newName old new bot.botName) =
        db.orderCount bot.botName := by
      unfold Database.orderCount
      rw [← List.countP_eq_length_filter, ← List.countP_eq_length_filter]
      change (db.orders.rows.map (BinaryOption.renamed old new)).countP _ = _
      rw [List.countP_map]
      refine List.countP_congr fun bo hbo => ?_
      rw [Function.comp_apply, decide_eq_true_eq, decide_eq_true_eq]
      exact hsame bot hbot bo hbo
    have hclose := h.close bot hbot hactive
    unfold Database.drift at hclose ⊢
    change |bot.balance - (bot.initialBalance +
      (db.renamed old new hnew).orders.total (realizedOf (newName old new bot.botName)) -
      (db.renamed old new hnew).orders.total (feeOf (newName old new bot.botName)) -
      (db.renamed old new hnew).orders.total (stakeOf (newName old new bot.botName)))| ≤
      (db.renamed old new hnew).orderCount (newName old new bot.botName) / 10 ^ 8
    rw [htotal bot hbot realizedOf fun bo hbo => ?_, htotal bot hbot feeOf fun bo hbo => ?_,
      htotal bot hbot stakeOf fun bo hbo => ?_, hcount]
    · exact hclose
    · exact if_congr (and_congr_left' (hsame bot hbot bo hbo)) rfl rfl
    · exact if_congr (hsame bot hbot bo hbo) rfl rfl
    · exact if_congr (and_congr_left' (hsame bot hbot bo hbo)) rfl rfl

/-- **Every step** keeps the books. -/
theorem books_step (h : Books db) (hinv : ApiInv db) (hguard : a.KeepsBooks db)
    (hstep : a.step db = some db') :
    Books db' := by
  cases a with
  | createBot userId payload apiKey =>
    simp only [ApiAction.step] at hstep
    split_ifs at hstep
    obtain ⟨user, bot, hnew, -, -, -, hinitial, hbalance, -, rfl⟩ :=
      createBot_ok (toOption_ok hstep)
    have hgrid : bot.initialBalance ∈ grid 8 := by
      rw [hinitial]
      exact toColumn_mem_grid _ _
    exact h.insert hinv.names hnew hgrid (hbalance.trans hinitial.symm)
  | adjustBotBalance userId name payload =>
    obtain ⟨user, bot, -, hget, -, hactive, -, hbots, -, horders⟩ :=
      adjustBotBalance_ok (toOption_ok hstep)
    have hmem := Table.mem_of_get hget
    have hinitial := h.initial bot hmem
    have hbalance := h.onGrid.balance bot hmem
    have hround : round8 (bot.balance + (payload.balance - bot.initialBalance)) =
        bot.balance + (payload.balance - bot.initialBalance) :=
      roundTo_of_mem (add_mem hbalance (sub_mem hguard hinitial))
    have hnumeric : numeric8 payload.balance = payload.balance := toColumn_of_mem hguard
    refine h.overwrite (Table.get_key_of_get hget) hbots horders rfl ?_ (roundTo_mem_grid _ _)
      fun _ => ⟨hactive, ?_⟩
    · rw [hnumeric]
      exact hguard
    · dsimp only
      rw [hround, hnumeric]
      ring
  | deleteBot userId name =>
    obtain ⟨user, bot, -, hget, -, -, -, hbots, -, horders⟩ := deleteBot_ok (toOption_ok hstep)
    exact h.overwrite (Table.get_key_of_get hget) hbots horders rfl
      (h.initial bot (Table.mem_of_get hget))
      (zero_mem _) fun hactive => Bool.noConfusion hactive
  | renameBot userId name payload =>
    obtain ⟨bot, new, hnew, hget, hown, rfl⟩ := renameBot_ok (toOption_ok hstep)
    exact h.rename hinv.names hnew
  | pauseBot userId name =>
    obtain ⟨bot, hget, hown, hstatus, -, rfl⟩ := pauseBot_ok (toOption_ok hstep)
    have hmem := Table.mem_of_get hget
    exact h.overwrite (Table.get_key_of_get hget) rfl rfl rfl (h.initial bot hmem)
      (h.onGrid.balance bot hmem)
      fun hactive => ⟨hactive, rfl⟩
  | resumeBot userId name =>
    obtain ⟨bot, hget, hown, hstatus, -, rfl⟩ := resumeBot_ok (toOption_ok hstep)
    have hmem := Table.mem_of_get hget
    exact h.overwrite (Table.get_key_of_get hget) rfl rfl rfl (h.initial bot hmem)
      (h.onGrid.balance bot hmem)
      fun hactive => ⟨hactive, rfl⟩
  | adminDeleteBot name =>
    obtain ⟨bot, hget, rfl⟩ := adminDeleteBot_ok (toOption_ok hstep)
    have hmem := Table.mem_of_get hget
    exact h.overwrite (Table.get_key_of_get hget) rfl rfl rfl (h.initial bot hmem)
      (h.onGrid.balance bot hmem)
      fun hactive => Bool.noConfusion hactive
  | deleteBotTrades name =>
    obtain ⟨bot, hget, hbots, horders, -⟩ := deleteBotTrades_ok (toOption_ok hstep)
    exact h.clear (Table.get_key_of_get hget) hbots horders
  | adjustUserBalance userId balance =>
    have hok := toOption_ok hstep
    unfold Database.adjustUserBalance at hok
    cases hu : db.users.get userId with
    | none =>
      rw [hu] at hok
      cases hok
    | some user =>
      rw [hu] at hok
      cases hok
      exact ⟨⟨h.onGrid.balance, h.onGrid.amount, h.onGrid.fee⟩, h.initial, h.close⟩
  | trade t =>
    cases hstep
    cases t with
    | createBo now apiKey p first second id => exact books_insertBo h hguard.1 hguard.2
    | cancel m => exact books_placed h trivial fun m' hm => by cases hm; exact hguard
    | _ => exact books_placed h trivial fun m' hm => by cases hm

/-- **Every run** that keeps the books. -/
theorem books_run (h₀ : Books db₀) (hinv₀ : ApiInv db₀)
    (hrun : Run ApiAction.step ApiAction.KeepsBooks db₀ db) :
    Books db := by
  have hboth : Books db ∧ ApiInv db :=
    hrun.invariant (fun db => Books db ∧ ApiInv db) ⟨h₀, hinv₀⟩ fun _ _ _ h hguard hstep =>
      ⟨books_step h.1 h.2 hguard hstep, apiInv_step h.2 hstep⟩
  exact hboth.1

/-- **The books of the API.**  Whatever is created, adjusted, renamed, paused, resumed, deleted,
ordered, filled, cancelled, exited and settled, in any order: the balance of an active bot is its
initial balance, plus what its orders won, less their fees and what is at stake, up to a unit for
each order. -/
theorem books_of_run (h₀ : Books db₀) (hinv₀ : ApiInv db₀)
    (hrun : Run ApiAction.step ApiAction.KeepsBooks db₀ db) :
    ∀ bot ∈ db.bots.rows, bot.isActive = true →
      |bot.balance - (bot.initialBalance + db.orders.total (realizedOf bot.botName) -
        db.orders.total (feeOf bot.botName) - db.orders.total (stakeOf bot.botName))| ≤
          db.orderCount bot.botName / 10 ^ 8 :=
  (books_run h₀ hinv₀ hrun).close

end Requests

theorem pos_seventy : (0 : ℚ) < 70 := by norm_num

def seventy : BotBalanceAdjust := ⟨70, pos_seventy⟩

/-- A LIMIT below the best ask. -/
def lowLimit : BalanceTransaction := .createBo 1000 "a" limitRequest dearAsks dearAsks 2

theorem books_twoUsersDb : Books twoUsersDb where
  onGrid := ⟨by decide +kernel, by decide +kernel, by decide +kernel⟩
  initial := by decide +kernel
  close := by
    intro bot hbot _
    have hzero : twoUsersDb.drift bot = 0 := by
      revert bot
      unfold Database.drift
      decide +kernel
    rw [hzero, abs_zero]
    positivity

theorem keepsBooks_lowLimit : (ApiAction.trade lowLimit).KeepsBooks twoUsersDb := by
  refine ⟨by decide +kernel, ?_⟩
  rintro ⟨limit, bestAsk, asks, hlimit, hbest, hle, -⟩
  obtain rfl : (1 / 2 : ℚ) = limit := Option.some.inj hlimit
  have hask : snapshotBestAsk dearAsks = some (9 / 10) := by decide +kernel
  obtain rfl : (9 / 10 : ℚ) = bestAsk := Option.some.inj (hask.symm.trans hbest)
  norm_num at hle

/-- A second order, and a new balance for its bot. -/
theorem books_of_run_adjusted : ∃ db, Run ApiAction.step ApiAction.KeepsBooks twoUsersDb db ∧
    db.orderCount "alpha" = 2 ∧ ∃ bot ∈ db.bots.rows, bot.initialBalance = 70 ∧
      |bot.balance - (bot.initialBalance + db.orders.total (realizedOf bot.botName) -
        db.orders.total (feeOf bot.botName) - db.orders.total (stakeOf bot.botName))| ≤
          db.orderCount bot.botName / 10 ^ 8 := by
  have hadjust :
    ((ApiAction.adjustBotBalance 1 "alpha" seventy).step (lowLimit.apply twoUsersDb)).any (fun db =>
      decide (db.orderCount "alpha" = 2 ∧ ∃ bot ∈ db.bots.rows, bot.initialBalance = 70 ∧
        bot.isActive = true)) =
        true := by
    decide +kernel
  obtain ⟨db, hstep, hdb⟩ := Option.any_eq_true _ _ |>.mp hadjust
  obtain ⟨hcount, bot, hbot, hinitial, hactive⟩ := of_decide_eq_true hdb
  have hplaced : Run ApiAction.step ApiAction.KeepsBooks twoUsersDb (lowLimit.apply twoUsersDb) :=
    .next .start keepsBooks_lowLimit rfl
  have hguard : (ApiAction.adjustBotBalance 1 "alpha" seventy).KeepsBooks
      (lowLimit.apply twoUsersDb) := by
    change (70 : ℚ) ∈ grid 8
    decide +kernel
  have hrun := hplaced.next hguard hstep
  exact ⟨db, hrun, hcount, bot, hbot, hinitial,
    books_of_run books_twoUsersDb apiInv_twoUsersDb hrun bot hbot hactive⟩

end PolyArena
