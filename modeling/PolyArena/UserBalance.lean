import PolyArena.Api.Equity
import PolyArena.SettlementPasses

/-!
# The recorded user balance

`record_user_balance` sums the settled profits with a query, in the middle of the pass that settles
the order. The session does not autoflush, so the query sees the rows as committed before the pass.

1. `settlesFor` is the profit that a pass books for an order; `settledProfit_foldlM` adds them up
   over the pass.
2. `history_settlePendingOne`: the row that is written carries the balance of the committed rows.
3. `userBalance_row_iff`: it is the balance after the order exactly when the profits booked so far
   do not move it.
-/

namespace PolyArena

open Rounding

/-- The profit that `settle_pending_trades` books for the order; nothing for one that it skips or
cancels. -/
def BinaryOption.settlesFor (bo : BinaryOption) (fetch : CandleFetch) : ℚ :=
  if bo.positionClosed then 0
  else if bo.meOrderStatus = some .pending then 0
  else
    match fetch bo.candleRequest with
    | none => 0
    | some c =>
      match verdict bo c with
      | .settled _ profit => profit
      | _ => 0

/-- What a pass over `rows` books for the bots `names`. -/
def bookedProfit (fetch : CandleFetch) (names : List BotName) (rows : List BinaryOption) : ℚ :=
  (rows.map fun bo => if bo.botName ∈ names then bo.settlesFor fetch else 0).sum

/-- Pending rows of the table, each once. -/
structure DueOrders (db : Database) (rows : List BinaryOption) : Prop where
  nodup : (rows.map BinaryOption.id).Nodup
  pending : ∀ bo ∈ rows, db.orders.get bo.id = some bo ∧ bo.result = .pending

/-! ## What a pass books -/

section

variable {base db db' : Database} {bo row : BinaryOption} {c : Candle} {fetch : CandleFetch}
  {name : BotName} {names : List BotName} {rows : List BinaryOption} {x : ℚ} {k : ℕ}

theorem settlesFor_mem_grid (bo : BinaryOption) (fetch : CandleFetch) :
    bo.settlesFor fetch ∈ grid 8 := by
  unfold BinaryOption.settlesFor
  split_ifs
  · exact zero_mem _
  · exact zero_mem _
  · cases fetch bo.candleRequest with
    | none => exact zero_mem _
    | some c =>
      dsimp only
      cases hv : verdict bo c with
      | settled result profit => exact (verdict_settled hv).2
      | _ => exact zero_mem _

theorem bookedProfit_mem_grid (fetch : CandleFetch) (names : List BotName)
    (rows : List BinaryOption) :
    bookedProfit fetch names rows ∈ grid 8 := by
  refine list_sum_mem fun x hx => ?_
  obtain ⟨bo, -, rfl⟩ := List.mem_map.mp hx
  split_ifs
  · exact settlesFor_mem_grid bo fetch
  · exact zero_mem _

/-- Overwriting a pending row adds what the new row has settled for. -/
theorem settledProfit_put (hget : db.orders.get bo.id = some bo) (hp : bo.result = .pending)
    (horders : db'.orders = db.orders.put row) (hid : row.id = bo.id) (names : List BotName) :
    db'.settledProfit names = db.settledProfit names +
      if row.botName ∈ names ∧ row.result ∈ [.win, .loss] then row.profit.getD 0 else 0 := by
  unfold Database.settledProfit
  rw [horders, Table.total_put _ (hid.symm ▸ hget),
    if_neg (c := bo.botName ∈ names ∧ _) (by simp [hp]), sub_zero]

/-- **One order of a pass** adds its profit. -/
theorem settledProfit_settlePendingOne (hget : db.orders.get bo.id = some bo)
    (hp : bo.result = .pending) (hs : settlePendingOne fetch base db bo = some db')
    (names : List BotName) :
    db'.settledProfit names = db.settledProfit names +
      if bo.botName ∈ names then bo.settlesFor fetch else 0 := by
  have hcancelled : ∀ row : BinaryOption, row.id = bo.id → row.result = .cancelled →
      db'.orders = db.orders.put row → db'.settledProfit names = db.settledProfit names := by
    intro row hid hresult horders
    rw [settledProfit_put hget hp horders hid, if_neg (by simp [hresult]), add_zero]
  unfold settlePendingOne at hs
  rw [if_neg (not_not.mpr hp)] at hs
  unfold BinaryOption.settlesFor
  by_cases hclosed : bo.positionClosed = true
  · rw [if_pos hclosed] at hs ⊢
    cases hs
    rw [ite_self, add_zero]
  rw [if_neg hclosed] at hs ⊢
  by_cases hunfilled : bo.meOrderStatus = some .pending
  · rw [if_pos hunfilled] at hs ⊢
    cases hs
    rw [ite_self, add_zero]
    exact hcancelled (cancelledRow (unfilledRow bo)) rfl rfl (by simp [cancelWithRefund])
  rw [if_neg hunfilled] at hs ⊢
  cases hfetch : fetch bo.candleRequest with
  | none =>
    rw [hfetch] at hs
    cases hs
    rw [ite_self, add_zero]
  | some c =>
    rw [hfetch] at hs
    dsimp only at hs ⊢
    cases settles_of_some hs with
    | missingFill hv =>
      rw [hv, ite_self, add_zero]
      exact hcancelled (settledRow bo c .cancelled 0 .missingFillCancel) rfl rfl (by simp)
    | settled result profit hv =>
      have hresult : result ∈ [BOResult.win, .loss] := by
        rcases (verdict_settled hv).1 with rfl | rfl <;> simp
      have horders :
          (((db.setOrder (settledRow bo c result profit .candleSettled)).refundBot bo.botName
          (round8 (bo.amount + profit)) bo.id).pauseIfBroke bo.botName |>.recordUserBalance
          base bo.botName (some bo.id) (some profit)).orders =
              db.orders.put (settledRow bo c result profit .candleSettled) := by
        simp
      rw [hv, settledProfit_put hget hp horders rfl]
      by_cases hname : bo.botName ∈ names
      · rw [if_pos hname, if_pos ⟨hname, hresult⟩]
        rfl
      · rw [if_neg hname, if_neg fun h => hname h.1]

theorem DueOrders.tail (h : DueOrders db (bo :: rows))
    (hs : settlePendingOne fetch base db bo = some db') :
    DueOrders db' rows := by
  obtain ⟨hnot, hnodup⟩ := List.nodup_cons.mp (List.map_cons .. ▸ h.nodup)
  obtain ⟨hget, hp⟩ := h.pending bo List.mem_cons_self
  refine ⟨hnodup, fun r hr => ?_⟩
  have hne : r.id ≠ bo.id := fun heq => hnot (heq ▸ List.mem_map_of_mem hr)
  rw [(settlePendingOne_row fetch base db bo db' hget hp hs).1 r.id hne]
  exact h.pending r (List.mem_cons_of_mem _ hr)

/-- **A pass** adds the profits of its orders. -/
theorem settledProfit_foldlM (h : DueOrders db rows)
    (hs : rows.foldlM (settlePendingOne fetch base) db = some db') (names : List BotName) :
    db'.settledProfit names =
      db.settledProfit names + bookedProfit fetch names rows := by
  induction rows generalizing db with
  | nil =>
    cases hs
    exact (add_zero _).symm
  | cons bo rows ih =>
    rw [List.foldlM_cons] at hs
    obtain ⟨mid, hmid, hrest⟩ := Option.bind_eq_some_iff.mp hs
    obtain ⟨hget, hp⟩ := h.pending bo List.mem_cons_self
    rw [ih (h.tail hmid) hrest, settledProfit_settlePendingOne hget hp hmid names, add_assoc]
    rfl

/-! ## What it records -/

@[simp] theorem creditBot_history :
    (db.creditBot name x).userBalanceHistory = db.userBalanceHistory := by
  unfold Database.creditBot
  split <;> rfl

@[simp] theorem addBalanceHistory_history :
    (db.addBalanceHistory name k).userBalanceHistory = db.userBalanceHistory := by
  unfold Database.addBalanceHistory
  split <;> rfl

@[simp] theorem refundBot_history :
    (db.refundBot name x k).userBalanceHistory = db.userBalanceHistory := by
  unfold Database.refundBot
  rw [addBalanceHistory_history, creditBot_history]

@[simp] theorem pauseIfBroke_history :
    (db.pauseIfBroke name).userBalanceHistory = db.userBalanceHistory := by
  unfold Database.pauseIfBroke
  split
  · rfl
  · split <;> rfl

@[simp] theorem setOrder_history :
    (db.setOrder row).userBalanceHistory = db.userBalanceHistory := rfl

end

section

variable {base db db' : Database} {bo : BinaryOption} {bot : Bot} {user : User}
  {fetch : CandleFetch} {row : UserBalanceHistory}

/-- The balance of the committed rows, for an owner with an active bot. -/
theorem realizedBalance_of_active (hbot : base.bots.get bo.botName = some bot)
    (hown : bot.userId = some user.id) (hactive : bot.isActive = true) : base.realizedBalance user =
      some (round8 (user.initialBalance +
        base.settledProfit ((base.activeBots user.id).map Bot.botName))) := by
  have hmem : bot ∈ base.activeBots user.id :=
    mem_activeBots.mpr ⟨Table.mem_of_get hbot, hown, hactive⟩
  unfold Database.realizedBalance
  dsimp only
  rw [if_neg (List.ne_nil_of_mem (List.mem_map_of_mem hmem))]

/-- **The recorded row** carries the balance of the committed rows. -/
theorem history_settlePendingOne (hbot : base.bots.get bo.botName = some bot)
    (hown : bot.userId = some user.id) (huser : base.users.get user.id = some user)
    (hactive : bot.isActive = true) (hs : settlePendingOne fetch base db bo = some db')
    (hrow : db'.userBalanceHistory = db.userBalanceHistory ++ [row]) :
    row.balance =
      round8 (user.initialBalance +
        base.settledProfit ((base.activeBots user.id).map Bot.botName)) := by
  have hx := realizedBalance_of_active hbot hown hactive
  have hrecord : ∀ (mid : Database) (pnl : Option ℚ),
      mid.userBalanceHistory = db.userBalanceHistory →
      db' = mid.recordUserBalance base bo.botName (some bo.id) pnl → row.balance =
        round8 (user.initialBalance +
          base.settledProfit ((base.activeBots user.id).map Bot.botName)) := by
    rintro mid pnl hmid rfl
    rw [recordUserBalance_realized hbot hown huser hx, hmid] at hrow
    rw [← List.singleton_inj.mp (List.append_cancel_left hrow)]
  have hsame : db' ≠ db := by
    rintro rfl
    exact absurd (congrArg List.length hrow) (by simp)
  unfold settlePendingOne at hs
  split_ifs at hs
  · exact absurd (Option.some.inj hs).symm hsame
  · exact absurd (Option.some.inj hs).symm hsame
  · exact hrecord _ none (by simp) (Option.some.inj hs).symm
  · cases hfetch : fetch bo.candleRequest with
    | none =>
      rw [hfetch] at hs
      exact absurd (Option.some.inj hs).symm hsame
    | some c =>
      rw [hfetch] at hs
      cases settles_of_some hs with
      | missingFill hv => exact hrecord _ none (by simp) rfl
      | settled result profit hv => exact hrecord _ (some profit) (by simp) rfl

/-- **The recorded balance includes the pass so far** and the order itself exactly when the profits
that they book for the user's bots do not move the rounded balance: on balances of eight digits,
when they add up to nothing. -/
theorem userBalance_row_iff {before : List BinaryOption} {mid : Database}
    (hdue : DueOrders db (before ++ [bo])) (hbot : db.bots.get bo.botName = some bot)
    (hown : bot.userId = some user.id) (huser : db.users.get user.id = some user)
    (hactive : bot.isActive = true)
    (hbefore : before.foldlM (settlePendingOne fetch db) db = some mid)
    (hs : settlePendingOne fetch db mid bo = some db')
    (hrow : db'.userBalanceHistory = mid.userBalanceHistory ++ [row]) :
    let names := (db.activeBots user.id).map Bot.botName
    let committed := user.initialBalance + db.settledProfit names
    let booked := bookedProfit fetch names (before ++ [bo])
    (row.balance = round8 (user.initialBalance + db'.settledProfit names) ↔
        round8 committed = round8 (committed + booked)) ∧
      (committed ∈ grid 8 →
        (row.balance = round8 (user.initialBalance + db'.settledProfit names) ↔ booked = 0)) := by
  intro names committed booked
  have hpass : (before ++ [bo]).foldlM (settlePendingOne fetch db) db = some db' := by
    rw [List.foldlM_append, hbefore]
    exact (List.foldlM_cons ..).trans ((congrArg (· >>= _) hs).trans rfl)
  have hsum : user.initialBalance + db'.settledProfit names = committed + booked := by
    rw [settledProfit_foldlM hdue hpass names, ← add_assoc]
  have hbalance : row.balance = round8 committed :=
    history_settlePendingOne hbot hown huser hactive hs hrow
  rw [hsum, hbalance]
  refine ⟨Iff.rfl, fun hgrid => ?_⟩
  have hafter : committed + booked ∈ grid 8 :=
    add_mem hgrid (bookedProfit_mem_grid fetch names (before ++ [bo]))
  rw [show round8 committed = committed from roundTo_of_mem hgrid,
    show round8 (committed + booked) = committed + booked from roundTo_of_mem hafter]
  exact left_eq_add

end

/-! ## Samples -/

/-- A user with `100`, whose bot `alpha` holds the order. -/
def ownedDb (bo : BinaryOption) : Database where
  bots := ⟨[{ botName := "alpha", apiKey := "a", initialBalance := 100, balance := 90,
              userId := some 1 }], by simp⟩
  orders := ⟨[bo], nodup_one bo⟩
  users := ⟨[⟨1, 100⟩], nodup_sampleUser⟩

/-- A due order of `10` with twenty shares at `0.50`. -/
def dueOrder : BinaryOption :=
  { id := 1, botName := "alpha", symbol := .btc, timeframe := .m5, forecast := .green, amount := 10,
    avgPrice := some (1 / 2), numShares := some 20, settlementAt := some 900,
      meOrderStatus := some .filled }

/-- The same order the other way round. -/
def redOrder : BinaryOption := { dueOrder with id := 2, forecast := .red }

theorem nodup_bothOrders : ([dueOrder, redOrder].map BinaryOption.id).Nodup := by decide

/-- Both orders are due. -/
def bothDb : Database := { ownedDb dueOrder with
    orders := ⟨[dueOrder, redOrder], nodup_bothOrders⟩ }

theorem dueOrders_bothDb : DueOrders bothDb ([dueOrder] ++ [redOrder]) where
  nodup := nodup_bothOrders
  pending := by decide +kernel

/-- One order wins `10` and the other loses it: the row of the second has the balance after both. -/
theorem userBalance_row_offset : ∃ mid db' row,
    settlePendingOne greenCandles bothDb bothDb dueOrder = some mid ∧
      settlePendingOne greenCandles bothDb mid redOrder = some db' ∧
      db'.userBalanceHistory = mid.userBalanceHistory ++ [row] ∧ row.pnlAmount = some (-10) ∧
      row.balance = round8 (100 + db'.settledProfit ["alpha"]) := by
  have hpass : (settlePendingOne greenCandles bothDb bothDb dueOrder).any (fun mid =>
      (settlePendingOne greenCandles bothDb mid redOrder).any fun db' => decide
        (db'.userBalanceHistory = mid.userBalanceHistory ++
          [⟨1, 100, some 2, "alpha", some (-10)⟩])) =
          true := by
    decide +kernel
  obtain ⟨mid, hmid, hpass⟩ := (Option.any_eq_true _ _).mp hpass
  obtain ⟨db', hdb', hrow⟩ := (Option.any_eq_true _ _).mp hpass
  have hbooked : bookedProfit greenCandles ["alpha"] ([dueOrder] ++ [redOrder]) = 0 := by
    decide +kernel
  have hbefore : [dueOrder].foldlM (settlePendingOne greenCandles bothDb) bothDb = some mid :=
    congrArg (· >>= some) hmid
  exact ⟨mid, db', _, hmid, hdb', of_decide_eq_true hrow, rfl,
    ((userBalance_row_iff dueOrders_bothDb rfl rfl
      (show bothDb.users.get (User.mk 1 100).id = some (User.mk 1 100) from rfl) rfl hbefore hdb'
      (of_decide_eq_true hrow)).2 (by decide +kernel)).mpr hbooked⟩

/-- **The recorded balance is the one before**: the order wins `10`, and the row of the pass still
says `100`. -/
theorem userBalance_misses_own_profit : ∃ db' row,
    settlePendingTrades 1000 greenCandles (ownedDb dueOrder) = some db' ∧
      db'.userBalanceHistory = [row] ∧
      row.tradeId = some 1 ∧ row.pnlAmount = some 10 ∧ row.balance = 100 ∧
      round8 (100 + db'.settledProfit ["alpha"]) = 110 := by
  have hpass : (settlePendingTrades 1000 greenCandles (ownedDb dueOrder)).any
      (fun db' => decide (db'.userBalanceHistory = [⟨1, 100, some 1, "alpha", some 10⟩] ∧
        round8 (100 + db'.settledProfit ["alpha"]) = 110)) = true := by decide +kernel
  obtain ⟨db', hdb', h⟩ := (Option.any_eq_true _ _).mp hpass
  obtain ⟨hrow, hsum⟩ := of_decide_eq_true h
  exact ⟨db', _, hdb', hrow, rfl, rfl, rfl, hsum⟩

end PolyArena
