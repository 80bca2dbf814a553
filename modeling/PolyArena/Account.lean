import PolyArena.Redelivery

/-!
# The account of one order

What the messages about one order do to it and to the balance of its bot.  `OrderAccount` keeps the
columns that decide about money, and `OrderAccount.step` says what a message does to them.  The
handlers refine it: `account_deliver` says that the account after a delivery is the step on the
account before it, whatever else is in the database.
-/

namespace PolyArena

open Rounding

/-- What counts of an order, and the balance of its bot, if that exists. -/
@[ext] structure OrderAccount where
  amount : ℚ
  entryFee : Option ℚ
  numShares : Option ℚ
  avgPrice : Option ℚ
  result : BOResult
  profit : Option ℚ
  exitTrigger : Option Trigger
  exitPrice : Option ℚ
  exitFilled : Option ℚ
  positionClosed : Bool
  balance : Option ℚ
  deriving DecidableEq, Repr

/-- A message about an order.  A market-resolved message lists all orders of the market. -/
inductive OrderMessage
  | fill (m : FillMessage)
  | cancel (m : CancelMessage)
  | exit (m : ExitMessage)
  | resolved (boIds : List ℕ)
  deriving DecidableEq, Repr

/-- The message is about the order `id`. -/
def OrderMessage.About (id : ℕ) : OrderMessage → Prop
  | .fill m => m.boId = id
  | .cancel m => m.boId = id
  | .exit m => m.boId = id
  | .resolved boIds => id ∈ boIds

/-- The account of a row whose bot has `balance`. -/
def BinaryOption.account (bo : BinaryOption) (balance : Option ℚ) : OrderAccount where
  amount := bo.amount
  entryFee := bo.entryFee
  numShares := bo.numShares
  avgPrice := bo.avgPrice
  result := bo.result
  profit := bo.profit
  exitTrigger := bo.exitTrigger
  exitPrice := bo.exitPrice
  exitFilled := bo.exitFilled
  positionClosed := bo.positionClosed
  balance := balance

namespace Database

/-- The balance of a bot. -/
def balanceOf (db : Database) (name : BotName) : Option ℚ := (db.bots.get name).map Bot.balance

def account (db : Database) (id : ℕ) : Option OrderAccount :=
  (db.orders.get id).map fun bo => bo.account (db.balanceOf bo.botName)

/-- The handler of a message.  `now` and `fetch` are the time and the candles of this delivery. -/
def deliver (now : Time) (fetch : CandleFetch) (db : Database) : OrderMessage → Database
  | .fill m => (handleOrderFill now fetch db m).1
  | .cancel m => (handleOrderCancel db m).1
  | .exit m => (handleBracketExit now db m).1
  | .resolved boIds => (PolyArena.handleMarketResolved db boIds).1

end Database

/-! ## What a message does to an account -/

namespace OrderAccount

def credit (s : OrderAccount) (x : ℚ) : OrderAccount :=
  { s with balance := s.balance.map fun b => round8 (b + x) }

/-- The rebate a fill message earns. -/
def rebate (s : OrderAccount) (m : FillMessage) : ℚ :=
  match m.walkPrices with
  | some levels => if s.entryFee.getD 0 ≤ 0 then makerRebateFromLevels levels else 0
  | none => 0

/-- A fill is recorded and its rebate credited. -/
def fill (s : OrderAccount) (m : FillMessage) : OrderAccount :=
  if s.result ≠ .pending then s
  else
    let filled := { s with numShares := some m.filled, avgPrice := some m.avgEntryPrice }
    if 0 < s.rebate m then
      { filled with entryFee := some (round8 (s.entryFee.getD 0 - s.rebate m)) }.credit (s.rebate m)
    else filled

/-- Only the filled part stays in the order. -/
def keepFilled (s : OrderAccount) (m : CancelMessage) : OrderAccount :=
  { s with
    numShares := some m.filled
    avgPrice := some m.avgEntryPrice
    amount := round8 (m.filled * m.avgEntryPrice) }

/-- What the rest is worth. -/
def unfilled (s : OrderAccount) (m : CancelMessage) : ℚ :=
  round8 (max 0 (s.amount - round8 (m.filled * m.avgEntryPrice)))

/-- A cancel keeps the filled part and refunds the rest. -/
def cancel (s : OrderAccount) (m : CancelMessage) : OrderAccount :=
  if s.result ≠ .pending then s
  else if 0 < m.filled ∧ 0 < m.avgEntryPrice then
    if 0 < s.unfilled m then (s.keepFilled m).credit (s.unfilled m) else s.keepFilled m
  else { s with result := .cancelled, profit := some 0 }.credit s.amount

/-- All recorded shares left with this exit. -/
def isFullExit (s : OrderAccount) (m : ExitMessage) : Bool :=
  m.exitFilled ≥ s.numShares.getD 0 ∧ s.numShares.getD 0 > 0

/-- The first exit is recorded, unless its trace cannot be written. -/
def exit (s : OrderAccount) (m : ExitMessage) : OrderAccount :=
  if s.exitTrigger = none ∧ s.result = .pending ∧ ¬ (s.isFullExit m ∧ s.avgPrice = none) then
    { s with
      exitTrigger := some m.trigger
      exitPrice := some m.exitPrice
      exitFilled := some m.exitFilled }
  else s

/-- The market resolved. -/
def resolve (s : OrderAccount) : OrderAccount :=
  if s.result = .pending ∧ ¬ s.positionClosed then { s with positionClosed := true } else s

def step (s : OrderAccount) : OrderMessage → OrderAccount
  | .fill m => s.fill m
  | .cancel m => s.cancel m
  | .exit m => s.exit m
  | .resolved _ => s.resolve

section

variable {s : OrderAccount} {m : CancelMessage}

theorem cancel_settled (h : s.result ≠ .pending) : s.cancel m = s := if_pos h

theorem cancel_partFilled (hp : s.result = .pending)
    (hfilled : 0 < m.filled ∧ 0 < m.avgEntryPrice) :
    s.cancel m =
      if 0 < s.unfilled m then (s.keepFilled m).credit (s.unfilled m) else s.keepFilled m := by
  unfold cancel
  rw [if_neg (not_not.mpr hp), if_pos hfilled]

theorem cancel_zeroFill (hp : s.result = .pending)
    (hfilled : ¬ (0 < m.filled ∧ 0 < m.avgEntryPrice)) :
    s.cancel m = { s with result := .cancelled, profit := some 0 }.credit s.amount := by
  unfold cancel
  rw [if_neg (not_not.mpr hp), if_neg hfilled]

theorem exit_open {m : ExitMessage} (ht : s.exitTrigger = none) (hp : s.result = .pending)
    (hraise : ¬ (s.isFullExit m ∧ s.avgPrice = none)) :
    s.exit m = { s with
      exitTrigger := some m.trigger
      exitPrice := some m.exitPrice
      exitFilled := some m.exitFilled } :=
  if_pos ⟨ht, hp, hraise⟩

theorem exit_closed {m : ExitMessage} (h : s.exitTrigger ≠ none ∨ s.result ≠ .pending) :
    s.exit m = s :=
  if_neg fun hopen => h.elim (fun h => h hopen.1) fun h => h hopen.2.1

theorem exit_keeps {m : ExitMessage} : (s.exit m).result = s.result ∧ (s.exit m).amount = s.amount ∧
    (s.exit m).numShares = s.numShares ∧ (s.exit m).avgPrice = s.avgPrice ∧
      (s.exit m).positionClosed = s.positionClosed := by
  unfold exit
  split <;> exact ⟨rfl, rfl, rfl, rfl, rfl⟩

theorem resolve_keeps : s.resolve.result = s.result ∧ s.resolve.amount = s.amount ∧
    s.resolve.numShares = s.numShares ∧ s.resolve.avgPrice = s.avgPrice ∧
      s.resolve.exitTrigger = s.exitTrigger := by
  unfold resolve
  split <;> exact ⟨rfl, rfl, rfl, rfl, rfl⟩

theorem cancel_keeps : (s.cancel m).exitTrigger = s.exitTrigger ∧
    (s.cancel m).positionClosed = s.positionClosed := by
  unfold cancel
  split_ifs <;> exact ⟨rfl, rfl⟩

end

end OrderAccount

/-! ## The handlers refine it -/

section

variable {db : Database} {bo : BinaryOption} {id : ℕ} {now : Time} {fetch : CandleFetch} {x : ℚ}
  {name : BotName}

theorem balanceOf_creditBot (hname : bo.botName = name) :
    (db.creditBot name x).balanceOf bo.botName =
      (db.balanceOf bo.botName).map fun b => round8 (b + x) := by
  subst hname
  unfold Database.balanceOf Database.creditBot
  cases hbot : db.bots.get bo.botName with
  | none => simp [hbot]
  | some bot =>
    have hkey := Table.key_of_get hbot
    have hput := Table.get_put_self (a := { bot with balance := round8 (bot.balance + x) })
      (t := db.bots) (r := bot) (hkey.symm ▸ hbot)
    dsimp only
    rw [show (db.setBot { bot with balance := round8 (bot.balance + x) }).bots =
      db.bots.put { bot with balance := round8 (bot.balance + x) } from rfl, ← hkey]
    exact congrArg (Option.map Bot.balance) hput

theorem balanceOf_congr {db' : Database} (h : db'.bots = db.bots) :
    db'.balanceOf name = db.balanceOf name := by
  unfold Database.balanceOf
  rw [h]

/-- The account after the row of the order was written. -/
theorem account_of_put {db' : Database} {r : BinaryOption} (hget : db.orders.get id = some bo)
    (horders : db'.orders = db.orders.put r) (hid : r.id = bo.id) :
    db'.account id = some (r.account (db'.balanceOf r.botName)) := by
  have hkey := Table.key_of_get hget
  have hput := Table.get_put_self (a := r) (t := db.orders) (r := bo) (by rw [hid, hkey, hget])
  unfold Database.account
  rw [horders, ← hkey, ← hid, hput]
  rfl

theorem account_none (h : db.orders.get id = none) : db.account id = none := by
  unfold Database.account
  rw [h]
  rfl

theorem account_some (h : db.orders.get id = some bo) :
    db.account id = some (bo.account (db.balanceOf bo.botName)) := by
  unfold Database.account
  rw [h]
  rfl

theorem account_handleOrderCancel {m : CancelMessage} :
    (handleOrderCancel db m).1.account m.boId =
      (db.account m.boId).map fun s => s.cancel m := by
  unfold handleOrderCancel
  cases hget : db.orders.get m.boId with
  | none => simp [account_none hget]
  | some bo =>
    rw [account_some hget, Option.map_some]
    dsimp only
    by_cases hp : bo.result ≠ .pending
    · rw [if_pos hp, account_some hget]
      exact congrArg some (OrderAccount.cancel_settled (s := bo.account _) hp).symm
    rw [if_neg hp]
    have hp := not_not.mp hp
    by_cases hfilled : 0 < m.filled ∧ 0 < m.avgEntryPrice
    · rw [if_pos hfilled, OrderAccount.cancel_partFilled (s := bo.account _) hp hfilled]
      dsimp only
      rw [show (bo.account (db.balanceOf bo.botName)).unfilled m = unfilledRefund bo m from rfl]
      by_cases hrefund : 0 < unfilledRefund bo m
      · rw [if_pos hrefund, if_pos hrefund,
          account_of_put hget (r := partialCancelRow bo m) (by simp) rfl,
          balanceOf_congr refundBot_bots,
            show (partialCancelRow bo m).botName = bo.botName from rfl,
          balanceOf_creditBot rfl]
        rfl
      · rw [if_neg hrefund, if_neg hrefund,
          account_of_put hget (r := partialCancelRow bo m) rfl rfl]
        rfl
    · rw [if_neg hfilled, OrderAccount.cancel_zeroFill (s := bo.account _) hp hfilled]
      dsimp only
      rw [account_of_put hget (r := zeroFillCancelRow bo m) (by simp) rfl,
        balanceOf_congr recordUserBalance_bots, balanceOf_congr refundBot_bots,
        show (zeroFillCancelRow bo m).botName = bo.botName from rfl, balanceOf_creditBot rfl]
      rfl

theorem account_handleBracketExit {m : ExitMessage} :
    (handleBracketExit now db m).1.account m.boId =
      (db.account m.boId).map fun s => s.exit m := by
  unfold handleBracketExit
  cases hget : db.orders.get m.boId with
  | none => simp [account_none hget]
  | some bo =>
    rw [account_some hget, Option.map_some]
    dsimp only
    have hfull : (bo.account (db.balanceOf bo.botName)).isFullExit m = isFullExit bo m := rfl
    unfold OrderAccount.exit
    rw [hfull]
    by_cases hopen : bo.exitTrigger = none ∧ bo.result = .pending
    · rw [if_pos hopen]
      by_cases hraise : isFullExit bo m ∧ bo.avgPrice = none
      · rw [if_pos hraise, account_some hget]
        exact congrArg some (if_neg fun h => h.2.2 hraise).symm
      · rw [if_neg hraise, account_of_put hget (r := exitRow now bo m) rfl rfl]
        exact congrArg some (if_pos ⟨hopen.1, hopen.2, hraise⟩).symm
    · rw [if_neg hopen, account_some hget]
      exact congrArg some (if_neg fun h => hopen ⟨h.1, h.2.1⟩).symm

/-- The rows of a pass that rewrites each selected row. -/
theorem get_foldl_setOrder {f : BinaryOption → BinaryOption} (id : Nat)
    (hf : ∀ r, (f r).id = r.id) :
    ∀ (rows : List BinaryOption) (db : Database), (rows.map BinaryOption.id).Nodup →
      (∀ r ∈ rows, db.orders.get r.id = some r) →
        (rows.foldl (fun db r => db.setOrder (f r)) db).orders.get id =
            (db.orders.get id).map (fun r => if r ∈ rows then f r else r) ∧
          (rows.foldl (fun db r => db.setOrder (f r)) db).bots = db.bots := by
  intro rows
  induction rows with
  | nil =>
    intro db _ _
    refine ⟨?_, rfl⟩
    simp
  | cons r rows ih =>
    intro db hnd hrows
    rw [List.map_cons, List.nodup_cons] at hnd
    have hput : ∀ k, k ≠ r.id → (db.setOrder (f r)).orders.get k = db.orders.get k := by
      intro k hk
      rw [setOrder_orders, Table.get_put_ne (by rwa [hf])]
    have hrest : ∀ x ∈ rows, (db.setOrder (f r)).orders.get x.id = some x := by
      intro x hx
      have hne : x.id ≠ r.id := fun e => hnd.1 (e ▸ List.mem_map_of_mem hx)
      rw [hput _ hne]
      exact hrows x (List.mem_cons_of_mem _ hx)
    obtain ⟨horders, hbots⟩ := ih (db.setOrder (f r)) hnd.2 hrest
    rw [List.foldl_cons]
    refine ⟨horders.trans ?_, hbots⟩
    by_cases hk : id = r.id
    · subst hk
      have hself := Table.get_put_self (a := f r) (t := db.orders) (r := r)
        (by rw [hf, hrows r (List.mem_cons_self ..)])
      rw [hf] at hself
      have hold : f r ∉ rows := fun h => hnd.1 (hf r ▸ List.mem_map_of_mem h)
      rw [setOrder_orders, hself, hrows r (List.mem_cons_self ..), Option.map_some, Option.map_some,
        if_neg hold, if_pos (List.mem_cons_self ..)]
    · rw [hput id hk]
      refine Option.map_congr fun x hx => ?_
      have hne : x ≠ r := fun e => hk (by rw [← Table.key_of_get hx, e])
      simp [hne]

/-- **The market resolved**: the row of an order that is listed and pending is marked. -/
theorem get_handleMarketResolved (boIds : List ℕ) {k : ℕ} {bo : BinaryOption}
    (hget : db.orders.get k = some bo) :
    (handleMarketResolved db boIds).1.orders.get k = some
      (if bo.id ∈ boIds ∧ bo.result = .pending ∧ bo.positionClosed = false then resolvedRow bo
        else bo) := by
  unfold handleMarketResolved
  dsimp only
  rw [(get_foldl_setOrder (f := resolvedRow) k (fun _ => rfl) _ db (db.orders.nodup.sublist
    (List.filter_sublist.map _)) fun r hr => Table.get_of_mem (List.mem_of_mem_filter hr)).1, hget,
      Option.map_some]
  simp [List.mem_filter, Table.mem_of_get hget]

theorem account_handleMarketResolved {boIds : List ℕ} (h : id ∈ boIds) :
    (handleMarketResolved db boIds).1.account id = (db.account id).map OrderAccount.resolve := by
  unfold handleMarketResolved
  dsimp only
  set affected := db.orders.rows.filter fun bo =>
    bo.id ∈ boIds ∧ bo.result = .pending ∧ ¬ bo.positionClosed with haffected
  have hnd : (affected.map BinaryOption.id).Nodup :=
    db.orders.nodup.sublist (List.filter_sublist.map _)
  obtain ⟨horders, hbots⟩ := get_foldl_setOrder (f := resolvedRow) id (fun _ => rfl) affected
    db hnd fun r hr => Table.get_of_mem (List.mem_of_mem_filter hr)
  unfold Database.account
  rw [horders]
  cases hget : db.orders.get id with
  | none => rfl
  | some bo =>
    have hkey := Table.key_of_get hget
    have hmem : bo ∈ affected ↔ bo.result = .pending ∧ ¬ bo.positionClosed := by
      rw [haffected, List.mem_filter]
      simp [Table.mem_of_get hget, hkey, h]
    simp only [Option.map_some, Option.some.injEq, balanceOf_congr hbots]
    unfold OrderAccount.resolve
    by_cases hopen : bo.result = .pending ∧ ¬ bo.positionClosed
    · rw [if_pos (hmem.mpr hopen)]
      exact (if_pos hopen).symm
    · rw [if_neg fun hm => hopen (hmem.mp hm)]
      exact (if_neg hopen).symm

theorem filledRow_account (bo : BinaryOption) (m : FillMessage) (balance : Option ℚ) :
    (filledRow bo m).account balance =
      { bo.account balance with
        numShares := some m.filled
        avgPrice := some m.avgEntryPrice
        entryFee := if 0 < fillRebate bo m then some (round8 (bo.fee - fillRebate bo m))
          else bo.entryFee } := by
  unfold filledRow
  cases m.status <;> rfl

theorem account_recordFill {m : FillMessage} (hget : db.orders.get m.boId = some bo)
    (hp : bo.result = .pending) :
    (recordFill db bo m).account m.boId =
      some ((bo.account (db.balanceOf bo.botName)).fill m) := by
  rw [account_of_put hget (recordFill_orders db bo m) (filledRow_id bo m), filledRow_account]
  have hrebate : (bo.account (db.balanceOf bo.botName)).rebate m = fillRebate bo m := rfl
  unfold OrderAccount.fill
  rw [if_neg (show ¬ (bo.account _).result ≠ .pending from not_not.mpr hp), hrebate]
  dsimp only
  unfold recordFill
  dsimp only
  by_cases hr : 0 < fillRebate bo m
  · rw [if_pos hr, if_pos hr, if_pos hr, filledRow_botName, balanceOf_creditBot rfl]
    rfl
  · rw [if_neg hr, if_neg hr, if_neg hr, filledRow_botName]
    rfl

/-- A fill that does not settle the order late. -/
theorem account_handleOrderFill {m : FillMessage} (hm : m.status ≠ .filled) :
    (handleOrderFill now fetch db m).1.account m.boId =
      (db.account m.boId).map fun s => s.fill m := by
  cases hget : db.orders.get m.boId with
  | none =>
    unfold handleOrderFill
    rw [hget, account_none hget]
    rfl
  | some bo =>
    rw [account_some hget, Option.map_some]
    by_cases hp : bo.result = .pending
    · have hlate : settlesLate now fetch bo m = false := by simp [settlesLate, isLateFill, hm]
      rw [handleOrderFill_records hget hp hlate, account_recordFill hget hp]
    · have hskip : ∀ b, db.orders.get m.boId = some b → b.result ≠ .pending := fun b hb => by
        rwa [← Option.some.inj (hget.symm.trans hb)]
      rw [handleOrderFill_settled hskip, account_some hget]
      exact congrArg some (if_pos hp).symm

/-- **The handlers refine the account.** -/
theorem account_deliver {m : OrderMessage} (hm : m.About id)
    (hfill : ∀ f, m = .fill f → f.status ≠ .filled) :
    (db.deliver now fetch m).account id = (db.account id).map fun s => s.step m := by
  cases m with
  | fill f => exact hm ▸ account_handleOrderFill (hfill f rfl)
  | cancel c => exact hm ▸ account_handleOrderCancel
  | exit e => exact hm ▸ account_handleBracketExit
  | resolved boIds => exact account_handleMarketResolved hm

end

end PolyArena
