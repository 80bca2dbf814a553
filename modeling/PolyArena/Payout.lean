import PolyArena.Account

/-!
# What a settled order pays

`_settle_single_trade` has three formulas: the binary one, the one of a bracket exit, and the one of
an exit in part with the rest settled on the candle.  Rounding apart they are one identity.

1. `payoutValue` is what an order is worth at the candle close: what it did not spend, what its exit
   brought, and a dollar for every share that was kept and won.
2. `exactProfit_eq`: the profit before rounding is this value without the amount, in all three
   cases.
3. `verdict_profit`: the profit that is booked is within the rounding of each formula.
4. `payout_identity` adds the roundings of the payout and of the balance.
-/

namespace PolyArena

open Rounding

/-- What an order of `amount` with `n` shares at `avg` is worth after the exit of `filled` of them
at `price`, when the rest wins or loses. -/
def payoutValue (amount avg n price filled : ℚ) (won : Bool) : ℚ :=
  (amount - avg * n) + filled * price + if won then n - filled else 0

/-- The price and the quantity of the exit; nothing is exited without one. -/
def BinaryOption.exitOrNone (bo : BinaryOption) : ℚ × ℚ := bo.shadowExit.getD (0, 0)

/-- The binary outcome of the order on the candle. -/
def BinaryOption.wins (bo : BinaryOption) (c : Candle) : Bool := c.dir = bo.forecast

section

variable {db base : Database} {bo : BinaryOption} {c : Candle} {avg n amount price filled : ℚ}
  {won : Bool} {name : BotName}

/-! ## The profit -/

theorem binaryProfit_close (avg shares : ℚ) (won : Bool) :
    |binaryProfit avg shares won - ((if won then shares else 0) - avg * shares)| ≤
      1 / (2 * 10 ^ 8) := by
  unfold binaryProfit
  cases won with
  | true =>
    have hclose := abs_roundTo_sub_le 8 ((1 - avg) * shares)
    rwa [show (1 - avg) * shares = shares - avg * shares by ring] at hclose ⊢
  | false =>
    have hclose := abs_roundTo_sub_le 8 (-avg * shares)
    rwa [show -avg * shares = 0 - avg * shares by ring] at hclose ⊢

/-- **The formulas agree** before rounding: the exited part and the rest. -/
theorem exactProfit_eq :
    (price - avg) * filled + ((if won then n - filled else 0) - avg * (n - filled)) =
    payoutValue amount avg n price filled won - amount := by
  unfold payoutValue
  ring

/-- The profit of an order with an exit, of all or a part of its shares. -/
theorem exitProfit_close (hfilled : filled ≤ n) :
    |round8 ((price - avg) * filled) +
        (if filled < n then binaryProfit avg (n - filled) won else 0) -
      (payoutValue amount avg n price filled won - amount)| ≤ 1 / 10 ^ 8 := by
  have hshadow := abs_roundTo_sub_le 8 ((price - avg) * filled)
  have hrest : |(if filled < n then binaryProfit avg (n - filled) won else 0) -
      ((if won then n - filled else 0) - avg * (n - filled))| ≤ 1 / (2 * 10 ^ 8) := by
    by_cases hlt : filled < n
    · rw [if_pos hlt]
      exact binaryProfit_close avg (n - filled) won
    · obtain rfl : filled = n := le_antisymm hfilled (not_lt.mp hlt)
      rw [if_neg hlt]
      cases won <;> norm_num
  rw [← exactProfit_eq]
  calc |round8 ((price - avg) * filled) +
        (if filled < n then binaryProfit avg (n - filled) won else 0) -
        ((price - avg) * filled + ((if won then n - filled else 0) - avg * (n - filled)))|
      = |(round8 ((price - avg) * filled) - (price - avg) * filled) +
          ((if filled < n then binaryProfit avg (n - filled) won else 0) -
            ((if won then n - filled else 0) - avg * (n - filled)))| := by
        congr 1
        ring
    _ ≤ 1 / (2 * 10 ^ 8) + 1 / (2 * 10 ^ 8) := (abs_add_le _ _).trans (add_le_add hshadow hrest)
    _ = 1 / 10 ^ 8 := by norm_num

/-- **What the verdict books** for an order with recorded fills. -/
theorem verdict_profit (amount : ℚ) (havg : bo.avgPrice = some avg) (hn : bo.numShares = some n)
    (hexit : ∀ xe ∈ bo.shadowExit, xe.2 ≤ n) :
    ∃ r p, verdict bo c = .settled r p ∧
      |p - (payoutValue amount avg n bo.exitOrNone.1 bo.exitOrNone.2 (bo.wins c) - amount)| ≤
        1 / 10 ^ 8 ∧
      r = if bo.shadowExit.isSome then (if 0 ≤ p then .win else .loss)
        else if bo.wins c then .win else .loss := by
  unfold verdict BinaryOption.exitOrNone at *
  rw [havg, hn]
  cases hshadow : bo.shadowExit with
  | none =>
    refine ⟨_, _, rfl, ?_, by simp [BinaryOption.wins]⟩
    have hclose := binaryProfit_close avg n (bo.wins c)
    have hvalue : payoutValue amount avg n 0 0 (bo.wins c) - amount =
        (if bo.wins c then n else 0) - avg * n := by
      unfold payoutValue
      rw [sub_zero]
      ring
    rw [Option.getD_none, hvalue]
    exact hclose.trans (by norm_num)
  | some xe =>
    exact ⟨_, _, rfl, exitProfit_close (hexit xe hshadow), rfl⟩

/-! ## The credit -/

theorem balanceOf_pauseIfBroke (k : BotName) :
    (db.pauseIfBroke name).balanceOf k = db.balanceOf k := by
  unfold Database.pauseIfBroke
  cases hget : db.bots.get name with
  | none => rfl
  | some bot =>
    dsimp only
    split
    · have hkey := Table.key_of_get hget
      unfold Database.balanceOf
      rw [show (db.setBot { bot with status := .paused }).bots = db.bots.put { bot with
        status := .paused }
        from rfl]
      by_cases hk : k = bot.botName
      · subst hk
        have hself : db.bots.get bot.botName = some bot := hkey.symm ▸ hget
        rw [show (db.bots.put { bot with status := .paused }).get bot.botName = _ from
          Table.get_put_self (a := { bot with status := .paused }) hself, hself]
        rfl
      · rw [Table.get_put_ne (show k ≠ Bot.botName { bot with status := .paused } from hk)]
    · rfl

/-- The payout goes to the bot, rounded. -/
theorem settleSingleTrade_balance {r : BOResult} {p : ℚ} {db' : Database}
    (hv : verdict bo c = .settled r p) (hs : settleSingleTrade base db bo c = some db') :
    db'.balanceOf bo.botName =
      (db.balanceOf bo.botName).map fun b => round8 (b + round8 (bo.amount + p)) := by
  unfold settleSingleTrade at hs
  rw [hv] at hs
  cases hs
  rw [balanceOf_congr recordUserBalance_bots, balanceOf_pauseIfBroke,
    balanceOf_congr refundBot_bots, balanceOf_creditBot rfl]
  rfl

/-- Rounding a payout and the balance it is added to. -/
theorem credit_close {b value p : ℚ} (hp : |p - (value - amount)| ≤ 1 / 10 ^ 8) :
    |round8 (b + round8 (amount + p)) - b - value| ≤ 2 / 10 ^ 8 := by
  have hbalance := abs_le.mp (abs_roundTo_sub_le 8 (b + round8 (amount + p)))
  have hpayout := abs_le.mp (abs_roundTo_sub_le 8 (amount + p))
  have hp := abs_le.mp hp
  have hunits : (2 : ℚ) / 10 ^ 8 = 1 / (2 * 10 ^ 8) + 1 / (2 * 10 ^ 8) + 1 / 10 ^ 8 := by norm_num
  rw [abs_le]
  constructor
  · linarith [hbalance.1, hpayout.1, hp.1]
  · linarith [hbalance.2, hpayout.2, hp.2]

end

/-- **The payout identity**: an order with recorded fills is credited its value, up to two units of
rounding; its profit is the value without the amount, up to one; and it wins when its binary outcome
does (without an exit) or when its profit is not negative (with one). -/
theorem payout_identity (base : Database) {db : Database} {bo : BinaryOption} {c : Candle}
    {avg n balance : ℚ} (hget : db.orders.get bo.id = some bo)
    (hbot : db.balanceOf bo.botName = some balance) (havg : bo.avgPrice = some avg)
    (hn : bo.numShares = some n) (hexit : ∀ xe ∈ bo.shadowExit, xe.2 ≤ n) :
    ∃ db' row balance' profit, settleSingleTrade base db bo c = some db' ∧
      db'.orders.get bo.id = some row ∧ db'.balanceOf bo.botName = some balance' ∧
      row.profit = some profit ∧
      |balance' - balance -
        payoutValue bo.amount avg n bo.exitOrNone.1 bo.exitOrNone.2 (bo.wins c)| ≤ 2 / 10 ^ 8 ∧
      |profit - (payoutValue bo.amount avg n bo.exitOrNone.1 bo.exitOrNone.2
        (bo.wins c) - bo.amount)| ≤
        1 / 10 ^ 8 ∧
      row.result = if bo.shadowExit.isSome then (if 0 ≤ profit then .win else .loss)
        else if bo.wins c then .win else .loss := by
  obtain ⟨r, p, hv, hprofit, hresult⟩ := verdict_profit (c := c) bo.amount havg hn hexit
  obtain ⟨db', hs, hrow⟩ := settleSingleTrade_settled base hget hv
  have hbalance := settleSingleTrade_balance hv hs
  rw [hbot] at hbalance
  exact ⟨db', _, _, p, hs, hrow, hbalance, rfl, credit_close hprofit, hprofit, hresult⟩

/-! ## A sample -/

/-- A take profit that sold 150 of 200 shares at `0.72`. -/
def partExited : BinaryOption :=
  { id := 1, botName := "alpha", symbol := .btc, timeframe := .m5, forecast := .green,
    amount := 100,
    avgPrice := some (1 / 2), numShares := some 200, tpPrice := some (7 / 10),
      exitTrigger := some .tp,
    exitPrice := some (18 / 25), exitFilled := some 150 }

def partExitedDb : Database where
  bots := ⟨[{ botName := "alpha", apiKey := "k", initialBalance := 100, balance := 0 }], by simp⟩
  orders := ⟨[partExited], by simp⟩
  users := ⟨[], List.nodup_nil⟩

/-- On a green candle the other fifty shares win: `0 + 108 + 50`. -/
theorem payout_identity_partExited : ∃ db' balance',
    settleSingleTrade partExitedDb partExitedDb partExited ⟨100, 110⟩ = some db' ∧
      db'.balanceOf "alpha" = some balance' ∧ |balance' - 158| ≤ 2 / 10 ^ 8 := by
  obtain ⟨db', row, balance', profit, hs, -, hbalance, -, hclose, -⟩ :=
    payout_identity partExitedDb (c := ⟨100, 110⟩)
      (Table.get_of_mem (t := partExitedDb.orders) (List.mem_singleton_self partExited))
      (show partExitedDb.balanceOf "alpha" = some 0 by decide +kernel) rfl rfl (by decide +kernel)
  have hvalue : payoutValue 100 (1 / 2) 200 partExited.exitOrNone.1 partExited.exitOrNone.2
      (partExited.wins ⟨100, 110⟩) = 158 := by
    decide +kernel
  refine ⟨db', balance', hs, hbalance, ?_⟩
  rw [← hvalue, ← sub_zero balance']
  exact hclose

end PolyArena
