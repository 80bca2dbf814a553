import PolyArena.Api.CreateBo

/-!
# What a new order costs its bot

A new order should take `amount + entry_fee` of its row from the bot's balance.  Each path debits
the amount and the fee of its own; `overdebit` is what it takes beyond its row.

1. A passive LIMIT takes nothing more.
2. A MARKET order refunds what it did not spend, rounding twice, so it takes at most one unit of the
   eighth decimal more or less.
3. An aggressive LIMIT that is filled in part records only the filled part and refunds nothing: it
   takes the whole budget that is left.
-/

namespace PolyArena

open Rounding

/-- What a draft takes from the bot beyond the cost and the fee of its row. -/
def Draft.overdebit {k : ℕ} (d : Draft k) (bot : Bot) : ℚ :=
  bot.balance - d.balance - (d.row.amount + d.row.fee)

section

variable {now : Time} {p : BOCreate} {r : Admitted} {k : ℕ} {limit : ℚ}

theorem round8_sub {x y : ℚ} (hx : x ∈ grid 8) (hy : y ∈ grid 8) : round8 (x - y) = x - y :=
  roundTo_of_mem (sub_mem hx hy)

/-- Charging a fee on the grid subtracts it. -/
theorem chargeFee_eq {balance fee : ℚ} (hb : balance ∈ grid 8) (hfee : fee ∈ grid 8)
    (h0 : 0 ≤ fee) :
    chargeFee balance fee = balance - fee := by
  unfold chargeFee
  rcases h0.eq_or_lt with rfl | hpos
  · rw [if_neg (lt_irrefl _), sub_zero]
  · rw [if_pos hpos, round8_sub hb hfee]

theorem passiveLimit_overdebit (hbal : r.balance = r.bot.balance - p.amount) :
    (passiveLimit now r p k limit).overdebit r.bot = 0 := by
  unfold Draft.overdebit
  simp only [passiveLimit, BinaryOption.fee, BinaryOption.appendTrace, Admitted.baseRow,
    Option.getD_some, hbal]
  ring

/-- What an aggressive LIMIT takes beyond its row: what is left of the budget, when something was
filled. -/
theorem aggressiveDraft_overdebit {f : LimitFill} (hbal : r.balance = r.bot.balance - p.amount)
    (hgrid : r.balance ∈ grid 8) (hamount : p.amount ∈ grid 8) (hrem : f.remainingBudget ∈ grid 8)
    (hfee : 0 ≤ takerFeeFromLevels f.walkLevels) :
    (aggressiveDraft now r p k limit f).overdebit r.bot =
      if 0 < f.numShares then f.remainingBudget else 0 := by
  unfold Draft.overdebit
  simp only [aggressiveDraft, BinaryOption.fee, BinaryOption.appendTrace, Admitted.baseRow,
    Option.getD_some]
  rw [chargeFee_eq hgrid (takerFeeFromLevels_mem_grid _) hfee, round8_sub hamount hrem, hbal]
  by_cases hfilled : 0 < f.numShares
  · rw [if_pos hfilled, if_pos hfilled]
    ring
  · rw [if_neg hfilled, if_neg hfilled]
    ring

/-- A MARKET order takes at most one unit beyond its row: two roundings. -/
theorem marketDraft_overdebit {avg shares : ℚ} {levels : List FillLevel}
    (hbal : r.balance = r.bot.balance - p.amount) (hgrid : r.balance ∈ grid 8)
    (hfee : 0 ≤ takerFeeFromLevels levels) :
    |(marketDraft now r p k avg shares levels).overdebit r.bot| ≤ 1 / 10 ^ 8 := by
  unfold Draft.overdebit
  simp only [marketDraft, BinaryOption.fee, BinaryOption.appendTrace, Admitted.baseRow,
    Option.getD_some]
  generalize (levels.map FillLevel.cost).sum = cost
  by_cases hlt : cost < p.amount
  · have hsum : round8 (r.balance + round8 (p.amount - cost)) =
        r.balance + round8 (p.amount - cost) :=
      roundTo_of_mem (add_mem hgrid (roundTo_mem_grid _ _))
    rw [if_pos hlt, if_pos hlt, hsum, chargeFee_eq (add_mem hgrid (roundTo_mem_grid _ _))
      (takerFeeFromLevels_mem_grid _) hfee, hbal]
    have h1 := abs_le.mp (abs_roundTo_sub_le 8 (p.amount - cost))
    have h2 := abs_le.mp (abs_roundTo_sub_le 8 cost)
    rw [abs_le]
    constructor
    · linarith [h1.2, h2.2]
    · linarith [h1.1, h2.1]
  · rw [if_neg hlt, if_neg hlt, chargeFee_eq hgrid (takerFeeFromLevels_mem_grid _) hfee, hbal]
    have : r.bot.balance - (r.bot.balance - p.amount - takerFeeFromLevels levels) -
        (p.amount + takerFeeFromLevels levels) = 0 := by ring
    rw [this, abs_zero]
    positivity

/-! ## When an order leaves some of its budget nowhere -/

/-- The amount is partly spent: the limit is at or above the best ask, the second snapshot offers
some shares at up to the limit, and they cost more than a unit less than the amount. -/
def LeavesBudget (p : BOCreate) (first second : SnapshotRead) : Prop :=
  ∃ limit bestAsk asks, p.limitPrice = some limit ∧ snapshotBestAsk first = some bestAsk ∧
    bestAsk ≤ limit ∧ second = .asks asks ∧ 0 < round8 (offeredQty limit asks) ∧
    1 / 10 ^ 8 < round8 (p.amount - offeredCost limit asks)

/-- A rounding above zero is not that of the positive part alone. -/
theorem round8_max_zero {x u : ℚ} (hu : 0 < u) : u < round8 (max 0 x) ↔ u < round8 x := by
  rcases le_total x 0 with hx | hx
  · have hle : round8 x ≤ 0 := roundTo_le_of_mem (zero_mem _) hx
    have hzero : round8 (max 0 x) = 0 := by rw [max_eq_left hx]; exact roundTo_zero 8
    rw [hzero]
    exact ⟨fun h => absurd h hu.le.not_gt, fun h => absurd h (hle.trans hu.le).not_gt⟩
  · rw [max_eq_right hx]

variable {first second : SnapshotRead}

/-- An aggressive LIMIT takes more than a unit beyond its row exactly when it leaves budget. -/
theorem aggressive_over_iff {f : LimitFill} (hlimit : p.limitPrice = some limit)
    (hbest : snapshotBestAsk first = some r.bestAsk) (hle : r.bestAsk ≤ limit)
    (hf : fillLimitFromSnapshot second p.amount limit = .ok f) :
    0 < f.numShares ∧ 1 / 10 ^ 8 < f.remainingBudget ↔ LeavesBudget p first second := by
  have hunit : (0 : ℚ) < 1 / 10 ^ 8 := by positivity
  obtain ⟨asks, rfl, hrem⟩ := remainingBudget_eq hf p.amount_positive.le
  constructor
  · rintro ⟨hshares, hleft⟩
    obtain ⟨asks', hasks, hqty⟩ := numShares_eq hf p.amount_positive.le (hunit.trans hleft)
    obtain rfl : asks = asks' := SnapshotRead.asks.inj hasks
    rw [hrem, round8_max_zero hunit] at hleft
    exact ⟨limit, r.bestAsk, asks, hlimit, hbest, hle, rfl, hqty ▸ hshares, hleft⟩
  · rintro ⟨limit', best', asks', hlimit', -, -, hasks, hshares, hleft⟩
    obtain rfl : asks = asks' := SnapshotRead.asks.inj hasks
    obtain rfl : limit = limit' := Option.some.inj (hlimit.symm.trans hlimit')
    rw [← round8_max_zero hunit, ← hrem] at hleft
    obtain ⟨asks', hasks, hqty⟩ := numShares_eq hf p.amount_positive.le (hunit.trans hleft)
    obtain rfl : asks = asks' := SnapshotRead.asks.inj hasks
    exact ⟨hqty ▸ hshares, hleft⟩

/-- What the chosen path takes beyond its row. -/
theorem choosePath_overdebit_iff {d : Draft k} (hbal : r.balance = r.bot.balance - p.amount)
    (hgrid : r.balance ∈ grid 8) (hamount : p.amount ∈ grid 8)
    (hbest : snapshotBestAsk first = some r.bestAsk) (h : choosePath now r p second k = .ok d) :
    |d.overdebit r.bot| ≤ 1 / 10 ^ 8 ↔ ¬ LeavesBudget p first second := by
  have hunit : (0 : ℚ) ≤ 1 / 10 ^ 8 := by positivity
  unfold choosePath at h
  cases hlimit : p.limitPrice with
  | none =>
    rw [hlimit] at h
    obtain ⟨avg, shares, levels, hf, rfl⟩ := marketOrder_ok h
    have hfee := takerFeeFromLevels_nonneg (fillMarket_nonneg hf)
    refine iff_of_true (marketDraft_overdebit hbal hgrid hfee) ?_
    rintro ⟨limit, -, -, hsome, -⟩
    rw [hlimit] at hsome
    cases hsome
  | some limit =>
    rw [hlimit] at h
    dsimp only at h
    by_cases hle : r.bestAsk ≤ limit
    · rw [if_pos hle] at h
      obtain ⟨f, hf, rfl⟩ := aggressiveLimit_ok h
      obtain ⟨_, -, hrem⟩ := remainingBudget_eq hf p.amount_positive.le
      have hrem_grid : f.remainingBudget ∈ grid 8 := hrem ▸ roundTo_mem_grid _ _
      have hrem_nonneg : 0 ≤ f.remainingBudget := hrem ▸ roundTo_nonneg (le_max_left _ _)
      rw [aggressiveDraft_overdebit hbal hgrid hamount hrem_grid (limitFill_fee_nonneg hf),
        ← aggressive_over_iff hlimit hbest hle hf]
      by_cases hfilled : 0 < f.numShares
      · rw [if_pos hfilled, abs_of_nonneg hrem_nonneg, not_and, not_lt]
        exact ⟨fun h _ => h, fun h => h hfilled⟩
      · rw [if_neg hfilled, abs_zero]
        exact iff_of_true hunit fun h => hfilled h.1
    · rw [if_neg hle] at h
      cases h
      rw [passiveLimit_overdebit hbal, abs_zero]
      refine iff_of_true hunit ?_
      rintro ⟨limit', best', -, hlimit', hbest', hle', -⟩
      rw [hlimit] at hlimit'
      rw [hbest] at hbest'
      cases hlimit'
      cases hbest'
      exact hle hle'

/-! ## The balance after the commit -/

/-- The balance of the bot went down by the amount and the fee of the row, up to one unit. -/
def Created.Conserves (bot : Bot) (c : Created) : Prop :=
  ∃ after ∈ c.db.bots.get bot.botName,
    |bot.balance - after.balance - (c.bo.amount + c.bo.fee)| ≤ 1 / 10 ^ 8

instance (bot : Bot) (c : Created) : Decidable (c.Conserves bot) := by
  unfold Created.Conserves
  infer_instance

variable {db : Database} {apiKey : String} {bot : Bot} {queueUp : Bool}

theorem queuedRow_amount_fee (bo : BinaryOption)
    (queue : Option (QueuePayload × Option TraceAction)) :
    (queuedRow bo queueUp queue).amount + (queuedRow bo queueUp queue).fee =
      bo.amount + bo.fee := by
  unfold queuedRow
  split <;> rfl

theorem commitDraft_conserves_iff {id : db.FreshId} {d : Draft id.val}
    (hbot : db.botByKey apiKey = some bot) :
    (commitDraft db bot queueUp id d).Conserves bot ↔ |d.overdebit bot| ≤ 1 / 10 ^ 8 := by
  have hget : db.bots.get bot.botName = some bot :=
    Table.get_of_mem (List.mem_of_find?_eq_some hbot)
  have hafter : (db.bots.put { bot with balance := d.balance }).get bot.botName =
      some { bot with balance := d.balance } :=
    Table.get_put_self (a := { bot with balance := d.balance }) hget
  unfold Created.Conserves Draft.overdebit
  rw [show (commitDraft db bot queueUp id d).db.bots = db.bots.put { bot with balance := d.balance }
    from rfl, hafter]
  simp only [Option.mem_def, Option.some.injEq, exists_eq_left']
  rw [show (commitDraft db bot queueUp id d).bo = queuedRow d.row queueUp d.queue from rfl,
    queuedRow_amount_fee]

/-- **Creating an order conserves money** exactly when it does not leave some of its budget. -/
theorem createBo_conserves_iff {id : db.FreshId} {c : Created}
    (hbot : db.botByKey apiKey = some bot) (hbalance : bot.balance ∈ grid 8)
    (hamount : p.amount ∈ grid 8)
    (h : createBo now db apiKey p first second queueUp id = .ok c) :
    c.Conserves bot ↔ ¬ LeavesBudget p first second := by
  obtain ⟨r, d, hr, hd, rfl⟩ := createBo_ok h
  obtain ⟨hbot', hdebit, hbest⟩ := admitRequest_ok hr
  obtain rfl : bot = r.bot := Option.some.inj (hbot.symm.trans hbot')
  rw [round8_sub hbalance hamount] at hdebit
  rw [commitDraft_conserves_iff hbot]
  exact choosePath_overdebit_iff hdebit (hdebit ▸ sub_mem hbalance hamount) hamount hbest hd

end

theorem createBo_conserves_iff_limit : ∃ c, limitOnThinAsks = .ok c ∧
    (c.Conserves oneBot ↔ ¬ LeavesBudget limitRequest thinAsks thinAsks) := by
  have hok : limitOnThinAsks.isOk = true := by decide +kernel
  cases hc : limitOnThinAsks with
  | error e => rw [hc] at hok; cases hok
  | ok c =>
    exact ⟨c, rfl, createBo_conserves_iff (show _ = some oneBot by decide +kernel)
      (by decide +kernel)
      (by decide +kernel) hc⟩

/-- **The budget that is left is gone**: the row costs `4` and a fee, the bot pays `10` and the
fee. -/
theorem createBo_loses_budget : ∃ c, limitOnThinAsks = .ok c ∧ c.bo.amount = 4 ∧
    ¬ c.Conserves oneBot := by
  have hrun : (match limitOnThinAsks with
      | .ok c => decide (c.bo.amount = 4 ∧ ¬ c.Conserves oneBot)
      | .error _ => false) = true := by
    decide +kernel
  cases hc : limitOnThinAsks with
  | error e => rw [hc] at hrun; cases hrun
  | ok c => rw [hc] at hrun; exact ⟨c, rfl, of_decide_eq_true hrun⟩

end PolyArena
