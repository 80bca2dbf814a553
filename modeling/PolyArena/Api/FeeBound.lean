import Mathlib.Algebra.Group.Subgroup.Finite
import Mathlib.Data.Rat.Floor
import Mathlib.Tactic.Linarith
import Mathlib.Tactic.Positivity
import Mathlib.Tactic.FieldSimp
import Mathlib.Tactic.NormNum
import PolyArena.Api.Conservation
import PolyArena.Api.FillOrKill

/-!
# The fee pre-check

`create_bo` asks that the bot can pay `estimate_max_taker_fee(amount)` on top of the amount: the fee
when everything is bought at `0.50`, a part `1/32` of the amount.  What a level costs in fees, as a
part of what it costs, is `p (1 - p)² / 4`, which is largest at one third.

1. `surcharge`: what a level costs in fees above `1/32` of its cost, times 32.  It is positive
   between `(3 - √5) / 4` and `1/2` (`surcharge_pos_iff`).
2. `exactTakerFee_le_iff`: the fee is within the estimate exactly when the surcharges are within
   what the levels leave of the amount.  `takerFee_close` and `estimate_close` bound what the
   rounding does, and `takerFee_le_estimate` takes it into the condition.
3. `balance_createBo`: the balance that an accepted order leaves.
4. `fee_precheck_iff` puts this together.
-/

namespace PolyArena

open Rounding

/-! ## The fee curve -/

/-- The fee of a level before it is rounded. -/
def FillLevel.exactFee (lv : FillLevel) : ℚ :=
  lv.qty * FEE_RATE * (lv.price * (1 - lv.price)) ^ EXPONENT

/-- The fee above `1/32` of the cost, times 32. -/
def FillLevel.surcharge (lv : FillLevel) : ℚ :=
  lv.qty * lv.price * ((2 * lv.price - 1) * (4 * lv.price ^ 2 - 6 * lv.price + 1))

def exactTakerFee (levels : List FillLevel) : ℚ := (levels.map FillLevel.exactFee).sum

def surcharge (levels : List FillLevel) : ℚ := (levels.map FillLevel.surcharge).sum

/-- What the levels cost. -/
def levelsCost (levels : List FillLevel) : ℚ := (levels.map fun lv => lv.qty * lv.price).sum

/-- The estimate before it is rounded. -/
def exactMaxTakerFee (amount : ℚ) : ℚ :=
  amount / (1 / 2) * FEE_RATE * (1 / 2 * (1 - 1 / 2)) ^ EXPONENT

theorem exactMaxTakerFee_eq (amount : ℚ) : exactMaxTakerFee amount = amount / 32 := by
  unfold exactMaxTakerFee FEE_RATE EXPONENT
  ring

theorem exactFee_eq (lv : FillLevel) : 32 * lv.exactFee = lv.qty * lv.price + lv.surcharge := by
  unfold FillLevel.exactFee FillLevel.surcharge FEE_RATE EXPONENT
  ring

/-- **Where the estimate is too low**: a level costs more than its part between `(3 - √5) / 4`, the
smaller root of `4 p² - 6 p + 1`, and `1/2`. -/
theorem surcharge_pos_iff {lv : FillLevel} (hqty : 0 < lv.qty)
    (hprice : 0 < lv.price ∧ lv.price < 1) :
    0 < lv.surcharge ↔ 4 * lv.price ^ 2 - 6 * lv.price + 1 < 0 ∧ lv.price < 1 / 2 := by
  unfold FillLevel.surcharge
  rw [mul_pos_iff_of_pos_left (mul_pos hqty hprice.1)]
  constructor
  · intro hpos
    rcases mul_pos_iff.mp hpos with ⟨hhalf, hroot⟩ | ⟨hhalf, hroot⟩
    · -- above one half the quadratic is negative
      nlinarith
    · exact ⟨hroot, by linarith⟩
  · rintro ⟨hroot, hhalf⟩
    exact mul_pos_of_neg_of_neg (by linarith) hroot

theorem exactTakerFee_eq (levels : List FillLevel) :
    32 * exactTakerFee levels = levelsCost levels + surcharge levels := by
  unfold exactTakerFee levelsCost surcharge
  induction levels with
  | nil => simp
  | cons lv levels ih =>
    simp only [List.map_cons, List.sum_cons]
    rw [mul_add, ih, exactFee_eq]
    ring

/-- **When the fee is within the estimate**, rounding apart. -/
theorem exactTakerFee_le_iff (levels : List FillLevel) (amount : ℚ) :
    exactTakerFee levels ≤ exactMaxTakerFee amount ↔
      surcharge levels ≤ amount - levelsCost levels := by
  have heq := exactTakerFee_eq levels
  rw [exactMaxTakerFee_eq]
  constructor <;> intro h <;> linarith

/-! ## Rounding -/

theorem nominalFee_close (lv : FillLevel) :
    |nominalFeePerLevel lv.qty lv.price - lv.exactFee| ≤ 1 / (2 * 10 ^ 8) :=
  abs_roundTo_sub_le 8 _

theorem sum_nominalFee_mem_grid (levels : List FillLevel) :
    (levels.map fun lv => nominalFeePerLevel lv.qty lv.price).sum ∈ grid 8 := by
  refine AddSubgroup.list_sum_mem _ fun x hx => ?_
  obtain ⟨lv, -, rfl⟩ := List.mem_map.mp hx
  exact roundTo_mem_grid _ _

/-- The fee that is charged is the exact one up to half a unit for each level. -/
theorem takerFee_close (levels : List FillLevel) :
    |takerFeeFromLevels levels - exactTakerFee levels| ≤ levels.length / (2 * 10 ^ 8) := by
  unfold takerFeeFromLevels
  rw [show round8 _ = _ from roundTo_of_mem (sum_nominalFee_mem_grid levels)]
  unfold exactTakerFee
  induction levels with
  | nil => simp
  | cons lv levels ih =>
    simp only [List.map_cons, List.sum_cons, List.length_cons]
    calc |nominalFeePerLevel lv.qty lv.price +
            (levels.map fun lv => nominalFeePerLevel lv.qty lv.price).sum -
          (lv.exactFee + (levels.map FillLevel.exactFee).sum)|
        = |(nominalFeePerLevel lv.qty lv.price - lv.exactFee) +
            ((levels.map fun lv => nominalFeePerLevel lv.qty lv.price).sum -
              (levels.map FillLevel.exactFee).sum)| := by ring_nf
      _ ≤ 1 / (2 * 10 ^ 8) + levels.length / (2 * 10 ^ 8) :=
        (abs_add_le _ _).trans (add_le_add (nominalFee_close lv) ih)
      _ = ((levels.length + 1 : ℕ) : ℚ) / (2 * 10 ^ 8) := by push_cast; ring

theorem estimate_mem_grid (amount : ℚ) : estimateMaxTakerFee amount ∈ grid 8 := roundTo_mem_grid _ _

theorem estimate_close (amount : ℚ) :
    |estimateMaxTakerFee amount - exactMaxTakerFee amount| ≤ 1 / (2 * 10 ^ 8) := by
  have hnominal : nominalFeePerLevel (amount / (1 / 2)) (1 / 2) ∈ grid 8 := roundTo_mem_grid _ _
  unfold estimateMaxTakerFee
  rw [show round8 _ = _ from roundTo_of_mem hnominal]
  exact abs_roundTo_sub_le 8 _

/-- Within the estimate, a fee is at most half a unit for each level, and one half, above it. -/
theorem takerFee_le_of_surcharge {levels : List FillLevel} {amount : ℚ}
    (h : surcharge levels ≤ amount - levelsCost levels) :
    takerFeeFromLevels levels ≤
      estimateMaxTakerFee amount + (levels.length + 1) / (2 * 10 ^ 8) := by
  have hexact := (exactTakerFee_le_iff levels amount).mpr h
  have hfee := (abs_le.mp (takerFee_close levels)).2
  have hest := (abs_le.mp (estimate_close amount)).1
  have hsplit : ((levels.length : ℚ) + 1) / (2 * 10 ^ 8) =
      levels.length / (2 * 10 ^ 8) + 1 / (2 * 10 ^ 8) := by ring
  linarith

/-- The fees of the levels, rounded one by one, by the exact fee and half a unit for each level but
one. -/
theorem sum_nominalFee_le {levels : List FillLevel} (hne : levels ≠ []) :
    (levels.map fun lv => nominalFeePerLevel lv.qty lv.price).sum ≤
      round8 (exactTakerFee levels + (levels.length - 1) / (2 * 10 ^ 8)) := by
  induction levels with
  | nil => exact absurd rfl hne
  | cons lv rest ih =>
    by_cases hrest : rest = []
    · subst hrest
      simp [exactTakerFee, nominalFeePerLevel, FillLevel.exactFee]
    · have hsum : exactTakerFee (lv :: rest) + ((lv :: rest).length - 1) / (2 * 10 ^ 8) =
          lv.exactFee + (exactTakerFee rest + (rest.length - 1) / (2 * 10 ^ 8)) +
            1 / (2 * 10 ^ 8) := by
        unfold exactTakerFee
        rw [List.map_cons, List.sum_cons, List.length_cons]
        push_cast
        ring
      rw [List.map_cons, List.sum_cons, hsum]
      exact (add_le_add_right (ih hrest) _).trans (roundTo_add_le 8 _ _)

/-- **When the rounded fee is within the rounded estimate**: each level after the first needs half a
unit. -/
theorem takerFee_le_estimate {levels : List FillLevel} {amount : ℚ} (hne : levels ≠ [])
    (h : surcharge levels + 16 * (levels.length - 1) / 10 ^ 8 ≤ amount - levelsCost levels) :
    takerFeeFromLevels levels ≤ estimateMaxTakerFee amount := by
  have hexact := exactTakerFee_eq levels
  have hestimate : estimateMaxTakerFee amount = round8 (exactMaxTakerFee amount) :=
    roundTo_of_mem (roundTo_mem_grid _ _)
  have hle : exactTakerFee levels + (levels.length - 1) / (2 * 10 ^ 8) ≤
      exactMaxTakerFee amount := by
    rw [exactMaxTakerFee_eq]
    linarith
  rw [hestimate]
  unfold takerFeeFromLevels
  rw [show round8 _ = _ from roundTo_of_mem (sum_nominalFee_mem_grid levels)]
  exact (sum_nominalFee_le hne).trans (roundTo_mono hle)

/-! ## What an order leaves of the balance -/

/-- What the bot has before the fee is charged: the amount is taken off, and a MARKET order gives
back what it did not spend. -/
def beforeFee (balance : ℚ) (p : BOCreate) (levels : List FillLevel) : ℚ :=
  let debited := round8 (balance - p.amount)
  let spent := (levels.map FillLevel.cost).sum
  if p.limitPrice.isNone ∧ spent < p.amount
  then round8 (debited + round8 (p.amount - spent)) else debited

section

variable {now : Time} {db : Database} {apiKey : String} {p : BOCreate} {first second : SnapshotRead}
  {queueUp : Bool} {bot : Bot} {r : Admitted} {k : ℕ} {limit : ℚ} {d : Draft k}
  {levels : List FillLevel} {balance : ℚ}

theorem beforeFee_mem_grid : beforeFee balance p levels ∈ grid 8 := by
  unfold beforeFee
  dsimp only
  split <;> exact roundTo_mem_grid _ _

theorem debited_le_beforeFee : round8 (balance - p.amount) ≤ beforeFee balance p levels := by
  unfold beforeFee
  dsimp only
  split
  · next h =>
    have hback : 0 ≤ round8 (p.amount - (levels.map FillLevel.cost).sum) :=
      roundTo_nonneg (sub_nonneg.mpr h.2.le)
    exact le_roundTo_of_mem (roundTo_mem_grid _ _) (by linarith)
  · exact le_rfl

/-- The levels that the request takes from the second snapshot: a MARKET order those of its walk,
and a LIMIT order those at up to its limit when the first snapshot has one. -/
def BOCreate.takenLevels (p : BOCreate) (first second : SnapshotRead) : List FillLevel :=
  match p.limitPrice with
  | none =>
    ((fillMarketFromSnapshot second p.amount p.slippageTolerance (p.orderType.getD .fak)
      p.ceilingPrice).toOption.map fun f => f.2.2).getD []
  | some limit =>
    if ∃ bestAsk ∈ snapshotBestAsk first, bestAsk ≤ limit then
      ((fillLimitFromSnapshot second p.amount limit).toOption.map LimitFill.walkLevels).getD []
    else []

theorem entryLevels_choosePath (hbest : snapshotBestAsk first = some r.bestAsk)
    (h : choosePath now r p second k = .ok d) : d.row.entryLevels = p.takenLevels first second := by
  unfold choosePath at h
  unfold BOCreate.takenLevels
  cases hlimit : p.limitPrice with
  | none =>
    rw [hlimit] at h
    obtain ⟨avg, shares, levels, hfill, rfl⟩ := marketOrder_ok h
    simp only [hfill, Except.toOption, Option.map_some, Option.getD_some]
    rfl
  | some limit =>
    rw [hlimit] at h
    dsimp only at h ⊢
    split at h
    · next hcross =>
      obtain ⟨f, hfill, rfl⟩ := aggressiveLimit_ok h
      rw [if_pos ⟨r.bestAsk, hbest, hcross⟩, entryLevels_aggressiveDraft, hfill]
      rfl
    · next hcross =>
      cases h
      rw [if_neg]
      · rfl
      · rintro ⟨bestAsk, hmem, hle⟩
        obtain rfl : r.bestAsk = bestAsk := Option.some.inj (hbest.symm.trans hmem)
        exact hcross hle

/-- The levels that an accepted order took. -/
theorem entryLevels_createBo {id : db.FreshId} {c : Created}
    (h : createBo now db apiKey p first second queueUp id = .ok c) :
    c.bo.entryLevels = p.takenLevels first second := by
  obtain ⟨r, d, hr, hd, rfl⟩ := createBo_ok h
  rw [entryLevels_commitDraft]
  exact entryLevels_choosePath (admitRequest_ok hr).2.2 hd

/-- The pre-check, after the amount was debited. -/
theorem admitBot_pays (h : admitBot db apiKey p = .ok bot) :
    (if p.limitPrice.isNone then estimateMaxTakerFee p.amount else 0) ≤
      round8 (bot.balance - p.amount) := by
  unfold admitBot at h
  cases hb : db.botByKey apiKey with
  | none => rw [hb] at h; cases h
  | some b =>
    simp only [hb] at h
    split_ifs at h ⊢ with hstatus hamount hlimit hfee hfee
    all_goals cases h
    · exact le_roundTo_of_mem (estimate_mem_grid _) (by linarith)
    · exact roundTo_nonneg (by linarith)

theorem aggressiveLimit_pays (h : aggressiveLimit now r p second k limit = .ok d) :
    estimateMaxTakerFee p.amount ≤ r.balance := by
  unfold aggressiveLimit at h
  split at h
  · cases h
  · next hpays => exact not_lt.mp hpays

/-- Charging the fee of levels that are not negative. -/
theorem chargeFee_beforeFee (hlevels : ∀ lv ∈ levels, 0 ≤ lv.qty) :
    chargeFee (beforeFee balance p levels) (takerFeeFromLevels levels) =
      beforeFee balance p levels - takerFeeFromLevels levels :=
  chargeFee_eq beforeFee_mem_grid (takerFeeFromLevels_mem_grid _)
    (takerFeeFromLevels_nonneg hlevels)

/-- **What a path leaves**, and that the pre-check covers the estimate of what it may charge. -/
theorem choosePath_afterFee (hdebit : r.balance = round8 (r.bot.balance - p.amount))
    (hpays : p.limitPrice = none → estimateMaxTakerFee p.amount ≤ r.balance)
    (h : choosePath now r p second k = .ok d) :
    d.balance = beforeFee r.bot.balance p d.row.entryLevels - takerFeeFromLevels d.row.entryLevels ∧
      (d.row.entryLevels ≠ [] →
        estimateMaxTakerFee p.amount ≤ beforeFee r.bot.balance p d.row.entryLevels) := by
  have hbefore : ∀ levels, estimateMaxTakerFee p.amount ≤ r.balance →
      estimateMaxTakerFee p.amount ≤ beforeFee r.bot.balance p levels := fun levels hle =>
    hle.trans (hdebit.le.trans debited_le_beforeFee)
  unfold choosePath at h
  cases hlimit : p.limitPrice with
  | none =>
    rw [hlimit] at h
    obtain ⟨avg, shares, levels, hfill, rfl⟩ := marketOrder_ok h
    refine ⟨?_, fun _ => hbefore _ (hpays hlimit)⟩
    show chargeFee _ (takerFeeFromLevels levels) =
      beforeFee r.bot.balance p levels - takerFeeFromLevels levels
    rw [← chargeFee_beforeFee (fillMarket_nonneg hfill)]
    unfold beforeFee
    simp only [hlimit, Option.isNone_none, true_and, ← hdebit]
  | some limit =>
    rw [hlimit] at h
    have hsame : ∀ levels, beforeFee r.bot.balance p levels = r.balance := fun levels => by
      unfold beforeFee
      simp only [hlimit, Option.isNone_some, Bool.false_eq_true, false_and, if_false, hdebit]
    dsimp only at h
    split at h
    · refine ⟨?_, fun _ => hbefore _ (aggressiveLimit_pays h)⟩
      obtain ⟨f, hfill, rfl⟩ := aggressiveLimit_ok h
      obtain ⟨asks, -, hlevels, -, -⟩ := fillLimit_ok hfill
      rw [entryLevels_aggressiveDraft,
        ← chargeFee_beforeFee (hlevels ▸ (walkAsks_ok _ _ _).2), hsame]
      rfl
    · cases h
      have hnil : (passiveLimit now r p k limit).row.entryLevels = [] := rfl
      refine ⟨?_, fun hne => absurd hnil hne⟩
      rw [hnil, hsame, show takerFeeFromLevels [] = 0 from roundTo_zero 8, sub_zero]
      rfl

/-- **The balance after an accepted order**: what was there before the fee, less the fee. -/
theorem balance_createBo {id : db.FreshId} {c : Created}
    (h : createBo now db apiKey p first second queueUp id = .ok c)
    (hbot : db.botByKey apiKey = some bot) :
    ∃ after, c.db.bots.get bot.botName = some after ∧
      after.balance =
        beforeFee bot.balance p c.bo.entryLevels - takerFeeFromLevels c.bo.entryLevels ∧
      0 ≤ beforeFee bot.balance p c.bo.entryLevels ∧
      (c.bo.entryLevels ≠ [] →
        estimateMaxTakerFee p.amount ≤ beforeFee bot.balance p c.bo.entryLevels) := by
  obtain ⟨r, d, hr, hd, rfl⟩ := createBo_ok h
  obtain ⟨hbot', hdebit, -⟩ := admitRequest_ok hr
  obtain rfl : bot = r.bot := Option.some.inj (hbot.symm.trans hbot')
  have hpays : (if p.limitPrice.isNone then estimateMaxTakerFee p.amount else 0) ≤ r.balance := by
    obtain ⟨bot', hadmit, -⟩ := ok_of_bind (show (admitBot db apiKey p >>= _) = .ok r from hr)
    obtain rfl : r.bot = bot' := Option.some.inj (hbot.symm.trans (admitBot_ok hadmit))
    exact (admitBot_pays hadmit).trans hdebit.ge
  obtain ⟨hbalance, hest⟩ := choosePath_afterFee hdebit
    (fun hnone => by simpa [hnone] using hpays) hd
  have hnonneg : 0 ≤ r.balance := by
    refine le_trans ?_ hpays
    split
    · exact roundTo_nonneg (roundTo_nonneg (by
        have := p.amount_positive
        unfold FEE_RATE EXPONENT
        positivity))
    · exact le_rfl
  have hget : db.bots.get r.bot.botName = some r.bot :=
    Table.get_of_mem (List.mem_of_find?_eq_some hbot)
  have hafter : (db.bots.put { r.bot with balance := d.balance }).get r.bot.botName =
      some { r.bot with balance := d.balance } :=
    Table.get_put_self (a := { r.bot with balance := d.balance }) hget
  rw [entryLevels_commitDraft]
  exact ⟨_, hafter, hbalance, hnonneg.trans (hdebit.le.trans debited_le_beforeFee), hest⟩

end

/-- **When the pre-check bounds the fee**: rounding apart, exactly when the surcharges of the levels
are within what the levels leave of the amount.  With half a unit for each level after the first,
for what the rounding adds, the fee is within the estimate, and an order that passes the check
leaves a balance that is not negative. -/
theorem fee_precheck_iff (levels : List FillLevel) (amount : ℚ) :
    (exactTakerFee levels ≤ exactMaxTakerFee amount ↔
      surcharge levels ≤ amount - levelsCost levels) ∧
    |takerFeeFromLevels levels - exactTakerFee levels| ≤ levels.length / (2 * 10 ^ 8) ∧
    |estimateMaxTakerFee amount - exactMaxTakerFee amount| ≤ 1 / (2 * 10 ^ 8) ∧
    (levels ≠ [] → surcharge levels + 16 * (levels.length - 1) / 10 ^ 8 ≤
      amount - levelsCost levels →
      takerFeeFromLevels levels ≤ estimateMaxTakerFee amount) ∧
    ∀ (now : Time) (db : Database) (apiKey : String) (p : BOCreate) (first second : SnapshotRead)
      (queueUp : Bool) (id : db.FreshId) (c : Created) (bot : Bot),
      createBo now db apiKey p first second queueUp id = .ok c → db.botByKey apiKey = some bot →
      p.amount = amount → c.bo.entryLevels = levels →
        ∃ after, c.db.bots.get bot.botName = some after ∧
        (0 ≤ after.balance ↔ takerFeeFromLevels levels ≤ beforeFee bot.balance p levels) ∧
        (surcharge levels + 16 * (levels.length - 1) / 10 ^ 8 ≤ amount - levelsCost levels →
          0 ≤ after.balance) ∧
        (surcharge levels ≤ amount - levelsCost levels →
          -((levels.length + 1) / (2 * 10 ^ 8)) ≤ after.balance) := by
  refine ⟨exactTakerFee_le_iff levels amount, takerFee_close levels, estimate_close amount,
    takerFee_le_estimate, ?_⟩
  rintro now db apiKey p first second queueUp id c bot hok hbot rfl rfl
  obtain ⟨after, hget, hbalance, hnonneg, hest⟩ := balance_createBo hok hbot
  have hempty : c.bo.entryLevels = [] → 0 ≤ after.balance := by
    intro hnil
    have hzero : takerFeeFromLevels [] = 0 := roundTo_zero 8
    rw [hbalance, hnil, hzero, sub_zero]
    rwa [hnil] at hnonneg
  refine ⟨after, hget, by rw [hbalance, sub_nonneg], fun hwithin => ?_, fun hwithin => ?_⟩
  · by_cases hnil : c.bo.entryLevels = []
    · exact hempty hnil
    · rw [hbalance, sub_nonneg]
      exact (takerFee_le_estimate hnil hwithin).trans (hest hnil)
  · by_cases hnil : c.bo.entryLevels = []
    · refine le_trans ?_ (hempty hnil)
      rw [hnil]
      norm_num
    · have hfee := takerFee_le_of_surcharge hwithin
      rw [hbalance]
      linarith [hest hnil]

/-! ## On samples -/

/-- Ten shares at `0.90` of an order of ten: the condition holds. -/
theorem fee_precheck_dearAsks : ∃ c after, fokOn dearAsks = .ok c ∧ c.bo.entryLevels ≠ [] ∧
    c.db.bots.get oneBot.botName = some after ∧ 0 ≤ after.balance := by
  have hrun : (match fokOn dearAsks with
      | .ok c => decide (c.bo.entryLevels ≠ [] ∧
          surcharge c.bo.entryLevels + 16 * (c.bo.entryLevels.length - 1) / 10 ^ 8 ≤
            fokRequest.amount - levelsCost c.bo.entryLevels)
      | .error _ => false) = true := by
    decide +kernel
  cases hc : fokOn dearAsks with
  | error e => rw [hc] at hrun; cases hrun
  | ok c =>
    rw [hc] at hrun
    obtain ⟨hlevels, hwithin⟩ := of_decide_eq_true hrun
    obtain ⟨-, -, -, -, horders⟩ := fee_precheck_iff c.bo.entryLevels fokRequest.amount
    obtain ⟨after, hget, -, hnonneg, -⟩ :=
      horders _ _ _ _ _ _ _ _ c oneBot hc (by decide +kernel) rfl rfl
    exact ⟨c, after, rfl, hlevels, hget, hnonneg hwithin⟩

/-- One bot that can pay `10` and the estimated fee, exactly. -/
def tightDb : Database where
  bots := ⟨[{ oneBot with balance := 10 + estimateMaxTakerFee 10 }], by simp⟩
  orders := ⟨[], List.nodup_nil⟩
  users := ⟨[], List.nodup_nil⟩

/-- What `create_bo` does with a MARKET order of `10` from it, at `0.40`. -/
def tightOnDeepAsks : Except HttpDetail Created :=
  createBo 1000 tightDb "k" fokRequest deepAsks deepAsks true ⟨1, by simp [tightDb]⟩

/-- **The estimate is too low at `0.40`**: the fee is `0.36` and the estimate `0.3125`, and an order
that passes the check leaves a negative balance. -/
theorem fee_exceeds_estimate :
    (¬ ∀ (levels : List FillLevel) (amount : ℚ),
      (∀ lv ∈ levels, (0 < lv.price ∧ lv.price < 1) ∧ 0 < lv.qty) → levelsCost levels ≤ amount →
        takerFeeFromLevels levels ≤ estimateMaxTakerFee amount) ∧
    ¬ ∀ (now : Time) (db : Database) (apiKey : String) (p : BOCreate) (first second : SnapshotRead)
      (queueUp : Bool) (id : db.FreshId) (c : Created) (bot : Bot),
      createBo now db apiKey p first second queueUp id = .ok c → db.botByKey apiKey = some bot →
        ∀ after ∈ c.db.bots.get bot.botName, 0 ≤ after.balance := by
  constructor
  · intro hall
    have hfee := hall [⟨2 / 5, 25, 10⟩] 10 (by decide +kernel) (by decide +kernel)
    revert hfee
    decide +kernel
  · intro hall
    have hrun : (match tightOnDeepAsks with
        | .ok c => decide (∃ after ∈ c.db.bots.get oneBot.botName, after.balance < 0)
        | .error _ => false) = true := by
      decide +kernel
    cases hc : tightOnDeepAsks with
    | error e => rw [hc] at hrun; cases hrun
    | ok c =>
      rw [hc] at hrun
      obtain ⟨after, hget, hneg⟩ := of_decide_eq_true hrun
      exact absurd (hall _ _ _ _ _ _ _ _ c _ hc rfl after hget) (not_le.mpr hneg)

end PolyArena
