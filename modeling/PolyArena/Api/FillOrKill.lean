import PolyArena.Api.CreateBo

/-!
# Fill-Or-Kill

A FOK order should spend its whole amount at once or be refused.  `_fill_market_from_snapshot`
checks this only when the order has a ceiling, and the LIMIT paths do not read `order_type` at all.

1. `Created.immediateCost`: what the walk levels of the new row cost.
2. One lemma for each path says what was spent: `marketOrder_cost`, `aggressiveLimit_cost`,
   `passiveLimit_cost`.
3. `fill_or_kill_iff`: an accepted FOK order spent its amount exactly when its snapshot absorbs it
   (`Absorbed`).
-/

namespace PolyArena

open Rounding

/-- The levels that the row records of its entry. -/
def BinaryOption.entryLevels (bo : BinaryOption) : List FillLevel :=
  (bo.walkPrices.map WalkPrices.entry).getD []

/-- What the immediate fill spent. -/
def Created.immediateCost (c : Created) : ℚ := (c.bo.entryLevels.map FillLevel.cost).sum

/-- The request spends its amount at once: a MARKET order with a ceiling, for it is refused
otherwise, one without when enough is on offer under its slippage cap, and a LIMIT order when enough
is on offer at up to its limit and the best ask is not above it. -/
def Absorbed (p : BOCreate) (first second : SnapshotRead) : Prop :=
  match p.limitPrice with
  | some limit =>
    (∃ best ∈ snapshotBestAsk first, best ≤ limit) ∧
      ∃ asks, second = .asks asks ∧ p.amount ≤ offeredCost limit asks
  | none =>
    p.ceilingPrice.isSome ∨ ∃ asks, second = .asks asks ∧
      p.amount ≤ offeredCost (marketMaxPrice asks p.slippageTolerance p.ceilingPrice) asks

section

variable {now : Time} {db : Database} {apiKey : String} {p : BOCreate} {first second : SnapshotRead}
  {queueUp : Bool} {r : Admitted} {k : ℕ} {limit : ℚ} {d : Draft k} {asks : List AskLevel}

/-- A walk spends the whole amount exactly when that much is on offer. -/
theorem walkAsks_spends (maxPrice : ℚ) (asks : List AskLevel) :
    (walkAsks maxPrice p.amount asks {}).totalCost = p.amount ↔
      p.amount ≤ offeredCost maxPrice asks := by
  rw [walkAsks_cost _ _ _ _ p.amount_positive.le, zero_add, min_eq_left_iff]

/-- A FOK order with a ceiling that is not refused spent its amount. -/
theorem spends_of_ceiling {maxPrice : ℚ} (hceiling : p.ceilingPrice.isSome = true)
    (hok : marketRejection .fok p.ceilingPrice p.amount
      (walkAsks maxPrice p.amount asks {}) = none) :
    p.amount ≤ offeredCost maxPrice asks := by
  by_contra hless
  rw [not_le] at hless
  have hcost : (walkAsks maxPrice p.amount asks {}).totalCost < p.amount := by
    rw [walkAsks_cost _ _ _ _ p.amount_positive.le, zero_add]
    exact min_lt_of_right_lt hless
  have hqty : 0 ≤ (walkAsks maxPrice p.amount asks {}).totalQty := by
    rw [walkAsks_qty _ _ _ _ (by simpa using hless), zero_add]
    exact offeredQty_nonneg
  unfold marketRejection at hok
  rcases hqty.eq_or_lt with hzero | hpos
  · rw [if_neg (fun h => absurd hzero h.2.2.2.ne), if_pos hzero.symm] at hok
    cases hok
  · rw [if_pos ⟨rfl, hceiling, hcost, hpos⟩] at hok
    cases hok

/-- A MARKET fill reports the levels of one walk that was not refused. -/
theorem fillMarket_ok {amount avgPrice numShares : ℚ} {slippage ceiling : Option ℚ}
    {orderType : TimeInForce} {levels : List FillLevel}
    (h : fillMarketFromSnapshot second amount slippage orderType ceiling =
      .ok (avgPrice, numShares, levels)) :
    ∃ asks, second = .asks asks ∧
      levels = (walkAsks (marketMaxPrice asks slippage ceiling) amount asks {}).walkLevels ∧
      marketRejection orderType ceiling amount
        (walkAsks (marketMaxPrice asks slippage ceiling) amount asks {}) = none := by
  unfold fillMarketFromSnapshot at h
  obtain ⟨asks, hasks, h⟩ := ok_of_bind h
  refine ⟨asks, levels_ok hasks, ?_⟩
  dsimp only at h
  split at h
  · cases h
  · next hnone =>
    cases h
    exact ⟨rfl, hnone⟩

/-! ## What each path spent -/

/-- What the levels of a draft cost. -/
def Draft.immediateCost (d : Draft k) : ℚ := (d.row.entryLevels.map FillLevel.cost).sum

theorem marketOrder_cost (hfok : p.orderType = some .fok)
    (h : marketOrder now r p second k = .ok d) : d.immediateCost = p.amount ↔
      p.ceilingPrice.isSome ∨ ∃ asks, second = .asks asks ∧
        p.amount ≤ offeredCost (marketMaxPrice asks p.slippageTolerance p.ceilingPrice) asks := by
  obtain ⟨avg, shares, levels, hfill, rfl⟩ := marketOrder_ok h
  obtain ⟨asks, rfl, rfl, hok⟩ := fillMarket_ok hfill
  rw [hfok, Option.getD_some] at hok
  have hcost : (marketDraft now r p k avg shares
      (walkAsks (marketMaxPrice asks p.slippageTolerance p.ceilingPrice) p.amount asks
        {}).walkLevels
      ).immediateCost =
        (walkAsks (marketMaxPrice asks p.slippageTolerance p.ceilingPrice) p.amount asks
          {}).totalCost :=
    (walkAsks_ok _ _ _).1
  rw [hcost, walkAsks_spends]
  constructor
  · exact fun hle => .inr ⟨asks, rfl, hle⟩
  · rintro (hceiling | ⟨asks', heq, hle⟩)
    · exact spends_of_ceiling hceiling hok
    · cases heq
      exact hle

@[simp] theorem entryLevels_aggressiveDraft {f : LimitFill} :
    (aggressiveDraft now r p k limit f).row.entryLevels = f.walkLevels := by
  show ((if f.walkLevels.isEmpty then none else some { entry := f.walkLevels } :
    Option WalkPrices).map WalkPrices.entry).getD [] = f.walkLevels
  cases hf : f.walkLevels with
  | nil => rfl
  | cons lv lvs => rfl

theorem aggressiveLimit_cost (h : aggressiveLimit now r p second k limit = .ok d) :
    d.immediateCost = p.amount ↔
      ∃ asks, second = .asks asks ∧ p.amount ≤ offeredCost limit asks := by
  obtain ⟨f, hfill, rfl⟩ := aggressiveLimit_ok h
  obtain ⟨asks, rfl, hlevels, -, -⟩ := fillLimit_ok hfill
  have hcost : (aggressiveDraft now r p k limit f).immediateCost =
      (walkAsks limit p.amount asks {}).totalCost := by
    rw [← (walkAsks_ok limit p.amount asks).1, ← hlevels, Draft.immediateCost,
      entryLevels_aggressiveDraft]
  rw [hcost, walkAsks_spends]
  constructor
  · exact fun hle => ⟨asks, rfl, hle⟩
  · rintro ⟨asks', heq, hle⟩
    cases heq
    exact hle

/-- A LIMIT order below the best ask spends nothing at once. -/
theorem passiveLimit_cost : (passiveLimit now r p k limit).immediateCost ≠ p.amount :=
  p.amount_positive.ne

/-! ## An accepted request -/

@[simp] theorem entryLevels_commitDraft {bot : Bot} {id : db.FreshId} {d : Draft id.val} :
    (commitDraft db bot queueUp id d).bo.entryLevels = d.row.entryLevels := by
  rw [show (commitDraft db bot queueUp id d).bo = queuedRow d.row queueUp d.queue from rfl]
  unfold queuedRow
  split <;> rfl

theorem choosePath_cost (hfok : p.orderType = some .fok)
    (hbest : snapshotBestAsk first = some r.bestAsk) (h : choosePath now r p second k = .ok d) :
    d.immediateCost = p.amount ↔ Absorbed p first second := by
  unfold choosePath at h
  unfold Absorbed
  cases hlimit : p.limitPrice with
  | none =>
    rw [hlimit] at h
    exact marketOrder_cost hfok h
  | some limit =>
    rw [hlimit] at h
    simp only [hbest, Option.mem_def, Option.some.injEq, exists_eq_left'] at h ⊢
    by_cases hle : r.bestAsk ≤ limit
    · rw [if_pos hle] at h
      rw [aggressiveLimit_cost h]
      exact ⟨fun habsorbed => ⟨hle, habsorbed⟩, And.right⟩
    · rw [if_neg hle] at h
      cases h
      exact iff_of_false passiveLimit_cost fun habsorbed => hle habsorbed.1

/-- **When a FOK order is all or nothing**: an accepted one spent its whole amount exactly when its
snapshot absorbs it. -/
theorem fill_or_kill_iff {id : db.FreshId} {c : Created} (hfok : p.orderType = some .fok)
    (h : createBo now db apiKey p first second queueUp id = .ok c) :
    c.immediateCost = p.amount ↔ Absorbed p first second := by
  obtain ⟨r, d, hr, hd, rfl⟩ := createBo_ok h
  obtain ⟨-, -, hbest⟩ := admitRequest_ok hr
  rw [Created.immediateCost, entryLevels_commitDraft]
  exact choosePath_cost hfok hbest hd

end

/-! ## On samples -/

/-- A MARKET FOK order of `10` without a ceiling. -/
def fokRequest : BOCreate :=
  { limitRequest with
    limitPrice := none
    orderType := some .fok
    limitPrice_in_range := priceInRange_none }

/-- A hundred shares at `0.40`. -/
def deepAsks : SnapshotRead := .asks [⟨2 / 5, 100, pos_two_fifths, nonneg_hundred⟩]

/-- What `create_bo` does with `fokRequest`. -/
def fokOn (asks : SnapshotRead) : Except HttpDetail Created :=
  createBo 1000 oneBotDb "k" fokRequest asks asks true ⟨1, fresh_oneBotDb⟩

theorem fill_or_kill_deepAsks : ∃ c, fokOn deepAsks = .ok c ∧ c.immediateCost = 10 := by
  have hok : (fokOn deepAsks).isOk = true := by decide +kernel
  cases hc : fokOn deepAsks with
  | error e => rw [hc] at hok; cases hok
  | ok c =>
    have hoffered : (10 : ℚ) ≤ offeredCost (marketMaxPrice [⟨2 / 5, 100, by norm_num, by norm_num⟩]
        none none) [⟨2 / 5, 100, by norm_num, by norm_num⟩] := by decide +kernel
    exact ⟨c, rfl, (fill_or_kill_iff rfl hc).mpr (.inr ⟨_, rfl, hoffered⟩)⟩

/-- **A FOK order that is filled in part**: four of its ten dollars are spent, and it is
accepted. -/
theorem fok_fills_in_part : ¬ ∀ (now : Time) (db : Database) (apiKey : String) (p : BOCreate)
    (first second : SnapshotRead) (queueUp : Bool) (id : db.FreshId) (c : Created),
    p.orderType = some .fok → createBo now db apiKey p first second queueUp id = .ok c →
      c.immediateCost = p.amount := by
  intro hall
  have hrun : (match fokOn thinAsks with
      | .ok c => decide (c.immediateCost = 4)
      | .error _ => false) = true := by
    decide +kernel
  cases hc : fokOn thinAsks with
  | error e => rw [hc] at hrun; cases hrun
  | ok c =>
    rw [hc] at hrun
    have hall := hall _ _ _ _ _ _ _ _ c rfl hc
    rw [of_decide_eq_true hrun] at hall
    revert hall
    decide +kernel

end PolyArena
