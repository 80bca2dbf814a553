import PolyArena.Handlers

/-!
# Redelivered fill messages

The streams deliver at least once: a message whose handler committed but whose acknowledgement was
lost is handled again.  A second delivery of a fill message finds one of three situations:

1. the first delivery settled the order, and the second changes nothing (`handleOrderFill_settled`);
2. the order is still pending and the message earns a rebate, which is paid again, since an entry
   fee that is not positive stays so when the rebate is taken off it;
3. the order is still pending and there is no rebate: the same values are written again.

`redelivery_harmless_iff` says exactly when the accounts agree.
-/

namespace PolyArena

open Rounding

/-- The columns of an order that a fill message touches. -/
def BinaryOption.fillFields (bo : BinaryOption) :
    Option ℚ × Option ℚ × Option ℚ × Option WalkPrices × BOResult :=
  (bo.entryFee, bo.numShares, bo.avgPrice, bo.walkPrices, bo.result)

/-- The two states agree on every balance and on the fill columns of every order. -/
def SameAccounts (db db' : Database) : Prop :=
  (∀ name, (db'.bots.get name).map Bot.balance = (db.bots.get name).map Bot.balance) ∧
    ∀ id, (db'.orders.get id).map BinaryOption.fillFields =
      (db.orders.get id).map BinaryOption.fillFields

theorem SameAccounts.refl (db : Database) : SameAccounts db db := ⟨fun _ => rfl, fun _ => rfl⟩

/-- The delivery of `m` at `now` settles the order: a late full fill whose candle is available. -/
def settlesLate (now : Time) (fetch : CandleFetch) (bo : BinaryOption) (m : FillMessage) : Bool :=
  isLateFill now bo m && (fetch bo.candleRequest).isSome

section

variable {now : Time} {fetch : CandleFetch} {db : Database} {bo : BinaryOption} {m : FillMessage}

theorem verdict_of_fills {avg n : ℚ} (c : Candle) (ha : bo.avgPrice = some avg)
    (hn : bo.numShares = some n) : ∃ r p, verdict bo c = .settled r p ∧ r ≠ .pending := by
  have hwin : ∀ (q : Prop) [Decidable q], (if q then BOResult.win else .loss) ≠ .pending := by
    intro q _
    by_cases hq : q <;> simp [hq]
  unfold verdict
  rw [ha, hn]
  cases bo.shadowExit with
  | some xe => exact ⟨_, _, rfl, hwin _⟩
  | none => exact ⟨_, _, rfl, hwin _⟩

theorem settleSingleTrade_settled (base : Database) {c : Candle} {r : BOResult} {p : ℚ}
    (hget : db.orders.get bo.id = some bo) (hv : verdict bo c = .settled r p) :
    ∃ db', settleSingleTrade base db bo c = some db' ∧
      db'.orders.get bo.id = some (settledRow bo c r p .candleSettled) := by
  unfold settleSingleTrade
  rw [hv]
  refine ⟨_, rfl, ?_⟩
  rw [recordUserBalance_orders, pauseIfBroke_orders, refundBot_orders, setOrder_orders]
  exact Table.get_put_self (a := settledRow bo c r p .candleSettled) hget

theorem isLateFill_filledRow : isLateFill now (filledRow bo m) m = isLateFill now bo m := by
  simp [isLateFill]

theorem candleRequest_filledRow : (filledRow bo m).candleRequest = bo.candleRequest := by
  unfold filledRow
  cases m.status <;> rfl

theorem settlesLate_filledRow :
    settlesLate now fetch (filledRow bo m) m = settlesLate now fetch bo m := by
  simp [settlesLate, isLateFill_filledRow, candleRequest_filledRow]

/-! ## One delivery -/

/-- Nothing happens to an order that is not pending. -/
theorem handleOrderFill_settled (hp : ∀ bo, db.orders.get m.boId = some bo → bo.result ≠ .pending) :
    (handleOrderFill now fetch db m).1 = db := by
  unfold handleOrderFill
  cases hget : db.orders.get m.boId with
  | none => rfl
  | some bo =>
    dsimp only
    rw [if_pos (hp bo hget)]

theorem handleOrderFill_records (hget : db.orders.get m.boId = some bo) (hp : bo.result = .pending)
    (hl : settlesLate now fetch bo m = false) :
    (handleOrderFill now fetch db m).1 = recordFill db bo m := by
  unfold handleOrderFill
  rw [hget]
  dsimp only
  rw [if_neg (not_not.mpr hp), isLateFill_filledRow, candleRequest_filledRow]
  by_cases hlate : isLateFill now bo m = true
  · rw [if_pos hlate]
    cases hf : fetch bo.candleRequest with
    | none => rfl
    | some c => simp [settlesLate, hlate, hf] at hl
  · rw [if_neg hlate]

/-- A late full fill is recorded and then settled. -/
theorem handleOrderFill_settles (hget : db.orders.get m.boId = some bo) (hp : bo.result = .pending)
    (hl : settlesLate now fetch bo m = true) :
    ∃ c r p db', settleSingleTrade (recordFill db bo m) (recordFill db bo m) (filledRow bo m) c =
        some db' ∧ (handleOrderFill now fetch db m).1 = db' ∧ r ≠ .pending ∧
      db'.orders.get m.boId = some (settledRow (filledRow bo m) c r p .candleSettled) := by
  simp only [settlesLate, Bool.and_eq_true] at hl
  obtain ⟨hlate, hsome⟩ := hl
  obtain ⟨c, hf⟩ := Option.isSome_iff_exists.mp hsome
  have hid : bo.id = m.boId := Table.key_of_get hget
  have hrow : (recordFill db bo m).orders.get (filledRow bo m).id = some (filledRow bo m) := by
    rw [filledRow_id]
    exact get_recordFill (hid ▸ hget)
  obtain ⟨r, p, hv, hr⟩ := verdict_of_fills c (filledRow_avgPrice bo m) (filledRow_numShares bo m)
  obtain ⟨db', hs, hrow'⟩ := settleSingleTrade_settled (recordFill db bo m) hrow hv
  rw [filledRow_id, hid] at hrow'
  refine ⟨c, r, p, db', hs, ?_, hr, hrow'⟩
  unfold handleOrderFill
  rw [hget]
  dsimp only
  rw [if_neg (not_not.mpr hp), isLateFill_filledRow, if_pos hlate, candleRequest_filledRow, hf]
  dsimp only
  rw [hs]

theorem handleOrderFill_late (hget : db.orders.get m.boId = some bo) (hp : bo.result = .pending)
    (hl : settlesLate now fetch bo m = true) :
    ∃ bo', (handleOrderFill now fetch db m).1.orders.get m.boId = some bo' ∧
      bo'.result ≠ .pending := by
  obtain ⟨c, r, p, db', -, hdb, hr, hrow⟩ := handleOrderFill_settles hget hp hl
  exact ⟨_, hdb ▸ hrow, hr⟩

/-! ## Two deliveries -/

/-- Paying the rebate off a fee that is not positive leaves one that is not positive. -/
theorem fillRebate_filledRow : fillRebate (filledRow bo m) m = fillRebate bo m := by
  by_cases hr : 0 < fillRebate bo m
  · have hfee := filledRow_fee bo m
    rw [if_pos hr] at hfee
    unfold fillRebate at hr ⊢
    cases hw : m.walkPrices with
    | none => rfl
    | some levels =>
      rw [hw] at hr
      dsimp only at hr ⊢
      have hle : bo.fee ≤ 0 := by
        by_contra hgt
        rw [if_neg hgt] at hr
        exact lt_irrefl _ hr
      rw [if_pos hle] at hr ⊢
      have hfee' : (filledRow bo m).fee ≤ 0 := by
        rw [hfee]
        refine roundTo_le_of_mem (zero_mem _) ?_
        unfold fillRebate
        rw [hw]
        dsimp only
        rw [if_pos hle]
        linarith
      rw [if_pos hfee']
  · have hfee := filledRow_fee bo m
    rw [if_neg hr] at hfee
    unfold fillRebate
    rw [hfee]

theorem fillFields_filledRow_twice (hr : fillRebate bo m ≤ 0) :
    (filledRow (filledRow bo m) m).fillFields = (filledRow bo m).fillFields := by
  have hr' : ¬ 0 < fillRebate bo m := not_lt.mpr hr
  have hfee : ∀ b : BinaryOption, fillRebate b m = fillRebate bo m →
      (filledRow b m).entryFee = b.entryFee := by
    intro b hb
    unfold filledRow
    rw [hb]
    cases m.status <;> simp [BinaryOption.appendTrace, hr', BinaryOption.recordOrderId]
  have hwalk : (filledRow (filledRow bo m) m).walkPrices = (filledRow bo m).walkPrices := by
    rw [filledRow_walkPrices, filledRow_walkPrices]
    cases m.walkPrices with
    | none => rfl
    | some levels => cases bo.walkPrices <;> rfl
  simp only [BinaryOption.fillFields, hwalk, hfee (filledRow bo m) fillRebate_filledRow,
    filledRow_numShares, filledRow_avgPrice, filledRow_result]

/-- A second rebate lowers the fee once more. -/
theorem fillFields_filledRow_ne (hr : 0 < fillRebate bo m) :
    (filledRow (filledRow bo m) m).fillFields ≠ (filledRow bo m).fillFields := by
  intro hsame
  simp only [BinaryOption.fillFields, Prod.mk.injEq] at hsame
  have hfee : (filledRow (filledRow bo m) m).fee = (filledRow bo m).fee := by
    unfold BinaryOption.fee
    rw [hsame.1]
  have hfee₁ := filledRow_fee bo m
  have hfee₂ := filledRow_fee (filledRow bo m) m
  rw [if_pos hr] at hfee₁
  rw [fillRebate_filledRow, if_pos hr] at hfee₂
  have hgrid : (filledRow bo m).fee - fillRebate bo m ∈ grid 8 :=
    sub_mem (hfee₁ ▸ roundTo_mem_grid _ _) (fillRebate_mem_grid bo m)
  rw [round8, roundTo_of_mem hgrid, hfee] at hfee₂
  linarith

/-- The row after the fill is recorded twice. -/
theorem get_recordFill_twice (hget : db.orders.get bo.id = some bo) :
    (recordFill (recordFill db bo m) (filledRow bo m) m).orders.get bo.id =
      some (filledRow (filledRow bo m) m) := by
  have hself : (recordFill db bo m).orders.get (filledRow bo m).id = some (filledRow bo m) := by
    rw [filledRow_id]
    exact get_recordFill hget
  have htwice := get_recordFill (m := m) hself
  rwa [filledRow_id] at htwice

/-- Recording a fill again is harmless exactly when there is no rebate. -/
theorem sameAccounts_recordFill (hget : db.orders.get bo.id = some bo) :
    SameAccounts (recordFill db bo m) (recordFill (recordFill db bo m) (filledRow bo m) m) ↔
      fillRebate bo m ≤ 0 := by
  have hget₁ : (recordFill db bo m).orders.get bo.id = some (filledRow bo m) := get_recordFill hget
  have hget₂ := get_recordFill_twice (m := m) hget
  constructor
  · intro hsame
    refine not_lt.mp fun hr => fillFields_filledRow_ne hr ?_
    have horder := hsame.2 bo.id
    rw [hget₁, hget₂] at horder
    exact Option.some.inj horder
  · intro hr
    refine ⟨fun name => ?_, fun id => ?_⟩
    · have hr' : ¬ 0 < fillRebate (filledRow bo m) m := by
        rw [fillRebate_filledRow]
        exact not_lt.mpr hr
      rw [recordFill, if_neg hr']
      rfl
    · by_cases hk : id = bo.id
      · rw [hk, hget₁, hget₂, Option.map_some, Option.map_some, fillFields_filledRow_twice hr]
      · rw [recordFill_orders (recordFill db bo m),
          Table.get_put_ne (by rwa [filledRow_id, filledRow_id])]

/-- **When a redelivery is harmless.**  Handling a fill message twice leaves the same balances and
the same fill columns as handling it once exactly when the order is not pending, or the first
delivery settles it, or no rebate is due and the second delivery does not settle it. -/
theorem redelivery_harmless_iff (now₁ now₂ : Time) (fetch₁ fetch₂ : CandleFetch) (db : Database)
    (m : FillMessage) :
    SameAccounts (handleOrderFill now₁ fetch₁ db m).1
        (handleOrderFill now₂ fetch₂ (handleOrderFill now₁ fetch₁ db m).1 m).1 ↔
      ∀ bo, db.orders.get m.boId = some bo → bo.result = .pending →
        settlesLate now₁ fetch₁ bo m = true ∨
          fillRebate bo m ≤ 0 ∧ settlesLate now₂ fetch₂ bo m = false := by
  by_cases hnone : ∃ bo, db.orders.get m.boId = some bo ∧ bo.result = .pending
  swap
  · have hskip : ∀ bo, db.orders.get m.boId = some bo → bo.result ≠ .pending :=
      fun bo hget hp => hnone ⟨bo, hget, hp⟩
    rw [handleOrderFill_settled hskip, handleOrderFill_settled hskip]
    exact iff_of_true (.refl _) fun bo hget hp => absurd hp (hskip bo hget)
  obtain ⟨bo, hget, hp⟩ := hnone
  have hone : (∀ x, db.orders.get m.boId = some x → x.result = .pending →
      settlesLate now₁ fetch₁ x m = true ∨
      fillRebate x m ≤ 0 ∧ settlesLate now₂ fetch₂ x m = false) ↔
        settlesLate now₁ fetch₁ bo m = true ∨
      fillRebate bo m ≤ 0 ∧ settlesLate now₂ fetch₂ bo m = false := by
    refine ⟨fun h => h bo hget hp, fun h x hx _ => ?_⟩
    rwa [← Option.some.inj (hget.symm.trans hx)]
  rw [hone]
  by_cases hl : settlesLate now₁ fetch₁ bo m = true
  · -- the first delivery settles the order
    obtain ⟨bo', hget', hne⟩ := handleOrderFill_late hget hp hl
    have hskip : ∀ b, (handleOrderFill now₁ fetch₁ db m).1.orders.get m.boId = some b →
        b.result ≠ .pending := by
      intro b hb
      rw [hget', Option.some.injEq] at hb
      exact hb ▸ hne
    rw [handleOrderFill_settled hskip]
    exact iff_of_true (.refl _) (.inl hl)
  rw [Bool.not_eq_true] at hl
  have hid : bo.id = m.boId := Table.key_of_get hget
  have hself : db.orders.get bo.id = some bo := hid ▸ hget
  have hget₁ : (recordFill db bo m).orders.get m.boId = some (filledRow bo m) :=
    hid ▸ get_recordFill hself
  have hp₁ : (filledRow bo m).result = .pending := (filledRow_result bo m).trans hp
  rw [handleOrderFill_records hget hp hl]
  by_cases hl₂ : settlesLate now₂ fetch₂ bo m = true
  · -- the second delivery does
    refine iff_of_false (fun hsame => ?_) (by simp [hl, hl₂])
    obtain ⟨bo', hget', hne⟩ := handleOrderFill_late hget₁ hp₁ (settlesLate_filledRow.trans hl₂)
    have horder := hsame.2 m.boId
    rw [hget₁, hget'] at horder
    simp only [Option.map_some, Option.some.injEq, BinaryOption.fillFields, Prod.mk.injEq] at horder
    exact hne (horder.2.2.2.2.trans hp₁)
  · rw [Bool.not_eq_true] at hl₂
    rw [handleOrderFill_records hget₁ hp₁ (settlesLate_filledRow.trans hl₂),
      sameAccounts_recordFill hself]
    simp [hl, hl₂]

/-- The rebate of a partial fill of a passive LIMIT order is paid at each delivery. -/
theorem redelivery_pays_twice :
    ¬ SameAccounts (handleOrderFill 0 (fun _ => none) oneOrderDb halfFill).1
      (handleOrderFill 0 (fun _ => none)
        (handleOrderFill 0 (fun _ => none) oneOrderDb halfFill).1 halfFill).1 := by
  intro h
  have hbalance := h.1 "alpha"
  revert hbalance
  decide +kernel

end

end PolyArena
