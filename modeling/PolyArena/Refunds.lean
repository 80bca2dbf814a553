import PolyArena.Account
import PolyArena.SettlementPasses

/-!
# Which transactions cancel an order

Whoever writes the result CANCELLED gives the bot the whole amount of the order back.  The cancel
handler does it when the message reports no fills, and the two settlement passes do it by what the
row and the candle say.

1. `settlePending_cancels` and `sweepStuck_cancels` say exactly which orders a pass cancels.
2. `deliver_cancels`: of the handlers only that of a cancel without fills cancels an order.
-/

namespace PolyArena

/-- `settle_pending_trades` takes a due order for one that was never filled: the engine's status is
still PENDING, or there is a candle but no fill data. -/
def BinaryOption.refundedAtSettlement (bo : BinaryOption) (fetch : CandleFetch) : Prop :=
  bo.positionClosed = false ∧
    (bo.meOrderStatus = some .pending ∨ ∃ c ∈ fetch bo.candleRequest, verdict bo c = .missingFill)

/-- `sweep_stuck_orders` gives up on a stuck order: there is no candle, or no fill data. -/
def BinaryOption.refundedBySweep (bo : BinaryOption) (fetch : CandleFetch) : Prop :=
  ∀ c ∈ fetch bo.candleRequest, verdict bo c = .missingFill

instance (bo : BinaryOption) (fetch : CandleFetch) : Decidable (bo.refundedAtSettlement fetch) := by
  unfold BinaryOption.refundedAtSettlement
  infer_instance

instance (bo : BinaryOption) (fetch : CandleFetch) : Decidable (bo.refundedBySweep fetch) := by
  unfold BinaryOption.refundedBySweep
  infer_instance

section

variable {bo : BinaryOption} {fetch : CandleFetch} {m : FillMessage}

theorem verdict_filledRow (c : Candle) : verdict (filledRow bo m) c ≠ .missingFill := by
  obtain ⟨r, p, hv, -⟩ := verdict_of_fills c (filledRow_avgPrice bo m) (filledRow_numShares bo m)
  rw [hv]
  nofun

/-- **A fill that was recorded** as PARTIAL or FILLED is seen by a settlement pass, and by a sweep
that gets the candle. -/
theorem filledRow_seen (hm : m.status = .partial_ ∨ m.status = .filled) :
    ¬ (filledRow bo m).refundedAtSettlement fetch ∧
      ∀ c ∈ fetch (filledRow bo m).candleRequest, ¬ (filledRow bo m).refundedBySweep fetch := by
  refine ⟨?_, fun c hc h => verdict_filledRow c (h c hc)⟩
  rintro ⟨-, hunfilled | ⟨c, -, hmissing⟩⟩
  · rcases hm with hs | hs <;> simp [filledRow, BinaryOption.appendTrace, hs] at hunfilled
  · exact verdict_filledRow c hmissing

/-- A fill that was recorded as CANCELED, of a MARKET order that was filled in part, is not. -/
theorem filledRow_unseen (hm : m.status = .canceled) (hopen : bo.positionClosed = false)
    (hqueued : bo.meOrderStatus = some .pending) : (filledRow bo m).refundedAtSettlement fetch := by
  unfold filledRow
  rw [hm]
  exact ⟨hopen, .inl hqueued⟩

end

/-! ## One order of a pass -/

/-- The order `k` keeps its settlement time, and is cancelled afterwards exactly when it was before
or `P` holds of it. -/
def CancelsWhen (P : BinaryOption → Prop) (k : ℕ) (db db' : Database) : Prop :=
  ∀ bo, db.orders.get k = some bo → ∃ bo', db'.orders.get k = some bo' ∧
    bo'.settlementAt = bo.settlementAt ∧ (bo'.result = .cancelled ↔ bo.result = .cancelled ∨ P bo)

/-- It is cancelled afterwards only if it was before or `P` holds of it. -/
def CancelsOnly (P : BinaryOption → Prop) (k : ℕ) (db db' : Database) : Prop :=
  ∀ bo, db.orders.get k = some bo → ∃ bo', db'.orders.get k = some bo' ∧
    bo'.settlementAt = bo.settlementAt ∧ (bo'.result = .cancelled → bo.result = .cancelled ∨ P bo)

section

variable {base db db' : Database} {bo : BinaryOption} {c : Candle} {fetch : CandleFetch} {k : ℕ}
  {now : Time} {P : BinaryOption → Prop}

theorem CancelsWhen.only (h : CancelsWhen P k db db') : CancelsOnly P k db db' := by
  intro bo hget
  obtain ⟨bo', hget', ht, hr⟩ := h bo hget
  exact ⟨bo', hget', ht, hr.mp⟩

theorem CancelsOnly.of_same (h : db'.orders.get k = db.orders.get k) : CancelsOnly P k db db' :=
  fun bo hget => ⟨bo, h.trans hget, rfl, .inl⟩

/-- A transaction that is rolled back when it raises. -/
theorem CancelsOnly.getD {result : Option Database}
    (h : ∀ db', result = some db' → CancelsOnly P k db db') :
    CancelsOnly P k db (result.getD db) := by
  cases result with
  | none => exact .of_same rfl
  | some db' => exact h db' rfl

theorem CancelsWhen.refl (k : ℕ) (db : Database) : CancelsWhen (fun _ => False) k db db := by
  intro bo hget
  refine ⟨bo, hget, rfl, ?_⟩
  rw [or_false]

/-- An order that is overwritten by one that is cancelled no more than it was. -/
theorem CancelsWhen.put {row : BinaryOption} (hput : db'.orders = db.orders.put row)
    (hget : db.orders.get row.id = some bo) (ht : row.settlementAt = bo.settlementAt)
    (hr : row.result = .cancelled ↔ bo.result = .cancelled ∨ P bo) :
    CancelsWhen P row.id db db' := by
  intro x hx
  rw [hget] at hx
  cases hx
  refine ⟨row, ?_, ht, hr⟩
  rw [hput]
  exact Table.get_put_self hget

theorem CancelsWhen.mono {Q : BinaryOption → Prop} (h : CancelsWhen P k db db')
    (hpq : ∀ bo, db.orders.get k = some bo → (P bo ↔ Q bo)) : CancelsWhen Q k db db' := by
  intro bo hget
  obtain ⟨bo', hget', ht, hr⟩ := h bo hget
  exact ⟨bo', hget', ht, hr.trans (or_congr_right (hpq bo hget))⟩

/-- The orders that a transaction leaves alone. -/
theorem CancelsWhen.of_other (h : db'.orders.get k = db.orders.get k) :
    CancelsWhen (fun _ => False) k db db' := by
  intro bo hget
  refine ⟨bo, h.trans hget, rfl, ?_⟩
  rw [or_false]

theorem resultAtSettlement_cancelled :
    bo.resultAtSettlement fetch = .cancelled ↔ bo.refundedAtSettlement fetch := by
  unfold BinaryOption.resultAtSettlement BinaryOption.refundedAtSettlement
  by_cases hc : bo.positionClosed = true
  · simp [hc]
  rw [if_neg hc]
  by_cases hu : bo.meOrderStatus = some .pending
  · simp [hc, hu]
  rw [if_neg hu]
  cases fetch bo.candleRequest with
  | none => simp [hu]
  | some c => simp [hc, hu, verdict_result_cancelled]

theorem resultOfSweep_cancelled : bo.resultOfSweep fetch = .cancelled ↔
    bo.refundedBySweep fetch := by
  unfold BinaryOption.resultOfSweep BinaryOption.refundedBySweep
  cases fetch bo.candleRequest with
  | none => simp
  | some c => simp [verdict_result_cancelled]

/-! ## A pass -/

/-- **A settlement pass** cancels the due orders it takes for unfilled. -/
theorem settlePending_cancels (hs : settlePendingTrades now fetch db = some db') :
    CancelsWhen (fun bo => isDue now bo = true ∧ bo.refundedAtSettlement fetch) k db db' := by
  intro bo hget
  obtain ⟨bo', hget', hrow⟩ := settlePending_result hs hget
  by_cases hdue : isDue now bo = true
  · rw [if_pos hdue] at hrow
    refine ⟨bo', hget', hrow.1, ?_⟩
    rw [hrow.2, resultAtSettlement_cancelled]
    simp [hdue, isDue_pending hdue]
  · rw [if_neg hdue] at hrow
    subst hrow
    exact ⟨bo', hget', rfl, by simp [hdue]⟩

/-- **A sweep** cancels the stuck orders it gives up on, and the orphaned ones. -/
theorem sweepStuck_cancels (hs : sweepStuckOrders now fetch db = some db') :
    CancelsWhen (fun bo => isStuck now bo = true ∧ bo.refundedBySweep fetch ∨
      isOrphaned now bo = true) k
      db db' := by
  intro bo hget
  obtain ⟨bo', hget', hrow⟩ := sweepStuck_result hs hget
  by_cases hstuck : isStuck now bo = true
  · have horphan := isStuck_not_isOrphaned hstuck
    rw [if_pos hstuck] at hrow
    refine ⟨bo', hget', hrow.1, ?_⟩
    rw [hrow.2, resultOfSweep_cancelled]
    simp [hstuck, horphan, isStuck_pending hstuck]
  · rw [if_neg hstuck] at hrow
    by_cases horphan : isOrphaned now bo = true
    · rw [if_pos horphan] at hrow
      refine ⟨bo', hget', hrow.1, ?_⟩
      simp [hrow.2, horphan]
    · rw [if_neg horphan] at hrow
      subst hrow
      exact ⟨bo', hget', rfl, by simp [hstuck, horphan]⟩

/-! ## The handlers -/

theorem handleOrderFill_cancels {m : FillMessage} :
    CancelsWhen (fun _ => False) k db (handleOrderFill now fetch db m).1 := by
  have hh := fillHandled now fetch db m
  generalize (handleOrderFill now fetch db m).1 = db' at hh ⊢
  have hrec : ∀ bo, (recordFill db bo m).orders = db.orders.put (filledRow bo m) :=
    fun bo => recordFill_orders db bo m
  cases hh with
  | unknown hfind => exact .refl k db
  | decided bo hfind hp => exact .refl k db
  | recorded bo hfind hp =>
    have hrow : db.orders.get (filledRow bo m).id = some bo := by
      rw [filledRow_id, Table.get_key_of_get hfind]
    by_cases hk : k = (filledRow bo m).id
    · subst hk
      refine .put (hrec bo) hrow (filledRow_settlementAt bo m) ?_
      rw [filledRow_result, or_false]
    · exact .of_other (by rw [hrec bo, Table.get_put_ne hk])
  | settled bo c db' hfind hp hs =>
    have hrow : db.orders.get (filledRow bo m).id = some bo := by
      rw [filledRow_id, Table.get_key_of_get hfind]
    by_cases hk : k = (filledRow bo m).id
    · subst hk
      have hrow' : (recordFill db bo m).orders.get (filledRow bo m).id = some (filledRow bo m) := by
        rw [filledRow_id]
        exact get_recordFill (Table.get_key_of_get hfind)
      -- the fill that was just recorded settles the order
      obtain ⟨p, a, hget'⟩ := settleSingleTrade_row hrow' hs
      intro x hx
      rw [hrow] at hx
      cases hx
      refine ⟨_, hget', filledRow_settlementAt bo m, ?_⟩
      show (verdict (filledRow bo m) c).result = .cancelled ↔ _
      rw [verdict_result_cancelled, hp]
      simp [verdict_filledRow]
    · exact .of_other ((onlyOrder_settleSingleTrade hs k hk).trans
        (by rw [hrec bo, Table.get_put_ne hk]))

theorem handleOrderCancel_cancels {m : CancelMessage} :
    CancelsWhen (fun bo => m.boId = k ∧ bo.result = .pending ∧
      ¬ (0 < m.filled ∧ 0 < m.avgEntryPrice)) k
      db (handleOrderCancel db m).1 := by
  unfold handleOrderCancel
  cases hfind : db.orders.get m.boId with
  | none =>
    refine (CancelsWhen.refl k db).mono fun bo hget => ⟨False.elim, fun h => ?_⟩
    rw [h.1, hget] at hfind
    cases hfind
  | some bo =>
    dsimp only
    have hid := Table.key_of_get hfind
    have hget := Table.get_key_of_get hfind
    by_cases hp : bo.result ≠ .pending
    · rw [if_pos hp]
      refine (CancelsWhen.refl k db).mono fun x hx => ⟨False.elim, fun h => ?_⟩
      rw [h.1, hx] at hfind
      cases hfind
      exact hp h.2.1
    rw [if_neg hp]
    have hp := not_not.mp hp
    -- an order that is overwritten, whatever is done for its bot
    have hrow : ∀ row : BinaryOption, ∀ db₂ : Database, row.id = bo.id →
        row.settlementAt = bo.settlementAt →
        db₂.orders = db.orders.put row →
        (row.result = .cancelled ↔ bo.result = .cancelled ∨
          ¬ (0 < m.filled ∧ 0 < m.avgEntryPrice)) →
        CancelsWhen (fun x => m.boId = k ∧ x.result = .pending ∧
          ¬ (0 < m.filled ∧ 0 < m.avgEntryPrice)) k db db₂ := by
      intro row db₂ hrid ht hput hr
      by_cases hk : k = row.id
      · subst hk
        refine .put hput (hrid ▸ hget) ht (hr.trans (or_congr_right ?_))
        simp [hid, hrid, hp]
      · refine (CancelsWhen.of_other ?_).mono fun x _ => ⟨False.elim, fun h => ?_⟩
        · rw [hput, Table.get_put_ne hk]
        · exact hk (by rw [hrid, hid, h.1])
    by_cases hfill : 0 < m.filled ∧ 0 < m.avgEntryPrice
    · rw [if_pos hfill]
      refine hrow (partialCancelRow bo m) _ rfl rfl ?_ ?_
      · dsimp only
        split <;> simp
      · have hresult : (partialCancelRow bo m).result = bo.result := rfl
        simp [hresult, hfill]
    · rw [if_neg hfill]
      refine hrow (zeroFillCancelRow bo m) _ rfl rfl (by simp) (iff_of_true rfl (.inr hfill))

theorem handleBracketExit_cancels {m : ExitMessage} :
    CancelsWhen (fun _ => False) k db (handleBracketExit now db m).1 := by
  unfold handleBracketExit
  cases hfind : db.orders.get m.boId with
  | none => exact .refl k db
  | some bo =>
    have hget := Table.get_key_of_get hfind
    dsimp only
    split
    · split
      · exact .refl k db
      · by_cases hk : k = (exitRow now bo m).id
        · subst hk
          refine CancelsWhen.put (setOrder_orders _) hget rfl ?_
          rw [or_false]
          rfl
        · exact .of_other (Table.get_put_ne hk)
    · exact .refl k db

theorem handleMarketResolved_cancels {boIds : List ℕ} :
    CancelsWhen (fun _ => False) k db (handleMarketResolved db boIds).1 := by
  intro bo hget
  refine ⟨_, get_handleMarketResolved boIds hget, ?_, ?_⟩
  · split <;> rfl
  · rw [or_false]
    split <;> rfl

/-- **A handler** cancels an order only for a cancel message that reports no fills of it. -/
theorem deliver_cancels (now : Time) (fetch : CandleFetch) (message : OrderMessage) :
    CancelsWhen (fun bo => bo.result = .pending ∧ ∃ m, message = .cancel m ∧ m.boId = k ∧
      ¬ (0 < m.filled ∧ 0 < m.avgEntryPrice)) k db (db.deliver now fetch message) := by
  cases message with
  | fill m => exact handleOrderFill_cancels.mono fun _ _ => by simp
  | cancel m =>
    refine handleOrderCancel_cancels.mono fun _ _ => ⟨fun h => ⟨h.2.1, m, rfl, h.1, h.2.2⟩, ?_⟩
    rintro ⟨hp, _, ⟨rfl⟩, hid, hfill⟩
    exact ⟨hid, hp, hfill⟩
  | exit m => exact handleBracketExit_cancels.mono fun _ _ => by simp
  | resolved boIds => exact handleMarketResolved_cancels.mono fun _ _ => by simp

end

end PolyArena
