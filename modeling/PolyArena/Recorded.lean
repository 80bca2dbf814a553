import PolyArena.Serializability

/-!
# The record of an order

The row of an order records its fill (`avg_price`, `num_shares`) and its exit.

1. `KeepsRecord`: no booking takes a recorded fill back, and only a bracket exit changes the exit
   (`booked_record`).
2. `exitsRecorded_apply`: the rows with an exit have a fill on record, as long as no exit is handled
   before.
3. `fillDone_apply`: once a fill of an order was handled, it stays on record.
-/

namespace PolyArena

/-- The exit on record stays, and so does the fill once there is one. -/
structure KeepsRecord (bo row : BinaryOption) : Prop where
  trigger : row.exitTrigger = bo.exitTrigger
  exit : row.shadowExit = bo.shadowExit
  price : bo.avgPrice ≠ none → row.avgPrice ≠ none
  shares : bo.numShares ≠ none → row.numShares ≠ none

theorem KeepsRecord.of_eq {bo row : BinaryOption} (htrigger : row.exitTrigger = bo.exitTrigger)
    (hexit : row.shadowExit = bo.shadowExit) (hprice : row.avgPrice = bo.avgPrice)
    (hshares : row.numShares = bo.numShares) : KeepsRecord bo row :=
  ⟨htrigger, hexit, fun h => by rwa [hprice], fun h => by rwa [hshares]⟩

/-- A fill is on record. -/
def BinaryOption.recorded (bo : BinaryOption) : Prop := bo.avgPrice ≠ none ∧ bo.numShares ≠ none

instance (bo : BinaryOption) : Decidable bo.recorded := inferInstanceAs (Decidable (_ ∧ _))

theorem KeepsRecord.recorded {bo row : BinaryOption} (h : KeepsRecord bo row) (hbo : bo.recorded) :
    row.recorded := ⟨h.price hbo.1, h.shares hbo.2⟩

/-! ## What the bookings do -/

section Decisions

variable {now : Time} {fetch : CandleFetch} {bo : BinaryOption} {b : Booking bo}

theorem decideSettlement_keepsRecord {c : Candle} {h : bo.result = .pending}
    (hb : decideSettlement bo c h = .book b) : KeepsRecord bo b.row := by
  unfold decideSettlement at hb
  split at hb
  · cases hb
  · cases hb
    exact .of_eq rfl rfl rfl rfl
  · cases hb
    exact .of_eq rfl rfl rfl rfl

theorem decidePending_keepsRecord (hb : decidePending fetch bo = .book b) :
    KeepsRecord bo b.row := by
  unfold decidePending at hb
  split_ifs at hb
  · cases hb
  · cases hb
    exact .of_eq rfl rfl rfl rfl
  · split at hb
    · cases hb
    · exact decideSettlement_keepsRecord hb
  · cases hb

theorem decideStuck_keepsRecord (hb : decideStuck fetch bo = .book b) : KeepsRecord bo b.row := by
  unfold decideStuck at hb
  split_ifs at hb
  · split at hb
    · exact decideSettlement_keepsRecord hb
    · cases hb
      exact .of_eq rfl rfl rfl rfl
  · cases hb

theorem decideOrphan_keepsRecord (hb : decideOrphan bo = .book b) : KeepsRecord bo b.row := by
  unfold decideOrphan at hb
  split_ifs at hb
  · cases hb
    exact .of_eq rfl rfl rfl rfl
  · cases hb

theorem decideFill_keepsRecord {m : FillMessage} (hb : decideFill bo m = .book b) :
    KeepsRecord bo b.row := by
  unfold decideFill at hb
  split at hb
  · cases hb
  · cases hb
    refine ⟨?_, ?_, fun _ => ?_, fun _ => ?_⟩
    · show (filledRow bo m).exitTrigger = bo.exitTrigger
      unfold filledRow
      cases m.status <;> rfl
    · show (filledRow bo m).shadowExit = bo.shadowExit
      unfold filledRow
      cases m.status <;> rfl
    · show (filledRow bo m).avgPrice ≠ none
      rw [filledRow_avgPrice]
      exact Option.some_ne_none _
    · show (filledRow bo m).numShares ≠ none
      rw [filledRow_numShares]
      exact Option.some_ne_none _

theorem decideLateFill_keepsRecord {m : FillMessage}
    (hb : decideLateFill now fetch bo m = .book b) :
    KeepsRecord bo b.row := by
  unfold decideLateFill at hb
  split_ifs at hb
  · split at hb
    · cases hb
    · exact decideSettlement_keepsRecord hb
  · cases hb

theorem decideCancel_keepsRecord {m : CancelMessage} (hb : decideCancel bo m = .book b) :
    KeepsRecord bo b.row := by
  unfold decideCancel at hb
  split at hb
  · split at hb
    · cases hb
      exact ⟨rfl, rfl, fun _ => Option.some_ne_none _, fun _ => Option.some_ne_none _⟩
    · cases hb
      exact .of_eq rfl rfl rfl rfl
  · cases hb

theorem exitRow_recorded {m : ExitMessage} : (exitRow now bo m).recorded ↔ bo.recorded := .rfl

theorem choosePath_exit {r : Admitted} {p : BOCreate} {second : SnapshotRead} {id : ℕ}
    {d : Draft id} (h : choosePath now r p second id = .ok d) : d.row.exitTrigger = none := by
  unfold choosePath at h
  split at h
  · split at h
    · obtain ⟨f, -, rfl⟩ := aggressiveLimit_ok h
      rfl
    · cases h
      rfl
  · obtain ⟨avg, shares, levels, -, rfl⟩ := marketOrder_ok h
    rfl

/-- **A booking** that is no bracket exit keeps the record. -/
theorem booked_record {t : BalanceTransaction} {x : Accounts} {phase : LoadPhase}
    (hphase : phase ∈ t.phases) (hselect : bo ∈ phase.select x)
    (hdecide : phase.decide bo = .book b) : KeepsRecord bo b.row ∨
      ∃ now m, t = .exit now m ∧ x.orders.get m.boId = some bo ∧ bo.exitTrigger = none ∧
        bo.result = .pending ∧ b.row = exitRow now bo m := by
  have hone : ∀ {k : ℕ} {decide : ∀ bo, Decision bo}, phase ∈ [onOrder k decide] →
      decide bo = .book b ∧ x.orders.get k = some bo := by
    intro k decide hp
    obtain rfl := List.mem_singleton.mp hp
    exact ⟨hdecide, Option.mem_toList.mp hselect⟩
  cases t with
  | createBo => cases hphase
  | traceQueued k a =>
    cases (hone hphase).1
    exact .inl (.of_eq rfl rfl rfl rfl)
  | fill m => exact .inl (decideFill_keepsRecord (hone hphase).1)
  | lateFill now fetch m => exact .inl (decideLateFill_keepsRecord (hone hphase).1)
  | cancel m => exact .inl (decideCancel_keepsRecord (hone hphase).1)
  | exit now m =>
    obtain ⟨hexit, hget⟩ := hone hphase
    unfold decideExit at hexit
    split_ifs at hexit with hopen hraise
    · cases hexit
    · cases hexit
      exact .inr ⟨now, m, rfl, hget, hopen.1, hopen.2, rfl⟩
    · cases hexit
  | resolved boIds =>
    obtain rfl := List.mem_singleton.mp hphase
    cases hdecide
    exact .inl (.of_eq rfl rfl rfl rfl)
  | settle now fetch =>
    obtain rfl := List.mem_singleton.mp hphase
    exact .inl (decidePending_keepsRecord hdecide)
  | sweep now fetch =>
    rcases List.mem_cons.mp hphase with rfl | hsecond
    · exact .inl (decideStuck_keepsRecord hdecide)
    · obtain rfl := List.mem_singleton.mp hsecond
      exact .inl (decideOrphan_keepsRecord hdecide)

end Decisions

/-! ## The rows -/

/-- Every order with an exit has a fill on record. -/
def ExitsRecorded (db : Database) : Prop :=
  ∀ bo ∈ db.orders.rows, bo.exitTrigger ≠ none → bo.recorded

instance (db : Database) : Decidable (ExitsRecorded db) :=
  inferInstanceAs (Decidable (∀ bo ∈ db.orders.rows, bo.exitTrigger ≠ none → bo.recorded))

/-- The order is there, and its fill is on record when it is still open. -/
def FillDone (db : Database) (k : ℕ) : Prop :=
  ∃ bo, db.orders.get k = some bo ∧ (bo.result = .pending → bo.recorded)

section Rows

variable {db : Database} {t : BalanceTransaction} {k : ℕ} {bo : BinaryOption}

/-- **One transaction** that handles no exit of an order without a fill on record. -/
theorem exitsRecorded_apply (h : ExitsRecorded db)
    (hguard : ∀ now m, t = .exit now m → FillDone db m.boId) : ExitsRecorded (t.apply db) := by
  intro row hrow htrigger
  replace hrow : row ∈ (t.txn.run db.accounts).orders.rows := accounts_apply db t ▸ hrow
  cases run_txn_origin t hrow with
  | kept hold => exact h row hold htrigger
  | created hpath hd =>
    rw [hd, choosePath_exit hpath] at htrigger
    exact absurd rfl htrigger
  | booked hphase hmem hselect hdecide hb =>
    rcases booked_record hphase hselect hdecide with hkeeps | ⟨now, m, ht, hget, -, hpending, hexit⟩
    · rw [hb, hkeeps.trigger] at htrigger
      rw [hb]
      exact hkeeps.recorded (h _ hmem htrigger)
    · obtain ⟨bo, hbo, hdone⟩ := hguard now m ht
      obtain rfl := Option.some.inj (hget.symm.trans hbo)
      rw [hb, hexit]
      exact exitRow_recorded.mpr (hdone hpending)

/-- What becomes of the row of an order. -/
theorem get_apply (hget : db.orders.get k = some bo) : ∃ row, (t.apply db).orders.get k = some row ∧
    (bo.recorded → row.recorded) ∧ (bo.result = .pending ∨ row.result = bo.result) := by
  have hid : bo.id = k := Table.key_of_get hget
  obtain ⟨row, hmem, hfate⟩ := run_txn_fate t (x := db.accounts) (Table.mem_of_get hget)
  rw [← accounts_apply] at hmem
  have hrow := Table.get_of_mem hmem
  rcases hfate with rfl | ⟨phase, hphase, b, hselect, hdecide, rfl⟩
  · exact ⟨row, hid ▸ hrow, fun hrec => hrec, .inr rfl⟩
  · refine ⟨b.row, (b.row_id.trans hid) ▸ hrow, fun hrec => ?_, b.decides_pending.symm⟩
    rcases booked_record hphase hselect hdecide with hkeeps | ⟨now, m, -, -, -, -, hexit⟩
    · exact hkeeps.recorded hrec
    · rw [hexit]
      exact exitRow_recorded.mpr hrec

/-- **A fill that was handled** stays on record. -/
theorem fillDone_apply (h : FillDone db k) : FillDone (t.apply db) k := by
  obtain ⟨bo, hget, hdone⟩ := h
  obtain ⟨row, hrow, hrec, hresult⟩ := get_apply (t := t) hget
  refine ⟨row, hrow, fun hpending => hrec (hdone ?_)⟩
  rcases hresult with hp | hsame
  · exact hp
  · exact hsame.symm.trans hpending

/-- **A fill is handled.** -/
theorem fillDone_fill {m : FillMessage} (hrow : (db.orders.get m.boId).isSome) :
    FillDone ((BalanceTransaction.fill m).apply db) m.boId := by
  obtain ⟨bo, hget⟩ := Option.isSome_iff_exists.mp hrow
  have hid : bo.id = m.boId := Table.key_of_get hget
  show FillDone (recordFillOf db m) m.boId
  unfold recordFillOf
  rw [hget]
  dsimp only
  split
  · next hdecided => exact ⟨bo, hget, fun hpending => absurd hpending hdecided⟩
  · have hkey : (filledRow bo m).id = m.boId := (filledRow_id bo m).trans hid
    refine ⟨filledRow bo m, ?_, fun _ => ⟨?_, ?_⟩⟩
    · rw [recordFill_orders, ← hkey]
      exact Table.get_put_self (hkey.symm ▸ hget)
    · rw [filledRow_avgPrice]
      nofun
    · rw [filledRow_numShares]
      nofun

end Rows

end PolyArena
