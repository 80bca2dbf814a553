import PolyArena.Redelivery
import PolyArena.Ledger

/-!
# Fill messages that are processed again later

A fill message says how much of its order was filled so far.  The handler writes what the message
says, whatever the row held.  A message whose handler fails before the commit changes nothing and
stays in the pending list; it is processed again later, after messages that were published after it.

1. `Database.attempt` is one handler call, which may fail; a list of them is any order of delivery,
   with any failures and replays.
2. `entry_attempts`: the row ends with the entry of the last message that was processed while the
   row was pending.
3. `ends_at_largest_iff`: so the row ends at the largest fill exactly when that message reports it,
   and `ends_at_largest_in_order` says that it does when the messages are processed in order.
-/

namespace PolyArena

/-- A handler call on a fill message; `fails` is an exception before the commit. -/
structure FillAttempt where
  now : Time
  fetch : CandleFetch
  message : FillMessage
  fails : Bool := false

def Database.attempt (db : Database) (a : FillAttempt) : Database :=
  if a.fails then db else (handleOrderFill a.now a.fetch db a.message).1

/-- What the row records of its entry: `num_shares` and `avg_price`. -/
def BinaryOption.entry (bo : BinaryOption) : Option ℚ × Option ℚ := (bo.numShares, bo.avgPrice)

/-- The entry that a message reports. -/
def FillMessage.entry (m : FillMessage) : Option ℚ × Option ℚ :=
  (some m.filled, some m.avgEntryPrice)

/-- The messages of the order `id` that were delivered. -/
def delivered (id : ℕ) (as : List FillAttempt) : List FillMessage :=
  (as.map FillAttempt.message).filter fun m => m.boId = id

/-- The messages of the order that are processed while its row is pending, in this order: those
whose handler does not fail, up to the late full fill that settles the row. -/
def processed (bo : BinaryOption) : List FillAttempt → List FillMessage
  | [] => []
  | a :: rest =>
    if a.fails ∨ a.message.boId ≠ bo.id ∨ bo.result ≠ .pending then processed bo rest
    else if settlesLate a.now a.fetch bo a.message then [a.message]
    else a.message :: processed bo rest

/-- The entry of the last processed message, or the row's when there is none. -/
def lastEntry (bo : BinaryOption) (as : List FillAttempt) : Option ℚ × Option ℚ :=
  ((processed bo as).getLast?.map FillMessage.entry).getD bo.entry

/-- The message reports the largest fill of those delivered for the order. -/
def Largest (id : ℕ) (as : List FillAttempt) (m : FillMessage) : Prop :=
  m ∈ delivered id as ∧ ∀ m' ∈ delivered id as, m'.filled ≤ m.filled

instance (id : ℕ) (as : List FillAttempt) (m : FillMessage) : Decidable (Largest id as m) :=
  inferInstanceAs (Decidable (_ ∧ _))

/-- The row says of the entry what the message with the largest fill says. -/
def EndsAtLargest (id : ℕ) (as : List FillAttempt) (db : Database) : Prop :=
  ∃ bo m, db.orders.get id = some bo ∧ Largest id as m ∧ bo.entry = m.entry

section

variable {db : Database} {bo row : BinaryOption} {a : FillAttempt} {as : List FillAttempt} {id : ℕ}
  {m : FillMessage}

/-! ## One attempt -/

theorem entry_filledRow : (filledRow bo m).entry = m.entry := by
  unfold BinaryOption.entry
  rw [filledRow_numShares, filledRow_avgPrice]
  rfl

theorem onlyOrder_recordFill : OnlyOrder bo.id db (recordFill db bo m) := by
  have honly := onlyOrder_of_put (filledRow bo m) (recordFill_orders db bo m)
  rwa [filledRow_id] at honly

/-- A fill message leaves the other orders as they are. -/
theorem onlyOrder_handleOrderFill {now : Time} {fetch : CandleFetch} :
    OnlyOrder m.boId db (handleOrderFill now fetch db m).1 := by
  by_cases hpending : ∃ bo, db.orders.get m.boId = some bo ∧ bo.result = .pending
  · obtain ⟨bo, hget, hp⟩ := hpending
    have hid : bo.id = m.boId := Table.key_of_get hget
    intro k hk
    rw [← hid] at hk
    by_cases hl : settlesLate now fetch bo m = true
    · obtain ⟨c, r, p, db', hs, hdb, -, -⟩ := handleOrderFill_settles hget hp hl
      have honly := onlyOrder_settleSingleTrade hs
      rw [filledRow_id] at honly
      rw [hdb, honly k hk, onlyOrder_recordFill k hk]
    · rw [handleOrderFill_records hget hp (Bool.not_eq_true _ ▸ hl), onlyOrder_recordFill k hk]
  · intro k _
    rw [handleOrderFill_settled fun bo hget hp => hpending ⟨bo, hget, hp⟩]

/-- A call that fails, is about another order, or finds the row settled. -/
theorem attempt_skipped (hget : db.orders.get id = some bo)
    (hskip : a.fails ∨ a.message.boId ≠ id ∨ bo.result ≠ .pending) :
    (db.attempt a).orders.get id = some bo := by
  unfold Database.attempt
  by_cases hfails : a.fails = true
  · rw [if_pos hfails, hget]
  rw [if_neg hfails]
  by_cases hid : a.message.boId = id
  · have hp : bo.result ≠ .pending :=
      (hskip.resolve_left hfails).resolve_left (not_not.mpr hid)
    rw [handleOrderFill_settled, hget]
    intro bo' hbo'
    rw [hid, hget, Option.some.injEq] at hbo'
    exact hbo' ▸ hp
  · rw [onlyOrder_handleOrderFill id (Ne.symm hid), hget]

/-- A call that is recorded, and settles the row when it is a late full fill. -/
theorem attempt_recorded (hget : db.orders.get id = some bo)
    (hrec : ¬ (a.fails ∨ a.message.boId ≠ id ∨ bo.result ≠ .pending)) :
    if settlesLate a.now a.fetch bo a.message then
      ∃ row, (db.attempt a).orders.get id = some row ∧ row.entry = a.message.entry ∧
        row.result ≠ .pending
    else (db.attempt a).orders.get id = some (filledRow bo a.message) := by
  simp only [not_or, not_not] at hrec
  obtain ⟨hfails, rfl, hp⟩ := hrec
  unfold Database.attempt
  rw [if_neg hfails]
  split
  · next hl =>
    obtain ⟨c, r, p, db', -, hdb, hr, hrow⟩ := handleOrderFill_settles hget hp hl
    refine ⟨_, hdb ▸ hrow, ?_, hr⟩
    show (filledRow bo a.message).entry = _
    exact entry_filledRow
  · next hl =>
    have hid : bo.id = a.message.boId := Table.key_of_get hget
    rw [handleOrderFill_records hget hp (Bool.not_eq_true _ ▸ hl), ← hid]
    exact get_recordFill (hid ▸ hget)

/-! ## Any order of delivery -/

theorem processed_settled (hp : bo.result ≠ .pending) : processed bo as = [] := by
  induction as with
  | nil => rfl
  | cons a as ih => rw [processed, if_pos (.inr (.inr hp)), ih]

theorem lastEntry_settled (as : List FillAttempt) (hp : bo.result ≠ .pending) :
    lastEntry bo as = bo.entry := by
  rw [lastEntry, processed_settled hp]
  rfl

/-- What was recorded before decides nothing about what is processed. -/
theorem processed_filledRow : processed (filledRow bo m) as = processed bo as := by
  induction as with
  | nil => rfl
  | cons a as ih =>
    have hlate : settlesLate a.now a.fetch (filledRow bo m) a.message =
        settlesLate a.now a.fetch bo a.message := by
      rw [settlesLate, settlesLate, candleRequest_filledRow]
      simp [isLateFill]
    rw [processed, processed, filledRow_id, filledRow_result, hlate, ih]

theorem lastEntry_skipped (hskip : a.fails ∨ a.message.boId ≠ bo.id ∨ bo.result ≠ .pending) :
    lastEntry bo (a :: as) = lastEntry bo as := by
  rw [lastEntry, processed, if_pos hskip]
  rfl

theorem lastEntry_settles (hrec : ¬ (a.fails ∨ a.message.boId ≠ bo.id ∨ bo.result ≠ .pending))
    (hl : settlesLate a.now a.fetch bo a.message = true) :
    lastEntry bo (a :: as) = a.message.entry := by
  rw [lastEntry, processed, if_neg hrec, if_pos hl]
  rfl

theorem lastEntry_recorded (hrec : ¬ (a.fails ∨ a.message.boId ≠ bo.id ∨ bo.result ≠ .pending))
    (hl : ¬ settlesLate a.now a.fetch bo a.message = true) :
    lastEntry bo (a :: as) = lastEntry (filledRow bo a.message) as := by
  rw [lastEntry, lastEntry, processed, if_neg hrec, if_neg hl, processed_filledRow, entry_filledRow,
    List.getLast?_cons]
  cases (processed bo as).getLast? <;> rfl

/-- **The last processed message decides the entry.** -/
theorem entry_attempts (as : List FillAttempt) (hget : db.orders.get id = some bo) :
    ∃ row, (as.foldl Database.attempt db).orders.get id = some row ∧
      row.entry = lastEntry bo as := by
  induction as generalizing db bo with
  | nil => exact ⟨bo, hget, rfl⟩
  | cons a as ih =>
    rw [List.foldl_cons]
    obtain rfl : bo.id = id := Table.key_of_get hget
    by_cases hskip : a.fails ∨ a.message.boId ≠ bo.id ∨ bo.result ≠ .pending
    · rw [lastEntry_skipped hskip]
      exact ih (attempt_skipped hget hskip)
    have hrec := attempt_recorded hget hskip
    split at hrec
    · next hl =>
      obtain ⟨row, hrow, hentry, hsettled⟩ := hrec
      rw [lastEntry_settles hskip hl, ← hentry, ← lastEntry_settled as hsettled]
      exact ih hrow
    · next hl =>
      rw [lastEntry_recorded hskip hl]
      exact ih hrec

theorem EndsAtLargest.last (hget : db.orders.get id = some bo)
    (hends : EndsAtLargest id as (as.foldl Database.attempt db)) :
    ∃ m, Largest id as m ∧ lastEntry bo as = m.entry := by
  obtain ⟨row, hrow, hentry⟩ := entry_attempts as hget
  obtain ⟨row', m, hrow', hm, hentry'⟩ := hends
  obtain rfl := Option.some.inj (hrow.symm.trans hrow')
  exact ⟨m, hm, hentry.symm.trans hentry'⟩

theorem endsAtLargest_of_last (hget : db.orders.get id = some bo) (hm : Largest id as m)
    (hlast : lastEntry bo as = m.entry) :
    EndsAtLargest id as (as.foldl Database.attempt db) := by
  obtain ⟨row, hrow, hentry⟩ := entry_attempts as hget
  exact ⟨row, m, hrow, hm, hentry.trans hlast⟩

/-- **When the fills on record do not go backwards**: the row ends at the largest fill delivered
exactly when the last message that was processed while it was pending reports it (or no message was
processed and the row held it before). -/
theorem ends_at_largest_iff (hget : db.orders.get id = some bo) (as : List FillAttempt) :
    EndsAtLargest id as (as.foldl Database.attempt db) ↔
      ∃ m, Largest id as m ∧ lastEntry bo as = m.entry :=
  ⟨EndsAtLargest.last hget, fun ⟨_, hm, hlast⟩ => endsAtLargest_of_last hget hm hlast⟩

/-- **In order**: when every delivered message is processed, and they are processed as they were
published, the row ends at the largest fill. -/
theorem ends_at_largest_of_ordered (hget : db.orders.get id = some bo) (hne : delivered id as ≠ [])
    (hordered : (delivered id as).Pairwise fun m m' => m.filled ≤ m'.filled)
    (hall : processed bo as = delivered id as) :
    EndsAtLargest id as (as.foldl Database.attempt db) := by
  obtain ⟨pre, m, hsplit⟩ := List.eq_nil_or_concat (delivered id as) |>.resolve_left hne
  rw [List.concat_eq_append] at hsplit
  refine endsAtLargest_of_last (m := m) hget ⟨?_, fun m' hm' => ?_⟩ ?_
  · rw [hsplit]
    exact List.mem_append_right _ (List.mem_singleton_self m)
  · rw [hsplit] at hm' hordered
    rcases List.mem_append.mp hm' with hm' | hm'
    · exact (List.pairwise_append.mp hordered).2.2 m' hm' m (List.mem_singleton_self m)
    · rw [List.mem_singleton.mp hm']
  · rw [lastEntry, hall, hsplit, List.getLast?_concat]
    rfl

/-! ## On samples -/

/-- All twenty shares of `oneOrderDb`'s order. -/
def restFill : FillMessage := ⟨1, some 7, 20, 1 / 2, .filled, some [⟨1 / 2, 10, 5⟩]⟩

/-- Both fills, as they were published. -/
def bothFills : List FillAttempt :=
  [⟨0, fun _ => none, halfFill, false⟩, ⟨0, fun _ => none, restFill, false⟩]

theorem ends_at_largest_in_order :
    EndsAtLargest 1 bothFills (bothFills.foldl Database.attempt oneOrderDb) :=
  (ends_at_largest_iff (Table.get_of_mem (t := oneOrderDb.orders) (List.mem_singleton_self _))
    bothFills).mpr ⟨restFill, by decide +kernel, by decide +kernel⟩

/-- The first one fails, the second one is processed, and the drain replays the first. -/
def replayedFills : List FillAttempt :=
  ⟨0, fun _ => none, halfFill, true⟩ :: bothFills.reverse

/-- **A replay takes the row back**: although every message is processed in the end, ten of the
twenty shares are on record. -/
theorem replay_takes_back : ¬ ∀ (db : Database) (id : ℕ) (bo : BinaryOption)
    (as : List FillAttempt),
    db.orders.get id = some bo → bo.result = .pending → delivered id as ≠ [] →
      (∀ m ∈ delivered id as, ∃ a ∈ as, a.message = m ∧ a.fails = false) →
        EndsAtLargest id as (as.foldl Database.attempt db) := by
  intro hall
  have hget : oneOrderDb.orders.get 1 = some _ :=
    Table.get_of_mem (t := oneOrderDb.orders) (List.mem_singleton_self _)
  obtain ⟨m, hm, hlast⟩ :=
    (hall oneOrderDb 1 _ replayedFills hget rfl (by decide +kernel) (by decide +kernel)).last hget
  -- the largest fill is the one of twenty shares, the last one processed that of ten
  have hlarge : restFill.filled ≤ m.filled := hm.2 restFill (by decide +kernel)
  have hten : (some m.filled : Option ℚ) = some 10 := by
    rw [show some m.filled = m.entry.1 from rfl, ← hlast]
    decide +kernel
  rw [Option.some.inj hten] at hlarge
  revert hlarge
  decide +kernel

end

end PolyArena
