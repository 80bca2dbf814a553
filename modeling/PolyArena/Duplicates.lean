import PolyArena.Account
import PolyArena.Lib.Delivery

/-!
# Redelivered cancel, exit and market-resolved messages

The account of an order absorbs these messages: handling one again changes nothing, however many
other messages came in between.

1. An exit is recorded while there is none; then `exit_trigger` is set for good.
2. A market-resolved message sets `position_closed` for good.
3. A cancel without fills settles the order.  One with fills rewrites the amount to the cost of the
   fills, so that nothing is left to refund.
-/

namespace PolyArena

open Rounding

namespace OrderAccount

variable {s : OrderAccount}

/-- The entry price and the shares are recorded together. -/
def Paired (s : OrderAccount) : Prop := s.avgPrice = none ↔ s.numShares = none

/-- An exit can no longer be recorded. -/
def ExitDone (s : OrderAccount) : Prop := s.exitTrigger ≠ none ∨ s.result ≠ .pending

/-- The market needs not be resolved again. -/
def ResolveDone (s : OrderAccount) : Prop := ¬ (s.result = .pending ∧ ¬ s.positionClosed)

/-- The cancel was handled. -/
def CancelDone (s : OrderAccount) (m : CancelMessage) : Prop :=
  s.result ≠ .pending ∨ (0 < m.filled ∧ 0 < m.avgEntryPrice) ∧ s.keepFilled m = s

/-! ## What a handled message leaves -/

/-- The trace of a full exit can be written: the entry price is there. -/
theorem Paired.not_raises (h : s.Paired) {m : ExitMessage} :
    ¬ (s.isFullExit m ∧ s.avgPrice = none) := by
  rintro ⟨hfull, havg⟩
  unfold isFullExit at hfull
  rw [h.mp havg] at hfull
  simp at hfull

theorem exitDone_exit (h : s.Paired) (m : ExitMessage) : (s.exit m).ExitDone := by
  by_cases hdone : s.ExitDone
  · rwa [exit_closed hdone]
  · unfold ExitDone at hdone
    rw [not_or, not_not, not_not] at hdone
    rw [exit_open hdone.1 hdone.2 h.not_raises]
    exact .inl (Option.some_ne_none _)

theorem resolveDone_resolve : s.resolve.ResolveDone := by
  unfold resolve
  split
  · exact fun h => h.2 rfl
  · next h => exact h

theorem cancelDone_cancel (m : CancelMessage) : (s.cancel m).CancelDone m := by
  by_cases hp : s.result = .pending
  · by_cases hfilled : 0 < m.filled ∧ 0 < m.avgEntryPrice
    · rw [cancel_partFilled hp hfilled]
      split <;> exact .inr ⟨hfilled, rfl⟩
    · rw [cancel_zeroFill hp hfilled]
      exact .inl (by simp [credit])
  · rw [cancel_settled hp]
    exact .inl hp

theorem CancelDone.cancel {m : CancelMessage} (h : s.CancelDone m) : s.cancel m = s := by
  by_cases hp : s.result = .pending
  · obtain ⟨hfilled, hkeep⟩ := h.resolve_left (not_not.mpr hp)
    -- the amount is the cost already, so that nothing is left to refund
    have hnothing : s.unfilled m = 0 := by
      unfold unfilled
      rw [show round8 (m.filled * m.avgEntryPrice) = s.amount from congrArg amount hkeep, sub_self,
        max_self]
      exact roundTo_zero 8
    rw [cancel_partFilled hp hfilled, hnothing, if_neg (lt_irrefl _), hkeep]
  · exact cancel_settled hp

theorem ResolveDone.resolve (h : s.ResolveDone) : s.resolve = s := if_neg h

theorem ExitDone.exit (h : s.ExitDone) (m : ExitMessage) : s.exit m = s := exit_closed h

/-! ## What later messages keep -/

theorem Paired.exit (h : s.Paired) (m : ExitMessage) : (s.exit m).Paired := by
  obtain ⟨-, -, hshares, havg, -⟩ := exit_keeps (s := s) (m := m)
  rwa [Paired, hshares, havg]

theorem Paired.resolve (h : s.Paired) : s.resolve.Paired := by
  obtain ⟨-, -, hshares, havg, -⟩ := resolve_keeps (s := s)
  rwa [Paired, hshares, havg]

theorem Paired.cancel (h : s.Paired) (m : CancelMessage) : (s.cancel m).Paired := by
  unfold OrderAccount.cancel
  split_ifs
  · exact h
  · exact iff_of_false (Option.some_ne_none _) (Option.some_ne_none _)
  · exact iff_of_false (Option.some_ne_none _) (Option.some_ne_none _)
  · exact h

/-- A cancel never makes an order pending. -/
theorem cancel_settles {m : CancelMessage} (h : s.result ≠ .pending) :
    (s.cancel m).result ≠ .pending := by
  rwa [cancel_settled h]

theorem ExitDone.resolve (h : s.ExitDone) : s.resolve.ExitDone := by
  obtain ⟨hresult, -, -, -, htrigger⟩ := resolve_keeps (s := s)
  rwa [ExitDone, hresult, htrigger]

theorem ExitDone.cancel (h : s.ExitDone) (m : CancelMessage) : (s.cancel m).ExitDone :=
  h.imp (fun ht => by rwa [cancel_keeps.1]) cancel_settles

theorem ResolveDone.exit (h : s.ResolveDone) (m : ExitMessage) : (s.exit m).ResolveDone := by
  obtain ⟨hresult, -, -, -, hclosed⟩ := exit_keeps (s := s) (m := m)
  rwa [ResolveDone, hresult, hclosed]

theorem ResolveDone.cancel (h : s.ResolveDone) (m : CancelMessage) : (s.cancel m).ResolveDone := by
  rintro ⟨hp, hopen⟩
  by_cases hs : s.result = .pending
  · exact h ⟨hs, cancel_keeps.2 ▸ hopen⟩
  · exact cancel_settles hs hp

/-- A step that keeps the result and the entry keeps a cancel done. -/
theorem CancelDone.of_keeps {s' : OrderAccount} {m : CancelMessage} (h : s.CancelDone m)
    (hresult : s'.result = s.result) (hamount : s'.amount = s.amount)
    (hshares : s'.numShares = s.numShares) (havg : s'.avgPrice = s.avgPrice) : s'.CancelDone m := by
  refine h.imp (fun hr => by rwa [hresult]) fun ⟨hfilled, hkeep⟩ => ⟨hfilled, ?_⟩
  have hn : some m.filled = s.numShares := congrArg numShares hkeep
  have ha : some m.avgEntryPrice = s.avgPrice := congrArg avgPrice hkeep
  have hc : round8 (m.filled * m.avgEntryPrice) = s.amount := congrArg amount hkeep
  unfold keepFilled
  rw [hn, ha, hc, ← hamount, ← hshares, ← havg]

end OrderAccount

/-! ## Streams with copies -/

/-- One delivery of the message `msgId`. -/
structure Delivery where
  msgId : ℕ
  now : Time
  message : OrderMessage
  deriving DecidableEq, Repr

/-- The handler of a delivery.  No candle is fetched for these messages. -/
def Database.handle (db : Database) (d : Delivery) : Database :=
  db.deliver d.now (fun _ => none) d.message

/-- Exits, market-resolved messages and one cancel of an order, each delivered any number of
times. -/
structure CopiedStream (id : ℕ) (ds : List Delivery) : Prop where
  about : ∀ d ∈ ds, d.message.About id
  noFill : ∀ d ∈ ds, ∀ m, d.message ≠ .fill m
  copies : ∀ d ∈ ds, ∀ d' ∈ ds, d.msgId = d'.msgId → d.message = d'.message
  oneCancel : ∀ d ∈ ds, ∀ d' ∈ ds, ∀ m m', d.message = .cancel m → d'.message = .cancel m' → m = m'

/-- The message was handled, as far as the account tells. -/
def OrderAccount.Done (s : OrderAccount) : OrderMessage → Prop
  | .exit _ => s.ExitDone
  | .resolved _ => s.ResolveDone
  | .cancel m => s.CancelDone m
  | .fill _ => False

section

variable {id : ℕ} {ds : List Delivery} {db : Database}

/-- **The account absorbs** exits, market-resolved messages and a cancel. -/
theorem CopiedStream.absorbing (h : CopiedStream id ds) :
    Absorbing (fun (s : OrderAccount) (d : Delivery) => s.step d.message) Delivery.msgId
      OrderAccount.Paired (· ∈ ds) (fun s d => s.Done d.message) where
  keep s d hs hd := by
    cases hm : d.message with
    | fill m => exact absurd hm (h.noFill d hd m)
    | cancel m => exact hs.cancel m
    | exit m => exact hs.exit m
    | resolved boIds => exact hs.resolve
  handled s d hs hd := by
    cases hm : d.message with
    | fill m => exact absurd hm (h.noFill d hd m)
    | cancel m => exact OrderAccount.cancelDone_cancel m
    | exit m => exact OrderAccount.exitDone_exit hs m
    | resolved boIds => exact OrderAccount.resolveDone_resolve
  lasts s d d' hs hd hd' hdone := by
    obtain ⟨hresult, hamount, hshares, havg, -⟩ := OrderAccount.resolve_keeps (s := s)
    cases hm : d.message with
    | fill m => exact absurd hm (h.noFill d hd m)
    | cancel m =>
      rw [hm] at hdone
      cases hm' : d'.message with
      | fill m' => exact absurd hm' (h.noFill d' hd' m')
      | cancel m' =>
        obtain rfl := h.oneCancel d hd d' hd' m m' hm hm'
        exact OrderAccount.cancelDone_cancel m
      | exit m' =>
        obtain ⟨hresult, hamount, hshares, havg, -⟩ := OrderAccount.exit_keeps (s := s) (m := m')
        exact OrderAccount.CancelDone.of_keeps hdone hresult hamount hshares havg
      | resolved boIds => exact OrderAccount.CancelDone.of_keeps hdone hresult hamount hshares havg
    | exit m =>
      rw [hm] at hdone
      cases hm' : d'.message with
      | fill m' => exact absurd hm' (h.noFill d' hd' m')
      | cancel m' => exact OrderAccount.ExitDone.cancel hdone m'
      | exit m' => exact OrderAccount.exitDone_exit hs m'
      | resolved boIds => exact OrderAccount.ExitDone.resolve hdone
    | resolved boIds =>
      rw [hm] at hdone
      cases hm' : d'.message with
      | fill m' => exact absurd hm' (h.noFill d' hd' m')
      | cancel m' => exact OrderAccount.ResolveDone.cancel hdone m'
      | exit m' => exact OrderAccount.ResolveDone.exit hdone m'
      | resolved boIds' => exact OrderAccount.resolveDone_resolve
  skip s d hs hd hdone := by
    cases hm : d.message with
    | fill m => exact absurd hm (h.noFill d hd m)
    | cancel m => rw [hm] at hdone; exact OrderAccount.CancelDone.cancel hdone
    | exit m => rw [hm] at hdone; exact OrderAccount.ExitDone.exit hdone m
    | resolved boIds => rw [hm] at hdone; exact OrderAccount.ResolveDone.resolve hdone
  copy s d d' hd hd' hkey hdone := by
    rwa [h.copies d' hd' d hd hkey]

/-- The account after a sequence of deliveries, none of which settles the order late. -/
theorem account_foldl (hds : ∀ d ∈ ds, d.message.About id)
    (hfill : ∀ d ∈ ds, ∀ f, d.message = .fill f → f.status ≠ .filled) :
    (ds.foldl Database.handle db).account id =
      (db.account id).map fun s => ds.foldl (fun s d => s.step d.message) s := by
  induction ds generalizing db with
  | nil => simp
  | cons d ds ih =>
    have hd : d ∈ d :: ds := List.mem_cons_self ..
    rw [List.foldl_cons, ih (fun x hx => hds x (List.mem_cons_of_mem _ hx))
      (fun x hx => hfill x (List.mem_cons_of_mem _ hx)), Database.handle,
      account_deliver (hds d hd) (hfill d hd), Option.map_map]
    rfl

theorem mem_of_mem_firstCopies {seen : List ℕ} {d : Delivery}
    (h : d ∈ firstCopies Delivery.msgId seen ds) : d ∈ ds := by
  induction ds generalizing seen with
  | nil => exact h
  | cons a ds ih =>
    unfold firstCopies at h
    split at h
    · exact List.mem_cons_of_mem _ (ih h)
    · rcases List.mem_cons.mp h with rfl | h
      · exact List.mem_cons_self ..
      · exact List.mem_cons_of_mem _ (ih h)

/-- **Copies are harmless.**  However often and how late the exits, the market-resolved messages and
the cancel of an order are delivered again, its account is what the first copies make of it. -/
theorem copies_harmless (hrow : ∀ bo ∈ db.orders.get id, bo.avgPrice = none ↔ bo.numShares = none)
    (hds : CopiedStream id ds) :
    (ds.foldl Database.handle db).account id =
      ((firstCopies Delivery.msgId [] ds).foldl Database.handle db).account id := by
  have hfill : ∀ d ∈ ds, ∀ f, d.message = .fill f → f.status ≠ .filled :=
    fun d hd f hf => absurd hf (hds.noFill d hd f)
  rw [account_foldl hds.about hfill,
    account_foldl (fun d hd => hds.about d (mem_of_mem_firstCopies hd))
      (fun d hd => hfill d (mem_of_mem_firstCopies hd))]
  cases hget : db.orders.get id with
  | none => rw [account_none hget]; rfl
  | some bo =>
    rw [account_some hget, Option.map_some, Option.map_some]
    exact congrArg some (hds.absorbing.foldl (fun _ h => h) (hrow bo hget)
      fun d _ hkey => absurd hkey List.not_mem_nil)

end

/-- An exit of ten shares at `0.60` and the cancel of the rest, each delivered twice. -/
def exitAndCancelTwice : List Delivery :=
  [⟨1, 5, .exit ⟨1, .tp, 3 / 5, 10, some 7, none, none⟩⟩, ⟨2, 6, .cancel halfCancel⟩,
    ⟨2, 7, .cancel halfCancel⟩, ⟨1, 8, .exit ⟨1, .tp, 3 / 5, 10, some 7, none, none⟩⟩]

theorem copies_harmless_exitAndCancel :
    (exitAndCancelTwice.foldl Database.handle oneOrderDb).account 1 =
      ((firstCopies Delivery.msgId [] exitAndCancelTwice).foldl Database.handle oneOrderDb).account
        1 := by
  refine copies_harmless (by decide) ⟨?_, ?_, ?_, ?_⟩
  · simp [exitAndCancelTwice, OrderMessage.About, halfCancel]
  · simp [exitAndCancelTwice]
  · simp [exitAndCancelTwice]
  · simp [exitAndCancelTwice]

end PolyArena
