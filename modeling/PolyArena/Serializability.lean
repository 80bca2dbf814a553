import PolyArena.TransactionsAlone

/-!
# Serializability of the balance transactions

The API workers, the stream consumers and the scheduler run their transactions at once.

1. `serializable_of_undisturbed`: when no transaction commits after another one changed what it
   read, the bots and the orders are what the committed transactions leave one after the other, and
   no order is decided twice.
2. `refunded_twice`: nothing in the code keeps that from happening.  A cancel and a settlement pass
   that both find an order pending both refund it.
-/

namespace PolyArena

open Rounding

/-! ## Decided once -/

/-- There is an order `k`, and it is pending. -/
def Accounts.isPending (x : Accounts) (k : ℕ) : Bool :=
  x.orders.rows.any fun row => row.id = k ∧ row.result = .pending

/-- How many of the transactions find the order `k` pending and leave it decided, when they run one
after the other. -/
def decisions (k : ℕ) : Database → List BalanceTransaction → ℕ
  | _, [] => 0
  | db, t :: rest =>
    (if db.accounts.isPending k ∧ ¬ (t.apply db).accounts.isPending k then 1 else 0) +
      decisions k (t.apply db) rest

section Decided

variable {k : ℕ} {db : Database} {row : BinaryOption}

theorem isPending_iff {x : Accounts} :
    x.isPending k = true ↔ ∃ row ∈ x.orders.rows, row.id = k ∧ row.result = .pending := by
  simp [Accounts.isPending]

/-- An order that is there and decided is not pending. -/
theorem not_isPending_of_decided {x : Accounts} (hmem : row ∈ x.orders.rows)
    (hdecided : row.result ≠ .pending) : ¬ x.isPending row.id = true := by
  intro hpending
  obtain ⟨row', hmem', hid, hresult⟩ := isPending_iff.mp hpending
  have hget := Table.get_of_mem hmem'
  rw [hid, Table.get_of_mem hmem, Option.some.injEq] at hget
  exact hdecided (hget ▸ hresult)

theorem decisions_of_decided {ts : List BalanceTransaction} (hmem : row ∈ db.orders.rows)
    (hdecided : row.result ≠ .pending) : decisions row.id db ts = 0 := by
  induction ts generalizing db row with
  | nil => rfl
  | cons t rest ih =>
    obtain ⟨row', hmem', hid, hresult⟩ := run_txn_keepsRow t (x := db.accounts) hmem
    rw [← accounts_apply] at hmem'
    have hdecided' : row'.result ≠ .pending := by
      rcases hresult with hpending | hsame
      · exact absurd hpending hdecided
      · rwa [hsame]
    have hnot : ¬ db.accounts.isPending row.id = true := not_isPending_of_decided hmem hdecided
    rw [decisions, if_neg fun h => hnot h.1, zero_add, ← hid]
    exact ih hmem' hdecided'

/-- **One after the other, the transactions decide an order once.** -/
theorem decisions_le_one (k : ℕ) (db : Database) (ts : List BalanceTransaction) :
    decisions k db ts ≤ 1 := by
  induction ts generalizing db with
  | nil => exact Nat.zero_le _
  | cons t rest ih =>
    rw [decisions]
    split
    · next h =>
      obtain ⟨row, hmem, rfl, -⟩ := isPending_iff.mp h.1
      obtain ⟨row', hmem', hid, -⟩ := run_txn_keepsRow t hmem
      rw [← accounts_apply] at hmem'
      have hdecided : row'.result ≠ .pending := fun hpending =>
        h.2 (isPending_iff.mpr ⟨row', hmem', hid, hpending⟩)
      rw [← hid, decisions_of_decided hmem' hdecided]
    · rw [zero_add]
      exact ih (t.apply db)

end Decided

/-! ## Concurrent runs -/

/-- **Undisturbed commits are serializable**: the bots and the orders are what the committed
transactions leave one after the other, and no order is decided twice. -/
theorem serializable_of_undisturbed {db : Database} {s : Concurrent Accounts BalanceTransaction}
    (h : Run (Concurrent.step BalanceTransaction.txn) (fun s a => s.undisturbed a = true)
      (.init db.accounts) s) :
    s.store = (serially db s.committed).accounts ∧ ∀ k, decisions k db s.committed ≤ 1 := by
  refine ⟨?_, fun k => decisions_le_one k db s.committed⟩
  rw [accounts_serially]
  exact Concurrent.serializable h

/-! ## Two samples -/

/-- `alpha` holds an order of `10` that is due and was never filled; `beta` has `100`. -/
def dueDb : Database where
  bots := ⟨[{ botName := "alpha", apiKey := "a", initialBalance := 100, balance := 90 },
            { botName := "beta", apiKey := "b", initialBalance := 100, balance := 100 }], by simp⟩
  orders := ⟨[{ id := 1, botName := "alpha", symbol := .btc, timeframe := .m5, forecast := .green,
                amount := 10, settlementAt := some 900, limitPrice := some (1 / 2),
                meOrderStatus := some .pending }], by simp⟩
  users := ⟨[], List.nodup_nil⟩

/-- The engine gives the order of `dueDb` up. -/
def cancelDue : BalanceTransaction := .cancel ⟨1, some 7, .ttlExpired, 0, 0⟩

/-- The settlement pass at `1000`. -/
def settleDue : BalanceTransaction := .settle 1000 fun _ => none

/-- The best ask is above the limit of `limitRequest`. -/
def asksAboveLimit : SnapshotRead := .asks [⟨3 / 5, 10, pos_three_fifths, nonneg_ten⟩]

/-- `alpha` places another order of `10`. -/
def createForAlpha : BalanceTransaction :=
  .createBo 1000 "a" limitRequest asksAboveLimit asksAboveLimit 2

/-- The cancel reads the order, `alpha`'s other order is created, and then the cancel reads
`alpha`. -/
def undisturbedActions : List (TxnAction BalanceTransaction) :=
  [.start 0 cancelDue, .start 1 createForAlpha, .proceed 0, .proceed 1, .proceed 1, .proceed 0,
    .proceed 0]

/-- Both take effect on the balance of `alpha`. -/
theorem serializable_of_undisturbed_alpha :
    ∃ s : Concurrent Accounts BalanceTransaction, (s.store = (serially dueDb s.committed).accounts ∧
      ∀ k, decisions k dueDb s.committed ≤ 1) ∧ s.committed.length = 2 ∧
      s.store.orders.rows.map BinaryOption.result = [.cancelled, .pending] ∧
      s.store.bots.rows.map Bot.balance = [90, 100] := by
  have hexec : (exec (Concurrent.step BalanceTransaction.txn) (fun s a => s.undisturbed a = true)
      (.init dueDb.accounts) undisturbedActions).map (fun s => (s.committed.length,
        s.store.orders.rows.map BinaryOption.result, s.store.bots.rows.map Bot.balance)) =
          some (2, [.cancelled, .pending], [90, 100]) := by
    decide +kernel
  obtain ⟨s, hs, hend⟩ := Option.map_eq_some_iff.mp hexec
  rw [Prod.mk.injEq, Prod.mk.injEq] at hend
  exact ⟨s, serializable_of_undisturbed (run_of_exec hs), hend⟩

/-- Both read the pending order; the cancel commits, and the pass reads `alpha` after it. -/
def refundedTwiceActions : List (TxnAction BalanceTransaction) :=
  [.start 0 cancelDue, .start 1 settleDue, .proceed 0, .proceed 1, .proceed 0,
    .proceed 0, .proceed 1, .proceed 1]

/-- **A cancel and a settlement pass refund the same order**: `alpha` ends with `110`, and with
`100` when either of them runs after the other. -/
theorem refunded_twice :
    (∃ s : Concurrent Accounts BalanceTransaction,
      Run (Concurrent.step BalanceTransaction.txn) (fun _ _ => True) (.init dueDb.accounts) s ∧
      s.committed = [cancelDue, settleDue] ∧ s.store.bots.rows.map Bot.balance = [110, 100]) ∧
    (serially dueDb [cancelDue, settleDue]).bots.rows.map Bot.balance = [100, 100] ∧
    (serially dueDb [settleDue, cancelDue]).bots.rows.map Bot.balance = [100, 100] := by
  refine ⟨?_, by decide +kernel, by decide +kernel⟩
  have hexec : (exec (Concurrent.step BalanceTransaction.txn) (fun _ _ => True)
      (.init dueDb.accounts) refundedTwiceActions).map
        (fun s => s.store.bots.rows.map Bot.balance) =
        some [110, 100] := by
    decide +kernel
  obtain ⟨s, hs, hbalance⟩ := Option.map_eq_some_iff.mp hexec
  refine ⟨s, run_of_exec hs, ?_, hbalance⟩
  cases hs
  rfl

end PolyArena
