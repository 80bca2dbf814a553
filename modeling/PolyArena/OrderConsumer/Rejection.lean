import PolyArena.OrderConsumer.Remainder
import PolyArena.Redelivery

/-!
# Cancels of orders that hold shares

A row can hold shares that the API bought before the consumer sees the order, or that another order
bought before a restart.  When the consumer rejects the payload, the cancel it publishes reports no
fills, and the cancel handler takes the order for one that was never filled; when the order was
queued again, the cancel reports what was bought since.

1. `CancelOf` lists the cancels that are published for a row.
2. `KeepsFills` says what they should leave of its shares; they do exactly when they report them
   (`cancel_keeps_fills_iff`).
-/

namespace PolyArena

open Rounding

/-- The reasons of `_process_order` for an order that never reached a book. -/
def rejectReasons : List CancelReason := [.sessionNotFound, .noTokenResolved, .tokenRotated]

/-- The cancels that the consumer publishes for the row. -/
inductive CancelOf (bo : BinaryOption) : CancelMessage → Prop
  | rejected (reason : CancelReason) (h : reason ∈ rejectReasons) :
      CancelOf bo ⟨bo.id, none, reason, 0, 0⟩
  /-- A book gave the order up.  It reports what it filled itself: after a restart the order was
  queued again and starts at zero. -/
  | ofEvent (e : OrderStateChangeEvent) (hcancel : e.eventType = .cancel)
      (havg : 0 < e.filled → ∃ a ∈ e.avgEntryPrice, 0 < a) : CancelOf bo (e.cancelMessage bo.id)
  /-- The order was cancelled when it was placed. -/
  | immediate (o : SimulatedOrder) (havg : 0 < o.filled → ∃ a ∈ o.avgEntryPrice, 0 < a) :
      CancelOf bo (o.iocCancelMessage bo.id)

/-- The cancel reports the shares of the row and what they cost. -/
def BinaryOption.ReportedBy (bo : BinaryOption) (m : CancelMessage) : Prop :=
  ∀ n ∈ bo.numShares, n ≤ m.filled ∧
    ∀ a ∈ bo.avgPrice, round8 (n * a) ≤ round8 (m.filled * m.avgEntryPrice)

/-- The shares of the row are still in it: it is pending with them and their cost, the bot got back
at most what they did not cost, and every candle settles them. -/
structure KeepsShares (db : Database) (bo : BinaryOption) (db' : Database) (bo' : BinaryOption) :
    Prop where
  pending : bo'.result = .pending
  shares : ∀ n ∈ bo.numShares, ∃ n' ∈ bo'.numShares, n ≤ n'
  cost : ∀ n ∈ bo'.numShares, ∀ a ∈ bo'.avgPrice, bo'.amount = round8 (n * a)
  kept : ∀ n ∈ bo.numShares, ∀ a ∈ bo.avgPrice, round8 (n * a) ≤ bo'.amount
  refund : ∀ bot ∈ db.bots.get bo.botName, ∀ bot' ∈ db'.bots.get bo.botName,
    bot'.balance - bot.balance ≤ max 0 (round8 (bo.amount - bo'.amount))
  pays : ∀ c, ∃ result profit, verdict bo' c = .settled result profit

/-- What a cancel should leave of the row. -/
def KeepsFills (db : Database) (bo : BinaryOption) (db' : Database) : Prop :=
  ∃ bo' ∈ db'.orders.get bo.id, KeepsShares db bo db' bo'

section

variable {db : Database} {bo : BinaryOption} {m : CancelMessage} {n : ℚ}

/-- Crediting a bot changes its balance by the credit, up to the rounding. -/
theorem creditBot_balance {name : BotName} {x : ℚ} {bot bot' : Bot}
    (hbot : db.bots.get name = some bot) (hbot' : (db.creditBot name x).bots.get name = some bot') :
    bot'.balance = round8 (bot.balance + x) := by
  unfold Database.creditBot at hbot'
  rw [hbot] at hbot'
  have hname := Table.key_of_get hbot
  subst hname
  have hput := Table.get_put_self (a := { bot with balance := round8 (bot.balance + x) }) hbot
  rw [show (db.setBot { bot with balance := round8 (bot.balance + x) }).bots =
    db.bots.put { bot with balance := round8 (bot.balance + x) } from rfl] at hbot'
  rw [← Option.some.inj (hput.symm.trans hbot')]

theorem round8_max_le {x : ℚ} : round8 (max 0 x) ≤ max 0 (round8 x) := by
  rcases le_total x 0 with hx | hx
  · rw [max_eq_left hx]
    exact (roundTo_zero 8).trans_le (le_max_left _ _)
  · rw [max_eq_right hx]
    exact le_max_right _ _

/-- What a cancel with fills adds to the balance. -/
theorem unfilledRefund_le {bot bot' : Bot} {db₁ : Database} (hbots : db₁.bots = db.bots)
    (hbot : db.bots.get bo.botName = some bot) (hgrid : bot.balance ∈ grid 8)
    (hbot' : (if 0 < unfilledRefund bo m then db₁.refundBot bo.botName (unfilledRefund bo m) bo.id
      else db₁).bots.get bo.botName = some bot') :
    bot'.balance - bot.balance ≤
      max 0 (round8 (bo.amount - round8 (m.filled * m.avgEntryPrice))) := by
  rw [← hbots] at hbot
  split at hbot'
  · rw [refundBot_bots] at hbot'
    rw [creditBot_balance hbot hbot',
      show round8 (bot.balance + unfilledRefund bo m) = bot.balance + unfilledRefund bo m from
        roundTo_of_mem (add_mem hgrid (roundTo_mem_grid _ _)), add_sub_cancel_left]
    exact round8_max_le
  · rw [← Option.some.inj (hbot.symm.trans hbot'), sub_self]
    exact le_max_left _ _

/-- A cancel with fills, of an order that is pending. -/
theorem handleOrderCancel_partial (hget : db.orders.get m.boId = some bo)
    (hpending : bo.result = .pending) (hfill : 0 < m.filled ∧ 0 < m.avgEntryPrice) :
    (handleOrderCancel db m).1.orders.get bo.id = some (partialCancelRow bo m) := by
  have hput : (db.orders.put (partialCancelRow bo m)).get bo.id = some (partialCancelRow bo m) :=
    Table.get_put_self (a := partialCancelRow bo m) (r := bo) (Table.get_key_of_get hget)
  unfold handleOrderCancel
  rw [hget]
  dsimp only
  rw [if_neg (not_not.mpr hpending), if_pos hfill]
  dsimp only
  split <;> simpa using hput

theorem keepsFills_partial (hget : db.orders.get m.boId = some bo)
    (hgrid : ∀ bot ∈ db.bots.get bo.botName, bot.balance ∈ grid 8) (hpending : bo.result = .pending)
    (hfill : 0 < m.filled ∧ 0 < m.avgEntryPrice) (hreported : bo.ReportedBy m) :
    KeepsFills db bo (handleOrderCancel db m).1 := by
  refine ⟨partialCancelRow bo m, handleOrderCancel_partial hget hpending hfill, ?_⟩
  refine {
    pending := hpending
    shares := fun n hn => ⟨m.filled, rfl, (hreported n hn).1⟩
    cost := fun n hn a ha => by cases hn; cases ha; rfl
    kept := fun n hn => (hreported n hn).2
    refund := fun bot hbot bot' hbot' => unfilledRefund_le
      (show (db.setOrder (partialCancelRow bo m)).bots = db.bots from rfl) hbot (hgrid bot hbot) ?_
    pays := fun c => (verdict_of_fills c rfl rfl).imp fun r h => h.imp fun p h => h.1 }
  unfold handleOrderCancel at hbot'
  rw [hget] at hbot'
  dsimp only at hbot'
  rwa [if_neg (not_not.mpr hpending), if_pos hfill] at hbot'

/-- A cancel without fills leaves nothing of the row. -/
theorem not_keepsFills_zeroFill (hget : db.orders.get m.boId = some bo)
    (hpending : bo.result = .pending) (hzero : ¬ (0 < m.filled ∧ 0 < m.avgEntryPrice)) :
    ¬ KeepsFills db bo (handleOrderCancel db m).1 := by
  have hput := Table.get_put_self (a := zeroFillCancelRow bo m) (t := db.orders) (r := bo)
    (Table.get_key_of_get hget)
  unfold handleOrderCancel
  rw [hget]
  dsimp only
  rw [if_neg (not_not.mpr hpending), if_neg hzero]
  rintro ⟨bo', hbo', hkeeps⟩
  have hrow : (db.orders.put (zeroFillCancelRow bo m)).get bo.id = some bo' := by simpa using hbo'
  have hcancelled := hkeeps.pending
  rw [← Option.some.inj (hput.symm.trans hrow)] at hcancelled
  cases hcancelled

/-- What is kept was reported, with fills. -/
theorem reported_of_keepsFills (hget : db.orders.get m.boId = some bo)
    (hpending : bo.result = .pending) (h : KeepsFills db bo (handleOrderCancel db m).1) :
    bo.ReportedBy m := by
  have hfill : 0 < m.filled ∧ 0 < m.avgEntryPrice :=
    not_not.mp fun hzero => not_keepsFills_zeroFill hget hpending hzero h
  obtain ⟨bo', hbo', hkeeps⟩ := h
  have hrow := handleOrderCancel_partial hget hpending hfill
  obtain rfl : partialCancelRow bo m = bo' := Option.some.inj (hrow.symm.trans hbo')
  intro n hn
  obtain ⟨n', hn', hle⟩ := hkeeps.shares n hn
  obtain rfl : m.filled = n' := Option.some.inj hn'
  exact ⟨hle, hkeeps.kept n hn⟩

/-- A cancel that reports fills has their price. -/
theorem CancelOf.avg_pos (hm : CancelOf bo m) (hfill : 0 < m.filled) : 0 < m.avgEntryPrice := by
  cases hm with
  | rejected reason _ => exact absurd hfill (lt_irrefl _)
  | ofEvent e _ havg =>
    obtain ⟨avg, hsome, hpos⟩ := havg hfill
    rwa [OrderStateChangeEvent.cancelMessage, hsome]
  | immediate o havg =>
    obtain ⟨avg, hsome, hpos⟩ := havg hfill
    rwa [SimulatedOrder.iocCancelMessage, hsome]

/-- **A cancel keeps the shares of the row** exactly when it reports them and what they cost. -/
theorem cancel_keeps_fills_iff (hget : db.orders.get m.boId = some bo)
    (hgrid : ∀ bot ∈ db.bots.get bo.botName, bot.balance ∈ grid 8) (hpending : bo.result = .pending)
    (hshares : bo.numShares = some n) (hpos : 0 < n) (hm : CancelOf bo m) :
    KeepsFills db bo (handleOrderCancel db m).1 ↔ bo.ReportedBy m := by
  refine ⟨reported_of_keepsFills hget hpending, fun hreported => ?_⟩
  have hfill : 0 < m.filled := hpos.trans_le (hreported n hshares).1
  exact keepsFills_partial hget hgrid hpending ⟨hfill, hm.avg_pos hfill⟩ hreported

end

/-- The rest of a half-filled order expires: the ten shares stay. -/
theorem cancel_keeps_half_fill : ∃ bo, halfFilledDb.orders.get 1 = some bo ∧
    bo.numShares = some 10 ∧ KeepsFills halfFilledDb bo
      (handleOrderCancel halfFilledDb halfCancel).1 := by
  have hrun : (halfFilledDb.orders.get 1).any (fun bo => decide (bo.numShares = some 10 ∧
      bo.avgPrice = some (1 / 2) ∧ bo.result = .pending ∧ bo.id = 1)) = true := by
    decide +kernel
  obtain ⟨bo, hbo, hrun⟩ := Option.any_eq_true _ _ |>.mp hrun
  obtain ⟨hshares, havg, hpending, hid⟩ := of_decide_eq_true hrun
  have hcancel : CancelOf bo halfCancel := by
    rw [show halfCancel = (⟨7, .cancel, 10, some (1 / 2), .canceled, some .ttlExpired, []⟩ :
      OrderStateChangeEvent).cancelMessage bo.id by rw [hid]; rfl]
    exact .ofEvent _ rfl fun _ => ⟨_, rfl, by norm_num⟩
  have hreported : bo.ReportedBy halfCancel := by
    intro n hn
    obtain rfl : 10 = n := Option.some.inj (hshares.symm.trans hn)
    refine ⟨le_rfl, fun a ha => ?_⟩
    obtain rfl : 1 / 2 = a := Option.some.inj (havg.symm.trans ha)
    exact le_rfl
  have hgrid : halfFilledDb.bots.rows.all (fun bot => decide (bot.balance ∈ grid 8)) = true := by
    decide +kernel
  exact ⟨bo, hbo, hshares, (cancel_keeps_fills_iff hbo
    (fun bot hbot => of_decide_eq_true (List.all_eq_true.mp hgrid bot (Table.mem_of_get hbot)))
    hpending hshares (by norm_num) hcancel).mpr hreported⟩

/-! ## A rejected remainder -/

/-- A service whose sessions are all gone. -/
def emptyService : FeedService where
  manager := ⟨⟨[], List.nodup_nil⟩⟩

/-- **A rejection takes the shares away**: `create_bo` fills ten shares, the session of the queued
remainder is gone, and the cancel that is published for it cancels the row. -/
theorem rejection_unwinds_fill : ∃ c m x, limitOnThinAsks = .ok c ∧ c.queued = some m ∧
    (emptyService.processOrder 1000 m.sessionId m 7).consumer.published = [.cancel x] ∧
    c.bo.numShares = some 10 ∧ CancelOf c.bo x ∧
    ¬ KeepsFills c.db c.bo (handleOrderCancel c.db x).1 := by
  have hrun : (match limitOnThinAsks with
      | .ok c => c.queued.any fun m => decide (c.bo.numShares = some 10 ∧ c.bo.id = 1 ∧
        c.bo.result = .pending ∧ m.boId = 1)
      | .error _ => false) = true := by
    decide +kernel
  cases hc : limitOnThinAsks with
  | error e => rw [hc] at hrun; cases hrun
  | ok c =>
    rw [hc] at hrun
    obtain ⟨m, hm, hrun⟩ := Option.any_eq_true _ _ |>.mp hrun
    obtain ⟨hshares, hid, hpending, hboId⟩ := of_decide_eq_true hrun
    refine ⟨c, m, ⟨m.boId, none, .sessionNotFound, 0, 0⟩, rfl, hm, rfl, hshares, ?_, ?_⟩
    · rw [hboId, ← hid]
      exact .rejected _ (by decide)
    · refine not_keepsFills_zeroFill ?_ hpending fun h => lt_irrefl _ h.1
      rw [show m.boId = c.bo.id from hboId.trans hid.symm]
      exact c.stored

end PolyArena
