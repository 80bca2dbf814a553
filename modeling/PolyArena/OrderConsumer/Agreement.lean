import PolyArena.Lib.Runs
import PolyArena.Refunds
import PolyArena.OrderConsumer.Delivery
import PolyArena.OrderConsumer.Rejection
import PolyArena.OrderConsumer.Telling

/-!
# The engine and the scheduler

The engine fills an order and publishes it; the API records what was published; the scheduler
settles or cancels by what is recorded.  `OrderFlow` puts the three together for one order row: the
consumer at its book, everything it published and that is still or again on its way, the database,
and the clock.

1. `FlowInv` holds after every step: the row is cancelled only after its settlement time, or when
   the engine will not fill it any more and never did.
2. `filled_not_refunded`: in every run in which no pass takes the row of a filled order for
   unfilled, an order with a fill before its settlement time is not cancelled.
3. `refunds_filled_order`: a pass that comes before the fill message.
-/

namespace PolyArena

open Relation ShadowOrderbook

/-- The row that is watched, and what surrounds it. -/
structure OrderFlow where
  row : ℕ
  desk : Desk
  db : Database
  now : Time := 0
  taken : Taken := []

/-- What can happen next. -/
inductive FlowAction
  | tick (t : Time)
  /-- the consumer or the feed at the book -/
  | desk (a : DeskAction)
  /-- the consumer refuses a payload before it comes to a book -/
  | refuse (boId : ℕ) (reason : CancelReason)
  /-- a message is handled; it may have been before -/
  | handle (fetch : CandleFetch) (m : OrderMessage)
  /-- a pass of the scheduler, or one that raises and is rolled back -/
  | settle (fetch : CandleFetch)
  | sweep (fetch : CandleFetch)
  /-- a transaction on other rows -/
  | other (db : Database)

/-- When the action happens, where that matters. -/
def DeskAction.time : DeskAction → Option Time
  | .place now .. | .placePrefilled now .. | .feedOp now _ => some now
  | .reject _ | .consume | .deliver => none

namespace OrderFlow

/-- The message was published.  Exits and resolved markets come from elsewhere. -/
def onItsWay (s : OrderFlow) : OrderMessage → Bool
  | .fill m => .fill m ∈ s.desk.consumer.published
  | .cancel m => .cancel m ∈ s.desk.consumer.published
  | .exit _ | .resolved _ => true

/-- No payload of the row was taken yet. -/
def isQueued (s : OrderFlow) (boId : ℕ) : Bool := boId ∉ s.taken.map Prod.fst

def step (s : OrderFlow) : FlowAction → Option OrderFlow
  | .tick t => if s.now ≤ t then some { s with now := t } else none
  | .desk a =>
    if (a.time.all fun t => t = s.now) ∧ (a.takes.all fun x => s.isQueued x.1) then
      (s.desk.step a).map fun d => { s with desk := d, taken := a.takes.toList ++ s.taken }
    else none
  | .refuse boId reason =>
    if reason ∈ rejectReasons ∧ s.desk.task = none ∧ s.isQueued boId then
      some { s with
        desk := { s.desk with consumer := s.desk.consumer.reject boId reason }
        taken := (boId, none) :: s.taken }
    else none
  | .handle fetch m =>
    if s.onItsWay m then some { s with db := s.db.deliver s.now fetch m } else none
  | .settle fetch => some { s with db := (settlePendingTrades s.now fetch s.db).getD s.db }
  | .sweep fetch => some { s with db := (sweepStuckOrders s.now fetch s.db).getD s.db }
  | .other db =>
    if db.orders.get s.row = s.db.orders.get s.row then some { s with db := db } else none

/-- The engine filled the order of the row. -/
def isFilled (s : OrderFlow) : Bool :=
  s.taken.any fun x => x.1 = s.row ∧
    (x.2.bind fun id => s.desk.book.orderObject id).any fun o => 0 < o.filled

/-- No pass takes the row of a filled order for unfilled. -/
def SeesFills (s : OrderFlow) : FlowAction → Prop
  | .settle fetch => s.isFilled = true → ∀ bo ∈ s.db.orders.get s.row, isDue s.now bo = true →
      ¬ bo.refundedAtSettlement fetch
  | .sweep fetch => s.isFilled = true → ∀ bo ∈ s.db.orders.get s.row, isStuck s.now bo = true →
      ¬ bo.refundedBySweep fetch
  | _ => True

instance (s : OrderFlow) (a : FlowAction) : Decidable (s.SeesFills a) := by
  unfold SeesFills
  cases a <;> infer_instance

/-- The engine starts, and the row is a pending one that settles at `close`. -/
structure Begins (s : OrderFlow) (close : Time) : Prop where
  desk : ∃ tokenId, s.desk = Desk.new tokenId
  taken : s.taken = []
  row : ∃ bo, s.db.orders.get s.row = some bo ∧ bo.result = .pending ∧ bo.settlementAt = some close

/-! ## The invariant -/

/-- The engine does not fill the order of the row: it was refused, or it is over without a fill. -/
def Unfilled (s : OrderFlow) : Prop :=
  (s.row, none) ∈ s.taken ∨
    ∃ id, (s.row, some id) ∈ s.taken ∧ Final id s.desk.book.core ∧
      filledOf id s.desk.book.history ≤ 0

/-- What holds after every step. -/
structure FlowInv (close : Time) (s : OrderFlow) : Prop where
  desk : Desk.DeskTells s.taken s.desk
  once : (s.taken.map Prod.fst).Nodup
  row : ∃ bo, s.db.orders.get s.row = some bo ∧ bo.settlementAt = some close ∧
    (bo.result = .cancelled → close ≤ s.now ∨ s.Unfilled)

section

variable {s s' s₀ s₁ : OrderFlow} {close : Time} {a : FlowAction} {bo : BinaryOption} {id : OrderId}
  {P : BinaryOption → Prop}

theorem isFilled_iff (h : Desk.DeskTells s.taken s.desk) : s.isFilled = true ↔
    ∃ id, (s.row, some id) ∈ s.taken ∧ 0 < filledOf id s.desk.book.history := by
  unfold isFilled
  rw [List.any_eq_true]
  constructor
  · rintro ⟨⟨boId, order⟩, hmem, hx⟩
    obtain ⟨rfl, hx⟩ := of_decide_eq_true hx
    obtain ⟨o, ho, hpos⟩ := (Option.any_eq_true _ _).mp hx
    obtain ⟨id, rfl, ho⟩ := Option.bind_eq_some_iff.mp ho
    refine ⟨id, hmem, ?_⟩
    rw [← (orderObject_filled h.inv.book ho).2]
    exact of_decide_eq_true hpos
  · rintro ⟨id, hmem, hpos⟩
    have hplaced : .placed id ∈ s.desk.book.history := by
      by_contra hfresh
      have hnone : entryFills id s.desk.book.history = [] := h.inv.book.balance.known id hfresh
      rw [filledOf, hnone] at hpos
      exact absurd hpos (lt_irrefl _)
    obtain ⟨o, ho⟩ := exists_orderObject h.inv.book hplaced
    refine ⟨_, hmem, decide_eq_true ⟨rfl, (Option.any_eq_true _ _).mpr ⟨o, ho, ?_⟩⟩⟩
    rw [decide_eq_true_eq, (orderObject_filled h.inv.book ho).2]
    exact hpos

/-- A row has one order at most. -/
theorem FlowInv.unique (h : FlowInv close s) {x y : Option OrderId} (hx : (s.row, x) ∈ s.taken)
    (hy : (s.row, y) ∈ s.taken) : x = y := by
  have hsame := List.inj_on_of_nodup_map h.once hx hy rfl
  exact congrArg Prod.snd hsame

/-- A filled order is not one that the engine does not fill. -/
theorem FlowInv.not_unfilled (h : FlowInv close s) (hfilled : s.isFilled = true) :
    ¬ s.Unfilled := by
  obtain ⟨id, hmem, hpos⟩ := (isFilled_iff h.desk).mp hfilled
  rintro (hrefused | ⟨id', hmem', -, hzero⟩)
  · cases h.unique hrefused hmem
  · cases h.unique hmem' hmem
    exact absurd hpos (not_lt.mpr hzero)

/-- A cancel that is on its way and reports no fills of the row: the engine does not fill its
order. -/
theorem FlowInv.unfilled_of_cancel (h : FlowInv close s) {m : CancelMessage}
    (hm : .cancel m ∈ s.desk.consumer.published) (hid : m.boId = s.row)
    (hnone : ¬ (0 < m.filled ∧ 0 < m.avgEntryPrice)) : s.Unfilled := by
  rcases h.desk.consumer.cancels m hm with hrefused | ⟨id, hmem, hcancelled⟩
  · exact .inl (hid ▸ hrefused)
  · refine .inr ⟨id, hid ▸ hmem, hcancelled.final, ?_⟩
    have hfilled : ¬ 0 < m.filled := fun hpos => hnone ⟨hpos, hcancelled.priced hpos⟩
    have htold : m.filled = filledOf id s.desk.book.history := hcancelled.told
    rw [← htold]
    exact not_lt.mp hfilled

/-! ## One step -/

/-- What an action cancels the row for. -/
def cancels (s : OrderFlow) (bo : BinaryOption) : FlowAction → Prop
  | .handle _ m =>
    bo.result = .pending ∧ ∃ x, m = .cancel x ∧ .cancel x ∈ s.desk.consumer.published ∧
      x.boId = s.row ∧ ¬ (0 < x.filled ∧ 0 < x.avgEntryPrice)
  | .settle fetch => isDue s.now bo = true ∧ bo.refundedAtSettlement fetch
  | .sweep fetch => isStuck s.now bo = true ∧ bo.refundedBySweep fetch ∨ isOrphaned s.now bo = true
  | _ => False

/-- What a step does: the engine goes on, no payload is taken twice, and the row is cancelled only
for what the action cancels it for. -/
structure Steps (s : OrderFlow) (a : FlowAction) (s' : OrderFlow) : Prop where
  row : s'.row = s.row
  now : s.now ≤ s'.now
  taken : ∀ x ∈ s.taken, x ∈ s'.taken
  once : (s'.taken.map Prod.fst).Nodup
  desk : Desk.DeskTells s'.taken s'.desk
  effects : Effects s.desk.book.core s'.desk.book.core
  db : CancelsOnly (fun bo => s.cancels bo a) s.row s.db s'.db

/-- A step of the database alone. -/
theorem Steps.withDb {db : Database} (h : FlowInv close s)
    (hdb : CancelsOnly (fun bo => s.cancels bo a) s.row s.db db) : Steps s a { s with db := db } :=
  ⟨rfl, le_rfl, fun _ hx => hx, h.once, h.desk, .refl, hdb⟩

theorem steps_desk {d : DeskAction} (h : FlowInv close s) (hstep : s.step (.desk d) = some s') :
    Steps s (.desk d) s' := by
  simp only [step] at hstep
  split at hstep
  · next hcan =>
    obtain ⟨-, hqueued⟩ := hcan
    obtain ⟨desk, hd, rfl⟩ := Option.map_eq_some_iff.mp hstep
    obtain ⟨htells, heffects⟩ := Desk.deskTells_step h.desk hd
    refine ⟨rfl, le_rfl, fun _ hx => List.mem_append_right _ hx, ?_, htells, heffects, .of_same rfl⟩
    cases htakes : d.takes with
    | none => exact h.once
    | some x =>
      rw [htakes] at hqueued
      have hfresh : x.1 ∉ s.taken.map Prod.fst := of_decide_eq_true hqueued
      exact List.nodup_cons.mpr ⟨hfresh, h.once⟩
  · cases hstep

theorem steps_refuse {boId : ℕ} {reason : CancelReason} (h : FlowInv close s)
    (hstep : s.step (.refuse boId reason) = some s') : Steps s (.refuse boId reason) s' := by
  simp only [step] at hstep
  split at hstep
  · next hcan =>
    obtain ⟨-, hidle, hqueued⟩ := hcan
    cases hstep
    have hfresh : boId ∉ s.taken.map Prod.fst := of_decide_eq_true hqueued
    have hmono : ConsumerTells ((boId, none) :: s.taken) s.desk.book.core s.desk.consumer :=
      h.desk.consumer.mono (fun _ hx => List.mem_cons_of_mem _ hx) .refl
    refine ⟨rfl, le_rfl, fun _ hx => List.mem_cons_of_mem _ hx,
      List.nodup_cons.mpr ⟨hfresh, h.once⟩, ?_, .refl, .of_same rfl⟩
    refine ⟨Desk.deskInv_reject h.desk.inv hidle boId reason, h.desk.priced,
      hmono.reject List.mem_cons_self, fun t ht => ?_, h.desk.feed⟩
    rw [show s.desk.task = some t from ht] at hidle
    cases hidle
  · cases hstep

theorem steps_handle {fetch : CandleFetch} {m : OrderMessage} (h : FlowInv close s)
    (hstep : s.step (.handle fetch m) = some s') : Steps s (.handle fetch m) s' := by
  simp only [step] at hstep
  split at hstep
  · next hway =>
    cases hstep
    refine .withDb h fun bo hget => ?_
    obtain ⟨bo', hget', ht, hr⟩ := deliver_cancels s.now fetch m bo hget
    refine ⟨bo', hget', ht, fun hc => (hr.mp hc).imp_right ?_⟩
    rintro ⟨hp, x, rfl, hid, hnone⟩
    exact ⟨hp, x, rfl, of_decide_eq_true hway, hid, hnone⟩
  · cases hstep

/-- **One step.** -/
theorem steps_of_step (h : FlowInv close s) (hstep : s.step a = some s') : Steps s a s' := by
  cases a with
  | tick t =>
    simp only [step] at hstep
    split at hstep
    · next hle =>
      cases hstep
      exact ⟨rfl, hle, fun _ hx => hx, h.once, h.desk, .refl, .of_same rfl⟩
    · cases hstep
  | desk d => exact steps_desk h hstep
  | refuse boId reason => exact steps_refuse h hstep
  | handle fetch m => exact steps_handle h hstep
  | settle fetch =>
    cases hstep
    exact .withDb h (.getD fun db' hpass => (settlePending_cancels hpass).only)
  | sweep fetch =>
    cases hstep
    exact .withDb h (.getD fun db' hpass => (sweepStuck_cancels hpass).only)
  | other db =>
    simp only [step] at hstep
    split at hstep
    · next hsame =>
      cases hstep
      exact .withDb h (.of_same hsame)
    · cases hstep

/-! ## Every run -/

theorem Steps.unfilled (hs : Steps s a s') (h : s.Unfilled) : s'.Unfilled := by
  unfold Unfilled at h ⊢
  rw [hs.row]
  rcases h with hrefused | ⟨id, hmem, hfinal, hzero⟩
  · exact .inl (hs.taken _ hrefused)
  · obtain ⟨hfinal', hfills⟩ := hfinal.effects hs.effects
    have hsame : filledOf id s'.desk.book.history = filledOf id s.desk.book.history :=
      congrArg (fun l => (l.map Prod.snd).sum) hfills
    exact .inr ⟨id, hs.taken _ hmem, hfinal', hsame.trans_le hzero⟩

theorem Steps.isFilled (hs : Steps s a s') (h : FlowInv close s) (hfilled : s.isFilled = true) :
    s'.isFilled = true := by
  obtain ⟨id, hmem, hpos⟩ := (isFilled_iff h.desk).mp hfilled
  refine (isFilled_iff hs.desk).mpr ⟨id, ?_, hpos.trans_le (effects_filledOf hs.effects id)⟩
  rw [hs.row]
  exact hs.taken _ hmem

/-- What a row with a settlement time is cancelled for. -/
theorem FlowInv.cancels_cases (h : FlowInv close s) (ht : bo.settlementAt = some close)
    (hc : s.cancels bo a) : close ≤ s.now ∨ s.Unfilled := by
  have hpast : ∀ t ≤ s.now, (∃ x ∈ bo.settlementAt, x ≤ t) → close ≤ s.now := by
    rintro t hle ⟨x, hx, hxt⟩
    rw [ht] at hx
    cases hx
    exact hxt.trans hle
  cases a with
  | handle fetch m =>
    obtain ⟨-, x, rfl, hway, hid, hnone⟩ := hc
    exact .inr (h.unfilled_of_cancel hway hid hnone)
  | settle fetch => exact .inl (hpast s.now le_rfl (of_decide_eq_true hc.1).2)
  | sweep fetch =>
    rcases hc with ⟨hstuck, -⟩ | horphan
    · exact .inl (hpast (s.now - STUCK_THRESHOLD) (by norm_num [STUCK_THRESHOLD])
        (of_decide_eq_true hstuck).2)
    · have hnone := (of_decide_eq_true horphan).2.1
      rw [ht] at hnone
      cases hnone
  | _ => exact hc.elim

/-- **The invariant** is kept by every step. -/
theorem flowInv_step (h : FlowInv close s) (hstep : s.step a = some s') : FlowInv close s' := by
  have hs := steps_of_step h hstep
  obtain ⟨bo, hget, ht, hrow⟩ := h.row
  obtain ⟨bo', hget', ht', hr⟩ := hs.db bo hget
  refine ⟨hs.desk, hs.once, bo', hs.row ▸ hget', ht'.trans ht, fun hc => ?_⟩
  have hbefore : close ≤ s.now ∨ s.Unfilled :=
    (hr hc).elim hrow fun hcancels => h.cancels_cases ht hcancels
  exact hbefore.imp (fun hle => hle.trans hs.now) hs.unfilled

theorem Begins.inv (h : s.Begins close) : FlowInv close s := by
  obtain ⟨tokenId, hdesk⟩ := h.desk
  obtain ⟨bo, hget, hp, ht⟩ := h.row
  refine ⟨?_, ?_, bo, hget, ht, fun hc => ?_⟩
  · rw [hdesk]
    exact Desk.deskTells_new tokenId
  · rw [h.taken]
    exact List.nodup_nil
  · rw [hp] at hc
    cases hc

/-- The row is not cancelled. -/
def Held (s : OrderFlow) : Prop := ∀ bo ∈ s.db.orders.get s.row, bo.result ≠ .cancelled

/-- **A guarded step** does not cancel the row of a filled order. -/
theorem held_step (h : FlowInv close s) (hguard : s.SeesFills a) (hstep : s.step a = some s')
    (hfilled : s.isFilled = true) (hheld : s.Held) : s'.Held := by
  have hs := steps_of_step h hstep
  obtain ⟨bo, hget, ht, -⟩ := h.row
  obtain ⟨bo', hget', -, hr⟩ := hs.db bo hget
  intro x hx hc
  have hsame : some bo' = some x := hget'.symm.trans (hs.row ▸ hx)
  cases hsame
  rcases hr hc with hold | hcancels
  · exact hheld bo hget hold
  cases a with
  | handle fetch m =>
    obtain ⟨-, x, rfl, hway, hid, hnone⟩ := hcancels
    exact h.not_unfilled hfilled (h.unfilled_of_cancel hway hid hnone)
  | settle fetch => exact hguard hfilled bo hget hcancels.1 hcancels.2
  | sweep fetch =>
    rcases hcancels with ⟨hstuck, hrefunded⟩ | horphan
    · exact hguard hfilled bo hget hstuck hrefunded
    · have hnone := (of_decide_eq_true horphan).2.1
      rw [ht] at hnone
      cases hnone
  | _ => exact hcancels.elim

theorem flowInv_run {guard : OrderFlow → FlowAction → Prop} (h : FlowInv close s₀)
    (hrun : Run step guard s₀ s) : FlowInv close s :=
  hrun.invariant (FlowInv close) h fun _ _ _ h _ hstep => flowInv_step h hstep

/-- **The engine and the scheduler agree**: an order that the engine filled before its settlement
time is never cancelled, in every run in which no pass takes the row of a filled order for
unfilled. -/
theorem filled_not_refunded (hbegin : s₀.Begins close) (hbefore : Run step SeesFills s₀ s₁)
    (hearly : s₁.now < close) (hfilled : s₁.isFilled = true) (hafter : Run step SeesFills s₁ s) :
    s.Held := by
  have h₁ : FlowInv close s₁ := flowInv_run hbegin.inv hbefore
  have hheld : s₁.Held := by
    obtain ⟨bo, hget, -, hrow⟩ := h₁.row
    intro x hx hc
    rw [hget] at hx
    cases hx
    rcases hrow hc with hlate | hunfilled
    · exact absurd hearly (not_lt.mpr hlate)
    · exact h₁.not_unfilled hfilled hunfilled
  have hall : FlowInv close s ∧ s.isFilled = true ∧ s.Held :=
    hafter.invariant (fun s => FlowInv close s ∧ s.isFilled = true ∧ s.Held) ⟨h₁, hfilled, hheld⟩
      fun s a s' hs hguard hstep => by
        obtain ⟨h, hfilled, hheld⟩ := hs
        exact ⟨flowInv_step h hstep, (steps_of_step h hstep).isFilled h hfilled,
          held_step h hguard hstep hfilled hheld⟩
  exact hall.2.2

end

/-! ## A pass before the message -/

/-- A row for the candle that closes at 1200, with the order queued. -/
def queuedFlow : OrderFlow where
  row := 1
  desk := .new "up"
  db := { oneOrderDb with
    orders := ⟨[{ id := 1, botName := "alpha", symbol := .btc, timeframe := .m5, forecast := .green,
                  amount := 10, settlementAt := some 1200, limitPrice := some (1 / 2),
                  meOrderStatus := some .pending }], by simp⟩ }

/-- At 1000 the engine fills ten of the twenty shares at `0.40`, and publishes it. -/
def fillsAtPlacement : List FlowAction :=
  [.tick 1000, .desk (.feedOp 1000 (Desk.offer (2 / 5) 10 pos_two_fifths)),
    .desk (.place 1000 1 7 Desk.twentyShares), .desk .consume, .desk .consume, .desk .consume]

/-- The message of the fill. -/
def fillOnItsWay : OrderMessage := .fill ⟨1, some 7, 10, 2 / 5, .partial_, none⟩

/-- The message is handled before the pass of 1200, which gets a green candle. -/
def messageFirst : List FlowAction :=
  [.handle (fun _ => none) fillOnItsWay, .tick 1200, .settle fun _ => some ⟨1, 2⟩]

/-- The message is handled after it. -/
def passFirst : List FlowAction :=
  [.tick 1200, .settle fun _ => some ⟨1, 2⟩, .handle (fun _ => none) fillOnItsWay]

theorem begins_queuedFlow : queuedFlow.Begins 1200 :=
  ⟨⟨"up", rfl⟩, rfl, _, rfl, rfl, rfl⟩

/-- The order is settled as one of ten shares. -/
theorem filled_not_refunded_messageFirst :
    (((exec step SeesFills queuedFlow fillsAtPlacement).bind fun s =>
      exec step SeesFills s messageFirst).any fun s =>
        (s.db.orders.get 1).map (·.result) == some .win) = true ∧
    ∀ s₁ s, exec step SeesFills queuedFlow fillsAtPlacement = some s₁ →
      exec step SeesFills s₁ messageFirst = some s → s₁.now < 1200 → s₁.isFilled = true → s.Held :=
  ⟨by decide +kernel, fun _ _ h₁ h hearly hfilled =>
    filled_not_refunded begins_queuedFlow (run_of_exec h₁) hearly hfilled (run_of_exec h)⟩

/-- **A filled order is refunded**: the pass comes first, and cancels the order as one that was
never filled.  The message changes nothing then. -/
theorem refunds_filled_order : ¬ ∀ (s₀ s₁ s : OrderFlow) (close : Time), s₀.Begins close →
    Run step (fun _ _ => True) s₀ s₁ → s₁.now < close → s₁.isFilled = true →
      Run step (fun _ _ => True) s₁ s → s.Held := by
  intro hall
  have hrun : ((exec step (fun _ _ => True) queuedFlow fillsAtPlacement).any fun s₁ =>
      decide (s₁.now < 1200) && s₁.isFilled &&
        (exec step (fun _ _ => True) s₁ passFirst).any fun s =>
          decide (s.row = 1) && (s.db.orders.get 1).map (·.result) == some .cancelled) = true := by
    decide +kernel
  obtain ⟨s₁, h₁, hstate⟩ := (Option.any_eq_true _ _).mp hrun
  rw [Bool.and_eq_true, Bool.and_eq_true] at hstate
  obtain ⟨s, h, hend⟩ := (Option.any_eq_true _ _).mp hstate.2
  rw [Bool.and_eq_true, beq_iff_eq, decide_eq_true_eq, Option.map_eq_some_iff] at hend
  obtain ⟨hrow, bo, hget, hcancelled⟩ := hend
  have hheld := hall queuedFlow s₁ s 1200 begins_queuedFlow (run_of_exec h₁)
    (of_decide_eq_true hstate.1.1) hstate.1.2 (run_of_exec h)
  exact hheld bo (hrow ▸ hget) hcancelled

end OrderFlow

end PolyArena
