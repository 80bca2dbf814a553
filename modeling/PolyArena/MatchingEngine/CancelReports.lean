import PolyArena.MatchingEngine.OrderRelations
import PolyArena.MatchingEngine.StateChanges

/-!
# Cancels under seeding

The consumer seeds the last report of every order that it places.  The CANCEL events stay exact
under that, as long as a seed agrees with what was reported of the cancel.

1. `CancelsTold b evs`: of each order that the book lists there is one CANCEL event when its last
   report is a cancel, and none when it is not.
2. `cancelsTold_apply`: every operation keeps that.
3. `Quiet b`: no order of the book is open or has a cancel to report.  Expiring and shutting down a
   book leave it quiet, and so does every operation on a quiet book that places no order to be
   matched (`quiet_apply`).
-/

namespace PolyArena

open Relation ShadowOrderbook

/-- The last report of the order is a cancel. -/
def ShadowOrderbook.toldCanceled (b : ShadowOrderbook) (id : OrderId) : Bool :=
  (b.lastReported.get? id).any fun x => x.2 = .canceled

/-- A seed agrees with what was reported of the cancel, and nothing was reported of the id of a new
order. -/
def BookAction.Agrees (b : ShadowOrderbook) : BookAction → Prop
  | seedLastReported id _ status =>
    .placed id ∈ b.history → (status = .canceled ↔ b.toldCanceled id = true)
  | place id _ | placePrefilled id _ => b.toldCanceled id = false
  | _ => True

instance (b : ShadowOrderbook) (a : BookAction) : Decidable (a.Agrees b) :=
  match a with
  | .seedLastReported _ _ _ => inferInstanceAs (Decidable (_ → _))
  | .place _ _ | .placePrefilled _ _ => inferInstanceAs (Decidable (_ = _))
  | .feed _ | .forceClose _ | .cancelOrder _ | .cancelAllVirtual | .expirePendingOrders
  | .registerStateChangeCallback | .depth _ _ => .isTrue trivial

/-- No order is open, and none has a cancel to report. -/
def Quiet (b : ShadowOrderbook) : Prop := ∀ o ∈ b.virtualOrders,
  o.status.isTerminal = true ∧ (o.status = .canceled → b.toldCanceled o.orderId = true)

instance (b : ShadowOrderbook) : Decidable (Quiet b) := by
  unfold Quiet
  infer_instance

/-- The events tell each cancel once, as soon as it was reported. -/
structure CancelsTold (b : ShadowOrderbook) (evs : List OrderStateChangeEvent) : Prop where
  core : CoreInv b.core
  balance : BooksBalance b.core
  retired : Retired b.core
  present : AllPresent b.core
  once : ∀ id, cancelCount id evs ≤ 1
  live : ∀ o ∈ b.virtualOrders, cancelCount o.orderId evs =
    if b.toldCanceled o.orderId then 1 else 0
  canceled : ∀ o ∈ b.virtualOrders, b.toldCanceled o.orderId = true → o.status = .canceled
  unplaced : ∀ id, .placed id ∉ b.history → cancelCount id evs = 0
  pruned : ∀ o ∈ b.pruned, o.status.isTerminal = true ∧
    (o.status = .canceled → cancelCount o.orderId evs = 1)

section

variable {b b' : ShadowOrderbook} {evs : List OrderStateChangeEvent} {o : SimulatedOrder}
  {now : Time} {a : BookAction} {id : OrderId}

/-! ## Work that collects nothing -/

theorem toldCanceled_of_same (h : b'.lastReported = b.lastReported) :
    b'.toldCanceled id = b.toldCanceled id := by
  unfold ShadowOrderbook.toldCanceled
  rw [h]

/-- **Work that collects nothing** tells nothing. -/
theorem CancelsTold.work (h : CancelsTold b evs) (hw : Works b.core b'.core)
    (hrep : b'.lastReported = b.lastReported)
    (hnew : ∀ id, .placed id ∈ b'.history → .placed id ∉ b.history → b.toldCanceled id = false) :
    CancelsTold b' evs := by
  have heff := works_effects hw
  obtain ⟨hcore, hbal, hret, hpres⟩ := effects_retains h.core h.balance h.retired h.present heff
  have hfrom := effects_advance heff
  refine ⟨hcore, hbal, hret, hpres, h.once, fun o' ho' => ?_, fun o' ho' htold => ?_,
    fun id hid => ?_, fun o ho => ?_⟩
  · rw [toldCanceled_of_same hrep]
    rcases hfrom o' ho' with ⟨o, ho, hid, -⟩ | hfresh
    · rw [← hid]
      exact h.live o ho
    · rw [h.unplaced _ hfresh, hnew _ (hcore.placed o' ho') hfresh]
      rfl
  · rw [toldCanceled_of_same hrep] at htold
    rcases hfrom o' ho' with ⟨o, ho, hid, hadv⟩ | hfresh
    · have hs := h.canceled o ho (hid ▸ htold)
      rw [hadv.2 (by rw [hs]; rfl), hs]
    · rw [hnew _ (hcore.placed o' ho') hfresh] at htold
      cases htold
  · exact h.unplaced id fun hold => hid (effects_placed heff hold)
  · have hpruned : b'.pruned = b.pruned := works_pruned hw
    exact h.pruned o (hpruned ▸ ho)

/-! ## A collection -/

/-- After a collection the last report of an order is its status. -/
theorem toldCanceled_collect (hcore : CoreInv b.core) (ho : o ∈ b.virtualOrders) :
    b.collectStateChanges.1.toldCanceled o.orderId = decide (o.status = .canceled) := by
  have hlive : o.orderId ∈ b.virtualOrders.map SimulatedOrder.orderId := List.mem_map_of_mem ho
  have hreported : (collectOrders b.lastReported b.virtualOrders).1.get? o.orderId =
      some (o.filled, o.status) :=
    (collectOrders_present hcore.nodup ho).2.1
  unfold ShadowOrderbook.toldCanceled
  change (SortedDict.get? (SortedDict.filterKeys _ _) o.orderId).any _ = _
  rw [SortedDict.get?_filterKeys, if_pos (by simpa using hlive), hreported]
  rfl

/-- The CANCEL events of a collection about an order that is listed. -/
theorem cancelCount_collect (hcore : CoreInv b.core) (ho : o ∈ b.virtualOrders) :
    cancelCount o.orderId b.collectStateChanges.2 =
      if o.status = .canceled ∧ b.toldCanceled o.orderId = false then 1 else 0 := by
  have hevents : eventsOf o.orderId b.collectStateChanges.2 =
      eventsOf o.orderId (collectOrder b.lastReported o).2.2 := by
    rw [eventsOf_collectOrder]
    exact eventsOf_present hcore.nodup ho
  have hcancels := cancelCount_collectOrder (r := b.lastReported) (o := o)
  unfold cancelCount at hcancels ⊢
  rw [hevents, hcancels]
  unfold ShadowOrderbook.toldCanceled
  cases b.lastReported.get? o.orderId <;> simp

theorem cancelCount_collect_absent (h : ∀ o ∈ b.virtualOrders, o.orderId ≠ id) :
    cancelCount id b.collectStateChanges.2 = 0 := by
  have hnone : eventsOf id b.collectStateChanges.2 = [] := eventsOf_absent h
  rw [cancelCount, hnone]
  rfl

/-- With a collection, each cancelled order that is listed has its event. -/
theorem CancelsTold.collect_live (h : CancelsTold b evs) (ho : o ∈ b.virtualOrders) :
    cancelCount o.orderId (evs ++ b.collectStateChanges.2) =
      if o.status = .canceled then 1 else 0 := by
  rw [cancelCount_append, h.live o ho, cancelCount_collect h.core ho]
  cases htold : b.toldCanceled o.orderId with
  | true => simp [h.canceled o ho htold]
  | false => simp

/-- **A collection** tells every cancel that was not told. -/
theorem CancelsTold.collect (h : CancelsTold b evs) :
    CancelsTold b.collectStateChanges.1 (evs ++ b.collectStateChanges.2) := by
  obtain ⟨hcore, hbal, hret, hpres⟩ :=
    effects_retains h.core h.balance h.retired h.present (effects_collect (b := b))
  have hfrom := collect_orders (b := b)
  have habsent : ∀ id, .placed id ∉ b.history → ∀ o ∈ b.virtualOrders, o.orderId ≠ id :=
    fun id hid o ho e => hid (e ▸ h.core.placed o ho)
  refine ⟨hcore, hbal, hret, hpres, fun id => ?_, fun x hx => ?_, fun x hx htold => ?_,
    fun id hid => ?_, fun o ho => ?_⟩
  · by_cases hid : ∃ o ∈ b.virtualOrders, o.orderId = id
    · obtain ⟨o, ho, rfl⟩ := hid
      rw [h.collect_live ho]
      split <;> omega
    · rw [cancelCount_append, cancelCount_collect_absent fun o ho e => hid ⟨o, ho, e⟩, Nat.add_zero]
      exact h.once id
  · obtain ⟨o, ho, hid, -, -⟩ := hfrom x hx
    rw [hid, h.collect_live ho, toldCanceled_collect h.core ho]
    simp
  · obtain ⟨o, ho, hid, -, hstatus⟩ := hfrom x hx
    rw [hid, toldCanceled_collect h.core ho, decide_eq_true_eq] at htold
    exact hstatus.trans htold
  · rw [cancelCount_append, h.unplaced id hid, cancelCount_collect_absent (habsent id hid)]
  · have hgone : ∀ x ∈ b.virtualOrders, x.orderId ≠ o.orderId := h.retired.gone o ho
    rw [cancelCount_append, cancelCount_collect_absent hgone, Nat.add_zero]
    exact h.pruned o ho

/-- The cancels of a book that was just collected are told. -/
theorem told_collect (hcore : CoreInv b.core) (ho : o ∈ b.collectStateChanges.1.virtualOrders)
    (hs : o.status = .canceled) : b.collectStateChanges.1.toldCanceled o.orderId = true := by
  obtain ⟨x, hx, hid, -, hstatus⟩ := collect_orders o ho
  rw [hid, toldCanceled_collect hcore hx, ← hstatus]
  exact decide_eq_true hs

/-- **The cleanup** prunes only what is done and told. -/
theorem CancelsTold.cleanup (h : CancelsTold b evs)
    (htold : ∀ o ∈ b.virtualOrders, o.status = .canceled → b.toldCanceled o.orderId = true) :
    CancelsTold (b.cleanup now) evs := by
  obtain ⟨hcore, hbal, hret, hpres⟩ :=
    effects_retains h.core h.balance h.retired h.present (effects_cleanup (t := now) (b := b))
  have hsub : ∀ o ∈ (b.cleanup now).virtualOrders, o ∈ b.virtualOrders := fun o ho => cleanup_mem ho
  have hrep : ∀ id, (b.cleanup now).toldCanceled id = b.toldCanceled id :=
    fun id => toldCanceled_of_same cleanup_lastReported
  refine ⟨hcore, hbal, hret, hpres, h.once, fun o ho => ?_, fun o ho hc => ?_, fun id hid => ?_,
    fun o ho => ?_⟩
  · rw [hrep]
    exact h.live o (hsub o ho)
  · exact h.canceled o (hsub o ho) (hrep _ ▸ hc)
  · have hhist : (b.cleanup now).history = b.history := cleanup_history
    exact h.unplaced id (hhist ▸ hid)
  · rcases cleanup_pruned ho with hold | ⟨hlive, hprunable⟩
    · exact h.pruned o hold
    · refine ⟨?_, fun hs => ?_⟩
      · unfold isPrunable at hprunable
        cases hs : o.status <;> simp [hs, OrderStatus.isTerminal] at hprunable ⊢
      · rw [h.live o hlive, htold o hlive hs]
        rfl

/-! ## Any operation -/

/-- A seed that agrees changes nothing of what was told. -/
theorem CancelsTold.seed {filled : ℚ} {status : OrderStatus} (h : CancelsTold b evs)
    (hagrees : (BookAction.seedLastReported id filled status).Agrees b) :
    CancelsTold (b.seedLastReported id filled status) evs := by
  have htold : ∀ o ∈ b.virtualOrders,
      (b.seedLastReported id filled status).toldCanceled o.orderId = b.toldCanceled o.orderId := by
    intro o ho
    by_cases hid : o.orderId = id
    · have hiff := hagrees (hid ▸ h.core.placed o ho)
      unfold ShadowOrderbook.toldCanceled at hiff ⊢
      rw [hid, show (b.seedLastReported id filled status).lastReported =
        b.lastReported.set id (filled, status) from rfl, SortedDict.get?_set_self]
      rw [Bool.eq_iff_iff, ← hiff]
      simp
    · exact congrArg (Option.any _) (SortedDict.get?_set_ne hid)
  exact ⟨h.core, h.balance, h.retired, h.present, h.once,
    fun o ho => (h.live o ho).trans (by rw [htold o ho]),
    fun o ho hc => h.canceled o ho (htold o ho ▸ hc), h.unplaced, h.pruned⟩

/-- **An operation** tells each cancel once. -/
theorem cancelsTold_apply (h : CancelsTold b evs) (hallowed : a.Allowed b) (hagrees : a.Agrees b) :
    CancelsTold (a.apply now b) (evs ++ a.events now b) := by
  cases hseed : (ReporterAction.operate a).seeds with
  | true =>
    cases a with
    | seedLastReported id filled status =>
      change CancelsTold (b.seedLastReported id filled status) (evs ++ [])
      rw [List.append_nil]
      exact h.seed hagrees
    | _ => cases hseed
  | false =>
    have hnew : ∀ id, .placed id ∈ (a.apply now b).history → .placed id ∉ b.history →
        b.toldCanceled id = false := by
      intro id hid hfresh
      rcases placed_apply hid with hold | hplaced
      · exact absurd hold hfresh
      · cases a with
        | place k r => exact Option.some.inj hplaced ▸ hagrees
        | placePrefilled k r => exact Option.some.inj hplaced ▸ hagrees
        | _ => cases hplaced
    have hbook := collection_book now h.core hallowed hseed
    rw [collection_events]
    cases hc : a.collection now b with
    | none =>
      rw [hc] at hbook
      rw [Option.elim_none, List.append_nil]
      exact h.work hbook.1 hbook.2 hnew
    | some c =>
      rw [hc] at hbook
      obtain ⟨hw, hrep, happly⟩ := hbook
      have hhist : (a.apply now b).history = c.history := by
        rcases happly with heq | heq
        · rw [heq]
          rfl
        · rw [heq, cleanup_history]
          rfl
      have hwork : CancelsTold c evs := h.work hw hrep fun id hid => hnew id (hhist ▸ hid)
      rcases happly with heq | heq
      · rw [heq]
        exact hwork.collect
      · rw [heq]
        exact hwork.collect.cleanup fun o ho => told_collect hwork.core ho

/-! ## Quiet books -/

theorem quiet_expireBook (hcore : CoreInv b.core) : Quiet b.expireBook.1 := by
  have hcore' : CoreInv b.clearBook.core :=
    effects_inv hcore (works_effects (works_clearBook hcore.ok))
  exact fun o ho => ⟨expireBook_terminal b o ho, told_collect hcore' ho⟩

theorem quiet_shutdownBook (hcore : CoreInv b.core) : Quiet b.shutdownBook.1 := by
  have hcore' : CoreInv b.cancelAllVirtual.core :=
    effects_inv hcore (works_effects (works_cancelAll hcore.ok))
  refine fun o ho => ⟨?_, told_collect hcore' ho⟩
  obtain ⟨y, hy, hoy⟩ := collectOrders_status o ho
  obtain ⟨z, -, rfl⟩ := List.mem_map.mp hy
  rw [hoy]
  exact cancelOpen_terminal

/-- **A quiet book** stays quiet under everything but a placement. -/
theorem quiet_apply (h : CancelsTold b evs) (hallowed : a.Allowed b) (hagrees : a.Agrees b)
    (hplace : a.isPlace = false) (hq : Quiet b) : Quiet (a.apply now b) := by
  have h' : CancelsTold (a.apply now b) _ := cancelsTold_apply h hallowed hagrees
  have hterminal : AllTerminal (a.apply now b) :=
    apply_terminal h.core hallowed hplace fun o ho => (hq o ho).1
  have hstep : BookStep b (a.apply now b) :=
    bookStep_sound (x := (now, a)) (bookStep_of_allowed hallowed)
  refine fun o' ho' => ⟨hterminal o' ho', fun hs => ?_⟩
  rcases effects_advance (effects_of_step h.core hstep) o' ho' with ⟨o, ho, hid, hadv⟩ | hfresh
  · -- the order was cancelled before, and its event is still the only one
    have hold : o.status = .canceled := (hadv.2 (hq o ho).1).symm.trans hs
    have hcount : cancelCount o'.orderId evs = 1 := by
      rw [← hid, h.live o ho, (hq o ho).2 hold]
      rfl
    have hlive := h'.live o' ho'
    rw [cancelCount_append, hcount] at hlive
    cases htold : (a.apply now b).toldCanceled o'.orderId with
    | true => rfl
    | false =>
      rw [htold] at hlive
      simp at hlive
  · rw [new_order_filled h.core hallowed hplace ho' hfresh] at hs
    cases hs

end

end PolyArena
