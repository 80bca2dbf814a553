import PolyArena.MatchingEngine.Accounting
import PolyArena.MatchingEngine.Actions

/-!
# Closed positions

A bracket exit that closes a position has sold every share the order bought (`ClosedOut`).  The
matching pass selects orders by status and does not look at the position, so an order that is still
PARTIAL when its exit fires goes on buying: `closed_position_reopens` is such a run.

1. `closedOut_of_exit`: an exit that closes the position leaves the order closed out.
2. `effects_closedOut`: closed out is kept as long as nothing more is bought.
3. `closed_stays_closed`: the position stays closed in every run in which no matching pass fills an
   order that is closed out.
-/

namespace PolyArena

open Relation ShadowOrderbook

/-- The position is closed, and every share of the order is sold. -/
def SimulatedOrder.ClosedOut (o : SimulatedOrder) : Prop :=
  o.positionClosed = true ∧ 0 < o.filled ∧ o.exitFilled = some o.filled

instance (o : SimulatedOrder) : Decidable o.ClosedOut := by
  unfold SimulatedOrder.ClosedOut
  infer_instance

/-- At its turn in a matching pass no order that is closed out is still open with an ask that it
crosses. -/
def SparesClosed (b : ShadowOrderbook) (x : Time × BookAction) : Prop :=
  x.2.fills (fun o => o.ClosedOut) x.1 b = false

instance (b : ShadowOrderbook) (x : Time × BookAction) : Decidable (SparesClosed b x) := by
  unfold SparesClosed
  infer_instance

section

variable {b b' : ShadowOrderbook} {c c' : BookCore} {d : Bool} {o o' : SimulatedOrder} {now : Time}
  {fs : List (ℚ × ℚ)} {x : Time × BookAction}

/-! ## What closes a position out -/

theorem SimulatedOrder.ClosedOut.exited (h : o.ClosedOut) : o.exited = o.filled := by
  unfold SimulatedOrder.exited
  rw [h.2.2]
  rfl

theorem closedOut_of_exited (hclosed : o.positionClosed = true) (hpos : 0 < o.filled)
    (hex : o.exited = o.filled) : o.ClosedOut := by
  refine ⟨hclosed, hpos, ?_⟩
  unfold SimulatedOrder.exited at hex
  cases he : o.exitFilled with
  | none =>
    rw [he, Option.getD_none] at hex
    exact absurd hex hpos.ne
  | some q =>
    rw [he, Option.getD_some] at hex
    rw [hex]

/-- **An exit that closes the position** leaves no share unsold. -/
theorem closedOut_of_exit {bid : ℚ} {trigger : Trigger} (hpos : 0 < o.filled)
    (hlt : o.exited < o.filled)
    (hclosed : (executeBracketExit now b o bid trigger).2.1.positionClosed = true) :
    (executeBracketExit now b o bid trigger).2.1.ClosedOut := by
  obtain ⟨fs, hexit, -, -⟩ := exits_executeBracketExit now b bid trigger hlt
  rw [hexit.closed, decide_eq_true_eq] at hclosed
  refine closedOut_of_exited ?_ (hexit.filled ▸ hpos) ?_
  · rw [hexit.closed]
    exact decide_eq_true hclosed
  · rw [hexit.filled]
    exact le_antisymm hexit.exited_le hclosed

/-- An exit of an order that is closed out sells nothing. -/
theorem Exits.closedOut (h : Exits o fs o') (hpos : ∀ f ∈ fs, 0 < f.2) (hc : o.ClosedOut) :
    o'.ClosedOut := by
  have hsum : 0 ≤ (fs.map Prod.snd).sum := by
    refine List.sum_nonneg fun q hq => ?_
    obtain ⟨f, hf, rfl⟩ := List.mem_map.mp hq
    exact (hpos f hf).le
  have hex : o'.exited = o.filled := by
    refine le_antisymm h.exited_le ?_
    rw [h.exited, hc.exited]
    linarith
  refine closedOut_of_exited ?_ (h.filled ▸ hc.2.1) (hex.trans h.filled.symm)
  rw [h.closed, hex]
  exact decide_eq_true le_rfl

theorem Revises.closedOut (h : Revises o o') (hc : o.ClosedOut) : o'.ClosedOut :=
  ⟨h.closed hc.1, h.filled ▸ hc.2.1, by rw [h.exitFilled, h.filled]; exact hc.2.2⟩

/-! ## Nothing more is bought -/

/-- `o'` is a later state of `o`, closed out with it unless more was bought. -/
def StaysClosed (o o' : SimulatedOrder) : Prop :=
  o.filled ≤ o'.filled ∧ (o'.filled = o.filled → o.ClosedOut → o'.ClosedOut)

theorem StaysClosed.refl (o : SimulatedOrder) : StaysClosed o o := ⟨le_rfl, fun _ hc => hc⟩

theorem StaysClosed.trans {o'' : SimulatedOrder} (h : StaysClosed o o') (h' : StaysClosed o' o'') :
    StaysClosed o o'' := by
  refine ⟨h.1.trans h'.1, fun heq hc => ?_⟩
  -- what is bought at the end is what was bought at the start, so nothing was bought in between
  have hmid : o'.filled = o.filled := le_antisymm (h'.1.trans heq.le) h.1
  exact h'.2 (heq.trans hmid.symm) (h.2 hmid hc)

theorem Changed.staysClosed (h : Changed o o') : StaysClosed o o' := by
  cases h with
  | same => exact .refl o
  | fill p q hactive hpos =>
    refine ⟨?_, fun heq => ?_⟩
    · rw [addFill_filled]
      linarith
    · rw [addFill_filled] at heq
      linarith
  | exit hpos hexit => exact ⟨hexit.filled.ge, fun _ => hexit.closedOut hpos⟩
  | revise hrev => exact ⟨hrev.filled.ge, fun _ => hrev.closedOut⟩
  | drain => exact ⟨le_rfl, fun _ hc => hc⟩

/-- An order after an effect is new, or one before it that stays closed. -/
theorem effect_staysClosed (he : Effect c c' d) : ∀ o' ∈ c'.orders,
    (∃ o ∈ c.orders, o.orderId = o'.orderId ∧ StaysClosed o o') ∨
      .placed o'.orderId ∉ c.history := fun o' ho' =>
  (effect_changed he o' ho').imp_left fun ⟨o, ho, hid, hchanged⟩ =>
    ⟨o, ho, hid, hchanged.staysClosed⟩

/-- The states of an order along the effects. -/
theorem effects_staysClosed (hinv : CoreInv c) (ho : o ∈ c.orders) (he : Effects c c') :
    ∀ o' ∈ c'.orders, o'.orderId = o.orderId → StaysClosed o o' :=
  later_of_related hinv ho (effects_related
    (L := BookCore.orders) .refl StaysClosed.trans effect_staysClosed he)

/-! ## A guarded action buys nothing for it -/

/-- **A step** that spares closed positions executes no entry fill for an order that is closed
out. -/
theorem entryFills_spared {id : OrderId} (hinv : CoreInv b.core) (hplaced : .placed id ∈ b.history)
    (hclosed : ∀ y ∈ b.virtualOrders, y.orderId = id → y.ClosedOut) (hguard : SparesClosed b x)
    (hstep : bookStep b x = some b') : entryFills id b'.history = entryFills id b.history := by
  obtain ⟨hallowed, rfl⟩ := bookStep_some hstep
  obtain ⟨recs, hhist, hrecs⟩ := action_entries hallowed hguard
  have hnone : ∀ r ∈ recs, r.entryFill id = none := by
    intro r hr
    have hentry := hrecs r hr
    cases r with
    | fill i side p q t =>
      obtain ⟨-, z, hz, hP, hmem⟩ := hentry.fill i side p q t rfl
      have hne : i ≠ id := by
        intro hi
        rcases hmem with ⟨hmem, -⟩ | ⟨-, hfresh⟩
        · obtain ⟨y, hy, rfl⟩ := List.mem_map.mp hmem
          have hyid : y.orderId = id := expireOrder_same.1.symm.trans (hz.trans hi)
          have hrev : Revises y ((expireOrder x.1 y).getD y) := revises_expireOrder (hinv.ok y hy)
          exact of_decide_eq_false hP (hrev.closedOut (hclosed y hy hyid))
        · exact hfresh (hi ▸ hplaced)
      exact if_neg hne
    | prefill i p q =>
      have hne : i ≠ id := fun hi => hentry.prefill i p q rfl (hi ▸ hplaced)
      exact if_neg hne
    | _ => rfl
  rw [hhist]
  unfold entryFills
  rw [List.filterMap_append, List.filterMap_eq_nil_iff.mpr hnone, List.nil_append]

/-- What a guarded run leaves of an order that is closed out. -/
theorem closedOut_run (hb : Reachable b) (ho : o ∈ b.virtualOrders) (hc : o.ClosedOut)
    (hrun : Run bookStep SparesClosed b b') :
    entryFills o.orderId b'.history = entryFills o.orderId b.history ∧
      ∀ o' ∈ b'.virtualOrders, o'.orderId = o.orderId → o'.filled = o.filled ∧ o'.ClosedOut := by
  have hinv := (effects_of_reachable hb).1
  have hbal := balance_of_reachable hb
  -- as long as the history gains no entry fill for the order, the order stays closed out
  have hkept : ∀ s, BookRun b s → entryFills o.orderId s.history = entryFills o.orderId b.history →
      ∀ o' ∈ s.virtualOrders, o'.orderId = o.orderId → o'.filled = o.filled ∧ o'.ClosedOut := by
    intro s hs hsame o' ho' hid
    obtain ⟨-, heff⟩ := effects_of_run hinv hs
    have hfilled : o'.filled = o.filled := by
      rw [(effects_balance hinv hbal heff).filled o' ho', hbal.filled o ho, hid]
      exact congrArg (fun l => (l.map Prod.snd).sum) hsame
    exact ⟨hfilled, (effects_staysClosed hinv ho heff o' ho' hid).2 hfilled hc⟩
  have hsame : entryFills o.orderId b'.history = entryFills o.orderId b.history := by
    induction hrun with
    | start => rfl
    | next hpre hguard hstep ih =>
      obtain ⟨hinv', heff⟩ := effects_of_run hinv (bookRun_of_run hpre)
      have hplaced := effects_placed heff (hinv.placed o ho)
      exact (entryFills_spared hinv' hplaced
        (fun y hy hid => (hkept _ (bookRun_of_run hpre) ih y hy hid).2) hguard hstep).trans ih
  exact ⟨hsame, hkept b' (bookRun_of_run hrun) hsame⟩

/-- **A closed position stays closed.**  An exit that sets `positionClosed` leaves the order closed
out.  In every run in which no matching pass fills an order that is closed out, the order is
executed no further entry fill, and its position stays closed with every share sold. -/
theorem closed_stays_closed (hb : Reachable b) (ho : o ∈ b.virtualOrders) :
    (∀ now bid trigger, o.positionClosed = false → 0 < o.filled →
      (executeBracketExit now b o bid trigger).2.1.positionClosed = true →
      (executeBracketExit now b o bid trigger).2.1.ClosedOut) ∧
    (o.ClosedOut → ∀ b', Run bookStep SparesClosed b b' →
      entryFills o.orderId b'.history = entryFills o.orderId b.history ∧
      ∀ o' ∈ b'.virtualOrders, o'.orderId = o.orderId →
        o'.filled = o.filled ∧ o'.positionClosed = true ∧ o'.exitFilled = some o'.filled) := by
  have hok := (effects_of_reachable hb).1.ok o ho
  refine ⟨fun now bid trigger hclosed hpos =>
    closedOut_of_exit hpos (hok.exited_lt hclosed hpos), ?_⟩
  intro hc b' hrun
  have hstays := closedOut_run hb ho hc hrun
  refine ⟨hstays.1, fun o' ho' hid => ?_⟩
  obtain ⟨hfilled, hclosed⟩ := hstays.2 o' ho' hid
  exact ⟨hfilled, hclosed.1, hclosed.2.2⟩

end

/-! ## A position that reopens -/

/-- Ten of the twenty shares are bought at `0.50`, and sold again at `0.75`. -/
def exitedBook : ShadowOrderbook :=
  let b := (offerBook.placeVirtualOrder 1 7
    { side := .buy, price := 3 / 5, quantity := 20, tpPrice := some (7 / 10) }).book
  ((b.applySnapshot 2 [⟨3 / 4, 20, pos_three_quarters⟩] []).monitorBracketOrders 2).1

theorem reachable_exitedBook : Reachable exitedBook := by
  have hoffer : Reachable offerBook :=
    ⟨"up", .single (.applySnapshot _ 0 [] [⟨1 / 2, 10, by norm_num⟩])⟩
  obtain ⟨tokenId, hrun⟩ := hoffer
  refine ⟨tokenId, ((hrun.tail ?_).tail (.applySnapshot _ 2 [⟨3 / 4, 20, by norm_num⟩] [])).tail
    (.monitorBracketOrders _ 2)⟩
  exact .placeVirtualOrder offerBook 1 7 _ (by decide +kernel) (by norm_num)

/-- The order of `exitedBook`. -/
def exitedOrder : SimulatedOrder :=
  exitedBook.virtualOrders.headD
    (({ side := .buy, price := 3 / 5, quantity := 20 } : OrderRequest).newOrder 1 7)

theorem closed_stays_closed_exitedBook :
    exitedOrder.ClosedOut ∧ ∀ o' ∈
      ((exitedBook.applySnapshot 3 [] []).runMatching 3).1.virtualOrders,
      o'.orderId = exitedOrder.orderId → o'.filled = 10 := by
  have hc : exitedOrder.ClosedOut := by decide +kernel
  refine ⟨hc, fun o' ho' hid => ?_⟩
  have h := (closed_stays_closed reachable_exitedBook (o := exitedOrder) (by decide +kernel)).2 hc
    ((exitedBook.applySnapshot 3 [] []).runMatching 3).1
    (.next (.next .start (a := (3, .feed (.applySnapshot [] []))) (by decide +kernel) rfl)
      (a := (3, .feed .runMatching)) (by decide +kernel) rfl)
  rw [(h.2 o' ho' hid).1]
  decide +kernel

/-- **A closed position reopens**: five more shares are bought for the order, and not sold. -/
theorem closed_position_reopens : ¬ ∀ (b b' : ShadowOrderbook) (o : SimulatedOrder), Reachable b →
    o ∈ b.virtualOrders → o.ClosedOut → BookRun b b' →
    ∀ o' ∈ b'.virtualOrders, o'.orderId = o.orderId →
      o'.filled = o.filled ∧ o'.exitFilled = some o'.filled := by
  intro hall
  have hrun : BookRun exitedBook
      ((exitedBook.applySnapshot 3 [] [⟨11 / 20, 5, by norm_num⟩]).runMatching 3).1 :=
    .tail (.single (.applySnapshot _ 3 [] [⟨11 / 20, 5, by norm_num⟩])) (.runMatching _ 3)
  have h := hall _ _ exitedOrder reachable_exitedBook (by decide +kernel) (by decide +kernel) hrun
  have hbought : ∃ o' ∈
      ((exitedBook.applySnapshot 3 [] [⟨11 / 20, 5, by norm_num⟩]).runMatching 3).1.virtualOrders,
      o'.orderId = exitedOrder.orderId ∧ o'.filled ≠ exitedOrder.filled := by decide +kernel
  obtain ⟨o', ho', hid, hne⟩ := hbought
  exact hne (h o' ho' hid).1

end PolyArena
