import PolyArena.MatchingEngine.ClosedPositions
import PolyArena.MatchingEngine.OrderRelations
import PolyArena.WsFeedService.Floor

/-!
# The entry TTL and the bracket

`expire_at` is set by two callers.  For an order that is still to be matched it is the user's time
to live; for one that is registered already filled it is the settlement of its session.
`_expire_pending_orders` takes it for both: it cancels what is open, and it closes the position of
what is filled.

1. `expiry_run`: an order keeps the expiry that it was placed with, and `expireAt_later_session`
   says that an order for a later session is placed with one that is no earlier than the settlement.
2. `guarded_step`: before the candle closes, an operation leaves a filled order to its bracket when
   the order expires no earlier than the candle closes.
3. `bracket_outlives_ttl`: in every run up to the close the bracket stays or has sold everything, if
   and only if the order expires no earlier.  `ttl_closes_position` is an order that does.
-/

namespace PolyArena

open ShadowOrderbook List Relation

/-- The expiry that an order of the queue is placed with. -/
def QueueOrder.expireAt (now : Time) : QueueOrder → Option Time
  | standard r => r.expireAt now
  | prefilled r => r.expireAt

/-- Filled, and its bracket may exit it or has sold all of it. -/
def SimulatedOrder.Covered (o : SimulatedOrder) : Prop :=
  o.status = .filled ∧ (o.isEligibleForBracket = true ∧ o.exited < o.filled ∨ o.ClosedOut)

/-- The order can be exited by its bracket, or it was exited whole. -/
def CoveredIn (id : OrderId) (b : ShadowOrderbook) : Prop :=
  (∃ o ∈ b.virtualOrders, o.orderId = id ∧ o.isEligibleForBracket = true) ∨
    ∃ o ∈ b.virtualOrders ++ b.pruned, o.orderId = id ∧ o.ClosedOut

instance (id : OrderId) (b : ShadowOrderbook) : Decidable (CoveredIn id b) := by
  unfold CoveredIn
  infer_instance

/-- The operation falls between `now` and the close of the candle; the market resolves after the
close. -/
def InCandle (now close : Time) (_ : ShadowOrderbook) (x : Time × BookAction) : Prop :=
  now ≤ x.1 ∧ x.1 < close ∧ x.2.resolves = false

instance (now close : Time) (b : ShadowOrderbook) (x : Time × BookAction) :
    Decidable (InCandle now close b x) := by
  unfold InCandle
  infer_instance

/-- What is kept of an order that expires no earlier than `close`, whatever happens before. -/
structure KeepsCover (close : Time) (o' o : SimulatedOrder) : Prop where
  orderId : o'.orderId = o.orderId
  expireAt : o'.expireAt = o.expireAt
  covered : (∀ e ∈ o.expireAt, close ≤ e) → o.Covered → o'.Covered

section

variable {b b' : ShadowOrderbook} {o o' : SimulatedOrder} {t now close : Time} {id : OrderId}
  {e : Option Time} {x : Time × BookAction} {bid : ℚ}

/-! ## The expiry of an order -/

/-- What is done to an order leaves it its id and its expiry. -/
def SameExpiry (o' o : SimulatedOrder) : Prop := o'.orderId = o.orderId ∧ o'.expireAt = o.expireAt

theorem SameExpiry.trans {o'' : SimulatedOrder} (h : SameExpiry o'' o') (h' : SameExpiry o' o) :
    SameExpiry o'' o := ⟨h.1.trans h'.1, h.2.trans h'.2⟩

theorem fixed_expiry : Fixed fun o : SimulatedOrder => (o.orderId, o.expireAt) where
  addFill o p q := by
    unfold SimulatedOrder.addFill SimulatedOrder.updateStatus
    dsimp only
    split_ifs <;> rfl
  slippage _ _ := rfl
  canceled _ := rfl

theorem sameExpiry_matched {b : ShadowOrderbook} : SameExpiry (matchAndCancel t b o).2 o := by
  have hfixed := fixed_expiry.matchAndCancel (t := t) (b := b) (o := o)
  exact ⟨congrArg Prod.fst hfixed, congrArg Prod.snd hfixed⟩

theorem sameExpiry_cancelOpen : SameExpiry (cancelOpen o) o := by
  unfold cancelOpen
  split <;> exact ⟨rfl, rfl⟩

theorem respects_sameExpiry : Respects SameExpiry where
  orderId h := h.1
  refl _ := ⟨rfl, rfl⟩
  trans := .trans
  drained _ := ⟨rfl, rfl⟩
  canceled _ := sameExpiry_cancelOpen
  matched _ _ _ _ := sameExpiry_matched
  exited _ _ _ _ _ _ _ := ⟨rfl, rfl⟩

theorem sameExpiry_expireOrder : SameExpiry ((expireOrder t o).getD o) o := by
  unfold expireOrder
  split
  · split
    · exact ⟨rfl, rfl⟩
    · exact ⟨rfl, rfl⟩
    · split <;> exact ⟨rfl, rfl⟩
    · exact ⟨rfl, rfl⟩
  · exact ⟨rfl, rfl⟩

theorem sameExpiry_resolveOrder : SameExpiry (resolveOrder o) o := by
  unfold resolveOrder
  split
  · exact ⟨rfl, rfl⟩
  · exact sameExpiry_cancelOpen

/-- The new order is listed last, with the expiry that it was placed with. -/
theorem orders_placed (q : QueueOrder) :
    ∃ os o, ((q.action id).apply t b).virtualOrders = os ++ [o] ∧
    Forall₂ SameExpiry os b.virtualOrders ∧ o.orderId = id ∧ o.expireAt = q.expireAt t := by
  cases q with
  | standard r =>
    obtain ⟨os, o, horders, hos, hid, hexpire⟩ :=
      respects_sameExpiry.placeVirtualOrder r
    exact ⟨os, o, horders, hos, hid, hexpire⟩
  | prefilled r =>
    obtain ⟨o, horders, hid, hexpire⟩ :=
      respects_sameExpiry.placePrefilled r
    exact ⟨_, o, horders, respects_sameExpiry.same _, hid, hexpire⟩

theorem placedId_fresh {a : BookAction} (ha : a.Allowed b) (hid : a.placedId = some id) :
    .placed id ∉ b.history := by
  cases a with
  | place => exact Option.some.inj hid ▸ ha.1
  | placePrefilled => exact Option.some.inj hid ▸ ha
  | _ => cases hid

/-- **One operation** leaves the order its expiry. -/
theorem expiry_step (hinv : CoreInv b.core) (hplaced : .placed id ∈ b.history)
    (h : ∀ o ∈ b.virtualOrders, o.orderId = id → o.expireAt = e) (hstep : bookStep b x = some b') :
    ∀ o ∈ b'.virtualOrders, o.orderId = id → o.expireAt = e := by
  obtain ⟨hallowed, rfl⟩ := bookStep_some hstep
  obtain ⟨os, hos, hlisted⟩ := respects_sameExpiry.apply (t := x.1) (a := x.2) hinv.nodup
    (fun _ _ _ => sameExpiry_expireOrder) (fun _ _ _ => sameExpiry_resolveOrder)
  have hkept : ∀ o ∈ os, o.orderId = id → o.expireAt = e := by
    intro o ho hid
    obtain ⟨y, hy, hsame⟩ := exists_before hos ho
    exact hsame.2.trans (h y hy (hsame.1.symm.trans hid))
  intro o ho hid
  cases hlisted with
  | all horders => exact hkept o (horders ▸ ho) hid
  | brought new hnew horders =>
    rw [horders] at ho
    rcases mem_append.mp ho with ho | ho
    · exact hkept o ho hid
    · rw [← mem_singleton.mp ho, hid] at hnew
      exact absurd hplaced (placedId_fresh hallowed hnew)
  | swept horders hpruned =>
    rw [horders] at ho
    exact hkept o (mem_of_mem_filter ho) hid

/-- **The expiry** that an order is placed with stays. -/
theorem expiry_run {q : QueueOrder} (hb : Reachable b) (hallowed : (q.action id).Allowed b)
    (hrun : Run bookStep (fun _ _ => True) ((q.action id).apply t b) b') :
    CoreInv b'.core ∧ ∀ o ∈ b'.virtualOrders, o.orderId = id → o.expireAt = q.expireAt t := by
  have hinv := (effects_of_reachable hb).1
  have hstart : bookStep b (t, q.action id) = some ((q.action id).apply t b) :=
    bookStep_of_allowed hallowed
  have hinv' := effects_inv hinv (effects_of_step hinv (bookStep_sound hstart))
  obtain ⟨os, new, horders, hos, hnew, hexpire⟩ : ∃ os o,
    ((q.action id).apply t b).virtualOrders = os ++ [o] ∧
    _ ∧ o.orderId = id ∧ o.expireAt = q.expireAt t := orders_placed q
  have hfresh : .placed id ∉ b.history := placedId_fresh hallowed (by cases q <;> rfl)
  have hplaced : .placed id ∈ ((q.action id).apply t b).history :=
    hnew ▸ hinv'.placed new (by simp [ShadowOrderbook.core, horders])
  have hexpiry : ∀ o ∈ ((q.action id).apply t b).virtualOrders, o.orderId = id →
      o.expireAt = q.expireAt t := by
    intro o ho hid
    rw [horders] at ho
    rcases mem_append.mp ho with ho | ho
    · obtain ⟨y, hy, hsame⟩ := exists_before hos ho
      exact absurd (hsame.1.symm.trans hid ▸ hinv.placed y hy) hfresh
    · rw [mem_singleton.mp ho]
      exact hexpire
  have hinvariant := hrun.invariant
    (fun s => CoreInv s.core ∧ .placed id ∈ s.history ∧
      ∀ o ∈ s.virtualOrders, o.orderId = id → o.expireAt = q.expireAt t)
    ⟨hinv', hplaced, hexpiry⟩ (by
      rintro s a s' ⟨hs, hplaced, hexpiry⟩ - hstep
      have heffects := effects_of_step hs (bookStep_sound hstep)
      exact ⟨effects_inv hs heffects, effects_placed heffects hplaced,
        expiry_step hs hplaced hexpiry hstep⟩)
  exact ⟨hinvariant.1, hinvariant.2.2⟩

/-! ## The bracket until the close -/

theorem covered_of_eligible (hok : OrderOk o) (hfilled : o.status = .filled)
    (heligible : o.isEligibleForBracket = true) : o.Covered := by
  refine ⟨hfilled, .inl ⟨heligible, ?_⟩⟩
  simp only [SimulatedOrder.isEligibleForBracket, decide_eq_true_eq] at heligible
  obtain ⟨-, -, hpos, hopen, -⟩ := heligible
  exact hok.exited_lt (by simpa using hopen) hpos

/-- **An exit** of a covered order leaves it its bracket, or nothing to sell. -/
theorem covered_executeBracketExit {trigger : Trigger} (hpos : 0 < o.filled)
    (hopen : o.positionClosed = false) (hc : o.Covered) :
    (executeBracketExit t b o bid trigger).2.1.Covered := by
  obtain ⟨hfilled, ⟨heligible, hlt⟩ | hout⟩ := hc
  · refine ⟨hfilled, ?_⟩
    cases hclosed : (executeBracketExit t b o bid trigger).2.1.positionClosed with
    | true => exact .inr (closedOut_of_exit hpos hlt hclosed)
    | false =>
      obtain ⟨fs, hexit, -, -⟩ := exits_executeBracketExit t b bid trigger hlt
      have hleft := hexit.closed
      rw [hclosed, eq_comm, decide_eq_false_iff_not, not_le] at hleft
      simp only [SimulatedOrder.isEligibleForBracket, decide_eq_true_eq] at heligible
      obtain ⟨hside, hbracket, -, -, hstatus⟩ := heligible
      refine .inl ⟨?_, hexit.filled ▸ hleft⟩
      simp only [SimulatedOrder.isEligibleForBracket, decide_eq_true_eq]
      exact ⟨hside, hbracket, hpos, by simp [hclosed], hstatus⟩
  · exact absurd (hopen.symm.trans hout.1) Bool.false_ne_true

theorem not_covered_of_open (ha : o.status.isTerminal = false) : ¬ o.Covered := by
  intro hc
  rw [hc.1] at ha
  cases ha

theorem respects_keepsCover : Respects (KeepsCover close) where
  orderId h := h.orderId
  refl _ := ⟨rfl, rfl, fun _ => id⟩
  trans h h' := ⟨h.orderId.trans h'.orderId, h.expireAt.trans h'.expireAt,
    fun hlate hc => h.covered (h'.expireAt ▸ hlate) (h'.covered hlate hc)⟩
  drained _ := ⟨rfl, rfl, fun _ => id⟩
  canceled o := by
    cases ha : o.status.isTerminal with
    | true =>
      have hsame : cancelOpen o = o := if_pos ha
      exact ⟨by rw [hsame], by rw [hsame], fun _ hc => by rwa [hsame]⟩
    | false => exact ⟨sameExpiry_cancelOpen.1, sameExpiry_cancelOpen.2, fun _ hc =>
        absurd hc (not_covered_of_open ha)⟩
  matched _ _ _ ha := ⟨sameExpiry_matched.1, sameExpiry_matched.2, fun _ hc =>
    absurd hc (not_covered_of_open ha)⟩
  exited _ _ _ _ _ hpos hopen := ⟨rfl, rfl, fun _ => covered_executeBracketExit hpos hopen⟩

/-- Before an order expires no expiry touches it. -/
theorem keepsCover_expireOrder (ht : t < close) :
    KeepsCover close ((expireOrder t o).getD o) o := by
  refine ⟨sameExpiry_expireOrder.1, sameExpiry_expireOrder.2, fun hlate hc => ?_⟩
  have hearly : ¬ ∃ e ∈ o.expireAt, e ≤ t := fun ⟨e, he, hle⟩ =>
    absurd (hlate e he) (hle.trans_lt ht).not_ge
  have hnone : expireOrder t o = none := if_neg hearly
  rw [hnone]
  exact hc

/-- What the sweep prunes of the covered orders is exited whole. -/
theorem closedOut_of_prunable (hc : o.Covered) (hp : isPrunable t o = true) : o.ClosedOut := by
  unfold isPrunable at hp
  rw [hc.1] at hp
  rcases hc.2 with ⟨heligible, -⟩ | hout
  · simp only [SimulatedOrder.isEligibleForBracket, decide_eq_true_eq] at heligible
    exact absurd hp heligible.2.2.2.1
  · exact hout

theorem effects_pruned {c c' : BookCore} (he : Effects c c') (ho : o ∈ c.pruned) :
    o ∈ c'.pruned := by
  induction he with
  | refl => exact ho
  | tail _ hstep ih =>
    cases hstep with
    | set side => cases side <;> exact ih
    | @fill _ _ _ _ o => unfold BookCore.fill; cases o.side <;> exact ih
    | prune drop => exact mem_append_left _ ih
    | _ => exact ih

/-- A covered order that expires no earlier than `close`, or one that was exited whole and is
pruned. -/
def Guarded (id : OrderId) (close : Time) (b : ShadowOrderbook) : Prop :=
  (∃ o ∈ b.virtualOrders, o.orderId = id ∧ (∀ e ∈ o.expireAt, close ≤ e) ∧ o.Covered) ∨
    ∃ o ∈ b.pruned, o.orderId = id ∧ o.ClosedOut

theorem Guarded.coveredIn (h : Guarded id close b) : CoveredIn id b := by
  rcases h with ⟨o, ho, hid, -, -, ⟨heligible, -⟩ | hout⟩ | ⟨o, ho, hid, hout⟩
  · exact .inl ⟨o, ho, hid, heligible⟩
  · exact .inr ⟨o, mem_append_left _ ho, hid, hout⟩
  · exact .inr ⟨o, mem_append_right _ ho, hid, hout⟩

/-- **One operation** before the close leaves the order to its bracket. -/
theorem guarded_step (hinv : CoreInv b.core) (h : Guarded id close b)
    (hcandle : InCandle now close b x) (hstep : bookStep b x = some b') : Guarded id close b' := by
  have heffects := effects_of_step hinv (bookStep_sound hstep)
  obtain ⟨-, rfl⟩ := bookStep_some hstep
  rcases h with ⟨o, ho, hid, hlate, hc⟩ | ⟨o, ho, hid, hout⟩
  · obtain ⟨os, hos, hlisted⟩ := respects_keepsCover.apply (t := x.1) (a := x.2) hinv.nodup
      (fun _ _ _ => keepsCover_expireOrder hcandle.2.1)
      (fun hres => absurd (hcandle.2.2.symm.trans hres) Bool.false_ne_true)
    obtain ⟨o', ho', hkeeps⟩ := exists_after hos ho
    have hid' : o'.orderId = id := hkeeps.orderId.trans hid
    have hlate' : ∀ e ∈ o'.expireAt, close ≤ e := hkeeps.expireAt ▸ hlate
    have hc' := hkeeps.covered hlate hc
    cases hlisted with
    | all horders => exact .inl ⟨o', horders ▸ ho', hid', hlate', hc'⟩
    | brought new hplaced horders =>
      exact .inl ⟨o', horders ▸ mem_append_left _ ho', hid', hlate', hc'⟩
    | swept horders hpruned =>
      cases hp : isPrunable x.1 o' with
      | true => exact .inr ⟨o', hpruned o' ho' hp, hid', closedOut_of_prunable hc' hp⟩
      | false =>
        refine .inl ⟨o', ?_, hid', hlate', hc'⟩
        rw [horders]
        exact mem_filter.mpr ⟨ho', by rw [hp]; rfl⟩
  · exact .inr ⟨o, effects_pruned heffects ho, hid, hout⟩

/-- **A run** before the close leaves the order to its bracket. -/
theorem guarded_run (hinv : CoreInv b.core) (h : Guarded id close b)
    (hrun : Run bookStep (InCandle now close) b b') : Guarded id close b' :=
  (hrun.invariant (fun s => CoreInv s.core ∧ Guarded id close s) ⟨hinv, h⟩
    fun _ _ _ ⟨hs, hguarded⟩ hcandle hstep =>
      ⟨effects_inv hs (effects_of_step hs (bookStep_sound hstep)),
        guarded_step hs hguarded hcandle hstep⟩).2

/-! ## The expiry before the close -/

/-- The sweep of the sessions closes the position of a filled order that is past its expiry. -/
theorem expireOrder_filled (hfilled : o.status = .filled) (hlate : ∃ e ∈ o.expireAt, e ≤ t) :
    ((expireOrder t o).getD o).positionClosed = true ∧
      ((expireOrder t o).getD o).filled = o.filled ∧
        ((expireOrder t o).getD o).exited = o.exited := by
  unfold expireOrder
  rw [if_pos hlate, hfilled]
  dsimp only
  split
  · next hclosed => exact ⟨hclosed, rfl, rfl⟩
  · exact ⟨rfl, rfl, rfl⟩

theorem orders_expireAllPending : ∀ o' ∈ (b.expireAllPending t).1.virtualOrders,
    ∃ o ∈ b.virtualOrders,
    o' = (expireOrder t o).getD o ∨ o' = ((expireOrder t o).getD o).drained := by
  intro o' ho'
  unfold expireAllPending at ho'
  dsimp only at ho'
  split at ho'
  · obtain ⟨o, ho, rfl⟩ := mem_map.mp ho'
    exact ⟨o, ho, .inl rfl⟩
  · obtain ⟨y, hy, hdrained⟩ := exists_before forall₂_collectOrders ho'
    obtain ⟨o, ho, rfl⟩ := mem_map.mp hy
    exact ⟨o, ho, hdrained⟩

theorem pruned_expireAllPending : (b.expireAllPending t).1.pruned = b.pruned := by
  unfold expireAllPending
  dsimp only
  split <;> rfl

/-- **The sweep of the sessions** takes the bracket of a filled order that is past its expiry,
whatever is left to sell. -/
theorem not_coveredIn_expireAllPending (hinv : CoreInv b.core) (hret : Retired b.core)
    (ho : o ∈ b.virtualOrders) (hfilled : o.status = .filled) (hlt : o.exited < o.filled)
    (hlate : ∃ e ∈ o.expireAt, e ≤ t) : ¬ CoveredIn o.orderId (b.expireAllPending t).1 := by
  -- every order of the id is what expiry made of `o`
  have hclosed : ∀ o' ∈ (b.expireAllPending t).1.virtualOrders, o'.orderId = o.orderId →
      o'.positionClosed = true ∧ o'.exited < o'.filled := by
    intro o' ho' hid
    obtain ⟨y, hy, hexpired⟩ := orders_expireAllPending o' ho'
    have hyid : y.orderId = o.orderId := by
      rcases hexpired with rfl | rfl <;> exact sameExpiry_expireOrder.1.symm.trans hid
    obtain rfl : y = o := List.inj_on_of_nodup_map hinv.nodup hy ho hyid
    obtain ⟨hpos, hfill, hexit⟩ := expireOrder_filled hfilled hlate
    have hleft : ((expireOrder t y).getD y).exited < ((expireOrder t y).getD y).filled := by
      rwa [hfill, hexit]
    rcases hexpired with rfl | rfl
    · exact ⟨hpos, hleft⟩
    · exact ⟨hpos, hleft⟩
  rintro (⟨o', ho', hid, heligible⟩ | ⟨o', ho', hid, hout⟩)
  · simp only [SimulatedOrder.isEligibleForBracket, decide_eq_true_eq] at heligible
    exact heligible.2.2.2.1 (hclosed o' ho' hid).1
  · rcases mem_append.mp ho' with ho' | ho'
    · exact (hclosed o' ho' hid).2.ne hout.exited
    · rw [pruned_expireAllPending] at ho'
      exact hret.gone o' ho' o ho hid.symm

/-- **The entry TTL and the bracket.**  An order is placed in a book, and later it is filled, with a
bracket that may still exit it.  In every run before the close of the candle the order can be exited
by its bracket or was exited whole, if and only if the expiry that it was placed with is no earlier
than the close. -/
theorem bracket_outlives_ttl {b₀ : ShadowOrderbook} {q : QueueOrder} (hb : Reachable b₀)
    (hallowed : (q.action id).Allowed b₀)
    (hrun : Run bookStep (fun _ _ => True) ((q.action id).apply t b₀) b) (ho : o ∈ b.virtualOrders)
    (hid : o.orderId = id) (hfilled : o.status = .filled)
    (heligible : o.isEligibleForBracket = true) (hnow : now < close) :
    (∀ b', Run bookStep (InCandle now close) b b' → CoveredIn id b') ↔
      ∀ e ∈ q.expireAt t, close ≤ e := by
  obtain ⟨hinv, hexpiry⟩ := expiry_run hb hallowed hrun
  have hexpire : o.expireAt = q.expireAt t := hexpiry o ho hid
  have hcovered : o.Covered := covered_of_eligible (hinv.ok o ho) hfilled heligible
  constructor
  · intro hall e he
    by_contra hearly
    -- the sessions are swept between the expiry and the close
    have hin : InCandle now close b (max e now, .feed .expireAllPending) :=
      ⟨le_max_right _ _, max_lt (not_le.mp hearly) hnow, rfl⟩
    have hcov := hall _ (.next .start hin (bookStep_of_allowed
      (x := (max e now, .feed .expireAllPending)) trivial))
    have hlt : o.exited < o.filled := by
      rcases hcovered.2 with ⟨-, hlt⟩ | hout
      · exact hlt
      · simp only [SimulatedOrder.isEligibleForBracket, decide_eq_true_eq] at heligible
        exact absurd hout.1 heligible.2.2.2.1
    have hstart : bookStep b₀ (t, q.action id) = some ((q.action id).apply t b₀) :=
      bookStep_of_allowed hallowed
    obtain ⟨tokenId, hbook⟩ := hb
    have hreach : Reachable b :=
      ⟨tokenId, (hbook.tail (bookStep_sound hstart)).trans (bookRun_of_run hrun)⟩
    exact not_coveredIn_expireAllPending hinv (retired_of_reachable hreach) ho hfilled hlt
      ⟨e, hexpire ▸ he, le_max_left _ _⟩ (hid ▸ hcov)
  · intro hlate b' hrun'
    exact (guarded_run hinv (.inl ⟨o, ho, hid, hexpire ▸ hlate, hcovered⟩) hrun').coveredIn

end

/-! ## The payloads of the queue -/

/-- An order for a later session expires no earlier than the session settles. -/
theorem expireAt_later_session {m : QueuePayload} {now settlementAt : Time} {ask : Option ℚ}
    {r : OrderRequest} (hr : m.orderRequest now ask = some r) (hoffset : 1 ≤ m.sessionOffset)
    (hsettle : m.settlementAt = some settlementAt) : ∀ e ∈ r.expireAt now, settlementAt ≤ e := by
  have httl : r.ttlSeconds = m.ttlSeconds now := by
    unfold QueuePayload.orderRequest at hr
    split at hr
    · obtain rfl := Option.some.inj hr
      rfl
    · cases hr
  unfold QueuePayload.ttlSeconds at httl
  rw [hsettle] at httl
  dsimp only at httl
  rw [if_pos hoffset] at httl
  have hmin : settlementAt - now ≤ max (settlementAt - now) 1 := le_max_left _ _
  intro e he
  unfold OrderRequest.expireAt at he
  rw [httl] at he
  obtain rfl := Option.some.inj he
  split
  · next ttl _ =>
    have hmax : max (settlementAt - now) 1 ≤ max (ttl : Time) (max (settlementAt - now) 1) :=
      le_max_right _ _
    linarith
  · linarith

/-! ## A filled order that expires -/

/-- A LIMIT BUY of ten shares with both conditions, placed at 1 s in a candle that closes at 300
s. -/
def ttlRequest (ttl : Option Time) : OrderRequest :=
  { side := .buy, price := 3 / 5, quantity := 10, tpPrice := some (13 / 20),
    slPrice := some (7 / 20)
    timeframe := some .m5, ttlSeconds := ttl }

def bracketedBook (ttl : Option Time) : ShadowOrderbook :=
  (BookAction.place 7 (ttlRequest ttl)).apply 1 offerBook

def bracketedOrder (ttl : Option Time) : SimulatedOrder :=
  (bracketedBook ttl).virtualOrders.headD ((ttlRequest ttl).newOrder 1 7)

theorem reachable_offerBook : Reachable offerBook :=
  ⟨"up", .single (.applySnapshot _ 0 [] [⟨1 / 2, 10, by norm_num⟩])⟩

/-- Without a TTL the order expires with the candle, and a pass after 200 s leaves it its
bracket. -/
theorem bracket_outlives_ttl_candle : CoveredIn 7 ((bracketedBook none).runMatching 200).1 := by
  have hallowed : ((QueueOrder.standard (ttlRequest none)).action 7).Allowed offerBook := by
    decide +kernel
  have hout : ∀ b', Run bookStep (InCandle 1 300) (bracketedBook none) b' → CoveredIn 7 b' :=
    (bracket_outlives_ttl reachable_offerBook hallowed .start
      (show bracketedOrder none ∈ (bracketedBook none).virtualOrders by decide +kernel)
        (by decide +kernel)
      (by decide +kernel) (by decide +kernel) (by norm_num)).mpr (by decide +kernel)
  exact hout _ (.next .start (a := (200, .feed .runMatching)) (by decide +kernel) rfl)

/-- **The TTL closes a position**: the pass after 121 s takes the bracket of the order, which bought
ten shares and sold none, 179 s before its candle closes. -/
theorem ttl_closes_position : ¬ ∀ (b₀ b b' : ShadowOrderbook) (q : QueueOrder) (id : OrderId)
    (o : SimulatedOrder) (t now close : Time), Reachable b₀ → (q.action id).Allowed b₀ →
    Run bookStep (fun _ _ => True) ((q.action id).apply t b₀) b → o ∈ b.virtualOrders →
      o.orderId = id →
    o.status = .filled → o.isEligibleForBracket = true → now < close →
    Run bookStep (InCandle now close) b b' → CoveredIn id b' := by
  intro hall
  have hcovered := hall offerBook (bracketedBook (some 120))
    ((bracketedBook (some 120)).runMatching 121).1
    (.standard (ttlRequest (some 120))) 7 (bracketedOrder (some 120)) 1 1 300 reachable_offerBook
    (by decide +kernel) .start (by decide +kernel) (by decide +kernel) (by decide +kernel)
    (by decide +kernel) (by norm_num) (.next .start (a := (121, .feed .runMatching))
      (by decide +kernel) rfl)
  revert hcovered
  decide +kernel

end PolyArena
