import PolyArena.MatchingEngine.ExpiredBooks
import Mathlib.Data.List.Forall2

/-!
# Relations between orders along the operations

What an operation on a book makes of its orders follows from what is done to one order at a time.

1. `Fixed f`: a fill, a locked reference price and a cancellation leave the reading `f` of an order
   alone; `Fixed.matchAndCancel` says that a match then does.
2. `Respects R`: draining, cancelling, matching and exiting one order leave it in the relation `R`
   to what it was; `RespectsMatching R` says so without the exits.
3. `Respects.apply`: after any operation the book lists its orders in the relation `R` to what they
   were, with one new order at the end or without the pruned ones.  The operations that expire or
   resolve orders ask that these leave an order in the relation as well.
-/

namespace PolyArena

open ShadowOrderbook List

/-- A reading of orders that matching leaves alone. -/
structure Fixed {α : Type*} (f : SimulatedOrder → α) : Prop where
  addFill : ∀ o p q, f (o.addFill p q) = f o
  slippage : ∀ o ref, f { o with slippageRefPrice := ref } = f o
  canceled : ∀ o, f { o with status := .canceled } = f o

/-- What is done to one order apart from exits leaves it in the relation `R` to what it was. -/
structure RespectsMatching (R : SimulatedOrder → SimulatedOrder → Prop) : Prop where
  orderId : ∀ {o o'}, R o' o → o'.orderId = o.orderId
  refl : ∀ o, R o o
  trans : ∀ {o o' o''}, R o'' o' → R o' o → R o'' o
  drained : ∀ o, R o.drained o
  canceled : ∀ o, R (cancelOpen o) o
  matched : ∀ t b o, o.status.isTerminal = false → R (matchAndCancel t b o).2 o

/-- What is done to one order leaves it in the relation `R` to what it was. -/
structure Respects (R : SimulatedOrder → SimulatedOrder → Prop) :
    Prop extends RespectsMatching R where
  exited : ∀ t b o bid trigger, 0 < o.filled → o.positionClosed = false →
    R (executeBracketExit t b o bid trigger).2.1 o

/-- The id that the operation places an order under. -/
def BookAction.placedId : BookAction → Option OrderId
  | place id _ | placePrefilled id _ => some id
  | _ => none

/-- The operations that expire orders. -/
def BookAction.expires : BookAction → Bool
  | feed .runMatching | feed .expireAllPending | expirePendingOrders => true
  | _ => false

/-- The operations that may execute exits. -/
def BookAction.mayExit : BookAction → Bool
  | feed .monitorBracketOrders | place .. | placePrefilled .. | forceClose _ => true
  | _ => false

/-- The operation resolves the market. -/
def BookAction.resolves : BookAction → Bool
  | feed .handleMarketResolved => true
  | _ => false

/-- The orders `os` as `b'` lists them after `a`: all of them, with a new one at the end, or those
that were not pruned. -/
inductive Listed (a : BookAction) (t : Time) (os : List SimulatedOrder) (b' : ShadowOrderbook) :
    Prop
  | all (horders : b'.virtualOrders = os)
  | brought (o : SimulatedOrder) (hplaced : a.placedId = some o.orderId)
      (horders : b'.virtualOrders = os ++ [o])
  | swept (horders : b'.virtualOrders = os.filter fun o => !isPrunable t o)
      (hpruned : ∀ o ∈ os, isPrunable t o = true → o ∈ b'.pruned)

section

variable {α : Type*} {f : SimulatedOrder → α} {R : SimulatedOrder → SimulatedOrder → Prop}
  {b b' : ShadowOrderbook} {o o' : SimulatedOrder} {os os' : List SimulatedOrder} {t : Time}
  {bid : ℚ} {limit : Option ℚ} {levels : List ℚ} {l : Ladder}
  {r : SortedDict OrderId (ℚ × OrderStatus)} {id : OrderId}

/-! ## Readings -/

theorem Fixed.sweepAsks (hf : Fixed f) : f (sweepAsks limit levels l o).order = f o := by
  induction levels generalizing l o with
  | nil => rfl
  | cons price levels ih =>
    unfold PolyArena.sweepAsks
    dsimp only
    split_ifs
    · exact ih
    · rfl
    · split
      · rfl
      · split_ifs
        · rfl
        · exact hf.addFill o _ _
        · exact ih.trans (hf.addFill o _ _)

theorem Fixed.sweepBids (hf : Fixed f) : f (sweepBids limit levels l o).order = f o := by
  induction levels generalizing l o with
  | nil => rfl
  | cons price levels ih =>
    unfold PolyArena.sweepBids
    dsimp only
    split_ifs
    · exact ih
    · rfl
    · exact hf.addFill o _ _
    · exact ih.trans (hf.addFill o _ _)

theorem Fixed.lockSlippage (hf : Fixed f) : f (b.lockSlippage o).1 = f o := by
  unfold ShadowOrderbook.lockSlippage
  dsimp only
  split
  · rfl
  · split <;> split <;> first | rfl | exact hf.slippage o _

/-- **A match** leaves a fixed reading alone. -/
theorem Fixed.matchAndCancel (hf : Fixed f) : f (matchAndCancel t b o).2 = f o := by
  have hmatched : f (matchOrder t b o).2 = f o := by
    unfold matchOrder
    dsimp only
    split
    · exact hf.sweepAsks.trans hf.lockSlippage
    · exact hf.sweepBids.trans hf.lockSlippage
  unfold ShadowOrderbook.matchAndCancel iocCancel
  dsimp only
  split_ifs
  · exact (hf.canceled _).trans hmatched
  · exact hmatched

/-! ## Lists of orders -/

/-- An operation records the id of its order as placed, and no other. -/
theorem placed_apply {a : BookAction} (hid : .placed id ∈ (a.apply t b).history) :
    .placed id ∈ b.history ∨ a.placedId = some id := by
  have hbracket : ∀ {b₀ : ShadowOrderbook} {o : SimulatedOrder},
      .placed id ∈ (checkNewBracket t b₀ o).1.history → .placed id ∈ b₀.history := by
    intro b₀ o hk
    rcases gains_checkNewBracket.mem hk with hexit | hold
    · cases hexit
    · exact hold
  cases hbrings : a.brings with
  | false =>
    rcases (gains_unplaced hbrings).mem hid with hnew | hold
    · exact absurd rfl (hnew id)
    · exact .inl hold
  | true =>
    cases a with
    | place k r =>
      rcases (gains_matchOrder t _ _).mem (hbracket hid) with ⟨-, side, p, q, hfill⟩ | hold
      · cases hfill
      · rcases List.mem_cons.mp hold with heq | hold
        · exact .inr (congrArg some (BookRecord.placed.inj heq).symm)
        · exact .inl hold
    | placePrefilled k r =>
      rcases List.mem_cons.mp (hbracket hid) with heq | hold
      · cases heq
      · rcases List.mem_cons.mp hold with heq | hold
        · exact .inr (congrArg some (BookRecord.placed.inj heq).symm)
        · exact .inl hold
    | _ => cases hbrings

theorem brings_of_placedId {a : BookAction} (h : a.placedId = some id) : a.brings = true := by
  cases a <;> first | rfl | cases h

theorem related_map {g : SimulatedOrder → SimulatedOrder} (h : ∀ o ∈ os, R (g o) o) :
    Forall₂ R (os.map g) os := by
  rw [forall₂_map_left_iff]
  exact forall₂_same.mpr h

/-- The sweep lists what it does not prune. -/
theorem listed_cleanup {a : BookAction} : Listed a t b.virtualOrders (b.cleanup t) := by
  unfold ShadowOrderbook.cleanup
  split
  · exact .swept rfl fun o ho hp => mem_append_right _ (mem_filter.mpr ⟨ho, hp⟩)
  · exact .all rfl

/-! ## Without exits -/

namespace RespectsMatching

variable (hR : RespectsMatching R)
include hR

theorem same (os : List SimulatedOrder) : Forall₂ R os os := forall₂_same.mpr fun o _ => hR.refl o

theorem forall₂_trans {os'' : List SimulatedOrder} (h : Forall₂ R os'' os')
    (h' : Forall₂ R os' os) :
    Forall₂ R os'' os := by
  induction h generalizing os with
  | nil => exact h'
  | cons hrel _ ih =>
    cases h' with
    | cons hrel' h' => exact .cons (hR.trans hrel hrel') (ih h')

theorem matchOrders : Forall₂ R (matchOrders t b os).2 os := by
  induction os generalizing b with
  | nil => exact .nil
  | cons o os ih =>
    unfold ShadowOrderbook.matchOrders
    refine .cons ?_ ih
    cases ha : o.status.isTerminal with
    | true => exact hR.refl o
    | false => exact hR.matched t b o ha

theorem collectOrders : Forall₂ R (collectOrders r os).2.1 os := by
  refine forall₂_collectOrders.imp fun o' o hdrained => ?_
  rcases hdrained with rfl | rfl
  · exact hR.refl o'
  · exact hR.drained o

/-- Changing the orders of an id to what one of them became. -/
theorem replace (ho : os.find? (fun x => x.orderId = id) = some o) (hrel : R o' o)
    (hnd : (os.map SimulatedOrder.orderId).Nodup) :
    Forall₂ R (os.map fun x => if x.orderId = id then o' else x) os := by
  obtain ⟨pre, post, rfl, hmap⟩ := map_replace hnd ho o'
  rw [hmap]
  exact rel_append (hR.same pre) (.cons hrel (hR.same post))

theorem matchPass (h : ∀ o ∈ b.virtualOrders, R ((expireOrder t o).getD o) o) :
    Forall₂ R (b.matchPass t).virtualOrders b.virtualOrders := by
  have hexpired : Forall₂ R (b.passBook t).virtualOrders b.virtualOrders := related_map h
  unfold ShadowOrderbook.matchPass
  dsimp only
  split
  · exact hexpired
  · exact hR.forall₂_trans hR.matchOrders hexpired

theorem collect : Forall₂ R b.collectStateChanges.1.virtualOrders b.virtualOrders :=
  hR.collectOrders

theorem cancelAll : Forall₂ R (b.virtualOrders.map cancelOpen) b.virtualOrders :=
  related_map fun o _ => hR.canceled o

/-- An operation of the feed thread other than the matching pass and the exits. -/
theorem feedOp (op : FeedOp) (hop : op ≠ .runMatching) (hexits : op ≠ .monitorBracketOrders)
    (hexp : op = .expireAllPending → ∀ o ∈ b.virtualOrders, R ((expireOrder t o).getD o) o)
    (hres : op = .handleMarketResolved → ∀ o ∈ b.virtualOrders, R (resolveOrder o) o) :
    Forall₂ R (op.apply t b).1.virtualOrders b.virtualOrders := by
  cases op with
  | applySnapshot bids asks => exact hR.same _
  | applyChanges changes =>
    have hframe : (b.applyChanges t changes).virtualOrders = b.virtualOrders := applyChanges_frame.1
    change Forall₂ R (b.applyChanges t changes).virtualOrders b.virtualOrders
    rw [hframe]
    exact hR.same _
  | recordTrade => exact hR.same _
  | touch => exact hR.same _
  | runMatching => exact absurd rfl hop
  | monitorBracketOrders => exact absurd rfl hexits
  | expireAllPending =>
    have hexpired : Forall₂ R (b.expirePendingOrders t).1.virtualOrders b.virtualOrders :=
      related_map (hexp rfl)
    change Forall₂ R (b.expireAllPending t).1.virtualOrders b.virtualOrders
    unfold ShadowOrderbook.expireAllPending
    dsimp only
    split
    · exact hexpired
    · exact hR.forall₂_trans hR.collect hexpired
  | expireBook => exact hR.forall₂_trans hR.collect hR.cancelAll
  | handleMarketResolved => exact related_map (hres rfl)
  | shutdownBook => exact hR.forall₂_trans hR.collect hR.cancelAll

/-- **An operation without exits** leaves the orders in the relation to what they were. -/
theorem apply (hnd : (b.virtualOrders.map SimulatedOrder.orderId).Nodup) {a : BookAction}
    (hexits : a.mayExit = false)
    (hexp : a.expires = true → ∀ o ∈ b.virtualOrders, R ((expireOrder t o).getD o) o)
    (hres : a.resolves = true → ∀ o ∈ b.virtualOrders, R (resolveOrder o) o) :
    ∃ os, Forall₂ R os b.virtualOrders ∧ Listed a t os (a.apply t b) := by
  cases a with
  | feed op =>
    by_cases hop : op = .runMatching
    · subst hop
      exact ⟨_, hR.forall₂_trans hR.collect (hR.matchPass (hexp rfl)), listed_cleanup⟩
    · have hfeed := hR.feedOp (t := t) op hop (by rintro rfl; cases hexits)
        (fun h => hexp (h ▸ rfl))
        fun h => hres (h ▸ rfl)
      exact ⟨_, hfeed, .all rfl⟩
  | place id r => cases hexits
  | placePrefilled id r => cases hexits
  | forceClose id => cases hexits
  | cancelOrder id =>
    refine ⟨_, ?_, .all rfl⟩
    change Forall₂ R (b.cancelOrder id).1.virtualOrders b.virtualOrders
    unfold ShadowOrderbook.cancelOrder
    split
    · exact hR.same _
    · next o ho =>
      split
      · exact hR.same _
      · exact hR.replace ho (hR.canceled o) hnd
  | cancelAllVirtual => exact ⟨_, hR.cancelAll, .all rfl⟩
  | expirePendingOrders => exact ⟨_, related_map (hexp rfl), .all rfl⟩
  | seedLastReported id filled status => exact ⟨_, hR.same _, .all rfl⟩
  | registerStateChangeCallback => exact ⟨_, hR.same _, .all rfl⟩
  | depth side levels =>
    refine ⟨_, hR.same _, .all ?_⟩
    change (b.depth side levels).2.virtualOrders = b.virtualOrders
    unfold ShadowOrderbook.depth
    split <;> rfl

end RespectsMatching

/-! ## With exits -/

namespace Respects

variable (hR : Respects R)
include hR

theorem checkBracket : R (checkBracket t bid b o).2.1 o := by
  unfold ShadowOrderbook.checkBracket
  split
  · next heligible =>
    split
    · exact hR.refl o
    · simp only [SimulatedOrder.isEligibleForBracket, decide_eq_true_eq] at heligible
      obtain ⟨-, -, hpos, hopen, -⟩ := heligible
      exact hR.exited t b o bid _ hpos (by simpa using hopen)
  · exact hR.refl o

theorem checkNewBracket : R (checkNewBracket t b o).2.1 o := by
  unfold ShadowOrderbook.checkNewBracket
  split
  · exact hR.refl o
  · exact hR.checkBracket

theorem monitorOrders : Forall₂ R (monitorOrders t bid b os).2.1 os := by
  induction os generalizing b with
  | nil => exact .nil
  | cons o os ih => exact .cons hR.checkBracket ih

/-- A placement lists its order last, as what was made of the new one. -/
theorem placeVirtualOrder (q : OrderRequest) : ∃ os o,
    (b.placeVirtualOrder t id q).book.virtualOrders = os ++ [o] ∧ Forall₂ R os b.virtualOrders ∧
      R o (q.newOrder t id) := by
  let entered := (ShadowOrderbook.checkNewBracket t
    (matchAndCancel t { b with history := .placed id :: b.history } (q.newOrder t id)).1
    (matchAndCancel t { b with history := .placed id :: b.history } (q.newOrder t id)).2).2.1
  have hentered : R entered (q.newOrder t id) := hR.trans hR.checkNewBracket (hR.matched t _ _ rfl)
  have hcollected : Forall₂ R (b.placeVirtualOrder t id q).book.virtualOrders
      (b.virtualOrders ++ [entered]) :=
    hR.collectOrders
  obtain ⟨o, rest, ho, hrest, hlast⟩ :=
    forall₂_cons_right_iff.mp (forall₂_drop_append _ b.virtualOrders [entered] hcollected)
  refine ⟨_, o, ?_, forall₂_take_append _ b.virtualOrders [entered] hcollected,
    hR.trans ho hentered⟩
  rw [forall₂_nil_right_iff.mp hrest] at hlast
  rw [← hlast, take_append_drop]

theorem placePrefilled (q : PrefilledRequest) : ∃ o,
    (b.placePrefilledBracketOrder t id q).book.virtualOrders = b.virtualOrders ++ [o] ∧
      R o (q.newOrder t id) := by
  refine ⟨_, ?_, hR.checkNewBracket (t := t) (o := q.newOrder t id)
    (b := { b with history := .prefill id q.avgEntryPrice q.filled :: .placed id :: b.history })⟩
  unfold placePrefilledBracketOrder
  dsimp only
  rw [checkNewBracket_virtualOrders]
  rfl

/-- **An operation** leaves the orders in the relation to what they were. -/
theorem apply (hnd : (b.virtualOrders.map SimulatedOrder.orderId).Nodup) {a : BookAction}
    (hexp : a.expires = true → ∀ o ∈ b.virtualOrders, R ((expireOrder t o).getD o) o)
    (hres : a.resolves = true → ∀ o ∈ b.virtualOrders, R (resolveOrder o) o) :
    ∃ os, Forall₂ R os b.virtualOrders ∧ Listed a t os (a.apply t b) := by
  cases hexits : a.mayExit with
  | false => exact hR.toRespectsMatching.apply hnd hexits hexp hres
  | true =>
    cases a with
    | feed op =>
      cases op with
      | monitorBracketOrders =>
        refine ⟨_, ?_, .all rfl⟩
        change Forall₂ R (b.monitorBracketOrders t).1.virtualOrders b.virtualOrders
        unfold ShadowOrderbook.monitorBracketOrders
        split
        · exact hR.same _
        · exact hR.monitorOrders
      | _ => cases hexits
    | place id r =>
      obtain ⟨os, o, horders, hos, ho⟩ := hR.placeVirtualOrder r
      exact ⟨os, hos, .brought o (congrArg some (hR.orderId ho).symm) horders⟩
    | placePrefilled id r =>
      obtain ⟨o, horders, ho⟩ := hR.placePrefilled r
      exact ⟨_, hR.same _, .brought o (congrArg some (hR.orderId ho).symm) horders⟩
    | forceClose id =>
      refine ⟨_, ?_, .all rfl⟩
      change Forall₂ R (b.forceCloseAtMarket t id).1.virtualOrders b.virtualOrders
      unfold forceCloseAtMarket
      split
      · exact hR.same _
      · next o ho =>
        split
        · exact hR.same _
        · next hclosed =>
          split
          · exact hR.same _
          · obtain ⟨hpos, hopen⟩ := not_or.mp hclosed
            exact hR.replace ho (hR.exited t _ _ _ _ (not_le.mp hpos) (by simpa using hopen)) hnd
    | _ => cases hexits

end Respects

end

end PolyArena
