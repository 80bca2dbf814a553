import PolyArena.MatchingEngine.Accounting
import PolyArena.MatchingEngine.Actions
import PolyArena.MatchingEngine.Placement

/-!
# Expired books

`expire_book` marks a book and cancels its open orders (`expireBook_terminal`).  No other operation
changes the mark (`apply_expired`), and none but a placement brings an open order into a book that
has none (`apply_terminal`).
-/

namespace PolyArena

open Relation ShadowOrderbook

/-- No order of the book is PENDING or PARTIAL. -/
def AllTerminal (b : ShadowOrderbook) : Prop := ∀ o ∈ b.virtualOrders, o.status.isTerminal = true

section

variable {b : ShadowOrderbook} {o : SimulatedOrder} {os : List SimulatedOrder} {now : Time}
  {bid : ℚ} {a : BookAction} {c c' : BookCore} {id : OrderId}

/-! ## The mark stays -/

@[simp] theorem matchOrder_expired : (matchOrder now b o).1.expired = b.expired := by
  unfold matchOrder
  dsimp only
  split <;> rfl

@[simp] theorem matchOrders_expired : (matchOrders now b os).1.expired = b.expired := by
  induction os generalizing b with
  | nil => rfl
  | cons o os ih =>
    unfold matchOrders
    dsimp only
    rw [ih]
    split
    · rfl
    · exact matchOrder_expired

@[simp] theorem checkBracket_expired : (checkBracket now bid b o).1.expired = b.expired := by
  unfold checkBracket
  split
  · split <;> rfl
  · rfl

@[simp] theorem checkNewBracket_expired : (checkNewBracket now b o).1.expired = b.expired := by
  unfold checkNewBracket
  split
  · rfl
  · exact checkBracket_expired

theorem monitorOrders_expired : (monitorOrders now bid b os).1.expired = b.expired := by
  induction os generalizing b with
  | nil => rfl
  | cons o os ih =>
    unfold monitorOrders
    dsimp only
    rw [ih, checkBracket_expired]

theorem monitor_expired : (b.monitorBracketOrders now).1.expired = b.expired := by
  unfold monitorBracketOrders
  split
  · rfl
  · exact monitorOrders_expired

theorem matchPass_expired : (b.matchPass now).expired = b.expired := by
  unfold matchPass
  dsimp only
  split
  · rfl
  · exact matchOrders_expired

theorem cleanup_expired : (b.cleanup now).expired = b.expired := by
  unfold ShadowOrderbook.cleanup
  split <;> rfl

theorem applyChanges_expired {changes : List FeedChange} :
    (b.applyChanges now changes).expired = b.expired := by
  have hfold : ∀ b : ShadowOrderbook, (changes.foldl applyChange b).expired = b.expired := by
    intro b
    induction changes generalizing b with
    | nil => rfl
    | cons ch changes ih =>
      rw [List.foldl_cons, ih]
      unfold applyChange
      dsimp only
      split <;> rfl
  exact hfold { b with depthCache := [] }

theorem forceClose_expired : (b.forceCloseAtMarket now id).1.expired = b.expired := by
  unfold forceCloseAtMarket
  split
  · rfl
  · dsimp only
    split
    · rfl
    · split <;> rfl

theorem feedOp_expired (op : FeedOp) (hop : op ≠ .expireBook) :
    (op.apply now b).1.expired = b.expired := by
  cases op with
  | applyChanges changes => exact applyChanges_expired
  | runMatching =>
    show (cleanup now (b.matchPass now).collectStateChanges.1).expired = b.expired
    rw [cleanup_expired]
    exact matchPass_expired
  | monitorBracketOrders => exact monitor_expired
  | expireAllPending =>
    show (b.expireAllPending now).1.expired = b.expired
    unfold expireAllPending
    dsimp only
    split <;> rfl
  | expireBook => exact absurd rfl hop
  | _ => rfl

/-- **Only `expire_book`** changes the mark of a book. -/
theorem apply_expired (ha : a ≠ .feed .expireBook) : (a.apply now b).expired = b.expired := by
  cases a with
  | feed op => exact feedOp_expired op fun hop => ha (hop ▸ rfl)
  | place id r => exact checkNewBracket_expired.trans matchOrder_expired
  | placePrefilled id r => exact checkNewBracket_expired
  | forceClose id => exact forceClose_expired
  | cancelOrder id =>
    show (b.cancelOrder id).1.expired = b.expired
    unfold ShadowOrderbook.cancelOrder
    split
    · rfl
    · split <;> rfl
  | depth side levels =>
    show (b.depth side levels).2.expired = b.expired
    unfold ShadowOrderbook.depth
    split <;> rfl
  | _ => rfl

/-! ## No open order enters -/

theorem collectOrders_status {r : SortedDict OrderId (ℚ × OrderStatus)} :
    ∀ x ∈ (collectOrders r os).2.1, ∃ y ∈ os, x.status = y.status := by
  intro x hx
  obtain ⟨y, hy, hxy⟩ := exists_before forall₂_collectOrders hx
  refine ⟨y, hy, ?_⟩
  rcases hxy with rfl | rfl <;> rfl

theorem cancelOpen_terminal : (cancelOpen o).status.isTerminal = true := by
  unfold cancelOpen
  split
  · assumption
  · rfl

theorem expireBook_terminal (b : ShadowOrderbook) : AllTerminal b.expireBook.1 := by
  intro o ho
  obtain ⟨y, hy, hoy⟩ := collectOrders_status o ho
  obtain ⟨z, -, rfl⟩ := List.mem_map.mp hy
  rw [hoy]
  exact cancelOpen_terminal

/-- The operation places an order to be matched. -/
def BookAction.isPlace : BookAction → Bool
  | place .. => true
  | _ => false

/-- The operation brings a new order into the book. -/
def BookAction.brings : BookAction → Bool
  | place .. | placePrefilled .. => true
  | _ => false

/-- What brings no order records none. -/
theorem gains_unplaced (ha : a.brings = false) :
    Gains (fun r => ∀ i, r ≠ .placed i) b.history (a.apply now b).history := by
  have hexit : ∀ r : BookRecord, r.isExitFill = true → ∀ i, r ≠ .placed i := by
    rintro r hr i rfl
    cases hr
  have hfeed : ∀ r : BookRecord, r.isFeed = true → ∀ i, r ≠ .placed i := by
    rintro r hr i rfl
    cases hr
  cases a with
  | feed op =>
    by_cases hpass : op = .runMatching
    · subst hpass
      refine (gains_runMatching (fills_none _)).mono ?_
      rintro _ ⟨x, -, -, -, side, p, q, rfl⟩ i
      nofun
    by_cases hmonitor : op = .monitorBracketOrders
    · subst hmonitor
      exact gains_monitor.mono hexit
    · exact (feeds_feedOp op hpass hmonitor).mono hfeed
  | place id r => cases ha
  | placePrefilled id r => cases ha
  | forceClose id => exact (gains_forceClose id).mono hexit
  | cancelOrder id => exact gains_cancelOrder
  | depth side levels => exact gains_depth
  | _ => exact .refl _ _

/-- What an operation other than a placement brings is already filled. -/
theorem new_order_filled (hinv : CoreInv b.core) (hallowed : a.Allowed b)
    (hplace : a.isPlace = false) (ho : o ∈ (a.apply now b).virtualOrders)
    (hfresh : .placed o.orderId ∉ b.history) :
    o.status = .filled := by
  by_cases hbrings : a.brings = false
  · have hstep : BookStep b (a.apply now b) :=
      bookStep_sound (x := (now, a)) (bookStep_of_allowed hallowed)
    have hplaced := (effects_inv hinv (effects_of_step hinv hstep)).placed o ho
    rcases (gains_unplaced hbrings).mem hplaced with hrec | hold
    · exact absurd rfl (hrec _)
    · exact absurd hold hfresh
  · cases a with
    | placePrefilled id r =>
      replace ho : o ∈ (b.placePrefilledBracketOrder now id r).book.virtualOrders := ho
      have horders : (b.placePrefilledBracketOrder now id r).book.virtualOrders = b.virtualOrders ++
          [(checkNewBracket now { b with
              history := .prefill id r.avgEntryPrice r.filled :: .placed id ::
            b.history } (r.newOrder now id)).2.1] := by
        unfold placePrefilledBracketOrder
        dsimp only
        rw [checkNewBracket_virtualOrders]
        rfl
      rw [horders] at ho
      rcases List.mem_append.mp ho with ho | ho
      · exact absurd (hinv.placed o ho) hfresh
      · rw [List.mem_singleton.mp ho, checkNewBracket_status]
        rfl
    | place id r => cases hplace
    | _ => exact absurd rfl hbrings

/-- **Only a placement** brings an open order into a book that has none. -/
theorem apply_terminal (hinv : CoreInv b.core) (hallowed : a.Allowed b) (hplace : a.isPlace = false)
    (hall : AllTerminal b) : AllTerminal (a.apply now b) := by
  have hstep : BookStep b (a.apply now b) :=
    bookStep_sound (x := (now, a)) (bookStep_of_allowed hallowed)
  intro o' ho'
  rcases effects_advance (effects_of_step hinv hstep) o' ho' with ⟨o, ho, -, hadv⟩ | hnew
  · have hterm := hall o ho
    rw [hadv.2 hterm]
    exact hterm
  · rw [new_order_filled hinv hallowed hplace ho' hnew]
    rfl

end

end PolyArena
