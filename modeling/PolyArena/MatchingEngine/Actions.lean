import PolyArena.Lib.Runs
import PolyArena.MatchingEngine.Trading

/-!
# The operations on a book as actions

A book as a machine (`BookAction`, `bookStep`), and which of its actions execute entry fills and
bracket exits.

1. `BookAction.fills` and `BookAction.exits` say from the book before an action whether it executes
   an entry fill of an order of some kind, or a bracket exit.
2. `action_entries` says which orders the entry fills of an action are for, and `action_idle` that
   an action executes nothing when neither holds.
-/

namespace PolyArena

open ShadowOrderbook

/-! ## A book as a machine -/

/-- An operation on a book. -/
inductive BookAction
  | feed (op : FeedOp)
  | place (id : OrderId) (r : OrderRequest)
  | placePrefilled (id : OrderId) (r : PrefilledRequest)
  | forceClose (id : OrderId)
  | cancelOrder (id : OrderId)
  | cancelAllVirtual
  | expirePendingOrders
  | seedLastReported (id : OrderId) (filled : ℚ) (status : OrderStatus)
  | registerStateChangeCallback
  | depth (side : BookSide) (levels : ℕ)

namespace BookAction

/-- The book after the operation. -/
def apply (now : Time) (b : ShadowOrderbook) : BookAction → ShadowOrderbook
  | feed op => (op.apply now b).1
  | place id r => (b.placeVirtualOrder now id r).book
  | placePrefilled id r => (b.placePrefilledBracketOrder now id r).book
  | forceClose id => (b.forceCloseAtMarket now id).1
  | cancelOrder id => (b.cancelOrder id).1
  | cancelAllVirtual => b.cancelAllVirtual
  | expirePendingOrders => (b.expirePendingOrders now).1
  | seedLastReported id filled status => b.seedLastReported id filled status
  | registerStateChangeCallback => b.registerStateChangeCallback
  | depth side levels => (b.depth side levels).2

/-- Orders are placed under fresh ids, for a positive quantity. -/
def Allowed (b : ShadowOrderbook) : BookAction → Prop
  | place id r => .placed id ∉ b.history ∧ 0 < r.quantity
  | placePrefilled id _ => .placed id ∉ b.history
  | _ => True

instance (b : ShadowOrderbook) (a : BookAction) : Decidable (a.Allowed b) := by
  unfold Allowed
  cases a <;> infer_instance

end BookAction

/-- The book after an operation at an instant. -/
def bookStep (b : ShadowOrderbook) (x : Time × BookAction) : Option ShadowOrderbook :=
  if x.2.Allowed b then some (x.2.apply x.1 b) else none

section

variable {b b' : ShadowOrderbook} {now : Time} {a : BookAction} {x : Time × BookAction}

theorem bookStep_some (h : bookStep b x = some b') : x.2.Allowed b ∧ b' = x.2.apply x.1 b := by
  unfold bookStep at h
  split_ifs at h with hallowed
  exact ⟨hallowed, (Option.some.inj h).symm⟩

theorem bookStep_of_allowed (h : x.2.Allowed b) : bookStep b x = some (x.2.apply x.1 b) := if_pos h

theorem feedOp_step (op : FeedOp) : BookStep b (op.apply now b).1 := by
  cases op with
  | applySnapshot bids asks => exact .applySnapshot b now bids asks
  | applyChanges changes => exact .applyChanges b now changes
  | recordTrade price size side => exact .recordTrade b now price size side
  | touch => exact .touch b now
  | runMatching => exact .runMatching b now
  | monitorBracketOrders => exact .monitorBracketOrders b now
  | expireAllPending => exact .expireAllPending b now
  | expireBook => exact .expireBook b
  | handleMarketResolved => exact .handleMarketResolved b
  | shutdownBook => exact .shutdownBook b

/-- The machine's steps are the operations on a book. -/
theorem bookStep_sound (h : bookStep b x = some b') : BookStep b b' := by
  obtain ⟨hallowed, rfl⟩ := bookStep_some h
  obtain ⟨now, a⟩ := x
  cases a with
  | feed op => exact feedOp_step op
  | place id r => exact .placeVirtualOrder b now id r hallowed.1 hallowed.2
  | placePrefilled id r => exact .placePrefilledBracketOrder b now id r hallowed
  | forceClose id => exact .forceCloseAtMarket b now id
  | cancelOrder id => exact .cancelOrder b id
  | cancelAllVirtual => exact .cancelAllVirtual b
  | expirePendingOrders => exact .expirePendingOrders b now
  | seedLastReported id filled status => exact .seedLastReported b id filled status
  | registerStateChangeCallback => exact .registerStateChangeCallback b
  | depth side levels => exact .depth b side levels

theorem bookRun_of_run {guard : ShadowOrderbook → Time × BookAction → Prop}
    (h : Run bookStep guard b b') : BookRun b b' := by
  induction h with
  | start => exact .refl
  | next _ _ hstep ih => exact ih.tail (bookStep_sound hstep)

theorem reachable_of_exec {tokenId : String} {as : List (Time × BookAction)}
    (h : exec bookStep (fun _ _ => True) { tokenId := tokenId } as = some b) : Reachable b :=
  ⟨tokenId, bookRun_of_run (run_of_exec h)⟩

end

/-! ## When an action trades -/

namespace ShadowOrderbook

/-- The book that a matching pass works on: what expired is cancelled. -/
def passBook (now : Time) (b : ShadowOrderbook) : ShadowOrderbook :=
  (expirePendingOrders now { b with depthCache := [] }).1

end ShadowOrderbook

/-- The bracket check of the order at `bestBid` sells. -/
def SimulatedOrder.fires (bestBid : ℚ) (o : SimulatedOrder) : Bool :=
  o.isEligibleForBracket && (bracketTrigger o bestBid).isSome

namespace BookAction

/-- The action executes an entry fill of an order of the kind `P`. -/
def fills (P : SimulatedOrder → Bool) (now : Time) (b : ShadowOrderbook) : BookAction → Bool
  | feed .runMatching =>
    !b.dead now && passTrades P now (b.passBook now) (b.passBook now).virtualOrders
  | place id r => P (r.newOrder now id) && b.crosses (r.newOrder now id)
  | _ => false

/-- The action executes a bracket exit, one of an order that it fills itself apart. -/
def exits (now : Time) (b : ShadowOrderbook) : BookAction → Bool
  | feed .monitorBracketOrders => b.bestBid.any fun bid => b.virtualOrders.any (·.fires bid)
  | placePrefilled id r => b.bestBid.any fun bid => (r.newOrder now id).fires bid
  | forceClose id => b.bestBid.isSome &&
      (b.virtualOrders.find? fun o => o.orderId = id).any fun o =>
        decide (0 < o.filled) && !o.positionClosed
  | _ => false

/-- The bracket exits that the action executes. -/
def exitResults (now : Time) (b : ShadowOrderbook) : BookAction → List BracketFillResult
  | feed .monitorBracketOrders => (b.monitorBracketOrders now).2
  | place id r => (b.placeVirtualOrder now id r).bracketResults
  | placePrefilled id r => (b.placePrefilledBracketOrder now id r).bracketResults
  | forceClose id => (b.forceCloseAtMarket now id).2.toList
  | _ => []

end BookAction

/-! ## Records of the feed and of exits -/

/-- A record of the feed. -/
def BookRecord.isFeed : BookRecord → Bool
  | .set .. | .cleared => true
  | _ => false

/-- A fill of an exit. -/
def BookRecord.isExitFill : BookRecord → Bool
  | .exitFill .. => true
  | _ => false

section

variable {b : ShadowOrderbook} {o : SimulatedOrder} {os : List SimulatedOrder} {now : Time}
  {bid : ℚ}

theorem feeds_setRecords (side : BookSide) (entries : List FeedLevel) (h : List BookRecord) :
    Gains (fun r => r.isFeed = true) h (setRecords side entries h) := by
  unfold setRecords
  induction entries generalizing h with
  | nil => exact .refl _ _
  | cons e entries ih =>
    refine Gains.trans ?_ (ih _)
    dsimp only
    split
    · exact .cons rfl
    · exact .refl _ _

theorem feeds_applySnapshot (bids asks : List FeedLevel) :
    Gains (fun r => r.isFeed = true) b.history (b.applySnapshot now bids asks).history := by
  have hcleared : Gains (fun r => r.isFeed = true) b.history (.cleared :: b.history) := .cons rfl
  exact hcleared.trans ((feeds_setRecords .bid bids _).trans (feeds_setRecords .ask asks _))

theorem feeds_applyChanges (changes : List FeedChange) :
    Gains (fun r => r.isFeed = true) b.history (b.applyChanges now changes).history := by
  have hfold : ∀ b : ShadowOrderbook,
      Gains (fun r => r.isFeed = true) b.history (changes.foldl applyChange b).history := by
    intro b
    induction changes generalizing b with
    | nil => exact .refl _ _
    | cons ch changes ih =>
      refine Gains.trans ?_ (ih (b.applyChange ch))
      unfold applyChange
      cases ch.side <;> exact .cons rfl
  exact hfold { b with depthCache := [] }

theorem history_expireAllPending : (b.expireAllPending now).1.history = b.history := by
  unfold expireAllPending
  dsimp only
  split <;> rfl

/-- The operations of the feed thread other than the pass and the monitor record the feed only. -/
theorem feeds_feedOp (op : FeedOp) (hpass : op ≠ .runMatching)
    (hmonitor : op ≠ .monitorBracketOrders) :
    Gains (fun r => r.isFeed = true) b.history (op.apply now b).1.history := by
  cases op with
  | applySnapshot bids asks => exact feeds_applySnapshot bids asks
  | applyChanges changes => exact feeds_applyChanges changes
  | recordTrade price size side => exact .refl _ _
  | touch => exact .refl _ _
  | runMatching => exact absurd rfl hpass
  | monitorBracketOrders => exact absurd rfl hmonitor
  | expireAllPending =>
    show Gains _ _ (b.expireAllPending now).1.history
    rw [history_expireAllPending]
    exact .refl _ _
  | expireBook => exact .cons rfl
  | handleMarketResolved => exact .refl _ _
  | shutdownBook => exact .refl _ _

theorem gains_exit (id : OrderId) (fs : List (ℚ × ℚ)) (h : List BookRecord) :
    Gains (fun r => r.isExitFill = true) h (exitRecords now id fs h) := by
  unfold exitRecords
  induction fs generalizing h with
  | nil => exact .refl _ _
  | cons f fs ih =>
    refine Gains.trans ?_ (ih _)
    exact .cons rfl

theorem gains_checkBracket :
    Gains (fun r => r.isExitFill = true) b.history (checkBracket now bid b o).1.history := by
  unfold checkBracket
  split
  · split
    · exact .refl _ _
    · exact gains_exit _ _ _
  · exact .refl _ _

theorem gains_checkNewBracket :
    Gains (fun r => r.isExitFill = true) b.history (checkNewBracket now b o).1.history := by
  unfold checkNewBracket
  split
  · exact .refl _ _
  · exact gains_checkBracket

theorem gains_monitorOrders :
    Gains (fun r => r.isExitFill = true) b.history (monitorOrders now bid b os).1.history := by
  induction os generalizing b with
  | nil => exact .refl _ _
  | cons o os ih => exact gains_checkBracket.trans ih

theorem gains_monitor :
    Gains (fun r => r.isExitFill = true) b.history (b.monitorBracketOrders now).1.history := by
  unfold monitorBracketOrders
  split
  · exact .refl _ _
  · exact gains_monitorOrders

theorem gains_forceClose (id : OrderId) :
    Gains (fun r => r.isExitFill = true) b.history (b.forceCloseAtMarket now id).1.history := by
  unfold forceCloseAtMarket
  split
  · exact .refl _ _
  · dsimp only
    split
    · exact .refl _ _
    · split
      · exact .refl _ _
      · exact gains_exit _ _ _

/-! ## Bracket checks that do not fire -/

theorem checkBracket_idle (h : o.fires bid = false) : checkBracket now bid b o = (b, o, []) := by
  unfold SimulatedOrder.fires at h
  unfold checkBracket
  cases he : o.isEligibleForBracket with
  | false => rfl
  | true =>
    rw [he, Bool.true_and, Option.isSome_eq_false_iff, Option.isNone_iff_eq_none] at h
    rw [h]
    rfl

theorem checkNewBracket_idle (h : (b.bestBid.any fun bid => o.fires bid) = false) :
    checkNewBracket now b o = (b, o, []) := by
  unfold checkNewBracket
  cases hb : b.bestBid with
  | none => rfl
  | some bid =>
    rw [hb] at h
    exact checkBracket_idle h

theorem monitorOrders_idle (h : os.any (·.fires bid) = false) :
    monitorOrders now bid b os = (b, os, []) := by
  induction os with
  | nil => rfl
  | cons o os ih =>
    rw [List.any_cons, Bool.or_eq_false_iff] at h
    unfold monitorOrders
    dsimp only
    rw [checkBracket_idle h.1, ih h.2]
    rfl

theorem monitor_idle (h : (b.bestBid.any fun bid => b.virtualOrders.any (·.fires bid)) = false) :
    b.monitorBracketOrders now = (b, []) := by
  unfold monitorBracketOrders
  cases hb : b.bestBid with
  | none => rfl
  | some bid =>
    rw [hb] at h
    dsimp only
    rw [monitorOrders_idle h]

theorem forceClose_idle {id : OrderId} (h : (BookAction.forceClose id).exits now b = false) :
    b.forceCloseAtMarket now id = (b, none) := by
  unfold BookAction.exits at h
  unfold forceCloseAtMarket
  cases hf : b.virtualOrders.find? (fun o => o.orderId = id) with
  | none => rfl
  | some o =>
    dsimp only
    split_ifs with hopen
    · rfl
    · cases hb : b.bestBid with
      | none => rfl
      | some bid =>
        rw [not_or, not_le] at hopen
        simp [hf, hb, hopen.1, hopen.2] at h

/-! ## What an action executes -/

theorem passTrades_none : passTrades (fun _ => false) now b os = false := by
  induction os generalizing b with
  | nil => rfl
  | cons o os ih =>
    unfold passTrades
    rw [ih, ih]
    split <;> rfl

/-- No action fills an order of no kind. -/
theorem fills_none (a : BookAction) : a.fills (fun _ => false) now b = false := by
  unfold BookAction.fills
  split
  · rw [passTrades_none, Bool.and_false]
  · rfl
  · rfl

/-- A record that an action may add when it fills no order of the kind `P`: an entry fill of another
order, an open one of the book or the one that is placed. -/
structure EntryRecord (P : SimulatedOrder → Bool) (now : Time) (b : ShadowOrderbook)
    (r : BookRecord) :
    Prop where
  fill : ∀ i side p q t, r = .fill i side p q t → t = now ∧ ∃ x, x.orderId = i ∧ P x = false ∧
    (x ∈ (b.passBook now).virtualOrders ∧ x.status.isTerminal = false ∨
      x.createdAt = now ∧ .placed i ∉ b.history)
  prefill : ∀ i p q, r = .prefill i p q → .placed i ∉ b.history

variable {P : SimulatedOrder → Bool} {a : BookAction} {id : OrderId} {r : BookRecord}

theorem EntryRecord.of_feed (h : r.isFeed = true) : EntryRecord P now b r := by
  cases r with
  | set => exact ⟨nofun, nofun⟩
  | cleared => exact ⟨nofun, nofun⟩
  | _ => cases h

theorem EntryRecord.of_exitFill (h : r.isExitFill = true) : EntryRecord P now b r := by
  cases r with
  | exitFill => exact ⟨nofun, nofun⟩
  | _ => cases h

theorem EntryRecord.placed : EntryRecord P now b (.placed id) :=
  ⟨nofun, nofun⟩

theorem EntryRecord.of_fill {x : SimulatedOrder} (h : r.IsFillOf now x) (hx : P x = false)
    (hmem : x ∈ (b.passBook now).virtualOrders ∧ x.status.isTerminal = false ∨
      x.createdAt = now ∧ .placed x.orderId ∉ b.history) :
    EntryRecord P now b r := by
  obtain ⟨side, p, q, rfl⟩ := h
  refine ⟨fun i side' p' q' t he => ?_, nofun⟩
  cases he
  exact ⟨rfl, x, rfl, hx, hmem⟩

theorem gains_runMatching (h : (BookAction.feed .runMatching).fills P now b = false) :
    Gains (fun r => ∃ x ∈ (b.passBook now).virtualOrders,
      x.status.isTerminal = false ∧ P x = false ∧
      r.IsFillOf now x) b.history (b.runMatching now).1.history := by
  have hpass : (b.runMatching now).1.history = (b.matchPass now).history := cleanup_history
  have hdead : (b.passBook now).expired = true ∨
      (b.passBook now).isStale now ME_BOOK_STALE_MAX_S = true ↔ b.dead now = true := by
    unfold dead
    rw [Bool.or_eq_true]
    rfl
  rw [hpass]
  unfold matchPass
  change Gains _ _ (ShadowOrderbook.history (if (b.passBook now).expired = true ∨
    (b.passBook now).isStale now ME_BOOK_STALE_MAX_S = true then b.passBook now else _))
  split_ifs with hd
  · exact .refl _ _
  · rw [hdead, Bool.not_eq_true] at hd
    unfold BookAction.fills at h
    rw [hd, Bool.not_false, Bool.true_and] at h
    exact gains_matchOrders (b := b.passBook now) h

theorem entries_place {r : OrderRequest} (hfresh : .placed id ∉ b.history)
    (h : (BookAction.place id r).fills P now b = false) :
    Gains (EntryRecord P now b) b.history (b.placeVirtualOrder now id r).book.history := by
  have hplaced : Gains (EntryRecord P now b) b.history (.placed id :: b.history) := .cons .placed
  refine (hplaced.trans ?_).trans (gains_checkNewBracket.mono fun _ => .of_exitFill)
  refine (gains_matchOrder now { b with history := .placed id :: b.history }
    (r.newOrder now id)).mono ?_
  rintro x ⟨hcross, hx⟩
  refine .of_fill hx ?_ (.inr ⟨rfl, hfresh⟩)
  have hfills : (P (r.newOrder now id) && b.crosses (r.newOrder now id)) = false := h
  have hcrosses : b.crosses (r.newOrder now id) = true := hcross
  rw [hcrosses, Bool.and_true] at hfills
  exact hfills

theorem gains_cancelOrder {Q : BookRecord → Prop} :
    Gains Q b.history (b.cancelOrder id).1.history := by
  unfold ShadowOrderbook.cancelOrder
  split
  · exact .refl _ _
  · split <;> exact .refl _ _

theorem gains_depth {Q : BookRecord → Prop} {side : BookSide} {levels : ℕ} :
    Gains Q b.history (b.depth side levels).2.history := by
  unfold ShadowOrderbook.depth
  split <;> exact .refl _ _

/-- **An action that fills no order of the kind `P`** executes entry fills of other orders only. -/
theorem action_entries (hallowed : a.Allowed b) (h : a.fills P now b = false) :
    Gains (EntryRecord P now b) b.history (a.apply now b).history := by
  cases a with
  | feed op =>
    by_cases hpass : op = .runMatching
    · subst hpass
      refine (gains_runMatching h).mono ?_
      rintro r ⟨x, hx, hopen, hP, hr⟩
      exact .of_fill hr hP (.inl ⟨hx, hopen⟩)
    by_cases hmonitor : op = .monitorBracketOrders
    · subst hmonitor
      exact gains_monitor.mono fun _ => .of_exitFill
    · exact (feeds_feedOp op hpass hmonitor).mono fun _ => .of_feed
  | place id r => exact entries_place hallowed.1 h
  | placePrefilled id r =>
    have hnew : Gains (EntryRecord P now b) b.history
        (.prefill id r.avgEntryPrice r.filled :: .placed id :: b.history) := by
      refine Gains.trans (.cons .placed) (.cons ⟨nofun, ?_⟩)
      intro i p q he
      cases he
      exact hallowed
    exact hnew.trans (gains_checkNewBracket.mono fun _ => .of_exitFill)
  | forceClose id => exact (gains_forceClose id).mono fun _ => .of_exitFill
  | cancelOrder id => exact gains_cancelOrder
  | depth side levels => exact gains_depth
  | _ => exact .refl _ _

/-- Only fills and exits are executed. -/
def BookRecord.isTrade : BookRecord → Bool
  | .fill .. | .exitFill .. => true
  | _ => false

/-- An order that does not cross is placed without a fill, and its bracket is not looked at. -/
theorem place_idle {r : OrderRequest} (h : b.crosses (r.newOrder now id) = false) :
    (b.placeVirtualOrder now id r).book.history = .placed id :: b.history ∧
      (b.placeVirtualOrder now id r).bracketResults = [] := by
  obtain ⟨fs, hhist, hfs, horder⟩ := history_matchOrder now
    { b with history := .placed id :: b.history } (r.newOrder now id)
  have hnil : fs = [] := by
    by_contra hne
    have hcross : b.crosses (r.newOrder now id) = true := hfs.mp hne
    rw [h] at hcross
    cases hcross
  have hunfilled : (matchAndCancel now { b with history := .placed id :: b.history }
      (r.newOrder now id)).2.filled = 0 := by
    unfold matchAndCancel
    dsimp only
    rw [horder hnil]
    unfold iocCancel
    split <;> exact (revises_lockSlippage (o := r.newOrder now id)).filled
  have hidle : ∀ b' : ShadowOrderbook, checkNewBracket now b'
      (matchAndCancel now { b with history := .placed id :: b.history } (r.newOrder now id)).2 =
      (b', (matchAndCancel now { b with history := .placed id :: b.history }
        (r.newOrder now id)).2, []) := by
    intro b'
    refine checkNewBracket_idle ?_
    simp [SimulatedOrder.fires, SimulatedOrder.isEligibleForBracket, hunfilled]
  refine ⟨(congrArg (fun x => x.1.history) (hidle _)).trans ?_,
    congrArg (fun x => x.2.2) (hidle (matchOrder now _ _).1)⟩
  change (matchOrder now _ _).1.history = _
  rw [hhist, hnil]
  rfl

/-- **An action that executes nothing**: no fill, no exit. -/
theorem action_idle (hallowed : a.Allowed b) (hfills : a.fills (fun _ => true) now b = false)
    (hexits : a.exits now b = false) :
    Gains (fun r => r.isTrade = false) b.history (a.apply now b).history ∧
      a.exitResults now b = [] := by
  have hfeed : ∀ r : BookRecord, r.isFeed = true → r.isTrade = false := by
    intro r
    cases r <;> simp [BookRecord.isFeed, BookRecord.isTrade]
  cases a with
  | feed op =>
    by_cases hpass : op = .runMatching
    · subst hpass
      refine ⟨(gains_runMatching hfills).mono ?_, rfl⟩
      rintro r ⟨x, -, -, hx, -⟩
      cases hx
    by_cases hmonitor : op = .monitorBracketOrders
    · subst hmonitor
      have hidle : b.monitorBracketOrders now = (b, []) := monitor_idle hexits
      refine ⟨?_, ?_⟩
      · show Gains _ _ (b.monitorBracketOrders now).1.history
        rw [hidle]
        exact .refl _ _
      · show (b.monitorBracketOrders now).2 = []
        rw [hidle]
    · refine ⟨(feeds_feedOp op hpass hmonitor).mono hfeed, ?_⟩
      cases op <;> first | rfl | exact absurd rfl hmonitor
  | place id r =>
    have hcross : b.crosses (r.newOrder now id) = false := hfills
    obtain ⟨hhist, hres⟩ := place_idle hcross
    refine ⟨?_, hres⟩
    show Gains _ _ (b.placeVirtualOrder now id r).book.history
    rw [hhist]
    exact .cons rfl
  | placePrefilled id r =>
    have hidle : checkNewBracket now
        { b with history := .prefill id r.avgEntryPrice r.filled :: .placed id :: b.history }
        (r.newOrder now id) = (_, _, []) := checkNewBracket_idle hexits
    refine ⟨?_, congrArg (fun x => x.2.2) hidle⟩
    have hhist : (b.placePrefilledBracketOrder now id r).book.history =
        .prefill id r.avgEntryPrice r.filled :: .placed id :: b.history :=
      congrArg (fun x => x.1.history) hidle
    show Gains _ _ (b.placePrefilledBracketOrder now id r).book.history
    rw [hhist]
    exact Gains.trans (.cons rfl) (.cons rfl)
  | forceClose id =>
    have hidle : b.forceCloseAtMarket now id = (b, none) := forceClose_idle hexits
    refine ⟨?_, ?_⟩
    · show Gains _ _ (b.forceCloseAtMarket now id).1.history
      rw [hidle]
      exact .refl _ _
    · show (b.forceCloseAtMarket now id).2.toList = []
      rw [hidle]
      rfl
  | cancelOrder id => exact ⟨gains_cancelOrder, rfl⟩
  | depth side levels => exact ⟨gains_depth, rfl⟩
  | _ => exact ⟨.refl _ _, rfl⟩

end

end PolyArena
