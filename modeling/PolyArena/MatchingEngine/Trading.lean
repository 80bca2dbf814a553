import PolyArena.MatchingEngine.Feed

/-!
# When a match trades

1. `crosses` says when `_match_order` trades: the order takes from the best level of the other side.
   `crosses_iff` is the equivalence.
2. `passTrades` follows a matching pass and says whether an order of some kind trades at its turn.
   `gains_matchOrders` says whose fills a pass executes when none of that kind does.
-/

namespace PolyArena

open ShadowOrderbook

/-! ## When a match trades -/

namespace ShadowOrderbook

/-- `_match_order` would trade: the order takes from the first level there is something on. -/
def crosses (b : ShadowOrderbook) (o : SimulatedOrder) : Bool :=
  let (o, slippageLimit) := b.lockSlippage o
  match o.side with
  | .buy => (b.asks.items.find? fun l => 0 < l.2).any fun l =>
      !o.askBeyond slippageLimit l.1 &&
        (o.buyQty l.1 l.2).any fun q => ME_DUST_THRESHOLD ≤ q
  | .sell => (b.bids.items.reverse.find? fun l => 0 < l.2).any fun l =>
      !o.bidBeyond slippageLimit l.1

/-- In the matching pass over the orders, an open one of the kind `P` trades at its turn. -/
def passTrades (P : SimulatedOrder → Bool) (now : Time) :
    ShadowOrderbook → List SimulatedOrder → Bool
  | _, [] => false
  | b, o :: rest =>
    if o.status.isTerminal then passTrades P now b rest
    else (P o && b.crosses o) || passTrades P now (matchAndCancel now b o).1 rest

/-- Expired, or without an update for too long: `run_matching` does not match on such a book. -/
def dead (now : Time) (b : ShadowOrderbook) : Bool :=
  b.expired || b.isStale now ME_BOOK_STALE_MAX_S

end ShadowOrderbook

section

variable {o : SimulatedOrder} {l : Ladder} {limit : Option ℚ}

/-- The sweep of the asks trades exactly when the first level with something on it is taken from. -/
theorem sweepAsks_trades (levels : List (ℚ × ℚ)) (hlevels : ∀ x ∈ levels, l.getD x.1 0 = x.2) :
    (sweepAsks limit (levels.map Prod.fst) l o).fills ≠ [] ↔
      ((levels.find? fun x => 0 < x.2).any fun x => !o.askBeyond limit x.1 &&
        (o.buyQty x.1 x.2).any fun q => ME_DUST_THRESHOLD ≤ q) = true := by
  induction levels with
  | nil => simp [sweepAsks]
  | cons x rest ih =>
    have ih := ih fun y hy => hlevels y (List.mem_cons_of_mem _ hy)
    rw [List.map_cons]
    unfold sweepAsks
    dsimp only
    rw [hlevels x List.mem_cons_self]
    by_cases hsize : x.2 ≤ 0
    · rw [if_pos hsize, List.find?_cons_of_neg (by simpa using hsize)]
      exact ih
    rw [if_neg hsize, List.find?_cons_of_pos (by simpa using hsize)]
    by_cases hbeyond : o.askBeyond limit x.1 = true
    · simp [hbeyond]
    rw [if_neg hbeyond]
    cases hq : o.buyQty x.1 x.2 with
    | none => simp [hq]
    | some q =>
      dsimp only
      by_cases hdust : q < ME_DUST_THRESHOLD
      · simp [hdust, hq]
      · rw [if_neg hdust]
        have hge : ME_DUST_THRESHOLD ≤ q := not_lt.mp hdust
        split <;> simp [hbeyond, hq, hge]

/-- The sweep of the bids, likewise. -/
theorem sweepBids_trades (levels : List (ℚ × ℚ)) (hlevels : ∀ x ∈ levels, l.getD x.1 0 = x.2) :
    (sweepBids limit (levels.map Prod.fst) l o).fills ≠ [] ↔
      ((levels.find? fun x => 0 < x.2).any fun x => !o.bidBeyond limit x.1) = true := by
  induction levels with
  | nil => simp [sweepBids]
  | cons x rest ih =>
    have ih := ih fun y hy => hlevels y (List.mem_cons_of_mem _ hy)
    rw [List.map_cons]
    unfold sweepBids
    dsimp only
    rw [hlevels x List.mem_cons_self]
    by_cases hsize : x.2 ≤ 0
    · rw [if_pos hsize, List.find?_cons_of_neg (by simpa using hsize)]
      exact ih
    rw [if_neg hsize, List.find?_cons_of_pos (by simpa using hsize)]
    by_cases hbeyond : o.bidBeyond limit x.1 = true
    · simp [hbeyond]
    · rw [if_neg hbeyond]
      split <;> simp [hbeyond]

/-- A sweep that takes nothing leaves the order alone. -/
theorem sweepAsks_unfilled {levels : List ℚ} (h : (sweepAsks limit levels l o).fills = []) :
    (sweepAsks limit levels l o).order = o := by
  induction levels with
  | nil => rfl
  | cons p rest ih =>
    unfold sweepAsks at h ⊢
    dsimp only at h ⊢
    split_ifs at h ⊢
    · exact ih h
    · rfl
    · split at h
      · rfl
      · split_ifs at h ⊢
        rfl

theorem sweepBids_unfilled {levels : List ℚ} (h : (sweepBids limit levels l o).fills = []) :
    (sweepBids limit levels l o).order = o := by
  induction levels with
  | nil => rfl
  | cons p rest ih =>
    unfold sweepBids at h ⊢
    dsimp only at h ⊢
    split_ifs at h ⊢
    · exact ih h
    · rfl

theorem SortedDict.getD_items (x : ℚ × ℚ) (hx : x ∈ l.items) : l.getD x.1 0 = x.2 := by
  unfold SortedDict.getD
  rw [SortedDict.get?_of_mem_items hx]
  rfl

end

/-! ## What the history gains -/

/-- The history gains records, all of them with `Q`. -/
def Gains (Q : BookRecord → Prop) (h h' : List BookRecord) : Prop :=
  ∃ recs, h' = recs ++ h ∧ ∀ r ∈ recs, Q r

section

variable {Q Q' : BookRecord → Prop} {h h' h'' : List BookRecord}

theorem Gains.refl (Q : BookRecord → Prop) (h : List BookRecord) : Gains Q h h :=
  ⟨[], rfl, fun _ hr => absurd hr List.not_mem_nil⟩

theorem Gains.trans (h₁ : Gains Q h h') (h₂ : Gains Q h' h'') : Gains Q h h'' := by
  obtain ⟨recs, rfl, hrecs⟩ := h₁
  obtain ⟨recs', rfl, hrecs'⟩ := h₂
  refine ⟨recs' ++ recs, (List.append_assoc _ _ _).symm, fun r hr => ?_⟩
  rcases List.mem_append.mp hr with hr | hr
  · exact hrecs' r hr
  · exact hrecs r hr

theorem Gains.cons {r : BookRecord} (hr : Q r) : Gains Q h (r :: h) :=
  ⟨[r], rfl, fun _ hx => List.mem_singleton.mp hx ▸ hr⟩

theorem Gains.mono (hQ : ∀ r, Q r → Q' r) (h₁ : Gains Q h h') : Gains Q' h h' := by
  obtain ⟨recs, rfl, hrecs⟩ := h₁
  exact ⟨recs, rfl, fun r hr => hQ r (hrecs r hr)⟩

theorem Gains.mem (h₁ : Gains Q h h') {r : BookRecord} (hr : r ∈ h') : Q r ∨ r ∈ h := by
  obtain ⟨recs, rfl, hrecs⟩ := h₁
  exact (List.mem_append.mp hr).imp_left (hrecs r)

end

/-- A fill of the order at the instant. -/
def BookRecord.IsFillOf (now : Time) (o : SimulatedOrder) (r : BookRecord) : Prop :=
  ∃ side p q, r = .fill o.orderId side p q now

section

variable {b : ShadowOrderbook} {o : SimulatedOrder} {os : List SimulatedOrder} {now : Time}
  {P : SimulatedOrder → Bool}

theorem gains_fillRecords (now : Time) (o : SimulatedOrder) (fs : List (ℚ × ℚ))
    (h : List BookRecord) :
    Gains (BookRecord.IsFillOf now o) h (fillRecords now o fs h) := by
  unfold fillRecords
  induction fs generalizing h with
  | nil => exact .refl _ _
  | cons f fs ih => exact (Gains.cons ⟨_, _, _, rfl⟩).trans (ih _)

/-- A match sweeps the book for the order, its reference price locked. -/
theorem history_matchOrder (now : Time) (b : ShadowOrderbook) (o : SimulatedOrder) :
    ∃ fs, (matchOrder now b o).1.history = fillRecords now (b.lockSlippage o).1 fs b.history ∧
      (fs ≠ [] ↔ b.crosses o = true) ∧ (fs = [] →
        (matchOrder now b o).2 = (b.lockSlippage o).1) := by
  unfold matchOrder crosses
  dsimp only
  cases (b.lockSlippage o).1.side with
  | buy => exact ⟨_, rfl, sweepAsks_trades _ SortedDict.getD_items, sweepAsks_unfilled⟩
  | sell =>
    refine ⟨_, rfl, ?_, sweepBids_unfilled⟩
    have hkeys : b.bids.keys.reverse = b.bids.items.reverse.map Prod.fst := List.map_reverse.symm
    dsimp only
    rw [hkeys]
    exact sweepBids_trades _ fun x hx => SortedDict.getD_items x (List.mem_reverse.mp hx)

/-- **A match trades** exactly when the order crosses the book. -/
theorem crosses_iff : (matchOrder now b o).1.history ≠ b.history ↔ b.crosses o = true := by
  obtain ⟨fs, hhist, hfs, -⟩ := history_matchOrder now b o
  rw [← hfs, hhist]
  cases fs with
  | nil => simp [fillRecords]
  | cons f fs =>
    obtain ⟨recs, hrecs, -⟩ := gains_fillRecords now (b.lockSlippage o).1 fs
      (.fill (b.lockSlippage o).1.orderId (b.lockSlippage o).1.side f.1 f.2 now :: b.history)
    have hlen : (fillRecords now (b.lockSlippage o).1 (f :: fs) b.history).length =
        recs.length + (b.history.length + 1) := by
      have : fillRecords now (b.lockSlippage o).1 (f :: fs) b.history = recs ++ _ := hrecs
      rw [this]
      simp
    simp only [ne_eq, reduceCtorEq, not_false_eq_true, iff_true]
    intro hsame
    rw [hsame] at hlen
    omega

/-- A match executes fills of its order, if the order crosses. -/
theorem gains_matchOrder (now : Time) (b : ShadowOrderbook) (o : SimulatedOrder) :
    Gains (fun r => b.crosses o = true ∧ r.IsFillOf now o) b.history
      (matchOrder now b o).1.history := by
  obtain ⟨fs, hhist, hfs, -⟩ := history_matchOrder now b o
  have hid : (b.lockSlippage o).1.orderId = o.orderId :=
    (revises_lockSlippage (b := b) (o := o)).orderId
  rw [hhist]
  cases fs with
  | nil => exact .refl _ _
  | cons f fs =>
    refine (gains_fillRecords now _ _ _).mono fun r hr =>
      ⟨hfs.mp (List.cons_ne_nil _ _), ?_⟩
    obtain ⟨side, p, q, rfl⟩ := hr
    exact ⟨side, p, q, by rw [hid]⟩

/-- **A matching pass** in which no order of the kind `P` trades executes fills of other orders. -/
theorem gains_matchOrders (hpass : passTrades P now b os = false) :
    Gains (fun r => ∃ o ∈ os, o.status.isTerminal = false ∧ P o = false ∧
      r.IsFillOf now o) b.history
      (matchOrders now b os).1.history := by
  induction os generalizing b with
  | nil => exact .refl _ _
  | cons o os ih =>
    have hrest : ∀ b' : ShadowOrderbook, passTrades P now b' os = false →
        Gains (fun r => ∃ x ∈ o :: os, x.status.isTerminal = false ∧ P x = false ∧ r.IsFillOf now x)
          b'.history
          (matchOrders now b' os).1.history := by
      intro b' hb'
      refine (ih hb').mono ?_
      rintro r ⟨x, hx, hr⟩
      exact ⟨x, List.mem_cons_of_mem _ hx, hr⟩
    unfold passTrades at hpass
    unfold matchOrders
    dsimp only
    cases ha : o.status.isTerminal with
    | true =>
      rw [if_pos ha] at hpass
      exact hrest b hpass
    | false =>
      rw [if_neg (by rw [ha]; decide), Bool.or_eq_false_iff, Bool.and_eq_false_iff] at hpass
      refine Gains.trans ?_ (hrest _ hpass.2)
      refine (gains_matchOrder now b o).mono ?_
      rintro r ⟨hcross, hr⟩
      refine ⟨o, List.mem_cons_self, ha, hpass.1.resolve_right ?_, hr⟩
      rw [hcross]
      decide

end

end PolyArena
