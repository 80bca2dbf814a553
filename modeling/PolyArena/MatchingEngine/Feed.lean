import PolyArena.MatchingEngine.Reporting

/-!
# The feed thread's operations

The feed thread works on a book with the operations `FeedOp`, and the consumer thread places orders
in it.  `reports_of_feedOp` and `reports_of_place` say what each reports about an order: the levels
of the fills it executed for the order, in one FILL event, and nothing when it executed none.
-/

namespace PolyArena

open Relation ShadowOrderbook

/-- Everything the book executed for the order was reported: no levels wait, and the filled quantity
is the one of the last report. -/
def SettledAt (b : ShadowOrderbook) (id : OrderId) : Prop :=
  ∀ o ∈ b.virtualOrders, o.orderId = id →
    o.fillLevels = [] ∧ reportedFilled b.lastReported id = o.filled

/-- Going from `b` to `b'` with the events `evs` fills the order `id` with `fs` and reports that. -/
structure Reports (id : OrderId) (fs : List (ℚ × ℚ)) (b b' : ShadowOrderbook)
    (evs : List OrderStateChangeEvent) : Prop where
  settled : SettledAt b' id
  pos : ∀ f ∈ fs, 0 < f.2
  fills : entryFills id b'.history = fs.reverse ++ entryFills id b.history
  events : fs = [] ∧ evs.filter (·.isFillOf id) = [] ∨
    fs ≠ [] ∧ ∃ e, evs.filter (·.isFillOf id) = [e] ∧ e.fillLevels = fs ∧
      e.filled = filledOf id b'.history

section

variable {b b' : ShadowOrderbook} {id : OrderId} {fs : List (ℚ × ℚ)} {t : Time}
  {evs : List OrderStateChangeEvent}

theorem sum_pos_of_fills (hpos : ∀ f ∈ fs, 0 < f.2) (hne : fs ≠ []) :
    0 < (fs.map Prod.snd).sum := by
  cases fs with
  | nil => exact absurd rfl hne
  | cons f fs =>
    have hrest : 0 ≤ (fs.map Prod.snd).sum := List.sum_nonneg fun x hx => by
      obtain ⟨g, hg, rfl⟩ := List.mem_map.mp hx
      exact (hpos g (List.mem_cons_of_mem _ hg)).le
    rw [List.map_cons, List.sum_cons]
    linarith [hpos f List.mem_cons_self]

theorem filledOf_of_fills {h h' : List BookRecord}
    (hf : entryFills id h' = fs.reverse ++ entryFills id h) :
    filledOf id h' = filledOf id h + (fs.map Prod.snd).sum := by
  unfold filledOf
  rw [hf, List.map_append, List.sum_append, List.map_reverse, List.sum_reverse, add_comm]

/-- An order of a list with distinct ids is the one with its id. -/
theorem BookInv.unique (h : BookInv b) {o x : SimulatedOrder} (ho : o ∈ b.virtualOrders)
    (hx : x ∈ b.virtualOrders) (hid : x.orderId = o.orderId) : x = o :=
  List.inj_on_of_nodup_map h.core.nodup hx ho hid

/-! ## Sections that collect -/

/-- **Collecting after some work** reports what the work filled. -/
theorem reports_of_collect (h : BookInv b) (hs : SettledAt b id) (hw : Works b.core b'.core)
    (hacc : Accrues id fs b.core b'.core) (hrep : b'.lastReported = b.lastReported) :
    Reports id fs b b'.collectStateChanges.1 b'.collectStateChanges.2 := by
  have h' : BookInv b' := h.of_works hw hrep
  have hlevels : ∀ o ∈ b'.virtualOrders, o.orderId = id → o.fillLevels = fs ∧
      reportedFilled b'.lastReported id + (fs.map Prod.snd).sum = o.filled := by
    intro o ho hoid
    obtain ⟨o₀, ho₀, hoid₀, hlev⟩ := hacc.levels o ho hoid
    obtain ⟨hnil, hprev⟩ := hs o₀ ho₀ hoid₀
    refine ⟨by rw [hlev, hnil, List.nil_append], ?_⟩
    rw [hrep, hprev, h.balance.filled o₀ ho₀, hoid₀, h'.balance.filled o ho, hoid]
    exact (filledOf_of_fills hacc.fills).symm
  by_cases hmem : ∃ o ∈ b'.virtualOrders, o.orderId = id
  · obtain ⟨o, ho, rfl⟩ := hmem
    obtain ⟨hlev, hsum⟩ := hlevels o ho rfl
    have hnd : (b'.virtualOrders.map SimulatedOrder.orderId).Nodup := h'.core.nodup
    obtain ⟨hev, hget, hids⟩ := collectOrders_present (r := b'.lastReported) hnd ho
    have hnews : reportedFilled b'.lastReported o.orderId < o.filled ↔ fs ≠ [] := by
      constructor
      · rintro hlt rfl
        simp only [List.map_nil, List.sum_nil] at hsum
        linarith
      · intro hne
        linarith [sum_pos_of_fills hacc.pos hne]
    have hlive : o.orderId ∈ b'.virtualOrders.map SimulatedOrder.orderId := List.mem_map_of_mem ho
    refine ⟨fun x hx hxid => ?_, hacc.pos, hacc.fills, ?_⟩
    · have hx' := hids x hx hxid
      have hget' : b'.collectStateChanges.1.lastReported.get? o.orderId =
          some (o.filled, o.status) := by
        change (SortedDict.filterKeys _ _).get? _ = _
        rw [SortedDict.get?_filterKeys, if_pos (by simpa using hlive), hget]
      have hrep' : reportedFilled b'.collectStateChanges.1.lastReported o.orderId = o.filled := by
        unfold reportedFilled
        rw [hget']
        rfl
      rw [hrep', hx']
      split_ifs with hlt
      · exact ⟨rfl, rfl⟩
      · rw [hnews, not_not] at hlt
        exact ⟨hlev.trans hlt, rfl⟩
    · by_cases hne : fs = []
      · refine .inl ⟨hne, hev.trans (if_neg ?_)⟩
        rw [hnews, not_not]
        exact hne
      · refine .inr ⟨hne, fillEvent o, hev.trans (if_pos (hnews.mpr hne)), hlev, ?_⟩
        exact h'.balance.filled o ho
  · have habsent : ∀ o ∈ b'.virtualOrders, o.orderId ≠ id := fun o ho e => hmem ⟨o, ho, e⟩
    obtain ⟨hev, -, hids⟩ := collectOrders_absent (r := b'.lastReported) habsent
    have hnil : fs = [] := by
      by_contra hne
      obtain ⟨o, ho, hoid⟩ := hacc.owned hne
      exact hmem (hacc.kept o ho hoid)
    exact ⟨fun x hx hxid => absurd hxid (hids x hx), hacc.pos, hacc.fills, .inl ⟨hnil, hev⟩⟩

theorem exists_reports_of_collect (h : BookInv b) (hid : .placed id ∈ b.history)
    (hs : SettledAt b id) (hw : Works b.core b'.core) (hrep : b'.lastReported = b.lastReported) :
    ∃ fs, Reports id fs b b'.collectStateChanges.1 b'.collectStateChanges.2 := by
  obtain ⟨fs, hacc⟩ := works_accrue h.core hid hw
  exact ⟨fs, reports_of_collect h hs hw hacc hrep⟩

/-- Work that leaves the filled quantity of the order alone does not fill it. -/
theorem accrues_quiet (h : BookInv b) (hid : .placed id ∈ b.history) (hw : Works b.core b'.core)
    (hrep : b'.lastReported = b.lastReported)
    (hsame : ∀ x ∈ b'.virtualOrders, x.orderId = id →
      ∃ y ∈ b.virtualOrders, y.orderId = id ∧ x.filled = y.filled) :
    Accrues id [] b.core b'.core := by
  obtain ⟨fs, hacc⟩ := works_accrue h.core hid hw
  have h' : BookInv b' := h.of_works hw hrep
  obtain rfl : fs = [] := by
    by_contra hne
    obtain ⟨o, ho, hoid⟩ := hacc.owned hne
    obtain ⟨x, hx, hxid⟩ := hacc.kept o ho hoid
    obtain ⟨y, hy, hyid, hxy⟩ := hsame x hx hxid
    have hx' : x.filled = filledOf id b'.history := hxid ▸ h'.balance.filled x hx
    have hy' : y.filled = filledOf id b.history := hyid ▸ h.balance.filled y hy
    have hgrow : filledOf id b'.history = filledOf id b.history + (fs.map Prod.snd).sum :=
      filledOf_of_fills hacc.fills
    linarith [sum_pos_of_fills hacc.pos hne]
  exact hacc

/-- Work that leaves the filled quantity alone has nothing to report. -/
theorem reports_quiet (h : BookInv b) (hid : .placed id ∈ b.history) (hs : SettledAt b id)
    (hw : Works b.core b'.core) (hrep : b'.lastReported = b.lastReported)
    (hsame : ∀ x ∈ b'.virtualOrders, x.orderId = id →
      ∃ y ∈ b.virtualOrders, y.orderId = id ∧ x.filled = y.filled) : Reports id [] b b' [] := by
  have hacc := accrues_quiet h hid hw hrep hsame
  refine ⟨fun x hx hxid => ?_, by simp, hacc.fills, .inl ⟨rfl, rfl⟩⟩
  obtain ⟨o, ho, hoid, hlev⟩ := hacc.levels x hx hxid
  obtain ⟨y, hy, hyid, hxy⟩ := hsame x hx hxid
  obtain ⟨hnil, -⟩ := hs o ho hoid
  obtain ⟨-, hprev⟩ := hs y hy hyid
  exact ⟨by rw [hlev, hnil, List.append_nil], by rw [hrep, hprev, hxy]⟩

end

/-! ## What the sections leave alone -/

/-- What the sections of a book leave alone until the changes are collected. -/
def ShadowOrderbook.bookkeeping (b : ShadowOrderbook) :
    SortedDict OrderId (ℚ × OrderStatus) × ℕ := (b.lastReported, b.stateChangeCallbacks)

theorem same_reported {b b' : ShadowOrderbook} (h : b'.bookkeeping = b.bookkeeping) :
    b'.lastReported = b.lastReported := congrArg Prod.fst h

theorem same_callbacks {b b' : ShadowOrderbook} (h : b'.bookkeeping = b.bookkeeping) :
    b'.stateChangeCallbacks = b.stateChangeCallbacks := congrArg Prod.snd h

section Frames

variable {b : ShadowOrderbook} {o : SimulatedOrder} {os : List SimulatedOrder} {t : Time} {bid : ℚ}

@[simp] theorem matchOrder_bookkeeping : (matchOrder t b o).1.bookkeeping = b.bookkeeping := by
  unfold matchOrder
  dsimp only
  split <;> rfl

@[simp] theorem matchOrders_bookkeeping :
    (matchOrders t b os).1.bookkeeping = b.bookkeeping := by
  induction os generalizing b with
  | nil => rfl
  | cons o os ih =>
    unfold matchOrders
    dsimp only
    rw [ih]
    split
    · rfl
    · exact matchOrder_bookkeeping

@[simp] theorem checkBracket_bookkeeping :
    (checkBracket t bid b o).1.bookkeeping = b.bookkeeping := by
  unfold checkBracket
  split
  · split <;> rfl
  · rfl

@[simp] theorem checkNewBracket_bookkeeping :
    (checkNewBracket t b o).1.bookkeeping = b.bookkeeping := by
  unfold checkNewBracket
  split
  · rfl
  · exact checkBracket_bookkeeping

@[simp] theorem matchPass_bookkeeping : (b.matchPass t).bookkeeping = b.bookkeeping := by
  unfold matchPass
  dsimp only
  split
  · rfl
  · exact matchOrders_bookkeeping

@[simp] theorem enterOrder_bookkeeping {id : OrderId} {r : OrderRequest} :
    (b.enterOrder t id r).1.bookkeeping = b.bookkeeping := by
  unfold enterOrder
  exact checkNewBracket_bookkeeping.trans matchOrder_bookkeeping

theorem monitorOrders_bookkeeping : (monitorOrders t bid b os).1.bookkeeping = b.bookkeeping := by
  induction os generalizing b with
  | nil => rfl
  | cons o os ih =>
    unfold monitorOrders
    dsimp only
    rw [ih, checkBracket_bookkeeping]

/-- A bracket check changes neither the id nor the fills of its order. -/
theorem checkBracket_same : (checkBracket t bid b o).2.1.orderId = o.orderId ∧
    (checkBracket t bid b o).2.1.filled = o.filled := by
  unfold checkBracket
  split
  · split <;> exact ⟨rfl, rfl⟩
  · exact ⟨rfl, rfl⟩

theorem checkNewBracket_orderId : (checkNewBracket t b o).2.1.orderId = o.orderId := by
  unfold checkNewBracket
  split
  · rfl
  · exact checkBracket_same.1

theorem Fills.orderId {l l' : Ladder} {o' : SimulatedOrder} {fs : List (ℚ × ℚ)}
    (h : Fills l o fs l' o') : o'.orderId = o.orderId := by
  induction h with
  | nil => rfl
  | cons _ _ _ _ _ _ _ _ ih => exact ih.trans addFill_orderId

theorem monitorOrders_same : ∀ x ∈ (monitorOrders t bid b os).2.1,
    ∃ y ∈ os, y.orderId = x.orderId ∧ x.filled = y.filled := by
  induction os generalizing b with
  | nil => simp [monitorOrders]
  | cons o os ih =>
    intro x hx
    rcases List.mem_cons.mp hx with rfl | hx
    · exact ⟨o, List.mem_cons_self, checkBracket_same.1.symm, checkBracket_same.2⟩
    · obtain ⟨y, hy, h⟩ := ih x hx
      exact ⟨y, List.mem_cons_of_mem _ hy, h⟩

theorem monitor_bookkeeping : (b.monitorBracketOrders t).1.bookkeeping = b.bookkeeping := by
  unfold monitorBracketOrders
  split
  · rfl
  · exact monitorOrders_bookkeeping

theorem monitor_same : ∀ x ∈ (b.monitorBracketOrders t).1.virtualOrders,
    ∃ y ∈ b.virtualOrders, y.orderId = x.orderId ∧ x.filled = y.filled := by
  unfold monitorBracketOrders
  split
  · exact fun x hx => ⟨x, hx, rfl, rfl⟩
  · exact monitorOrders_same

theorem resolveOrder_same : (resolveOrder o).orderId = o.orderId ∧
    (resolveOrder o).filled = o.filled := by
  unfold resolveOrder cancelOpen
  split
  · exact ⟨rfl, rfl⟩
  · split <;> exact ⟨rfl, rfl⟩

theorem expireOrder_same : ((expireOrder t o).getD o).orderId = o.orderId ∧
    ((expireOrder t o).getD o).filled = o.filled := by
  unfold expireOrder
  split
  · split
    · exact ⟨rfl, rfl⟩
    · exact ⟨rfl, rfl⟩
    · split <;> exact ⟨rfl, rfl⟩
    · exact ⟨rfl, rfl⟩
  · exact ⟨rfl, rfl⟩

/-- Mapping the orders by something that keeps their ids and fills. -/
theorem map_same {f : SimulatedOrder → SimulatedOrder}
    (h : ∀ o, (f o).orderId = o.orderId ∧ (f o).filled = o.filled) : ∀ x ∈ os.map f,
      ∃ y ∈ os, y.orderId = x.orderId ∧ x.filled = y.filled := by
  intro x hx
  obtain ⟨y, hy, rfl⟩ := List.mem_map.mp hx
  exact ⟨y, hy, (h y).1.symm, (h y).2⟩

theorem applyChanges_frame {changes : List FeedChange} :
    (b.applyChanges t changes).virtualOrders = b.virtualOrders ∧
      (b.applyChanges t changes).bookkeeping = b.bookkeeping := by
  have hfold : ∀ b : ShadowOrderbook,
      (changes.foldl applyChange b).virtualOrders = b.virtualOrders ∧
        (changes.foldl applyChange b).bookkeeping = b.bookkeeping := by
    intro b
    induction changes generalizing b with
    | nil => exact ⟨rfl, rfl⟩
    | cons ch changes ih =>
      rw [List.foldl_cons, (ih _).1, (ih _).2]
      unfold applyChange
      dsimp only
      split <;> exact ⟨rfl, rfl⟩
  exact hfold { b with depthCache := [] }

end Frames

/-! ## The operations -/

/-- What the feed thread does to a book. -/
inductive FeedOp
  | applySnapshot (bids asks : List FeedLevel)
  | applyChanges (changes : List FeedChange)
  | recordTrade (price size : ℚ) (side : String)
  | touch
  | runMatching
  | monitorBracketOrders
  | expireAllPending
  | expireBook
  | handleMarketResolved
  | shutdownBook

/-- The book after the operation, and the events it fires. -/
def FeedOp.apply (now : Time) (b : ShadowOrderbook) :
    FeedOp → ShadowOrderbook × List OrderStateChangeEvent
  | applySnapshot bids asks => (b.applySnapshot now bids asks, [])
  | applyChanges changes => (b.applyChanges now changes, [])
  | recordTrade price size side => (b.recordTrade now price size side, [])
  | touch => (b.touch now, [])
  | runMatching => b.runMatching now
  | monitorBracketOrders => ((b.monitorBracketOrders now).1, [])
  | expireAllPending => b.expireAllPending now
  | expireBook => b.expireBook
  | handleMarketResolved => (b.handleMarketResolved, [])
  | shutdownBook => b.shutdownBook

section Operations

variable {b : ShadowOrderbook} {id : OrderId} {t : Time}

theorem SettledAt.cleanup (h : SettledAt b id) : SettledAt (b.cleanup t) id := by
  unfold ShadowOrderbook.cleanup
  split
  · exact fun o ho hid => h o (List.mem_of_mem_filter ho) hid
  · exact h

theorem cleanup_history : (b.cleanup t).history = b.history := by
  unfold ShadowOrderbook.cleanup
  split <;> rfl

theorem cleanup_lastReported : (b.cleanup t).lastReported = b.lastReported := by
  unfold ShadowOrderbook.cleanup
  split <;> rfl

theorem cleanup_mem {o : SimulatedOrder} (ho : o ∈ (b.cleanup t).virtualOrders) :
    o ∈ b.virtualOrders := by
  unfold ShadowOrderbook.cleanup at ho
  split at ho
  · exact List.mem_of_mem_filter ho
  · exact ho

/-- What the cleanup prunes. -/
theorem cleanup_pruned {o : SimulatedOrder} (ho : o ∈ (b.cleanup t).pruned) :
    o ∈ b.pruned ∨ o ∈ b.virtualOrders ∧ isPrunable t o = true := by
  unfold ShadowOrderbook.cleanup at ho
  split at ho
  · exact (List.mem_append.mp ho).imp_right List.mem_filter.mp
  · exact .inl ho

theorem Reports.cleanup {b' : ShadowOrderbook} {fs : List (ℚ × ℚ)}
    {evs : List OrderStateChangeEvent} (h : Reports id fs b b' evs) :
    Reports id fs b (b'.cleanup t) evs :=
  ⟨h.settled.cleanup, h.pos, by rw [cleanup_history]; exact h.fills,
    by rw [cleanup_history]; exact h.events⟩

/-- **An operation of the feed thread** reports what it filled. -/
theorem reports_of_feedOp (h : BookInv b) (hid : .placed id ∈ b.history) (hs : SettledAt b id)
    (op : FeedOp) : ∃ fs, Reports id fs b (op.apply t b).1 (op.apply t b).2 := by
  have hsame : ∀ x ∈ b.virtualOrders, x.orderId = id →
      ∃ y ∈ b.virtualOrders, y.orderId = id ∧ x.filled = y.filled :=
    fun x hx hxid => ⟨x, hx, hxid, rfl⟩
  cases op with
  | applySnapshot bids asks =>
    exact ⟨[], reports_quiet h hid hs (works_applySnapshot bids asks) rfl hsame⟩
  | applyChanges changes =>
    refine ⟨[], reports_quiet h hid hs (works_applyChanges changes)
      (same_reported applyChanges_frame.2) ?_⟩
    intro x hx
    rw [FeedOp.apply, applyChanges_frame.1] at hx
    exact hsame x hx
  | recordTrade price size side => exact ⟨[], reports_quiet h hid hs .refl rfl hsame⟩
  | touch => exact ⟨[], reports_quiet h hid hs .refl rfl hsame⟩
  | runMatching =>
    obtain ⟨fs, hr⟩ := exists_reports_of_collect h hid hs (works_matchPass (t := t) h.core)
      (same_reported matchPass_bookkeeping)
    exact ⟨fs, hr.cleanup⟩
  | monitorBracketOrders =>
    refine ⟨[], reports_quiet h hid hs (works_monitorBracketOrders h.core.ok)
      (same_reported monitor_bookkeeping)
      fun x hx hxid => ?_⟩
    obtain ⟨y, hy, hyx, hf⟩ := monitor_same x hx
    exact ⟨y, hy, hyx.trans hxid, hf⟩
  | expireAllPending =>
    have hw := works_expirePendingOrders (t := t) h.core.ok
    unfold FeedOp.apply ShadowOrderbook.expireAllPending
    dsimp only
    split
    · refine ⟨[], reports_quiet h hid hs hw rfl fun x hx hxid => ?_⟩
      obtain ⟨y, hy, hyx, hf⟩ := map_same (fun o => expireOrder_same (t := t) (o := o)) x hx
      exact ⟨y, hy, hyx.trans hxid, hf⟩
    · exact exists_reports_of_collect h hid hs hw rfl
  | expireBook => exact exists_reports_of_collect h hid hs (works_clearBook h.core.ok) rfl
  | handleMarketResolved =>
    refine ⟨[], reports_quiet h hid hs (works_handleMarketResolved h.core.ok) rfl
      fun x hx hxid => ?_⟩
    obtain ⟨y, hy, hyx, hf⟩ := map_same (fun o => resolveOrder_same (o := o)) x hx
    exact ⟨y, hy, hyx.trans hxid, hf⟩
  | shutdownBook => exact exists_reports_of_collect h hid hs (works_cancelAll h.core.ok) rfl

theorem BookInv.cleanup (h : BookInv b) : BookInv (b.cleanup t) := by
  refine h.of_effects effects_cleanup fun id hid => ?_
  rw [cleanup_history] at hid
  rw [cleanup_lastReported]
  exact h.unreported id hid

theorem BookInv.matchPass (h : BookInv b) : BookInv (b.matchPass t) :=
  h.of_works (works_matchPass h.core) (same_reported matchPass_bookkeeping)

/-- An operation of the feed thread keeps the invariant of the book. -/
theorem BookInv.feedOp (h : BookInv b) (op : FeedOp) : BookInv (op.apply t b).1 := by
  cases op with
  | applySnapshot bids asks => exact h.of_works (works_applySnapshot bids asks) rfl
  | applyChanges changes =>
    exact h.of_works (works_applyChanges changes) (same_reported applyChanges_frame.2)
  | recordTrade price size side => exact h.of_works .refl rfl
  | touch => exact h.of_works .refl rfl
  | runMatching => exact h.matchPass.collect.cleanup
  | monitorBracketOrders =>
    exact h.of_works (works_monitorBracketOrders h.core.ok) (same_reported monitor_bookkeeping)
  | expireAllPending =>
    have h' := h.of_works (works_expirePendingOrders (t := t) h.core.ok) rfl
    unfold FeedOp.apply ShadowOrderbook.expireAllPending
    dsimp only
    split
    · exact h'
    · exact h'.collect
  | expireBook => exact (h.of_works (works_clearBook h.core.ok) rfl).collect
  | handleMarketResolved => exact h.of_works (works_handleMarketResolved h.core.ok) rfl
  | shutdownBook => exact (h.of_works (works_cancelAll h.core.ok) rfl).collect

theorem feedOp_callbacks (op : FeedOp) :
    (op.apply t b).1.stateChangeCallbacks = b.stateChangeCallbacks := by
  cases op with
  | applyChanges changes => exact same_callbacks applyChanges_frame.2
  | runMatching =>
    have hcleanup : ∀ b : ShadowOrderbook,
        (b.cleanup t).stateChangeCallbacks = b.stateChangeCallbacks := fun b => by
      unfold ShadowOrderbook.cleanup
      split <;> rfl
    have hpass : (b.matchPass t).stateChangeCallbacks = b.stateChangeCallbacks :=
      same_callbacks matchPass_bookkeeping
    exact (hcleanup _).trans hpass
  | monitorBracketOrders => exact same_callbacks monitor_bookkeeping
  | expireAllPending =>
    unfold FeedOp.apply ShadowOrderbook.expireAllPending
    dsimp only
    split <;> rfl
  | _ => rfl

/-- An operation of the feed thread places nothing. -/
theorem effects_feedOp (h : BookInv b) (op : FeedOp) : Effects b.core (op.apply t b).1.core := by
  cases op with
  | applySnapshot bids asks => exact works_effects (works_applySnapshot bids asks)
  | applyChanges changes => exact works_effects (works_applyChanges changes)
  | recordTrade price size side => exact .refl
  | touch => exact .refl
  | runMatching => exact effects_runMatching h.core
  | monitorBracketOrders => exact works_effects (works_monitorBracketOrders h.core.ok)
  | expireAllPending => exact effects_expireAllPending h.core.ok
  | expireBook => exact (works_effects (works_clearBook h.core.ok)).trans effects_collect
  | handleMarketResolved => exact works_effects (works_handleMarketResolved h.core.ok)
  | shutdownBook => exact (works_effects (works_cancelAll h.core.ok)).trans effects_collect

/-- The events of a collection are about orders that were placed. -/
theorem collect_events_placed (h : BookInv b) {e : OrderStateChangeEvent}
    (he : e ∈ b.collectStateChanges.2) : .placed e.orderId ∈ b.history := by
  obtain ⟨o, ho, hid⟩ := collectOrders_events he
  exact hid ▸ h.core.placed o ho

theorem feedOp_events_placed (h : BookInv b) (op : FeedOp) {e : OrderStateChangeEvent}
    (he : e ∈ (op.apply t b).2) : .placed e.orderId ∈ (op.apply t b).1.history := by
  cases op with
  | runMatching =>
    change _ ∈ (ShadowOrderbook.cleanup t _).history
    rw [cleanup_history]
    exact collect_events_placed h.matchPass he
  | expireAllPending =>
    have h' := h.of_works (works_expirePendingOrders (t := t) h.core.ok) rfl
    unfold FeedOp.apply ShadowOrderbook.expireAllPending at he ⊢
    dsimp only at he ⊢
    split at he
    · exact absurd he List.not_mem_nil
    · rw [if_neg (by assumption)]
      exact collect_events_placed h' he
  | expireBook =>
    exact collect_events_placed (h.of_works (works_clearBook h.core.ok) rfl) he
  | shutdownBook =>
    exact collect_events_placed (h.of_works (works_cancelAll h.core.ok) rfl) he
  | _ => exact absurd he List.not_mem_nil

/-! ## Placements -/

section Placing

variable {r : OrderRequest} {x : OrderId}

/-- The book with the new order in it, before the order is matched. -/
def withNewOrder (t : Time) (x : OrderId) (r : OrderRequest) (b : ShadowOrderbook) :
    ShadowOrderbook :=
  { b with
    virtualOrders := b.virtualOrders ++ [r.newOrder t x]
    history := .placed x :: b.history }

theorem effect_withNewOrder (hfresh : .placed x ∉ b.history) (hq : 0 < r.quantity) :
    Works b.core (withNewOrder t x r b).core :=
  .single (.place b.core (r.newOrder t x) hfresh (isNew_newOrder hq))

theorem BookInv.withNewOrder (h : BookInv b) (hfresh : .placed x ∉ b.history)
    (hq : 0 < r.quantity) : BookInv (withNewOrder t x r b) :=
  h.of_works (effect_withNewOrder hfresh hq) rfl

theorem BookInv.enterOrder (h : BookInv b) (hfresh : .placed x ∉ b.history)
    (hq : 0 < r.quantity) : BookInv (b.enterOrder t x r).1 :=
  h.of_works (works_enterOrder h.core hfresh hq) (same_reported enterOrder_bookkeeping)

theorem BookInv.placeVirtualOrder (h : BookInv b) (hfresh : .placed x ∉ b.history)
    (hq : 0 < r.quantity) : BookInv (b.placeVirtualOrder t x r).book :=
  (h.enterOrder hfresh hq).collect

/-- The new order joins the list, under its id. -/
theorem enterOrder_orders (hq : 0 < r.quantity) :
    ∃ o, (b.enterOrder t x r).1.virtualOrders = b.virtualOrders ++ [o] ∧ o.orderId = x := by
  have hok : OrderOk (r.newOrder t x) := (isNew_newOrder hq).ok
  have hmatched : (matchAndCancel t { b with history := .placed x :: b.history }
      (r.newOrder t x)).2.orderId = x := by
    obtain ⟨l, fs, l', hf⟩ := fills_matchOrder (t := t)
      (b := { b with history := .placed x :: b.history }) hok rfl
    refine (revises_ioc_matchOrder hok rfl).orderId.trans ?_
    rw [hf.orderId, revises_lockSlippage.orderId]
    rfl
  exact ⟨_, rfl, checkNewBracket_orderId.trans hmatched⟩

theorem placeVirtualOrder_placed (h : BookInv b) (hfresh : .placed x ∉ b.history)
    (hq : 0 < r.quantity) (hid : .placed id ∈ b.history ∨ id = x) :
    .placed id ∈ (b.placeVirtualOrder t x r).book.history := by
  have hmem : .placed id ∈ (withNewOrder t x r b).history := by
    rcases hid with hid | rfl
    · exact List.mem_cons_of_mem _ hid
    · exact List.mem_cons_self
  have hw : Works (withNewOrder t x r b).core (b.enterOrder t x r).1.core :=
    works_matchNew h.core hfresh hq
  exact effects_placed ((works_effects hw).trans effects_collect) hmem

theorem placeVirtualOrder_callbacks :
    (b.placeVirtualOrder t x r).book.stateChangeCallbacks = b.stateChangeCallbacks := by
  have henter : (b.enterOrder t x r).1.stateChangeCallbacks = b.stateChangeCallbacks :=
    same_callbacks enterOrder_bookkeeping
  exact henter

theorem placeVirtualOrder_events_placed (h : BookInv b) (hfresh : .placed x ∉ b.history)
    (hq : 0 < r.quantity) {e : OrderStateChangeEvent}
    (he : e ∈ (b.placeVirtualOrder t x r).events) :
    .placed e.orderId ∈ (b.placeVirtualOrder t x r).book.history :=
  collect_events_placed (h.enterOrder hfresh hq) he

/-- Placing an order reports what it filled. -/
theorem reports_of_place_self (h : BookInv b) (hfresh : .placed x ∉ b.history)
    (hq : 0 < r.quantity) : ∃ fs, Reports x fs (withNewOrder t x r b)
      (b.placeVirtualOrder t x r).book (b.placeVirtualOrder t x r).events := by
  have h' := h.withNewOrder (t := t) hfresh hq
  refine exists_reports_of_collect h' List.mem_cons_self (fun o ho hid => ?_)
    (works_matchNew h.core hfresh hq) (same_reported enterOrder_bookkeeping)
  have hnew : o = r.newOrder t x := by
    rcases List.mem_append.mp ho with ho | ho
    · exact absurd (hid ▸ h.core.placed o ho) hfresh
    · exact List.mem_singleton.mp ho
  have hnone : reportedFilled (withNewOrder t x r b).lastReported x = 0 := by
    unfold reportedFilled
    rw [show (withNewOrder t x r b).lastReported = b.lastReported from rfl, h.unreported x hfresh]
    rfl
  rw [hnew, hnone]
  exact ⟨rfl, rfl⟩

/-- Placing an order neither fills nor reports another. -/
theorem reports_of_place_other (h : BookInv b) (hfresh : .placed x ∉ b.history)
    (hq : 0 < r.quantity) (hid : .placed id ∈ b.history) (hs : SettledAt b id) :
    Reports id [] b (b.placeVirtualOrder t x r).book (b.placeVirtualOrder t x r).events := by
  have hne : id ≠ x := fun e => hfresh (e ▸ hid)
  have hw := works_enterOrder (t := t) h.core hfresh hq
  refine reports_of_collect h hs hw (accrues_quiet h hid hw
    (same_reported enterOrder_bookkeeping) ?_)
    (same_reported enterOrder_bookkeeping)
  obtain ⟨o, horders, hoid⟩ := enterOrder_orders (b := b) (t := t) (x := x) hq
  intro y hy hyid
  replace hy : y ∈ (b.enterOrder t x r).1.virtualOrders := hy
  rw [horders] at hy
  rcases List.mem_append.mp hy with hy | hy
  · exact ⟨y, hy, hyid, rfl⟩
  · rw [List.mem_singleton.mp hy, hoid] at hyid
    exact absurd hyid.symm hne

/-- The order registered already filled joins the list, under its id. -/
theorem placePrefilled_orders {q : PrefilledRequest} :
    ∃ o, (b.placePrefilledBracketOrder t x q).book.virtualOrders = b.virtualOrders ++ [o] ∧
      o.orderId = x := by
  refine ⟨_, ?_, checkNewBracket_orderId (t := t) (o := q.newOrder t x)
    (b := { b with history := .prefill x q.avgEntryPrice q.filled :: .placed x :: b.history })⟩
  unfold placePrefilledBracketOrder
  dsimp only
  rw [checkNewBracket_virtualOrders]
  rfl

theorem placePrefilled_bookkeeping {q : PrefilledRequest} :
    (b.placePrefilledBracketOrder t x q).book.bookkeeping = b.bookkeeping := by
  unfold placePrefilledBracketOrder
  exact checkNewBracket_bookkeeping

theorem BookInv.placePrefilled {q : PrefilledRequest} (h : BookInv b)
    (hfresh : .placed x ∉ b.history) : BookInv (b.placePrefilledBracketOrder t x q).book :=
  h.of_works (works_placePrefilled hfresh) (same_reported placePrefilled_bookkeeping)

theorem placePrefilled_placed {q : PrefilledRequest} (h : BookInv b)
    (hfresh : .placed x ∉ b.history) (hid : .placed id ∈ b.history ∨ id = x) :
    .placed id ∈ (b.placePrefilledBracketOrder t x q).book.history := by
  rcases hid with hid | rfl
  · exact effects_placed (works_effects (works_placePrefilled hfresh)) hid
  · obtain ⟨o, horders, hoid⟩ := placePrefilled_orders (b := b) (t := t) (x := id) (q := q)
    have hmem : o ∈ (b.placePrefilledBracketOrder t id q).book.virtualOrders := by
      rw [horders]
      simp
    exact hoid ▸ (h.placePrefilled (t := t) (q := q) hfresh).core.placed o hmem

/-- Registering an order neither fills nor reports another. -/
theorem reports_of_placePrefilled {q : PrefilledRequest} (h : BookInv b)
    (hfresh : .placed x ∉ b.history) (hid : .placed id ∈ b.history) (hs : SettledAt b id) :
    Reports id [] b (b.placePrefilledBracketOrder t x q).book [] := by
  have hne : id ≠ x := fun e => hfresh (e ▸ hid)
  refine reports_quiet h hid hs (works_placePrefilled hfresh)
    (same_reported placePrefilled_bookkeeping) ?_
  obtain ⟨o, horders, hoid⟩ := placePrefilled_orders (b := b) (t := t) (x := x) (q := q)
  intro y hy hyid
  rw [horders] at hy
  rcases List.mem_append.mp hy with hy | hy
  · exact ⟨y, hy, hyid, rfl⟩
  · rw [List.mem_singleton.mp hy, hoid] at hyid
    exact absurd hyid.symm hne

end Placing

/-! ## The object of an order -/

section Objects

variable {o : SimulatedOrder} {status : OrderStatus}

theorem exists_orderObject (h : BookInv b) (hid : .placed id ∈ b.history) :
    ∃ o, b.orderObject id = some o := by
  obtain ⟨o, ho, hoid⟩ := List.mem_map.mp (h.present id hid)
  rw [← Option.isSome_iff_exists, ShadowOrderbook.orderObject, List.find?_isSome]
  exact ⟨o, ho, by simpa using hoid⟩

/-- The object of an order agrees with the history, also when the order was pruned. -/
theorem orderObject_filled (h : BookInv b) (ho : b.orderObject id = some o) :
    o.orderId = id ∧ o.filled = filledOf id b.history := by
  have hid : o.orderId = id := by simpa using List.find?_some ho
  refine ⟨hid, ?_⟩
  rw [← hid]
  rcases List.mem_append.mp (List.mem_of_find?_eq_some ho) with hmem | hmem
  · exact h.balance.filled o hmem
  · exact h.retired.filled o hmem

/-- Seeding the last report with what the object of the order says. -/
theorem BookInv.seed (h : BookInv b) (hid : .placed id ∈ b.history) (filled : ℚ)
    (status : OrderStatus) :
    BookInv (b.seedLastReported id filled status) := by
  refine h.of_effects (show Effects b.core (b.seedLastReported id filled status).core from .refl)
    fun k hk => ?_
  have hne : k ≠ id := fun e => hk (e ▸ hid)
  exact (SortedDict.get?_set_ne hne).trans (h.unreported k hk)

theorem SettledAt.seed (hs : SettledAt b id) (h : BookInv b) (ho : b.orderObject id = some o) :
    SettledAt (b.seedLastReported id o.filled o.status) id := by
  intro x hx hxid
  refine ⟨(hs x hx hxid).1, ?_⟩
  unfold reportedFilled
  rw [show (b.seedLastReported id o.filled o.status).lastReported =
    b.lastReported.set id (o.filled, o.status) from rfl, SortedDict.get?_set_self]
  exact (orderObject_filled h ho).2.trans (hxid ▸ (h.balance.filled x hx).symm)

theorem SettledAt.seed_ne {k : OrderId} {filled : ℚ} (hs : SettledAt b id) (hne : id ≠ k) :
    SettledAt (b.seedLastReported k filled status) id := by
  intro x hx hxid
  refine ⟨(hs x hx hxid).1, ?_⟩
  unfold reportedFilled
  rw [show (b.seedLastReported k filled status).lastReported =
    b.lastReported.set k (filled, status) from rfl, SortedDict.get?_set_ne hne]
  exact (hs x hx hxid).2

theorem effects_resetFillLevels (h : BookInv b) (k : OrderId) :
    Effects b.core (b.resetFillLevels k).core := by
  cases hfind : b.virtualOrders.find? (fun o => o.orderId = k) with
  | none =>
    have hsame : b.resetFillLevels k = b := by
      unfold ShadowOrderbook.resetFillLevels
      have : ∀ o ∈ b.virtualOrders, (if o.orderId = k then { o with fillLevels := [] }
          else o) = o :=
        fun o ho => if_neg (by simpa using List.find?_eq_none.mp hfind o ho)
      rw [List.map_congr_left this, List.map_id']
    rw [hsame]
  | some o =>
    obtain ⟨pre, post, horders, hmap⟩ := map_replace h.core.nodup hfind o.drained
    have hreset : (b.resetFillLevels k).virtualOrders = pre ++ o.drained :: post := by
      rw [← hmap]
      refine List.map_congr_left fun x hx => ?_
      by_cases hxk : x.orderId = k
      · have hok : o.orderId = k := by simpa using List.find?_some hfind
        rw [if_pos hxk, if_pos hxk, h.unique (List.mem_of_find?_eq_some hfind) hx
          (hxk.trans hok.symm)]
        rfl
      · rw [if_neg hxk, if_neg hxk]
    have hcore : (b.resetFillLevels k).core = { b.core with
        orders := pre ++ o.drained :: post } := by
      rw [← hreset]
      rfl
    rw [hcore]
    exact .single (.drain b.core horders)

theorem BookInv.resetFillLevels (h : BookInv b) (k : OrderId) : BookInv (b.resetFillLevels k) :=
  h.of_effects (effects_resetFillLevels h k) h.unreported

theorem SettledAt.resetFillLevels (hs : SettledAt b id) (k : OrderId) :
    SettledAt (b.resetFillLevels k) id := by
  intro x hx hxid
  obtain ⟨o, ho, rfl⟩ := List.mem_map.mp hx
  by_cases hok : o.orderId = k
  · rw [if_pos hok] at hxid ⊢
    exact ⟨rfl, (hs o ho hxid).2⟩
  · rw [if_neg hok] at hxid ⊢
    exact hs o ho hxid

end Objects

end Operations

end PolyArena
