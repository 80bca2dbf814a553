import PolyArena.MatchingEngine.ExpiredBooks
import PolyArena.MatchingEngine.Feed

/-!
# The state-change events of a run

A `Reporter` is a book together with the events it has emitted and with what the last collection
found of each order.

1. `collection_events`: an operation emits what the one collection it makes finds (`collection`),
   and nothing when it makes none.
2. `EventsExact` says that the events of each order are exactly its changes, and that what was
   pruned had nothing left to say; `Reporting` adds what links them to the side table of the book.
3. `events_exact`: that holds in every state of every run without manual seeding.
-/

namespace PolyArena

open Relation ShadowOrderbook

/-! ## The events of an order -/

section Events

variable (id : OrderId) (evs evs' : List OrderStateChangeEvent)

def eventsOf : List OrderStateChangeEvent := evs.filter fun e => e.orderId = id

/-- The cumulative quantities of the FILL events. -/
def fillValues : List ℚ := ((eventsOf id evs).filter (·.eventType = .fill)).map (·.filled)

/-- How many CANCEL events there are. -/
def cancelCount : ℕ := ((eventsOf id evs).filter (·.eventType = .cancel)).length

theorem eventsOf_append : eventsOf id (evs ++ evs') = eventsOf id evs ++ eventsOf id evs' :=
  List.filter_append ..

theorem fillValues_append : fillValues id (evs ++ evs') =
    fillValues id evs ++ fillValues id evs' := by
  simp [fillValues, eventsOf_append]

theorem cancelCount_append : cancelCount id (evs ++ evs') =
    cancelCount id evs + cancelCount id evs' := by
  simp [cancelCount, eventsOf_append]

end Events

/-! ## What a collection emits -/

section Collecting

variable {r r' : SortedDict OrderId (ℚ × OrderStatus)} {os : List SimulatedOrder}
  {o : SimulatedOrder} {id : OrderId}

/-- What is emitted for an order depends on its own last report. -/
theorem collectOrder_congr (h : r.get? o.orderId = r'.get? o.orderId) :
    (collectOrder r o).2 = (collectOrder r' o).2 := by
  unfold collectOrder
  rw [h]

theorem eventsOf_collectOrder :
    eventsOf o.orderId (collectOrder r o).2.2 = (collectOrder r o).2.2 :=
  List.filter_eq_self.mpr fun _ he => decide_eq_true (collectOrder_events he)

theorem eventsOf_absent (h : ∀ o ∈ os, o.orderId ≠ id) :
    eventsOf id (collectOrders r os).2.2 = [] := by
  refine List.filter_eq_nil_iff.mpr fun e he => ?_
  obtain ⟨o, ho, hid⟩ := collectOrders_events he
  simpa [hid] using h o ho

/-- **The events of one order** in a collection. -/
theorem eventsOf_present (hnd : (os.map SimulatedOrder.orderId).Nodup) (ho : o ∈ os) :
    eventsOf o.orderId (collectOrders r os).2.2 = (collectOrder r o).2.2 := by
  induction os generalizing r with
  | nil => exact absurd ho List.not_mem_nil
  | cons y os ih =>
    rw [List.map_cons, List.nodup_cons] at hnd
    unfold collectOrders
    rw [eventsOf_append]
    rcases List.mem_cons.mp ho with rfl | ho
    · have hrest : ∀ z ∈ os, z.orderId ≠ o.orderId := fun z hz e =>
        hnd.1 (e ▸ List.mem_map_of_mem hz)
      rw [eventsOf_absent hrest, List.append_nil, eventsOf_collectOrder]
    · have hne : o.orderId ≠ y.orderId := fun e => hnd.1 (e ▸ List.mem_map_of_mem ho)
      have hfirst : eventsOf o.orderId (collectOrder r y).2.2 = [] :=
        List.filter_eq_nil_iff.mpr fun e he => by
          rw [collectOrder_events he]
          simpa using hne.symm
      have hsame : (collectOrder r y).1.get? o.orderId = r.get? o.orderId :=
        SortedDict.get?_set_ne hne
      rw [hfirst, List.nil_append, ih hnd.2 ho, collectOrder_congr hsame]

theorem fillValues_collectOrder : fillValues o.orderId (collectOrder r o).2.2 =
    if ((r.get? o.orderId).getD (0, .pending)).1 < o.filled then [o.filled] else [] := by
  unfold fillValues
  rw [eventsOf_collectOrder]
  unfold collectOrder
  dsimp only
  split_ifs <;> rfl

theorem cancelCount_collectOrder : cancelCount o.orderId (collectOrder r o).2.2 =
    if o.status = .canceled ∧ ((r.get? o.orderId).getD (0, .pending)).2 ≠ .canceled then 1
      else 0 := by
  unfold cancelCount
  rw [eventsOf_collectOrder]
  unfold collectOrder
  dsimp only
  split_ifs <;> rfl

end Collecting

/-! ## A book that reports -/

/-- The filled quantity and the status that the last collection found of each order. -/
abbrev Found := OrderId → Option (ℚ × OrderStatus)

/-- What the collection of a book finds, the orders that are gone being as they were. -/
def ShadowOrderbook.find (b : ShadowOrderbook) (found : Found) : Found := fun id =>
  match b.virtualOrders.find? fun o => o.orderId = id with
  | some o => some (o.filled, o.status)
  | none => found id

structure Reporter where
  book : ShadowOrderbook
  emitted : List OrderStateChangeEvent := []
  found : Found := fun _ => none

namespace BookAction

/-- The book whose state changes the operation collects. -/
def collection (now : Time) (b : ShadowOrderbook) : BookAction → Option ShadowOrderbook
  | feed .runMatching => some (b.matchPass now)
  | feed .expireAllPending =>
    if (b.expirePendingOrders now).2.isEmpty then none else some (b.expirePendingOrders now).1
  | feed .expireBook => some b.clearBook
  | feed .shutdownBook => some b.cancelAllVirtual
  | place id r => some (b.enterOrder now id r).1
  | _ => none

/-- The events the operation fires. -/
def events (now : Time) (b : ShadowOrderbook) : BookAction → List OrderStateChangeEvent
  | feed op => (op.apply now b).2
  | place id r => (b.placeVirtualOrder now id r).events
  | _ => []

end BookAction

/-- An operation on the book, or a collection by itself. -/
inductive ReporterAction
  | operate (a : BookAction)
  | collect

/-- The action sets the last report of an order by hand. -/
def ReporterAction.seeds : ReporterAction → Bool
  | operate (.seedLastReported ..) => true
  | _ => false

namespace Reporter

/-- The collection of the book `c`. -/
def collected (s : Reporter) (c : ShadowOrderbook) : Reporter where
  book := c.collectStateChanges.1
  emitted := s.emitted ++ c.collectStateChanges.2
  found := c.find s.found

def step (s : Reporter) : Time × ReporterAction → Option Reporter
  | (now, .operate a) =>
    if a.Allowed s.book then
      some {
        book := a.apply now s.book
        emitted := s.emitted ++ a.events now s.book
        found := match a.collection now s.book with
          | none => s.found
          | some c => c.find s.found }
    else none
  | (_, .collect) => some (s.collected s.book)

end Reporter

/-- The events tell each order's changes up to the last collection, each once, and what was pruned
had nothing left to do or to say. -/
structure EventsExact (s : Reporter) : Prop where
  cancels : ∀ id, cancelCount id s.emitted =
    if (s.found id).any (fun x => x.2 = .canceled) then 1 else 0
  increasing : ∀ id, (0 :: fillValues id s.emitted).IsChain (· < ·)
  last : ∀ id, (fillValues id s.emitted).getLastD 0 = (s.found id).elim 0 Prod.fst
  pruned : ∀ o ∈ s.book.pruned, o.status.isTerminal = true ∧ o.isEligibleForBracket = false ∧
    s.found o.orderId = some (o.filled, o.status)

/-- What links the events to the book. -/
structure Reporting (s : Reporter) : Prop where
  inv : BookInv s.book
  exact : EventsExact s
  table : ∀ o ∈ s.book.virtualOrders, s.book.lastReported.get? o.orderId = s.found o.orderId
  unplaced : ∀ id, .placed id ∉ s.book.history → s.found id = none
  reached : ∀ o ∈ s.book.virtualOrders, (s.found o.orderId).elim 0 Prod.fst ≤ o.filled
  cancelled : ∀ o ∈ s.book.virtualOrders, (s.found o.orderId).any
    (fun x => x.2 = .canceled) = true →
    o.status = .canceled

section Steps

variable {s : Reporter} {b b' c : ShadowOrderbook} {now : Time} {found : Found}

theorem works_pruned {c c' : BookCore} (hw : Works c c') : c'.pruned = c.pruned := by
  have hstep : ∀ c c' : BookCore, Effect c c' false → c'.pruned = c.pruned := by
    intro c c' he
    cases he with
    | set side => cases side <;> rfl
    | @fill _ _ _ _ o => unfold BookCore.fill; cases o.side <;> rfl
    | _ => rfl
  induction hw with
  | refl => rfl
  | tail _ he ih => rw [hstep _ _ he, ih]

/-- **Work that collects nothing** keeps the events exact. -/
theorem Reporting.work (h : Reporting s) (hw : Works s.book.core b'.core)
    (hrep : b'.lastReported = s.book.lastReported) : Reporting { s with book := b' } := by
  have hinv' := h.inv.of_works hw hrep
  have hfrom := effects_advance (works_effects hw)
  have hnew : ∀ o ∈ b'.virtualOrders, .placed o.orderId ∉ s.book.history →
      s.found o.orderId = none :=
    fun o _ => h.unplaced o.orderId
  refine ⟨hinv', ⟨h.exact.cancels, h.exact.increasing, h.exact.last, ?_⟩, ?_, ?_, ?_, ?_⟩
  · have hpruned : b'.pruned = s.book.pruned := works_pruned hw
    intro o ho
    exact h.exact.pruned o (hpruned ▸ ho)
  · intro o' ho'
    show b'.lastReported.get? o'.orderId = s.found o'.orderId
    rw [hrep]
    rcases hfrom o' ho' with ⟨o, ho, hid, -⟩ | hfresh
    · rw [← hid]
      exact h.table o ho
    · rw [h.inv.unreported _ hfresh, hnew o' ho' hfresh]
  · exact fun id hid => h.unplaced id fun hold => hid (effects_placed (works_effects hw) hold)
  · intro o' ho'
    rcases hfrom o' ho' with ⟨o, ho, hid, hadv⟩ | hfresh
    · rw [← hid]
      exact (h.reached o ho).trans hadv.1
    · show (s.found o'.orderId).elim 0 Prod.fst ≤ o'.filled
      rw [hnew o' ho' hfresh]
      exact (hinv'.core.ok o' ho').filled_nonneg
  · intro o' ho' hcancelled
    rcases hfrom o' ho' with ⟨o, ho, hid, hadv⟩ | hfresh
    · rw [← hid] at hcancelled
      have hs := h.cancelled o ho hcancelled
      rw [hadv.2 (by rw [hs]; rfl), hs]
    · replace hcancelled : (s.found o'.orderId).any (fun x => x.2 = .canceled) = true := hcancelled
      rw [hnew o' ho' hfresh] at hcancelled
      cases hcancelled

/-! ### A collection -/

theorem find_present (hnd : (b.virtualOrders.map SimulatedOrder.orderId).Nodup) {o : SimulatedOrder}
    (ho : o ∈ b.virtualOrders) : b.find found o.orderId = some (o.filled, o.status) := by
  unfold ShadowOrderbook.find
  cases hfind : b.virtualOrders.find? fun x => x.orderId = o.orderId with
  | none =>
    have hnone := List.find?_eq_none.mp hfind o ho
    simp at hnone
  | some x =>
    have hid : x.orderId = o.orderId := by simpa using List.find?_some hfind
    obtain rfl : x = o := List.inj_on_of_nodup_map hnd (List.mem_of_find?_eq_some hfind) ho hid
    rfl

theorem find_absent {id : OrderId} (h : ∀ o ∈ b.virtualOrders, o.orderId ≠ id) :
    b.find found id = found id := by
  unfold ShadowOrderbook.find
  rw [List.find?_eq_none.mpr fun o ho => by simpa using h o ho]

/-- The orders after a collection are those before it, without the levels that were reported. -/
theorem collect_orders : ∀ x ∈ b.collectStateChanges.1.virtualOrders, ∃ o ∈ b.virtualOrders,
    x.orderId = o.orderId ∧ x.filled = o.filled ∧ x.status = o.status := by
  intro x hx
  obtain ⟨o, ho, hxo⟩ := exists_before forall₂_collectOrders hx
  refine ⟨o, ho, ?_⟩
  rcases hxo with rfl | rfl <;> exact ⟨rfl, rfl, rfl⟩

/-- The events of a collection about one order, by what was found of it before. -/
theorem Reporting.collected_order (h : Reporting s) {o : SimulatedOrder}
    (ho : o ∈ s.book.virtualOrders) :
    fillValues o.orderId s.book.collectStateChanges.2 =
        (if (s.found o.orderId).elim 0 Prod.fst < o.filled then [o.filled] else []) ∧
      cancelCount o.orderId s.book.collectStateChanges.2 =
        if o.status = .canceled ∧ ¬ (s.found o.orderId).any (fun x => x.2 = .canceled) = true then 1
        else 0 := by
  have hevents : eventsOf o.orderId s.book.collectStateChanges.2 =
      eventsOf o.orderId (collectOrder s.book.lastReported o).2.2 := by
    rw [eventsOf_collectOrder]
    exact eventsOf_present h.inv.core.nodup ho
  have htable := h.table o ho
  constructor
  · have hfills := fillValues_collectOrder (r := s.book.lastReported) (o := o)
    unfold fillValues at hfills ⊢
    rw [hevents, hfills, htable]
    cases s.found o.orderId <;> rfl
  · have hcancels := cancelCount_collectOrder (r := s.book.lastReported) (o := o)
    unfold cancelCount at hcancels ⊢
    rw [hevents, hcancels, htable]
    cases s.found o.orderId <;> simp

/-- A list of values that grow from zero grows on with one that is above the last. -/
theorem isChain_concat {l : List ℚ} {x : ℚ} (h : (0 :: l).IsChain (· < ·)) (hx : l.getLastD 0 < x) :
    (0 :: (l ++ [x])).IsChain (· < ·) := by
  rw [← List.cons_append, List.isChain_append]
  refine ⟨h, List.isChain_singleton x, fun y hy z hz => ?_⟩
  rw [List.getLast?_cons, Option.mem_some_iff, ← List.getLastD_eq_getLast?] at hy
  obtain rfl : x = z := by simpa using hz
  exact hy ▸ hx

/-- What a collection adds to the events of an order that is there. -/
theorem Reporting.collect_present (h : Reporting s) {o : SimulatedOrder}
    (ho : o ∈ s.book.virtualOrders) :
    (cancelCount o.orderId (s.collected s.book).emitted = if o.status = .canceled then 1 else 0) ∧
      (0 :: fillValues o.orderId (s.collected s.book).emitted).IsChain (· < ·) ∧
      (fillValues o.orderId (s.collected s.book).emitted).getLastD 0 = o.filled := by
  obtain ⟨hfills, hcancels⟩ := h.collected_order ho
  have hlast := h.exact.last o.orderId
  unfold Reporter.collected
  rw [cancelCount_append, fillValues_append, hcancels, hfills, h.exact.cancels]
  refine ⟨?_, ?_⟩
  · by_cases hprev : (s.found o.orderId).any (fun x => x.2 = .canceled) = true
    · simp [hprev, h.cancelled o ho hprev]
    · simp [hprev]
  · by_cases hgrown : (s.found o.orderId).elim 0 Prod.fst < o.filled
    · rw [if_pos hgrown]
      exact ⟨isChain_concat (h.exact.increasing o.orderId) (hlast ▸ hgrown),
        List.getLastD_concat ..⟩
    · rw [if_neg hgrown, List.append_nil]
      exact ⟨h.exact.increasing o.orderId,
        hlast.trans (le_antisymm (h.reached o ho) (not_lt.mp hgrown))⟩

/-- **A collection** keeps the events exact, and finds every order as it is. -/
theorem Reporting.collect (h : Reporting s) : Reporting (s.collected s.book) ∧
    ∀ o ∈ (s.collected s.book).book.virtualOrders,
      (s.collected s.book).found o.orderId = some (o.filled, o.status) := by
  have hfresh : ∀ o ∈ (s.collected s.book).book.virtualOrders,
      (s.collected s.book).found o.orderId = some (o.filled, o.status) := by
    intro x hx
    obtain ⟨o, ho, hid, hfilled, hstatus⟩ := collect_orders x hx
    rw [hid, hfilled, hstatus]
    exact find_present h.inv.core.nodup ho
  -- the events of an order are those of the collection when it is there, and the old ones when not
  have hevents : ∀ id, (∃ o ∈ s.book.virtualOrders, o.orderId = id) ∨
      (eventsOf id s.book.collectStateChanges.2 = [] ∧ s.book.find s.found id = s.found id) := by
    intro id
    by_cases hid : ∃ o ∈ s.book.virtualOrders, o.orderId = id
    · exact .inl hid
    · have habsent : ∀ o ∈ s.book.virtualOrders, o.orderId ≠ id := fun o ho e => hid ⟨o, ho, e⟩
      exact .inr ⟨eventsOf_absent habsent, find_absent habsent⟩
  have hquiet : ∀ id, eventsOf id s.book.collectStateChanges.2 = [] →
      fillValues id (s.collected s.book).emitted = fillValues id s.emitted ∧
        cancelCount id (s.collected s.book).emitted = cancelCount id s.emitted := by
    intro id hnone
    have hfills : fillValues id s.book.collectStateChanges.2 = [] := by
      rw [fillValues, hnone]
      rfl
    have hcancels : cancelCount id s.book.collectStateChanges.2 = 0 := by
      rw [cancelCount, hnone]
      rfl
    unfold Reporter.collected
    rw [fillValues_append, cancelCount_append, hfills, hcancels, List.append_nil, Nat.add_zero]
    exact ⟨rfl, rfl⟩
  refine ⟨⟨h.inv.collect, ⟨fun id => ?_, fun id => ?_, fun id => ?_, fun o ho => ?_⟩,
    fun x hx => ?_, fun id hid => ?_, fun x hx => ?_, fun x hx hcancelled => ?_⟩, hfresh⟩
  · rcases hevents id with ⟨o, ho, rfl⟩ | ⟨hnone, hfind⟩
    · have hfound : (s.collected s.book).found o.orderId = some (o.filled, o.status) :=
        find_present h.inv.core.nodup ho
      rw [hfound, (h.collect_present ho).1]
      simp
    · have hfound : (s.collected s.book).found id = s.found id := hfind
      rw [hfound, (hquiet id hnone).2]
      exact h.exact.cancels id
  · rcases hevents id with ⟨o, ho, rfl⟩ | ⟨hnone, -⟩
    · exact (h.collect_present ho).2.1
    · rw [(hquiet id hnone).1]
      exact h.exact.increasing id
  · rcases hevents id with ⟨o, ho, rfl⟩ | ⟨hnone, hfind⟩
    · have hfound : (s.collected s.book).found o.orderId = some (o.filled, o.status) :=
        find_present h.inv.core.nodup ho
      rw [hfound]
      exact (h.collect_present ho).2.2
    · have hfound : (s.collected s.book).found id = s.found id := hfind
      rw [hfound, (hquiet id hnone).1]
      exact h.exact.last id
  · have hfound : (s.collected s.book).found o.orderId = s.found o.orderId :=
      find_absent (h.inv.retired.gone o ho)
    rw [hfound]
    exact h.exact.pruned o ho
  · rw [hfresh x hx]
    obtain ⟨o, ho, hid, hfilled, hstatus⟩ := collect_orders x hx
    rw [hid, hfilled, hstatus]
    have hlive : o.orderId ∈ s.book.virtualOrders.map SimulatedOrder.orderId :=
      List.mem_map_of_mem ho
    show (SortedDict.filterKeys _ _).get? o.orderId = _
    rw [SortedDict.get?_filterKeys, if_pos (by simpa using hlive)]
    exact (collectOrders_present h.inv.core.nodup ho).2.1
  · have habsent : ∀ o ∈ s.book.virtualOrders, o.orderId ≠ id := fun o ho e =>
      hid (e ▸ h.inv.core.placed o ho)
    exact (find_absent habsent).trans (h.unplaced id hid)
  · rw [hfresh x hx]
    exact le_rfl
  · rw [hfresh x hx] at hcancelled
    simpa using hcancelled

/-- **The cleanup** of a book whose orders were just collected prunes only what is done and told. -/
theorem Reporting.cleanup (h : Reporting s)
    (hfresh : ∀ o ∈ s.book.virtualOrders, s.found o.orderId = some (o.filled, o.status)) :
    Reporting { s with book := s.book.cleanup now } := by
  have hsub : ∀ o ∈ (s.book.cleanup now).virtualOrders, o ∈ s.book.virtualOrders :=
    fun o => cleanup_mem
  refine ⟨h.inv.cleanup, ⟨h.exact.cancels, h.exact.increasing, h.exact.last, fun o ho => ?_⟩,
    fun o ho => ?_, fun id hid => ?_, fun o ho => h.reached o (hsub o ho),
    fun o ho => h.cancelled o (hsub o ho)⟩
  · rcases cleanup_pruned ho with hold | ⟨hlive, hprunable⟩
    · exact h.exact.pruned o hold
    · unfold isPrunable at hprunable
      refine ⟨?_, ?_, hfresh o hlive⟩
      · cases hs : o.status <;> simp [hs, OrderStatus.isTerminal] at hprunable ⊢
      · cases hs : o.status with
        | canceled =>
          simp only [hs, Bool.and_eq_true, Bool.not_eq_true'] at hprunable
          exact hprunable.1
        | filled =>
          simp only [hs] at hprunable
          simp [SimulatedOrder.isEligibleForBracket, hprunable]
        | _ => simp [hs] at hprunable
  · show (s.book.cleanup now).lastReported.get? o.orderId = _
    rw [cleanup_lastReported]
    exact h.table o (hsub o ho)
  · have hhist : (s.book.cleanup now).history = s.book.history := cleanup_history
    exact h.unplaced id (hhist ▸ hid)

/-! ### Any operation -/

/-- An operation emits what its collection finds. -/
theorem collection_events (a : BookAction) : a.events now b =
    (a.collection now b).elim [] fun c => c.collectStateChanges.2 := by
  cases a with
  | feed op =>
    cases op with
    | expireAllPending =>
      show (b.expireAllPending now).2 = _
      unfold ShadowOrderbook.expireAllPending BookAction.collection
      dsimp only
      split <;> rfl
    | _ => rfl
  | _ => rfl

/-- What an operation does before and after its collection. -/
theorem collection_book (now : Time) (hinv : CoreInv b.core) {a : BookAction}
    (hallowed : a.Allowed b) (hseed : (ReporterAction.operate a).seeds = false) :
    match a.collection now b with
    | none => Works b.core (a.apply now b).core ∧ (a.apply now b).lastReported = b.lastReported
    | some c => Works b.core c.core ∧ c.lastReported = b.lastReported ∧
        (a.apply now b = c.collectStateChanges.1 ∨
          a.apply now b = c.collectStateChanges.1.cleanup now) := by
  have hok := hinv.ok
  cases a with
  | feed op =>
    cases op with
    | applySnapshot bids asks => exact ⟨works_applySnapshot bids asks, rfl⟩
    | applyChanges changes => exact ⟨works_applyChanges changes, same_reported applyChanges_frame.2⟩
    | recordTrade price size side => exact ⟨.refl, rfl⟩
    | touch => exact ⟨.refl, rfl⟩
    | runMatching =>
      exact ⟨works_matchPass hinv, same_reported matchPass_bookkeeping, .inr rfl⟩
    | monitorBracketOrders =>
      exact ⟨works_monitorBracketOrders hok, same_reported monitor_bookkeeping⟩
    | expireAllPending =>
      have hw := works_expirePendingOrders (t := now) hok
      by_cases hnone : (b.expirePendingOrders now).2.isEmpty = true
      · have hbook : (b.expireAllPending now).1 = (b.expirePendingOrders now).1 := by
          unfold ShadowOrderbook.expireAllPending
          simp only [if_pos hnone]
        simp only [BookAction.collection, if_pos hnone]
        show Works b.core (b.expireAllPending now).1.core ∧
          (b.expireAllPending now).1.lastReported = b.lastReported
        rw [hbook]
        exact ⟨hw, rfl⟩
      · have hbook : (b.expireAllPending now).1 =
            (b.expirePendingOrders now).1.collectStateChanges.1 := by
          unfold ShadowOrderbook.expireAllPending
          simp only [if_neg hnone]
        simp only [BookAction.collection, if_neg hnone]
        exact ⟨hw, rfl, .inl hbook⟩
    | expireBook => exact ⟨works_clearBook hok, rfl, .inl rfl⟩
    | handleMarketResolved => exact ⟨works_handleMarketResolved hok, rfl⟩
    | shutdownBook => exact ⟨works_cancelAll hok, rfl, .inl rfl⟩
  | place id r =>
    exact ⟨works_enterOrder hinv hallowed.1 hallowed.2,
      same_reported enterOrder_bookkeeping, .inl rfl⟩
  | placePrefilled id r =>
    exact ⟨works_placePrefilled hallowed, same_reported placePrefilled_bookkeeping⟩
  | forceClose id =>
    refine ⟨works_forceClose hinv, ?_⟩
    show (b.forceCloseAtMarket now id).1.lastReported = b.lastReported
    unfold ShadowOrderbook.forceCloseAtMarket
    split
    · rfl
    · split
      · rfl
      · split <;> rfl
  | cancelOrder id =>
    refine ⟨works_cancelOrder hinv, ?_⟩
    show (b.cancelOrder id).1.lastReported = b.lastReported
    unfold ShadowOrderbook.cancelOrder
    split
    · rfl
    · split <;> rfl
  | cancelAllVirtual => exact ⟨works_cancelAll hok, rfl⟩
  | expirePendingOrders => exact ⟨works_expirePendingOrders hok, rfl⟩
  | seedLastReported id filled status => cases hseed
  | registerStateChangeCallback => exact ⟨.refl, rfl⟩
  | depth side levels =>
    show Works b.core (b.depth side levels).2.core ∧
      (b.depth side levels).2.lastReported = b.lastReported
    unfold ShadowOrderbook.depth
    split <;> exact ⟨.refl, rfl⟩

/-- **One step.** -/
theorem Reporting.step {s' : Reporter} {x : Time × ReporterAction} (h : Reporting s)
    (hunseeded : x.2.seeds = false) (hstep : s.step x = some s') : Reporting s' := by
  obtain ⟨now, _ | _⟩ := x
  case collect =>
    cases hstep
    exact h.collect.1
  case operate a =>
    unfold Reporter.step at hstep
    dsimp only at hstep
    split_ifs at hstep with hallowed
    cases hstep
    rw [collection_events]
    have hbook := collection_book now h.inv.core hallowed hunseeded
    cases hc : a.collection now s.book with
    | none =>
      rw [hc] at hbook
      rw [Option.elim_none, List.append_nil]
      exact h.work hbook.1 hbook.2
    | some c =>
      rw [hc] at hbook
      obtain ⟨hcollect, hfresh⟩ := (h.work hbook.1 hbook.2.1).collect
      rcases hbook.2.2 with heq | heq
      · rw [heq]
        exact hcollect
      · rw [heq]
        exact hcollect.cleanup hfresh

end Steps

/-! ## Runs -/

theorem reporting_new (tokenId : String) : Reporting { book := { tokenId := tokenId } } where
  inv := bookInv_new tokenId
  exact := ⟨fun _ => rfl, fun _ => List.isChain_singleton _, fun _ => rfl,
    fun _ h => absurd h List.not_mem_nil⟩
  table _ h := absurd h List.not_mem_nil
  unplaced _ _ := rfl
  reached _ h := absurd h List.not_mem_nil
  cancelled _ h := absurd h List.not_mem_nil

/-- **The events are exact** in every state that a new book reaches without manual seeding. -/
theorem events_exact {tokenId : String} {s : Reporter}
    (h : Run Reporter.step (fun _ x => x.2.seeds = false) { book := { tokenId := tokenId } } s) :
    EventsExact s :=
  (h.invariant Reporting (reporting_new tokenId) fun _ _ _ hs hguard hstep =>
    hs.step hguard hstep).exact

/-- A LIMIT BUY of twenty shares finds ten on offer, ten more come, and five are cancelled. -/
def partFilledRun : List (Time × ReporterAction) :=
  [(0, .operate (.feed (.applySnapshot [] [⟨1 / 2, 10, pos_one_half⟩]))),
    (1, .operate (.place 7 { side := .buy, price := 3 / 5, quantity := 20 })),
    (2, .operate (.feed (.applyChanges [⟨⟨3 / 5, 5, pos_three_fifths⟩, .ask⟩]))),
    (3, .operate (.feed .runMatching)), (4, .operate (.cancelOrder 7)), (5, .collect),
      (6, .collect)]

theorem events_exact_partFilled : ∃ s, EventsExact s ∧
    s.emitted.map (fun e => (e.orderId, e.eventType, e.filled)) =
      [(7, .fill, 10), (7, .fill, 15), (7, .cancel, 15)] := by
  have hexec : (exec Reporter.step (fun _ x => x.2.seeds = false) { book := { tokenId := "up" } }
      partFilledRun).map (fun s => s.emitted.map fun e => (e.orderId, e.eventType, e.filled)) =
        some [(7, .fill, 10), (7, .fill, 15), (7, .cancel, 15)] := by
    decide +kernel
  obtain ⟨s, hs, hemitted⟩ := Option.map_eq_some_iff.mp hexec
  exact ⟨s, events_exact (run_of_exec hs), hemitted⟩

end PolyArena
