import PolyArena.MatchingEngine.Cancellation
import PolyArena.MatchingEngine.StateChanges

/-!
# What the events leave of an order

1. `Over`: the order is FILLED or CANCELED, and its objects stay as they are (`effects_objects`).
2. `Live`: the order is in the book and no cancel was reported of it.  `Told`: it is over, and there
   is nothing left to report.
3. `live_step` and `told_step` are what one operation emits for such orders, and how it leaves them.
4. `Candid` books report no cancel of an order that is not CANCELED, and prune no open order.
-/

namespace PolyArena

open Relation ShadowOrderbook

/-! ## Objects of orders that are over -/

/-- When `o` is over, `x` has its status and its shares at their price. -/
def Keeps (o x : SimulatedOrder) : Prop :=
  o.status.isTerminal = true → x.status = o.status ∧ x.filled = o.filled ∧ x.entryCost = o.entryCost

section Objects

variable {c c' : BookCore} {d : Bool} {o o' x y : SimulatedOrder} {pre post : List SimulatedOrder}

theorem Keeps.refl (o : SimulatedOrder) : Keeps o o := fun _ => ⟨rfl, rfl, rfl⟩

theorem Keeps.trans (h : Keeps o x) (h' : Keeps x y) : Keeps o y := by
  intro ht
  obtain ⟨hs, hf, hc⟩ := h ht
  obtain ⟨hs', hf', hc'⟩ := h' (hs ▸ ht)
  exact ⟨hs'.trans hs, hf'.trans hf, hc'.trans hc⟩

theorem Keeps.avgEntryPrice (h : Keeps o x) (ht : o.status.isTerminal = true) :
    x.avgEntryPrice = o.avgEntryPrice := by
  obtain ⟨-, hf, hc⟩ := h ht
  unfold SimulatedOrder.avgEntryPrice
  rw [hf, hc]

theorem Revises.keeps (h : Revises o o') : Keeps o o' :=
  fun ht => ⟨h.advances.2 ht, h.filled, h.entryCost⟩

theorem Changed.keeps (h : Changed o x) : Keeps o x := by
  cases h with
  | same => exact .refl o
  | fill p q hactive hpos =>
    intro ht
    rw [hactive] at ht
    cases ht
  | exit hpos hexit => exact fun _ => ⟨hexit.status, hexit.filled, hexit.entryCost⟩
  | revise hrev => exact hrev.keeps
  | drain => exact .refl o

/-- **One effect** leaves the objects of the orders that are over. -/
theorem effect_objects (he : Effect c c' d) : ∀ x ∈ c'.orders ++ c'.pruned,
    (∃ o ∈ c.orders ++ c.pruned, o.orderId = x.orderId ∧ Keeps o x) ∨
      .placed x.orderId ∉ c.history := by
  intro x hx
  rcases List.mem_append.mp hx with hx | hx
  · rcases effect_changed he x hx with ⟨o, ho, hid, hchanged⟩ | hnew
    · exact .inl ⟨o, List.mem_append_left _ ho, hid, hchanged.keeps⟩
    · exact .inr hnew
  · exact .inl ⟨x, effect_pruned he x hx, rfl, .refl x⟩

theorem effects_objects (he : Effects c c') : ∀ x ∈ c'.orders ++ c'.pruned,
    (∃ o ∈ c.orders ++ c.pruned, o.orderId = x.orderId ∧ Keeps o x) ∨
      .placed x.orderId ∉ c.history :=
  effects_related (L := fun c => c.orders ++ c.pruned) .refl Keeps.trans effect_objects he

end Objects

/-! ## The events of a collection -/

/-- The status of the last report. -/
def reportedStatus (reported : SortedDict OrderId (ℚ × OrderStatus)) (id : OrderId) : OrderStatus :=
  ((reported.get? id).getD (0, .pending)).2

/-- The CANCEL event of an order. -/
def cancelEvent (o : SimulatedOrder) : OrderStateChangeEvent where
  orderId := o.orderId
  eventType := .cancel
  filled := o.filled
  avgEntryPrice := o.avgEntryPrice
  status := o.status
  cancelReason := some .ttlExpired

/-- The events of one order. -/
def orderEvents (reported : SortedDict OrderId (ℚ × OrderStatus)) (o : SimulatedOrder) :
    List OrderStateChangeEvent :=
  (if reportedFilled reported o.orderId < o.filled then [fillEvent o] else []) ++
    if o.status = .canceled ∧ reportedStatus reported o.orderId ≠ .canceled
    then [cancelEvent o] else []

theorem collectOrder_orderEvents {r : SortedDict OrderId (ℚ × OrderStatus)} {o : SimulatedOrder} :
    (collectOrder r o).2.2 = orderEvents r o := by
  unfold collectOrder orderEvents reportedFilled reportedStatus
  dsimp only
  split_ifs <;> rfl

section

variable {r : SortedDict OrderId (ℚ × OrderStatus)} {o : SimulatedOrder}

theorem orderEvents_of_ne (hs : o.status ≠ .canceled) :
    orderEvents r o = [] ∨ orderEvents r o = [fillEvent o] := by
  unfold orderEvents
  rw [if_neg fun hcan : o.status = .canceled ∧ _ => hs hcan.1, List.append_nil]
  split
  · exact .inr rfl
  · exact .inl rfl

theorem orderEvents_canceled (hs : o.status = .canceled)
    (hr : reportedStatus r o.orderId ≠ .canceled) :
    ∃ evs, orderEvents r o = evs ++ [cancelEvent o] ∧ (evs = [] ∨ evs = [fillEvent o]) := by
  unfold orderEvents
  rw [if_pos (show o.status = .canceled ∧ _ from ⟨hs, hr⟩)]
  refine ⟨_, rfl, ?_⟩
  split
  · exact .inr rfl
  · exact .inl rfl

theorem orderEvents_told (hf : reportedFilled r o.orderId = o.filled)
    (hs : o.status = .canceled → reportedStatus r o.orderId = .canceled) :
    orderEvents r o = [] := by
  unfold orderEvents
  have hno : ¬ (o.status = .canceled ∧ reportedStatus r o.orderId ≠ .canceled) :=
    fun hcan => hcan.2 (hs hcan.1)
  rw [hf, if_neg (lt_irrefl _), if_neg hno]
  rfl

end

/-! ## Standings -/

/-- The order is over, as `o` is. -/
structure Over (id : OrderId) (o : SimulatedOrder) (b : ShadowOrderbook) : Prop where
  placed : .placed id ∈ b.history
  terminal : o.status.isTerminal = true
  objects : ∀ x ∈ b.virtualOrders ++ b.pruned, x.orderId = id → Keeps o x

/-- The order is over, as `o` is, and its cancel was reported if it has one. -/
structure Told (id : OrderId) (o : SimulatedOrder) (b : ShadowOrderbook) : Prop where
  ended : Over id o b
  reported : o.status = .canceled → ∀ x ∈ b.virtualOrders, x.orderId = id →
    reportedStatus b.lastReported id = .canceled

/-- The order is in the book, not FILLED, and no cancel was reported of it. -/
def Live (id : OrderId) (b : ShadowOrderbook) : Prop :=
  ∃ o ∈ b.virtualOrders, o.orderId = id ∧ o.status ≠ .filled ∧
    reportedStatus b.lastReported id ≠ .canceled

/-- The order is CANCELED. -/
def Waits (id : OrderId) (b : ShadowOrderbook) : Prop :=
  ∃ o ∈ b.virtualOrders, o.orderId = id ∧ o.status = .canceled

section Steps

variable {b b' c : ShadowOrderbook} {id : OrderId} {o : SimulatedOrder} {now : Time}
  {a : BookAction}

/-- An order of the book that is over. -/
theorem over_of_mem (h : BookInv b) (ho : o ∈ b.virtualOrders) (ht : o.status.isTerminal = true) :
    Over o.orderId o b := by
  refine ⟨h.core.placed o ho, ht, fun x hx hid => ?_⟩
  rcases List.mem_append.mp hx with hx | hx
  · rw [h.unique ho hx hid]
    exact .refl o
  · exact absurd hid.symm (h.retired.gone x hx o ho)

theorem Over.effects (h : Over id o b) (he : Effects b.core b'.core) : Over id o b' := by
  refine ⟨effects_placed he h.placed, h.terminal, fun x hx hid => ?_⟩
  rcases effects_objects he x hx with ⟨y, hy, hyid, hkeeps⟩ | hnew
  · exact (h.objects y hy (hyid.trans hid)).trans hkeeps
  · exact absurd (hid ▸ h.placed) hnew

/-- The order of a book that works is still in it. -/
theorem exists_of_works (h : BookInv b) (hw : Works b.core b'.core) (ho : o ∈ b.virtualOrders) :
    ∃ o' ∈ b'.virtualOrders, o'.orderId = o.orderId ∧ Advances o o' := by
  obtain ⟨fs, hfs⟩ := works_accrue h.core (h.core.placed o ho) hw
  obtain ⟨o', ho', hid⟩ := hfs.kept o ho rfl
  rcases effects_advance (works_effects hw) o' ho' with ⟨y, hy, hyid, hadv⟩ | hnew
  · exact ⟨o', ho', hid, h.unique ho hy (hyid.trans hid) ▸ hadv⟩
  · exact absurd (hid ▸ h.core.placed o ho) hnew

/-! ### A collection -/

theorem collect_eventsOf (h : BookInv b) (ho : o ∈ b.virtualOrders) :
    eventsOf o.orderId b.collectStateChanges.2 = orderEvents b.lastReported o := by
  rw [← collectOrder_orderEvents]
  exact eventsOf_present h.core.nodup ho

theorem collect_reported (h : BookInv b) (ho : o ∈ b.virtualOrders) :
    b.collectStateChanges.1.lastReported.get? o.orderId = some (o.filled, o.status) := by
  have hlive : o.orderId ∈ b.virtualOrders.map SimulatedOrder.orderId := List.mem_map_of_mem ho
  show (SortedDict.filterKeys _ _).get? o.orderId = _
  rw [SortedDict.get?_filterKeys, if_pos (by simpa using hlive)]
  exact (collectOrders_present h.core.nodup ho).2.1

theorem collect_reportedStatus (h : BookInv b) (ho : o ∈ b.virtualOrders) :
    reportedStatus b.collectStateChanges.1.lastReported o.orderId = o.status := by
  unfold reportedStatus
  rw [collect_reported h ho]
  rfl

/-- A collection keeps every order. -/
theorem collect_keeps (ho : o ∈ b.virtualOrders) :
    ∃ x ∈ b.collectStateChanges.1.virtualOrders, x.orderId = o.orderId ∧ x.status = o.status := by
  obtain ⟨x, hx, hxo⟩ := exists_after forall₂_collectOrders ho
  refine ⟨x, hx, ?_⟩
  rcases hxo with rfl | rfl <;> exact ⟨rfl, rfl⟩

/-! ### A cleanup -/

theorem cleanup_open (ho : o ∈ b.virtualOrders) (hs : o.status.isTerminal = false) :
    o ∈ (b.cleanup now).virtualOrders := by
  have hkept : isPrunable now o = false := by
    unfold isPrunable
    cases hst : o.status <;> simp [hst, OrderStatus.isTerminal] at hs ⊢
  unfold ShadowOrderbook.cleanup
  split
  · exact List.mem_filter.mpr ⟨ho, by simp [hkept]⟩
  · exact ho

theorem Told.cleanup (h : Told id o b) : Told id o (b.cleanup now) := by
  refine ⟨h.ended.effects effects_cleanup, fun hs x hx hid => ?_⟩
  rw [cleanup_lastReported]
  exact h.reported hs x (cleanup_mem hx) hid

/-! ### Any operation -/

theorem effects_action (now : Time) (h : BookInv b) (hallowed : a.Allowed b)
    (hseed : (ReporterAction.operate a).seeds = false) : Effects b.core (a.apply now b).core := by
  have hbook := collection_book now h.core hallowed hseed
  cases hc : a.collection now b with
  | none =>
    rw [hc] at hbook
    exact works_effects hbook.1
  | some c =>
    rw [hc] at hbook
    obtain ⟨hw, -, heq | heq⟩ := hbook <;> rw [heq]
    · exact (works_effects hw).trans effects_collect
    · exact ((works_effects hw).trans effects_collect).trans effects_cleanup

/-- **An order of which everything was told**: an operation emits nothing for it. -/
theorem told_step (now : Time) (a : BookAction) (h : BookInv b) (hallowed : a.Allowed b)
    (hseed : (ReporterAction.operate a).seeds = false) (hset : SettledAt b id) (ht : Told id o b) :
    eventsOf id (a.events now b) = [] ∧ Told id o (a.apply now b) := by
  have hover := ht.ended.effects (effects_action now h hallowed hseed)
  have hbook := collection_book now h.core hallowed hseed
  rw [collection_events]
  cases hc : a.collection now b with
  | none =>
    rw [hc] at hbook
    refine ⟨rfl, hover, fun hs x hx hid => ?_⟩
    rw [hbook.2]
    rcases effects_advance (works_effects hbook.1) x hx with ⟨y, hy, hyid, -⟩ | hnew
    · exact ht.reported hs y hy (hyid.trans hid)
    · exact absurd (hid ▸ ht.ended.placed) hnew
  | some c =>
    rw [hc] at hbook
    obtain ⟨hw, hrep, heq⟩ := hbook
    have hinv := h.of_works hw hrep
    -- the order in the book that is collected, when it is there
    have hthere : ∀ x ∈ c.virtualOrders, x.orderId = id →
        x.status = o.status ∧ orderEvents c.lastReported x = [] := by
      intro x hx hid
      obtain ⟨hs, hf, -⟩ := (ht.ended.effects (works_effects hw)).objects x
        (List.mem_append_left _ hx) hid
        ht.ended.terminal
      refine ⟨hs, ?_⟩
      rcases effects_advance (works_effects hw) x hx with ⟨y, hy, hyid, -⟩ | hnew
      · have hyf :=
          (ht.ended.objects y (List.mem_append_left _ hy) (hyid.trans hid) ht.ended.terminal).2.1
        refine orderEvents_told ?_ fun hcan => ?_
        · rw [hrep, hid, (hset y hy (hyid.trans hid)).2, hyf, hf]
        · rw [hrep, hid, ht.reported (hs ▸ hcan) y hy (hyid.trans hid)]
      · exact absurd (hid ▸ ht.ended.placed) hnew
    have hcollected : Told id o c.collectStateChanges.1 := by
      refine ⟨ht.ended.effects ((works_effects hw).trans effects_collect), fun hs x hx hid => ?_⟩
      obtain ⟨y, hy, hxy, -⟩ := collect_orders x hx
      rw [← hid, hxy, collect_reportedStatus hinv hy, (hthere y hy (hxy ▸ hid)).1, hs]
    refine ⟨?_, ?_⟩
    · show eventsOf id c.collectStateChanges.2 = []
      by_cases hid : ∃ x ∈ c.virtualOrders, x.orderId = id
      · obtain ⟨x, hx, rfl⟩ := hid
        rw [collect_eventsOf hinv hx]
        exact (hthere x hx rfl).2
      · exact eventsOf_absent fun x hx e => hid ⟨x, hx, e⟩
    · rcases heq with heq | heq <;> rw [heq]
      · exact hcollected
      · exact hcollected.cleanup

/-- What an operation emits for a live order, and how it leaves it. -/
inductive LiveOutcome (id : OrderId) (b' : ShadowOrderbook) :
    Bool → List OrderStateChangeEvent → Prop
  /-- nothing was collected -/
  | quiet (h : Live id b') : LiveOutcome id b' false []
  /-- it is open, and nothing was filled -/
  | idle (h : Live id b') (hwaits : ¬ Waits id b') : LiveOutcome id b' true []
  /-- it is open -/
  | filling (o : SimulatedOrder) (hid : o.orderId = id) (hs : o.status.isTerminal = false)
      (h : Live id b') (hwaits : ¬ Waits id b') : LiveOutcome id b' true [fillEvent o]
  /-- it is FILLED -/
  | filled (o : SimulatedOrder) (collects : Bool) (hid : o.orderId = id) (hs : o.status = .filled)
      (h : Told id o b') (evs : List OrderStateChangeEvent)
      (hevs : evs = [] ∨ evs = [fillEvent o]) :
      LiveOutcome id b' collects evs
  /-- it is CANCELED -/
  | canceled (o : SimulatedOrder) (hid : o.orderId = id) (hs : o.status = .canceled)
      (h : Told id o b') (evs : List OrderStateChangeEvent)
      (hevs : evs = [] ∨ evs = [fillEvent o]) :
      LiveOutcome id b' true (evs ++ [cancelEvent o])

/-- **A live order** in an operation. -/
theorem live_step (now : Time) (a : BookAction) (h : BookInv b) (hallowed : a.Allowed b)
    (hseed : (ReporterAction.operate a).seeds = false) (hlive : Live id b) :
    LiveOutcome id (a.apply now b) (a.collection now b).isSome (eventsOf id (a.events now b)) := by
  obtain ⟨o, ho, rfl, hnotFilled, hrs⟩ := hlive
  have hbook := collection_book now h.core hallowed hseed
  rw [collection_events]
  cases hc : a.collection now b with
  | none =>
    rw [hc] at hbook
    obtain ⟨hw, hrep⟩ := hbook
    have hinv := h.of_works hw hrep
    obtain ⟨o', ho', hid, -⟩ := exists_of_works h hw ho
    by_cases hs : o'.status = .filled
    · refine .filled o' false hid hs ⟨?_, fun hcan => ?_⟩ [] (.inl rfl)
      · rw [← hid]
        exact over_of_mem hinv ho' (by rw [hs]; rfl)
      · rw [hs] at hcan
        cases hcan
    · exact .quiet ⟨o', ho', hid, hs, hrep ▸ hrs⟩
  | some c =>
    rw [hc] at hbook
    obtain ⟨hw, hrep, heq⟩ := hbook
    have hinv := h.of_works hw hrep
    obtain ⟨o', ho', hid, -⟩ := exists_of_works h hw ho
    have hevents : eventsOf o.orderId c.collectStateChanges.2 = orderEvents c.lastReported o' := by
      rw [← hid]
      exact collect_eventsOf hinv ho'
    obtain ⟨x, hx, hxid, hxs⟩ := collect_keeps ho'
    have hstatus : reportedStatus c.collectStateChanges.1.lastReported o.orderId = o'.status := by
      rw [← hid]
      exact collect_reportedStatus hinv ho'
    show LiveOutcome o.orderId (a.apply now b) true (eventsOf o.orderId c.collectStateChanges.2)
    rw [hevents]
    by_cases hterm : o'.status.isTerminal = true
    · -- the order is over, and everything is told
      have hover : Over o.orderId o' c.collectStateChanges.1 := by
        have hmem := over_of_mem hinv ho' hterm
        rw [hid] at hmem
        exact hmem.effects effects_collect
      have htold : Told o.orderId o' c.collectStateChanges.1 :=
        ⟨hover, fun hs _ _ _ => hstatus.trans hs⟩
      have htold' : Told o.orderId o' (a.apply now b) := by
        rcases heq with heq | heq <;> rw [heq]
        · exact htold
        · exact htold.cleanup
      cases hs : o'.status with
      | filled => exact .filled o' true hid hs htold' _ (orderEvents_of_ne (by rw [hs]; nofun))
      | canceled =>
        obtain ⟨evs, heq, hevs⟩ := orderEvents_canceled hs (hid.symm ▸ hrep.symm ▸ hrs)
        rw [heq]
        exact .canceled o' hid hs htold' evs hevs
      | _ =>
        rw [hs] at hterm
        cases hterm
    · rw [Bool.not_eq_true] at hterm
      have hne : o'.status ≠ .canceled := fun hs => by rw [hs] at hterm; cases hterm
      have hnf : o'.status ≠ .filled := fun hs => by rw [hs] at hterm; cases hterm
      have hlive' : Live o.orderId (a.apply now b) := by
        rcases heq with heq | heq <;> rw [heq]
        · exact ⟨x, hx, hxid.trans hid, hxs ▸ hnf, hstatus ▸ hne⟩
        · refine ⟨x, cleanup_open hx (hxs ▸ hterm), hxid.trans hid, hxs ▸ hnf, ?_⟩
          rw [cleanup_lastReported]
          exact hstatus ▸ hne
      have hwaits : ¬ Waits o.orderId (a.apply now b) := by
        rintro ⟨y, hy, hyid, hys⟩
        have hy' : y ∈ c.collectStateChanges.1.virtualOrders := by
          rcases heq with heq | heq <;> rw [heq] at hy
          · exact hy
          · exact cleanup_mem hy
        rw [hinv.collect.unique hx hy' (hyid.trans (hxid.trans hid).symm), hxs] at hys
        exact hne hys
      rcases orderEvents_of_ne (r := c.lastReported) hne with heq | heq <;> rw [heq]
      · exact .idle hlive' hwaits
      · exact .filling o' hid hterm hlive' hwaits

/-! ## Candid books -/

/-- No cancel was reported of an order that is not CANCELED.  What was pruned is over, and pruned
once. -/
structure Candid (b : ShadowOrderbook) : Prop where
  reported : ∀ o ∈ b.virtualOrders, reportedStatus b.lastReported o.orderId = .canceled →
    o.status = .canceled
  pruned : ∀ o ∈ b.pruned, o.status.isTerminal = true
  nodup : (b.pruned.map SimulatedOrder.orderId).Nodup

theorem candid_new (tokenId : String) : Candid { tokenId := tokenId } :=
  ⟨fun _ ho => absurd ho List.not_mem_nil, fun _ ho => absurd ho List.not_mem_nil, List.nodup_nil⟩

theorem Candid.works (h : Candid b) (hinv : BookInv b) (hw : Works b.core b'.core)
    (hrep : b'.lastReported = b.lastReported) : Candid b' := by
  have hpruned : b'.pruned = b.pruned := works_pruned hw
  refine ⟨fun x hx hs => ?_, fun x hx => h.pruned x (hpruned ▸ hx), hpruned ▸ h.nodup⟩
  rw [hrep] at hs
  rcases effects_advance (works_effects hw) x hx with ⟨y, hy, hyid, hadv⟩ | hnew
  · have hys := h.reported y hy (hyid.symm ▸ hs)
    rw [hadv.2 (by rw [hys]; rfl), hys]
  · unfold reportedStatus at hs
    rw [hinv.unreported _ hnew] at hs
    cases hs

theorem Candid.collect (h : Candid b) (hinv : BookInv b) : Candid b.collectStateChanges.1 := by
  refine ⟨fun x hx hs => ?_, h.pruned, h.nodup⟩
  obtain ⟨o, ho, hid, -, hstatus⟩ := collect_orders x hx
  rw [hid, collect_reportedStatus hinv ho] at hs
  exact hstatus.trans hs

theorem Candid.cleanup (h : Candid b) (hinv : BookInv b) : Candid (b.cleanup now) := by
  refine ⟨fun x hx hs => h.reported x (cleanup_mem hx) ?_, fun x hx => ?_, ?_⟩
  · rwa [cleanup_lastReported] at hs
  · unfold ShadowOrderbook.cleanup at hx
    split at hx
    · rcases List.mem_append.mp hx with hx | hx
      · exact h.pruned x hx
      · have hprunable := (List.mem_filter.mp hx).2
        unfold isPrunable at hprunable
        cases hs : x.status <;> simp [hs, OrderStatus.isTerminal] at hprunable ⊢
    · exact h.pruned x hx
  · unfold ShadowOrderbook.cleanup
    split
    · show ((b.pruned ++ b.virtualOrders.filter (isPrunable now)).map SimulatedOrder.orderId).Nodup
      rw [List.map_append, List.nodup_append]
      refine ⟨h.nodup, hinv.core.nodup.sublist (List.filter_sublist.map _), fun x hx y hy e => ?_⟩
      obtain ⟨o, ho, rfl⟩ := List.mem_map.mp hx
      obtain ⟨o', ho', rfl⟩ := List.mem_map.mp hy
      exact hinv.retired.gone o ho o' (List.mem_of_mem_filter ho') e.symm
    · exact h.nodup

/-- **One operation** keeps a book candid. -/
theorem candid_step (h : Candid b) (hinv : BookInv b) (hallowed : a.Allowed b)
    (hseed : (ReporterAction.operate a).seeds = false) : Candid (a.apply now b) := by
  have hbook := collection_book now hinv.core hallowed hseed
  cases hc : a.collection now b with
  | none =>
    rw [hc] at hbook
    exact h.works hinv hbook.1 hbook.2
  | some c =>
    rw [hc] at hbook
    obtain ⟨hw, hrep, heq⟩ := hbook
    have hcollected := (h.works hinv hw hrep).collect (hinv.of_works hw hrep)
    rcases heq with heq | heq <;> rw [heq]
    · exact hcollected
    · exact hcollected.cleanup (hinv.of_works hw hrep).collect

/-- What an event says of the status of its order. -/
theorem status_of_event (now : Time) (a : BookAction) (h : BookInv b) (hallowed : a.Allowed b)
    (hseed : (ReporterAction.operate a).seeds = false) {e : OrderStateChangeEvent}
    (he : e ∈ a.events now b) : (e.eventType = .cancel → e.status = .canceled) ∧
      (e.status.isTerminal = true → ∃ o, o.status = e.status ∧
        Over e.orderId o (a.apply now b)) := by
  have hbook := collection_book now h.core hallowed hseed
  rw [collection_events] at he
  cases hc : a.collection now b with
  | none =>
    rw [hc] at he
    exact absurd he List.not_mem_nil
  | some c =>
    rw [hc] at hbook he
    obtain ⟨hw, hrep, heq⟩ := hbook
    have hinv := h.of_works hw hrep
    replace he : e ∈ c.collectStateChanges.2 := he
    obtain ⟨o, ho, hid⟩ := collectOrders_events he
    have hmem : e ∈ orderEvents c.lastReported o := by
      rw [← collect_eventsOf hinv ho, ← hid]
      exact List.mem_filter.mpr ⟨he, by simp⟩
    have hsame : e = fillEvent o ∨ e = cancelEvent o ∧ o.status = .canceled := by
      unfold orderEvents at hmem
      rcases List.mem_append.mp hmem with hmem | hmem
      · split at hmem
        · exact .inl (List.mem_singleton.mp hmem)
        · exact absurd hmem List.not_mem_nil
      · split at hmem
        · next hcan => exact .inr ⟨List.mem_singleton.mp hmem, hcan.1⟩
        · exact absurd hmem List.not_mem_nil
    have hstatus : e.status = o.status := by
      rcases hsame with rfl | ⟨rfl, -⟩ <;> rfl
    refine ⟨fun htype => ?_, fun ht => ⟨o, hstatus.symm, ?_⟩⟩
    · rcases hsame with rfl | ⟨rfl, hcan⟩
      · cases htype
      · exact hcan
    · rw [hid]
      refine (over_of_mem hinv ho (hstatus ▸ ht)).effects ?_
      rcases heq with heq | heq <;> rw [heq]
      · exact effects_collect
      · exact effects_collect.trans effects_cleanup

/-! ## What the consumer does to a book -/

/-- The orders are those of before, with other fill levels. -/
theorem mem_resetFillLevels {k : OrderId} (ho : o ∈ (b.resetFillLevels k).virtualOrders) :
    ∃ x ∈ b.virtualOrders, x.orderId = o.orderId ∧ x.status = o.status := by
  obtain ⟨x, hx, rfl⟩ := List.mem_map.mp ho
  refine ⟨x, hx, ?_⟩
  split <;> exact ⟨rfl, rfl⟩

theorem Told.resetFillLevels (h : Told id o b) (hinv : BookInv b) (k : OrderId) :
    Told id o (b.resetFillLevels k) := by
  refine ⟨h.ended.effects (effects_resetFillLevels hinv k), fun hs x hx hid => ?_⟩
  obtain ⟨y, hy, hyx, -⟩ := mem_resetFillLevels hx
  exact h.reported hs y hy (hyx.trans hid)

theorem Live.resetFillLevels (h : Live id b) (k : OrderId) : Live id (b.resetFillLevels k) := by
  obtain ⟨o, ho, hid, hs, hr⟩ := h
  refine ⟨_, List.mem_map_of_mem ho, ?_⟩
  split <;> exact ⟨hid, hs, hr⟩

theorem Waits.of_resetFillLevels {k : OrderId} (h : Waits id (b.resetFillLevels k)) :
    Waits id b := by
  obtain ⟨o, ho, hid, hs⟩ := h
  obtain ⟨x, hx, hxo, hxs⟩ := mem_resetFillLevels ho
  exact ⟨x, hx, hxo.trans hid, hxs.trans hs⟩

theorem Candid.resetFillLevels (h : Candid b) (k : OrderId) : Candid (b.resetFillLevels k) := by
  refine ⟨fun o ho hs => ?_, h.pruned, h.nodup⟩
  obtain ⟨x, hx, hxo, hxs⟩ := mem_resetFillLevels ho
  rw [← hxs]
  exact h.reported x hx (hxo ▸ hs)

theorem reportedStatus_seed_self {filled : ℚ} {status : OrderStatus} :
    reportedStatus (b.seedLastReported id filled status).lastReported id = status := by
  unfold reportedStatus ShadowOrderbook.seedLastReported
  rw [SortedDict.get?_set_self]
  rfl

theorem reportedStatus_seed_ne {k : OrderId} {filled : ℚ} {status : OrderStatus} (hne : id ≠ k) :
    reportedStatus (b.seedLastReported k filled status).lastReported id =
      reportedStatus b.lastReported id := by
  unfold reportedStatus ShadowOrderbook.seedLastReported
  rw [SortedDict.get?_set_ne hne]

/-- The order that is seeded is over, or it goes on. -/
theorem told_of_seed (h : Over id o b) {x : SimulatedOrder} (hx : x.status = o.status) :
    Told id o (b.seedLastReported id x.filled x.status) :=
  ⟨⟨h.placed, h.terminal, h.objects⟩, fun hs _ _ _ => reportedStatus_seed_self.trans (hx.trans hs)⟩

theorem Told.seed_ne {k : OrderId} {filled : ℚ} {status : OrderStatus} (h : Told id o b)
    (hne : id ≠ k) :
    Told id o (b.seedLastReported k filled status) :=
  ⟨⟨h.ended.placed, h.ended.terminal, h.ended.objects⟩, fun hs x hx hid =>
    (reportedStatus_seed_ne hne).trans (h.reported hs x hx hid)⟩

theorem Live.seed_ne {k : OrderId} {filled : ℚ} {status : OrderStatus} (h : Live id b)
    (hne : id ≠ k) :
    Live id (b.seedLastReported k filled status) := by
  obtain ⟨o, ho, hid, hs, hr⟩ := h
  exact ⟨o, ho, hid, hs, (reportedStatus_seed_ne hne).symm ▸ hr⟩

/-- The object of an order is the one in the book. -/
theorem orderObject_of_mem (h : BookInv b) (ho : o ∈ b.virtualOrders) :
    b.orderObject o.orderId = some o := by
  obtain ⟨x, hx⟩ := exists_orderObject h (h.core.placed o ho)
  have hid := (orderObject_filled h hx).1
  rcases List.mem_append.mp (List.mem_of_find?_eq_some hx) with hmem | hmem
  · rw [hx, h.unique ho hmem hid]
  · exact absurd hid.symm (h.retired.gone x hmem o ho)

theorem live_seed (h : BookInv b) (ho : b.orderObject id = some o) (hl : Live id b) :
    Live id (b.seedLastReported id o.filled o.status) ∨
      o.status = .canceled ∧ Told id o (b.seedLastReported id o.filled o.status) := by
  obtain ⟨x, hx, rfl, hs, -⟩ := hl
  have hobject := orderObject_of_mem h hx
  rw [ho] at hobject
  cases hobject
  by_cases hcan : o.status = .canceled
  · exact .inr ⟨hcan, told_of_seed (over_of_mem h hx (by rw [hcan]; rfl)) rfl⟩
  · exact .inl ⟨o, hx, rfl, hs, by rwa [reportedStatus_seed_self]⟩

theorem Candid.seed {k : OrderId} (h : Candid b) (hinv : BookInv b)
    (ho : b.orderObject k = some o) :
    Candid (b.seedLastReported k o.filled o.status) := by
  refine ⟨fun x hx hs => ?_, h.pruned, h.nodup⟩
  by_cases hid : x.orderId = k
  · have hobject := orderObject_of_mem hinv hx
    rw [hid, ho] at hobject
    cases hobject
    rw [hid, reportedStatus_seed_self] at hs
    exact hs
  · rw [reportedStatus_seed_ne hid] at hs
    exact h.reported x hx hs

/-- An order with an object that is not over is live. -/
theorem live_of_open (h : Candid b) (ho : b.orderObject id = some o)
    (hs : o.status.isTerminal = false) :
    Live id b := by
  have hid : o.orderId = id := by simpa using List.find?_some ho
  rcases List.mem_append.mp (List.mem_of_find?_eq_some ho) with hmem | hmem
  · refine ⟨o, hmem, hid, fun he => ?_, fun he => ?_⟩
    · rw [he] at hs
      cases hs
    · rw [h.reported o hmem (hid ▸ he)] at hs
      cases hs
  · rw [h.pruned o hmem] at hs
    cases hs

/-- An order is not live when all was told of it. -/
theorem Told.not_live (h : Told id o b) : ¬ Live id b := by
  rintro ⟨x, hx, hid, hs, hr⟩
  have hkeeps := (h.ended.objects x (List.mem_append_left _ hx) hid h.ended.terminal).1
  cases hcan : o.status with
  | canceled => exact hr (h.reported hcan x hx hid)
  | filled => exact hs (hkeeps.trans hcan)
  | _ =>
    have ht := h.ended.terminal
    rw [hcan] at ht
    cases ht

/-- The object of an order that is over. -/
theorem Over.object (h : Over id o b) {x : SimulatedOrder} (hx : b.orderObject id = some x) :
    x.status = o.status ∧ x.filled = o.filled ∧ x.avgEntryPrice = o.avgEntryPrice := by
  have hid : x.orderId = id := by simpa using List.find?_some hx
  have hkeeps := h.objects x (List.mem_of_find?_eq_some hx) hid
  exact ⟨(hkeeps h.terminal).1, (hkeeps h.terminal).2.1, hkeeps.avgEntryPrice h.terminal⟩

/-- An object that is over. -/
theorem over_of_object (hc : Candid b) (h : BookInv b) (ho : b.orderObject id = some o)
    (ht : o.status.isTerminal = true) :
    Over id o b := by
  obtain ⟨hid, -⟩ := orderObject_filled h ho
  rcases List.mem_append.mp (List.mem_of_find?_eq_some ho) with hmem | hmem
  · rw [← hid]
    exact over_of_mem h hmem ht
  · refine ⟨hid ▸ h.retired.placed o hmem, ht, fun x hx hxid => ?_⟩
    rcases List.mem_append.mp hx with hx | hx
    · exact absurd (hxid.trans hid.symm) (h.retired.gone o hmem x hx)
    · rw [List.inj_on_of_nodup_map hc.nodup hx hmem (hxid.trans hid.symm)]
      exact .refl o

end Steps

end PolyArena
