import PolyArena.WsFeedService.Floor

/-!
# The rows of a resolution

A `market_resolved` event closes orders in the books, and its callback publishes the rows that
`_order_to_bo` has for them.

1. `openIn` says from the notes alone whether an order was registered and has not ended since.
2. `Traced`: `_order_to_bo` has exactly the orders that are open in this sense (`traced_step`).
3. `resolution_lists_iff`: a resolution lists the rows of all orders it closed if and only if each
   of these rows has such an order.
-/

namespace PolyArena

open ShadowOrderbook Floor

/-- The order was registered, and since then neither was an event of it with a terminal status
delivered nor was it cancelled at its placement. -/
def openIn (id : OrderId) : List FloorNote → Bool
  | [] => false
  | .tracked k :: rest => k = id || openIn id rest
  | .delivered e :: rest => !(decide (e.orderId = id) && e.status.isTerminal) && openIn id rest
  | .cancelled k :: rest => decide (k ≠ id) && openIn id rest

/-- `_order_to_bo` has the rows of the open orders. -/
structure Traced (s : Floor) : Prop where
  entry : ∀ id, s.service.consumer.orderToBo.get? id =
    if openIn id s.log then s.placedFor id else none
  placed : ∀ id, openIn id s.log = true → s.placedFor id ≠ none
  task : ∀ t ∈ s.task, s.placedFor t.order.orderId = some t.boId

section

variable {s s' : Floor} {c : OrderConsumer} {a : FloorAction} {t : FloorTask} {id : OrderId}
  {now : Time} {e : OrderStateChangeEvent} {o : SimulatedOrder} {orders : List SimulatedOrder}
  {assetId : String} {boId v : ℕ}

/-! ## The steps of the consumer -/

theorem Traced.refresh (h : Traced s) : Traced s.refresh := by
  refine ⟨h.entry, h.placed, fun t ht => ?_⟩
  obtain ⟨t₀, ht₀, hid, hbo⟩ := refresh_task ht
  rw [hid, hbo]
  exact h.task t₀ ht₀

/-- A change that `_order_to_bo`, the notes and the placements have no part in. -/
theorem Traced.of_same (h : Traced s)
    (hentry : s'.service.consumer.orderToBo = s.service.consumer.orderToBo) (hlog : s'.log = s.log)
    (hplaced : s'.placedFor = s.placedFor) (htask : s'.task = s.task) : Traced s' := by
  refine ⟨fun id => ?_, fun id => ?_, fun t ht => ?_⟩
  · rw [hentry, hlog, hplaced]
    exact h.entry id
  · rw [hlog, hplaced]
    exact h.placed id
  · rw [hplaced]
    exact h.task t (htask ▸ ht)

theorem Traced.enter {session : SessionEngine} {token : String} {q : QueueOrder} (h : Traced s)
    (hfresh : s.placedFor id = none) (hq : q.Positive) :
    Traced (s.enter now session token boId id q) := by
  unfold Floor.enter
  cases q.book session token with
  | none =>
    exact h.of_same rfl rfl rfl rfl
  | some x =>
    have hclosed : openIn id s.log = false := by
      cases hopen : openIn id s.log with
      | false => rfl
      | true => exact absurd hfresh (h.placed id hopen)
    refine ⟨fun k => ?_, fun k hk => ?_, fun t ht => ?_⟩
    · show s.service.consumer.orderToBo.get? k =
        if openIn k s.log then Function.update s.placedFor id (some boId) k else none
      rw [h.entry k]
      by_cases hkid : k = id
      · rw [hkid, hclosed]
        rfl
      · rw [Function.update_of_ne hkid]
    · show Function.update s.placedFor id (some boId) k ≠ none
      by_cases hkid : k = id
      · rw [hkid, Function.update_self]
        exact Option.some_ne_none _
      · rw [Function.update_of_ne hkid]
        exact h.placed k hk
    · cases ht
      show Function.update s.placedFor id (some boId) _ = _
      rw [placement_orderId hq, Function.update_self]

theorem Traced.publishFill (h : Traced s) (ht : s.task = some t) : Traced (s.publishFill t) := by
  have hentry : (s.publishFill t).service.consumer.orderToBo = s.service.consumer.orderToBo := by
    unfold Floor.publishFill
    dsimp only
    split
    · rfl
    · exact orderToBo_publishImmediateFill
  refine ⟨fun k => ?_, h.placed, fun t' ht' => ?_⟩
  · rw [hentry]
    exact h.entry k
  · cases ht'
    exact h.task t ht

theorem Traced.register (h : Traced s) (ht : s.task = some t) : Traced (s.register t) := by
  have hplaced := h.task t ht
  have hentry : (s.register t).service.consumer.orderToBo =
      s.service.consumer.orderToBo.set t.order.orderId t.boId := FeedService.track_orderToBo
  refine ⟨fun k => ?_, fun k hk => ?_, fun t' ht' => ?_⟩
  · rw [hentry]
    show _ = if (decide (t.order.orderId = k) || openIn k s.log) = true then s.placedFor k else none
    by_cases hk : t.order.orderId = k
    · subst hk
      rw [SortedDict.get?_set_self, hplaced]
      simp
    · rw [SortedDict.get?_set_ne (Ne.symm hk), h.entry k]
      simp [hk]
  · by_cases hkid : t.order.orderId = k
    · subst hkid
      show s.placedFor _ ≠ none
      rw [hplaced]
      exact Option.some_ne_none _
    · have hopen : (decide (t.order.orderId = k) || openIn k s.log) = true := hk
      exact h.placed k (by simpa [hkid] using hopen)
  · cases ht'
    exact hplaced

theorem Traced.finish (h : Traced s) : Traced (s.finish now t) := by
  have hentry : (s.finish now t).service.consumer.orderToBo =
      if (!t.prefilled && decide (t.order.status = .canceled)) = true then
        s.service.consumer.orderToBo.erase t.order.orderId
      else s.service.consumer.orderToBo := by
    unfold Floor.finish
    rw [FeedService.publishExits_orderToBo]
    cases hp : t.prefilled
    · simp [orderToBo_publishImmediateCancel]
    · simp
  have hlog : (s.finish now t).log =
      if (!t.prefilled && decide (t.order.status = .canceled)) = true then
        .cancelled t.order.orderId :: s.log
      else s.log := rfl
  refine ⟨fun k => ?_, fun k hk => ?_, fun _ ht => absurd ht (Option.not_mem_none _)⟩
  · show (s.finish now t).service.consumer.orderToBo.get? k =
      if openIn k (s.finish now t).log then s.placedFor k else none
    rw [hentry, hlog]
    split
    · by_cases hk : k = t.order.orderId
      · subst hk
        simp [openIn]
      · rw [SortedDict.get?_erase_ne hk, h.entry k]
        simp [openIn, Ne.symm hk]
    · exact h.entry k
  · refine h.placed k ?_
    rw [hlog] at hk
    split at hk
    · exact (Bool.and_eq_true_iff.mp hk).2
    · exact hk

theorem Traced.deliver (h : Traced s) (e : OrderStateChangeEvent) :
    Traced { s with
      service := ⟨s.service.manager, s.service.consumer.onStateChange e⟩
      log := .delivered e :: s.log } := by
  refine ⟨fun k => ?_, fun k hk => h.placed k (Bool.and_eq_true_iff.mp hk).2, h.task⟩
  show (s.service.consumer.onStateChange e).orderToBo.get? k =
    if (!(decide (e.orderId = k) && e.status.isTerminal) && openIn k s.log) =
      true then s.placedFor k
    else none
  rw [orderToBo_onStateChange]
  by_cases hk : e.orderId = k
  · subst hk
    cases hs : e.status.isTerminal
    · simpa using h.entry e.orderId
    · split
      · simp
      · next hnone =>
        have hnone : s.service.consumer.orderToBo.get? e.orderId = none := by simpa using hnone
        simp [hnone]
  · have hother := h.entry k
    split
    · rw [SortedDict.get?_erase_ne (Ne.symm hk), hother]
      simp [hk]
    · rw [hother]
      simp [hk]

/-- **One step** keeps `_order_to_bo` at the open orders. -/
theorem traced_step (h : Traced s) (hstep : s.step a = some s') : Traced s' := by
  obtain ⟨u, hact, rfl⟩ := Option.map_eq_some_iff.mp hstep
  refine Traced.refresh ?_
  cases a with
  | place now sid dir boId id q =>
    unfold Floor.act at hact
    dsimp only at hact
    split_ifs at hact with hok
    split at hact
    · cases hact
    · obtain ⟨token, -, rfl⟩ := Option.map_eq_some_iff.mp hact
      exact h.enter hok.2.1 hok.2.2
  | publishFill =>
    obtain ⟨t, ht, rfl⟩ := Option.map_eq_some_iff.mp hact
    exact h.publishFill (Option.filter_eq_some_iff.mp ht).1
  | register =>
    obtain ⟨t, ht, rfl⟩ := Option.map_eq_some_iff.mp hact
    exact h.register (Option.filter_eq_some_iff.mp ht).1
  | finish now =>
    obtain ⟨t, -, rfl⟩ := Option.map_eq_some_iff.mp hact
    exact h.finish
  | deliver e =>
    unfold Floor.act at hact
    dsimp only at hact
    split_ifs at hact
    cases hact
    exact h.deliver e
  | work now sid dir a =>
    unfold Floor.act at hact
    dsimp only at hact
    split_ifs at hact
    obtain ⟨b, -, rfl⟩ := Option.map_eq_some_iff.mp hact
    exact h.of_same rfl rfl rfl rfl
  | resolve assetId =>
    unfold Floor.act at hact
    dsimp only at hact
    split_ifs at hact
    cases hact
    exact h.of_same rfl rfl rfl rfl
  | publishResolved =>
    obtain ⟨x, -, rfl⟩ := Option.map_eq_some_iff.mp hact
    exact h.of_same rfl rfl rfl rfl
  | createSession sid tokens state =>
    cases hact
    exact h.of_same rfl rfl rfl rfl
  | transition sid state =>
    cases hact
    exact h.of_same rfl rfl rfl rfl

theorem traced_run (h : Run Floor.step (fun _ _ => True) {} s) : Traced s :=
  h.invariant Traced ⟨fun _ => rfl, fun _ h => Bool.noConfusion h,
    fun _ ht => absurd ht (Option.not_mem_none _)⟩
    fun _ _ _ hs _ hstep => traced_step hs hstep

/-! ## The published rows -/

theorem mem_resolvedBoIds : v ∈ c.resolvedBoIds orders ↔
    ∃ o ∈ orders, c.orderToBo.get? o.orderId = some v :=
  List.mem_filterMap

/-- The message lists the row of every order that the resolution closed and that the consumer had
placed. -/
def ListsAll (s s' : Floor) (assetId : String) (orders : List SimulatedOrder) : Prop :=
  ∀ o ∈ orders, ∀ v, s.placedFor o.orderId = some v →
    ∃ m, s'.resolutions = s.resolutions ++ [m] ∧ m.assetId = assetId ∧ v ∈ m.boIds

/-- **Which rows a resolution lists.** In every run, the message of a resolution lists the rows of
all orders it closed if and only if each of these rows has an order among them that is still open in
the notes. -/
theorem resolution_lists_iff (hrun : Run Floor.step (fun _ _ => True) {} s)
    (hres : s.resolving = some (assetId, orders)) (hstep : s.step .publishResolved = some s') :
    ListsAll s s' assetId orders ↔ ∀ o ∈ orders, ∀ v, s.placedFor o.orderId = some v →
      ∃ o' ∈ orders, s.placedFor o'.orderId = some v ∧ openIn o'.orderId s.log = true := by
  have h := traced_run hrun
  obtain ⟨u, hact, rfl⟩ := Option.map_eq_some_iff.mp hstep
  obtain ⟨x, hx, rfl⟩ := Option.map_eq_some_iff.mp hact
  obtain rfl : (assetId, orders) = x := Option.some.inj (hres.symm.trans hx)
  have hlisted : ∀ v, v ∈ s.service.consumer.resolvedBoIds orders ↔
      ∃ o' ∈ orders, s.placedFor o'.orderId = some v ∧ openIn o'.orderId s.log = true := by
    intro v
    rw [mem_resolvedBoIds]
    refine exists_congr fun o' => and_congr_right fun _ => ?_
    rw [h.entry]
    split
    · next hopen => simp [hopen]
    · next hclosed => simp [hclosed]
  refine forall_congr' fun o => forall_congr' fun ho => forall_congr' fun v =>
    forall_congr' fun hv => ?_
  rw [← hlisted v]
  show (∃ m, (if s.service.consumer.resolvedBoIds orders = [] then s.resolutions
    else s.resolutions ++ [⟨assetId, "", s.service.consumer.resolvedBoIds orders⟩]) = _ ∧ _) ↔ _
  constructor
  · rintro ⟨m, hm, -, hmem⟩
    split at hm
    · simp at hm
    · obtain rfl := List.singleton_inj.mp (List.append_cancel_left hm)
      exact hmem
  · intro hmem
    rw [if_neg (List.ne_nil_of_mem hmem)]
    exact ⟨_, rfl, rfl, hmem⟩

/-! ## Samples -/

/-- A LIMIT BUY of ten shares at `0.50` with a take profit, entered and then offered some shares. -/
def bracketOffered (size : ℚ) : List FloorAction :=
  [.createSession ⟨.btc, .m5, 900⟩ (upOnly "up") .active,
    .place 1000 ⟨.btc, .m5, 900⟩ .up 1 7
      (.standard { side := .buy, price := 1 / 2, quantity := 10, tpPrice := some (9 / 10) }),
    .publishFill, .register, .finish 1001,
    .work 1002 ⟨.btc, .m5, 900⟩ .up (.feed (.applySnapshot [] [⟨1 / 2, size, pos_one_half⟩])),
    .work 1002 ⟨.btc, .m5, 900⟩ .up (.feed .runMatching)]

theorem resolution_lists_partial : ∃ s s' orders, orders ≠ [] ∧ ListsAll s s' "up" orders := by
  have hexec : (exec Floor.step (fun _ _ => True) {} (bracketOffered 4 ++
      [.deliver ⟨7, .fill, 4, some (1 / 2), .partial_, none, [(1 / 2, 4)]⟩,
          .resolve "up"])).any fun s =>
        (s.step .publishResolved).any fun _ => s.resolving.any fun x =>
          x.1 = "up" && !x.2.isEmpty && x.2.all fun o => openIn o.orderId s.log := by
    decide +kernel
  obtain ⟨s, hs, hcheck⟩ := (Option.any_eq_true _ _).mp hexec
  obtain ⟨s', hs', hcheck⟩ := (Option.any_eq_true _ _).mp hcheck
  obtain ⟨⟨assetId, orders⟩, hres, hcheck⟩ := (Option.any_eq_true _ _).mp hcheck
  simp only [Bool.and_eq_true, decide_eq_true_eq, Bool.not_eq_true', List.all_eq_true] at hcheck
  obtain ⟨⟨rfl, hne⟩, hopen⟩ := hcheck
  refine ⟨s, s', orders, fun hnil => by simp [hnil] at hne, ?_⟩
  exact (resolution_lists_iff (run_of_exec hs) hres hs').mpr fun o ho v hv =>
    ⟨o, ho, hv, hopen o ho⟩

/-- **The filled order with its open bracket is missing**: its FILLED event took it out of
`_order_to_bo`. -/
theorem resolution_misses_filled : ∃ s s' orders, Run Floor.step (fun _ _ => True) {} s ∧
    s.resolving = some ("up", orders) ∧ s.step .publishResolved = some s' ∧
    ¬ ListsAll s s' "up" orders := by
  have hexec : (exec Floor.step (fun _ _ => True) {} (bracketOffered 10 ++
      [.deliver ⟨7, .fill, 10, some (1 / 2), .filled, none, [(1 / 2, 10)]⟩,
          .resolve "up"])).any fun s =>
        (s.step .publishResolved).any fun s' => s'.resolutions.isEmpty && s.resolving.any fun x =>
          x.1 = "up" && x.2.any fun o => s.placedFor o.orderId = some 1 := by
    decide +kernel
  obtain ⟨s, hs, hcheck⟩ := (Option.any_eq_true _ _).mp hexec
  obtain ⟨s', hs', hcheck⟩ := (Option.any_eq_true _ _).mp hcheck
  simp only [Bool.and_eq_true, List.isEmpty_iff] at hcheck
  obtain ⟨hempty, hcheck⟩ := hcheck
  obtain ⟨⟨assetId, orders⟩, hres, hcheck⟩ := (Option.any_eq_true _ _).mp hcheck
  simp only [Bool.and_eq_true, decide_eq_true_eq, List.any_eq_true] at hcheck
  obtain ⟨rfl, o, ho, hplaced⟩ := hcheck
  refine ⟨s, s', orders, run_of_exec hs, hres, hs', fun hlists => ?_⟩
  obtain ⟨m, hm, -⟩ := hlists o ho 1 hplaced
  rw [hempty] at hm
  simp at hm

end

end PolyArena
