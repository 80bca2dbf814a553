import PolyArena.WsFeedService.Floor

/-!
# Callbacks and last reports at the order's own book

The consumer places an order through its session, and then looks the book up again by its token to
seed it and to attach the callback; it remembers by token that it has attached it.

1. `FindsOwnBook` is when the second look finds the book that took the order, and the memory is
   right about it.
2. `Homed`: the books of the orders in `_order_to_bo` have the callback once and a last report of
   the order (`homed_step`).
3. `on_own_book`: so in every run whose registrations all find the order's own book, every tracked
   order has the callback once and its last report on the book it sits on, and nowhere else.
-/

namespace PolyArena

open ShadowOrderbook Floor

/-- No book of the manager took the order. -/
def SessionManager.Lost (m : SessionManager) (id : OrderId) : Prop :=
  ∀ s ∈ m.engines.rows, ∀ dir ∈ [Direction.up, .down], ∀ b ∈ s.books dir, .placed id ∉ b.history

instance (m : SessionManager) (id : OrderId) : Decidable (m.Lost id) := by
  unfold SessionManager.Lost
  infer_instance

/-- A registration finds the book that took the order, unless that is gone and nothing is found, and
`_registered_books` has the token exactly when that book has the callback. -/
def Floor.FindsOwnBook (s : Floor) : FloorAction → Prop
  | .register =>
    match s.task with
    | none => True
    | some t =>
      match s.service.manager.getBook t.token with
      | none => s.service.manager.Lost t.order.orderId
      | some (_, _, b) => .placed t.order.orderId ∈ b.history ∧
          (t.token ∈ s.service.consumer.registeredBooks ↔ b.stateChangeCallbacks = 1)
  | _ => True

instance (s : Floor) (a : FloorAction) : Decidable (s.FindsOwnBook a) := by
  unfold Floor.FindsOwnBook
  split
  · split
    · infer_instance
    · split <;> infer_instance
  · infer_instance

/-- A book that has the callback, and a last report of the order while that is listed. -/
structure Watches (b : ShadowOrderbook) (id : OrderId) : Prop where
  callbacks : b.stateChangeCallbacks = 1
  reported : ∀ o ∈ b.virtualOrders, o.orderId = id → (b.lastReported.get? id).isSome

/-- The tracked orders are watched by the books that took them. -/
structure Homed (s : Floor) : Prop where
  books : ∀ sid dir b, s.service.manager.bookAt sid dir = some b →
    BookInv b ∧ b.stateChangeCallbacks ≤ 1
  placed : ∀ sid dir b id, s.service.manager.bookAt sid dir = some b → .placed id ∈ b.history →
    s.placedFor id ≠ none
  unique : ∀ id sid dir b sid' dir' b', s.service.manager.bookAt sid dir = some b →
    s.service.manager.bookAt sid' dir' = some b' → .placed id ∈ b.history →
      .placed id ∈ b'.history →
    sid' = sid ∧ dir' = dir
  known : ∀ id, (s.service.consumer.orderToBo.get? id).isSome → s.placedFor id ≠ none
  watched : ∀ id, (s.service.consumer.orderToBo.get? id).isSome → ∀ sid dir b,
    s.service.manager.bookAt sid dir = some b → .placed id ∈ b.history → Watches b id
  task : ∀ t ∈ s.task, s.placedFor t.order.orderId ≠ none

section

variable {s s' : Floor} {a : FloorAction} {t : FloorTask} {id : OrderId} {now : Time} {boId : ℕ}
  {b b' : ShadowOrderbook} {sid sid' : SessionId} {dir dir' : Direction} {m : SessionManager}
  {c : OrderConsumer} {assetId token : String}

theorem Watches.kept (h : Watches b id) (hkept : Kept b' b) : Watches b' id := by
  refine ⟨hkept.callbacks.trans h.callbacks, fun o' ho' hid => ?_⟩
  obtain ⟨o, ho, hoid, hsome⟩ := hkept.orders o' ho'
  rw [← hid]
  refine hsome ?_
  rw [hoid, hid]
  exact h.reported o ho (hoid.trans hid)

/-! ## Steps that place and register nothing -/

/-- Work on books that are kept, and orders that are no longer tracked. -/
theorem Homed.of_keeps (h : Homed s) (hm : KeepsBooks s'.service.manager s.service.manager)
    (htracked : ∀ id, (s'.service.consumer.orderToBo.get? id).isSome →
      (s.service.consumer.orderToBo.get? id).isSome)
    (hplaced : s'.placedFor = s.placedFor)
    (htask : ∀ t' ∈ s'.task, ∃ t ∈ s.task, t'.order.orderId = t.order.orderId) : Homed s' := by
  refine ⟨fun sid dir b' hb' => ?_, fun sid dir b' id hb' hid => ?_,
    fun id sid dir b' sid' dir' b'' hb' hb'' hid hid' => ?_, fun id hid => ?_,
    fun id hid sid dir b' hb' hp => ?_, fun t' ht' => ?_⟩
  · obtain ⟨b, hb, hkept⟩ := hm sid dir b' hb'
    obtain ⟨hinv, hle⟩ := h.books sid dir b hb
    exact ⟨(hkept hinv).inv, (hkept hinv).callbacks.trans_le hle⟩
  · obtain ⟨b, hb, hkept⟩ := hm sid dir b' hb'
    rw [hplaced]
    exact h.placed sid dir b id hb ((hkept (h.books sid dir b hb).1).placed id hid)
  · obtain ⟨b, hb, hkept⟩ := hm sid dir b' hb'
    obtain ⟨b₁, hb₁, hkept₁⟩ := hm sid' dir' b'' hb''
    exact h.unique id sid dir b sid' dir' b₁ hb hb₁ ((hkept (h.books sid dir b hb).1).placed id hid)
      ((hkept₁ (h.books sid' dir' b₁ hb₁).1).placed id hid')
  · rw [hplaced]
    exact h.known id (htracked id hid)
  · obtain ⟨b, hb, hkept⟩ := hm sid dir b' hb'
    have hk := hkept (h.books sid dir b hb).1
    exact (h.watched id (htracked id hid) sid dir b hb (hk.placed id hp)).kept hk
  · obtain ⟨t, ht, hid⟩ := htask t' ht'
    rw [hplaced, hid]
    exact h.task t ht

theorem Homed.refresh (h : Homed s) : Homed s.refresh :=
  h.of_keeps (.refl _) (fun _ => (·)) rfl fun _ ht =>
    let ⟨t₀, ht₀, hid, _⟩ := refresh_task ht
    ⟨t₀, ht₀, hid⟩

theorem keepsBooks_editBook {f : ShadowOrderbook → ShadowOrderbook}
    (h : ∀ b, BookInv b → Kept (f b) b) :
    KeepsBooks (m.editBook sid dir f) m := by
  unfold SessionManager.editBook
  cases hs : m.getSession sid with
  | none => exact .refl m
  | some session =>
    dsimp only
    cases hb : session.books dir with
    | none => exact .refl m
    | some b =>
      have hsid : session.sessionId = sid := Table.key_of_get hs
      exact keepsBooks_setBook (hsid ▸ hs) hb (h b)

theorem keepsBooks_handleMarketResolved : KeepsBooks (m.handleMarketResolved assetId).1 m := by
  have hone : ∀ (m : SessionManager) (id : SessionId),
      KeepsBooks (SessionManager.resolveOrders assetId m id).1 m := by
    intro m id
    unfold SessionManager.resolveOrders
    cases hs : m.getSession id with
    | none => exact .refl m
    | some session =>
      dsimp only
      cases hb : session.getBookForToken assetId with
      | none => exact .refl m
      | some x =>
        have hsid : session.sessionId = id := Table.key_of_get hs
        exact keepsBooks_setBook (hsid ▸ hs) (books_of_getBookForToken hb)
          fun hinv => show Kept (BookAction.apply 0 _ (.feed .handleMarketResolved)) _
            from kept_apply hinv rfl
  have hall : ∀ (ids : List SessionId) (m : SessionManager),
      KeepsBooks (runOutputs (SessionManager.resolveOrders assetId) m ids).1 m := by
    intro ids
    induction ids with
    | nil => exact .refl
    | cons id ids ih =>
      intro m
      rw [runOutputs_cons]
      exact (ih _).trans (hone m id)
  exact hall _ m

theorem Homed.createSession {tokens : Direction → Option String} {state : SessionState}
    (h : Homed s) :
    Homed { s with service := ⟨s.service.manager.createSession sid tokens state,
      s.service.consumer⟩ } := by
  have hnew : ∀ {sid' : SessionId} {dir : Direction} {b : ShadowOrderbook} {id : OrderId},
      (s.service.manager.createSession sid tokens state).bookAt sid' dir = some b →
        .placed id ∈ b.history →
      s.service.manager.bookAt sid' dir = some b := by
    intro sid' dir b id hb hid
    rcases bookAt_createSession hb with hold | ⟨token, rfl⟩
    · exact hold
    · exact absurd hid List.not_mem_nil
  refine ⟨fun sid' dir b hb => ?_, fun sid' dir b id hb hid =>
    h.placed sid' dir b id (hnew hb hid) hid,
    fun id sid₁ dir₁ b₁ sid₂ dir₂ b₂ hb₁ hb₂ hid₁ hid₂ =>
      h.unique id sid₁ dir₁ b₁ sid₂ dir₂ b₂ (hnew hb₁ hid₁) (hnew hb₂ hid₂) hid₁ hid₂,
    h.known, fun id hid sid' dir b hb hp => h.watched id hid sid' dir b (hnew hb hp) hp, h.task⟩
  rcases bookAt_createSession hb with hold | ⟨token, rfl⟩
  · exact h.books sid' dir b hold
  · exact ⟨bookInv_new token, Nat.zero_le 1⟩

/-! ## A placement -/

/-- A placement records its order as placed, and no other. -/
theorem gains_place (q : QueueOrder) :
    ∀ k, .placed k ∈ (q.place now id b).book.history → k = id ∨ .placed k ∈ b.history := by
  intro k hk
  have hbook : (q.action id).apply now b = (q.place now id b).book := by cases q <;> rfl
  rcases placed_apply (a := q.action id) (hbook ▸ hk) with hold | hid
  · exact .inr hold
  · cases q <;> exact .inl (Option.some.inj hid).symm

theorem oneMore_place (q : QueueOrder) : OneMore id (q.place now id b).book b := by
  cases q with
  | standard r => exact oneMore_placeVirtualOrder
  | prefilled r => exact oneMore_placePrefilled

/-- A placement keeps the callbacks, and what was reported of the other orders. -/
theorem place_book {q : QueueOrder} (h : BookInv b) (hfresh : .placed id ∉ b.history)
    (hq : q.Positive) :
    BookInv (q.place now id b).book ∧
      (q.place now id b).book.stateChangeCallbacks = b.stateChangeCallbacks ∧
      ∀ k ≠ id, Watches b k → Watches (q.place now id b).book k := by
  have hbook : (q.action id).apply now b = (q.place now id b).book := by cases q <;> rfl
  have hcallbacks : (q.place now id b).book.stateChangeCallbacks = b.stateChangeCallbacks := by
    cases q with
    | standard r => exact placeVirtualOrder_callbacks
    | prefilled r => exact same_callbacks placePrefilled_bookkeeping
  have hallowed : (q.action id).Allowed b := by
    cases q with
    | standard r => exact ⟨hfresh, hq⟩
    | prefilled r => exact hfresh
  have hseed : (ReporterAction.operate (q.action id)).seeds = false := by cases q <;> rfl
  obtain ⟨hinv, hreported⟩ : BookInv ((q.action id).apply now b) ∧ _ :=
    reported_apply h hallowed hseed
  rw [hbook] at hinv hreported
  refine ⟨hinv, hcallbacks, fun k hk hw => ⟨hcallbacks.trans hw.callbacks, fun o' ho' hid => ?_⟩⟩
  obtain ⟨os, x, horders, hos, hx⟩ : OneMore id (q.place now id b).book b := oneMore_place q
  rw [← hid]
  refine hreported o' ho' ?_
  rw [horders] at ho'
  rcases List.mem_append.mp ho' with ho' | ho'
  · obtain ⟨o, ho, hrest⟩ := restOf_of_mem hos ho'
    rw [hid]
    exact hw.reported o ho (hrest.orderId.symm.trans hid)
  · rw [List.mem_singleton.mp ho', hx] at hid
    exact absurd hid.symm hk

/-- The session's book that takes the order. -/
theorem bookAt_queueOrder {session : SessionEngine} {q : QueueOrder}
    (hs : m.getSession session.sessionId = some session)
    (hq : q.book session token = some (dir, b)) :
    session.books dir = some b ∧ m.bookAt session.sessionId dir = some b := by
  have hbook : session.books dir = some b := by
    cases q with
    | standard r => exact bookForOrder_spec hq
    | prefilled r => exact bookForPrefilled_spec hq
  refine ⟨hbook, ?_⟩
  exact bookAt_of_books hs hbook

theorem Homed.enter {session : SessionEngine} {q : QueueOrder} (h : Homed s)
    (hs : s.service.manager.getSession session.sessionId = some session)
    (hfree : s.placedFor id = none) (hq : q.Positive) :
    Homed (s.enter now session token boId id q) := by
  unfold Floor.enter
  cases hbook : q.book session token with
  | none => exact h.of_keeps (.refl _) (fun _ => (·)) rfl fun t ht => ⟨t, ht, rfl⟩
  | some x =>
    obtain ⟨dir, b⟩ := x
    obtain ⟨hb, hat⟩ := bookAt_queueOrder hs hbook
    obtain ⟨hinv, hle⟩ := h.books _ _ b hat
    have hfresh : ∀ {sid : SessionId} {dir : Direction} {b : ShadowOrderbook},
        s.service.manager.bookAt sid dir = some b → .placed id ∉ b.history :=
      fun hb hid => h.placed _ _ _ id hb hid hfree
    obtain ⟨hinv', hcallbacks, hwatches⟩ : BookInv (q.place now id b).book ∧ _ :=
      place_book hinv (hfresh hat) hq
    -- a book after the placement is the one that took the order, or as it was
    have hcases : ∀ {sid' : SessionId} {dir' : Direction} {b' : ShadowOrderbook},
        (s.service.manager.setBook session dir (q.place now id b).book).bookAt sid' dir' = some b' →
        (sid' = session.sessionId ∧ dir' = dir ∧ b' = (q.place now id b).book) ∨
          s.service.manager.bookAt sid' dir' = some b' := fun hb' =>
      (bookAt_setBook_cases hs hb hb').imp_right (·.2)
    -- what is placed in a book is the new order, or it was placed there before
    have hplaced : ∀ {sid' : SessionId} {dir' : Direction} {b' : ShadowOrderbook} {k : OrderId},
        (s.service.manager.setBook session dir (q.place now id b).book).bookAt sid' dir' = some b' →
        .placed k ∈ b'.history → (k = id ∧ sid' = session.sessionId ∧ dir' = dir) ∨
          ∃ b₀, s.service.manager.bookAt sid' dir' = some b₀ ∧ .placed k ∈ b₀.history := by
      intro sid' dir' b' k hb' hk
      rcases hcases hb' with ⟨rfl, rfl, rfl⟩ | hb'
      · rcases gains_place q k hk with hnew | hold
        · exact .inl ⟨hnew, rfl, rfl⟩
        · exact .inr ⟨b, hat, hold⟩
      · exact .inr ⟨b', hb', hk⟩
    have hupdate : ∀ k, s.placedFor k ≠ none →
        Function.update s.placedFor id (some boId) k ≠ none := by
      intro k hk
      have hne : k ≠ id := by
        rintro rfl
        exact hk hfree
      rw [Function.update_of_ne hne]
      exact hk
    refine ⟨fun sid' dir' b' hb' => ?_, fun sid' dir' b' k hb' hk => ?_,
      fun k sid₁ dir₁ b₁ sid₂ dir₂ b₂ hb₁ hb₂ hk₁ hk₂ => ?_, fun k hk => hupdate k (h.known k hk),
      fun k hk sid' dir' b' hb' hp => ?_, fun t ht => ?_⟩
    · rcases hcases hb' with ⟨-, -, rfl⟩ | hb'
      · exact ⟨hinv', hcallbacks.trans_le hle⟩
      · exact h.books sid' dir' b' hb'
    · rcases hplaced hb' hk with ⟨rfl, -, -⟩ | ⟨b₀, hb₀, hk₀⟩
      · show Function.update s.placedFor k (some boId) k ≠ none
        rw [Function.update_self]
        exact Option.some_ne_none _
      · exact hupdate k (h.placed sid' dir' b₀ k hb₀ hk₀)
    · rcases hplaced hb₁ hk₁ with ⟨rfl, rfl, rfl⟩ | ⟨b₀, hb₀, hk₀⟩
      · rcases hplaced hb₂ hk₂ with ⟨-, rfl, rfl⟩ | ⟨b₀, hb₀, hk₀⟩
        · exact ⟨rfl, rfl⟩
        · exact absurd hk₀ (hfresh hb₀)
      · rcases hplaced hb₂ hk₂ with ⟨rfl, -, -⟩ | ⟨b₀', hb₀', hk₀'⟩
        · exact absurd hk₀ (hfresh hb₀)
        · exact h.unique k _ _ b₀ _ _ b₀' hb₀ hb₀' hk₀ hk₀'
    · have hne : k ≠ id := by
        rintro rfl
        exact h.known k hk hfree
      rcases hcases hb' with ⟨-, -, rfl⟩ | hb'
      · rcases gains_place q k hp with hnew | hold
        · exact absurd hnew hne
        · exact hwatches k hne (h.watched k hk _ _ b hat hold)
      · exact h.watched k hk sid' dir' b' hb' hp
    · cases ht
      show Function.update s.placedFor id (some boId) _ ≠ none
      rw [placement_orderId hq, Function.update_self]
      exact Option.some_ne_none _

/-! ## A registration -/

/-- What `Floor.FindsOwnBook` says of a task. -/
theorem Floor.FindsOwnBook.of_task (h : s.FindsOwnBook .register) (ht : s.task = some t) :
    match s.service.manager.getBook t.token with
    | none => s.service.manager.Lost t.order.orderId
    | some (_, _, b) => .placed t.order.orderId ∈ b.history ∧
        (t.token ∈ s.service.consumer.registeredBooks ↔ b.stateChangeCallbacks = 1) := by
  unfold Floor.FindsOwnBook at h
  rw [ht] at h
  exact h

theorem SessionManager.Lost.not_placed (h : m.Lost id) (hb : m.bookAt sid dir = some b) :
    .placed id ∉ b.history := by
  obtain ⟨session, hs, hbook⟩ := Option.bind_eq_some_iff.mp hb
  refine h session (Table.mem_of_get hs) dir ?_ b hbook
  cases dir <;> simp

/-- The book that was found, seeded and with the callback once. -/
theorem Watches.attach {filled : ℚ} {status : OrderStatus} (hone : b.stateChangeCallbacks = 1) :
    Watches (b.seedLastReported id filled status) id :=
  ⟨hone, fun _ _ _ => by
    show ((b.lastReported.set id (filled, status)).get? id).isSome
    rw [SortedDict.get?_set_self]
    rfl⟩

theorem Watches.seed {filled : ℚ} {status : OrderStatus} {k : OrderId} (h : Watches b k) :
    Watches (b.seedLastReported id filled status) k := by
  refine ⟨h.callbacks, fun o ho hid => ?_⟩
  show ((b.lastReported.set id (filled, status)).get? k).isSome
  by_cases hk : k = id
  · rw [hk, SortedDict.get?_set_self]
    rfl
  · rw [SortedDict.get?_set_ne hk]
    exact h.reported o ho hid

/-- The books after a registration: with the same orders placed, as well watched, and the book that
took the order watches it. -/
def Registers (id : OrderId) (m' m : SessionManager) : Prop :=
  ∀ sid dir b', m'.bookAt sid dir = some b' →
    ∃ b, m.bookAt sid dir = some b ∧ b'.history = b.history ∧
    BookInv b' ∧ b'.stateChangeCallbacks ≤ 1 ∧ (∀ k, Watches b k → Watches b' k) ∧
    (.placed id ∈ b.history → Watches b' id)

theorem Homed.of_registers (h : Homed s) (hfree : s.placedFor id ≠ none)
    (hm : Registers id s'.service.manager s.service.manager)
    (hentry : s'.service.consumer.orderToBo = s.service.consumer.orderToBo.set id boId)
    (hplaced : s'.placedFor = s.placedFor)
    (htask : ∀ t' ∈ s'.task, ∃ t ∈ s.task, t'.order.orderId = t.order.orderId) : Homed s' := by
  have htracked : ∀ k, (s'.service.consumer.orderToBo.get? k).isSome → k ≠ id →
      (s.service.consumer.orderToBo.get? k).isSome := by
    intro k hk hne
    rwa [hentry, SortedDict.get?_set_ne hne] at hk
  refine ⟨fun sid dir b' hb' => ?_, fun sid dir b' k hb' hk => ?_,
    fun k sid dir b' sid' dir' b'' hb' hb'' hk hk' => ?_, fun k hk => ?_,
      fun k hk sid dir b' hb' hp => ?_,
    fun t' ht' => ?_⟩
  · obtain ⟨b, -, -, hinv, hle, -⟩ := hm sid dir b' hb'
    exact ⟨hinv, hle⟩
  · obtain ⟨b, hb, hhist, -⟩ := hm sid dir b' hb'
    rw [hplaced]
    exact h.placed sid dir b k hb (hhist ▸ hk)
  · obtain ⟨b, hb, hhist, -⟩ := hm sid dir b' hb'
    obtain ⟨b₁, hb₁, hhist₁, -⟩ := hm sid' dir' b'' hb''
    exact h.unique k sid dir b sid' dir' b₁ hb hb₁ (hhist ▸ hk) (hhist₁ ▸ hk')
  · rw [hplaced]
    by_cases hkid : k = id
    · rw [hkid]
      exact hfree
    · exact h.known k (htracked k hk hkid)
  · obtain ⟨b, hb, hhist, -, -, hwatches, hown⟩ := hm sid dir b' hb'
    rw [hhist] at hp
    by_cases hkid : k = id
    · subst hkid
      exact hown hp
    · exact hwatches k (h.watched k (htracked k hk hkid) sid dir b hb hp)
  · obtain ⟨t, ht, hid⟩ := htask t' ht'
    rw [hplaced, hid]
    exact h.task t ht

/-- The book that the registration found, seeded and with the callback. -/
theorem registers_setBook {session : SessionEngine} (h : Homed s)
    (hs : s.service.manager.getSession session.sessionId = some session)
    (hb : session.books dir = some b) (hhist : b'.history = b.history) (hinv : BookInv b')
    (hone : b'.stateChangeCallbacks = 1) (hwatches : ∀ k, Watches b k → Watches b' k)
    (hplaced : .placed id ∈ b.history) (hown : Watches b' id) :
    Registers id (s.service.manager.setBook session dir b') s.service.manager := by
  have hat : s.service.manager.bookAt session.sessionId dir = some b := bookAt_of_books hs hb
  intro sid' dir' b'' hb''
  rcases bookAt_setBook_cases hs hb hb'' with ⟨rfl, rfl, rfl⟩ | ⟨hsame, hb''⟩
  · exact ⟨b, hat, hhist, hinv, hone.le, hwatches, fun _ => hown⟩
  · obtain ⟨hinv'', hle⟩ := h.books sid' dir' b'' hb''
    exact ⟨b'', hb'', rfl, hinv'', hle, fun _ hw => hw,
      fun hp => absurd (h.unique _ _ _ b _ _ b'' hat hb'' hplaced hp) hsame⟩

/-- **A registration** that finds the order's own book. -/
theorem Homed.register (h : Homed s) (ht : s.task = some t) (hown : s.FindsOwnBook .register) :
    Homed (s.register t) := by
  have hfree := h.task t ht
  have hentry : (s.register t).service.consumer.orderToBo =
      s.service.consumer.orderToBo.set t.order.orderId t.boId := FeedService.track_orderToBo
  refine h.of_registers hfree ?_ hentry rfl fun t' ht' => ⟨t, ht, by cases ht'; rfl⟩
  have hfound := hown.of_task ht
  unfold Floor.register FeedService.track
  dsimp only
  cases hg : s.service.manager.getBook t.token with
  | none =>
    rw [hg] at hfound
    intro sid dir b hb
    obtain ⟨hinv, hle⟩ := h.books sid dir b hb
    exact ⟨b, hb, rfl, hinv, hle, fun _ hw => hw, fun hp => absurd hp (hfound.not_placed hb)⟩
  | some r =>
    obtain ⟨session, dir, b⟩ := r
    rw [hg] at hfound
    obtain ⟨hplaced, hmemory⟩ := hfound
    obtain ⟨hs, hb⟩ := getBook_spec hg
    obtain ⟨hinv, hle⟩ := h.books session.sessionId dir b (bookAt_of_books hs hb)
    have hseeded := hinv.seed hplaced t.order.filled t.order.status
    dsimp only
    split
    · next hmem =>
      have hone : b.stateChangeCallbacks = 1 := hmemory.mp hmem
      exact registers_setBook h hs hb rfl hseeded hone (fun _ hw => hw.seed) hplaced (.attach hone)
    · next hmem =>
      -- nobody watches this book yet
      have hzero : b.stateChangeCallbacks ≠ 1 := fun e => hmem (hmemory.mpr e)
      have hone : b.stateChangeCallbacks + 1 = 1 := by omega
      refine registers_setBook h hs hb rfl (hseeded.of_effects .refl hseeded.unreported) hone
        (fun k hw => absurd hw.callbacks hzero) hplaced ⟨hone, fun o ho hid => ?_⟩
      show ((b.lastReported.set t.order.orderId (t.order.filled, t.order.status)).get? _).isSome
      rw [SortedDict.get?_set_self]
      rfl

theorem Homed.publishFill (h : Homed s) (ht : s.task = some t) : Homed (s.publishFill t) := by
  refine h.of_keeps ?_ (fun k hk => ?_) rfl fun t' ht' => ⟨t, ht, by cases ht'; rfl⟩
  · unfold Floor.publishFill
    dsimp only
    split
    · exact .refl _
    · dsimp only
      split
      · exact keepsBooks_editBook fun b hinv => kept_resetFillLevels hinv
      · exact .refl _
  · unfold Floor.publishFill at hk
    dsimp only at hk
    split at hk
    · exact hk
    · rwa [orderToBo_publishImmediateFill] at hk

theorem Homed.finish (h : Homed s) (now : Time) (t : FloorTask) : Homed (s.finish now t) := by
  refine h.of_keeps (.refl _) (fun k hk => ?_) rfl fun t' ht' => absurd ht' (Option.not_mem_none _)
  unfold Floor.finish at hk
  rw [FeedService.publishExits_orderToBo] at hk
  split at hk
  · exact hk
  · rw [orderToBo_publishImmediateCancel] at hk
    split at hk
    · by_cases hkid : k = t.order.orderId
      · rw [hkid, SortedDict.get?_erase_self] at hk
        cases hk
      · rwa [SortedDict.get?_erase_ne hkid] at hk
    · exact hk

/-! ## Runs -/

/-- **One step** whose registration finds the order's own book. -/
theorem homed_step (h : Homed s) (hguard : s.FindsOwnBook a) (hstep : s.step a = some s') :
    Homed s' := by
  obtain ⟨u, hact, rfl⟩ := Option.map_eq_some_iff.mp hstep
  refine Homed.refresh ?_
  cases a with
  | place now sid dir boId id q =>
    unfold Floor.act at hact
    dsimp only at hact
    split_ifs at hact with hok
    split at hact
    · cases hact
    · next session hs =>
      obtain ⟨token, -, rfl⟩ := Option.map_eq_some_iff.mp hact
      have hsid : session.sessionId = sid := Table.key_of_get hs
      exact h.enter (hsid ▸ hs) hok.2.1 hok.2.2
  | publishFill =>
    obtain ⟨t, ht, rfl⟩ := Option.map_eq_some_iff.mp hact
    exact h.publishFill (Option.filter_eq_some_iff.mp ht).1
  | register =>
    obtain ⟨t, ht, rfl⟩ := Option.map_eq_some_iff.mp hact
    exact h.register (Option.filter_eq_some_iff.mp ht).1 hguard
  | finish now =>
    obtain ⟨t, -, rfl⟩ := Option.map_eq_some_iff.mp hact
    exact h.finish now t
  | deliver e =>
    unfold Floor.act at hact
    dsimp only at hact
    split_ifs at hact
    cases hact
    refine h.of_keeps (.refl _) (fun k hk => ?_) rfl fun t ht => ⟨t, ht, rfl⟩
    obtain ⟨v, hv⟩ := Option.isSome_iff_exists.mp hk
    exact Option.isSome_iff_exists.mpr ⟨v, tracked_of_onStateChange hv⟩
  | work now sid dir a =>
    unfold Floor.act at hact
    dsimp only at hact
    split_ifs at hact with ha
    obtain ⟨b, -, rfl⟩ := Option.map_eq_some_iff.mp hact
    exact h.of_keeps (keepsBooks_editBook fun b hinv => kept_apply hinv ha) (fun _ => (·)) rfl
      fun t ht => ⟨t, ht, rfl⟩
  | resolve assetId =>
    unfold Floor.act at hact
    dsimp only at hact
    split_ifs at hact
    cases hact
    exact h.of_keeps keepsBooks_handleMarketResolved (fun _ => (·)) rfl fun t ht => ⟨t, ht, rfl⟩
  | publishResolved =>
    obtain ⟨x, -, rfl⟩ := Option.map_eq_some_iff.mp hact
    exact h.of_keeps (.refl _) (fun _ => (·)) rfl fun t ht => ⟨t, ht, rfl⟩
  | createSession sid tokens state =>
    cases hact
    exact h.createSession
  | transition sid state =>
    cases hact
    exact h.of_keeps keepsBooks_transitionSession (fun _ => (·)) rfl fun t ht => ⟨t, ht, rfl⟩

theorem homed_start : Homed {} where
  books _ _ _ hb := nomatch hb
  placed _ _ _ _ hb := nomatch hb
  unique _ _ _ _ _ _ _ hb := nomatch hb
  known _ hk := Bool.noConfusion hk
  watched _ hk := Bool.noConfusion hk
  task _ ht := absurd ht (Option.not_mem_none _)

/-- Every tracked order sits on a book with the callback once and a last report of it, and no other
book has a last report of it. -/
def OnOwnBook (s : Floor) : Prop :=
  ∀ id, (s.service.consumer.orderToBo.get? id).isSome → ∀ sid dir b,
    s.service.manager.bookAt sid dir = some b → (∃ o ∈ b.virtualOrders, o.orderId = id) →
    b.stateChangeCallbacks = 1 ∧ (b.lastReported.get? id).isSome ∧
      ∀ sid' dir' b', s.service.manager.bookAt sid' dir' = some b' →
        (b'.lastReported.get? id).isSome →
        sid' = sid ∧ dir' = dir

/-- **At its own book.** In every run whose registrations find the order's own book, every tracked
order is watched by the book it sits on, and by no other. -/
theorem on_own_book (hrun : Run Floor.step Floor.FindsOwnBook {} s) : OnOwnBook s := by
  have h : Homed s := hrun.invariant Homed homed_start fun _ _ _ hs hguard hstep =>
    homed_step hs hguard hstep
  intro id hid sid dir b hb hmem
  obtain ⟨o, ho, hoid⟩ := hmem
  obtain ⟨hinv, -⟩ := h.books sid dir b hb
  have hplaced : .placed id ∈ b.history := hoid ▸ hinv.core.placed o ho
  obtain ⟨hcallbacks, hreported⟩ := h.watched id hid sid dir b hb hplaced
  refine ⟨hcallbacks, hreported o ho hoid, fun sid' dir' b' hb' hsome => ?_⟩
  refine h.unique id sid dir b sid' dir' b' hb hb' hplaced ?_
  by_contra hnot
  rw [(h.books sid' dir' b' hb').1.unreported id hnot] at hsome
  cases hsome

/-! ## Samples -/

/-- The consumer thread takes an order of ten shares through a session. -/
def takeOrder (sid : SessionId) (boId : ℕ) (id : OrderId) : List FloorAction :=
  [.place 1000 sid .up boId id (.standard { side := .buy, price := 1 / 2, quantity := 10 }),
    .publishFill, .register, .finish 1001]

/-- Two orders of one session. -/
theorem on_own_book_twice : ∃ s, OnOwnBook s ∧ (s.service.consumer.orderToBo.get? 7).isSome ∧
    (s.service.consumer.orderToBo.get? 8).isSome := by
  have hexec : (exec Floor.step Floor.FindsOwnBook {}
      ([.createSession ⟨.btc, .m5, 900⟩ (upOnly "up") .active] ++ takeOrder ⟨.btc, .m5, 900⟩ 1 7 ++
        takeOrder ⟨.btc, .m5, 900⟩ 2 8)).any fun s =>
      (s.service.consumer.orderToBo.get? 7).isSome &&
        (s.service.consumer.orderToBo.get? 8).isSome := by
    decide +kernel
  obtain ⟨s, hs, hcheck⟩ := (Option.any_eq_true _ _).mp hexec
  exact ⟨s, on_own_book (run_of_exec hs), Bool.and_eq_true_iff.mp hcheck⟩

/-- **Two sessions own the token**: the order is placed in the later session's book, and the ACTIVE
session's book gets the callback and the last report. -/
theorem token_of_two_sessions : ∃ s, Run Floor.step (fun _ _ => True) {} s ∧ ¬ OnOwnBook s := by
  have hexec : (exec Floor.step (fun _ _ => True) {}
      ([.createSession ⟨.btc, .m5, 900⟩ (upOnly "up") .active,
        .createSession ⟨.btc, .m5, 1200⟩ (upOnly "up") .prefetch] ++
        takeOrder ⟨.btc, .m5, 1200⟩ 1 7)).any
      fun s => (s.service.consumer.orderToBo.get? 7).isSome &&
        (s.service.manager.bookAt ⟨.btc, .m5, 1200⟩ .up).any fun b =>
          b.virtualOrders.any (fun o => o.orderId = 7) && b.stateChangeCallbacks = 0 := by
    decide +kernel
  obtain ⟨s, hs, hcheck⟩ := (Option.any_eq_true _ _).mp hexec
  obtain ⟨htracked, hbook⟩ := Bool.and_eq_true_iff.mp hcheck
  obtain ⟨b, hb, hcheck⟩ := (Option.any_eq_true _ _).mp hbook
  simp only [Bool.and_eq_true, List.any_eq_true, decide_eq_true_eq] at hcheck
  obtain ⟨hmem, hzero⟩ := hcheck
  refine ⟨s, run_of_exec hs, fun hall => ?_⟩
  obtain ⟨hone, -⟩ := hall 7 htracked _ _ b hb hmem
  rw [hzero] at hone
  cases hone

end

end PolyArena
