import PolyArena.MatchingEngine.LiveOrders
import PolyArena.MatchingEngine.StateChanges
import PolyArena.WsFeedService.SessionLifecycle

/-!
# What happens to the books of the sessions

1. `Kept b' b`: the book `b'` came from `b` by work that placed nothing, kept what was reported of
   its orders and left the callbacks.  `kept_apply` says so of every operation of the loop thread.
2. `KeepsBooks m' m`: every book of `m'` is kept from the one at its place in `m`.
3. `bookAt_createSession` and `bookAt_transitionSession`: where the books of a new session, and of
   one that was moved on, come from.
-/

namespace PolyArena

open ShadowOrderbook

/-- The operations of the loop thread: it places no orders, and only the consumer seeds a book and
attaches the callback. -/
def BookAction.ofLoop : BookAction → Bool
  | .place .. | .placePrefilled .. | .seedLastReported .. | .registerStateChangeCallback => false
  | _ => true

/-- Work that places nothing and keeps the reports and the callbacks. -/
structure Kept (b' b : ShadowOrderbook) : Prop where
  inv : BookInv b'
  callbacks : b'.stateChangeCallbacks = b.stateChangeCallbacks
  placed : ∀ k, .placed k ∈ b'.history → .placed k ∈ b.history
  orders : ∀ o' ∈ b'.virtualOrders, ∃ o ∈ b.virtualOrders, o.orderId = o'.orderId ∧
    ((b.lastReported.get? o.orderId).isSome → (b'.lastReported.get? o'.orderId).isSome)

section

variable {b b' b'' c : ShadowOrderbook} {now : Time} {a : BookAction} {id : OrderId}

theorem Kept.refl (h : BookInv b) : Kept b b := ⟨h, rfl, fun _ => id, fun o ho => ⟨o, ho, rfl, id⟩⟩

theorem Kept.trans (h' : Kept b'' b') (h : Kept b' b) : Kept b'' b := by
  refine ⟨h'.inv, h'.callbacks.trans h.callbacks, fun k hk => h.placed k (h'.placed k hk),
    fun o'' ho'' => ?_⟩
  obtain ⟨o', ho', hid', hkeep'⟩ := h'.orders o'' ho''
  obtain ⟨o, ho, hid, hkeep⟩ := h.orders o' ho'
  exact ⟨o, ho, hid.trans hid', fun hsome => hkeep' (hkeep hsome)⟩

/-- After a collection every order has been reported. -/
theorem reported_collect (h : BookInv b) : ∀ o ∈ b.collectStateChanges.1.virtualOrders,
    (b.collectStateChanges.1.lastReported.get? o.orderId).isSome := by
  intro o' ho'
  obtain ⟨o, ho, hid, -⟩ := collect_orders o' ho'
  have hlive : o.orderId ∈ b.virtualOrders.map SimulatedOrder.orderId := List.mem_map_of_mem ho
  have hreported : (collectOrders b.lastReported b.virtualOrders).1.get? o.orderId =
      some (o.filled, o.status) := (collectOrders_present h.core.nodup ho).2.1
  show ((SortedDict.filterKeys _ _).get? o'.orderId).isSome
  rw [hid, SortedDict.get?_filterKeys, if_pos (by simpa using hlive), hreported]
  rfl

theorem ofLoop_brings (ha : a.ofLoop = true) : a.brings = false := by
  cases a <;> first | rfl | cases ha

theorem callbacks_ofLoop (ha : a.ofLoop = true) :
    (a.apply now b).stateChangeCallbacks = b.stateChangeCallbacks := by
  cases a with
  | feed op => exact feedOp_callbacks op
  | forceClose id =>
    show (b.forceCloseAtMarket now id).1.stateChangeCallbacks = _
    unfold forceCloseAtMarket
    split
    · rfl
    · split
      · rfl
      · split <;> rfl
  | cancelOrder id =>
    show (b.cancelOrder id).1.stateChangeCallbacks = _
    unfold cancelOrder
    split
    · rfl
    · split <;> rfl
  | depth side levels =>
    show (b.depth side levels).2.stateChangeCallbacks = _
    unfold depth
    split <;> rfl
  | cancelAllVirtual => rfl
  | expirePendingOrders => rfl
  | _ => cases ha

/-- An operation that does not seed keeps what was reported of the orders it leaves. -/
theorem reported_apply (h : BookInv b) (hallowed : a.Allowed b)
    (hseed : (ReporterAction.operate a).seeds = false) : BookInv (a.apply now b) ∧
      ∀ o ∈ (a.apply now b).virtualOrders, (b.lastReported.get? o.orderId).isSome →
        ((a.apply now b).lastReported.get? o.orderId).isSome := by
  have hbook := collection_book now h.core hallowed hseed
  cases hc : a.collection now b with
  | none =>
    rw [hc] at hbook
    refine ⟨h.of_works hbook.1 hbook.2, fun o _ hsome => ?_⟩
    rw [hbook.2]
    exact hsome
  | some c =>
    rw [hc] at hbook
    have hinv := h.of_works hbook.1 hbook.2.1
    rcases hbook.2.2 with heq | heq
    · rw [heq]
      exact ⟨hinv.collect, fun o ho _ => reported_collect hinv o ho⟩
    · rw [heq]
      refine ⟨hinv.collect.cleanup, fun o ho _ => ?_⟩
      rw [cleanup_lastReported]
      obtain ⟨x, hx, hrest⟩ := restOf_of_mem (restOfBook_cleanup (t := now)) ho
      rw [hrest.orderId]
      exact reported_collect hinv x hx

/-- **The loop thread's operations** place nothing and lose no report. -/
theorem kept_apply (h : BookInv b) (ha : a.ofLoop = true) : Kept (a.apply now b) b := by
  have hallowed : a.Allowed b := by
    cases a <;> first | exact trivial | cases ha
  have hseed : (ReporterAction.operate a).seeds = false := by
    cases a <;> first | rfl | cases ha
  obtain ⟨hinv, hreported⟩ : BookInv (a.apply now b) ∧ _ := reported_apply h hallowed hseed
  refine ⟨hinv, callbacks_ofLoop ha, fun k hk => ?_, fun o' ho' => ?_⟩
  · rcases (gains_unplaced (ofLoop_brings ha)).mem hk with hnew | hold
    · exact absurd rfl (hnew k)
    · exact hold
  · obtain ⟨o, ho, hrest⟩ := restOf_of_mem (restOfBook_apply h.core.nodup (ofLoop_brings ha)) ho'
    refine ⟨o, ho, hrest.orderId.symm, fun hsome => hreported o' ho' ?_⟩
    rwa [hrest.orderId]

theorem kept_resetFillLevels (h : BookInv b) : Kept (b.resetFillLevels id) b := by
  refine ⟨h.resetFillLevels id, rfl, fun _ => (·), fun o' ho' => ?_⟩
  obtain ⟨o, ho, rfl⟩ := List.mem_map.mp ho'
  refine ⟨o, ho, ?_, fun hsome => ?_⟩
  · split <;> rfl
  · show (b.lastReported.get? _).isSome
    split <;> exact hsome

end

/-! ## The books of a manager -/

/-- Every book of `m'` is kept from the one at its place in `m`. -/
def KeepsBooks (m' m : SessionManager) : Prop :=
  ∀ sid dir b', m'.bookAt sid dir = some b' →
    ∃ b, m.bookAt sid dir = some b ∧ (BookInv b → Kept b' b)

section

variable {m m' m'' : SessionManager} {s : SessionEngine} {sid sid' : SessionId}
  {dir dir' : Direction} {b b' : ShadowOrderbook} {state : SessionState}
  {tokens : Direction → Option String} {assetId : String} {f : ShadowOrderbook → ShadowOrderbook}

theorem KeepsBooks.refl (m : SessionManager) : KeepsBooks m m := fun _ _ b hb => ⟨b, hb, Kept.refl⟩

theorem KeepsBooks.trans (h' : KeepsBooks m'' m') (h : KeepsBooks m' m) : KeepsBooks m'' m := by
  intro sid dir b'' hb''
  obtain ⟨b', hb', hkept'⟩ := h' sid dir b'' hb''
  obtain ⟨b, hb, hkept⟩ := h sid dir b' hb'
  exact ⟨b, hb, fun hinv => (hkept' (hkept hinv).inv).trans (hkept hinv)⟩

theorem keepsBooks_setBook (hs : m.getSession s.sessionId = some s) (hb : s.books dir = some b)
    (h : BookInv b → Kept b' b) : KeepsBooks (m.setBook s dir b') m := by
  intro sid' dir' b'' hb''
  rcases bookAt_setBook_cases hs hb hb'' with ⟨rfl, rfl, rfl⟩ | ⟨-, hb''⟩
  · refine ⟨b, ?_, h⟩
    exact bookAt_of_books hs hb
  · exact ⟨b'', hb'', Kept.refl⟩

/-- A new session has new books. -/
theorem bookAt_createSession (h : (m.createSession sid' tokens state).bookAt sid dir = some b) :
    m.bookAt sid dir = some b ∨ ∃ token, b = { tokenId := token } := by
  unfold SessionManager.createSession at h
  split at h
  · exact .inl h
  · unfold SessionManager.bookAt SessionManager.getSession Table.get Table.insert at h
    rw [List.find?_append] at h
    cases hfound : m.engines.rows.find? fun s => s.sessionId = sid with
    | some session =>
      rw [hfound, Option.some_or] at h
      left
      rw [SessionManager.bookAt, SessionManager.getSession, Table.get, hfound]
      exact h
    | none =>
      rw [hfound, Option.none_or] at h
      right
      obtain ⟨session, hsession, hbook⟩ := Option.bind_eq_some_iff.mp h
      obtain rfl : session = SessionEngine.create sid' tokens state :=
        List.mem_singleton.mp (List.mem_of_find?_eq_some hsession)
      obtain ⟨token, -, rfl⟩ := Option.map_eq_some_iff.mp hbook
      exact ⟨token, rfl⟩

@[simp] theorem transition_sessionId : (s.transition state).sessionId = s.sessionId := by
  unfold SessionEngine.transition
  split
  · rfl
  · cases state <;> rfl

/-- A transition leaves the books of a session, expires them or drops them. -/
theorem books_transition (h : (s.transition state).books dir = some b') :
    ∃ b, s.books dir = some b ∧ (b' = b ∨ b' = b.expireBook.1) := by
  unfold SessionEngine.transition at h
  split at h
  · exact ⟨b', h, .inl rfl⟩
  · cases state with
    | settling =>
      obtain ⟨b, hb, rfl⟩ := Option.map_eq_some_iff.mp h
      exact ⟨b, hb, .inr rfl⟩
    | archived => cases h
    | _ => exact ⟨b', h, .inl rfl⟩

theorem bookAt_transitionSession (h : (m.transitionSession sid' state).bookAt sid dir = some b') :
    ∃ b, m.bookAt sid dir = some b ∧ (b' = b ∨ b' = b.expireBook.1) := by
  unfold SessionManager.transitionSession at h
  cases hs : m.getSession sid' with
  | none =>
    rw [hs] at h
    exact ⟨b', h, .inl rfl⟩
  | some s =>
    have hsid : s.sessionId = sid' := Table.key_of_get hs
    rw [hs] at h
    dsimp only at h
    obtain ⟨session', hs', hb'⟩ := Option.bind_eq_some_iff.mp h
    have hkey : session'.sessionId = sid := Table.key_of_get hs'
    have hold : session' ∈ m.engines.rows → ∃ b, m.bookAt sid dir = some b ∧
        (b' = b ∨ b' = b.expireBook.1) := by
      intro hmem
      refine ⟨b', ?_, .inl rfl⟩
      rw [SessionManager.bookAt, ← hkey, SessionManager.getSession, Table.get_of_mem hmem]
      exact hb'
    split at hs'
    · -- the session is gone
      exact hold (List.mem_of_mem_filter (Table.mem_of_get hs'))
    · rcases Table.mem_put (Table.mem_of_get hs') with rfl | ⟨hmem, -⟩
      · obtain ⟨b, hb, hbook⟩ := books_transition hb'
        refine ⟨b, ?_, hbook⟩
        rw [SessionManager.bookAt, ← hkey, transition_sessionId, hsid, hs]
        exact hb
      · exact hold hmem

theorem keepsBooks_transitionSession : KeepsBooks (m.transitionSession sid state) m := by
  intro sid' dir b' hb'
  obtain ⟨b, hb, hbook⟩ := bookAt_transitionSession hb'
  refine ⟨b, hb, fun hinv => ?_⟩
  rcases hbook with rfl | rfl
  · exact .refl hinv
  · have hkept : Kept (BookAction.apply 0 b (.feed .expireBook)) b := kept_apply hinv rfl
    exact hkept

end

end PolyArena
