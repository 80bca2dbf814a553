import PolyArena.MatchingEngine.Actions
import PolyArena.MatchingEngine.Placement
import PolyArena.OrderConsumer.Process

/-!
# Entering an order

What the consumer leaves behind when a session takes an order: `enterPrefilled_order` for an order
that is already filled and `enterStandard_order` for one to be matched.  Both find the order in the
book of the session, with the terms and the conditions of its request, and under its row in
`_order_to_bo`.  `enterPrefilled_books` and `enterStandard_books` say that the other books keep
their orders and history, and `enterPrefilled_sane` and `enterStandard_sane` that all books stay
sound.
-/

namespace PolyArena

open ShadowOrderbook

section

variable {s : FeedService} {now : Time} {session : SessionEngine} {token : String} {boId : ℕ}
  {id : OrderId} {dir dir' : Direction} {b b' : ShadowOrderbook} {sid : SessionId}

/-- What is registered anew is the order's own row. -/
theorem tracked_set {d : SortedDict OrderId ℕ} {k : OrderId} {v : ℕ}
    (h : (d.set id boId).get? k = some v) : d.get? k = some v ∨ k = id ∧ v = boId := by
  by_cases hk : k = id
  · subst hk
    rw [SortedDict.get?_set_self] at h
    exact .inr ⟨rfl, (Option.some.inj h).symm⟩
  · rw [SortedDict.get?_set_ne hk] at h
    exact .inl h

/-- What an order that was entered is in the service afterwards. -/
structure Entered (s : FeedService) (sid : SessionId) (dir : Direction) (boId : ℕ)
    (o : SimulatedOrder) (b : ShadowOrderbook) : Prop where
  book : s.manager.bookAt sid dir = some b
  tracked : s.consumer.orderToBo.get? o.orderId = some boId
  mem : o ∈ b.virtualOrders
  unique : ∀ x ∈ b.virtualOrders, x.orderId = o.orderId → x = o

/-! ## The other books -/

/-- The service has a book only where it had one, with the same orders and history, except at one
place. -/
def SameBooksBut (s' s : FeedService) (sid : SessionId) (dir : Direction) : Prop :=
  ∀ sid' dir' b', s'.manager.bookAt sid' dir' = some b' → ¬ (sid' = sid ∧ dir' = dir) →
    ∃ b, s.manager.bookAt sid' dir' = some b ∧ b'.virtualOrders = b.virtualOrders ∧
      b'.history = b.history

theorem bookAt_setBook_isSome {m : SessionManager}
    (hs : m.getSession session.sessionId = some session) (hb : session.books dir = some b) :
    ((m.setBook session dir b').bookAt sid dir').isSome = (m.bookAt sid dir').isSome := by
  by_cases hsame : sid = session.sessionId ∧ dir' = dir
  · obtain ⟨rfl, rfl⟩ := hsame
    rw [bookAt_setBook_self hs hb, SessionManager.bookAt, hs, Option.bind_some, hb]
    rfl
  · rw [bookAt_setBook_ne hs _ hsame]

theorem track_bookAt_isSome (s : FeedService) (token : String) (boId : ℕ) (o : SimulatedOrder) :
    ((s.track token boId o).manager.bookAt sid dir).isSome = (s.manager.bookAt sid dir).isSome := by
  unfold FeedService.track
  dsimp only
  split
  · rfl
  · next x heq =>
    obtain ⟨hs, hb⟩ := getBook_spec heq
    split
    · exact bookAt_setBook_isSome hs hb
    · exact bookAt_setBook_isSome hs hb

/-- Work on one book, and tracking. -/
theorem sameBooksBut_track {o : SimulatedOrder} {c : OrderConsumer}
    (hs : s.manager.getSession session.sessionId = some session) :
    SameBooksBut (FeedService.track ⟨s.manager.setBook session dir b', c⟩ token boId o) s
      session.sessionId dir := by
  intro sid' dir'' b'' hbook hne
  have hsome : ((s.manager.setBook session dir b').bookAt sid' dir'').isSome = true := by
    rw [← track_bookAt_isSome ⟨s.manager.setBook session dir b', c⟩ token boId o, hbook]
    rfl
  obtain ⟨b₁, hb₁⟩ := Option.isSome_iff_exists.mp hsome
  obtain ⟨b₂, hb₂, horders, hhistory⟩ := FeedService.track_bookAt
    (s := ⟨s.manager.setBook session dir b', c⟩) token boId o hb₁
  obtain rfl : b₂ = b'' := Option.some.inj (hb₂.symm.trans hbook)
  exact ⟨b₁, (bookAt_setBook_ne hs b' hne).symm.trans hb₁, horders, hhistory⟩

/-! ## Sound books -/

/-- The invariants of a book, which its orders and its history decide. -/
structure Sane (b : ShadowOrderbook) : Prop where
  inv : CoreInv b.core
  balance : BooksBalance b.core

/-- All books of the service are sound. -/
def FeedService.SaneBooks (s : FeedService) : Prop :=
  ∀ sid dir b, s.manager.bookAt sid dir = some b → Sane b

theorem Sane.congr (h : Sane b) (horders : b'.virtualOrders = b.virtualOrders)
    (hhistory : b'.history = b.history) : Sane b' := by
  have hcore : b'.core.orders = b.core.orders := horders
  have hrecords : b'.core.history = b.core.history := hhistory
  refine ⟨⟨?_, ?_, ?_⟩, ⟨?_, ?_, ?_⟩⟩
  · exact hcore ▸ h.inv.ok
  · exact hcore ▸ h.inv.nodup
  · exact hcore ▸ hrecords ▸ h.inv.placed
  · exact hcore ▸ hrecords ▸ h.balance.filled
  · exact hcore ▸ hrecords ▸ h.balance.entryCost
  · exact hrecords ▸ h.balance.known

theorem Sane.of_effects (h : Sane b) (he : Effects b.core b'.core) : Sane b' :=
  ⟨effects_inv h.inv he, effects_balance h.inv h.balance he⟩

theorem Sane.of_empty (he : Effects emptyCore b.core) : Sane b :=
  ⟨effects_inv emptyCore_inv he, effects_balance emptyCore_inv emptyCore_balance he⟩

theorem resetFillLevels_mem {x : SimulatedOrder} {k : OrderId}
    (h : x ∈ (b.resetFillLevels k).virtualOrders) :
    ∃ y ∈ b.virtualOrders, y.orderId = x.orderId ∧
      (y.orderId = k → x = { y with fillLevels := [] }) ∧
      (y.orderId ≠ k → x = y) := by
  obtain ⟨y, hy, rfl⟩ := List.mem_map.mp h
  refine ⟨y, hy, ?_⟩
  split
  · next hk => exact ⟨rfl, fun _ => rfl, fun hne => absurd hk hne⟩
  · next hne => exact ⟨rfl, fun hk => absurd hk hne, fun _ => rfl⟩

theorem Sane.resetFillLevels (h : Sane b) (k : OrderId) : Sane (b.resetFillLevels k) := by
  have hfrom : ∀ x ∈ (b.resetFillLevels k).virtualOrders, ∃ y ∈ b.virtualOrders,
      x = { y with fillLevels := x.fillLevels } := by
    intro x hx
    obtain ⟨y, hy, -, heq, hne⟩ := resetFillLevels_mem hx
    by_cases hk : y.orderId = k
    · exact ⟨y, hy, by rw [heq hk]⟩
    · exact ⟨y, hy, by rw [hne hk]⟩
  refine ⟨⟨fun x hx => ?_, ?_, fun x hx => ?_⟩, ⟨fun x hx => ?_, fun x hx => ?_, h.balance.known⟩⟩
  · obtain ⟨y, hy, hxy⟩ := hfrom x hx
    obtain ⟨h₁, h₂, h₃, h₄, h₅, h₆⟩ := h.inv.ok y hy
    rw [hxy]
    exact ⟨h₁, h₂, h₃, h₄, h₅, h₆⟩
  · have hids : (b.resetFillLevels k).virtualOrders.map SimulatedOrder.orderId =
        b.virtualOrders.map SimulatedOrder.orderId := by
      rw [ShadowOrderbook.resetFillLevels, List.map_map]
      refine List.map_congr_left fun o _ => ?_
      rw [Function.comp_apply]
      split <;> rfl
    exact hids ▸ h.inv.nodup
  · obtain ⟨y, hy, hxy⟩ := hfrom x hx
    rw [hxy]
    exact h.inv.placed y hy
  · obtain ⟨y, hy, hxy⟩ := hfrom x hx
    rw [hxy]
    exact h.balance.filled y hy
  · obtain ⟨y, hy, hxy⟩ := hfrom x hx
    rw [hxy]
    exact h.balance.entryCost y hy

/-- Books that are sound at one place and the same elsewhere. -/
theorem SameBooksBut.sane {s' : FeedService} (h : SameBooksBut s' s sid dir) (hsane : s.SaneBooks)
    (hb : s'.manager.bookAt sid dir = some b') (hb' : Sane b') : s'.SaneBooks := by
  intro sid' dir' b'' hbook
  by_cases hsame : sid' = sid ∧ dir' = dir
  · obtain ⟨rfl, rfl⟩ := hsame
    obtain rfl : b' = b'' := Option.some.inj (hb.symm.trans hbook)
    exact hb'
  · obtain ⟨b₀, hb₀, horders, hhistory⟩ := h sid' dir' b'' hbook hsame
    exact (hsane sid' dir' b₀ hb₀).congr horders hhistory

/-! ## Already filled -/

/-- **A filled order is registered** with the conditions of its request. -/
theorem enterPrefilled_order (now : Time) (boId : ℕ) {r : PrefilledRequest}
    (hs : s.manager.getSession session.sessionId = some session)
    (hb : session.bookForPrefilled token = some (dir, b)) (hinv : CoreInv b.core)
    (hfresh : .placed id ∉ b.history) :
    ∃ o b', Entered (s.enterPrefilled now session token boId r id) session.sessionId dir boId o b' ∧
      SameTerms (r.newOrder now id) o ∧ o.conditions = (r.newOrder now id).conditions ∧
      o = (b.placePrefilledBracketOrder now id r).order := by
  unfold FeedService.enterPrefilled
  rw [hb]
  dsimp only
  obtain ⟨o, horders, ho, hterms⟩ := placedPrefilled_order id (t := now) (b := b) (r := r)
  have hid : o.orderId = id := hterms.orderId
  have hconditions : o.conditions = (r.newOrder now id).conditions :=
    ho ▸ placedPrefilled_conditions
  have hset := bookAt_setBook_self hs (bookForPrefilled_spec hb)
    (b.placePrefilledBracketOrder now id r).book
  generalize s.manager.setBook session dir (b.placePrefilledBracketOrder now id r).book =
    manager at hset ⊢
  obtain ⟨b', hb', horders', -⟩ :=
    FeedService.track_bookAt (s := ⟨manager, s.consumer⟩) token boId o hset
  have hlist : b'.virtualOrders = b.virtualOrders ++ [o] := horders'.trans horders
  refine ⟨o, b', ⟨?_, ?_, ?_, ?_⟩, hterms, hconditions, ho.symm⟩
  · rw [ho, FeedService.publishExits_manager]
    exact hb'
  · rw [ho, FeedService.publishExits_orderToBo, FeedService.track_orderToBo]
    exact SortedDict.get?_set_self _ _ _
  · simp [hlist]
  · intro x hx hxid
    rw [hlist] at hx
    rcases List.mem_append.mp hx with hx | hx
    · -- an order that was there has another id
      exact absurd (hid ▸ hxid ▸ hinv.placed x hx) hfresh
    · exact List.mem_singleton.mp hx

/-- The book that registered the order, and the others. -/
theorem enterPrefilled_books (now : Time) (boId : ℕ) (id : OrderId) (r : PrefilledRequest)
    (hs : s.manager.getSession session.sessionId = some session)
    (hb : session.bookForPrefilled token = some (dir, b)) :
    (∃ b', (s.enterPrefilled now session token boId r id).manager.bookAt
        session.sessionId dir = some b' ∧
      b'.virtualOrders = (b.placePrefilledBracketOrder now id r).book.virtualOrders ∧
      b'.history = (b.placePrefilledBracketOrder now id r).book.history) ∧
      SameBooksBut (s.enterPrefilled now session token boId r id) s session.sessionId dir := by
  unfold FeedService.enterPrefilled
  rw [hb]
  dsimp only
  refine ⟨?_, fun sid' dir' b' h hne => ?_⟩
  · rw [FeedService.publishExits_manager]
    exact FeedService.track_bookAt token boId _
      (bookAt_setBook_self hs (bookForPrefilled_spec hb) _)
  · rw [FeedService.publishExits_manager] at h
    exact sameBooksBut_track hs sid' dir' b' h hne

/-- A registration leaves sound books. -/
theorem enterPrefilled_sane {r : PrefilledRequest}
    (hs : s.manager.getSession session.sessionId = some session) (hsane : s.SaneBooks)
    (hfresh : ∀ b, s.manager.bookAt session.sessionId dir = some b → .placed id ∉ b.history)
    (hb : session.bookForPrefilled token = some (dir, b)) :
    (s.enterPrefilled now session token boId r id).SaneBooks := by
  have hat : s.manager.bookAt session.sessionId dir = some b :=
    bookAt_of_books hs (bookForPrefilled_spec hb)
  obtain ⟨⟨b', hb', horders, hhistory⟩, hsame⟩ := enterPrefilled_books now boId id r hs hb
  have hplaced : Sane (b.placePrefilledBracketOrder now id r).book :=
    (hsane _ _ b hat).of_effects (works_effects (works_placePrefilled (hfresh b hat)))
  exact hsame.sane hsane hb' (hplaced.congr horders hhistory)

/-- A registration is recorded. -/
theorem prefill_of_placePrefilled {r : PrefilledRequest} :
    .prefill id r.avgEntryPrice r.filled ∈
      (b.placePrefilledBracketOrder now id r).book.history := by
  have hplaced : Gains (fun r => r.isExitFill = true)
    (.prefill id r.avgEntryPrice r.filled :: .placed id ::
      b.history) (b.placePrefilledBracketOrder now id r).book.history := gains_checkNewBracket
  obtain ⟨recs, hrecs, -⟩ := hplaced
  rw [hrecs]
  exact List.mem_append_right _ List.mem_cons_self

/-- Only the new order is registered, for the row. -/
theorem enterPrefilled_tracked {r : PrefilledRequest} {k : OrderId} {v : ℕ}
    (h : (s.enterPrefilled now session token boId r id).consumer.orderToBo.get? k = some v) :
    s.consumer.orderToBo.get? k = some v ∨ k = id ∧ v = boId := by
  unfold FeedService.enterPrefilled at h
  cases hb : session.bookForPrefilled token with
  | none =>
    rw [hb] at h
    exact .inl h
  | some x =>
    rw [hb] at h
    dsimp only at h
    rw [FeedService.publishExits_orderToBo, FeedService.track_orderToBo] at h
    have hid : (x.2.placePrefilledBracketOrder now id r).order.orderId = id := by
      obtain ⟨o, -, ho, hterms⟩ := placedPrefilled_order id (t := now) (b := x.2) (r := r)
      rw [ho]
      exact hterms.orderId
    rw [hid] at h
    exact tracked_set h

/-! ## To be matched -/

theorem tracked_of_onStateChanges {c : OrderConsumer} {k : OrderId} {v : ℕ}
    (es : List OrderStateChangeEvent) (h : (c.onStateChanges es).orderToBo.get? k = some v) :
    c.orderToBo.get? k = some v := by
  induction es generalizing c with
  | nil => exact h
  | cons e es ih => exact tracked_of_onStateChange (ih h)

theorem publishImmediateFill_orderToBo {c : OrderConsumer} {o : SimulatedOrder} :
    (c.publishImmediateFill o boId).orderToBo = c.orderToBo := by
  unfold OrderConsumer.publishImmediateFill
  split <;> rfl

theorem tracked_of_publishImmediateCancel {c : OrderConsumer} {o : SimulatedOrder} {v : ℕ}
    {k : OrderId} (h : (c.publishImmediateCancel o boId).orderToBo.get? k = some v) :
    c.orderToBo.get? k = some v := by
  unfold OrderConsumer.publishImmediateCancel at h
  split at h
  · by_cases hk : k = o.orderId
    · subst hk
      rw [OrderConsumer.forget, SortedDict.get?_erase_self] at h
      cases h
    · rwa [OrderConsumer.forget, SortedDict.get?_erase_ne hk] at h
  · exact h

/-- What a LIMIT order that was entered is: its terms and conditions, and what it has bought. -/
structure EnteredLimit (now : Time) (id : OrderId) (r : OrderRequest) (o : SimulatedOrder)
    (h : List BookRecord) : Prop where
  terms : SameTerms (r.newOrder now id) o
  conditions : o.conditions = (r.newOrder now id).conditions
  status : o.status ≠ .canceled
  filled : o.filled = filledOf id h
  ok : OrderOk o

/-- The fill levels are not part of it. -/
theorem EnteredLimit.resetFillLevels {r : OrderRequest} {o : SimulatedOrder} {h : List BookRecord}
    (ho : EnteredLimit now id r o h) : EnteredLimit now id r { o with fillLevels := [] } h where
  terms := ho.terms.trans ⟨rfl, rfl, rfl, rfl, rfl⟩
  conditions := ho.conditions
  status := ho.status
  filled := ho.filled
  ok := ⟨ho.ok.filled_nonneg, ho.ok.filled_le, ho.ok.status, ho.ok.exited_nonneg, ho.ok.exited_le,
    ho.ok.exited_lt⟩

/-- **A LIMIT order is entered** with the terms and the conditions of its request. -/
theorem enterStandard_order (now : Time) (boId : ℕ) {r : OrderRequest}
    (hs : s.manager.getSession session.sessionId = some session)
    (hb : session.bookForOrder token = some (dir, b)) (hinv : CoreInv b.core)
    (hbal : BooksBalance b.core) (hfresh : .placed id ∉ b.history) (hq : 0 < r.quantity)
    (hlimit : r.orderType = .limit) :
    ∃ o b', Entered (s.enterStandard now session token boId r id) session.sessionId dir boId o b' ∧
      EnteredLimit now id r o b'.history := by
  obtain ⟨hmem, hterms, hstatus, hfilled, hok⟩ := placed_order (t := now) hinv hbal hfresh hq hlimit
  have hconditions := placed_conditions b now id hq
  have heff := effects_placeVirtualOrder (t := now) hinv hfresh hq
  have hnodup := (effects_inv hinv heff).nodup
  unfold FeedService.enterStandard
  rw [hb]
  dsimp only
  replace hnodup :
      ((b.placeVirtualOrder now id r).book.virtualOrders.map SimulatedOrder.orderId).Nodup :=
    hnodup
  generalize b.placeVirtualOrder now id r =
    placed at hmem hterms hstatus hfilled hok hconditions hnodup ⊢
  have hid : placed.order.orderId = id := hterms.orderId
  have hentered : EnteredLimit now id r placed.order placed.book.history :=
    ⟨hterms, hconditions, hstatus, hfilled, hok⟩
  have hunique : ∀ x ∈ placed.book.virtualOrders, x.orderId = id →
      x = placed.order := fun x hx hxid =>
    List.inj_on_of_nodup_map hnodup hx hmem (hxid.trans hid.symm)
  -- the order in the book that is stored
  obtain ⟨b₁, hb₁, o, ho, hoid, hlimited, hone⟩ : ∃ b₁,
      b₁ = (if 0 < placed.order.filled then placed.book.resetFillLevels id else placed.book) ∧
        ∃ o ∈ b₁.virtualOrders, o.orderId = id ∧ EnteredLimit now id r o b₁.history ∧
          ∀ x ∈ b₁.virtualOrders, x.orderId = id → x = o := by
    refine ⟨_, rfl, ?_⟩
    split
    · refine ⟨{ placed.order with fillLevels := [] }, List.mem_map.mpr ⟨_, hmem, if_pos hid⟩, hid,
        hentered.resetFillLevels, fun x hx hxid => ?_⟩
      obtain ⟨y, hy, hyid, hreset, -⟩ := resetFillLevels_mem hx
      rw [hreset (hyid.trans hxid), hunique y hy (hyid.trans hxid)]
    · exact ⟨placed.order, hmem, hid, hentered, hunique⟩
  rw [← hb₁]
  have hset := bookAt_setBook_self hs (bookForOrder_spec hb) b₁
  generalize s.manager.setBook session dir b₁ = manager at hset ⊢
  generalize ((s.consumer.onStateChanges _).publishImmediateFill placed.order boId) = c
  obtain ⟨b', hb', horders, hhistory⟩ := FeedService.track_bookAt (s := ⟨manager, c⟩) token boId
    placed.order hset
  refine ⟨o, b', ⟨?_, ?_, ?_, ?_⟩, ?_⟩
  · rw [FeedService.publishExits_manager]
    exact hb'
  · rw [FeedService.publishExits_orderToBo]
    unfold OrderConsumer.publishImmediateCancel
    rw [if_neg hstatus, FeedService.track_orderToBo, hid, hoid]
    exact SortedDict.get?_set_self _ _ _
  · rw [horders]
    exact ho
  · rw [horders, hoid]
    exact hone
  · rw [hhistory]
    exact hlimited

/-- A placement records no order as already filled. -/
theorem prefill_of_place {r : OrderRequest} {k : OrderId} {p q : ℚ}
    (h : .prefill k p q ∈ (b.placeVirtualOrder now id r).book.history) :
    .prefill k p q ∈ b.history := by
  have hplaced : Gains (fun x : BookRecord => ∀ k p q, x ≠ .prefill k p q) b.history
      (.placed id :: b.history) := .cons fun _ _ _ h => nomatch h
  have hmatched : Gains (fun x : BookRecord => ∀ k p q, x ≠ .prefill k p q)
      (.placed id :: b.history)
      (matchOrder now { b with history := .placed id :: b.history }
        (r.newOrder now id)).1.history := by
    refine (gains_matchOrder now { b with history := .placed id :: b.history } _).mono ?_
    rintro x ⟨-, hx⟩ k p q rfl
    exact nomatch hx
  have hchecked : Gains (fun x : BookRecord => ∀ k p q, x ≠ .prefill k p q) b.history
      (b.placeVirtualOrder now id r).book.history := by
    refine (hplaced.trans hmatched).trans (gains_checkNewBracket.mono ?_)
    rintro x hx k p q rfl
    cases hx
  rcases hchecked.mem h with hnew | hold
  · exact absurd rfl (hnew k p q)
  · exact hold

/-- The book that took the order, and the others. -/
theorem enterStandard_books (now : Time) (boId : ℕ) (id : OrderId) (r : OrderRequest)
    (hs : s.manager.getSession session.sessionId = some session)
    (hb : session.bookForOrder token = some (dir, b)) :
    (∃ b₁ b', (b₁ = (b.placeVirtualOrder now id r).book ∨
        b₁ = (b.placeVirtualOrder now id r).book.resetFillLevels id) ∧
      (s.enterStandard now session token boId r id).manager.bookAt session.sessionId dir = some b' ∧
      b'.virtualOrders = b₁.virtualOrders ∧ b'.history = b₁.history) ∧
      SameBooksBut (s.enterStandard now session token boId r id) s session.sessionId dir := by
  unfold FeedService.enterStandard
  rw [hb]
  dsimp only
  refine ⟨?_, fun sid' dir' b' h hne => ?_⟩
  · rw [FeedService.publishExits_manager]
    obtain ⟨b', hb', horders, hhistory⟩ := FeedService.track_bookAt (s := ⟨_, _⟩) token boId
      (b.placeVirtualOrder now id r).order (bookAt_setBook_self hs (bookForOrder_spec hb) _)
    refine ⟨_, b', ?_, hb', horders, hhistory⟩
    split
    · exact .inr rfl
    · exact .inl rfl
  · rw [FeedService.publishExits_manager] at h
    exact sameBooksBut_track hs sid' dir' b' h hne

/-- A placement leaves sound books. -/
theorem enterStandard_sane {r : OrderRequest}
    (hs : s.manager.getSession session.sessionId = some session) (hsane : s.SaneBooks)
    (hfresh : ∀ b, s.manager.bookAt session.sessionId dir = some b → .placed id ∉ b.history)
    (hb : session.bookForOrder token = some (dir, b)) (hq : 0 < r.quantity) :
    (s.enterStandard now session token boId r id).SaneBooks := by
  have hat : s.manager.bookAt session.sessionId dir = some b :=
    bookAt_of_books hs (bookForOrder_spec hb)
  obtain ⟨⟨b₁, b', hb₁, hb', horders, hhistory⟩, hsame⟩ := enterStandard_books now boId id r hs hb
  have hbook := hsane _ _ b hat
  have hplaced : Sane (b.placeVirtualOrder now id r).book :=
    hbook.of_effects (effects_placeVirtualOrder hbook.inv (hfresh b hat) hq)
  refine hsame.sane hsane hb' (Sane.congr ?_ horders hhistory)
  rcases hb₁ with rfl | rfl
  · exact hplaced
  · exact hplaced.resetFillLevels id

/-- Only the new order is registered, for the row. -/
theorem enterStandard_tracked {r : OrderRequest} {k : OrderId} {v : ℕ}
    (hq : 0 < r.quantity)
    (h : (s.enterStandard now session token boId r id).consumer.orderToBo.get? k = some v) :
    s.consumer.orderToBo.get? k = some v ∨ k = id ∧ v = boId := by
  unfold FeedService.enterStandard at h
  cases hb : session.bookForOrder token with
  | none =>
    rw [hb] at h
    exact .inl h
  | some x =>
    rw [hb] at h
    dsimp only at h
    rw [FeedService.publishExits_orderToBo] at h
    replace h := tracked_of_publishImmediateCancel h
    rw [FeedService.track_orderToBo, placed_orderId hq] at h
    rcases tracked_set h with h | h
    · rw [publishImmediateFill_orderToBo] at h
      exact .inl (tracked_of_onStateChanges _ h)
    · exact .inr h

end

end PolyArena
