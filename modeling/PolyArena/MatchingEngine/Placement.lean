import PolyArena.MatchingEngine.Feed

/-!
# What a placed order asks for

Matching an order, checking its bracket and reporting it change what it has bought, never what it
asks for (`SameTerms`).  `placed_order` says what a placement leaves in the book: the order with its
terms, open unless it was bought in full.
-/

namespace PolyArena

open Relation ShadowOrderbook

/-- The order asks for the same. -/
structure SameTerms (o o' : SimulatedOrder) : Prop where
  orderId : o'.orderId = o.orderId
  side : o'.side = o.side
  orderType : o'.orderType = o.orderType
  price : o'.price = o.price
  quantity : o'.quantity = o.quantity

/-- `tp_price`, `sl_price` and `expire_at`. -/
def SimulatedOrder.conditions (o : SimulatedOrder) : Option ℚ × Option ℚ × Option Time :=
  (o.tpPrice, o.slPrice, o.expireAt)

section

variable {o o' : SimulatedOrder} {b : ShadowOrderbook} {t : Time} {p q bid : ℚ}
  {r : SortedDict OrderId (ℚ × OrderStatus)} {os : List SimulatedOrder} {id : OrderId}

theorem SameTerms.refl (o : SimulatedOrder) : SameTerms o o := ⟨rfl, rfl, rfl, rfl, rfl⟩

theorem SameTerms.trans {o'' : SimulatedOrder} (h : SameTerms o o') (h' : SameTerms o' o'') :
    SameTerms o o'' :=
  ⟨h'.orderId.trans h.orderId, h'.side.trans h.side, h'.orderType.trans h.orderType,
    h'.price.trans h.price, h'.quantity.trans h.quantity⟩

theorem sameTerms_addFill : SameTerms o (o.addFill p q) := by
  unfold SimulatedOrder.addFill SimulatedOrder.updateStatus
  split_ifs <;> exact ⟨rfl, rfl, rfl, rfl, rfl⟩

theorem Fills.sameTerms {l l' : Ladder} {fs : List (ℚ × ℚ)} (h : Fills l o fs l' o') :
    SameTerms o o' := by
  induction h with
  | nil => exact .refl _
  | cons _ _ _ _ _ _ _ _ ih => exact sameTerms_addFill.trans ih

theorem sameTerms_lockSlippage : SameTerms o (b.lockSlippage o).1 := by
  unfold lockSlippage
  dsimp only
  split
  · exact .refl _
  · split <;> split <;> exact ⟨rfl, rfl, rfl, rfl, rfl⟩

theorem sameTerms_checkBracket : SameTerms o (checkBracket t bid b o).2.1 := by
  unfold checkBracket
  split
  · split <;> exact ⟨rfl, rfl, rfl, rfl, rfl⟩
  · exact .refl _

theorem sameTerms_checkNewBracket : SameTerms o (checkNewBracket t b o).2.1 := by
  unfold checkNewBracket
  split
  · exact .refl _
  · exact sameTerms_checkBracket

theorem checkNewBracket_status : (checkNewBracket t b o).2.1.status = o.status := by
  unfold checkNewBracket checkBracket
  split
  · rfl
  · split
    · split <;> rfl
    · rfl

/-- A LIMIT order is matched for what it asks, and not cancelled. -/
theorem matchAndCancel_limit (ho : OrderOk o) (ha : o.status.isTerminal = false)
    (hlimit : o.orderType = .limit) :
    SameTerms o (matchAndCancel t b o).2 ∧ (matchAndCancel t b o).2.status ≠ .canceled := by
  obtain ⟨l, fs, l', hf⟩ := fills_matchOrder (t := t) (b := b) ho ha
  have hterms : SameTerms o (matchOrder t b o).2 := sameTerms_lockSlippage.trans hf.sameTerms
  have hioc : (matchAndCancel t b o).2 = (matchOrder t b o).2 := by
    unfold matchAndCancel iocCancel
    refine if_neg fun h => ?_
    have := hterms.orderType.trans hlimit
    rw [h.1] at this
    cases this
  rw [hioc]
  refine ⟨hterms, hf.not_canceled ?_⟩
  rw [lockSlippage_status]
  exact not_canceled_of_active ha

/-- Collecting keeps the last order at its place. -/
theorem collectOrders_last (os : List SimulatedOrder) :
    ∃ pre o', (collectOrders r (os ++ [o])).2.1 = pre ++ [o'] ∧ (o' = o ∨ o' = o.drained) := by
  induction os generalizing r with
  | nil => exact ⟨[], _, rfl, collectOrder_order (o := o) r⟩
  | cons x os ih =>
    obtain ⟨pre, o', horders, ho'⟩ := ih (r := (collectOrder r x).1)
    exact ⟨(collectOrder r x).2.1 :: pre, o', by simp [collectOrders, horders], ho'⟩

/-- The order that a placement enters, before it is reported. -/
def enteredOrder (t : Time) (id : OrderId) (r : OrderRequest) (b : ShadowOrderbook) :
    SimulatedOrder :=
  let matched := matchAndCancel t { b with history := .placed id :: b.history } (r.newOrder t id)
  (checkNewBracket t matched.1 matched.2).2.1

/-- The order that a placement returns is the last of the book: the one it entered, reported. -/
theorem placed_last (b : ShadowOrderbook) (t : Time) (id : OrderId) (r : OrderRequest) :
    (b.placeVirtualOrder t id r).order ∈ (b.placeVirtualOrder t id r).book.virtualOrders ∧
      ((b.placeVirtualOrder t id r).order = enteredOrder t id r b ∨
        (b.placeVirtualOrder t id r).order = (enteredOrder t id r b).drained) := by
  obtain ⟨pre, o', horders, ho'⟩ := collectOrders_last b.virtualOrders
    (r := (b.enterOrder t id r).1.lastReported) (o := enteredOrder t id r b)
  replace horders : (b.placeVirtualOrder t id r).book.virtualOrders = pre ++ [o'] := horders
  have hlast : (b.placeVirtualOrder t id r).order = o' := by
    change (b.placeVirtualOrder t id r).book.virtualOrders.getLastD _ = o'
    rw [horders, List.getLastD_concat]
  rw [hlast]
  exact ⟨by simp [horders], ho'⟩

theorem matchAndCancel_orderId (ho : OrderOk o) (ha : o.status.isTerminal = false) :
    (matchAndCancel t b o).2.orderId = o.orderId := by
  obtain ⟨l, fs, l', hf⟩ := fills_matchOrder (t := t) (b := b) ho ha
  have hmatched : (matchOrder t b o).2.orderId = o.orderId :=
    (sameTerms_lockSlippage.trans hf.sameTerms).orderId
  unfold matchAndCancel iocCancel
  dsimp only
  split_ifs <;> exact hmatched

/-- A placement returns the order under its id. -/
theorem placed_orderId {r : OrderRequest} (hq : 0 < r.quantity) :
    (b.placeVirtualOrder t id r).order.orderId = id := by
  have hok : OrderOk (r.newOrder t id) := (isNew_newOrder hq).ok
  have hentered : (enteredOrder t id r b).orderId = id :=
    sameTerms_checkNewBracket.orderId.trans (matchAndCancel_orderId hok rfl)
  rcases (placed_last b t id r).2 with h | h <;> rw [h] <;> exact hentered

/-- **A LIMIT order that is placed** is in the book with its terms.  It is not cancelled, and it has
bought what the book's history says. -/
theorem placed_order {r : OrderRequest} (hinv : CoreInv b.core) (hb : BooksBalance b.core)
    (hfresh : .placed id ∉ b.history) (hq : 0 < r.quantity) (hlimit : r.orderType = .limit) :
    (b.placeVirtualOrder t id r).order ∈ (b.placeVirtualOrder t id r).book.virtualOrders ∧
      SameTerms (r.newOrder t id) (b.placeVirtualOrder t id r).order ∧
      (b.placeVirtualOrder t id r).order.status ≠ .canceled ∧
      (b.placeVirtualOrder t id r).order.filled =
        filledOf id (b.placeVirtualOrder t id r).book.history ∧
      OrderOk (b.placeVirtualOrder t id r).order := by
  have hok : OrderOk (r.newOrder t id) := (isNew_newOrder hq).ok
  obtain ⟨hmatched, hopen⟩ := matchAndCancel_limit (t := t)
    (b := { b with history := .placed id :: b.history }) hok rfl hlimit
  have heff := effects_placeVirtualOrder (t := t) hinv hfresh hq
  have hinv' : CoreInv (b.placeVirtualOrder t id r).book.core := effects_inv hinv heff
  have hbal : BooksBalance (b.placeVirtualOrder t id r).book.core := effects_balance hinv hb heff
  obtain ⟨hmem, ho'⟩ := placed_last b t id r
  generalize (b.placeVirtualOrder t id r).order = o' at hmem ho' ⊢
  have hterms : SameTerms (r.newOrder t id) o' := by
    have hchecked := hmatched.trans (sameTerms_checkNewBracket (t := t)
      (b := (matchAndCancel t { b with history := .placed id :: b.history } (r.newOrder t id)).1))
    rcases ho' with rfl | rfl
    · exact hchecked
    · exact hchecked.trans ⟨rfl, rfl, rfl, rfl, rfl⟩
  have hstatus : o'.status ≠ .canceled := by
    rcases ho' with rfl | rfl <;>
      simpa [enteredOrder, SimulatedOrder.drained, checkNewBracket_status] using hopen
  refine ⟨hmem, hterms, hstatus, ?_, hinv'.ok o' hmem⟩
  have hid : o'.orderId = id := hterms.orderId
  exact hid ▸ hbal.filled o' hmem

/-! ## Conditions

The conditions of an order are its bracket and its expiry.  Nothing that happens at a placement
changes them. -/

theorem addFill_conditions : (o.addFill p q).conditions = o.conditions := by
  unfold SimulatedOrder.addFill SimulatedOrder.updateStatus
  split_ifs <;> rfl

theorem Fills.conditions {l l' : Ladder} {fs : List (ℚ × ℚ)} (h : Fills l o fs l' o') :
    o'.conditions = o.conditions := by
  induction h with
  | nil => rfl
  | cons _ _ _ _ _ _ _ _ ih => exact ih.trans addFill_conditions

theorem lockSlippage_conditions : (b.lockSlippage o).1.conditions = o.conditions := by
  unfold lockSlippage
  dsimp only
  split
  · rfl
  · split <;> split <;> rfl

theorem checkNewBracket_conditions : (checkNewBracket t b o).2.1.conditions = o.conditions := by
  unfold checkNewBracket checkBracket
  split
  · rfl
  · split
    · split <;> rfl
    · rfl

theorem matchAndCancel_conditions (ho : OrderOk o) (ha : o.status.isTerminal = false) :
    (matchAndCancel t b o).2.conditions = o.conditions := by
  obtain ⟨l, fs, l', hf⟩ := fills_matchOrder (t := t) (b := b) ho ha
  have hmatched : (matchOrder t b o).2.conditions = o.conditions :=
    hf.conditions.trans lockSlippage_conditions
  unfold matchAndCancel iocCancel
  dsimp only
  split_ifs <;> exact hmatched

/-- A placed order keeps the conditions it was placed with. -/
theorem placed_conditions (b : ShadowOrderbook) (t : Time) (id : OrderId) {r : OrderRequest}
    (hq : 0 < r.quantity) :
    (b.placeVirtualOrder t id r).order.conditions = (r.newOrder t id).conditions := by
  have hok : OrderOk (r.newOrder t id) := (isNew_newOrder hq).ok
  have hentered : (enteredOrder t id r b).conditions = (r.newOrder t id).conditions :=
    checkNewBracket_conditions.trans (matchAndCancel_conditions hok rfl)
  rcases (placed_last b t id r).2 with h | h <;> rw [h] <;> exact hentered

/-- An order that is registered already filled joins the list with its terms. -/
theorem placedPrefilled_order (id : OrderId) {r : PrefilledRequest} :
    ∃ o, (b.placePrefilledBracketOrder t id r).book.virtualOrders = b.virtualOrders ++ [o] ∧
      (b.placePrefilledBracketOrder t id r).order = o ∧ SameTerms (r.newOrder t id) o := by
  refine ⟨_, ?_, rfl, sameTerms_checkNewBracket (t := t) (o := r.newOrder t id)
    (b := { b with history := .prefill id r.avgEntryPrice r.filled :: .placed id :: b.history })⟩
  unfold placePrefilledBracketOrder
  dsimp only
  rw [checkNewBracket_virtualOrders]

theorem placedPrefilled_conditions {r : PrefilledRequest} :
    (b.placePrefilledBracketOrder t id r).order.conditions = (r.newOrder t id).conditions :=
  checkNewBracket_conditions

end

end PolyArena
