import PolyArena.MatchingEngine.OrderRelations

/-!
# Live orders

An order is live while the book may still trade for it: it is open, or it is filled with an open
bracket.

1. `RestOf o' o`: `o'` is what is left of `o`, and no more alive (`RestOf.live`).
2. `RestOfBook b' b`: the orders of `b'` are, in their order, what is left of some of `b`.
   `restOfBook_apply` says that every operation that brings no order makes such a book, whatever the
   book is, and `oneMore_placeVirtualOrder` and `oneMore_placePrefilled` that the others add one
   order.
-/

namespace PolyArena

open ShadowOrderbook List

/-- Open, or filled with an open bracket. -/
def SimulatedOrder.isLive (o : SimulatedOrder) : Bool :=
  !o.status.isTerminal || o.isEligibleForBracket

/-- `o'` is what is left of `o`. -/
structure RestOf (o' o : SimulatedOrder) : Prop where
  orderId : o'.orderId = o.orderId
  side : o'.side = o.side
  bracket : o'.hasBracket = true → o.hasBracket = true
  closed : o.positionClosed = true → o'.positionClosed = true
  terminal : o.status.isTerminal = true → o'.status.isTerminal = true ∧ o'.filled = o.filled

/-- The orders of `b'` are what is left of some of `b`. -/
def RestOfBook (b' b : ShadowOrderbook) : Prop :=
  SublistForall₂ RestOf b'.virtualOrders b.virtualOrders

/-- What matching keeps of an order. -/
def SimulatedOrder.identity (o : SimulatedOrder) :
    OrderId × OrderSide × Option ℚ × Option ℚ × Bool :=
  (o.orderId, o.side, o.tpPrice, o.slPrice, o.positionClosed)

section

variable {b b' b'' : ShadowOrderbook} {o o' o'' : SimulatedOrder} {os os' : List SimulatedOrder}
  {t : Time} {bid : ℚ} {id : OrderId}

/-! ## One order -/

theorem RestOf.refl (o : SimulatedOrder) : RestOf o o := ⟨rfl, rfl, id, id, fun h => ⟨h, rfl⟩⟩

theorem RestOf.trans (h : RestOf o'' o') (h' : RestOf o' o) : RestOf o'' o where
  orderId := h.orderId.trans h'.orderId
  side := h.side.trans h'.side
  bracket := fun hb => h'.bracket (h.bracket hb)
  closed := fun hc => h.closed (h'.closed hc)
  terminal := fun ht => ⟨(h.terminal (h'.terminal ht).1).1,
    (h.terminal (h'.terminal ht).1).2.trans (h'.terminal ht).2⟩

instance : Std.Refl RestOf := ⟨RestOf.refl⟩

instance : IsTrans SimulatedOrder RestOf := ⟨fun _ _ _ => RestOf.trans⟩

/-- **Nothing comes alive.** -/
theorem RestOf.live (h : RestOf o' o) (hlive : o'.isLive = true) : o.isLive = true := by
  unfold SimulatedOrder.isLive at hlive ⊢
  cases hterm : o.status.isTerminal with
  | false => rfl
  | true =>
    obtain ⟨hterm', hfilled⟩ := h.terminal hterm
    rw [hterm'] at hlive
    simp only [Bool.not_true, Bool.false_or, SimulatedOrder.isEligibleForBracket,
      decide_eq_true_eq] at hlive ⊢
    obtain ⟨hside, hbracket, hpos, hclosed, -⟩ := hlive
    refine ⟨h.side ▸ hside, h.bracket hbracket, hfilled ▸ hpos, fun hc => hclosed (h.closed hc), ?_⟩
    cases hs : o.status with
    | filled => simp
    | canceled => simp
    | pending => rw [hs] at hterm; cases hterm
    | partial_ => rw [hs] at hterm; cases hterm

/-- What an open order becomes under its identity is its rest, whatever it bought. -/
theorem RestOf.of_open (ho : o.status.isTerminal = false) (h : o'.identity = o.identity) :
    RestOf o' o := by
  simp only [SimulatedOrder.identity, Prod.mk.injEq] at h
  obtain ⟨hid, hside, htp, hsl, hclosed⟩ := h
  refine ⟨hid, hside, fun hb => ?_, fun hc => hclosed.trans hc, fun ht => ?_⟩
  · unfold SimulatedOrder.hasBracket at hb ⊢
    rwa [htp, hsl] at hb
  · rw [ho] at ht
    cases ht

theorem restOf_drained : RestOf o.drained o := ⟨rfl, rfl, id, id, fun h => ⟨h, rfl⟩⟩

theorem restOf_cancelOpen : RestOf (cancelOpen o) o := by
  unfold cancelOpen
  split
  · exact .refl o
  · exact ⟨rfl, rfl, id, id, fun _ => ⟨rfl, rfl⟩⟩

theorem restOf_expireOrder : RestOf ((expireOrder t o).getD o) o := by
  unfold expireOrder
  split
  · split
    · exact ⟨rfl, rfl, id, id, fun _ => ⟨rfl, rfl⟩⟩
    · exact ⟨rfl, rfl, id, id, fun _ => ⟨rfl, rfl⟩⟩
    · split
      · exact .refl o
      · exact ⟨rfl, rfl, id, fun _ => rfl, fun h => ⟨h, rfl⟩⟩
    · exact .refl o
  · exact .refl o

theorem restOf_resolveOrder : RestOf (resolveOrder o) o := by
  unfold resolveOrder
  split
  · exact .refl o
  · have h := restOf_cancelOpen (o := o)
    exact ⟨h.orderId, h.side, nofun, fun _ => rfl, h.terminal⟩

theorem fixed_identity : Fixed SimulatedOrder.identity where
  addFill o p q := by
    unfold SimulatedOrder.addFill SimulatedOrder.updateStatus
    split_ifs <;> rfl
  slippage _ _ := rfl
  canceled _ := rfl

theorem restOf_executeBracketExit {trigger : Trigger} (hopen : o.positionClosed = false) :
    RestOf (executeBracketExit t b o bid trigger).2.1 o :=
  ⟨rfl, rfl, id, fun hc => absurd (hopen.symm.trans hc) Bool.false_ne_true, fun h => ⟨h, rfl⟩⟩

/-- **What is done to one order** leaves its rest. -/
theorem respects_restOf : Respects RestOf where
  orderId h := h.orderId
  refl := .refl
  trans := .trans
  drained _ := restOf_drained
  canceled _ := restOf_cancelOpen
  matched _ _ _ ha := .of_open ha fixed_identity.matchAndCancel
  exited _ _ _ _ _ _ hopen := restOf_executeBracketExit hopen

/-! ## A book -/

theorem restOf_of_mem (h : SublistForall₂ RestOf os' os) (ho' : o' ∈ os') :
    ∃ o ∈ os, RestOf o' o := by
  induction h with
  | nil => cases ho'
  | cons hrest _ ih =>
    rcases List.mem_cons.mp ho' with rfl | ho'
    · exact ⟨_, List.mem_cons_self, hrest⟩
    · obtain ⟨o, ho, horest⟩ := ih ho'
      exact ⟨o, List.mem_cons_of_mem _ ho, horest⟩
  | cons_right _ ih =>
    obtain ⟨o, ho, horest⟩ := ih ho'
    exact ⟨o, List.mem_cons_of_mem _ ho, horest⟩

theorem RestOfBook.refl (b : ShadowOrderbook) : RestOfBook b b :=
  refl_of (SublistForall₂ RestOf) b.virtualOrders

theorem RestOfBook.trans (h : RestOfBook b'' b') (h' : RestOfBook b' b) : RestOfBook b'' b :=
  trans_of (SublistForall₂ RestOf) h h'

theorem restOfBook_of_forall₂ (h : Forall₂ RestOf b'.virtualOrders b.virtualOrders) :
    RestOfBook b' b :=
  sublistForall₂_iff.mpr ⟨b.virtualOrders, h, .refl _⟩

/-- What an operation that brings none lists of the rest of the orders. -/
theorem Listed.restOfBook {a : BookAction} (h : Listed a t os b')
    (hos : Forall₂ RestOf os b.virtualOrders) (ha : a.brings = false) : RestOfBook b' b := by
  have hrest : SublistForall₂ RestOf os b.virtualOrders := sublistForall₂_iff.mpr ⟨_, hos, .refl _⟩
  unfold RestOfBook
  cases h with
  | all horders => rwa [horders]
  | brought o hplaced horders =>
    exact absurd (ha.symm.trans (brings_of_placedId hplaced)) Bool.false_ne_true
  | swept horders hpruned =>
    rw [horders]
    exact trans_of (SublistForall₂ RestOf) filter_sublist.sublistForall₂ hrest

theorem restOfBook_cleanup : RestOfBook (b.cleanup t) b :=
  (listed_cleanup (a := .feed .runMatching)).restOfBook (respects_restOf.same _) rfl

/-- **What brings no order** leaves the rest of the orders that are there. -/
theorem restOfBook_apply (hnd : (b.virtualOrders.map SimulatedOrder.orderId).Nodup) {a : BookAction}
    (ha : a.brings = false) : RestOfBook (a.apply t b) b := by
  obtain ⟨os, hos, hlisted⟩ := respects_restOf.apply (t := t) (a := a) hnd
    (fun _ _ _ => restOf_expireOrder) (fun _ _ _ => restOf_resolveOrder)
  exact hlisted.restOfBook hos ha

/-! ## New orders -/

/-- The orders of `b'` are what is left of some of `b`, and one more under the id. -/
def OneMore (id : OrderId) (b' b : ShadowOrderbook) : Prop :=
  ∃ os o, b'.virtualOrders = os ++ [o] ∧ SublistForall₂ RestOf os b.virtualOrders ∧ o.orderId = id

/-- A placement brings its order, and none else to life. -/
theorem oneMore_placeVirtualOrder {q : OrderRequest} :
    OneMore id (b.placeVirtualOrder t id q).book b := by
  obtain ⟨os, o, horders, hos, hrest⟩ := respects_restOf.placeVirtualOrder q
  exact ⟨os, o, horders, sublistForall₂_iff.mpr ⟨_, hos, .refl _⟩, hrest.orderId⟩

/-- So does the registration of a filled order. -/
theorem oneMore_placePrefilled {q : PrefilledRequest} :
    OneMore id (b.placePrefilledBracketOrder t id q).book b := by
  obtain ⟨o, horders, hrest⟩ := respects_restOf.placePrefilled q
  exact ⟨b.virtualOrders, o, horders, refl_of (SublistForall₂ RestOf) _, hrest.orderId⟩

theorem OneMore.resetFillLevels (h : OneMore id b' b) : OneMore id (b'.resetFillLevels id) b := by
  obtain ⟨os, o, horders, hos, ho⟩ := h
  have hdrain : ∀ x : SimulatedOrder, RestOf (if x.orderId = id then { x with fillLevels := [] }
      else x) x := by
    intro x
    split
    · exact restOf_drained
    · exact .refl x
  have hmapped : Forall₂ RestOf (os.map _) os := related_map fun x _ => hdrain x
  have hdrained := sublistForall₂_iff.mpr ⟨os, hmapped, .refl _⟩
  refine ⟨_, _, ?_, trans_of (SublistForall₂ RestOf) hdrained hos, (hdrain o).orderId.trans ho⟩
  rw [ShadowOrderbook.resetFillLevels, horders, map_append, map_singleton]

end

end PolyArena
