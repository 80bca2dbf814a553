import PolyArena.MatchingEngine.Book
import Mathlib.Logic.Relation

/-!
# Effects

Every public operation of a book is a sequence of a few elementary effects on its ladders and its
orders (`Effect`): the feed sets a level or clears the book, an order enters, one match fills an
order from one level, an exit sells into the bids, an order is revised without changing what it
bought or sold, terminal orders are pruned, and the fill levels that wait to be reported are
drained.  `Works` are the effects up to the point where an operation collects its state changes: no
drains and no prunes.

1. `OrderOk` is what every order in a book satisfies; `OrderOk.addFill`, `Exits.ok` and `Revises.ok`
   are its step lemmas, `effect_inv` the one for a book.
2. `effects_of_step` gives the effects of each operation.  Invariants are then proved effect by
   effect.
-/

namespace PolyArena

open Relation

/-! ## Orders -/

/-- The status that the filled quantity calls for. -/
def SimulatedOrder.fillStatus (o : SimulatedOrder) : OrderStatus :=
  if o.quantity ≤ o.filled then .filled else if 0 < o.filled then .partial_ else .pending

/-- What is sold of the order so far. -/
def SimulatedOrder.exited (o : SimulatedOrder) : ℚ := o.exitFilled.getD 0

/-- What every order in a book satisfies. -/
structure OrderOk (o : SimulatedOrder) : Prop where
  filled_nonneg : 0 ≤ o.filled
  filled_le : o.filled ≤ o.quantity
  status : o.status ≠ .canceled → o.status = o.fillStatus
  exited_nonneg : 0 ≤ o.exited
  exited_le : o.exited ≤ o.filled
  exited_lt : o.positionClosed = false → 0 < o.filled → o.exited < o.filled

/-- `o'` is `o` with some of it cancelled, its position closed or its bookkeeping changed. -/
structure Revises (o o' : SimulatedOrder) : Prop where
  orderId : o'.orderId = o.orderId
  filled : o'.filled = o.filled
  entryCost : o'.entryCost = o.entryCost
  exitFilled : o'.exitFilled = o.exitFilled
  fillLevels : o'.fillLevels = o.fillLevels
  closed : o.positionClosed = true → o'.positionClosed = true
  status : o'.status = o.status ∧ o'.quantity = o.quantity ∨
    o.status.isTerminal = false ∧ o'.status = .canceled ∧ o.filled ≤ o'.quantity
  terms : KeepsTerms o o'

/-- `o'` is `o` after the exit fills `fs`. -/
structure Exits (o : SimulatedOrder) (fs : List (ℚ × ℚ)) (o' : SimulatedOrder) : Prop where
  orderId : o'.orderId = o.orderId
  filled : o'.filled = o.filled
  entryCost : o'.entryCost = o.entryCost
  quantity : o'.quantity = o.quantity
  status : o'.status = o.status
  fillLevels : o'.fillLevels = o.fillLevels
  exited : o'.exited = o.exited + (fs.map Prod.snd).sum
  exited_le : o'.exited ≤ o.filled
  closed : o'.positionClosed = decide (o.filled ≤ o'.exited)
  terms : KeepsTerms o o'

section

variable {o o' : SimulatedOrder} {fs : List (ℚ × ℚ)} {p q : ℚ}

theorem Revises.refl (o : SimulatedOrder) : Revises o o :=
  ⟨rfl, rfl, rfl, rfl, rfl, id, .inl ⟨rfl, rfl⟩, .refl o⟩

theorem OrderOk.isOpen (h : OrderOk o) (ha : o.status.isTerminal = false) : o.IsOpen := by
  unfold SimulatedOrder.IsOpen
  by_contra hle
  have hne : o.status ≠ .canceled := fun e => by simp [e, OrderStatus.isTerminal] at ha
  have hs := h.status hne
  rw [SimulatedOrder.fillStatus, if_pos (not_lt.mp hle)] at hs
  simp [hs, OrderStatus.isTerminal] at ha

@[simp] theorem addFill_exited : (o.addFill p q).exited = o.exited := by
  unfold SimulatedOrder.addFill SimulatedOrder.updateStatus SimulatedOrder.exited
  split_ifs <;> rfl

@[simp] theorem addFill_orderId : (o.addFill p q).orderId = o.orderId := by
  unfold SimulatedOrder.addFill SimulatedOrder.updateStatus
  split_ifs <;> rfl

@[simp] theorem addFill_side : (o.addFill p q).side = o.side := by
  unfold SimulatedOrder.addFill SimulatedOrder.updateStatus
  split_ifs <;> rfl

@[simp] theorem addFill_entryCost : (o.addFill p q).entryCost = o.entryCost + q * p := by
  unfold SimulatedOrder.addFill SimulatedOrder.updateStatus
  split_ifs <;> rfl

/-- One match keeps an order well formed. -/
theorem OrderOk.addFill (h : OrderOk o) (hpos : 0 < q) (hrem : q ≤ o.remainingQty) :
    OrderOk (o.addFill p q) := by
  have h0 := h.filled_nonneg
  unfold SimulatedOrder.remainingQty at hrem
  have hfilled : 0 < o.filled + q := by linarith
  refine ⟨?_, ?_, fun _ => ?_, ?_, ?_, fun _ _ => ?_⟩
  · rw [addFill_filled]; exact hfilled.le
  · rw [addFill_filled, addFill_quantity]; linarith
  · rw [addFill_status, SimulatedOrder.fillStatus, addFill_filled, addFill_quantity,
      if_pos hfilled, if_pos hfilled]
  · rw [addFill_exited]; exact h.exited_nonneg
  · rw [addFill_exited, addFill_filled]; linarith [h.exited_le]
  · rw [addFill_exited, addFill_filled]; linarith [h.exited_le]

theorem Revises.ok (h : Revises o o') (ho : OrderOk o) : OrderOk o' := by
  have hexited : o'.exited = o.exited := by unfold SimulatedOrder.exited; rw [h.exitFilled]
  refine ⟨?_, ?_, fun hne => ?_, ?_, ?_, fun hc hpos => ?_⟩
  · rw [h.filled]; exact ho.filled_nonneg
  · rw [h.filled]
    rcases h.status with ⟨-, hq⟩ | ⟨-, -, hq⟩
    · rw [hq]; exact ho.filled_le
    · exact hq
  · rcases h.status with ⟨hs, hq⟩ | ⟨-, hs, -⟩
    · rw [hs] at hne ⊢
      rw [ho.status hne, SimulatedOrder.fillStatus, SimulatedOrder.fillStatus, h.filled, hq]
    · exact absurd hs hne
  · rw [hexited]; exact ho.exited_nonneg
  · rw [hexited, h.filled]; exact ho.exited_le
  · rw [h.filled] at hpos ⊢
    rw [hexited]
    refine ho.exited_lt ?_ hpos
    rw [← Bool.not_eq_true]
    intro hclosed
    rw [h.closed hclosed] at hc
    cases hc

theorem Exits.ok (h : Exits o fs o') (ho : OrderOk o) (hpos : ∀ f ∈ fs, 0 < f.2) :
    OrderOk o' := by
  have hsum : 0 ≤ (fs.map Prod.snd).sum := by
    refine List.sum_nonneg fun x hx => ?_
    obtain ⟨f, hf, rfl⟩ := List.mem_map.mp hx
    exact (hpos f hf).le
  refine ⟨?_, ?_, fun hne => ?_, ?_, ?_, fun hc _ => ?_⟩
  · rw [h.filled]; exact ho.filled_nonneg
  · rw [h.filled, h.quantity]; exact ho.filled_le
  · rw [h.status] at hne ⊢
    rw [ho.status hne, SimulatedOrder.fillStatus, SimulatedOrder.fillStatus, h.filled, h.quantity]
  · rw [h.exited]; linarith [ho.exited_nonneg]
  · rw [h.filled]; exact h.exited_le
  · rw [h.closed, decide_eq_false_iff_not, not_le] at hc
    rw [h.filled]
    exact hc

theorem Takes.pos {l l' : Ladder} (h : Takes l fs l') : ∀ f ∈ fs, 0 < f.2 := by
  induction h with
  | nil => simp
  | cons _ hpos _ _ ih =>
    intro f hf
    rcases List.mem_cons.mp hf with rfl | hf
    · exact hpos
    · exact ih f hf

end

/-! ## The core of a book and its effects -/

/-- The part of a book that the effects are about. -/
structure BookCore where
  bids : Ladder
  asks : Ladder
  rawBids : Ladder
  rawAsks : Ladder
  orders : List SimulatedOrder
  pruned : List SimulatedOrder
  history : List BookRecord

def ShadowOrderbook.core (b : ShadowOrderbook) : BookCore :=
  ⟨b.bids, b.asks, b.rawBids, b.rawAsks, b.virtualOrders, b.pruned, b.history⟩

/-- The side of the book that an order takes from. -/
def OrderSide.takes : OrderSide → BookSide
  | .buy => .ask
  | .sell => .bid

/-- `size` at `price`, a size that is not positive meaning no level. -/
def Ladder.setOrErase (l : Ladder) (price size : ℚ) : Ladder :=
  if size ≤ 0 then l.erase price else l.set price size

namespace BookCore

def ladder (c : BookCore) : BookSide → Ladder
  | .bid => c.bids
  | .ask => c.asks

def rawLadder (c : BookCore) : BookSide → Ladder
  | .bid => c.rawBids
  | .ask => c.rawAsks

def withLadder (c : BookCore) (side : BookSide) (l : Ladder) : BookCore :=
  match side with
  | .bid => { c with bids := l }
  | .ask => { c with asks := l }

/-- The feed sets a level. -/
def setLevel (c : BookCore) (side : BookSide) (price size : ℚ) : BookCore :=
  match side with
  | .bid => { c with
      bids := Ladder.setOrErase c.bids price size
      rawBids := Ladder.setOrErase c.rawBids price size
      history := .set side price size :: c.history }
  | .ask => { c with
      asks := Ladder.setOrErase c.asks price size
      rawAsks := Ladder.setOrErase c.rawAsks price size
      history := .set side price size :: c.history }

/-- Every level is set to zero. -/
def clear (c : BookCore) : BookCore :=
  { c with bids := ∅, asks := ∅, rawBids := ∅, rawAsks := ∅, history := .cleared :: c.history }

/-- One match of `o` at `price`; `orders` is the order list after it. -/
def fill (c : BookCore) (time : Time) (o : SimulatedOrder) (price qty : ℚ)
    (orders : List SimulatedOrder) : BookCore :=
  { c.withLadder o.side.takes ((c.ladder o.side.takes).consume price qty) with
    orders := orders
    history := .fill o.orderId o.side price qty time :: c.history }

end BookCore

/-- An order as it is placed. -/
structure IsNew (o : SimulatedOrder) : Prop where
  quantity : 0 < o.quantity
  filled : o.filled = 0
  entryCost : o.entryCost = 0
  status : o.status = .pending
  exitFilled : o.exitFilled = none
  fillLevels : o.fillLevels = []

/-- An order as it is registered already filled. -/
structure IsPrefilled (o : SimulatedOrder) (price : ℚ) : Prop where
  filled : 0 ≤ o.filled
  quantity : o.quantity = o.filled
  entryCost : o.entryCost = price * o.filled
  status : o.status = .filled
  exitFilled : o.exitFilled = none
  fillLevels : o.fillLevels = []
  maxCost : o.maxCost = none

/-- The order without the fill levels that wait to be reported. -/
def SimulatedOrder.drained (o : SimulatedOrder) : SimulatedOrder := { o with fillLevels := [] }

/-- The elementary effects.  Only those flagged `true` drain or prune. -/
inductive Effect : BookCore → BookCore → Bool → Prop
  | set (c : BookCore) {d : Bool} (side : BookSide) (p size : ℚ) (hsize : 0 ≤ size) (hp : 0 < p) :
      Effect c (c.setLevel side p size) d
  | clear (c : BookCore) {d : Bool} : Effect c c.clear d
  | place (c : BookCore) {d : Bool} (o : SimulatedOrder) (hfresh : .placed o.orderId ∉ c.history)
      (hnew : IsNew o) :
      Effect c { c with
        orders := c.orders ++ [o]
        history := .placed o.orderId :: c.history } d
  | prefill (c : BookCore) {d : Bool} (o : SimulatedOrder) (p : ℚ)
      (hfresh : .placed o.orderId ∉ c.history) (hnew : IsPrefilled o p) :
      Effect c { c with
        orders := c.orders ++ [o]
        history := .prefill o.orderId p o.filled :: .placed o.orderId :: c.history } d
  | fill (c : BookCore) {d : Bool} (time : Time) {pre post : List SimulatedOrder}
      {o : SimulatedOrder} {p q size : ℚ} (horders : c.orders = pre ++ o :: post)
      (hactive : o.status.isTerminal = false)
      (hsize : (c.ladder o.side.takes).get? p = some size) (hpos : 0 < q) (hle : q ≤ size)
      (hrem : q ≤ o.remainingQty) (haccepts : o.Accepts p) (haffords : o.Affords p q) :
      Effect c (c.fill time o p q (pre ++ o.addFill p q :: post)) d
  | exit (c : BookCore) {d : Bool} (time : Time) {pre post : List SimulatedOrder}
      {o o' : SimulatedOrder} {fs : List (ℚ × ℚ)} {bids : Ladder}
      (horders : c.orders = pre ++ o :: post) (htakes : Takes c.bids fs bids)
      (hexit : Exits o fs o') :
      Effect c { c with
        bids := bids
        orders := pre ++ o' :: post
        history := ShadowOrderbook.exitRecords time o.orderId fs c.history } d
  | revise (c : BookCore) {d : Bool} {pre post : List SimulatedOrder} {o o' : SimulatedOrder}
      (horders : c.orders = pre ++ o :: post) (hrev : Revises o o') :
      Effect c { c with orders := pre ++ o' :: post } d
  | prune (c : BookCore) (drop : SimulatedOrder → Bool) :
      Effect c { c with
        orders := c.orders.filter fun o => !drop o
        pruned := c.pruned ++ c.orders.filter drop } true
  | drain (c : BookCore) {pre post : List SimulatedOrder} {o : SimulatedOrder}
      (horders : c.orders = pre ++ o :: post) :
      Effect c { c with orders := pre ++ o.drained :: post } true

abbrev Effects : BookCore → BookCore → Prop := ReflTransGen fun c c' => Effect c c' true

abbrev Works : BookCore → BookCore → Prop := ReflTransGen fun c c' => Effect c c' false

theorem Effect.mono {c c' : BookCore} (h : Effect c c' false) : Effect c c' true := by
  cases h with
  | set side p size hsize hp => exact .set c side p size hsize hp
  | clear => exact .clear c
  | place o hfresh hnew => exact .place c o hfresh hnew
  | prefill o p hfresh hnew => exact .prefill c o p hfresh hnew
  | fill time horders hactive hsize hpos hle hrem haccepts haffords =>
    exact .fill c time horders hactive hsize hpos hle hrem haccepts haffords
  | exit time horders htakes hexit => exact .exit c time horders htakes hexit
  | revise horders hrev => exact .revise c horders hrev

theorem works_effects {c c' : BookCore} (h : Works c c') : Effects c c' :=
  ReflTransGen.mono (fun _ _ => Effect.mono) _ _ h

/-- Every order of a core is well formed. -/
def AllOk (os : List SimulatedOrder) : Prop := ∀ o ∈ os, OrderOk o

theorem IsNew.ok {o : SimulatedOrder} (h : IsNew o) : OrderOk o := by
  have hexited : o.exited = 0 := by simp [SimulatedOrder.exited, h.exitFilled]
  refine ⟨h.filled.ge, ?_, fun _ => ?_, hexited.ge, ?_, fun _ hpos => ?_⟩
  · rw [h.filled]; exact h.quantity.le
  · rw [h.status, SimulatedOrder.fillStatus, h.filled, if_neg (not_le.mpr h.quantity),
      if_neg (lt_irrefl _)]
  · rw [hexited, h.filled]
  · rw [h.filled] at hpos; exact absurd hpos (lt_irrefl _)

theorem IsPrefilled.ok {o : SimulatedOrder} {p : ℚ} (h : IsPrefilled o p) : OrderOk o := by
  have hexited : o.exited = 0 := by simp [SimulatedOrder.exited, h.exitFilled]
  refine ⟨h.filled, h.quantity.ge, fun _ => ?_, hexited.ge, ?_, fun _ hpos => ?_⟩
  · rw [h.status, SimulatedOrder.fillStatus, if_pos h.quantity.le]
  · rw [hexited]; exact h.filled
  · rw [hexited]; exact hpos

theorem OrderOk.drained {o : SimulatedOrder} (h : OrderOk o) : OrderOk o.drained :=
  ⟨h.filled_nonneg, h.filled_le, h.status, h.exited_nonneg, h.exited_le, h.exited_lt⟩

theorem AllOk.replace {pre post : List SimulatedOrder} {o o' : SimulatedOrder}
    (h : AllOk (pre ++ o :: post)) (ho' : OrderOk o') : AllOk (pre ++ o' :: post) := by
  intro x hx
  rcases List.mem_append.mp hx with hx | hx
  · exact h x (List.mem_append_left _ hx)
  · rcases List.mem_cons.mp hx with rfl | hx
    · exact ho'
    · exact h x (List.mem_append_right _ (List.mem_cons_of_mem _ hx))

theorem AllOk.append {os : List SimulatedOrder} {o : SimulatedOrder} (h : AllOk os)
    (ho : OrderOk o) : AllOk (os ++ [o]) := by
  intro x hx
  rcases List.mem_append.mp hx with hx | hx
  · exact h x hx
  · exact List.mem_singleton.mp hx ▸ ho

/-- What every reachable book satisfies: well-formed orders, under distinct ids that were placed. -/
structure CoreInv (c : BookCore) : Prop where
  ok : AllOk c.orders
  nodup : (c.orders.map SimulatedOrder.orderId).Nodup
  placed : ∀ o ∈ c.orders, .placed o.orderId ∈ c.history

theorem mem_exitRecords {now : Time} {id : OrderId} {fs : List (ℚ × ℚ)} {r : BookRecord}
    {h : List BookRecord} (hr : r ∈ h) : r ∈ ShadowOrderbook.exitRecords now id fs h := by
  unfold ShadowOrderbook.exitRecords
  induction fs generalizing h with
  | nil => exact hr
  | cons f fs ih => exact ih (List.mem_cons_of_mem _ hr)

theorem CoreInv.replace {c : BookCore} {pre post : List SimulatedOrder} {o o' : SimulatedOrder}
    {l : Ladder} {h : List BookRecord} (hinv : CoreInv c) (horders : c.orders = pre ++ o :: post)
    (ho' : OrderOk o') (hid : o'.orderId = o.orderId) (hh : ∀ r ∈ c.history, r ∈ h) :
    CoreInv { c with bids := l, orders := pre ++ o' :: post, history := h } := by
  obtain ⟨hok, hnd, hplaced⟩ := hinv
  rw [horders] at hok hnd hplaced
  have hids : (pre ++ o' :: post).map SimulatedOrder.orderId =
      (pre ++ o :: post).map SimulatedOrder.orderId := by simp [hid]
  refine ⟨hok.replace ho', hids ▸ hnd, fun x hx => hh _ ?_⟩
  have hx' : x.orderId ∈ (pre ++ o :: post).map SimulatedOrder.orderId :=
    hids ▸ List.mem_map_of_mem hx
  obtain ⟨y, hy, hxy⟩ := List.mem_map.mp hx'
  rw [← hxy]
  exact hplaced y hy

theorem CoreInv.append {c : BookCore} {o : SimulatedOrder} {h : List BookRecord}
    (hinv : CoreInv c) (ho : OrderOk o) (hfresh : .placed o.orderId ∉ c.history)
    (hplaced : .placed o.orderId ∈ h) (hh : ∀ r ∈ c.history, r ∈ h) :
    CoreInv { c with orders := c.orders ++ [o], history := h } := by
  have hnew : o.orderId ∉ c.orders.map SimulatedOrder.orderId := by
    intro hmem
    obtain ⟨x, hx, hxo⟩ := List.mem_map.mp hmem
    exact hfresh (hxo ▸ hinv.placed x hx)
  refine ⟨hinv.ok.append ho, ?_, fun x hx => ?_⟩
  · rw [List.map_append]
    exact hinv.nodup.append (List.nodup_singleton _) (by simpa using hnew)
  · rcases List.mem_append.mp hx with hx | hx
    · exact hh _ (hinv.placed x hx)
    · exact List.mem_singleton.mp hx ▸ hplaced

/-- **One effect** keeps the invariant. -/
theorem effect_inv {d : Bool} {c c' : BookCore} (h : CoreInv c) (he : Effect c c' d) :
    CoreInv c' := by
  cases he with
  | set side p size =>
    cases side <;> exact ⟨h.ok, h.nodup, fun o ho => List.mem_cons_of_mem _ (h.placed o ho)⟩
  | clear => exact ⟨h.ok, h.nodup, fun o ho => List.mem_cons_of_mem _ (h.placed o ho)⟩
  | place o hfresh hnew =>
    exact h.append hnew.ok hfresh List.mem_cons_self fun _ => List.mem_cons_of_mem _
  | prefill o p hfresh hnew =>
    exact h.append hnew.ok hfresh (List.mem_cons_of_mem _ List.mem_cons_self)
      fun _ hr => List.mem_cons_of_mem _ (List.mem_cons_of_mem _ hr)
  | @fill _ time pre post o p q size horders hactive hsize hpos hle hrem =>
    have ho : OrderOk o := h.ok o (by rw [horders]; simp)
    have := h.replace (l := c.bids) horders (ho.addFill (p := p) hpos hrem) addFill_orderId
      fun _ => List.mem_cons_of_mem (BookRecord.fill o.orderId o.side p q time)
    exact ⟨this.ok, this.nodup, this.placed⟩
  | @exit _ time pre post o o' fs bids horders htakes hexit =>
    have ho : OrderOk o := h.ok o (by rw [horders]; simp)
    exact h.replace horders (hexit.ok ho htakes.pos) hexit.orderId fun _ => mem_exitRecords
  | @revise _ pre post o o' horders hrev =>
    have ho : OrderOk o := h.ok o (by rw [horders]; simp)
    exact h.replace (l := c.bids) horders (hrev.ok ho) hrev.orderId fun _ hr => hr
  | prune drop =>
    exact ⟨fun o ho => h.ok o (List.mem_of_mem_filter ho),
      h.nodup.sublist (List.filter_sublist.map _),
        fun o ho => h.placed o (List.mem_of_mem_filter ho)⟩
  | @drain pre post o horders =>
    have ho : OrderOk o := h.ok o (by rw [horders]; simp)
    exact h.replace (l := c.bids) horders ho.drained rfl fun _ hr => hr

theorem effects_inv {c c' : BookCore} (h : CoreInv c) (he : Effects c c') : CoreInv c' := by
  induction he with
  | refl => exact h
  | tail _ he ih => exact effect_inv ih he

end PolyArena
