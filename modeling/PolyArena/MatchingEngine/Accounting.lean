import PolyArena.MatchingEngine.Operations

/-!
# Order accounting

What an order says about itself agrees with the fills the book executed for it:

1. `BooksBalance` is the invariant over the effects: every order's filled quantity and entry cost
   are the sums over its entry fills in the history.
2. `effect_changed` and `effect_entryFills` say what one effect can do to the order of an id: its
   filled quantity does not decrease, and a terminal order keeps its status and gains no fill.
   `effects_related` carries a relation that the changes keep along the effects.
3. `orders_accounted` is the result for every run of a reachable book.
-/

namespace PolyArena

open Relation

/-! ## Entry fills -/

/-- The entry fill of `id` that a record reports, as price and quantity. -/
def BookRecord.entryFill (id : OrderId) : BookRecord → Option (ℚ × ℚ)
  | .fill i _ p q _ => if i = id then some (p, q) else none
  | .prefill i p q => if i = id then some (p, q) else none
  | _ => none

/-- The entry fills of `id`, newest first. -/
def entryFills (id : OrderId) (h : List BookRecord) : List (ℚ × ℚ) :=
  h.filterMap (BookRecord.entryFill id)

def filledOf (id : OrderId) (h : List BookRecord) : ℚ := ((entryFills id h).map Prod.snd).sum

def entryCostOf (id : OrderId) (h : List BookRecord) : ℚ :=
  ((entryFills id h).map fun f => f.1 * f.2).sum

/-- The order agrees with the history of its book. -/
structure Accounted (h : List BookRecord) (o : SimulatedOrder) : Prop where
  filled_nonneg : 0 ≤ o.filled
  filled_le : o.filled ≤ o.quantity
  filled : o.filled = filledOf o.orderId h
  entryCost : o.entryCost = entryCostOf o.orderId h
  status : o.status ≠ .canceled → o.status =
    if o.quantity ≤ o.filled then .filled else if 0 < o.filled then .partial_ else .pending

section

variable {c c' : BookCore} {o o' : SimulatedOrder} {pre post : List SimulatedOrder}
  {h : List BookRecord} {r : BookRecord} {id : OrderId}

theorem entryFills_cons (hr : r.entryFill id = none) :
    entryFills id (r :: h) = entryFills id h := by
  unfold entryFills
  rw [List.filterMap_cons, hr]

theorem entryFills_cons_some {f : ℚ × ℚ} (hr : r.entryFill id = some f) :
    entryFills id (r :: h) = f :: entryFills id h := by
  unfold entryFills
  rw [List.filterMap_cons, hr]

theorem entryFills_exitRecords {now : Time} {i : OrderId} {fs : List (ℚ × ℚ)} :
    entryFills id (ShadowOrderbook.exitRecords now i fs h) = entryFills id h := by
  unfold ShadowOrderbook.exitRecords
  induction fs generalizing h with
  | nil => rfl
  | cons f fs ih =>
    rw [List.foldl_cons, ih]
    exact entryFills_cons rfl

theorem entryFills_fill {now : Time} {side : OrderSide} {i : OrderId} {p q : ℚ} :
    entryFills id (.fill i side p q now :: h) =
      if i = id then (p, q) :: entryFills id h else entryFills id h := by
  by_cases hi : i = id
  · rw [if_pos hi]; exact entryFills_cons_some (if_pos hi)
  · rw [if_neg hi]; exact entryFills_cons (if_neg hi)

theorem filledOf_fill_self {now : Time} {side : OrderSide} {p q : ℚ} :
    filledOf id (.fill id side p q now :: h) = filledOf id h + q := by
  unfold filledOf
  rw [entryFills_fill, if_pos rfl]
  simp [add_comm]

theorem entryCostOf_fill_self {now : Time} {side : OrderSide} {p q : ℚ} :
    entryCostOf id (.fill id side p q now :: h) = entryCostOf id h + q * p := by
  unfold entryCostOf
  rw [entryFills_fill, if_pos rfl]
  simp only [List.map_cons, List.sum_cons]
  ring

/-- An order of a list with one order replaced is the new one, or an old one with another id. -/
theorem mem_replace (hnd : ((pre ++ o :: post).map SimulatedOrder.orderId).Nodup)
    {x : SimulatedOrder} (hx : x ∈ pre ++ o' :: post) :
    x = o' ∨ x ∈ pre ++ o :: post ∧ x.orderId ≠ o.orderId := by
  rw [List.map_append, List.map_cons, List.nodup_append] at hnd
  obtain ⟨-, hpost, hpre⟩ := hnd
  rw [List.nodup_cons] at hpost
  rcases List.mem_append.mp hx with hx | hx
  · refine .inr ⟨List.mem_append_left _ hx, ?_⟩
    exact hpre _ (List.mem_map_of_mem hx) _ List.mem_cons_self
  · rcases List.mem_cons.mp hx with rfl | hx
    · exact .inl rfl
    · refine .inr ⟨List.mem_append_right _ (List.mem_cons_of_mem _ hx), fun e => hpost.1 ?_⟩
      exact e ▸ List.mem_map_of_mem hx

/-! ## The books balance -/

/-- Every order agrees with the history, and only placed orders have fills in it. -/
structure BooksBalance (c : BookCore) : Prop where
  filled : ∀ o ∈ c.orders, o.filled = filledOf o.orderId c.history
  entryCost : ∀ o ∈ c.orders, o.entryCost = entryCostOf o.orderId c.history
  known : ∀ id, .placed id ∉ c.history → entryFills id c.history = []

/-- Effects that add no entry fill and leave the orders' fills alone. -/
theorem BooksBalance.of_same (hb : BooksBalance c)
    (hfills : ∀ id, entryFills id c'.history = entryFills id c.history)
    (hplaced : ∀ id, .placed id ∈ c.history → .placed id ∈ c'.history)
    (horders : ∀ o' ∈ c'.orders, ∃ o ∈ c.orders, o'.orderId = o.orderId ∧ o'.filled = o.filled ∧
      o'.entryCost = o.entryCost) : BooksBalance c' := by
  refine ⟨fun o' ho' => ?_, fun o' ho' => ?_, fun id hid => ?_⟩
  · obtain ⟨o, ho, hi, hf, -⟩ := horders o' ho'
    rw [filledOf, hfills, hf, hi]
    exact hb.filled o ho
  · obtain ⟨o, ho, hi, -, hc⟩ := horders o' ho'
    rw [entryCostOf, hfills, hc, hi]
    exact hb.entryCost o ho
  · rw [hfills]
    exact hb.known id fun h => hid (hplaced id h)

theorem replaced (horders : c.orders = pre ++ o :: post) (hi : o'.orderId = o.orderId)
    (hf : o'.filled = o.filled) (hc : o'.entryCost = o.entryCost) :
    ∀ x ∈ pre ++ o' :: post, ∃ y ∈ c.orders, x.orderId = y.orderId ∧ x.filled = y.filled ∧
      x.entryCost = y.entryCost := by
  rw [horders]
  intro x hx
  rcases List.mem_append.mp hx with hx | hx
  · exact ⟨x, List.mem_append_left _ hx, rfl, rfl, rfl⟩
  · rcases List.mem_cons.mp hx with rfl | hx
    · exact ⟨o, by simp, hi, hf, hc⟩
    · exact ⟨x, List.mem_append_right _ (List.mem_cons_of_mem _ hx), rfl, rfl, rfl⟩

/-- A new order whose history entries are `records`, newest first. -/
theorem BooksBalance.append (hb : BooksBalance c) (hinv : CoreInv c)
    (hfresh : .placed o.orderId ∉ c.history) (records : List BookRecord)
    (hplaced : .placed o.orderId ∈ records)
    (hother : ∀ id, id ≠ o.orderId → entryFills id (records ++ c.history) = entryFills id c.history)
    (hfilled : o.filled = filledOf o.orderId (records ++ c.history))
    (hcost : o.entryCost = entryCostOf o.orderId (records ++ c.history)) :
    BooksBalance { c with orders := c.orders ++ [o], history := records ++ c.history } := by
  have hne : ∀ x ∈ c.orders, x.orderId ≠ o.orderId := fun x hx e => hfresh (e ▸ hinv.placed x hx)
  refine ⟨fun x hx => ?_, fun x hx => ?_, fun id hid => ?_⟩
  · rcases List.mem_append.mp hx with hx | hx
    · rw [filledOf, hother _ (hne x hx)]
      exact hb.filled x hx
    · exact List.mem_singleton.mp hx ▸ hfilled
  · rcases List.mem_append.mp hx with hx | hx
    · rw [entryCostOf, hother _ (hne x hx)]
      exact hb.entryCost x hx
    · exact List.mem_singleton.mp hx ▸ hcost
  · have hid' : id ≠ o.orderId := fun e => hid (List.mem_append_left _ (e ▸ hplaced))
    rw [hother id hid']
    exact hb.known id fun hmem => hid (List.mem_append_right _ hmem)

/-- **One effect** keeps the books balanced. -/
theorem effect_balance (hinv : CoreInv c) (hb : BooksBalance c) (he : Effect c c' d) :
    BooksBalance c' := by
  cases he with
  | set side p size =>
    refine hb.of_same (fun id => ?_) (fun id hid => ?_) fun o' ho' => ⟨o', ?_, rfl, rfl, rfl⟩
    · cases side <;> exact entryFills_cons rfl
    · cases side <;> exact List.mem_cons_of_mem _ hid
    · cases side <;> exact ho'
  | clear =>
    exact hb.of_same (fun id => entryFills_cons rfl) (fun id hid => List.mem_cons_of_mem _ hid)
      fun o' ho' => ⟨o', ho', rfl, rfl, rfl⟩
  | place o hfresh hnew =>
    have hnone : entryFills o.orderId ([.placed o.orderId] ++ c.history) = [] :=
      (entryFills_cons rfl).trans (hb.known _ hfresh)
    refine hb.append hinv hfresh [.placed o.orderId] (by simp)
      (fun _ _ => entryFills_cons rfl) ?_ ?_
    · rw [filledOf, hnone, hnew.filled]; rfl
    · rw [entryCostOf, hnone, hnew.entryCost]; rfl
  | prefill o p hfresh hnew =>
    have hnone : entryFills o.orderId (.placed o.orderId :: c.history) = [] :=
      (entryFills_cons rfl).trans (hb.known _ hfresh)
    have hone : entryFills o.orderId ([.prefill o.orderId p o.filled, .placed o.orderId] ++
        c.history) = [(p, o.filled)] := by
      rw [← hnone]
      exact entryFills_cons_some (if_pos rfl)
    refine hb.append hinv hfresh [.prefill o.orderId p o.filled, .placed o.orderId] (by simp)
      (fun id hid => ?_) ?_ ?_
    · have hskip : BookRecord.entryFill id (.prefill o.orderId p o.filled) = none :=
        if_neg (Ne.symm hid)
      exact (entryFills_cons hskip).trans (entryFills_cons rfl)
    · rw [filledOf, hone]; simp
    · rw [entryCostOf, hone, hnew.entryCost]; simp
  | @fill _ time pre post o p q size horders hactive hsize hpos hle hrem =>
    have hnd := hinv.nodup
    rw [horders] at hnd
    have ho : o ∈ c.orders := by rw [horders]; simp
    have hother : ∀ id, id ≠ o.orderId →
        entryFills id (.fill o.orderId o.side p q time :: c.history) = entryFills id c.history := by
      intro id hid
      rw [entryFills_fill, if_neg (Ne.symm hid)]
    refine ⟨fun x hx => ?_, fun x hx => ?_, fun id hid => ?_⟩
    · rcases mem_replace hnd hx with rfl | ⟨hx, hne⟩
      · change _ = filledOf _ (.fill o.orderId o.side p q time :: c.history)
        rw [addFill_orderId, addFill_filled, filledOf_fill_self, ← hb.filled o ho]
      · change _ = filledOf _ (.fill o.orderId o.side p q time :: c.history)
        rw [filledOf, hother _ hne]
        exact hb.filled x (horders ▸ hx)
    · rcases mem_replace hnd hx with rfl | ⟨hx, hne⟩
      · change _ = entryCostOf _ (.fill o.orderId o.side p q time :: c.history)
        rw [addFill_orderId, addFill_entryCost, entryCostOf_fill_self, ← hb.entryCost o ho]
      · change _ = entryCostOf _ (.fill o.orderId o.side p q time :: c.history)
        rw [entryCostOf, hother _ hne]
        exact hb.entryCost x (horders ▸ hx)
    · have hid' : id ≠ o.orderId := by
        rintro rfl
        exact hid (List.mem_cons_of_mem _ (hinv.placed o ho))
      exact (hother id hid').trans (hb.known id fun h => hid (List.mem_cons_of_mem _ h))
  | exit time horders htakes hexit =>
    exact hb.of_same (fun id => entryFills_exitRecords) (fun id hid => mem_exitRecords hid)
      (replaced horders hexit.orderId hexit.filled hexit.entryCost)
  | revise horders hrev =>
    exact hb.of_same (fun _ => rfl) (fun _ hid => hid)
      (replaced horders hrev.orderId hrev.filled hrev.entryCost)
  | prune drop =>
    exact hb.of_same (fun _ => rfl) (fun _ hid => hid)
      fun o ho => ⟨o, List.mem_of_mem_filter ho, rfl, rfl, rfl⟩
  | drain horders =>
    exact hb.of_same (fun _ => rfl) (fun _ hid => hid) (replaced horders rfl rfl rfl)

theorem effects_balance (hinv : CoreInv c) (hb : BooksBalance c) (he : Effects c c') :
    BooksBalance c' := by
  induction he with
  | refl => exact hb
  | tail hpre he ih => exact effect_balance (effects_inv hinv hpre) ih he

/-! ## Orders only advance -/

/-- `o'` is a later state of `o`. -/
def Advances (o o' : SimulatedOrder) : Prop :=
  o.filled ≤ o'.filled ∧ (o.status.isTerminal = true → o'.status = o.status)

theorem Advances.refl (o : SimulatedOrder) : Advances o o := ⟨le_rfl, fun _ => rfl⟩

theorem Advances.trans {o₁ o₂ o₃ : SimulatedOrder} (h₁ : Advances o₁ o₂) (h₂ : Advances o₂ o₃) :
    Advances o₁ o₃ := by
  refine ⟨h₁.1.trans h₂.1, fun ht => ?_⟩
  have hs := h₁.2 ht
  rw [h₂.2 (hs ▸ ht), hs]

theorem Revises.advances (hr : Revises o o') : Advances o o' := by
  refine ⟨hr.filled.ge, fun ht => ?_⟩
  rcases hr.status with ⟨hs, -⟩ | ⟨hs, -⟩
  · exact hs
  · rw [hs] at ht; cases ht

/-! ## What effects make of an order -/

/-- What an effect can make of an order. -/
inductive Changed (o : SimulatedOrder) : SimulatedOrder → Prop
  | same : Changed o o
  | fill (p q : ℚ) (hactive : o.status.isTerminal = false) (hpos : 0 < q) :
      Changed o (o.addFill p q)
  | exit {fs : List (ℚ × ℚ)} {o' : SimulatedOrder} (hpos : ∀ f ∈ fs, 0 < f.2)
      (hexit : Exits o fs o') : Changed o o'
  | revise {o' : SimulatedOrder} (hrev : Revises o o') : Changed o o'
  | drain : Changed o o.drained

theorem Changed.orderId (h : Changed o o') : o'.orderId = o.orderId := by
  cases h with
  | same => rfl
  | fill p q hactive hpos => exact addFill_orderId
  | exit hpos hexit => exact hexit.orderId
  | revise hrev => exact hrev.orderId
  | drain => rfl

theorem Changed.advances (h : Changed o o') : Advances o o' := by
  cases h with
  | same => exact .refl o
  | fill p q hactive hpos =>
    refine ⟨?_, fun ht => ?_⟩
    · rw [addFill_filled]
      linarith
    · rw [hactive] at ht
      cases ht
  | exit hpos hexit => exact ⟨hexit.filled.ge, fun _ => hexit.status⟩
  | revise hrev => exact hrev.advances
  | drain => exact ⟨le_rfl, fun _ => rfl⟩

/-- Where an order of a list with one order changed comes from. -/
theorem changed_of_replace (horders : c.orders = pre ++ o :: post) (h : Changed o o') :
    ∀ x ∈ pre ++ o' :: post, ∃ y ∈ c.orders, y.orderId = x.orderId ∧ Changed y x := by
  rw [horders]
  intro x hx
  rcases List.mem_append.mp hx with hx | hx
  · exact ⟨x, List.mem_append_left _ hx, rfl, .same⟩
  · rcases List.mem_cons.mp hx with rfl | hx
    · exact ⟨o, by simp, h.orderId.symm, h⟩
    · exact ⟨x, List.mem_append_right _ (List.mem_cons_of_mem _ hx), rfl, .same⟩

/-- An order after an effect is changed from one before it, or new. -/
theorem effect_changed (he : Effect c c' d) : ∀ o' ∈ c'.orders,
    (∃ o ∈ c.orders, o.orderId = o'.orderId ∧ Changed o o') ∨ .placed o'.orderId ∉ c.history := by
  intro o' ho'
  cases he with
  | set side p size => exact .inl ⟨o', by cases side <;> exact ho', rfl, .same⟩
  | clear => exact .inl ⟨o', ho', rfl, .same⟩
  | place o hfresh hnew =>
    rcases List.mem_append.mp ho' with ho' | ho'
    · exact .inl ⟨o', ho', rfl, .same⟩
    · exact .inr (List.mem_singleton.mp ho' ▸ hfresh)
  | prefill o p hfresh hnew =>
    rcases List.mem_append.mp ho' with ho' | ho'
    · exact .inl ⟨o', ho', rfl, .same⟩
    · exact .inr (List.mem_singleton.mp ho' ▸ hfresh)
  | fill time horders hactive hsize hpos =>
    exact .inl (changed_of_replace horders (.fill _ _ hactive hpos) o' ho')
  | exit time horders htakes hexit =>
    exact .inl (changed_of_replace horders (.exit htakes.pos hexit) o' ho')
  | revise horders hrev => exact .inl (changed_of_replace horders (.revise hrev) o' ho')
  | prune drop => exact .inl ⟨o', List.mem_of_mem_filter ho', rfl, .same⟩
  | drain horders => exact .inl (changed_of_replace horders .drain o' ho')

/-- What an effect leaves in the book without reach was there, or it was listed. -/
theorem effect_pruned (he : Effect c c' d) : ∀ x ∈ c'.pruned, x ∈ c.orders ++ c.pruned := by
  intro x hx
  cases he with
  | set side p size => cases side <;> exact List.mem_append_right _ hx
  | @fill _ _ pre post o =>
    refine List.mem_append_right _ ?_
    unfold BookCore.fill at hx
    cases hside : o.side <;> rw [hside] at hx <;> exact hx
  | prune drop =>
    rcases List.mem_append.mp hx with hx | hx
    · exact List.mem_append_right _ hx
    · exact List.mem_append_left _ (List.mem_of_mem_filter hx)
  | _ => exact List.mem_append_right _ hx

/-- An order after an effect is a later state of one before it, or new. -/
theorem effect_advance (he : Effect c c' d) : ∀ o' ∈ c'.orders,
    (∃ o ∈ c.orders, o.orderId = o'.orderId ∧ Advances o o') ∨
      .placed o'.orderId ∉ c.history := fun o' ho' =>
  (effect_changed he o' ho').imp_left fun ⟨o, ho, hid, hchanged⟩ => ⟨o, ho, hid, hchanged.advances⟩

/-- Entry fills are only gained by orders that are open, or new. -/
theorem effect_entryFills (he : Effect c c' d) (id : OrderId) :
    entryFills id c'.history = entryFills id c.history ∨
      (∃ o ∈ c.orders, o.orderId = id ∧ o.status.isTerminal = false) ∨ .placed id ∉ c.history := by
  cases he with
  | set side p size => exact .inl (by cases side <;> exact entryFills_cons rfl)
  | clear => exact .inl (entryFills_cons rfl)
  | place o hfresh hnew => exact .inl (entryFills_cons rfl)
  | prefill o p hfresh hnew =>
    by_cases hid : o.orderId = id
    · exact .inr (.inr (hid ▸ hfresh))
    · have hskip : BookRecord.entryFill id (.prefill o.orderId p o.filled) = none := if_neg hid
      exact .inl ((entryFills_cons hskip).trans (entryFills_cons rfl))
  | @fill _ time pre post o p q size horders hactive hsize hpos hle hrem =>
    by_cases hid : o.orderId = id
    · exact .inr (.inl ⟨o, by rw [horders]; simp, hid, hactive⟩)
    · have hskip : BookRecord.entryFill id (.fill o.orderId o.side p q time) = none := if_neg hid
      exact .inl (entryFills_cons hskip)
  | exit time horders htakes hexit => exact .inl entryFills_exitRecords
  | revise horders hrev => exact .inl rfl
  | prune drop => exact .inl rfl
  | drain horders => exact .inl rfl

theorem effect_placed (he : Effect c c' d) (hid : .placed id ∈ c.history) :
    .placed id ∈ c'.history := by
  cases he with
  | set side p size => cases side <;> exact List.mem_cons_of_mem _ hid
  | exit time horders htakes hexit => exact mem_exitRecords hid
  | revise horders hrev => exact hid
  | prune drop => exact hid
  | drain horders => exact hid
  | prefill o p hfresh hnew => exact List.mem_cons_of_mem _ (List.mem_cons_of_mem _ hid)
  | _ => exact List.mem_cons_of_mem _ hid

theorem effects_placed (he : Effects c c') (hid : .placed id ∈ c.history) :
    .placed id ∈ c'.history := by
  induction he with
  | refl => exact hid
  | tail _ hstep ih => exact effect_placed hstep ih

/-- **Along the effects** the orders that `L` lists stay in a relation that one effect leaves them
in, or they are new. -/
theorem effects_related {L : BookCore → List SimulatedOrder}
    {R : SimulatedOrder → SimulatedOrder → Prop}
    (hrefl : ∀ o, R o o) (htrans : ∀ {o₁ o₂ o₃}, R o₁ o₂ → R o₂ o₃ → R o₁ o₃)
    (hstep : ∀ {c c'}, Effect c c' true → ∀ x ∈ L c',
      (∃ o ∈ L c, o.orderId = x.orderId ∧ R o x) ∨ .placed x.orderId ∉ c.history)
    (he : Effects c c') :
    ∀ x ∈ L c', (∃ o ∈ L c, o.orderId = x.orderId ∧ R o x) ∨ .placed x.orderId ∉ c.history := by
  induction he with
  | refl => exact fun x hx => .inl ⟨x, hx, rfl, hrefl x⟩
  | tail hpre hlast ih =>
    intro x hx
    rcases hstep hlast x hx with ⟨y, hy, hyid, hyx⟩ | hnew
    · rcases ih y hy with ⟨o, ho, hoid, hoy⟩ | hnew
      · exact .inl ⟨o, ho, hoid.trans hyid, htrans hoy hyx⟩
      · exact .inr (hyid ▸ hnew)
    · exact .inr fun hold => hnew (effects_placed hpre hold)

/-- The later orders of an id that is listed are later states of the one order with it. -/
theorem later_of_related {R : SimulatedOrder → SimulatedOrder → Prop} (hinv : CoreInv c)
    (ho : o ∈ c.orders)
    (h : ∀ x ∈ c'.orders, (∃ y ∈ c.orders, y.orderId = x.orderId ∧ R y x) ∨
      .placed x.orderId ∉ c.history) :
    ∀ o' ∈ c'.orders, o'.orderId = o.orderId → R o o' := by
  intro o' ho' hid
  rcases h o' ho' with ⟨y, hy, hyid, hrel⟩ | hnew
  · rwa [List.inj_on_of_nodup_map hinv.nodup hy ho (hyid.trans hid)] at hrel
  · exact absurd (hid ▸ hinv.placed o ho) hnew

/-- An order after the effects is a later state of one before them, or new. -/
theorem effects_advance (he : Effects c c') : ∀ o' ∈ c'.orders,
    (∃ o ∈ c.orders, o.orderId = o'.orderId ∧ Advances o o') ∨ .placed o'.orderId ∉ c.history :=
  effects_related (L := BookCore.orders) .refl Advances.trans effect_advance he

/-- What a run can make of the order `o`: its later states advance, and once it is terminal it gains
no entry fill, whether it stays in the book or is pruned. -/
structure LaterOf (o : SimulatedOrder) (c c' : BookCore) : Prop where
  advances : ∀ o' ∈ c'.orders, o'.orderId = o.orderId → Advances o o'
  entryFills : o.status.isTerminal = true →
    PolyArena.entryFills o.orderId c'.history = PolyArena.entryFills o.orderId c.history

theorem effects_laterOf (hinv : CoreInv c) (ho : o ∈ c.orders) (he : Effects c c') :
    LaterOf o c c' := by
  refine ⟨later_of_related hinv ho (effects_advance he), fun ht => ?_⟩
  induction he with
  | refl => rfl
  | tail hpre hstep ih =>
    rcases effect_entryFills hstep o.orderId with hsame | ⟨y, hy, hyid, hactive⟩ | hnew
    · rw [hsame, ih]
    · -- an order with this id is as terminal as `o` was
      rw [(later_of_related hinv ho (effects_advance hpre) y hy hyid).2 ht, ht] at hactive
      cases hactive
    · exact absurd (effects_placed hpre (hinv.placed o ho)) hnew

end

theorem emptyCore_balance : BooksBalance emptyCore :=
  ⟨fun _ h => absurd h List.not_mem_nil, fun _ h => absurd h List.not_mem_nil, fun _ _ => rfl⟩

theorem balance_of_reachable {b : ShadowOrderbook} (hb : Reachable b) : BooksBalance b.core :=
  effects_balance emptyCore_inv emptyCore_balance (effects_of_reachable hb).2

/-- **Order accounting.** In every reachable book every order agrees with the fills executed for it;
and along every further run no order's filled quantity decreases, and an order that is FILLED or
CANCELED keeps its status and gains no entry fill. -/
theorem orders_accounted {b b' : ShadowOrderbook} (hb : Reachable b) (hrun : BookRun b b') :
    (∀ o ∈ b'.virtualOrders, Accounted b'.history o) ∧
      ∀ o ∈ b.virtualOrders,
        (∀ o' ∈ b'.virtualOrders, o'.orderId = o.orderId →
          o.filled ≤ o'.filled ∧ (o.status.isTerminal = true → o'.status = o.status)) ∧
        (o.status.isTerminal = true →
          entryFills o.orderId b'.history = entryFills o.orderId b.history) := by
  obtain ⟨hinv, heff⟩ := effects_of_reachable hb
  obtain ⟨hinv', heff'⟩ := effects_of_run hinv hrun
  have hbal := effects_balance emptyCore_inv emptyCore_balance (heff.trans heff')
  refine ⟨fun o ho => ?_, fun o ho => ?_⟩
  · have hok := hinv'.ok o ho
    exact ⟨hok.filled_nonneg, hok.filled_le, hbal.filled o ho, hbal.entryCost o ho, hok.status⟩
  · have hlater := effects_laterOf hinv ho heff'
    exact ⟨hlater.advances, hlater.entryFills⟩

/-- The partly filled order of `restingBook`, through a matching pass. -/
theorem orders_accounted_restingBook :
    (∀ o ∈ (restingBook.runMatching 2).1.virtualOrders,
      Accounted (restingBook.runMatching 2).1.history o) ∧
      ∀ o ∈ restingBook.virtualOrders, ∀ o' ∈ (restingBook.runMatching 2).1.virtualOrders,
        o'.orderId = o.orderId → o.filled ≤ o'.filled := by
  have h := orders_accounted reachable_restingBook (.single (.runMatching restingBook 2))
  exact ⟨h.1, fun o ho o' ho' hid => ((h.2 o ho).1 o' ho' hid).1⟩

end PolyArena
