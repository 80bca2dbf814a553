import PolyArena.MatchingEngine.Standing
import PolyArena.OrderConsumer.Consumer

/-!
# A registered order

A `WatchLedger` is what the two threads do about one order from the moment it is registered: the
events on their way to its callback and the messages published about it.  `WatchInv` says that every
event the book emitted since then has led to one message or is still on its way, and that what was
emitted fits the order.  Each section is one way in which a ledger moves.
-/

namespace PolyArena

open Relation ShadowOrderbook

/-- The CANCEL events. -/
def cancelEvents (evs : List OrderStateChangeEvent) : List OrderStateChangeEvent :=
  evs.filter fun e => e.eventType = .cancel

/-- What is watched of an order since it was registered. -/
structure WatchLedger where
  book : ShadowOrderbook
  /-- it is in `_order_to_bo` -/
  tracked : Bool
  /-- the consumer thread is not done with it -/
  busy : Bool
  /-- its events that the consumer thread delivers -/
  own : List OrderStateChangeEvent
  /-- its events that the feed thread delivers -/
  feed : List OrderStateChangeEvent
  /-- the feed thread collected them before the registration -/
  early : Bool
  /-- the events that the book emitted for it since the registration -/
  emitted : List OrderStateChangeEvent
  /-- the messages about it since the registration -/
  messages : List StreamMessage

/-- The emitted events that are on their way. -/
def WatchLedger.owed (l : WatchLedger) : List OrderStateChangeEvent :=
  l.own ++ if l.early then [] else l.feed

/-- Every emitted event has led to one message or is on its way; `E` is what was on its way at the
registration. -/
def WatchLedger.Accounted (l : WatchLedger) (boId : ℕ) (E : List OrderStateChangeEvent) : Prop :=
  ∃ early, early.Sublist E ∧ (l.early = true → (early ++ l.feed).Sublist E) ∧
    (l.messages ++ l.owed.map (·.message boId)).Perm ((early ++ l.emitted).map (·.message boId))

/-- All was told of the order, whatever it was. -/
def IsTold (id : OrderId) (b : ShadowOrderbook) : Prop := ∃ o, Told id o b

/-- Where the order stands in the book, with the CANCEL events that were emitted. -/
inductive Standing (id : OrderId) (b : ShadowOrderbook) (busy : Bool) :
    List OrderStateChangeEvent → Prop
  | live (h : Live id b) : Standing id b busy []
  | filled (o : SimulatedOrder) (hs : o.status = .filled) (h : Told id o b) : Standing id b busy []
  | canceled (o : SimulatedOrder) (hid : o.orderId = id) (hs : o.status = .canceled)
      (h : Told id o b) :
      Standing id b busy [cancelEvent o]
  /-- it was cancelled before it was seeded -/
  | seeded (o : SimulatedOrder) (hs : o.status = .canceled) (h : Told id o b)
      (hbusy : busy = true) :
      Standing id b busy []

/-- What holds of a ledger. -/
structure WatchInv (id : OrderId) (boId : ℕ) (E : List OrderStateChangeEvent) (l : WatchLedger) :
    Prop where
  accounted : l.Accounted boId E
  standing : Standing id l.book l.busy (cancelEvents l.emitted)
  own : l.own = [] ∨ l.feed = [] ∧ IsTold id l.book ∧ ∃ e, l.own = [e]
  shape : l.early = false → l.feed = [] ∨ (∃ e, l.feed = [e]) ∨
    ∃ f e, l.feed = [f, e] ∧ f.eventType = .fill ∧ f.status = .canceled
  ended : ∀ e ∈ l.feed, e.status.isTerminal = true → IsTold id l.book
  waits : Live id l.book → Waits id l.book → l.feed = []
  tracked : l.tracked = false → IsTold id l.book ∧ l.owed = []

section

variable {id : OrderId} {boId : ℕ} {E : List OrderStateChangeEvent} {l : WatchLedger}
  {b b' : ShadowOrderbook} {busy : Bool} {e : OrderStateChangeEvent}
  {rest evs cancels : List OrderStateChangeEvent}

theorem cancelEvents_append (evs evs' : List OrderStateChangeEvent) :
    cancelEvents (evs ++ evs') = cancelEvents evs ++ cancelEvents evs' := List.filter_append ..

theorem cancelEvents_of_fills {o : SimulatedOrder} (h : evs = [] ∨ evs = [fillEvent o]) :
    cancelEvents evs = [] := by
  rcases h with rfl | rfl <;> rfl

theorem Standing.live_or_told (h : Standing id b busy cancels) :
    (Live id b ∧ cancels = []) ∨ IsTold id b := by
  cases h with
  | live h => exact .inl ⟨h, rfl⟩
  | filled o _ h | canceled o _ _ h | seeded o _ h => exact .inr ⟨o, h⟩

theorem IsTold.not_live (h : IsTold id b) : ¬ Live id b := by
  obtain ⟨o, ho⟩ := h
  exact ho.not_live

/-! ## The book changes -/

theorem Standing.work (h : Standing id b busy cancels)
    (hlive : Live id b → Live id b' ∨ ∃ o, o.status = .filled ∧ Told id o b')
    (htold : ∀ o, Told id o b → Told id o b') : Standing id b' busy cancels := by
  cases h with
  | live h =>
    rcases hlive h with h | ⟨o, hs, h⟩
    · exact .live h
    · exact .filled o hs h
  | filled o hs h => exact .filled o hs (htold o h)
  | canceled o hid hs h => exact .canceled o hid hs (htold o h)
  | seeded o hs h hbusy => exact .seeded o hs (htold o h) hbusy

/-- **Silent work** of the book. -/
theorem WatchInv.work (h : WatchInv id boId E l)
    (hlive : Live id l.book → Live id b' ∨ ∃ o, o.status = .filled ∧ Told id o b')
    (htold : ∀ o, Told id o l.book → Told id o b')
    (hwaits : Live id l.book → Waits id b' → Waits id l.book) :
    WatchInv id boId E { l with book := b' } := by
  have hex : IsTold id l.book → IsTold id b' := fun ⟨o, ho⟩ => ⟨o, htold o ho⟩
  refine ⟨h.accounted, h.standing.work hlive htold,
    h.own.imp_right fun ⟨hf, ht, ho⟩ => ⟨hf, hex ht, ho⟩,
    h.shape, fun e he ht => hex (h.ended e he ht), fun hl hw => ?_,
    fun ht => ⟨hex (h.tracked ht).1, (h.tracked ht).2⟩⟩
  rcases h.standing.live_or_told with ⟨hold, -⟩ | hold
  · exact h.waits hold (hwaits hold hw)
  · exact absurd hl (hex hold).not_live

/-- **An operation of the feed thread**, which delivered what it had. -/
theorem WatchInv.feedOp {collects : Bool} (h : WatchInv id boId E l) (hidle : l.feed = [])
    (hlive : Live id l.book → LiveOutcome id b' collects evs)
    (htold : ∀ o, Told id o l.book → evs = [] ∧ Told id o b') :
    WatchInv id boId E { l with
      book := b', feed := evs, early := false, emitted := l.emitted ++ evs } := by
  have hacc : WatchLedger.Accounted { l with
      book := b', feed := evs, early := false, emitted := l.emitted ++ evs } boId E := by
    obtain ⟨early, hsub, -, hperm⟩ := h.accounted
    refine ⟨early, hsub, nofun, ?_⟩
    have howed : l.owed = l.own := by
      unfold WatchLedger.owed
      rw [hidle]
      split <;> exact List.append_nil _
    rw [howed] at hperm
    show (l.messages ++ (l.own ++ evs).map (·.message boId)).Perm
      ((early ++ (l.emitted ++ evs)).map (·.message boId))
    rw [List.map_append, ← List.append_assoc, ← List.append_assoc, List.map_append]
    exact hperm.append_right _
  rcases h.standing.live_or_told with ⟨hl, hnone⟩ | ht
  · -- a live order has no event in the consumer thread, and is tracked
    have hown : l.own = [] := h.own.resolve_right fun ⟨_, ht, _⟩ => ht.not_live hl
    have htracked : l.tracked = false → False := fun htr => (h.tracked htr).1.not_live hl
    cases hlive hl with
    | quiet h' =>
      exact ⟨hacc, by rw [List.append_nil, hnone]; exact .live h', .inl hown, fun _ => .inl rfl,
        fun _ he => absurd he List.not_mem_nil, fun _ _ => rfl, fun htr => (htracked htr).elim⟩
    | idle h' _ =>
      exact ⟨hacc, by rw [List.append_nil, hnone]; exact .live h', .inl hown, fun _ => .inl rfl,
        fun _ he => absurd he List.not_mem_nil, fun _ _ => rfl, fun htr => (htracked htr).elim⟩
    | filling o hid hs h' hwaits =>
      refine ⟨hacc, ?_, .inl hown, fun _ => .inr (.inl ⟨_, rfl⟩), fun e he ht => ?_,
        fun _ hw => absurd hw hwaits, fun htr => (htracked htr).elim⟩
      · rw [cancelEvents_append, hnone]
        exact .live h'
      · rw [List.mem_singleton.mp he] at ht
        exact absurd (hs.symm.trans ht) nofun
    | filled o _ hid hs h' evs hevs =>
      refine ⟨hacc, ?_, .inl hown, fun _ => ?_, fun _ _ _ => ⟨o, h'⟩,
        fun hl' => absurd hl' h'.not_live, fun htr => (htracked htr).elim⟩
      · rw [cancelEvents_append, hnone, cancelEvents_of_fills hevs]
        exact .filled o hs h'
      · exact hevs.imp_right fun he => .inl ⟨_, he⟩
    | canceled o hid hs h' evs hevs =>
      refine ⟨hacc, ?_, .inl hown, fun _ => .inr ?_, fun _ _ _ => ⟨o, h'⟩,
        fun hl' => absurd hl' h'.not_live, fun htr => (htracked htr).elim⟩
      · rw [cancelEvents_append, cancelEvents_append, hnone, cancelEvents_of_fills hevs]
        exact .canceled o hid hs h'
      · rcases hevs with rfl | rfl
        · exact .inl ⟨_, rfl⟩
        · exact .inr ⟨_, _, rfl, rfl, hs⟩
  · obtain ⟨o, ho⟩ := ht
    obtain ⟨rfl, ho'⟩ := htold o ho
    refine ⟨hacc, ?_, h.own.imp_right fun ⟨_, _, hown⟩ => ⟨rfl, ⟨o, ho'⟩, hown⟩, fun _ => .inl rfl,
      fun _ he => absurd he List.not_mem_nil, fun _ _ => rfl, fun htr => ⟨⟨o, ho'⟩, ?_⟩⟩
    · rw [List.append_nil]
      exact h.standing.work (fun hl => absurd hl ho.not_live) fun o ho => (htold o ho).2
    · have howed := (h.tracked htr).2
      unfold WatchLedger.owed at howed ⊢
      rw [List.append_eq_nil_iff.mp howed |>.1]
      rfl

/-- **A placement** of another order. -/
theorem WatchInv.place (h : WatchInv id boId E l) (hidle : l.own = [])
    (hlive : Live id l.book → LiveOutcome id b' true evs)
    (htold : ∀ o, Told id o l.book → evs = [] ∧ Told id o b')
    (hfills : ∀ e ∈ evs, e.eventType ≠ .fill)
    (hwaits : ∀ o, Live id l.book → Told id o b' → o.status = .canceled → Waits id l.book) :
    WatchInv id boId E { l with book := b', own := evs, emitted := l.emitted ++ evs } := by
  have hacc : WatchLedger.Accounted { l with
      book := b', own := evs, emitted := l.emitted ++ evs } boId E := by
    obtain ⟨early, hsub, hearly, hperm⟩ := h.accounted
    refine ⟨early, hsub, hearly, ?_⟩
    unfold WatchLedger.owed at hperm ⊢
    rw [hidle, List.nil_append] at hperm
    show (l.messages ++ (evs ++ if l.early then [] else l.feed).map (·.message boId)).Perm
      ((early ++ (l.emitted ++ evs)).map (·.message boId))
    rw [List.map_append, ← List.append_assoc early, List.map_append]
    refine List.Perm.trans ?_ (hperm.append_right _)
    rw [List.append_assoc]
    exact List.Perm.append_left _ List.perm_append_comm
  have hsilent : ∀ {o : SimulatedOrder} {fs : List OrderStateChangeEvent},
      (fs = [] ∨ fs = [fillEvent o]) → (∀ e ∈ fs, e.eventType ≠ .fill) → fs = [] := by
    rintro o fs (rfl | rfl) hno
    · rfl
    · exact absurd rfl (hno _ (List.mem_singleton_self _))
  rcases h.standing.live_or_told with ⟨hl, hnone⟩ | ⟨o, ho⟩
  · have htracked : l.tracked = false → False := fun htr => (h.tracked htr).1.not_live hl
    -- the feed thread has no event of a terminal status, for the order was live
    have hover : ∀ e ∈ l.feed, e.status.isTerminal = true → IsTold id b' := fun e he ht =>
      absurd hl (h.ended e he ht).not_live
    cases hlive hl with
    | idle h' hw =>
      refine ⟨hacc, ?_, .inl rfl, h.shape, hover, fun _ hw' => absurd hw' hw,
        fun htr => (htracked htr).elim⟩
      rw [List.append_nil, hnone]
      exact .live h'
    | filling o hid hs h' hw => exact absurd rfl (hfills _ (List.mem_singleton_self _))
    | filled o _ hid hs h' evs hevs =>
      obtain rfl := hsilent hevs hfills
      refine ⟨hacc, ?_, .inl rfl, h.shape, hover, fun hl' => absurd hl' h'.not_live,
        fun htr => (htracked htr).elim⟩
      rw [List.append_nil, hnone]
      exact .filled o hs h'
    | canceled o hid hs h' evs hevs =>
      obtain rfl := hsilent hevs fun e he => hfills e (List.mem_append_left _ he)
      have hfeed : l.feed = [] := h.waits hl (hwaits o hl h' hs)
      refine ⟨hacc, ?_, .inr ⟨hfeed, ⟨o, h'⟩, _, rfl⟩, h.shape, hover, fun _ _ => hfeed,
        fun htr => (htracked htr).elim⟩
      rw [cancelEvents_append, hnone]
      exact .canceled o hid hs h'
  · obtain ⟨rfl, ho'⟩ := htold o ho
    refine ⟨hacc, ?_, .inl rfl, h.shape, fun _ _ _ => ⟨o, ho'⟩, fun hl' => absurd hl' ho'.not_live,
      fun htr => ⟨⟨o, ho'⟩, ?_⟩⟩
    · rw [List.append_nil]
      exact h.standing.work (fun hl => absurd hl ho.not_live) fun o ho => (htold o ho).2
    · have howed := (h.tracked htr).2
      unfold WatchLedger.owed at howed ⊢
      rw [hidle] at howed
      exact howed

/-- **The seed** of the order itself. -/
theorem WatchInv.seed {o : SimulatedOrder} (h : WatchInv id boId E l) (hbusy : l.busy = true)
    (hlive : Live id l.book → Live id b' ∨ o.status = .canceled ∧ Told id o b')
    (htold : ∀ o, Told id o l.book → Told id o b')
    (hwaits : Live id l.book → Waits id b' → Waits id l.book) :
    WatchInv id boId E { l with book := b' } := by
  have hex : IsTold id l.book → IsTold id b' := fun ⟨o, ho⟩ => ⟨o, htold o ho⟩
  refine ⟨h.accounted, ?_, h.own.imp_right fun ⟨hf, ht, hown⟩ => ⟨hf, hex ht, hown⟩, h.shape,
    fun e he ht => hex (h.ended e he ht), fun hl hw => ?_,
      fun ht => ⟨hex (h.tracked ht).1, (h.tracked ht).2⟩⟩
  · rcases h.standing.live_or_told with ⟨hold, hnone⟩ | ⟨o', ho'⟩
    · show Standing id b' l.busy (cancelEvents l.emitted)
      rw [hnone]
      rcases hlive hold with hl | ⟨hs, ht⟩
      · exact .live hl
      · exact .seeded o hs ht hbusy
    · exact h.standing.work (fun hl => absurd hl ho'.not_live) htold
  · rcases h.standing.live_or_told with ⟨hold, -⟩ | hold
    · exact h.waits hold (hwaits hold hw)
    · exact absurd hl (hex hold).not_live

theorem Standing.finish (h : Standing id b busy cancels)
    (hnot : ∀ o, Told id o b → o.status ≠ .canceled) : Standing id b false cancels := by
  cases h with
  | live h => exact .live h
  | filled o hs h => exact .filled o hs h
  | canceled o hid hs h => exact .canceled o hid hs h
  | seeded o hs ho _ => exact absurd hs (hnot o ho)

/-- **The consumer thread is done** with an order that is not CANCELED. -/
theorem WatchInv.finish (h : WatchInv id boId E l)
    (hnot : ∀ o, Told id o l.book → o.status ≠ .canceled) :
    WatchInv id boId E { l with busy := false } := by
  exact ⟨h.accounted, h.standing.finish hnot, h.own, h.shape, h.ended, h.waits, h.tracked⟩

/-! ## Deliveries -/

/-- **The feed thread's batch is dropped**, and no event of it was emitted since the
registration. -/
theorem WatchInv.drop (h : WatchInv id boId E l) (hearly : l.early = true ∨ l.feed = []) :
    WatchInv id boId E { l with feed := [] } := by
  have howed : WatchLedger.owed { l with feed := [] } = l.owed := by
    unfold WatchLedger.owed
    rcases hearly with he | hf
    · simp only [he, if_true]
    · simp only [hf]
  refine ⟨?_, h.standing, h.own.imp_right fun ⟨_, ht⟩ => ⟨rfl, ht⟩, fun _ => .inl rfl,
    fun _ he => absurd he List.not_mem_nil, fun _ _ => rfl, fun ht => ⟨(h.tracked ht).1, ?_⟩⟩
  · obtain ⟨early, hsub, -, hperm⟩ := h.accounted
    refine ⟨early, hsub, fun _ => ?_, ?_⟩
    · rw [List.append_nil]
      exact hsub
    · rw [howed]
      exact hperm
  · rw [howed]
    exact (h.tracked ht).2

/-- **An event of the feed thread** that finds the order tracked. -/
theorem WatchInv.deliver (h : WatchInv id boId E l) (hfeed : l.feed = e :: rest)
    (hloses : ¬ (e.eventType = .fill ∧ e.status = .canceled)) :
    WatchInv id boId E { l with
      feed := rest
      tracked := l.tracked && !e.status.isTerminal
      messages := if l.tracked then l.messages ++ [e.message boId] else l.messages } := by
  have hown : l.own = [] := h.own.resolve_right fun ⟨hf, _⟩ => by
    rw [hfeed] at hf
    cases hf
  -- a batch of two begins with a fill that is CANCELED
  have hlast : l.early = false → rest = [] := by
    intro he
    rcases h.shape he with hs | ⟨x, hs⟩ | ⟨x, y, hs, hx⟩ <;> rw [hfeed] at hs
    · cases hs
    · exact (List.cons.inj hs).2
    · exact absurd ((List.cons.inj hs).1 ▸ hx) hloses
  have hsub : ∀ x ∈ rest, x ∈ l.feed := fun x hx => hfeed ▸ List.mem_cons_of_mem _ hx
  refine ⟨?_, h.standing, .inl hown, fun he => .inl (hlast he), fun x hx => h.ended x (hsub x hx),
    fun hl hw => ?_, fun htr => ?_⟩
  · obtain ⟨early, hearlySub, hearly, hperm⟩ := h.accounted
    unfold WatchLedger.owed at hperm
    rw [hown, List.nil_append, hfeed] at hperm
    rw [hfeed] at hearly
    cases htr : l.tracked with
    | false =>
      -- nothing that was emitted is on its way, so the event is an early one
      have howed := (h.tracked htr).2
      unfold WatchLedger.owed at howed
      rw [hown, hfeed] at howed
      cases he : l.early with
      | false =>
        rw [he] at howed
        cases howed
      | true =>
        refine ⟨early, hearlySub, fun _ => ?_, ?_⟩
        · exact (List.Sublist.append_left (List.sublist_cons_self e rest) early).trans (hearly he)
        · simpa [WatchLedger.owed, hown, he] using hperm
    | true =>
      cases he : l.early with
      | false =>
        rw [he] at hperm
        refine ⟨early, hearlySub, nofun, ?_⟩
        simpa [WatchLedger.owed, hown] using hperm
      | true =>
        refine ⟨early ++ [e], ?_, fun _ => ?_, ?_⟩
        · exact (List.Sublist.append_left (List.cons_sublist_cons.mpr
            (List.nil_sublist rest)) early).trans
            (hearly he)
        · rw [List.append_assoc]
          exact hearly he
        · simp only [he, if_true, List.map_nil, List.append_nil, List.map_append] at hperm
          simp only [WatchLedger.owed, hown, if_true, List.append_nil, List.map_nil,
            List.map_append, List.map_cons]
          refine (hperm.append_right _).trans ?_
          rw [List.append_assoc, List.append_assoc]
          exact List.Perm.append_left _ List.perm_append_comm
  · have := h.waits hl hw
    rw [hfeed] at this
    cases this
  · have howed : WatchLedger.owed { l with feed := rest } = [] := by
      unfold WatchLedger.owed
      rw [hown, List.nil_append]
      cases he : l.early with
      | false => exact hlast he
      | true => rfl
    refine ⟨?_, howed⟩
    cases ht : l.tracked with
    | false => exact (h.tracked ht).1
    | true =>
      rw [ht] at htr
      exact h.ended e (hfeed ▸ List.mem_cons_self) (by simpa using htr)

/-- **An event of the consumer thread.** -/
theorem WatchInv.deliverOwn (h : WatchInv id boId E l) (hown : l.own = e :: rest) :
    WatchInv id boId E { l with
      own := rest
      tracked := l.tracked && !e.status.isTerminal
      messages := if l.tracked then l.messages ++ [e.message boId] else l.messages } := by
  obtain ⟨hfeed, htold, x, hx⟩ := h.own.resolve_left fun hnil => by
    rw [hown] at hnil
    cases hnil
  obtain ⟨rfl, rfl⟩ := List.cons.inj (hown.symm.trans hx)
  have htracked : l.tracked = true := by
    cases ht : l.tracked with
    | true => rfl
    | false =>
      have howed := (h.tracked ht).2
      unfold WatchLedger.owed at howed
      rw [hown] at howed
      cases howed
  refine ⟨?_, h.standing, .inl rfl, fun _ => .inl hfeed, h.ended, h.waits, fun _ => ⟨htold, ?_⟩⟩
  · obtain ⟨early, hsub, hearly, hperm⟩ := h.accounted
    refine ⟨early, hsub, hearly, ?_⟩
    unfold WatchLedger.owed at hperm ⊢
    simpa [hown, hfeed, htracked] using hperm
  · unfold WatchLedger.owed
    rw [hfeed]
    exact ite_self _

end

end PolyArena
