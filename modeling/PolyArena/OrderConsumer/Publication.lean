import PolyArena.OrderConsumer.Delivery
import PolyArena.OrderConsumer.Telling
import PolyArena.OrderConsumer.Watched

/-!
# Every event is published

From the registration of an order on, each event that the book emits for it should become one
message.  A `Watch` is a desk with the events that the book emitted for the order since then.

1. `Desk.Sincere` holds of every reachable desk, so it holds when an order is registered.
2. `Watching` says that the ledger of the order is balanced; `watching_step` is its step lemma.
3. `events_published`: every event leads to one message in a run of which no step is a slip.  A slip
   delivers a FILL of an order that is CANCELED by then, whose CANCEL follows, or starts the
   callbacks of a batch before there are any, or finds the order CANCELED when its registration
   ends.
-/

namespace PolyArena

open Relation ShadowOrderbook

/-- The message is about the order. -/
def StreamMessage.isAbout (id : OrderId) : StreamMessage → Bool
  | .fill m => m.orderId = some id
  | .cancel m => m.orderId = some id
  | .exit _ => false

def StreamMessage.isCancel : StreamMessage → Bool
  | .cancel _ => true
  | .fill _ | .exit _ => false

namespace Desk

/-- The events that the operation of a step emits. -/
def emits (d : Desk) : DeskAction → List OrderStateChangeEvent
  | .place now _ id r => (d.book.placeVirtualOrder now id r).events
  | .feedOp now op => (op.apply now d.book).2
  | .placePrefilled .. | .reject _ | .consume | .deliver => []

end Desk

/-- The events that the consumer thread delivers at a stage. -/
def Stage.events : Stage → List OrderStateChangeEvent
  | .callbacks own => own.events
  | .publish | .register | .seed | .attach | .finish => []

def Desk.ownEvents (d : Desk) : List OrderStateChangeEvent :=
  d.task.elim [] fun t => t.stage.events

/-- A desk, with what the book emitted for an order since it was registered. -/
structure Watch where
  desk : Desk
  emitted : List OrderStateChangeEvent := []
  /-- the feed thread delivers what it collected before the registration -/
  early : Bool := true

/-- The order `t` was registered by the step from `d₀` to `d₁`, as `o`. -/
structure Registered (tokenId : String) (t : Task) (o : SimulatedOrder) (d₀ d₁ : Desk) : Prop where
  run : Run Desk.step (fun _ _ => True) (Desk.new tokenId) d₀
  task : d₀.task = some t
  stage : t.stage = .register
  standard : t.prefilled = false
  object : d₀.book.orderObject t.orderId = some o
  step : d₀.step .consume = some d₁

namespace Watch

def step (id : OrderId) (w : Watch) (a : DeskAction) : Option Watch :=
  (w.desk.step a).map fun d => {
    desk := d
    emitted := w.emitted ++ eventsOf id (w.desk.emits a)
    early := match a with
      | .feedOp .. => false
      | _ => w.early }

/-- The events that were emitted for the order and are not delivered yet. -/
def owed (id : OrderId) (w : Watch) : List OrderStateChangeEvent :=
  eventsOf id w.desk.ownEvents ++ if w.early then [] else eventsOf id w.desk.feed.events

/-- The messages about the order since the desk was `d₁`. -/
def messagesSince (id : OrderId) (d₁ : Desk) (w : Watch) : List StreamMessage :=
  (w.desk.consumer.published.drop d₁.consumer.published.length).filter (·.isAbout id)

/-- The step slips, for an order that was registered with `status`. -/
def slips (id : OrderId) (status : OrderStatus) (w : Watch) : DeskAction → Bool
  | .feedOp now op =>
    -- registered CANCELED, and the feed thread reports that before it is seeded
    status = .canceled && w.desk.task.any (fun t => t.orderId = id && t.stage = .seed) &&
      reportedStatus w.desk.book.lastReported id ≠ .canceled &&
      ((BookAction.feed op).collection now w.desk.book).isSome
  | .deliver =>
    status ≠ .canceled && match w.desk.feed with
      | .collected events => !w.early && w.desk.book.stateChangeCallbacks = 0 &&
          !(eventsOf id events).isEmpty
      | .firing [] => false
      | .firing (e :: _) => e.orderId = id && e.eventType = .fill && e.status = .canceled
  | .consume =>
    status ≠ .canceled && w.desk.task.any (fun t => t.orderId = id && t.stage = .finish) &&
      (w.desk.book.orderObject id).any fun o => o.status = .canceled
  | .place .. | .placePrefilled .. | .reject _ => false

/-- The ledger of the order. -/
def ledger (id : OrderId) (d₁ : Desk) (w : Watch) : WatchLedger where
  book := w.desk.book
  tracked := (w.desk.consumer.orderToBo.get? id).isSome
  busy := w.desk.task.any fun t => t.orderId = id
  own := eventsOf id w.desk.ownEvents
  feed := eventsOf id w.desk.feed.events
  early := w.early
  emitted := w.emitted
  messages := w.messagesSince id d₁

end Watch

/-- Since the order `t` was registered each event the book emitted for it has led to one message, or
is still to be delivered; the other messages are those of events from before.  And when the order is
CANCELED, no step or report of it is pending, then there is one cancel message, of what it is. -/
structure EventsPublished (t : Task) (d₁ : Desk) (w : Watch) : Prop where
  each : ∃ early, early.Sublist (eventsOf t.orderId d₁.feed.events) ∧
    (w.messagesSince t.orderId d₁ ++ (w.owed t.orderId).map (·.message t.boId)).Perm
      ((early ++ w.emitted).map (·.message t.boId))
  cancel : (∀ t' ∈ w.desk.task, t'.orderId ≠ t.orderId) → w.owed t.orderId = [] →
    eventsOf t.orderId w.desk.book.collectStateChanges.2 = [] →
    ∀ o ∈ w.desk.book.orderObject t.orderId, o.status = .canceled →
      ∃ m, (w.messagesSince t.orderId d₁).filter (·.isCancel) = [.cancel m] ∧ m.boId = t.boId ∧
        m.filled = o.filled ∧ m.avgEntryPrice = o.avgEntryPrice.getD 0

/-! ## Reachable desks -/

namespace Desk

/-- What a step does to the book. -/
inductive Handles (b : ShadowOrderbook) : ShadowOrderbook → Prop
  | none : Handles b b
  | operate (now : Time) (a : BookAction) (hallowed : a.Allowed b)
      (hseed : (ReporterAction.operate a).seeds = false) : Handles b (a.apply now b)
  | reset (id : OrderId) : Handles b (b.resetFillLevels id)
  | seed (id : OrderId) (o : SimulatedOrder) (ho : b.orderObject id = some o) :
      Handles b (b.seedLastReported id o.filled o.status)

/-- What holds of every reachable desk about events and orders that are over. -/
structure Sincere (d : Desk) : Prop where
  tells : ∃ taken, DeskTells taken d
  candid : Candid d.book
  standard : ∀ t ∈ d.task, t.prefilled = false → t.orderId ∈ d.standard
  feed : ∀ e ∈ d.feed.events, (e.eventType = .cancel → e.status = .canceled) ∧
    (e.status.isTerminal = true → ∃ o, o.status = e.status ∧ Over e.orderId o d.book)

section

variable {d d' : Desk} {t : Task} {o : SimulatedOrder} {a : DeskAction} {id : OrderId}

theorem handles_work (ho : d.book.orderObject t.orderId = some o) :
    Handles d.book (d.work t o).book := by
  unfold work
  split
  · split <;> exact .none
  · dsimp only
    split
    · exact .reset t.orderId
    · exact .none
  · exact .none
  · exact .seed t.orderId o ho
  · dsimp only
    split
    · exact .none
    · exact .operate 0 .registerStateChangeCallback trivial rfl
  · exact .none

theorem handles_step (hstep : d.step a = some d') : Handles d.book d'.book := by
  cases steps_of_step hstep with
  | place now boId x r hidle hfresh hq => exact .operate now (.place x r) ⟨hfresh, hq⟩ rfl
  | placePrefilled now boId x r hidle hfresh => exact .operate now (.placePrefilled x r) hfresh rfl
  | reject boId hidle => exact .none
  | consume t o ht ho => exact handles_work ho
  | feedOp now op hidle => exact .operate now (.feed op) trivial rfl
  | deliver c f hd => exact .none

theorem Handles.candid {b b' : ShadowOrderbook} (h : Handles b b') (hinv : BookInv b)
    (hc : Candid b) :
    Candid b' := by
  cases h with
  | none => exact hc
  | operate now a hallowed hseed => exact candid_step hc hinv hallowed hseed
  | reset id => exact hc.resetFillLevels id
  | seed id o ho => exact hc.seed hinv ho

/-- What is left of a batch after a delivery was in it. -/
theorem mem_of_deliver {n : ℕ} {c c' : OrderConsumer} {f f' : Batch} {e : OrderStateChangeEvent}
    (hd : f.deliver n c = some (c', f')) (he : e ∈ f'.events) : e ∈ f.events := by
  cases f with
  | collected events =>
    cases hd
    obtain ⟨l, hl, he⟩ := List.mem_flatten.mp he
    exact List.eq_of_mem_replicate hl ▸ he
  | firing events =>
    cases events with
    | nil => cases hd
    | cons x rest =>
      cases hd
      exact List.mem_cons_of_mem _ he

theorem standard_step (hstep : d.step a = some d') (hid : id ∈ d.standard) : id ∈ d'.standard := by
  cases steps_of_step hstep with
  | place now boId x r hidle hfresh hq => exact List.mem_cons_of_mem _ hid
  | placePrefilled now boId x r hidle hfresh => exact hid
  | reject boId hidle => exact hid
  | consume t o ht ho => rwa [work_standard]
  | feedOp now op hidle => exact hid
  | deliver c f hd => exact hid

/-- The order at hand is that of before, or it was just taken up. -/
theorem task_step (hstep : d.step a = some d') (ht : d'.task = some t) (hp : t.prefilled = false) :
    t.orderId ∈ d'.standard ∨ ∃ t' ∈ d.task, t'.orderId = t.orderId ∧
      t'.prefilled = t.prefilled := by
  cases steps_of_step hstep with
  | place now boId x r hidle hfresh hq =>
    cases ht
    exact .inl List.mem_cons_self
  | placePrefilled now boId x r hidle hfresh =>
    cases ht
    cases hp
  | reject boId hidle => exact .inr ⟨t, ht, rfl, rfl⟩
  | consume t' o hold ho => exact .inr ⟨t', hold, task_work ht⟩
  | feedOp now op hidle => exact .inr ⟨t, ht, rfl, rfl⟩
  | deliver c f hd => exact .inr ⟨t, ht, rfl, rfl⟩

/-- **One step** keeps a desk sincere. -/
theorem sincere_step (h : Sincere d) (hstep : d.step a = some d') : Sincere d' := by
  obtain ⟨taken, htells⟩ := h.tells
  obtain ⟨htells', heffects⟩ := deskTells_step htells hstep
  refine ⟨⟨_, htells'⟩, (handles_step hstep).candid htells.inv.book h.candid, fun t ht hp => ?_,
    fun e he => ?_⟩
  · rcases task_step hstep ht hp with hmem | ⟨t', ht', hid, hp'⟩
    · exact hmem
    · exact standard_step hstep (hid ▸ h.standard t' ht' (hp'.trans hp))
  have hold : e ∈ d.feed.events → (e.eventType = .cancel → e.status = .canceled) ∧
      (e.status.isTerminal = true → ∃ o, o.status = e.status ∧ Over e.orderId o d'.book) := by
    intro he
    obtain ⟨htype, hover⟩ := h.feed e he
    refine ⟨htype, fun ht => ?_⟩
    obtain ⟨o, hs, ho⟩ := hover ht
    exact ⟨o, hs, ho.effects heffects⟩
  cases steps_of_step hstep with
  | place now boId x r hidle hfresh hq => exact hold he
  | placePrefilled now boId x r hidle hfresh => exact hold he
  | reject boId hidle => exact hold he
  | consume t o ht ho => exact hold (work_feed ▸ he)
  | feedOp now op hidle => exact status_of_event now (.feed op) htells.inv.book trivial rfl he
  | deliver c f hd => exact hold (mem_of_deliver hd he)

theorem sincere_new (tokenId : String) : Sincere (new tokenId) :=
  ⟨⟨[], deskTells_new tokenId⟩, candid_new tokenId, nofun, fun _ he => absurd he List.not_mem_nil⟩

end

end Desk

/-! ## The consumer and one order -/

/-- The consumer publishes more, and tracks the order under its row if it does. -/
structure TracksOn (id : OrderId) (c c' : OrderConsumer) : Prop where
  published : ∃ ms, c'.published = c.published ++ ms
  row : ∀ k, c'.orderToBo.get? id = some k → c.orderToBo.get? id = some k

/-- What the consumer does is not about the order. -/
structure Apart (id : OrderId) (c c' : OrderConsumer) : Prop where
  published : ∃ ms, c'.published = c.published ++ ms ∧ ms.filter (·.isAbout id) = []
  row : c'.orderToBo.get? id = c.orderToBo.get? id

section

variable {id k : OrderId} {boId : ℕ} {c c' : OrderConsumer} {e : OrderStateChangeEvent}
  {o : SimulatedOrder}

theorem Apart.tracksOn (h : Apart id c c') : TracksOn id c c' := by
  obtain ⟨ms, hms, -⟩ := h.published
  exact ⟨⟨ms, hms⟩, fun k hk => h.row ▸ hk⟩

theorem Apart.refl : Apart id c c := ⟨⟨[], (List.append_nil _).symm, rfl⟩, rfl⟩

theorem Apart.publish {m : StreamMessage} (hm : m.isAbout id = false) : Apart id c (c.publish m) :=
  ⟨⟨[m], rfl, by simp [hm]⟩, rfl⟩

theorem Apart.forget (h : Apart id c c') (hne : id ≠ k) : Apart id c (c'.forget k) :=
  ⟨h.published, (SortedDict.get?_erase_ne hne).trans h.row⟩

theorem apart_register (hne : id ≠ k) : Apart id c (c.register k boId) :=
  ⟨⟨[], (List.append_nil _).symm, rfl⟩, SortedDict.get?_set_ne hne⟩

theorem isAbout_message : (e.message boId).isAbout id = decide (e.orderId = id) := by
  unfold OrderStateChangeEvent.message
  cases e.eventType <;> simp [StreamMessage.isAbout, OrderStateChangeEvent.fillMessage,
    OrderStateChangeEvent.cancelMessage]

theorem isCancel_message : (e.message boId).isCancel = decide (e.eventType = .cancel) := by
  unfold OrderStateChangeEvent.message
  cases e.eventType <;> rfl

/-- The cancels among the messages of events are those of the CANCEL events. -/
theorem filter_messages (evs : List OrderStateChangeEvent) :
    (evs.map (·.message boId)).filter (·.isCancel) = (cancelEvents evs).map (·.message boId) := by
  unfold cancelEvents
  rw [List.filter_map]
  exact congrArg _ (List.filter_congr fun e _ => isCancel_message)

theorem apart_publishImmediateFill (hne : o.orderId ≠ id) :
    Apart id c (c.publishImmediateFill o boId) := by
  unfold OrderConsumer.publishImmediateFill
  split
  · exact .publish (by simp [StreamMessage.isAbout, SimulatedOrder.fillMessage, hne])
  · exact .refl

theorem apart_publishImmediateCancel (hne : o.orderId ≠ id) :
    Apart id c (c.publishImmediateCancel o boId) := by
  unfold OrderConsumer.publishImmediateCancel
  split
  · exact (Apart.publish (by simp [StreamMessage.isAbout, SimulatedOrder.iocCancelMessage,
      hne])).forget hne.symm
  · exact .refl

theorem apart_onStateChange (hne : e.orderId ≠ id) : Apart id c (c.onStateChange e) := by
  cases hget : c.orderToBo.get? e.orderId with
  | none =>
    rw [onStateChange_untracked hget]
    exact .refl
  | some boId =>
    have hm : (e.message boId).isAbout id = false := isAbout_message.trans (decide_eq_false hne)
    rw [onStateChange_some hget]
    split
    · exact (Apart.publish hm).forget hne.symm
    · exact .publish hm

theorem tracksOn_onStateChange : TracksOn id c (c.onStateChange e) := by
  refine ⟨?_, fun k hk => tracked_of_onStateChange hk⟩
  cases hget : c.orderToBo.get? e.orderId with
  | none =>
    rw [onStateChange_untracked hget]
    exact ⟨[], (List.append_nil _).symm⟩
  | some boId =>
    refine ⟨[e.message boId], ?_⟩
    rw [onStateChange_some hget]
    split <;> rfl

/-- An event of the order is published when the order is tracked, and a terminal one forgets it. -/
theorem onStateChange_self (hid : e.orderId = id)
    (hrow : ∀ k, c.orderToBo.get? id = some k → k = boId) :
    (c.onStateChange e).published = c.published ++
        (if (c.orderToBo.get? id).isSome then [e.message boId] else []) ∧
      ((c.onStateChange e).orderToBo.get? id).isSome =
        ((c.orderToBo.get? id).isSome && !e.status.isTerminal) := by
  subst hid
  cases hget : c.orderToBo.get? e.orderId with
  | none =>
    rw [onStateChange_untracked hget, hget]
    exact ⟨(List.append_nil _).symm, rfl⟩
  | some k =>
    obtain rfl := hrow k hget
    rw [onStateChange_some hget]
    cases ht : e.status.isTerminal with
    | true => simp [OrderConsumer.publish, OrderConsumer.forget]
    | false => simp [OrderConsumer.publish, hget]

end

/-! ## Watching -/

/-- The order was registered, and its ledger is balanced. -/
structure Watching (t : Task) (d₁ : Desk) (w : Watch) : Prop where
  tells : ∃ taken, Desk.DeskTells taken w.desk
  standard : t.orderId ∈ w.desk.standard
  grown : d₁.consumer.published.length ≤ w.desk.consumer.published.length
  row : ∀ k, w.desk.consumer.orderToBo.get? t.orderId = some k → k = t.boId
  task : ∀ t' ∈ w.desk.task, t'.orderId = t.orderId →
    t'.prefilled = false ∧ (t'.stage = .seed ∨ t'.stage = .attach ∨ t'.stage = .finish)
  balanced : WatchInv t.orderId t.boId (eventsOf t.orderId d₁.feed.events) (w.ledger t.orderId d₁)

section

variable {t t' : Task} {d₁ d' : Desk} {w w' : Watch} {a : DeskAction} {id : OrderId}
  {o : SimulatedOrder} {emitted : List OrderStateChangeEvent} {early : Bool} {c c' : OrderConsumer}

theorem Watching.inv (h : Watching t d₁ w) : Desk.DeskInv w.desk := by
  obtain ⟨taken, htells⟩ := h.tells
  exact htells.inv

/-- A step after which the ledger is balanced. -/
theorem Watching.next (h : Watching t d₁ w) (hstep : w.desk.step a = some d')
    (htracks : TracksOn t.orderId w.desk.consumer d'.consumer)
    (htask : ∀ t' ∈ d'.task, t'.orderId = t.orderId →
      t'.prefilled = false ∧ (t'.stage = .seed ∨ t'.stage = .attach ∨ t'.stage = .finish))
    (hbalanced : WatchInv t.orderId t.boId (eventsOf t.orderId d₁.feed.events)
      (Watch.ledger t.orderId d₁ ⟨d', emitted, early⟩)) : Watching t d₁ ⟨d', emitted, early⟩ := by
  obtain ⟨taken, htells⟩ := h.tells
  refine ⟨⟨_, (Desk.deskTells_step htells hstep).1⟩, Desk.standard_step hstep h.standard, ?_,
    fun k hk => h.row k (htracks.row k hk), htask, hbalanced⟩
  obtain ⟨ms, hms⟩ := htracks.published
  show _ ≤ d'.consumer.published.length
  rw [hms, List.length_append]
  exact h.grown.trans (Nat.le_add_right _ _)

theorem messages_append {l ms : List StreamMessage} {n : ℕ} (hn : n ≤ l.length) :
    ((l ++ ms).drop n).filter (·.isAbout id) =
      (l.drop n).filter (·.isAbout id) ++ ms.filter (·.isAbout id) := by
  rw [List.drop_append_of_le_length hn, List.filter_append]

/-- The ledger after a step that is not about the order. -/
theorem ledger_apart (h : Watching t d₁ w) (hapart : Apart t.orderId w.desk.consumer d'.consumer)
    (hbusy : (d'.task.any fun t' => t'.orderId = t.orderId) = w.desk.task.any fun t' =>
      t'.orderId = t.orderId)
    (hown : eventsOf t.orderId d'.ownEvents = eventsOf t.orderId w.desk.ownEvents)
    (hfeed : eventsOf t.orderId d'.feed.events = eventsOf t.orderId w.desk.feed.events) :
    Watch.ledger t.orderId d₁ ⟨d', w.emitted, w.early⟩ =
      { w.ledger t.orderId d₁ with book := d'.book } := by
  obtain ⟨ms, hms, hnone⟩ := hapart.published
  have hmessages : Watch.messagesSince t.orderId d₁ ⟨d', w.emitted, w.early⟩ =
      w.messagesSince t.orderId d₁ := by
    unfold Watch.messagesSince
    rw [hms, messages_append h.grown, hnone, List.append_nil]
  unfold Watch.ledger
  rw [hmessages, hapart.row, hbusy, hown, hfeed]

/-- A step that is not about the order. -/
theorem Watching.quiet (h : Watching t d₁ w) (hstep : w.desk.step a = some d')
    (hapart : Apart t.orderId w.desk.consumer d'.consumer)
    (htask : ∀ t' ∈ d'.task, t'.orderId = t.orderId →
      t'.prefilled = false ∧ (t'.stage = .seed ∨ t'.stage = .attach ∨ t'.stage = .finish))
    (hbusy : (d'.task.any fun t' => t'.orderId = t.orderId) = w.desk.task.any fun t' =>
      t'.orderId = t.orderId)
    (hown : eventsOf t.orderId d'.ownEvents = eventsOf t.orderId w.desk.ownEvents)
    (hfeed : eventsOf t.orderId d'.feed.events = eventsOf t.orderId w.desk.feed.events)
    (hbook : WatchInv t.orderId t.boId (eventsOf t.orderId d₁.feed.events)
      { w.ledger t.orderId d₁ with book := d'.book }) : Watching t d₁ ⟨d', w.emitted, w.early⟩ := by
  refine h.next hstep hapart.tracksOn htask ?_
  rw [ledger_apart h hapart hbusy hown hfeed]
  exact hbook

/-- A step that delivers one of the order's events. -/
theorem Watching.event {e : OrderStateChangeEvent} (h : Watching t d₁ w)
    (hstep : w.desk.step a = some d') (hid : e.orderId = t.orderId)
    (hconsumer : d'.consumer = w.desk.consumer.onStateChange e) (hbook : d'.book = w.desk.book)
    (htask : ∀ t' ∈ d'.task, t'.orderId = t.orderId →
      t'.prefilled = false ∧ (t'.stage = .seed ∨ t'.stage = .attach ∨ t'.stage = .finish))
    (hbusy : (d'.task.any fun t' => t'.orderId = t.orderId) = w.desk.task.any fun t' =>
      t'.orderId = t.orderId)
    (hbalanced : WatchInv t.orderId t.boId (eventsOf t.orderId d₁.feed.events)
      { w.ledger t.orderId d₁ with
        own := eventsOf t.orderId d'.ownEvents
        feed := eventsOf t.orderId d'.feed.events
        tracked := (w.ledger t.orderId d₁).tracked && !e.status.isTerminal
        messages := if (w.ledger t.orderId d₁).tracked then
            (w.ledger t.orderId d₁).messages ++ [e.message t.boId]
          else (w.ledger t.orderId d₁).messages }) : Watching t d₁ ⟨d', w.emitted, w.early⟩ := by
  obtain ⟨hpub, hrow⟩ := onStateChange_self hid h.row
  have hmessages : Watch.messagesSince t.orderId d₁ ⟨d', w.emitted, w.early⟩ =
      if (w.desk.consumer.orderToBo.get? t.orderId).isSome then
        w.messagesSince t.orderId d₁ ++ [e.message t.boId]
      else w.messagesSince t.orderId d₁ := by
    have habout : (e.message t.boId).isAbout t.orderId = true :=
      isAbout_message.trans (decide_eq_true hid)
    unfold Watch.messagesSince
    rw [hconsumer, hpub, messages_append h.grown]
    split
    · simp [habout]
    · exact List.append_nil _
  refine h.next hstep (hconsumer ▸ tracksOn_onStateChange) htask ?_
  unfold Watch.ledger
  rw [hmessages, hconsumer, hrow, hbook, hbusy]
  exact hbalanced

/-! ### The consumer thread -/

theorem callbacks_le_one {d : Desk} (h : Desk.DeskInv d) :
    d.book.stateChangeCallbacks = 0 ∨ d.book.stateChangeCallbacks = 1 := by
  rw [h.attached]
  split
  · exact .inr rfl
  · exact .inl rfl

/-- No callback runs for nothing: when there is none, the order at hand is the one that is
watched. -/
theorem own_of_unattached (h : Watching t d₁ w) (ht : w.desk.task = some t')
    (hne : t'.orderId ≠ t.orderId) (hzero : w.desk.book.stateChangeCallbacks = 0) :
    (w.ledger t.orderId d₁).own = [] := by
  cases htracked : (w.ledger t.orderId d₁).tracked with
  | true =>
    obtain ⟨x, hx, hid, -⟩ := h.inv.unattached hzero t.orderId htracked
    rw [ht] at hx
    cases hx
    exact absurd hid hne
  | false => exact (List.append_eq_nil_iff.mp (h.balanced.tracked htracked).2).1

/-- The consumer thread goes on with another order, apart from the one that is watched. -/
theorem Watching.apart (h : Watching t d₁ w) (hstep : w.desk.step a = some d')
    (ht : w.desk.task = some t') (hne : t'.orderId ≠ t.orderId)
    (htask : ∀ x ∈ d'.task, x.orderId = t'.orderId)
    (hapart : Apart t.orderId w.desk.consumer d'.consumer)
    (hown : eventsOf t.orderId d'.ownEvents = eventsOf t.orderId w.desk.ownEvents)
    (hfeed : d'.feed = w.desk.feed)
    (hbook : WatchInv t.orderId t.boId (eventsOf t.orderId d₁.feed.events)
      { w.ledger t.orderId d₁ with book := d'.book }) : Watching t d₁ ⟨d', w.emitted, w.early⟩ := by
  refine h.quiet hstep hapart (fun x hx hid => absurd (htask x hx ▸ hid) hne) ?_ hown
    (hfeed ▸ rfl) hbook
  · have hnone : (d'.task.any fun t' => t'.orderId = t.orderId) = false := by
      cases hd : d'.task with
      | none => rfl
      | some x => simpa [htask x hd] using hne
    rw [hnone, ht]
    simpa using hne

theorem ownEvents_of {d : Desk} (ht : d.task = some t') : d.ownEvents = t'.stage.events := by
  unfold Desk.ownEvents
  rw [ht]
  rfl

/-- The order that is not registered yet is another one. -/
theorem Watching.early_ne (h : Watching t d₁ w) (ht : w.desk.task = some t')
    (hs : t'.stage.isEarly) :
    t'.orderId ≠ t.orderId := by
  intro hid
  obtain ⟨-, hst | hst | hst⟩ := h.task t' ht hid <;> rw [hst] at hs <;> cases hs

/-- The callbacks of another order's placement. -/
theorem watching_callbacks {own : Batch} (h : Watching t d₁ w) (ht : w.desk.task = some t')
    (hs : t'.stage = .callbacks own) (hstep : w.desk.step .consume = some (w.desk.work t' o)) :
    Watching t d₁ ⟨w.desk.work t' o, w.emitted, w.early⟩ := by
  have hne : t'.orderId ≠ t.orderId := h.early_ne ht (by rw [hs]; rfl)
  have hownEvents : w.desk.ownEvents = own.events := by rw [ownEvents_of ht, hs]; rfl
  cases own with
  | collected events =>
    have hd' : w.desk.work t' o = { w.desk with
        task := some { t' with stage := .callbacks (.firing
          (List.replicate w.desk.book.stateChangeCallbacks events).flatten) } } := by
      unfold Desk.work
      rw [hs]
      rfl
    rw [hd'] at hstep ⊢
    refine h.apart hstep ht hne (by rintro x ⟨⟩; rfl) .refl ?_ rfl h.balanced
    rw [hownEvents]
    show eventsOf t.orderId (List.replicate w.desk.book.stateChangeCallbacks events).flatten = _
    rcases callbacks_le_one h.inv with hzero | hone
    · have hnone := own_of_unattached h ht hne hzero
      rw [hzero]
      exact (hnone.symm.trans (congrArg _ hownEvents))
    · rw [hone]
      simp [Batch.events]
  | firing events =>
    cases events with
    | nil =>
      have hd' : w.desk.work t' o = { w.desk with task := some { t' with stage := .publish } } := by
        unfold Desk.work
        rw [hs]
        rfl
      rw [hd'] at hstep ⊢
      refine h.apart hstep ht hne (by rintro x ⟨⟩; rfl) .refl ?_ rfl h.balanced
      rw [hownEvents]
      rfl
    | cons e rest =>
      have hd' : w.desk.work t' o = { w.desk with
          consumer := w.desk.consumer.onStateChange e
          task := some { t' with stage := .callbacks (.firing rest) } } := by
        unfold Desk.work
        rw [hs]
        rfl
      rw [hd'] at hstep ⊢
      by_cases hid : e.orderId = t.orderId
      · have hown : (w.ledger t.orderId d₁).own = e :: eventsOf t.orderId rest := by
          show eventsOf t.orderId w.desk.ownEvents = _
          rw [hownEvents]
          exact List.filter_cons_of_pos (by simpa using hid)
        refine h.event hstep hid rfl rfl (by rintro x ⟨⟩ hx; exact absurd hx hne)
          (by rw [ht]; rfl) ?_
        exact h.balanced.deliverOwn hown
      · refine h.apart hstep ht hne (by rintro x ⟨⟩; rfl)
          (apart_onStateChange hid) ?_ rfl h.balanced
        rw [hownEvents]
        exact (List.filter_cons_of_neg (by simpa using hid)).symm

/-- A step of the consumer thread that leaves the book and the feed thread alone. -/
theorem work_step {d : Desk} (ht : d.task = some t') (ho : d.book.orderObject t'.orderId = some o) :
    d.step .consume = some (d.work t' o) := by
  unfold Desk.step
  simp only [ht, ho, Option.map_some]

theorem watching_publish (h : Watching t d₁ w) (ht : w.desk.task = some t')
    (hs : t'.stage = .publish) (hoid : o.orderId = t'.orderId)
    (hstep : w.desk.step .consume = some (w.desk.work t' o)) :
    Watching t d₁ ⟨w.desk.work t' o, w.emitted, w.early⟩ := by
  have hne : t'.orderId ≠ t.orderId := h.early_ne ht (by rw [hs]; rfl)
  have hd' : w.desk.work t' o = { w.desk with
      book := if 0 < o.filled then w.desk.book.resetFillLevels t'.orderId else w.desk.book
      consumer := w.desk.consumer.publishImmediateFill o t'.boId
      task := some { t' with stage := .register } } := by
    unfold Desk.work
    rw [hs]
  rw [hd'] at hstep ⊢
  refine h.apart hstep ht hne (by rintro x ⟨⟩; rfl)
    (apart_publishImmediateFill (hoid ▸ hne)) ?_ rfl ?_
  · rw [ownEvents_of ht, hs]
    rfl
  · dsimp only
    split
    · refine h.balanced.work (fun hl => .inl (hl.resetFillLevels _))
        (fun x hx => hx.resetFillLevels h.inv.book _) fun _ hw => hw.of_resetFillLevels
    · exact h.balanced

theorem watching_register (h : Watching t d₁ w) (ht : w.desk.task = some t')
    (hs : t'.stage = .register) (hstep : w.desk.step .consume = some (w.desk.work t' o)) :
    Watching t d₁ ⟨w.desk.work t' o, w.emitted, w.early⟩ := by
  have hne : t'.orderId ≠ t.orderId := h.early_ne ht (by rw [hs]; rfl)
  have hd' : w.desk.work t' o = { w.desk with
      consumer := w.desk.consumer.register t'.orderId t'.boId
      task := some { t' with stage := .seed } } := by
    unfold Desk.work
    rw [hs]
  rw [hd'] at hstep ⊢
  refine h.apart hstep ht hne (by rintro x ⟨⟩; rfl) (apart_register hne.symm) ?_ rfl h.balanced
  rw [ownEvents_of ht, hs]
  rfl

theorem watching_seed (h : Watching t d₁ w) (ht : w.desk.task = some t') (hs : t'.stage = .seed)
    (ho : w.desk.book.orderObject t'.orderId = some o)
    (hstep : w.desk.step .consume = some (w.desk.work t' o)) :
    Watching t d₁ ⟨w.desk.work t' o, w.emitted, w.early⟩ := by
  have hd' : w.desk.work t' o = { w.desk with
      book := w.desk.book.seedLastReported t'.orderId o.filled o.status
      task := some { t' with stage := .attach } } := by
    unfold Desk.work
    rw [hs]
  rw [hd'] at hstep ⊢
  have hownEvents : w.desk.ownEvents = [] := by
    rw [ownEvents_of ht, hs]
    rfl
  by_cases hid : t'.orderId = t.orderId
  · refine h.quiet hstep .refl ?_ (by rw [ht]; rfl) (by rw [hownEvents]; rfl) rfl ?_
    · rintro x ⟨⟩ -
      exact ⟨(h.task t' ht hid).1, .inr (.inl rfl)⟩
    · have hbusy : (w.ledger t.orderId d₁).busy = true := by
        show (w.desk.task.any fun t' => t'.orderId = t.orderId) = true
        rw [ht]
        simpa using hid
      rw [hid] at ho ⊢
      refine h.balanced.seed (o := o) hbusy (fun hl => ?_) (fun x hx => ?_) fun _ hw => hw
      · exact live_seed h.inv.book ho hl
      · exact told_of_seed hx.ended (hx.ended.object ho).1
  · refine h.apart hstep ht hid (by rintro x ⟨⟩; rfl) .refl (by rw [hownEvents]; rfl) rfl ?_
    exact h.balanced.work (fun hl => .inl (hl.seed_ne (Ne.symm hid)))
      (fun x hx => hx.seed_ne (Ne.symm hid))
      fun _ hw => hw

theorem watching_attach (h : Watching t d₁ w) (ht : w.desk.task = some t') (hs : t'.stage = .attach)
    (hstep : w.desk.step .consume = some (w.desk.work t' o)) :
    Watching t d₁ ⟨w.desk.work t' o, w.emitted, w.early⟩ := by
  have hregister : WatchInv t.orderId t.boId (eventsOf t.orderId d₁.feed.events)
      { w.ledger t.orderId d₁ with book := w.desk.book.registerStateChangeCallback } :=
    h.balanced.work .inl (fun _ hx =>
      ⟨⟨hx.ended.placed, hx.ended.terminal, hx.ended.objects⟩, hx.reported⟩)
      fun _ hw => hw
  have hd' : w.desk.work t' o = if w.desk.tokenId ∈ w.desk.consumer.registeredBooks then
        { w.desk with task := some { t' with stage := .finish } }
      else { w.desk with
        book := w.desk.book.registerStateChangeCallback
        consumer := { w.desk.consumer with
          registeredBooks := w.desk.tokenId :: w.desk.consumer.registeredBooks }
        task := some { t' with stage := .finish } } := by
    unfold Desk.work
    rw [hs]
  have htask : ∀ x ∈ some { t' with stage := .finish }, x.orderId = t.orderId →
      x.prefilled = false ∧ (x.stage = .seed ∨ x.stage = .attach ∨ x.stage = .finish) := by
    rintro x ⟨⟩ hid
    exact ⟨(h.task t' ht hid).1, .inr (.inr rfl)⟩
  have hownEvents : w.desk.ownEvents = [] := by
    rw [ownEvents_of ht, hs]
    rfl
  rw [hd'] at hstep ⊢
  split
  · next hreg =>
    rw [if_pos hreg] at hstep
    exact h.quiet hstep .refl htask (by rw [ht]; rfl) (by rw [hownEvents]; rfl) rfl h.balanced
  · next hreg =>
    rw [if_neg hreg] at hstep
    exact h.quiet hstep ⟨⟨[], (List.append_nil _).symm, rfl⟩, rfl⟩ htask (by rw [ht]; rfl)
      (by rw [hownEvents]; rfl) rfl hregister

theorem watching_finish (h : Watching t d₁ w) (ht : w.desk.task = some t') (hs : t'.stage = .finish)
    (ho : w.desk.book.orderObject t'.orderId = some o) (hoid : o.orderId = t'.orderId)
    (hslip : t'.orderId = t.orderId → o.status ≠ .canceled)
    (hstep : w.desk.step .consume = some (w.desk.work t' o)) :
    Watching t d₁ ⟨w.desk.work t' o, w.emitted, w.early⟩ := by
  have hd' : w.desk.work t' o = { w.desk with
      consumer := if t'.prefilled then w.desk.consumer
        else w.desk.consumer.publishImmediateCancel o t'.boId
      task := none } := by
    unfold Desk.work
    rw [hs]
  have hownEvents : w.desk.ownEvents = [] := by
    rw [ownEvents_of ht, hs]
    rfl
  rw [hd'] at hstep ⊢
  by_cases hid : t'.orderId = t.orderId
  · have hstatus := hslip hid
    have hsame : (if t'.prefilled then w.desk.consumer
        else w.desk.consumer.publishImmediateCancel o t'.boId) = w.desk.consumer := by
      unfold OrderConsumer.publishImmediateCancel
      rw [if_neg hstatus, ite_self]
    rw [hsame] at hstep ⊢
    refine h.next hstep Apart.refl.tracksOn nofun ?_
    have hledger : Watch.ledger t.orderId d₁ ⟨{ w.desk with task := none }, w.emitted, w.early⟩ =
        { w.ledger t.orderId d₁ with busy := false } := by
      unfold Watch.ledger
      rw [hownEvents]
      rfl
    rw [hledger]
    refine h.balanced.finish fun x hx hcan => hstatus ?_
    rw [hid] at ho
    exact (hx.ended.object ho).1.trans hcan
  · refine h.apart hstep ht hid (fun x hx => by cases hx) ?_
      (by rw [hownEvents]; rfl) rfl h.balanced
    dsimp only
    split
    · exact .refl
    · exact apart_publishImmediateCancel (hoid ▸ hid)

/-- **A step of the consumer thread.** -/
theorem watching_work (h : Watching t d₁ w) (ht : w.desk.task = some t')
    (ho : w.desk.book.orderObject t'.orderId = some o)
    (hslip : t'.orderId = t.orderId → t'.stage = .finish → o.status ≠ .canceled) :
    Watching t d₁ ⟨w.desk.work t' o, w.emitted, w.early⟩ := by
  have hstep := work_step ht ho
  have hoid : o.orderId = t'.orderId := (orderObject_filled h.inv.book ho).1
  cases hs : t'.stage with
  | callbacks own => exact watching_callbacks h ht hs hstep
  | publish => exact watching_publish h ht hs hoid hstep
  | register => exact watching_register h ht hs hstep
  | seed => exact watching_seed h ht hs ho hstep
  | attach => exact watching_attach h ht hs hstep
  | finish => exact watching_finish h ht hs ho hoid (fun hid => hslip hid hs) hstep

/-! ### The feed thread -/

/-- **A delivery of the feed thread.** -/
theorem watching_deliver (h : Watching t d₁ w) (hstep : w.desk.step .deliver = some d')
    (hslip : match w.desk.feed with
      | .collected events => w.early = false → w.desk.book.stateChangeCallbacks = 0 →
          eventsOf t.orderId events = []
      | .firing [] => True
      | .firing (e :: _) =>
        e.orderId = t.orderId → ¬ (e.eventType = .fill ∧ e.status = .canceled)) :
    Watching t d₁ ⟨d', w.emitted, w.early⟩ := by
  have hcopy := hstep
  simp only [Desk.step] at hcopy
  obtain ⟨⟨c, f⟩, hd, rfl⟩ := Option.map_eq_some_iff.mp hcopy
  cases hf : w.desk.feed with
  | collected events =>
    rw [hf] at hd hslip
    cases hd
    rcases callbacks_le_one h.inv with hzero | hone
    · refine h.next hstep Apart.refl.tracksOn h.task ?_
      have hledger : Watch.ledger t.orderId d₁ ⟨{ w.desk with
            feed := .firing (List.replicate w.desk.book.stateChangeCallbacks events).flatten },
            w.emitted, w.early⟩ = { w.ledger t.orderId d₁ with feed := [] } := by
        unfold Watch.ledger
        rw [hzero]
        rfl
      rw [hledger]
      refine h.balanced.drop ?_
      cases he : w.early with
      | true => exact .inl he
      | false =>
        refine .inr ?_
        show eventsOf t.orderId w.desk.feed.events = []
        rw [hf]
        exact hslip he hzero
    · refine h.quiet hstep .refl h.task rfl rfl ?_ h.balanced
      rw [hf, hone]
      simp [Batch.events]
  | firing events =>
    rw [hf] at hd hslip
    cases events with
    | nil => cases hd
    | cons e rest =>
      cases hd
      by_cases hid : e.orderId = t.orderId
      · have hfeed : (w.ledger t.orderId d₁).feed = e :: eventsOf t.orderId rest := by
          show eventsOf t.orderId w.desk.feed.events = _
          rw [hf]
          exact List.filter_cons_of_pos (by simpa using hid)
        exact h.event hstep hid rfl rfl h.task rfl (h.balanced.deliver hfeed (hslip hid))
      · refine h.quiet hstep (apart_onStateChange hid) h.task rfl rfl ?_ h.balanced
        rw [hf]
        exact (List.filter_cons_of_neg (by simpa using hid)).symm

/-- **An operation of the feed thread.** -/
theorem watching_feedOp {now : Time} {op : FeedOp} (h : Watching t d₁ w)
    (hstep : w.desk.step (.feedOp now op) = some d') :
    Watching t d₁ ⟨d', w.emitted ++ eventsOf t.orderId (op.apply now w.desk.book).2, false⟩ := by
  have hcopy := hstep
  simp only [Desk.step] at hcopy
  split at hcopy
  · next hidle =>
    cases hcopy
    refine h.next hstep Apart.refl.tracksOn h.task ?_
    have hsettled := h.inv.settled t.orderId h.standard
    have hfeed : (w.ledger t.orderId d₁).feed = [] := by
      show eventsOf t.orderId w.desk.feed.events = []
      rw [hidle]
      rfl
    exact h.balanced.feedOp hfeed
      (fun hl => live_step now (.feed op) h.inv.book trivial rfl hl)
      fun o ho => told_step now (.feed op) h.inv.book trivial rfl hsettled ho
  · cases hcopy

/-! ### Payloads -/

/-- **A placement** of another order. -/
theorem watching_place {now : Time} {boId : ℕ} {x : OrderId} {r : OrderRequest}
    (h : Watching t d₁ w) (hstep : w.desk.step (.place now boId x r) = some d') :
    Watching t d₁ ⟨d', w.emitted ++ eventsOf t.orderId
      (w.desk.book.placeVirtualOrder now x r).events,
      w.early⟩ := by
  have hcopy := hstep
  simp only [Desk.step] at hcopy
  split at hcopy
  · next hcan =>
    obtain ⟨hidle, hallowed⟩ := hcan
    cases hcopy
    have hne : x ≠ t.orderId := fun hx => hallowed.1 (hx ▸ h.inv.placed t.orderId h.standard)
    have hplaced := h.inv.placed t.orderId h.standard
    have hsettled := h.inv.settled t.orderId h.standard
    have hinv := h.inv.book
    refine h.next hstep Apart.refl.tracksOn (by rintro y ⟨⟩ hy; exact absurd hy hne) ?_
    have hown : (w.ledger t.orderId d₁).own = [] := by
      show eventsOf t.orderId w.desk.ownEvents = []
      unfold Desk.ownEvents
      rw [hidle]
      rfl
    have hfills := (reports_of_place_other (t := now)
      (r := r) hinv hallowed.1 hallowed.2 hplaced hsettled).events
    have hledger : ∀ l : List OrderId, Watch.ledger t.orderId d₁ ⟨{ w.desk with
          book := (w.desk.book.placeVirtualOrder now x r).book
          task := some ⟨boId, x, false,
            .callbacks (.collected (w.desk.book.placeVirtualOrder now x r).events)⟩
          standard := l }, w.emitted ++ eventsOf t.orderId
            (w.desk.book.placeVirtualOrder now x r).events,
          w.early⟩ = { w.ledger t.orderId d₁ with
            book := (w.desk.book.placeVirtualOrder now x r).book
            own := eventsOf t.orderId (w.desk.book.placeVirtualOrder now x r).events
            emitted := w.emitted ++ eventsOf t.orderId
              (w.desk.book.placeVirtualOrder now x r).events } := by
      intro l
      unfold Watch.ledger
      rw [hidle]
      simp [Desk.ownEvents, Stage.events, Batch.events, hne, Watch.messagesSince]
    rw [hledger]
    refine h.balanced.place hown
      (fun hl => live_step now (.place x r) hinv hallowed rfl hl)
      (fun o ho => told_step now (.place x r) hinv hallowed rfl hsettled ho) ?_ ?_
    · intro e he hfill
      rcases hfills with ⟨-, hnone⟩ | ⟨habs, -⟩
      · obtain ⟨hmem, hid⟩ := List.mem_filter.mp he
        refine List.filter_eq_nil_iff.mp hnone e hmem ?_
        simpa [OrderStateChangeEvent.isFillOf, hfill] using hid
      · exact absurd rfl habs
    · rintro o ⟨y, hy, hyid, -⟩ htold hs
      -- the placement leaves the other orders as they are
      obtain ⟨z, horders, -⟩ := enterOrder_orders (b := w.desk.book) (t := now) (x := x) hallowed.2
      have hmem : y ∈ (w.desk.book.enterOrder now x r).1.virtualOrders :=
        horders ▸ List.mem_append_left _ hy
      obtain ⟨v, hv, hvid, hvs⟩ := collect_keeps hmem
      refine ⟨y, hy, hyid, ?_⟩
      rw [← hvs, (htold.ended.objects v (List.mem_append_left _ hv)
        (hvid.trans hyid) htold.ended.terminal).1, hs]
  · cases hcopy

/-- **An order registered already filled.** -/
theorem watching_placePrefilled {now : Time} {boId : ℕ} {x : OrderId} {r : PrefilledRequest}
    (h : Watching t d₁ w) (hstep : w.desk.step (.placePrefilled now boId x r) = some d') :
    Watching t d₁ ⟨d', w.emitted, w.early⟩ := by
  have hcopy := hstep
  simp only [Desk.step] at hcopy
  split at hcopy
  · next hcan =>
    obtain ⟨hidle, hfresh⟩ := hcan
    cases hcopy
    have hne : x ≠ t.orderId := fun hx => hfresh (hx ▸ h.inv.placed t.orderId h.standard)
    have hsettled := h.inv.settled t.orderId h.standard
    refine h.quiet hstep .refl (by rintro y ⟨⟩ hy; exact absurd hy hne) ?_ ?_ rfl ?_
    · rw [hidle]
      simpa using hne
    · unfold Desk.ownEvents
      rw [hidle]
      rfl
    · refine h.balanced.work (fun hl => ?_)
        (fun o ho => (told_step now (.placePrefilled x r) h.inv.book hfresh rfl hsettled ho).2) ?_
      · have houtcome := live_step now (.placePrefilled x r) h.inv.book hfresh rfl hl
        generalize hevs : eventsOf t.orderId
          ((BookAction.placePrefilled x r).events now w.desk.book) = evs
          at houtcome
        cases houtcome with
        | quiet hl' => exact .inl hl'
        | filled o _ _ hs ho => exact .inr ⟨o, hs, ho⟩
      · rintro - ⟨y, hy, hyid, hys⟩
        obtain ⟨z, horders, hzid⟩ :=
          placePrefilled_orders (b := w.desk.book) (t := now) (x := x) (q := r)
        replace hy : y ∈ (w.desk.book.placePrefilledBracketOrder now x r).book.virtualOrders := hy
        rw [horders] at hy
        rcases List.mem_append.mp hy with hy | hy
        · exact ⟨y, hy, hyid, hys⟩
        · rw [List.mem_singleton.mp hy, hzid] at hyid
          exact absurd hyid hne
  · cases hcopy

/-- **A payload that is refused.** -/
theorem watching_reject {boId : ℕ} (h : Watching t d₁ w)
    (hstep : w.desk.step (.reject boId) = some d') :
    Watching t d₁ ⟨d', w.emitted, w.early⟩ := by
  have hcopy := hstep
  simp only [Desk.step] at hcopy
  split at hcopy
  · cases hcopy
    exact h.quiet hstep (.publish rfl) h.task rfl rfl rfl h.balanced
  · cases hcopy

/-- **One step** that does not slip. -/
theorem watching_step {status : OrderStatus} (h : Watching t d₁ w) (hs : status ≠ .canceled)
    (hslip : w.slips t.orderId status a = false) (hstep : w.step t.orderId a = some w') :
    Watching t d₁ w' := by
  unfold Watch.step at hstep
  obtain ⟨d', hd, rfl⟩ := Option.map_eq_some_iff.mp hstep
  cases a with
  | place now boId x r => exact watching_place h hd
  | placePrefilled now boId x r =>
    have hnext := watching_placePrefilled h hd
    simpa [Desk.emits, eventsOf] using hnext
  | reject boId =>
    have hnext := watching_reject h hd
    simpa [Desk.emits, eventsOf] using hnext
  | consume =>
    have hcopy := hd
    simp only [Desk.step] at hcopy
    cases ht : w.desk.task with
    | none => simp [ht] at hcopy
    | some t' =>
      simp only [ht, Option.map_eq_some_iff] at hcopy
      obtain ⟨o, ho, rfl⟩ := hcopy
      have hnext := watching_work h ht ho fun hid hst hcan => by
        rw [hid] at ho
        simp [Watch.slips, hs, ht, hid, hst, ho, hcan] at hslip
      simpa [Desk.emits, eventsOf] using hnext
  | feedOp now op => exact watching_feedOp h hd
  | deliver =>
    have hnext := watching_deliver h hd (by
      cases hf : w.desk.feed with
      | collected events =>
        intro he hzero
        simpa [Watch.slips, hs, hf, he, hzero] using hslip
      | firing events =>
        cases events with
        | nil => trivial
        | cons e rest =>
          intro hid hcan
          simp [Watch.slips, hs, hf, hid, hcan.1, hcan.2] at hslip)
    simpa [Desk.emits, eventsOf] using hnext

/-! ## From the registration on -/

theorem Registered.sincere {tokenId : String} {d₀ : Desk} (h : Registered tokenId t o d₀ d₁) :
    Desk.Sincere d₀ :=
  h.run.invariant Desk.Sincere (Desk.sincere_new tokenId) fun _ _ _ hs _ hstep =>
    Desk.sincere_step hs hstep

/-- What the registration does. -/
theorem Registered.desk {tokenId : String} {d₀ : Desk} (h : Registered tokenId t o d₀ d₁) :
    d₁ = { d₀ with
      consumer := d₀.consumer.register t.orderId t.boId
      task := some { t with stage := .seed } } := by
  have hstep := h.step
  simp only [Desk.step, h.task, h.object, Option.map_some] at hstep
  unfold Desk.work at hstep
  rw [h.stage] at hstep
  exact (Option.some.inj hstep).symm

/-- The events on their way at the registration do not say that the order is CANCELED, unless it
is. -/
theorem Registered.pending {tokenId : String} {d₀ : Desk} (h : Registered tokenId t o d₀ d₁) :
    ∀ e ∈ eventsOf t.orderId d₁.feed.events, (e.eventType = .cancel → e.status = .canceled) ∧
      (e.status.isTerminal = true → o.status = e.status) := by
  intro e he
  rw [h.desk] at he
  obtain ⟨hmem, hid⟩ := List.mem_filter.mp he
  obtain ⟨htype, hover⟩ := h.sincere.feed e hmem
  refine ⟨htype, fun ht => ?_⟩
  obtain ⟨x, hs, hx⟩ := hover ht
  rw [of_decide_eq_true hid] at hx
  exact (hx.object h.object).1.trans hs

theorem watching_registered {tokenId : String} {d₀ : Desk} (h : Registered tokenId t o d₀ d₁)
    (hs : o.status ≠ .canceled) : Watching t d₁ ⟨d₁, [], true⟩ := by
  obtain ⟨taken, htells⟩ := h.sincere.tells
  have hinv := htells.inv.book
  have hget : d₁.consumer.orderToBo.get? t.orderId = some t.boId := by
    rw [h.desk]
    exact SortedDict.get?_set_self _ _ _
  have hbook : d₁.book = d₀.book := by rw [h.desk]
  -- the order is over when it is not open
  have htold : o.status.isTerminal = true → Told t.orderId o d₁.book := fun ht => by
    rw [hbook]
    exact ⟨over_of_object h.sincere.candid hinv h.object ht, fun hcan => absurd hcan hs⟩
  have hledger : Watch.ledger t.orderId d₁ ⟨d₁, [], true⟩ =
      ⟨d₁.book, true, true, [], eventsOf t.orderId d₁.feed.events, true, [], []⟩ := by
    unfold Watch.ledger Watch.messagesSince
    rw [hget, List.drop_length, h.desk]
    simp [Desk.ownEvents, Stage.events, eventsOf]
  refine ⟨⟨_, (Desk.deskTells_step htells h.step).1⟩,
    Desk.standard_step h.step (h.sincere.standard t h.task h.standard), le_rfl, fun k hk => ?_,
    fun t' ht' _ => ?_, ?_⟩
  · rw [hget] at hk
    exact (Option.some.inj hk).symm
  · rw [h.desk] at ht'
    cases ht'
    exact ⟨h.standard, .inl rfl⟩
  · rw [hledger]
    refine ⟨⟨[], List.nil_sublist _, fun _ => List.Sublist.refl _, .refl _⟩, ?_, .inl rfl, nofun,
      fun e he ht => ⟨o, htold ?_⟩, fun _ hw => ?_, nofun⟩
    · cases ht : o.status.isTerminal with
      | false => exact .live (hbook ▸ live_of_open h.sincere.candid h.object ht)
      | true =>
        refine .filled o ?_ (htold ht)
        cases hst : o.status with
        | filled => rfl
        | canceled => exact absurd hst hs
        | _ =>
          rw [hst] at ht
          cases ht
    · rw [(h.pending e he).2 ht]
      exact ht
    · obtain ⟨y, hy, hid, hcan⟩ := hw
      have hobject := orderObject_of_mem (hbook ▸ hinv) hy
      rw [hid, hbook, h.object] at hobject
      cases hobject
      exact absurd hcan hs

/-- **A balanced ledger** says that every event is published. -/
theorem Watching.published {tokenId : String} {d₀ : Desk} (h : Watching t d₁ w)
    (hreg : Registered tokenId t o d₀ d₁) (hs : o.status ≠ .canceled) : EventsPublished t d₁ w := by
  obtain ⟨early, hsub, -, hperm⟩ := h.balanced.accounted
  refine ⟨⟨early, hsub, hperm⟩, fun hdone howed hcollected x hx hcan => ?_⟩
  have hinv := h.inv.book
  have hbusy : (w.ledger t.orderId d₁).busy = false := by
    cases ht : w.desk.task with
    | none => simp [Watch.ledger, ht]
    | some t' => simpa [Watch.ledger, ht] using hdone t' ht
  -- no event on its way at the registration was a cancel
  have hearly : cancelEvents early = [] := List.filter_eq_nil_iff.mpr fun e he htype => by
    obtain ⟨hstatus, hsame⟩ := hreg.pending e (hsub.subset he)
    have hcanceled := hstatus (by simpa using htype)
    exact hs ((hsame (by rw [hcanceled]; rfl)).trans hcanceled)
  have hone : ∃ y, Told t.orderId y w.desk.book ∧ cancelEvents w.emitted = [cancelEvent y] := by
    have hstanding : Standing t.orderId w.desk.book (w.ledger t.orderId d₁).busy
        (cancelEvents w.emitted) :=
      h.balanced.standing
    generalize hc : cancelEvents w.emitted = cancels at hstanding
    cases hstanding with
    | live hl =>
      obtain ⟨y, hy, hid, -, hr⟩ := hl
      have hobject := orderObject_of_mem hinv hy
      rw [hid, show w.desk.book.orderObject t.orderId = some x from hx] at hobject
      cases hobject
      obtain ⟨evs, hevs, -⟩ := orderEvents_canceled hcan (hid.symm ▸ hr)
      rw [← hid, collect_eventsOf hinv hy, hevs] at hcollected
      simp at hcollected
    | filled y hs' hy => exact absurd (hcan.symm.trans ((hy.ended.object hx).1.trans hs')) nofun
    | canceled y hid hs' hy => exact ⟨y, hy, rfl⟩
    | seeded y hs' hy hb =>
      rw [hbusy] at hb
      cases hb
  obtain ⟨y, hy, hcancels⟩ := hone
  obtain ⟨-, hfilled, havg⟩ := hy.ended.object hx
  have hmessages := hperm.filter (·.isCancel)
  have hnone : (w.ledger t.orderId d₁).owed = [] := howed
  rw [hnone, List.map_nil, List.append_nil, filter_messages, cancelEvents_append, hearly,
    List.nil_append] at hmessages
  refine ⟨(cancelEvent y).cancelMessage t.boId, ?_, rfl, hfilled.symm, ?_⟩
  · have hlist : cancelEvents (w.ledger t.orderId d₁).emitted = [cancelEvent y] := hcancels
    rw [hlist] at hmessages
    exact List.perm_singleton.mp hmessages
  · exact congrArg (·.getD 0) havg.symm

/-! ## Orders registered CANCELED -/

/-- The order is CANCELED since it was registered, and the book emits nothing more for it. -/
structure Silenced (t : Task) (w : Watch) : Prop where
  tells : ∃ taken, Desk.DeskTells taken w.desk
  standard : t.orderId ∈ w.desk.standard
  emitted : w.emitted = []
  told : IsTold t.orderId w.desk.book ∨
    (∃ t' ∈ w.desk.task, t'.orderId = t.orderId ∧ t'.stage = .seed) ∧
      ∃ o, o.status = .canceled ∧ Over t.orderId o w.desk.book

/-- What the consumer does to a book leaves the orders of which all was told. -/
theorem told_handles {b b' : ShadowOrderbook} (hh : Desk.Handles b b') (hinv : BookInv b)
    (hset : SettledAt b id) (ht : Told id o b) : Told id o b' := by
  cases hh with
  | none => exact ht
  | operate now a hallowed hseed => exact (told_step now a hinv hallowed hseed hset ht).2
  | reset k => exact ht.resetFillLevels hinv k
  | seed k x hx =>
    by_cases hid : id = k
    · subst hid
      exact told_of_seed ht.ended (ht.ended.object hx).1
    · exact ht.seed_ne hid

theorem emits_told {d : Desk} (hinv : BookInv d.book) (hset : SettledAt d.book id)
    (ht : Told id o d.book) (hstep : d.step a = some d') : eventsOf id (d.emits a) = [] := by
  cases a with
  | place now boId x r =>
    simp only [Desk.step] at hstep
    split at hstep
    · next hcan => exact (told_step now (.place x r) hinv hcan.2 rfl hset ht).1
    · cases hstep
  | feedOp now op => exact (told_step now (.feed op) hinv trivial rfl hset ht).1
  | _ => rfl

theorem silenced_step (h : Silenced t w) (hslip : w.slips t.orderId .canceled a = false)
    (hstep : w.step t.orderId a = some w') : Silenced t w' := by
  unfold Watch.step at hstep
  obtain ⟨d', hd, rfl⟩ := Option.map_eq_some_iff.mp hstep
  obtain ⟨taken, htells⟩ := h.tells
  have hset := htells.inv.settled t.orderId h.standard
  have hinv := htells.inv.book
  have htold : ∀ o, Told t.orderId o w.desk.book →
      eventsOf t.orderId (w.desk.emits a) = [] ∧ IsTold t.orderId d'.book := fun o ho =>
    ⟨emits_told hinv hset ho hd, o, told_handles (Desk.handles_step hd) hinv hset ho⟩
  suffices hboth : eventsOf t.orderId (w.desk.emits a) = [] ∧ (IsTold t.orderId d'.book ∨
      (∃ t' ∈ d'.task, t'.orderId = t.orderId ∧ t'.stage = .seed) ∧
        ∃ o, o.status = .canceled ∧ Over t.orderId o d'.book) by
    refine ⟨⟨_, (Desk.deskTells_step htells hd).1⟩, Desk.standard_step hd h.standard, ?_, hboth.2⟩
    show w.emitted ++ eventsOf t.orderId (w.desk.emits a) = []
    rw [hboth.1, h.emitted]
    rfl
  rcases h.told with ⟨o, ho⟩ | ⟨⟨t', ht', hid, hst⟩, o, hcan, hover⟩
  · exact ⟨(htold o ho).1, .inl (htold o ho).2⟩
  · -- the order is not seeded yet
    have htask : w.desk.task = some t' := ht'
    have hcopy := hd
    cases a with
    | place now boId x r => simp [Desk.step, htask] at hcopy
    | placePrefilled now boId x r => simp [Desk.step, htask] at hcopy
    | reject boId => simp [Desk.step, htask] at hcopy
    | consume =>
      simp only [Desk.step, htask, Option.map_eq_some_iff] at hcopy
      obtain ⟨x, hx, rfl⟩ := hcopy
      refine ⟨rfl, .inl ⟨o, ?_⟩⟩
      have hbook : (w.desk.work t' x).book =
          w.desk.book.seedLastReported t'.orderId x.filled x.status := by
        unfold Desk.work
        rw [hst]
      rw [hid] at hx
      rw [hbook, hid]
      exact told_of_seed hover (hover.object hx).1
    | feedOp now op =>
      by_cases hrep : reportedStatus w.desk.book.lastReported t.orderId = .canceled
      · have hall := htold o ⟨hover, fun _ _ _ _ => hrep⟩
        exact ⟨hall.1, .inl hall.2⟩
      · have hnone : (BookAction.feed op).collection now w.desk.book = none := by
          simpa [Watch.slips, htask, hid, hst, hrep] using hslip
        have heffects := effects_feedOp (t := now) hinv op
        have hevents : (BookAction.feed op).events now w.desk.book = _ := collection_events _
        rw [hnone] at hevents
        simp only [Desk.step] at hcopy
        split at hcopy
        · cases hcopy
          refine ⟨?_, .inr ⟨⟨t', ht', hid, hst⟩, o, hcan, hover.effects heffects⟩⟩
          show eventsOf t.orderId (op.apply now w.desk.book).2 = []
          rw [show (op.apply now w.desk.book).2 = [] from hevents]
          rfl
        · cases hcopy
    | deliver =>
      simp only [Desk.step] at hcopy
      obtain ⟨r, -, rfl⟩ := Option.map_eq_some_iff.mp hcopy
      exact ⟨rfl, .inr ⟨⟨t', ht', hid, hst⟩, o, hcan, hover⟩⟩

theorem silenced_registered {tokenId : String} {d₀ : Desk} (h : Registered tokenId t o d₀ d₁)
    (hs : o.status = .canceled) : Silenced t ⟨d₁, [], true⟩ := by
  obtain ⟨taken, htells⟩ := h.sincere.tells
  have hbook : d₁.book = d₀.book := by rw [h.desk]
  have htask : d₁.task = some { t with stage := .seed } := by rw [h.desk]
  refine ⟨⟨_, (Desk.deskTells_step htells h.step).1⟩,
    Desk.standard_step h.step (h.sincere.standard t h.task h.standard), rfl,
    .inr ⟨⟨_, htask, rfl, rfl⟩, o, hs, ?_⟩⟩
  rw [hbook]
  exact over_of_object h.sincere.candid htells.inv.book h.object (by rw [hs]; rfl)

/-! ## Every run -/

/-- **Every event is published** in a run without slips from the registration of an order on; the
book emits none for an order that is CANCELED by then. -/
theorem events_published {tokenId : String} {d₀ : Desk} (hreg : Registered tokenId t o d₀ d₁)
    (h : Run (Watch.step t.orderId) (fun w a => w.slips t.orderId o.status a = false) ⟨d₁,
      [], true⟩ w) :
    if o.status = .canceled then w.emitted = [] else EventsPublished t d₁ w := by
  split
  · next hs =>
    rw [hs] at h
    exact (h.invariant (Silenced t) (silenced_registered hreg hs)
      fun _ _ _ hw hslip hstep => silenced_step hw hslip hstep).emitted
  · next hs =>
    exact (h.invariant (Watching t d₁) (watching_registered hreg hs)
      fun _ _ _ hw hslip hstep => watching_step hw hs hslip hstep).published hreg hs

end

/-! ## Two samples -/

/-- A MARKET BUY of twenty shares. -/
def marketTwenty : OrderRequest :=
  { side := .buy, price := 1 / 2, quantity := 20, orderType := .market }

/-- The order is placed in an empty book, and its registration is the next step. -/
def placedFirst (r : OrderRequest) : List DeskAction :=
  [.place 0 1 7 r, .consume, .consume, .consume]

/-- The order is registered; ten shares are offered, and matched. -/
def tenOffered : List DeskAction :=
  [.consume, .consume, .consume, .feedOp 1 (Desk.offer (2 / 5) 10 pos_two_fifths), .deliver,
    .feedOp 1 .runMatching, .deliver, .deliver]

/-- The desk just before the order is registered, and just after it. -/
def beforeRegistration (r : OrderRequest) : Option Desk :=
  exec Desk.step (fun _ _ => True) (Desk.new "T") (placedFirst r)

def afterRegistration (r : OrderRequest) : Option Desk :=
  (beforeRegistration r).bind fun d => d.step .consume

/-- The order that `placedFirst` places, registered. -/
theorem registered_sample {r : OrderRequest} {d₀ d₁ : Desk} (h₀ : beforeRegistration r = some d₀)
    (h₁ : afterRegistration r = some d₁)
    (hsample : (beforeRegistration r).any (fun d => d.task = some ⟨1, 7, false, .register⟩ &&
      (d.book.orderObject 7).any fun o => o.status = .pending) = true) :
    ∃ o, o.status = .pending ∧ Registered "T" ⟨1, 7, false, .register⟩ o d₀ d₁ := by
  rw [afterRegistration, h₀] at h₁
  rw [h₀, Option.any_some, Bool.and_eq_true] at hsample
  obtain ⟨htask, hobject⟩ := hsample
  obtain ⟨o, ho, hs⟩ := Option.any_eq_true _ _ |>.mp hobject
  exact ⟨o, of_decide_eq_true hs, ⟨run_of_exec h₀, of_decide_eq_true htask, rfl, rfl, ho, h₁⟩⟩

/-- A LIMIT order that is filled in part, and then cancelled with its book. -/
theorem events_published_partFill :
    ∃ t d₁ w, w.emitted.map (fun e => e.eventType) = [.fill, .cancel] ∧
    EventsPublished t d₁ w := by
  have hsome : (beforeRegistration Desk.twentyShares).isSome = true := by decide +kernel
  obtain ⟨d₀, h₀⟩ := Option.isSome_iff_exists.mp hsome
  have hrun : (afterRegistration Desk.twentyShares).any (fun d₁ => (exec (Watch.step 7)
      (fun w a => w.slips 7 .pending a = false) ⟨d₁, [], true⟩
      (tenOffered ++ [.feedOp 2 .expireBook, .deliver, .deliver])).any fun w =>
        w.emitted.map (fun e => e.eventType) = [.fill, .cancel]) = true := by decide +kernel
  obtain ⟨d₁, h₁, hw⟩ := Option.any_eq_true _ _ |>.mp hrun
  obtain ⟨w, hw, hemitted⟩ := Option.any_eq_true _ _ |>.mp hw
  obtain ⟨o, hs, hreg⟩ := registered_sample h₀ h₁ (by decide +kernel)
  have hpublished := events_published (w := w) hreg (by rw [hs]; exact run_of_exec hw)
  rw [if_neg (by rw [hs]; nofun)] at hpublished
  exact ⟨_, d₁, w, of_decide_eq_true hemitted, hpublished⟩

/-- **A cancel is dropped**: a MARKET order that waits in an empty book is filled in part and
cancelled by one pass.  Its fill says CANCELED, so that the consumer no longer tracks it when the
cancel comes. -/
theorem cancel_after_fill_dropped : ∃ t o d₀ d₁ w, Registered "T" t o d₀ d₁ ∧ o.status = .pending ∧
    Run (Watch.step t.orderId) (fun _ _ => True) ⟨d₁, [], true⟩ w ∧
    (w.messagesSince t.orderId d₁).filter (·.isCancel) = [] ∧ ¬ EventsPublished t d₁ w := by
  have hsome : (beforeRegistration marketTwenty).isSome = true := by decide +kernel
  obtain ⟨d₀, h₀⟩ := Option.isSome_iff_exists.mp hsome
  have hrun : (afterRegistration marketTwenty).any (fun d₁ => (exec (Watch.step 7) (fun _ _ => True)
      ⟨d₁, [], true⟩ (tenOffered ++ [.deliver])).any fun w =>
        (w.messagesSince 7 d₁).filter (·.isCancel) = [] && w.desk.task.isNone && w.owed 7 = [] &&
          eventsOf 7 w.desk.book.collectStateChanges.2 = [] &&
          (w.desk.book.orderObject 7).any fun o => o.status = .canceled) = true := by decide +kernel
  obtain ⟨d₁, h₁, hw⟩ := Option.any_eq_true _ _ |>.mp hrun
  obtain ⟨w, hw, hend⟩ := Option.any_eq_true _ _ |>.mp hw
  obtain ⟨o, hs, hreg⟩ := registered_sample h₀ h₁ (by decide +kernel)
  simp only [Bool.and_eq_true, decide_eq_true_eq, Option.isNone_iff_eq_none] at hend
  obtain ⟨⟨⟨⟨hnone, htask⟩, howed⟩, hcollected⟩, hobject⟩ := hend
  obtain ⟨x, hx, hcan⟩ := Option.any_eq_true _ _ |>.mp hobject
  refine ⟨_, o, d₀, d₁, w, hreg, hs, run_of_exec hw, hnone, fun h => ?_⟩
  obtain ⟨m, hm, -⟩ := h.cancel (by rw [htask]; nofun) howed hcollected x hx
    (of_decide_eq_true hcan)
  exact absurd (hnone.symm.trans hm) (List.cons_ne_nil _ _).symm

end PolyArena
