import PolyArena.Lib.Runs
import PolyArena.OrderConsumer.Consumer

/-!
# Two threads at one book

The consumer thread takes one order after the other from the queue and processes it step by step
(`_process_standard_order`, `_process_prefilled_order`); the feed thread works on the same book.
Each step is atomic, for it holds the book's lock or touches one object, and between any two steps
of one thread the other may take any number of its own.  The events an operation collected are
delivered after the lock is released, one by one, to the callbacks the book has by then.

The book's own operations are those of `ShadowOrderbook`.  Order ids are fresh and quantities are
positive.  `standard` lists the orders `_process_standard_order` placed; no step reads it.
-/

namespace PolyArena

open ShadowOrderbook

/-- The events of an operation on their way to the callbacks. -/
inductive Batch
  /-- the operation is over, and no callback runs yet -/
  | collected (events : List OrderStateChangeEvent)
  /-- the callbacks run; these events are still to be delivered -/
  | firing (events : List OrderStateChangeEvent)
  deriving DecidableEq, Repr

def Batch.events : Batch → List OrderStateChangeEvent
  | collected events | firing events => events

/-- Where the consumer thread is. -/
inductive Stage
  /-- the book has the order, and its events are being delivered -/
  | callbacks (own : Batch)
  /-- next: publish the immediate fill -/
  | publish
  /-- next: enter the order in `_order_to_bo` -/
  | register
  /-- next: seed what the book last reported -/
  | seed
  /-- next: attach the callback to the book -/
  | attach
  /-- next: publish the immediate cancel -/
  | finish
  deriving DecidableEq, Repr

/-- The order that the consumer thread is working on. -/
structure Task where
  boId : ℕ
  orderId : OrderId
  prefilled : Bool
  stage : Stage
  deriving DecidableEq, Repr

/-- The book, the consumer's state and the positions of the two threads. -/
structure Desk where
  tokenId : String
  book : ShadowOrderbook
  consumer : OrderConsumer := {}
  task : Option Task := none
  feed : Batch := .firing []
  standard : List OrderId := []

/-- What can happen next. -/
inductive DeskAction
  /-- an order from the queue is placed -/
  | place (now : Time) (boId : ℕ) (id : OrderId) (r : OrderRequest)
  /-- an order from the queue is registered already filled -/
  | placePrefilled (now : Time) (boId : ℕ) (id : OrderId) (r : PrefilledRequest)
  /-- an order from the queue is refused, for the book expired -/
  | reject (boId : ℕ)
  /-- the consumer thread's next step -/
  | consume
  /-- an operation of the feed thread -/
  | feedOp (now : Time) (op : FeedOp)
  /-- the feed thread delivers -/
  | deliver

/-- Start the callbacks, or deliver one event; `none` when there is none left. -/
def Batch.deliver (callbacks : ℕ) (c : OrderConsumer) : Batch → Option (OrderConsumer × Batch)
  | collected events => some (c, firing (List.replicate callbacks events).flatten)
  | firing [] => none
  | firing (e :: rest) => some (c.onStateChange e, firing rest)

namespace Desk

/-- The consumer thread's next step on its task.  The order is the object that the placement
returned, read as it is now. -/
def work (d : Desk) (t : Task) (o : SimulatedOrder) : Desk :=
  match t.stage with
  | .callbacks own =>
    match own.deliver d.book.stateChangeCallbacks d.consumer with
    | some (c, own) => { d with consumer := c, task := some { t with stage := .callbacks own } }
    | none => { d with task := some { t with stage := .publish } }
  | .publish =>
    { d with
      book := if 0 < o.filled then d.book.resetFillLevels t.orderId else d.book
      consumer := d.consumer.publishImmediateFill o t.boId
      task := some { t with stage := .register } }
  | .register =>
    { d with
      consumer := d.consumer.register t.orderId t.boId
      task := some { t with stage := .seed } }
  | .seed =>
    { d with
      book := d.book.seedLastReported t.orderId o.filled o.status
      task := some { t with stage := .attach } }
  | .attach =>
    let d := { d with task := some { t with stage := .finish } }
    if d.tokenId ∈ d.consumer.registeredBooks then d
    else
      { d with
        book := d.book.registerStateChangeCallback
        consumer := { d.consumer with
          registeredBooks := d.tokenId :: d.consumer.registeredBooks } }
  | .finish =>
    { d with
      consumer := if t.prefilled then d.consumer else d.consumer.publishImmediateCancel o t.boId
      task := none }

section

variable {d : Desk} {t : Task} {o : SimulatedOrder}

theorem work_feed : (d.work t o).feed = d.feed := by
  unfold work
  split
  · split <;> rfl
  · rfl
  · rfl
  · rfl
  · dsimp only
    split <;> rfl
  · rfl

theorem work_standard : (d.work t o).standard = d.standard := by
  unfold work
  split
  · split <;> rfl
  · rfl
  · rfl
  · rfl
  · dsimp only
    split <;> rfl
  · rfl

/-- Work on an order stays on that order. -/
theorem task_work {t' : Task} (ht : (d.work t' o).task = some t) :
    t'.orderId = t.orderId ∧ t'.prefilled = t.prefilled := by
  unfold work at ht
  split at ht
  · split at ht <;> cases ht <;> exact ⟨rfl, rfl⟩
  · cases ht
    exact ⟨rfl, rfl⟩
  · cases ht
    exact ⟨rfl, rfl⟩
  · cases ht
    exact ⟨rfl, rfl⟩
  · dsimp only at ht
    split at ht <;> cases ht <;> exact ⟨rfl, rfl⟩
  · cases ht

end

/-- One step of either thread. -/
def step (d : Desk) : DeskAction → Option Desk
  | .place now boId id r =>
    if d.task = none ∧ .placed id ∉ d.book.history ∧ 0 < r.quantity then
      let p := d.book.placeVirtualOrder now id r
      some { d with
        book := p.book
        task := some ⟨boId, id, false, .callbacks (.collected p.events)⟩
        standard := id :: d.standard }
    else none
  | .placePrefilled now boId id r =>
    if d.task = none ∧ .placed id ∉ d.book.history then
      some { d with
        book := (d.book.placePrefilledBracketOrder now id r).book
        task := some ⟨boId, id, true, .register⟩ }
    else none
  | .reject boId =>
    if d.task = none then some { d with consumer := d.consumer.reject boId .tokenRotated } else none
  | .consume =>
    match d.task with
    | none => none
    | some t => (d.book.orderObject t.orderId).map (d.work t)
  | .feedOp now op =>
    if d.feed = .firing [] then
      let (book, events) := op.apply now d.book
      some { d with book := book, feed := .collected events }
    else none
  | .deliver =>
    (d.feed.deliver d.book.stateChangeCallbacks d.consumer).map fun (c, feed) =>
      { d with consumer := c, feed := feed }

/-- What a step does, for each kind of action. -/
inductive Steps (d : Desk) : DeskAction → Desk → Prop
  | place (now : Time) (boId : ℕ) (id : OrderId) (r : OrderRequest) (hidle : d.task = none)
      (hfresh : .placed id ∉ d.book.history) (hq : 0 < r.quantity) :
      Steps d (.place now boId id r) { d with
        book := (d.book.placeVirtualOrder now id r).book
        task := some ⟨boId, id, false,
          .callbacks (.collected (d.book.placeVirtualOrder now id r).events)⟩
        standard := id :: d.standard }
  | placePrefilled (now : Time) (boId : ℕ) (id : OrderId) (r : PrefilledRequest)
      (hidle : d.task = none) (hfresh : .placed id ∉ d.book.history) :
      Steps d (.placePrefilled now boId id r) { d with
        book := (d.book.placePrefilledBracketOrder now id r).book
        task := some ⟨boId, id, true, .register⟩ }
  | reject (boId : ℕ) (hidle : d.task = none) :
      Steps d (.reject boId) { d with consumer := d.consumer.reject boId .tokenRotated }
  | consume (t : Task) (o : SimulatedOrder) (ht : d.task = some t)
      (ho : d.book.orderObject t.orderId = some o) : Steps d .consume (d.work t o)
  | feedOp (now : Time) (op : FeedOp) (hidle : d.feed = .firing []) :
      Steps d (.feedOp now op) { d with
        book := (op.apply now d.book).1
        feed := .collected (op.apply now d.book).2 }
  | deliver (c : OrderConsumer) (f : Batch)
      (hd : d.feed.deliver d.book.stateChangeCallbacks d.consumer = some (c, f)) :
      Steps d .deliver { d with consumer := c, feed := f }

/-- **What a step did.** -/
theorem steps_of_step {d d' : Desk} {a : DeskAction} (hstep : d.step a = some d') :
    d.Steps a d' := by
  cases a with
  | place now boId id r =>
    simp only [step] at hstep
    split at hstep
    · next hcan =>
      cases hstep
      exact .place now boId id r hcan.1 hcan.2.1 hcan.2.2
    · cases hstep
  | placePrefilled now boId id r =>
    simp only [step] at hstep
    split at hstep
    · next hcan =>
      cases hstep
      exact .placePrefilled now boId id r hcan.1 hcan.2
    · cases hstep
  | reject boId =>
    simp only [step] at hstep
    split at hstep
    · next hidle =>
      cases hstep
      exact .reject boId hidle
    · cases hstep
  | consume =>
    simp only [step] at hstep
    cases ht : d.task with
    | none => simp [ht] at hstep
    | some t =>
      simp only [ht, Option.map_eq_some_iff] at hstep
      obtain ⟨o, ho, rfl⟩ := hstep
      exact .consume t o ht ho
  | feedOp now op =>
    simp only [step] at hstep
    split at hstep
    · next hidle =>
      cases hstep
      exact .feedOp now op hidle
    · cases hstep
  | deliver =>
    simp only [step] at hstep
    obtain ⟨⟨c, f⟩, hd, rfl⟩ := Option.map_eq_some_iff.mp hstep
    exact .deliver c f hd

/-- Both threads idle at a new book. -/
def new (tokenId : String) : Desk := { tokenId := tokenId, book := { tokenId := tokenId } }

/-- No step is pending, and the feed thread has delivered what it collected. -/
def Quiet (d : Desk) : Prop := d.task = none ∧ d.feed = .firing []

end Desk

end PolyArena
