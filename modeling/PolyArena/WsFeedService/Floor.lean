import PolyArena.OrderConsumer.Process
import PolyArena.WsFeedService.BookFrames

/-!
# Two threads and all sessions

The consumer thread takes one order after the other, and the loop thread works on the books and
moves the sessions on.  The consumer thread's work on an order falls into four steps, between which
the loop thread may take any number of its own: the order is placed through its session; its
immediate fill is published; it is entered in `_order_to_bo`, and the book of its token is seeded
and given the callback (`FeedService.track`); the immediate cancel and the exits of the placement
are published.

What the books emitted may reach the callback `_on_state_changes` at any later moment and in any
order.  `log` notes the registrations and what the callback was given since, newest first; no step
reads it.
-/

namespace PolyArena

open ShadowOrderbook

/-- An order of the queue, once the payload is read. -/
inductive QueueOrder
  | standard (r : OrderRequest)
  | prefilled (r : PrefilledRequest)

namespace QueueOrder

/-- The book of the session that takes the order; `none` when the session refuses it. -/
def book (s : SessionEngine) (token : String) : QueueOrder → Option (Direction × ShadowOrderbook)
  | standard _ => s.bookForOrder token
  | prefilled _ => s.bookForPrefilled token

/-- The operation on the book. -/
def action (id : OrderId) : QueueOrder → BookAction
  | standard r => .place id r
  | prefilled r => .placePrefilled id r

def place (now : Time) (id : OrderId) (b : ShadowOrderbook) : QueueOrder → Placement
  | standard r => b.placeVirtualOrder now id r
  | prefilled r => b.placePrefilledBracketOrder now id r

def isPrefilled : QueueOrder → Bool
  | standard _ => false
  | prefilled _ => true

/-- Nobody orders a quantity that is not positive. -/
def Positive : QueueOrder → Prop
  | standard r => 0 < r.quantity
  | prefilled _ => True

instance (q : QueueOrder) : Decidable q.Positive := by
  cases q <;> unfold Positive <;> infer_instance

end QueueOrder

/-- How far the consumer thread is with an order. -/
inductive FloorStage
  /-- next: publish the immediate fill -/
  | placed
  /-- next: register the order -/
  | published
  /-- next: publish the immediate cancel and the exits -/
  | tracked
  deriving DecidableEq, Repr

/-- The order that the consumer thread works on.  `order` is the object that the placement
returned. -/
structure FloorTask where
  boId : ℕ
  token : String
  sessionId : SessionId
  dir : Direction
  prefilled : Bool
  order : SimulatedOrder
  results : List BracketFillResult
  stage : FloorStage := .placed

/-- What happened to `_order_to_bo` of an order. -/
inductive FloorNote
  /-- the order was registered -/
  | tracked (id : OrderId)
  /-- the callback was given the event -/
  | delivered (e : OrderStateChangeEvent)
  /-- the immediate cancel was published -/
  | cancelled (id : OrderId)

/-- `publish_market_resolved`. -/
structure MarketResolvedMessage where
  assetId : String
  winningOutcome : String
  boIds : List ℕ
  deriving DecidableEq, Repr

structure Floor where
  service : FeedService := ⟨.empty, {}⟩
  task : Option FloorTask := none
  /-- The events that the books emitted. -/
  emitted : List OrderStateChangeEvent := []
  /-- The orders that a resolution closed, until the callback has published them. -/
  resolving : Option (String × List SimulatedOrder) := none
  resolutions : List MarketResolvedMessage := []
  /-- The rows of the orders that the consumer placed. -/
  placedFor : OrderId → Option ℕ := fun _ => none
  log : List FloorNote := []

inductive FloorAction
  /-- The consumer thread places an order of a row in a session, under a new id. -/
  | place (now : Time) (sid : SessionId) (dir : Direction) (boId : ℕ) (id : OrderId)
      (q : QueueOrder)
  /-- It publishes the immediate fill. -/
  | publishFill
  /-- It registers the order. -/
  | register
  /-- It publishes the immediate cancel and the exits. -/
  | finish (now : Time)
  /-- A callback handles an event. -/
  | deliver (e : OrderStateChangeEvent)
  /-- The loop thread works on a book. -/
  | work (now : Time) (sid : SessionId) (dir : Direction) (a : BookAction)
  /-- It handles `market_resolved`. -/
  | resolve (assetId : String)
  /-- The callback of the resolution publishes the rows. -/
  | publishResolved
  | createSession (sid : SessionId) (tokens : Direction → Option String) (state : SessionState)
  | transition (sid : SessionId) (state : SessionState)

namespace SessionManager

/-- Work on one book. -/
def editBook (m : SessionManager) (sid : SessionId) (dir : Direction)
    (f : ShadowOrderbook → ShadowOrderbook) : SessionManager :=
  match m.getSession sid with
  | none => m
  | some s =>
    match s.books dir with
    | none => m
    | some b => m.setBook s dir (f b)

/-- The loop body of `_handle_market_resolved`, and the orders it closed. -/
def resolveOrders (assetId : String) (m : SessionManager) (id : SessionId) :
    SessionManager × List SimulatedOrder :=
  match m.getSession id with
  | none => (m, [])
  | some s =>
    match s.getBookForToken assetId with
    | none => (m, [])
    | some (dir, book) =>
      (m.setBook s dir book.handleMarketResolved,
        (book.virtualOrders.filter fun o => !o.positionClosed).map resolveOrder)

/-- `_handle_market_resolved` without its callback: `all_resolved`. -/
def handleMarketResolved (m : SessionManager) (assetId : String) :
    SessionManager × List SimulatedOrder :=
  runOutputs (resolveOrders assetId) m (m.tokenIndex assetId)

/-- It leaves the sessions as the dispatch of the event does. -/
theorem handleMarketResolved_dispatch (m : SessionManager) (now : Time) (assetId : String) :
    (m.handleMarketResolved assetId).1 = (m.dispatchEvent now assetId .marketResolved).1 := by
  have hsession : ∀ (m : SessionManager) (id : SessionId),
      (resolveOrders assetId m id).1 = (resolveSession assetId m id).1 := by
    intro m id
    unfold resolveOrders resolveSession
    cases m.getSession id with
    | none => rfl
    | some s =>
      dsimp only
      cases s.getBookForToken assetId <;> rfl
  have hall : ∀ (ids : List SessionId) (m : SessionManager),
      (runOutputs (resolveOrders assetId) m ids).1 =
        (runOutputs (resolveSession assetId) m ids).1 := by
    intro ids
    induction ids with
    | nil => exact fun _ => rfl
    | cons id ids ih =>
      intro m
      rw [runOutputs_cons, runOutputs_cons, hsession]
      exact ih _
  exact hall _ m

/-- The events of a transition: SETTLING expires the books. -/
def transitionEvents (m : SessionManager) (sid : SessionId) (state : SessionState) :
    List OrderStateChangeEvent :=
  match m.getSession sid, state with
  | some s, .settling =>
    if s.state = .archived then []
    else ([Direction.up, .down].filterMap s.books).flatMap fun b => b.expireBook.2
  | _, _ => []

end SessionManager

/-- The `bo_ids` of `_on_market_resolved`. -/
def OrderConsumer.resolvedBoIds (c : OrderConsumer) (orders : List SimulatedOrder) : List ℕ :=
  orders.filterMap fun o => c.orderToBo.get? o.orderId

namespace Floor

/-- The task's order as it is now; of a book that is gone the consumer thread keeps the order as it
was. -/
def refresh (s : Floor) : Floor :=
  { s with task := s.task.map fun t =>
      { t with order := ((s.service.manager.bookAt t.sessionId t.dir).bind fun b =>
          b.orderObject t.order.orderId).getD t.order } }

/-- The placement. -/
def enter (s : Floor) (now : Time) (session : SessionEngine) (token : String) (boId : ℕ)
    (id : OrderId) (q : QueueOrder) : Floor :=
  match q.book session token with
  | none => { s with service := s.service.reject boId .tokenRotated }
  | some (dir, b) =>
    let p := q.place now id b
    { s with
      service := ⟨s.service.manager.setBook session dir p.book, s.service.consumer⟩
      task := some ⟨boId, token, session.sessionId, dir, q.isPrefilled, p.order,
        p.bracketResults, .placed⟩
      emitted := s.emitted ++ p.events
      placedFor := Function.update s.placedFor id (some boId) }

/-- The immediate fill, of an order that was placed to be matched. -/
def publishFill (s : Floor) (t : FloorTask) : Floor :=
  { s with
    service :=
      if t.prefilled then s.service
      else
        ⟨if 0 < t.order.filled then
            s.service.manager.editBook t.sessionId t.dir fun b => b.resetFillLevels t.order.orderId
          else s.service.manager,
          s.service.consumer.publishImmediateFill t.order t.boId⟩
    task := some { t with stage := .published } }

/-- The registration. -/
def register (s : Floor) (t : FloorTask) : Floor :=
  { s with
    service := s.service.track t.token t.boId t.order
    task := some { t with stage := .tracked }
    log := .tracked t.order.orderId :: s.log }

/-- The immediate cancel and the exits. -/
def finish (s : Floor) (now : Time) (t : FloorTask) : Floor :=
  let cancels : Bool := !t.prefilled && decide (t.order.status = .canceled)
  let c := if t.prefilled then s.service.consumer
    else s.service.consumer.publishImmediateCancel t.order t.boId
  { s with
    service := FeedService.publishExits ⟨s.service.manager, c⟩ now t.boId t.results
    task := none
    log := if cancels then .cancelled t.order.orderId :: s.log else s.log }

/-- One action of either thread, without the refreshment. -/
def act (s : Floor) : FloorAction → Option Floor
  | .place now sid dir boId id q =>
    if s.task.isNone ∧ s.placedFor id = none ∧ q.Positive then
      match s.service.manager.getSession sid with
      | none => none
      | some session => (session.tokens dir).map fun token => s.enter now session token boId id q
    else none
  | .publishFill => (s.task.filter fun t => t.stage = .placed).map s.publishFill
  | .register => (s.task.filter fun t => t.stage = .published).map s.register
  | .finish now => (s.task.filter fun t => t.stage = .tracked).map (s.finish now)
  | .deliver e =>
    if e ∈ s.emitted then
      some { s with
        service := ⟨s.service.manager, s.service.consumer.onStateChange e⟩
        log := .delivered e :: s.log }
    else none
  | .work now sid dir a =>
    if a.ofLoop then
      (s.service.manager.bookAt sid dir).map fun b =>
        { s with
          service := ⟨s.service.manager.editBook sid dir (a.apply now), s.service.consumer⟩
          emitted := s.emitted ++ a.events now b }
    else none
  | .resolve assetId =>
    if s.resolving.isNone then
      let r := s.service.manager.handleMarketResolved assetId
      some { s with service := ⟨r.1, s.service.consumer⟩, resolving := some (assetId, r.2) }
    else none
  | .publishResolved =>
    s.resolving.map fun (assetId, orders) =>
      let boIds := s.service.consumer.resolvedBoIds orders
      { s with
        resolving := none
        resolutions := if boIds = [] then s.resolutions
          else s.resolutions ++ [⟨assetId, "", boIds⟩] }
  | .createSession sid tokens state =>
    some { s with service := ⟨s.service.manager.createSession sid tokens state,
      s.service.consumer⟩ }
  | .transition sid state =>
    some { s with
      service := ⟨s.service.manager.transitionSession sid state, s.service.consumer⟩
      emitted := s.emitted ++ s.service.manager.transitionEvents sid state }

/-- One action, after which the task's order is as its book has it. -/
def step (s : Floor) (a : FloorAction) : Option Floor := (s.act a).map refresh

end Floor

/-! ## What the steps leave alone -/

section

variable {s : Floor} {c : OrderConsumer} {t : FloorTask} {id : OrderId} {now : Time}
  {e : OrderStateChangeEvent} {o : SimulatedOrder} {boId : ℕ}

theorem orderToBo_publishImmediateFill :
    (c.publishImmediateFill o boId).orderToBo = c.orderToBo := by
  unfold OrderConsumer.publishImmediateFill
  split <;> rfl

theorem orderToBo_publishImmediateCancel : (c.publishImmediateCancel o boId).orderToBo =
    if o.status = .canceled then c.orderToBo.erase o.orderId else c.orderToBo := by
  unfold OrderConsumer.publishImmediateCancel
  split <;> rfl

theorem orderToBo_onStateChange : (c.onStateChange e).orderToBo =
    if (c.orderToBo.get? e.orderId).isSome ∧ e.status.isTerminal then c.orderToBo.erase e.orderId
    else c.orderToBo := by
  unfold OrderConsumer.onStateChange
  cases hget : c.orderToBo.get? e.orderId with
  | none => simp
  | some b =>
    dsimp only
    cases hs : e.status.isTerminal
    · simp [OrderConsumer.publish]
    · simp [OrderConsumer.publish, OrderConsumer.forget]

theorem refresh_task (ht : t ∈ s.refresh.task) :
    ∃ t₀ ∈ s.task, t.order.orderId = t₀.order.orderId ∧ t.boId = t₀.boId := by
  obtain ⟨t₀, ht₀, rfl⟩ := Option.map_eq_some_iff.mp ht
  refine ⟨t₀, ht₀, ?_, rfl⟩
  dsimp only
  cases hfound : (s.service.manager.bookAt t₀.sessionId t₀.dir).bind fun b =>
      b.orderObject t₀.order.orderId with
  | none => rfl
  | some o =>
    obtain ⟨b, -, ho⟩ := Option.bind_eq_some_iff.mp hfound
    simpa using List.find?_some ho

theorem placement_orderId {b : ShadowOrderbook} {q : QueueOrder} (hq : q.Positive) :
    (q.place now id b).order.orderId = id := by
  cases q with
  | standard r => exact placed_orderId hq
  | prefilled r => exact checkNewBracket_orderId

end

/-- The tokens of a session with the UP token only. -/
def upOnly (token : String) : Direction → Option String :=
  fun dir => if dir = .up then some token else none

end PolyArena
