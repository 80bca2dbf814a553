import PolyArena.Handlers
import PolyArena.MatchingEngine.Feed

/-!
# The order consumer

The state of `OrderConsumer` (`order_consumer.py`) and the messages it publishes.  Its callback
`_on_state_changes` turns the events of a book into messages for the orders it tracks.  The messages
are kept in the order in which they are published; publishing succeeds.
-/

namespace PolyArena

/-- A message of the fill, the cancel or the bracket-exit stream. -/
inductive StreamMessage
  | fill (m : FillMessage)
  | cancel (m : CancelMessage)
  | exit (m : ExitMessage)
  deriving DecidableEq, Repr

/-- `_order_to_bo` maps the tracked orders to their rows; `_registered_books` are the tokens whose
book has the callback. -/
structure OrderConsumer where
  orderToBo : SortedDict OrderId ℕ := ∅
  registeredBooks : List String := []
  published : List StreamMessage := []

/-- `_serialize_fill_levels`: the empty list becomes the empty string, a field that is left out. -/
def serializeFillLevels (levels : List (ℚ × ℚ)) : Option (List FillLevel) :=
  if levels = [] then none else some (levels.map fun f => ⟨f.1, f.2, round8 (f.1 * f.2)⟩)

/-- The fill message of an event. -/
def OrderStateChangeEvent.fillMessage (e : OrderStateChangeEvent) (boId : ℕ) : FillMessage where
  boId := boId
  orderId := some e.orderId
  filled := e.filled
  avgEntryPrice := e.avgEntryPrice.getD 0
  status := e.status
  walkPrices := serializeFillLevels e.fillLevels

/-- The cancel message of an event. -/
def OrderStateChangeEvent.cancelMessage (e : OrderStateChangeEvent) (boId : ℕ) : CancelMessage where
  boId := boId
  orderId := some e.orderId
  reason := e.cancelReason.getD .ttlExpired
  filled := e.filled
  avgEntryPrice := e.avgEntryPrice.getD 0

/-- The message that reports what an order was filled with when it was placed. -/
def SimulatedOrder.fillMessage (o : SimulatedOrder) (boId : ℕ) : FillMessage where
  boId := boId
  orderId := some o.orderId
  filled := o.filled
  avgEntryPrice := o.avgEntryPrice.getD 0
  status := o.status
  walkPrices := serializeFillLevels o.fillLevels

/-- The message that reports that an order was cancelled when it was placed. -/
def SimulatedOrder.iocCancelMessage (o : SimulatedOrder) (boId : ℕ) : CancelMessage where
  boId := boId
  orderId := some o.orderId
  reason := .marketIocCancel
  filled := o.filled
  avgEntryPrice := o.avgEntryPrice.getD 0

/-- The message of `_make_bracket_callback`. -/
def BracketFillResult.exitMessage (r : BracketFillResult) (now : Time) (boId : ℕ) :
    ExitMessage where
  boId := boId
  trigger := r.trigger
  exitPrice := r.avgExitPrice
  exitFilled := r.qtyExited
  orderId := some r.orderId
  exitAt := some now
  walkPrices := serializeFillLevels r.fillLevels

/-- The message that an event is published as. -/
def OrderStateChangeEvent.message (boId : ℕ) (e : OrderStateChangeEvent) : StreamMessage :=
  match e.eventType with
  | .fill => .fill (e.fillMessage boId)
  | .cancel => .cancel (e.cancelMessage boId)

namespace OrderConsumer

def publish (c : OrderConsumer) (m : StreamMessage) : OrderConsumer :=
  { c with published := c.published ++ [m] }

/-- `self._order_to_bo[order_id] = bo_id`. -/
def register (c : OrderConsumer) (orderId : OrderId) (boId : ℕ) : OrderConsumer :=
  { c with orderToBo := c.orderToBo.set orderId boId }

/-- `self._order_to_bo.pop(order_id, None)`. -/
def forget (c : OrderConsumer) (orderId : OrderId) : OrderConsumer :=
  { c with orderToBo := c.orderToBo.erase orderId }

/-- `publish_order_cancel` for an order that never reached a book. -/
def reject (c : OrderConsumer) (boId : ℕ) (reason : CancelReason) : OrderConsumer :=
  c.publish (.cancel ⟨boId, none, reason, 0, 0⟩)

/-- The loop body of `_on_state_changes`. -/
def onStateChange (c : OrderConsumer) (e : OrderStateChangeEvent) : OrderConsumer :=
  match c.orderToBo.get? e.orderId with
  | none => c
  | some boId =>
    let c := c.publish <| match e.eventType with
      | .fill => .fill (e.fillMessage boId)
      | .cancel => .cancel (e.cancelMessage boId)
    if e.status.isTerminal then c.forget e.orderId else c

/-- `_on_state_changes`. -/
def onStateChanges (c : OrderConsumer) (events : List OrderStateChangeEvent) : OrderConsumer :=
  events.foldl onStateChange c

/-- The immediate fill, published when the order has one. -/
def publishImmediateFill (c : OrderConsumer) (o : SimulatedOrder) (boId : ℕ) : OrderConsumer :=
  if 0 < o.filled then c.publish (.fill (o.fillMessage boId)) else c

/-- The immediate cancel, published when the order was cancelled; it is no longer tracked. -/
def publishImmediateCancel (c : OrderConsumer) (o : SimulatedOrder) (boId : ℕ) : OrderConsumer :=
  if o.status = .canceled then (c.publish (.cancel (o.iocCancelMessage boId))).forget o.orderId
  else c

end OrderConsumer

/-! ## What was published about an order -/

/-- The fill messages of an order, in publication order. -/
def publishedFills (id : OrderId) (ms : List StreamMessage) : List FillMessage :=
  ms.filterMap fun
    | .fill m => if m.orderId = some id then some m else none
    | _ => none

/-- The cumulative filled quantity of the last fill message. -/
def lastFilled (id : OrderId) (ms : List StreamMessage) : ℚ :=
  ((publishedFills id ms).getLast?.map FillMessage.filled).getD 0

/-- The `(price, quantity)` levels a fill message carries. -/
def FillMessage.levels (m : FillMessage) : List (ℚ × ℚ) :=
  (m.walkPrices.getD []).map fun lv => (lv.price, lv.qty)

/-- The levels of all fill messages of an order, in publication order. -/
def publishedLevels (id : OrderId) (ms : List StreamMessage) : List (ℚ × ℚ) :=
  (publishedFills id ms).flatMap FillMessage.levels

section

variable {c : OrderConsumer} {id k : OrderId} {ms : List StreamMessage} {m : FillMessage}
  {o : SimulatedOrder} {e : OrderStateChangeEvent} {boId : ℕ}

/-- Serialising loses no level. -/
theorem levels_serialize (levels : List (ℚ × ℚ)) :
    ((serializeFillLevels levels).getD []).map (fun lv => (lv.price, lv.qty)) = levels := by
  unfold serializeFillLevels
  split
  · next h => simp [h]
  · simp [Function.comp_def]

theorem publishedFills_fill_self (hm : m.orderId = some id) :
    publishedFills id (ms ++ [.fill m]) = publishedFills id ms ++ [m] := by
  simp [publishedFills, hm]

theorem publishedFills_other {x : StreamMessage} (hx : ∀ m, x = .fill m → m.orderId ≠ some id) :
    publishedFills id (ms ++ [x]) = publishedFills id ms := by
  cases x with
  | fill m => simp [publishedFills, hx m rfl]
  | cancel m => simp [publishedFills]
  | exit m => simp [publishedFills]

theorem message_eq_fill {m : FillMessage} :
    e.message boId = .fill m ↔ e.eventType = .fill ∧ e.fillMessage boId = m := by
  unfold OrderStateChangeEvent.message
  cases e.eventType <;> simp

theorem message_eq_cancel {m : CancelMessage} :
    e.message boId = .cancel m ↔ e.eventType = .cancel ∧ e.cancelMessage boId = m := by
  unfold OrderStateChangeEvent.message
  cases e.eventType <;> simp

/-- An event of an order that is not tracked is dropped. -/
theorem onStateChange_untracked (h : c.orderToBo.get? e.orderId = none) :
    c.onStateChange e = c := by
  unfold OrderConsumer.onStateChange
  rw [h]

/-- An event of an order that is tracked is published. -/
theorem onStateChange_some (h : c.orderToBo.get? e.orderId = some boId) :
    c.onStateChange e =
      if e.status.isTerminal then (c.publish (e.message boId)).forget e.orderId
      else c.publish (e.message boId) := by
  unfold OrderConsumer.onStateChange
  rw [h]
  rfl

/-- An event of another order, or a CANCEL, publishes no fill of an order. -/
theorem publishedFills_onStateChange (h : e.isFillOf id = false) :
    publishedFills id (c.onStateChange e).published = publishedFills id c.published := by
  cases hget : c.orderToBo.get? e.orderId with
  | none => rw [onStateChange_untracked hget]
  | some boId =>
    have hother : publishedFills id (c.published ++ [e.message boId]) =
        publishedFills id c.published := by
      refine publishedFills_other fun m hm hid => ?_
      obtain ⟨htype, rfl⟩ := message_eq_fill.mp hm
      rw [OrderStateChangeEvent.isFillOf, htype] at h
      simp_all [OrderStateChangeEvent.fillMessage]
    rw [onStateChange_some hget]
    split <;> exact hother

/-- A FILL event of a tracked order is published. -/
theorem published_onStateChange (hget : c.orderToBo.get? id = some boId) (h : e.isFillOf id) :
    (c.onStateChange e).published = c.published ++ [.fill (e.fillMessage boId)] := by
  simp only [OrderStateChangeEvent.isFillOf, decide_eq_true_eq] at h
  rw [onStateChange_some (h.1 ▸ hget), message_eq_fill.mpr ⟨h.2, rfl⟩]
  split <;> rfl

/-- Delivering an event tracks no further order. -/
theorem tracked_of_onStateChange (h : (c.onStateChange e).orderToBo.get? id = some boId) :
    c.orderToBo.get? id = some boId := by
  cases hget : c.orderToBo.get? e.orderId with
  | none => rwa [onStateChange_untracked hget] at h
  | some b =>
    rw [onStateChange_some hget] at h
    split at h
    · by_cases hid : id = e.orderId
      · subst hid
        simp [OrderConsumer.forget] at h
      · rwa [OrderConsumer.forget, SortedDict.get?_erase_ne hid] at h
    · exact h

end

end PolyArena
