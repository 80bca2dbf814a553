import PolyArena.Settlement

/-!
# Stream handlers

The four stream handlers of `main.py`.  Each reads one message, changes the rows it names in one
transaction and acknowledges the message; the Boolean says whether it was acknowledged.  An
exception leaves the last committed state and no acknowledgement.

`walk_prices` is a plain JSON column.  The handlers extend the loaded object in place and assign the
same object back, which SQLAlchemy does not see as a change: only a column that was `NULL`, where
the handler starts from a new object, is written.
-/

namespace PolyArena

open Rounding

/-! ## Messages -/

/-- A message of the order-fill stream.  `walkPrices` is `none` when the field is absent or is not
the JSON of a list of levels. -/
structure FillMessage where
  boId : ℕ
  orderId : Option OrderId
  filled : ℚ
  avgEntryPrice : ℚ
  status : OrderStatus
  walkPrices : Option (List FillLevel)
  deriving DecidableEq, Repr

/-- A message of the order-cancel stream. -/
structure CancelMessage where
  boId : ℕ
  orderId : Option OrderId
  reason : CancelReason
  filled : ℚ
  avgEntryPrice : ℚ
  deriving DecidableEq, Repr

/-- A message of the bracket-exit stream. -/
structure ExitMessage where
  boId : ℕ
  trigger : Trigger
  exitPrice : ℚ
  exitFilled : ℚ
  orderId : Option OrderId
  exitAt : Option Time
  walkPrices : Option (List FillLevel)
  deriving DecidableEq, Repr

/-! ## Walk prices -/

/-- The stored column after the handler extended the entry levels. -/
def persistEntryLevels (stored : Option WalkPrices) (new : List FillLevel) : Option WalkPrices :=
  match stored with
  | none => some { entry := new }
  -- extended in place and assigned to itself: not written
  | some wp => some wp

/-- The stored column after the handler extended the exit levels. -/
def persistExitLevels (stored : Option WalkPrices) (new : List FillLevel) : Option WalkPrices :=
  match stored with
  | none => some { exit := new }
  | some wp => some wp

/-! ## Order fills -/

/-- The maker rebate a fill message earns: only a passive LIMIT, one that paid no taker fee. -/
def fillRebate (bo : BinaryOption) (m : FillMessage) : ℚ :=
  match m.walkPrices with
  | some levels => if bo.fee ≤ 0 then makerRebateFromLevels levels else 0
  | none => 0

theorem fillRebate_mem_grid (bo : BinaryOption) (m : FillMessage) : fillRebate bo m ∈ grid 8 := by
  unfold fillRebate
  cases m.walkPrices with
  | none => exact zero_mem _
  | some levels =>
    dsimp only
    split
    · exact makerRebateFromLevels_mem_grid _
    · exact zero_mem _

/-- The order row a fill message leaves. -/
def filledRow (bo : BinaryOption) (m : FillMessage) : BinaryOption :=
  let rebate := fillRebate bo m
  let row := { bo.recordOrderId m.orderId with
    avgPrice := some m.avgEntryPrice
    numShares := some m.filled
    meOrderStatus :=
      match m.status with
      | .partial_ => some .partial_
      | .filled => some .filled
      | _ => bo.meOrderStatus
    walkPrices :=
      match m.walkPrices with
      | some levels => persistEntryLevels bo.walkPrices levels
      | none => bo.walkPrices
    entryFee := if 0 < rebate then some (round8 (bo.fee - rebate)) else bo.entryFee }
  match m.status with
  | .filled => row.appendTrace .orderFilled
  | .partial_ => row.appendTrace .partialFill
  | _ => row

/-- The first transaction of `_handle_order_fill`. -/
def recordFill (db : Database) (bo : BinaryOption) (m : FillMessage) : Database :=
  let rebate := fillRebate bo m
  let db₁ := db.setOrder (filledRow bo m)
  if 0 < rebate then db₁.creditBot bo.botName rebate else db₁

section FilledRow

variable (bo : BinaryOption) (m : FillMessage)

@[simp] theorem filledRow_id : (filledRow bo m).id = bo.id := by
  unfold filledRow; cases m.status <;> rfl

@[simp] theorem filledRow_botName : (filledRow bo m).botName = bo.botName := by
  unfold filledRow; cases m.status <;> rfl

@[simp] theorem filledRow_amount : (filledRow bo m).amount = bo.amount := by
  unfold filledRow; cases m.status <;> rfl

@[simp] theorem filledRow_result : (filledRow bo m).result = bo.result := by
  unfold filledRow; cases m.status <;> rfl

@[simp] theorem filledRow_avgPrice : (filledRow bo m).avgPrice = some m.avgEntryPrice := by
  unfold filledRow; cases m.status <;> rfl

@[simp] theorem filledRow_numShares : (filledRow bo m).numShares = some m.filled := by
  unfold filledRow; cases m.status <;> rfl

theorem filledRow_walkPrices : (filledRow bo m).walkPrices =
    match m.walkPrices with
    | some levels => persistEntryLevels bo.walkPrices levels
    | none => bo.walkPrices := by
  unfold filledRow; cases m.status <;> rfl

@[simp] theorem filledRow_settlementAt : (filledRow bo m).settlementAt = bo.settlementAt := by
  unfold filledRow; cases m.status <;> rfl

theorem filledRow_fee :
    (filledRow bo m).fee = if 0 < fillRebate bo m then round8 (bo.fee - fillRebate bo m)
      else bo.fee := by
  unfold filledRow BinaryOption.fee
  cases m.status <;> simp only [BinaryOption.appendTrace] <;> split <;> rfl

end FilledRow

theorem recordFill_orders (db : Database) (bo : BinaryOption) (m : FillMessage) :
    (recordFill db bo m).orders = db.orders.put (filledRow bo m) := by
  unfold recordFill
  dsimp only
  split <;> simp

/-- A full fill that arrives after the settlement time. -/
def isLateFill (now : Time) (bo : BinaryOption) (m : FillMessage) : Bool :=
  m.status = .filled ∧ bo.result = .pending ∧ ∃ t ∈ bo.settlementAt, t ≤ now

/-- `_handle_order_fill`: record the fill, commit, and settle a late one in a second transaction. -/
def handleOrderFill (now : Time) (fetch : CandleFetch) (db : Database) (m : FillMessage) :
    Database × Bool :=
  match db.orders.get m.boId with
  | none => (db, true)
  | some bo =>
    if bo.result ≠ .pending then (db, true)
    else
      let db₁ := recordFill db bo m
      let bo₁ := filledRow bo m
      if isLateFill now bo₁ m then
        match fetch bo₁.candleRequest with
        | none => (db₁, true)
        | some c =>
          match settleSingleTrade db₁ db₁ bo₁ c with
          | none => (db₁, false)
          | some db₂ => (db₂, true)
      else (db₁, true)

/-- What a fill message does, for each way through the handler. -/
inductive FillHandled (db : Database) (m : FillMessage) : Database → Prop
  | unknown (hget : db.orders.get m.boId = none) : FillHandled db m db
  | decided (bo : BinaryOption) (hget : db.orders.get m.boId = some bo)
      (hp : bo.result ≠ .pending) :
      FillHandled db m db
  | recorded (bo : BinaryOption) (hget : db.orders.get m.boId = some bo)
      (hp : bo.result = .pending) :
      FillHandled db m (recordFill db bo m)
  | settled (bo : BinaryOption) (c : Candle) (db' : Database)
      (hget : db.orders.get m.boId = some bo)
      (hp : bo.result = .pending)
      (hs : settleSingleTrade (recordFill db bo m) (recordFill db bo m)
        (filledRow bo m) c = some db') :
      FillHandled db m db'

section

variable {db : Database} {bo : BinaryOption} {m : FillMessage}

theorem fillHandled (now : Time) (fetch : CandleFetch) (db : Database) (m : FillMessage) :
    FillHandled db m (handleOrderFill now fetch db m).1 := by
  unfold handleOrderFill
  cases hget : db.orders.get m.boId with
  | none => exact .unknown hget
  | some bo =>
    dsimp only
    by_cases hp : bo.result ≠ .pending
    · rw [if_pos hp]
      exact .decided bo hget hp
    rw [if_neg hp]
    have hp := not_not.mp hp
    split
    · cases fetch (filledRow bo m).candleRequest with
      | none => exact .recorded bo hget hp
      | some c =>
        dsimp only
        cases hs : settleSingleTrade (recordFill db bo m) (recordFill db bo m)
          (filledRow bo m) c with
        | none => exact .recorded bo hget hp
        | some db' => exact .settled bo c db' hget hp hs
    · exact .recorded bo hget hp

/-- The row that a fill is recorded in. -/
theorem get_recordFill (hget : db.orders.get bo.id = some bo) :
    (recordFill db bo m).orders.get bo.id = some (filledRow bo m) := by
  rw [recordFill_orders]
  have h : db.orders.get (filledRow bo m).id = some bo := by rw [filledRow_id, hget]
  simpa using Table.get_put_self h

end

/-! ## Order cancels -/

/-- The row after a cancel that reports fills: only the filled part stays in the order. -/
def partialCancelRow (bo : BinaryOption) (m : CancelMessage) : BinaryOption :=
  { bo.recordOrderId m.orderId with
    originalAmount := some (bo.originalAmount.getD bo.amount)
    avgPrice := some m.avgEntryPrice
    numShares := some m.filled
    amount := round8 (m.filled * m.avgEntryPrice)
    meOrderStatus := some .canceled }.appendTrace .partialFillExpiry

/-- What a cancel that reports fills gives back. -/
def unfilledRefund (bo : BinaryOption) (m : CancelMessage) : ℚ :=
  round8 (max 0 (bo.amount - round8 (m.filled * m.avgEntryPrice)))

/-- The row after a cancel without fills. -/
def zeroFillCancelRow (bo : BinaryOption) (m : CancelMessage) : BinaryOption :=
  { bo.recordOrderId m.orderId with
    result := .cancelled
    profit := some 0
    meOrderStatus := some .canceled }.appendTrace .orderCancelled

/-- `_handle_order_cancel`. -/
def handleOrderCancel (db : Database) (m : CancelMessage) : Database × Bool :=
  match db.orders.get m.boId with
  | none => (db, true)
  | some bo =>
    if bo.result ≠ .pending then (db, true)
    else if 0 < m.filled ∧ 0 < m.avgEntryPrice then
      let refund := unfilledRefund bo m
      let db₁ := db.setOrder (partialCancelRow bo m)
      (if 0 < refund then db₁.refundBot bo.botName refund bo.id else db₁, true)
    else
      let db₁ := (db.setOrder (zeroFillCancelRow bo m)).refundBot bo.botName bo.amount bo.id
      (db₁.recordUserBalance db bo.botName (some bo.id) (some 0), true)

/-! ## Bracket exits -/

/-- All recorded shares left with this exit. -/
def isFullExit (bo : BinaryOption) (m : ExitMessage) : Bool :=
  let numShares := bo.numShares.getD 0
  m.exitFilled ≥ numShares ∧ numShares > 0

/-- The row a bracket exit leaves. -/
def exitRow (now : Time) (bo : BinaryOption) (m : ExitMessage) : BinaryOption :=
  let row := { bo with
    exitTrigger := some m.trigger
    exitPrice := some m.exitPrice
    exitFilled := some m.exitFilled }.appendTrace .bracketExit
  let row := { row.recordOrderId m.orderId with
    exitAt := some (m.exitAt.getD now)
    meOrderStatus := some .filled
    walkPrices :=
      match m.walkPrices with
      | some levels => persistExitLevels bo.walkPrices levels
      | none => bo.walkPrices }
  row.appendTrace (if isFullExit bo m then .bracketExitFull else .partialExit)

/-- `_handle_bracket_exit`.  The trace of a full exit formats the entry price, which raises on a row
without one. -/
def handleBracketExit (now : Time) (db : Database) (m : ExitMessage) : Database × Bool :=
  match db.orders.get m.boId with
  | none => (db, true)
  | some bo =>
    if bo.exitTrigger = none ∧ bo.result = .pending then
      if isFullExit bo m ∧ bo.avgPrice = none then (db, false)
      else (db.setOrder (exitRow now bo m), true)
    else (db, true)

/-! ## Market resolution -/

/-- The row of an order whose market resolved. -/
def resolvedRow (bo : BinaryOption) : BinaryOption :=
  { bo with
    tpPrice := none
    slPrice := none
    positionClosed := true
    meOrderStatus := some .resolved }.appendTrace .marketResolved

/-- `_handle_market_resolved`: mark the listed pending orders, leaving settlement to the
scheduler. -/
def handleMarketResolved (db : Database) (boIds : List ℕ) : Database × Bool :=
  let affected := db.orders.rows.filter fun bo =>
    bo.id ∈ boIds ∧ bo.result = .pending ∧ ¬ bo.positionClosed
  (affected.foldl (fun db bo => db.setOrder (resolvedRow bo)) db, true)

/-! ## A sample -/

/-- One bot of `100` that holds one passive order of `10`. -/
def oneOrderDb : Database where
  bots := ⟨[{ botName := "alpha", apiKey := "k", initialBalance := 100, balance := 90 }],
    nodup_sampleBot⟩
  orders := ⟨[{ id := 1, botName := "alpha", symbol := .btc, timeframe := .m5, forecast := .green,
                amount := 10, limitPrice := some (1 / 2),
                  meOrderStatus := some .pending }], by simp⟩
  users := ⟨[], List.nodup_nil⟩

/-- Ten of the twenty shares of `oneOrderDb`'s order at `0.50`. -/
def halfFill : FillMessage :=
  ⟨1, some 7, 10, 1 / 2, .partial_, some [⟨1 / 2, 10, 5⟩]⟩

/-- The engine gives the rest of `oneOrderDb`'s order up. -/
def halfCancel : CancelMessage := ⟨1, some 7, .ttlExpired, 10, 1 / 2⟩

/-- `oneOrderDb` after half of its order was filled. -/
def halfFilledDb : Database := (handleOrderFill 0 (fun _ => none) oneOrderDb halfFill).1

end PolyArena
