import PolyArena.OrderConsumer.Entering
import PolyArena.WsFeedService.Recovery

/-!
# What recovery restores

The rows of the database say what the engine had of each order: `openQuantity` is what is left to
buy, and `openBracket` the shares that a bracket watches.

1. `Restored` says that the service has the order again as its row has it, and `Recoverable` when it
   is so.
2. `SoleOrder` is the one order that a payload leaves behind; `restored_iff_of_only` says what it
   has to be.
3. `restored_takeUp_iff`: the row whose payload was taken up is restored exactly under the
   condition.
-/

namespace PolyArena

open ShadowOrderbook Rounding

/-! ## Rows -/

namespace BinaryOption

/-- What the database has of an order, by the types of its columns and the paths that write them. -/
structure Sound (bo : BinaryOption) : Prop where
  amount : 0 < bo.amount
  grid : bo.amount ∈ grid 8
  limit : ∀ l ∈ bo.limitPrice, 0 < l ∧ l < 1
  tp : ∀ p ∈ bo.tpPrice, 0 < p
  sl : ∀ p ∈ bo.slPrice, 0 < p
  /-- A fill writes both columns. -/
  fill : bo.avgPrice.isSome = bo.numShares.isSome
  shares : ∀ n ∈ bo.numShares, 0 < n
  /-- A MARKET order is filled when it is created. -/
  pending : bo.meOrderStatus = some .pending → bo.isLimit

/-- `requested_quantity` (`schemas.py`): what the whole budget buys at the limit. -/
def requestedQuantity (bo : BinaryOption) : ℚ :=
  match bo.limitPrice with
  | some limit => round8 (bo.originalAmount.getD bo.amount / limit)
  | none => bo.numShares.getD 0

/-- What the engine still has to buy for the order. -/
def openQuantity (bo : BinaryOption) : ℚ :=
  if bo.result = .pending ∧ (bo.meOrderStatus = some .pending ∨
      bo.meOrderStatus = some .partial_) then
    bo.requestedQuantity - bo.numShares.getD 0
  else 0

/-- The shares that the bracket of the order watches, with their entry price. -/
def openBracket (bo : BinaryOption) : Option (ℚ × ℚ) :=
  if bo.result = .pending ∧ bo.hasBracket ∧ ¬ bo.positionClosed then
    (bo.fillData.map fun f => (f.1, f.2 - bo.exitFilled.getD 0)).filter fun f => 0 < f.2
  else none

/-- The session of the candle that ends when the order settles. -/
def ownSession (bo : BinaryOption) (close : Time) : SessionId :=
  ⟨bo.symbol, bo.timeframe, ⌊close⌋ - TF_SECONDS bo.timeframe⟩

/-- What recovery queues of the row. -/
def queuedPayload (bo : BinaryOption) (r : TokenRegistry) (now : Time) : Option RecoveryPayload :=
  (bo.recoveryTarget now r).map fun target => bo.recoveryPayload now target.2

end BinaryOption

/-! ## Orders that are back -/

/-- An order of the book that stands for the row, with its bracket, and that expires when the order
settles at the latest. -/
structure Stands (s : FeedService) (bo : BinaryOption) (close : Time) (b : ShadowOrderbook)
    (o : SimulatedOrder) : Prop where
  mem : o ∈ b.virtualOrders
  tracked : s.consumer.orderToBo.get? o.orderId = some bo.id
  tp : o.tpPrice = bo.tpPrice
  sl : o.slPrice = bo.slPrice
  expires : ∃ t ∈ o.expireAt, t ≤ close

/-- The order is a LIMIT BUY for what the order has left to buy, less what it bought since. -/
structure BuysRest (bo : BinaryOption) (h : List BookRecord) (o : SimulatedOrder) : Prop where
  side : o.side = .buy
  orderType : o.orderType = .limit
  price : bo.limitPrice = some o.price
  remaining : o.remainingQty = bo.openQuantity - filledOf o.orderId h
  status : o.status ≠ .canceled

/-- **The service has the order again** as its row has it. -/
structure Restored (s : FeedService) (bo : BinaryOption) (close : Time) : Prop where
  /-- An open order is worked on in its own session. -/
  works : 0 < bo.openQuantity → ∃ b ∈ s.manager.bookAt (bo.ownSession close)
    (FORECAST_TO_DIR bo.forecast),
    ∃ o, Stands s bo close b o ∧ BuysRest bo b.history o
  /-- Its filled shares are watched there. -/
  watches : ∀ f ∈ bo.openBracket,
    ∃ b ∈ s.manager.bookAt (bo.ownSession close) (FORECAST_TO_DIR bo.forecast),
      ∃ o, Stands s bo close b o ∧ .prefill o.orderId f.1 f.2 ∈ b.history
  /-- Nothing is bought for an order that is not open. -/
  idle : ¬ 0 < bo.openQuantity → ∀ sid dir, ∀ b ∈ s.manager.bookAt sid dir, ∀ o ∈ b.virtualOrders,
    s.consumer.orderToBo.get? o.orderId = some bo.id →
      ∃ avg filled, .prefill o.orderId avg filled ∈ b.history

/-! ## The condition -/

/-- The session of the order takes an order under the token that the registry has for it: the book
that it goes to. -/
def FeedService.taker (s : FeedService) (r : TokenRegistry) (bo : BinaryOption) (close : Time) :
    Option (Direction × ShadowOrderbook) :=
  (r.getTokenId bo.combo).bind fun token =>
    (s.manager.getSession (bo.ownSession close)).bind fun session => session.bookForOrder token

/-- An order that is taken up at `now'` expires when it settles at the latest: its time to live ends
by then, or without one the candle of `now'` does. -/
def BinaryOption.EndsBy (bo : BinaryOption) (now now' close : Time) : Prop :=
  match bo.ttl, bo.createdAt with
  | some ttl, some createdAt => now' + (ttl - (now - createdAt)) ≤ close
  | _, _ => candleExpireAt bo.timeframe now' ≤ close

/-- Either nothing is filled and the row still has its whole budget, or one half of what was
requested is. -/
def BinaryOption.AsksForRest (bo : BinaryOption) : Prop :=
  match bo.numShares with
  | none => ∀ limit ∈ bo.limitPrice, round8 (bo.amount / limit) = bo.requestedQuantity
  | some n => 2 * n = bo.requestedQuantity

/-- **When a row is restored**: it has no open bracket; an open order is let pass, its session takes
it in the book of its forecast, and it asks for the rest in time; one that is not open is not taken
up. -/
structure Recoverable (s : FeedService) (r : TokenRegistry) (now now' : Time) (bo : BinaryOption)
    (close : Time) : Prop where
  bracket : bo.openBracket = none
  takes : 0 < bo.openQuantity → bo.isRecovered now ∧
    ∃ b, s.taker r bo close = some (FORECAST_TO_DIR bo.forecast, b)
  rest : 0 < bo.openQuantity → bo.AsksForRest
  ends : 0 < bo.openQuantity → bo.EndsBy now now' close
  closed : ¬ 0 < bo.openQuantity → bo.isRecovered now → bo.isLimit → s.taker r bo close = none

/-! ## The order that a payload leaves behind -/

section

variable {s s' : FeedService} {bo : BinaryOption} {sid : SessionId} {dir : Direction} {boId : ℕ}
  {b : ShadowOrderbook} {o : SimulatedOrder} {r : TokenRegistry} {now now' close : Time}
  {id : OrderId} {p : RecoveryPayload}

/-- The one order of the service that stands for the row. -/
structure SoleOrder (s : FeedService) (boId : ℕ) (sid : SessionId) (dir : Direction)
    (b : ShadowOrderbook) (o : SimulatedOrder) : Prop where
  book : s.manager.bookAt sid dir = some b
  mem : o ∈ b.virtualOrders
  tracked : s.consumer.orderToBo.get? o.orderId = some boId
  only : ∀ sid' dir' b', s.manager.bookAt sid' dir' = some b' → ∀ x ∈ b'.virtualOrders,
    s.consumer.orderToBo.get? x.orderId = some boId → sid' = sid ∧ dir' = dir ∧ x = o

/-- No book has seen the id. -/
def FeedService.Fresh (s : FeedService) (id : OrderId) : Prop :=
  ∀ sid dir b, s.manager.bookAt sid dir = some b → .placed id ∉ b.history

/-- An order that was entered under a new id is the only one. -/
theorem Entered.only (h : Entered s' sid dir boId o b) (hsame : SameBooksBut s' s sid dir)
    (hsane : s.SaneBooks) (hfresh : s.Fresh o.orderId)
    (htracked : ∀ k, s'.consumer.orderToBo.get? k = some boId → k = o.orderId) :
    SoleOrder s' boId sid dir b o := by
  refine ⟨h.book, h.mem, h.tracked, fun sid' dir' b' hb' x hx hxid => ?_⟩
  replace hxid := htracked x.orderId hxid
  by_cases hplace : sid' = sid ∧ dir' = dir
  · obtain ⟨rfl, rfl⟩ := hplace
    obtain rfl : b = b' := Option.some.inj (h.book.symm.trans hb')
    exact ⟨rfl, rfl, h.unique x hx hxid⟩
  · -- the other books have their orders from before, and none of the id
    obtain ⟨b₀, hb₀, horders, -⟩ := hsame sid' dir' b' hb' hplace
    have hx₀ : x ∈ b₀.virtualOrders := horders ▸ hx
    exact absurd (hxid ▸ (hsane sid' dir' b₀ hb₀).inv.placed x hx₀) (hfresh sid' dir' b₀ hb₀)

/-- What the only order has to be. -/
theorem restored_iff_of_only (h : SoleOrder s bo.id sid dir b o) : Restored s bo close ↔
    (0 < bo.openQuantity → sid = bo.ownSession close ∧ dir = FORECAST_TO_DIR bo.forecast ∧
      Stands s bo close b o ∧ BuysRest bo b.history o) ∧
    (∀ f ∈ bo.openBracket, sid = bo.ownSession close ∧ dir = FORECAST_TO_DIR bo.forecast ∧
      Stands s bo close b o ∧ .prefill o.orderId f.1 f.2 ∈ b.history) ∧
    (¬ 0 < bo.openQuantity → ∃ avg filled, .prefill o.orderId avg filled ∈ b.history) := by
  have hthis : ∀ {P : ShadowOrderbook → SimulatedOrder → Prop},
      (∃ b' ∈ s.manager.bookAt (bo.ownSession close) (FORECAST_TO_DIR bo.forecast),
        ∃ x, Stands s bo close b' x ∧ P b' x) ↔
      sid = bo.ownSession close ∧ dir = FORECAST_TO_DIR bo.forecast ∧
        Stands s bo close b o ∧ P b o := by
    intro P
    constructor
    · rintro ⟨b', hb', x, hx, hP⟩
      obtain ⟨hsid, hdir, rfl⟩ := h.only _ _ b' hb' x hx.mem hx.tracked
      rw [hsid, hdir, Option.mem_def, h.book, Option.some.injEq] at hb'
      subst hb'
      exact ⟨hsid.symm, hdir.symm, hx, hP⟩
    · rintro ⟨rfl, rfl, ho, hP⟩
      exact ⟨b, h.book, o, ho, hP⟩
  constructor
  · intro hr
    refine ⟨fun hopen => hthis.mp (hr.works hopen), fun f hf => hthis.mp (hr.watches f hf),
      fun hopen => ?_⟩
    exact hr.idle hopen sid dir b h.book o h.mem h.tracked
  · rintro ⟨hworks, hwatches, hidle⟩
    refine ⟨fun hopen => hthis.mpr (hworks hopen), fun f hf => hthis.mpr (hwatches f hf), ?_⟩
    intro hopen sid' dir' b' hb' x hx hxid
    obtain ⟨rfl, rfl, rfl⟩ := h.only sid' dir' b' hb' x hx hxid
    obtain rfl : b = b' := Option.some.inj (h.book.symm.trans hb')
    exact hidle hopen

/-- A row that no order stands for is restored when nothing has to stand for it. -/
theorem restored_iff_of_untracked (h : ∀ k, s.consumer.orderToBo.get? k ≠ some bo.id) :
    Restored s bo close ↔ bo.openBracket = none ∧ ¬ 0 < bo.openQuantity := by
  constructor
  · intro hr
    refine ⟨Option.eq_none_iff_forall_not_mem.mpr fun f hf => ?_, fun hopen => ?_⟩
    · obtain ⟨b, -, o, ho, -⟩ := hr.watches f hf
      exact h _ ho.tracked
    · obtain ⟨b, -, o, ho, -⟩ := hr.works hopen
      exact h _ ho.tracked
  · rintro ⟨hbracket, hopen⟩
    refine ⟨fun h => absurd h hopen, fun f hf => ?_, fun _ _ _ _ _ o _ ho => absurd ho (h _)⟩
    rw [hbracket] at hf
    cases hf

/-! ## What is queued -/

theorem queuedPayload_some (h : bo.queuedPayload r now = some p) :
    bo.isRecovered now ∧ ∃ token, r.getTokenId bo.combo = some token ∧
      p = bo.recoveryPayload now token := by
  unfold BinaryOption.queuedPayload BinaryOption.recoveryTarget at h
  split at h
  · next hrec =>
    obtain ⟨target, htarget, rfl⟩ := Option.map_eq_some_iff.mp h
    obtain ⟨token, htoken, rfl⟩ := Option.map_eq_some_iff.mp htarget
    exact ⟨hrec, token, htoken, rfl⟩
  · cases h

theorem queuedPayload_none (h : bo.queuedPayload r now = none) (hrec : bo.isRecovered now) :
    s.taker r bo close = none := by
  unfold BinaryOption.queuedPayload BinaryOption.recoveryTarget at h
  rw [if_pos hrec, Option.map_eq_none_iff, Option.map_eq_none_iff] at h
  rw [FeedService.taker, h, Option.bind_none]

theorem recoverySession_eq (h : bo.settlementAt = some close) :
    bo.recoverySession now = bo.ownSession close := by
  unfold BinaryOption.recoverySession BinaryOption.ownSession
  rw [h]

/-- The row of a MARKET order that is let pass is filled and has a bracket. -/
theorem isAlreadyFilled_of_market (hsound : bo.Sound) (hrec : bo.isRecovered now)
    (hmarket : bo.isLimit = false) : bo.isAlreadyFilled := by
  unfold BinaryOption.isRecovered at hrec
  simp only [Bool.and_eq_true, Bool.or_eq_true, Bool.not_eq_true', decide_eq_true_eq, hmarket,
    Bool.false_eq_true, or_false] at hrec
  obtain ⟨⟨⟨⟨-, hkind⟩, -⟩, hfilled⟩, -⟩ := hrec
  have hbracket : bo.hasBracket = true := by
    refine hkind.resolve_right fun hpending => ?_
    have := hsound.pending hpending
    rw [hmarket] at this
    cases this
  simp_all [BinaryOption.isAlreadyFilled]

/-- The row asks for at least one unit of shares. -/
theorem recoveryFill_pos (hsound : bo.Sound) (hlimit : bo.isLimit ∨ bo.isUnfilled = false) :
    0 < bo.recoveryFill.2 := by
  unfold BinaryOption.recoveryFill
  cases hfill : bo.fillData with
  | some f =>
    unfold BinaryOption.fillData at hfill
    split at hfill
    · next n _ hn =>
      cases hfill
      exact hsound.shares _ hn
    · cases hfill
  | none =>
    have hlim : bo.isLimit := hlimit.resolve_right (by simp [BinaryOption.isUnfilled, hfill])
    obtain ⟨limit, hl⟩ := Option.isSome_iff_exists.mp hlim
    obtain ⟨hpos, hlt⟩ := hsound.limit limit hl
    have hunit := unit_le_of_pos hsound.grid hsound.amount
    dsimp only
    rw [hl, Option.getD_some]
    exact roundTo_pos (hunit.trans (le_div_self hsound.amount.le hpos hlt.le))

theorem condition_eq {price : Option ℚ} (h : ∀ p ∈ price, 0 < p) :
    QueuePayload.condition price = price := by
  cases price with
  | none => rfl
  | some p =>
    have hne : p ≠ 0 := (h p rfl).ne'
    simp [QueuePayload.condition, hne]

/-- An open order is a LIMIT order. -/
theorem isLimit_of_open (h : 0 < bo.openQuantity) : bo.isLimit := by
  unfold BinaryOption.openQuantity BinaryOption.requestedQuantity at h
  cases hl : bo.limitPrice with
  | some limit => simp [BinaryOption.isLimit, hl]
  | none =>
    rw [hl] at h
    split at h <;> simp at h

/-- What recovery asks for of an open order is what is left. -/
theorem recoveryFill_eq_open (hsound : bo.Sound) (hopen : 0 < bo.openQuantity) :
    bo.recoveryFill.2 = bo.openQuantity ↔ bo.AsksForRest := by
  have hlim := isLimit_of_open hopen
  obtain ⟨limit, hl⟩ := Option.isSome_iff_exists.mp hlim
  have hopen' : bo.openQuantity = bo.requestedQuantity - bo.numShares.getD 0 := by
    unfold BinaryOption.openQuantity at hopen ⊢
    split at hopen
    · next h => exact if_pos h
    · exact absurd hopen (lt_irrefl 0)
  rw [hopen']
  unfold BinaryOption.AsksForRest BinaryOption.recoveryFill BinaryOption.fillData
  have hfill := hsound.fill
  cases hn : bo.numShares with
  | none =>
    rw [hn] at hfill
    obtain havg : bo.avgPrice = none := by simpa using hfill
    simp [havg, hl]
  | some n =>
    rw [hn] at hfill
    obtain ⟨avg, havg⟩ := Option.isSome_iff_exists.mp hfill
    simp only [havg, Option.getD_some]
    constructor <;> intro h <;> linarith

/-- The order that is taken up at `now'` ends in time. -/
theorem expireAt_iff (token : String) (hrec : bo.isRecovered now) :
    (∃ t ∈ (bo.recoveryPayload now token).orderRequest.expireAt now', t ≤ close) ↔
      bo.EndsBy now now' close := by
  have hlate : ∀ ttl ∈ bo.ttlRemaining now, 1 < ttl := by
    unfold BinaryOption.isRecovered at hrec
    rw [Bool.and_eq_true] at hrec
    intro ttl httl
    have := hrec.2
    rw [Option.mem_def.mp httl] at this
    simpa using this
  unfold BinaryOption.EndsBy OrderRequest.expireAt BinaryOption.recoveryPayload
    RecoveryPayload.orderRequest
  unfold BinaryOption.ttlRemaining at hlate ⊢
  cases httl : bo.ttl with
  | none => simp
  | some ttl =>
    cases hcreated : bo.createdAt with
    | none => simp
    | some createdAt =>
      rw [httl, hcreated] at hlate
      have hmax : max 1 ((ttl : ℚ) - (now - createdAt)) = ttl - (now - createdAt) := by
        have := hlate _ rfl
        exact max_eq_right (by simpa using (lt_max_iff.mp this).elim (fun h =>
          absurd h (lt_irrefl _)) le_of_lt)
      simp [hmax]

/-! ## Row by row -/

/-- A payload that is refused leaves nothing. -/
theorem restored_iff_of_refused (hnew : ∀ k, s.consumer.orderToBo.get? k ≠ some bo.id)
    (hrefused : s'.consumer.orderToBo = s.consumer.orderToBo)
    (htaker : bo.isRecovered now → bo.isLimit → s.taker r bo close = none) :
    Restored s' bo close ↔ Recoverable s r now now' bo close := by
  rw [restored_iff_of_untracked (hrefused ▸ hnew)]
  constructor
  · rintro ⟨hbracket, hopen⟩
    exact ⟨hbracket, fun h => absurd h hopen, fun h => absurd h hopen, fun h => absurd h hopen,
      fun _ => htaker⟩
  · intro h
    refine ⟨h.bracket, fun hopen => ?_⟩
    obtain ⟨hrec, b, hb⟩ := h.takes hopen
    rw [htaker hrec (isLimit_of_open hopen)] at hb
    cases hb

/-- An order that no book has seen was not registered as filled. -/
theorem not_prefill_of_fresh (hb : Sane b) (hfresh : .placed id ∉ b.history) (avg filled : ℚ) :
    .prefill id avg filled ∉ b.history := by
  intro h
  have hfill : (avg, filled) ∈ entryFills id b.history :=
    List.mem_filterMap.mpr ⟨_, h, by simp [BookRecord.entryFill]⟩
  have hnone : entryFills id b.history = [] := hb.balance.known id hfresh
  rw [hnone] at hfill
  cases hfill

/-- An order that is registered as filled has no expiry. -/
theorem restored_iff_of_registered {session : SessionEngine} {token : String} {q : PrefilledRequest}
    (hs : s.manager.getSession session.sessionId = some session)
    (hb : session.bookForPrefilled token = some (dir, b)) (hq : q.expireAt = none)
    (hmarket : bo.isLimit = false) (hsane : s.SaneBooks) (hfresh : s.Fresh id)
    (hnew : ∀ k, s.consumer.orderToBo.get? k ≠ some bo.id) :
    Restored (s.enterPrefilled now' session token bo.id q id) bo close ↔
      Recoverable s r now now' bo close := by
  have hat : s.manager.bookAt session.sessionId dir = some b :=
    bookAt_of_books hs (bookForPrefilled_spec hb)
  have hopen : ¬ 0 < bo.openQuantity := fun h => by
    have := isLimit_of_open h
    rw [hmarket] at this
    cases this
  obtain ⟨o, b', hentered, hterms, hconditions, -⟩ := enterPrefilled_order now' bo.id (r := q) hs hb
    (hsane _ _ b hat).inv (hfresh _ _ b hat)
  have hid : o.orderId = id := hterms.orderId
  obtain ⟨⟨b₁, hb₁, -, hhistory⟩, hsame⟩ := enterPrefilled_books now' bo.id id q
    hs hb
  obtain rfl : b₁ = b' := Option.some.inj (hb₁.symm.trans hentered.book)
  have honly := hentered.only hsame hsane (hid ▸ hfresh) fun k hk => by
    rcases enterPrefilled_tracked hk with h | ⟨rfl, -⟩
    · exact absurd h (hnew k)
    · exact hid.symm
  have hexpire : o.expireAt = none := (congrArg (·.2.2) hconditions).trans hq
  rw [restored_iff_of_only honly]
  constructor
  · rintro ⟨-, hwatches, -⟩
    refine ⟨Option.eq_none_iff_forall_not_mem.mpr fun f hf => ?_, fun h => absurd h hopen,
      fun h => absurd h hopen, fun h => absurd h hopen, fun _ _ hlimit => ?_⟩
    · obtain ⟨t, ht, -⟩ := (hwatches f hf).2.2.1.expires
      rw [hexpire] at ht
      cases ht
    · rw [hmarket] at hlimit
      cases hlimit
  · intro h
    refine ⟨fun hopen' => absurd hopen' hopen, fun f hf => ?_,
      fun _ => ⟨q.avgEntryPrice, q.filled, ?_⟩⟩
    · rw [h.bracket] at hf
      cases hf
    · rw [hid, hhistory]
      exact prefill_of_placePrefilled

/-- An order that is placed is the one that the row asks for. -/
theorem restored_iff_of_placed {session : SessionEngine} {token : String} (hsound : bo.Sound)
    (hrec : bo.isRecovered now) (hlimit : bo.isLimit) (htoken : r.getTokenId bo.combo = some token)
    (hs : s.manager.getSession (bo.ownSession close) = some session)
    (hb : session.bookForOrder token = some (dir, b)) (hsane : s.SaneBooks) (hfresh : s.Fresh id)
    (hnew : ∀ k, s.consumer.orderToBo.get? k ≠ some bo.id) :
    Restored (s.enterStandard now' session token bo.id
      (bo.recoveryPayload now token).orderRequest id) bo
      close ↔ Recoverable s r now now' bo close := by
  have hsid : session.sessionId = bo.ownSession close := Table.key_of_get hs
  have htaker : s.taker r bo close = some (dir, b) := by
    rw [FeedService.taker, htoken, Option.bind_some, hs, Option.bind_some, hb]
  rw [← hsid] at hs
  have hat : s.manager.bookAt session.sessionId dir = some b :=
    bookAt_of_books hs (bookForOrder_spec hb)
  have hbook := hsane _ _ b hat
  obtain ⟨limit, hl⟩ := Option.isSome_iff_exists.mp hlimit
  have hq : 0 < (bo.recoveryPayload now token).orderRequest.quantity :=
    recoveryFill_pos hsound (.inl hlimit)
  have htype : (bo.recoveryPayload now token).orderRequest.orderType = .limit := by
    simp [RecoveryPayload.orderRequest, BinaryOption.recoveryPayload, hl]
  obtain ⟨o, b', hentered, ho⟩ := enterStandard_order now' bo.id hs hb hbook.inv hbook.balance
    (hfresh _ _ b hat) hq htype
  have hid : o.orderId = id := ho.terms.orderId
  obtain ⟨⟨b₁, b₂, hb₁, hb₂, -, hhistory⟩, hsame⟩ := enterStandard_books now' bo.id id
    (bo.recoveryPayload now token).orderRequest hs hb
  obtain rfl : b₂ = b' := Option.some.inj (hb₂.symm.trans hentered.book)
  have honly := hentered.only hsame hsane (hid ▸ hfresh) fun k hk => by
    rcases enterStandard_tracked hq hk with h | ⟨rfl, -⟩
    · exact absurd h (hnew k)
    · exact hid.symm
  -- the order was not registered as filled
  have hnone : ∀ avg filled, .prefill o.orderId avg filled ∉ b₂.history := by
    intro avg filled h
    rw [hid, hhistory] at h
    have hplaced : .prefill id avg filled ∈
        (b.placeVirtualOrder now' id (bo.recoveryPayload now token).orderRequest).book.history := by
      rcases hb₁ with rfl | rfl <;> exact h
    exact not_prefill_of_fresh hbook (hfresh _ _ b hat) avg filled (prefill_of_place hplaced)
  have hstands : Stands (s.enterStandard now' session token bo.id
      (bo.recoveryPayload now token).orderRequest id) bo close b₂ o ↔ bo.EndsBy now now' close := by
    have hconditions : o.tpPrice = bo.tpPrice ∧ o.slPrice = bo.slPrice ∧
        o.expireAt = (bo.recoveryPayload now token).orderRequest.expireAt now' :=
      ⟨(congrArg (·.1) ho.conditions).trans (condition_eq hsound.tp),
        (congrArg (·.2.1) ho.conditions).trans (condition_eq hsound.sl),
          congrArg (·.2.2) ho.conditions⟩
    rw [← expireAt_iff token hrec, ← hconditions.2.2]
    exact ⟨fun h => h.expires, fun h => ⟨hentered.mem, hentered.tracked, hconditions.1,
      hconditions.2.1, h⟩⟩
  have hbuys : BuysRest bo b₂.history o ↔ bo.recoveryFill.2 = bo.openQuantity := by
    have hquantity : o.quantity = bo.recoveryFill.2 := ho.terms.quantity
    have hrest : o.remainingQty = bo.recoveryFill.2 - filledOf o.orderId b₂.history := by
      rw [SimulatedOrder.remainingQty, hquantity, ho.filled, hid]
    have hprice : bo.limitPrice = some o.price := by
      rw [ho.terms.price]
      simp [OrderRequest.newOrder, RecoveryPayload.orderRequest, BinaryOption.recoveryPayload, hl]
    constructor
    · intro h
      have := hrest.symm.trans h.remaining
      linarith
    · intro h
      exact ⟨ho.terms.side, ho.terms.orderType.trans htype, hprice, h ▸ hrest, ho.status⟩
  rw [restored_iff_of_only honly]
  constructor
  · rintro ⟨hworks, hwatches, hidle⟩
    have hopen : 0 < bo.openQuantity := by
      by_contra hopen
      obtain ⟨avg, filled, h⟩ := hidle hopen
      exact hnone avg filled h
    obtain ⟨-, hdir, hst, hbuy⟩ := hworks hopen
    refine ⟨Option.eq_none_iff_forall_not_mem.mpr fun f hf =>
      hnone _ _ (hwatches f hf).2.2.2, fun _ => ?_,
      fun _ => (recoveryFill_eq_open hsound hopen).mp (hbuys.mp hbuy), fun _ => hstands.mp hst,
      fun h => absurd hopen h⟩
    exact ⟨hrec, b, hdir ▸ htaker⟩
  · intro h
    have hopen : 0 < bo.openQuantity := by
      by_contra hopen
      rw [h.closed hopen hrec hlimit] at htaker
      cases htaker
    obtain ⟨-, b₃, hb₃⟩ := h.takes hopen
    obtain ⟨hdir, -⟩ := Prod.mk.inj (Option.some.inj (htaker.symm.trans hb₃))
    refine ⟨fun _ => ⟨hsid, hdir, hstands.mpr (h.ends hopen),
      hbuys.mpr ((recoveryFill_eq_open hsound hopen).mpr (h.rest hopen))⟩, fun f hf => ?_,
      fun h' => absurd hopen h'⟩
    rw [h.bracket] at hf
    cases hf

/-- What the service is once it took the payload of the row, if there is one. -/
def FeedService.takeUp (s : FeedService) (r : TokenRegistry) (now now' : Time) (bo : BinaryOption)
    (id : OrderId) : FeedService :=
  match bo.queuedPayload r now with
  | none => s
  | some p => s.processRecovered now' p id

/-- **A row whose payload is taken up** is restored exactly under the condition. -/
theorem restored_takeUp_iff (hsound : bo.Sound) (hclose : bo.settlementAt = some close)
    (hsane : s.SaneBooks) (hfresh : s.Fresh id)
    (hnew : ∀ k, s.consumer.orderToBo.get? k ≠ some bo.id) :
    Restored (s.takeUp r now now' bo id) bo close ↔ Recoverable s r now now' bo close := by
  unfold FeedService.takeUp
  cases hp : bo.queuedPayload r now with
  | none => exact restored_iff_of_refused hnew rfl fun hrec _ => queuedPayload_none hp hrec
  | some p =>
    obtain ⟨hrec, token, htoken, rfl⟩ := queuedPayload_some hp
    dsimp only
    unfold FeedService.processRecovered
    have hsession : (bo.recoveryPayload now token).sessionId = bo.ownSession close :=
      recoverySession_eq hclose
    rw [hsession]
    cases hs : s.manager.getSession (bo.ownSession close) with
    | none =>
      refine restored_iff_of_refused hnew rfl fun _ _ => ?_
      rw [FeedService.taker, htoken, Option.bind_some, hs, Option.bind_none]
    | some session =>
      have hsid : session.sessionId = bo.ownSession close := Table.key_of_get hs
      dsimp only
      cases hlimit : bo.isLimit with
      | true =>
        have hopen : (bo.recoveryPayload now token).prefilled = false := by
          simp [BinaryOption.recoveryPayload, BinaryOption.isAlreadyFilled, hlimit]
        rw [if_neg (by simp [hopen])]
        cases hb : session.bookForOrder token with
        | none =>
          refine restored_iff_of_refused hnew ?_ fun _ _ => ?_
          · unfold FeedService.enterStandard
            rw [show (bo.recoveryPayload now token).tokenId = token from rfl, hb]
            rfl
          · rw [FeedService.taker, htoken, Option.bind_some, hs, Option.bind_some, hb]
        | some x => exact restored_iff_of_placed hsound hrec hlimit htoken hs hb hsane hfresh hnew
      | false =>
        have hfilled := isAlreadyFilled_of_market hsound hrec hlimit
        have hclosed : bo.isRecovered now → bo.isLimit → s.taker r bo close = none := by
          simp [hlimit]
        rw [if_pos (show (bo.recoveryPayload now token).prefilled = true from hfilled)]
        cases hq : (bo.recoveryPayload now token).prefilledRequest with
        | none => exact restored_iff_of_refused hnew rfl hclosed
        | some q =>
          dsimp only
          cases hb : session.bookForPrefilled token with
          | none =>
            refine restored_iff_of_refused hnew ?_ hclosed
            unfold FeedService.enterPrefilled
            rw [show (bo.recoveryPayload now token).tokenId = token from rfl, hb]
            rfl
          | some x =>
            have hexpire : q.expireAt = none := by
              unfold RecoveryPayload.prefilledRequest at hq
              split at hq
              · split at hq
                · cases hq
                  rfl
                · cases hq
              · cases hq
            exact restored_iff_of_registered (hsid ▸ hs) hb hexpire hlimit hsane hfresh hnew

end

end PolyArena
