import PolyArena.OrderConsumer.Entering

/-!
# The remainder of an aggressive LIMIT

What the API queues of an aggressive LIMIT that its sweep did not fill, and what the consumer makes
of it.  The payload carries a LIMIT order for the rest of the budget, but when the sweep filled
something it is marked `prefilled`: the consumer then registers the filled shares for their bracket,
and nobody works on the rest.
-/

namespace PolyArena

open ShadowOrderbook Rounding

/-- The book works on a LIMIT BUY of `qty` shares at `limit` for the order row: what is unfilled is
what the book has not bought of them yet, and the order is open as long as something is. -/
def WorksOn (b : ShadowOrderbook) (c : OrderConsumer) (boId : ℕ) (limit qty : ℚ) : Prop :=
  ∃ o ∈ b.virtualOrders, c.orderToBo.get? o.orderId = some boId ∧ o.side = .buy ∧
    o.orderType = .limit ∧ o.price = limit ∧
    o.remainingQty = qty - filledOf o.orderId b.history ∧
    (o.status.isTerminal = false ∨ o.remainingQty = 0)

/-- The session's book of the direction works on it. -/
def FeedService.WorksOn (s : FeedService) (sid : SessionId) (dir : Direction) (boId : ℕ)
    (limit qty : ℚ) : Prop :=
  ∃ b ∈ s.manager.bookAt sid dir, PolyArena.WorksOn b s.consumer boId limit qty

instance (b : ShadowOrderbook) (c : OrderConsumer) (boId : ℕ) (limit qty : ℚ) :
    Decidable (WorksOn b c boId limit qty) := by
  unfold WorksOn
  infer_instance

instance (s : FeedService) (sid : SessionId) (dir : Direction) (boId : ℕ) (limit qty : ℚ) :
    Decidable (s.WorksOn sid dir boId limit qty) := by
  unfold FeedService.WorksOn
  infer_instance

/-- The session takes new orders for the token. -/
def SessionEngine.TakesOrders (s : SessionEngine) (token : String) : Prop :=
  s.state ≠ .settling ∧ s.state ≠ .archived ∧ ∀ b ∈ s.getBookForToken token, b.2.expired = false

section

variable {now : Time} {db : Database} {apiKey : String} {p : BOCreate} {first second : SnapshotRead}
  {limit best : ℚ} {f : LimitFill}

/-- **What is queued** of an aggressive LIMIT that leaves some of its budget. -/
theorem queued_remainder {id : db.FreshId} {c : Created}
    (h : createBo now db apiKey p first second true id = .ok c) (hlimit : p.limitPrice = some limit)
    (hbest : snapshotBestAsk first = some best) (hle : best ≤ limit)
    (hf : fillLimitFromSnapshot second p.amount limit = .ok f) (hrem : 0 < f.remainingBudget) :
    ∃ r : Admitted, c.queued = some { r.limitPayload p id limit f.remainingBudget with
      prefilled := 0 < f.numShares
      prefilledAvgPrice := if 0 < f.numShares then some f.avgPrice else none
      prefilledFilled := if 0 < f.numShares then some f.numShares else none } := by
  obtain ⟨r, d, hadmit, hpath, rfl⟩ := createBo_ok h
  have hask : r.bestAsk = best := Option.some.inj ((admitRequest_ok hadmit).2.2.symm.trans hbest)
  unfold choosePath at hpath
  rw [hlimit] at hpath
  dsimp only at hpath
  rw [if_pos (hask ▸ hle)] at hpath
  obtain ⟨f', hf', rfl⟩ := aggressiveLimit_ok hpath
  obtain rfl : f = f' := Except.ok.inj (hf.symm.trans hf')
  refine ⟨r, ?_⟩
  simp [commitDraft, aggressiveDraft, hrem]

end

/-! ## What the consumer makes of it -/

section

variable {s : FeedService} {now : Time} {session : SessionEngine} {token : String}
  {m : QueuePayload} {id : OrderId} {dir : Direction} {b : ShadowOrderbook} {sid : SessionId}
  {limit qty : ℚ}

theorem bookForOrder_some (ht : session.TakesOrders token)
    (hb : session.getBookForToken token = some (dir, b)) :
    session.bookForOrder token = some (dir, b) := by
  obtain ⟨hsettling, harchived, hexpired⟩ := ht
  unfold SessionEngine.bookForOrder
  rw [if_neg (by simp [hsettling, harchived]), hb]
  have hopen : b.expired = false := hexpired (dir, b) hb
  simp [hopen]

theorem takesOrders_of_some {r : Direction × ShadowOrderbook}
    (h : session.bookForOrder token = some r) : session.TakesOrders token := by
  unfold SessionEngine.bookForOrder at h
  split at h
  · cases h
  · next hstate =>
    rw [not_or] at hstate
    rw [Option.filter_eq_some_iff] at h
    refine ⟨hstate.1, hstate.2, fun x hx => ?_⟩
    rw [Option.mem_def, h.1, Option.some.injEq] at hx
    rw [← hx]
    simpa using h.2

/-- Without an order of the row in `_order_to_bo`, no book works for it. -/
theorem not_worksOn_of_untracked {boId : ℕ} (h : ∀ k, s.consumer.orderToBo.get? k ≠ some boId) :
    ¬ s.WorksOn sid dir boId limit qty := by
  rintro ⟨b, -, o, -, htracked, -⟩
  exact h _ htracked

/-- A prefilled registration works on nothing. -/
theorem not_worksOn_prefilled (hnew : ∀ k, s.consumer.orderToBo.get? k ≠ some m.boId)
    (hs : s.manager.getSession session.sessionId = some session)
    (hb : session.getBookForToken token = some (dir, b)) (hinv : CoreInv b.core)
    (hfresh : .placed id ∉ b.history) :
    ¬ (s.processPrefilledOrder now session token m id).WorksOn session.sessionId dir m.boId limit
      qty := by
  rw [FeedService.processPrefilledOrder_eq]
  cases hr : m.prefilledRequest with
  | none => exact not_worksOn_of_untracked hnew
  | some r =>
    dsimp only
    cases hfound : session.bookForPrefilled token with
    | none =>
      unfold FeedService.enterPrefilled
      rw [hfound]
      exact not_worksOn_of_untracked hnew
    | some x =>
      have hx : x = (dir, b) := by
        unfold SessionEngine.bookForPrefilled at hfound
        split at hfound
        · cases hfound
        · rw [hb, Option.filter_eq_some_iff] at hfound
          exact (Option.some.inj hfound.1).symm
      subst hx
      obtain ⟨o, b', hentered, hterms, -, -⟩ := enterPrefilled_order now m.boId
        (r := r) hs hfound hinv hfresh
      rintro ⟨b'', hb'', x, hx, htracked, -, htype, -⟩
      rw [Option.mem_def, hentered.book, Option.some.injEq] at hb''
      subst hb''
      have hxid : x.orderId = o.orderId := by
        rcases enterPrefilled_tracked htracked with hold | ⟨hxid, -⟩
        · exact absurd hold (hnew _)
        · exact hxid.trans hterms.orderId.symm
      rw [hentered.unique x hx hxid, hterms.orderType] at htype
      cases htype

/-- A session that does not take the order leaves nothing that works on it. -/
theorem not_worksOn_refused (hnew : ∀ k, s.consumer.orderToBo.get? k ≠ some m.boId)
    (hrefused : ¬ session.TakesOrders token) :
    ¬ (s.processStandardOrder now session token m id).WorksOn sid dir m.boId limit qty := by
  unfold FeedService.processStandardOrder
  cases hr : m.orderRequest now (s.manager.bestAsk now token) with
  | none => exact not_worksOn_of_untracked hnew
  | some r =>
    dsimp only
    cases hfound : session.bookForOrder token with
    | none => exact not_worksOn_of_untracked hnew
    | some x => exact absurd (takesOrders_of_some hfound) hrefused

/-- An order of the terms that is not cancelled is worked on. -/
theorem worksOn_of_order {c : OrderConsumer} {boId : ℕ} {o : SimulatedOrder}
    (ho : o ∈ b.virtualOrders) (htracked : c.orderToBo.get? o.orderId = some boId)
    (hside : o.side = .buy) (htype : o.orderType = .limit) (hprice : o.price = limit)
    (hqty : o.quantity = qty) (hfilled : o.filled = filledOf o.orderId b.history)
    (hstatus : o.status ≠ .canceled) (hok : OrderOk o) : WorksOn b c boId limit qty := by
  have hrem : o.remainingQty = qty - filledOf o.orderId b.history := by
    rw [SimulatedOrder.remainingQty, hqty, hfilled]
  refine ⟨o, ho, htracked, hside, htype, hprice, hrem, ?_⟩
  -- an order that is not cancelled is closed only when it was bought in full
  have hfill := hok.status hstatus
  unfold SimulatedOrder.fillStatus at hfill
  split at hfill
  · next hle =>
    right
    rw [SimulatedOrder.remainingQty, le_antisymm hok.filled_le hle, sub_self]
  · left
    split at hfill <;> rw [hfill] <;> rfl

/-- **A standard LIMIT order is worked on** when the session takes it. -/
theorem worksOn_standard {price quantity : ℚ}
    (hs : s.manager.getSession session.sessionId = some session)
    (hb : session.getBookForToken token = some (dir, b)) (hinv : CoreInv b.core)
    (hbal : BooksBalance b.core) (hfresh : .placed id ∉ b.history)
    (htakes : session.TakesOrders token) (hside : m.side = "BUY") (hprice : m.price = some price)
    (hquantity : m.quantity = some quantity) (hpos : 0 < quantity)
    (hlimit : m.limitPrice = some limit) :
    (s.processStandardOrder now session token m id).WorksOn session.sessionId dir m.boId limit
      quantity := by
  obtain ⟨r, hr, hrside, hrtype, hrprice, hrqty⟩ : ∃ r : OrderRequest,
      m.orderRequest now (s.manager.bestAsk now token) = some r ∧ r.side = .buy ∧
        r.orderType = .limit ∧ r.price = limit ∧ r.quantity = quantity := by
    unfold QueuePayload.orderRequest QueuePayload.orderSide
    rw [if_pos hside, hprice, hquantity]
    exact ⟨_, rfl, rfl, by simp [hlimit], by simp [hlimit], by simp [hlimit]⟩
  obtain ⟨o, b', hentered, ho⟩ := enterStandard_order now m.boId hs
    (bookForOrder_some htakes hb) hinv hbal hfresh (hrqty ▸ hpos) hrtype
  rw [FeedService.processStandardOrder_eq, hr]
  refine ⟨b', hentered.book, worksOn_of_order hentered.mem hentered.tracked
    (ho.terms.side.trans hrside) (ho.terms.orderType.trans hrtype) (ho.terms.price.trans hrprice)
    (ho.terms.quantity.trans hrqty) ?_ ho.status ho.ok⟩
  rw [show o.orderId = id from ho.terms.orderId]
  exact ho.filled

end

/-! ## From the request to the book -/

/-- The snapshot of the fill offers nothing at up to the limit. -/
def NothingOffered (second : SnapshotRead) (limit : ℚ) : Prop :=
  ∃ asks, second = .asks asks ∧ round8 (offeredQty limit asks) = 0

section

variable {now now' : Time} {db : Database} {apiKey : String} {p : BOCreate}
  {first second : SnapshotRead} {limit best : ℚ} {f : LimitFill} {s : FeedService}
  {session : SessionEngine} {token : String} {dir : Direction} {b : ShadowOrderbook}
  {newId : OrderId} {m : QueuePayload}

theorem numShares_nonneg (hf : fillLimitFromSnapshot second p.amount limit = .ok f)
    (hrem : 0 < f.remainingBudget) : 0 ≤ f.numShares := by
  obtain ⟨asks, -, hqty⟩ := numShares_eq hf p.amount_positive.le hrem
  rw [hqty]
  exact roundTo_nonneg offeredQty_nonneg

/-- The sweep fills nothing exactly when nothing is offered. -/
theorem numShares_pos_iff (hf : fillLimitFromSnapshot second p.amount limit = .ok f)
    (hrem : 0 < f.remainingBudget) : ¬ 0 < f.numShares ↔ NothingOffered second limit := by
  have hnonneg := numShares_nonneg hf hrem
  obtain ⟨asks, rfl, hqty⟩ := numShares_eq hf p.amount_positive.le hrem
  rw [hqty] at hnonneg ⊢
  constructor
  · intro h
    exact ⟨asks, rfl, le_antisymm (not_lt.mp h) hnonneg⟩
  · rintro ⟨asks', hasks, hzero⟩
    cases hasks
    exact hzero.not_gt

/-- The remainder buys at least a unit of shares. -/
theorem remainder_qty_pos (hf : fillLimitFromSnapshot second p.amount limit = .ok f)
    (hlimit : p.limitPrice = some limit) (hrem : 0 < f.remainingBudget) :
    0 < round8 (f.remainingBudget / limit) := by
  obtain ⟨_, -, hgrid⟩ := remainingBudget_eq hf p.amount_positive.le
  obtain ⟨hpos, hlt⟩ := p.limitPrice_in_range limit hlimit
  have hunit := unit_le_of_pos (hgrid ▸ roundTo_mem_grid _ _ : f.remainingBudget ∈ grid 8) hrem
  exact roundTo_pos (hunit.trans (le_div_self hrem.le hpos hlt.le))

/-- **The remainder of an aggressive LIMIT is worked on** exactly when the sweep found nothing and
the session takes the order. -/
theorem remainder_works_iff {id : db.FreshId} {c : Created}
    (h : createBo now db apiKey p first second true id = .ok c) (hlimit : p.limitPrice = some limit)
    (hbest : snapshotBestAsk first = some best) (hle : best ≤ limit)
    (hf : fillLimitFromSnapshot second p.amount limit = .ok f) (hrem : 0 < f.remainingBudget)
    (hqueued : c.queued = some m) (hs : s.manager.getSession m.sessionId = some session)
    (htoken : session.tokens m.direction = some token)
    (hbook : session.getBookForToken token = some (dir, b)) (hb : Reachable b)
    (hfresh : .placed newId ∉ b.history) (hnew : ∀ k, s.consumer.orderToBo.get? k ≠ some id.val) :
    (s.processOrder now' m.sessionId m newId).WorksOn m.sessionId dir id limit
        (round8 (f.remainingBudget / limit)) ↔
      NothingOffered second limit ∧ session.TakesOrders token := by
  obtain ⟨r, hpayload⟩ := queued_remainder h hlimit hbest hle hf hrem
  obtain rfl := Option.some.inj (hqueued.symm.trans hpayload)
  have hsid := Table.key_of_get hs
  have hinv := (effects_of_reachable hb).1
  have hbal := balance_of_reachable hb
  rw [← numShares_pos_iff hf hrem, ← hsid]
  rw [← hsid] at hs
  unfold FeedService.processOrder
  rw [hs]
  dsimp only
  rw [htoken]
  dsimp only
  by_cases hfilled : 0 < f.numShares
  · rw [if_pos (by simpa using hfilled)]
    exact iff_of_false (not_worksOn_prefilled hnew hs hbook hinv hfresh) fun h => h.1 hfilled
  · rw [if_neg (by simpa using hfilled), and_iff_right hfilled]
    constructor
    · refine fun hworks => by_contra fun hrefused => ?_
      exact not_worksOn_refused hnew hrefused hworks
    · intro htakes
      exact worksOn_standard hs hbook hinv hbal hfresh htakes rfl rfl rfl
        (remainder_qty_pos hf hlimit hrem) rfl

end

/-! ## On a sample session -/

/-- The session of the candle at `900`, with an empty book for its UP token. -/
def candleSession : SessionEngine where
  sessionId := ⟨.btc, .m5, 900⟩
  state := .active
  tokens := fun dir => if dir = .up then some "up" else none
  books := fun dir => if dir = .up then some { tokenId := "up" } else none
  booked := fun dir => by cases dir <;> rfl

def candleService : FeedService where
  manager := ⟨⟨[candleSession], by simp⟩⟩

/-- What `create_bo` does with `limitRequest` when the asks move above the limit before the fill. -/
def limitOnDearAsks : Except HttpDetail Created :=
  createBo 1000 oneBotDb "k" limitRequest thinAsks dearAsks true ⟨1, fresh_oneBotDb⟩

theorem nothingOffered_dearAsks : NothingOffered dearAsks (1 / 2) := ⟨_, rfl, by decide +kernel⟩

/-- The whole order is worked on. -/
theorem remainder_works_dearAsks : ∃ c m, limitOnDearAsks = .ok c ∧ c.queued = some m ∧
    (candleService.processOrder 1000 m.sessionId m 7).WorksOn m.sessionId .up 1 (1 / 2)
      (round8 (10 / (1 / 2))) := by
  have hrun : (match limitOnDearAsks with
      | .ok c => c.queued.any fun m => decide (m.sessionId = ⟨.btc, .m5, 900⟩ ∧ m.direction = .up)
      | .error _ => false) = true := by
    decide +kernel
  cases hc : limitOnDearAsks with
  | error e => rw [hc] at hrun; cases hrun
  | ok c =>
    rw [hc] at hrun
    obtain ⟨m, hm, hrun⟩ := Option.any_eq_true _ _ |>.mp hrun
    obtain ⟨hsid, hdir⟩ := of_decide_eq_true hrun
    refine ⟨c, m, rfl, hm, ?_⟩
    have hsession : candleService.manager.getSession m.sessionId = some candleSession := by
      rw [hsid]
      rfl
    have hbest : snapshotBestAsk thinAsks = some (2 / 5) := by decide +kernel
    have hfill : fillLimitFromSnapshot dearAsks limitRequest.amount (1 / 2) = .ok ⟨0,
        0, [], 10⟩ := by
      decide +kernel
    exact (remainder_works_iff hc rfl hbest (by norm_num) hfill (by norm_num) hm hsession
      (by rw [hdir]; rfl) rfl ⟨"up", .refl⟩ List.not_mem_nil (fun k hk => by cases hk)).mpr
      ⟨nothingOffered_dearAsks, nofun, nofun, by decide +kernel⟩

/-- **The remainder is not worked on**: `create_bo` fills ten of the shares for `4` and queues a
LIMIT for the twelve that the other `6` buys, and the book ends up with the ten alone. -/
theorem remainder_left_alone : ∃ c m, limitOnThinAsks = .ok c ∧ c.queued = some m ∧
    m.limitPrice = some (1 / 2) ∧ m.quantity = some 12 ∧
    ¬ (candleService.processOrder 1000 m.sessionId m 7).WorksOn m.sessionId .up c.bo.id (1 / 2)
      12 := by
  have hrun : (match limitOnThinAsks with
      | .ok c => c.queued.any fun m => decide (m.limitPrice = some (1 / 2) ∧ m.quantity = some 12 ∧
        ¬ (candleService.processOrder 1000 m.sessionId m 7).WorksOn m.sessionId .up c.bo.id (1 / 2)
          12)
      | .error _ => false) = true := by
    decide +kernel
  cases hc : limitOnThinAsks with
  | error e => rw [hc] at hrun; cases hrun
  | ok c =>
    rw [hc] at hrun
    obtain ⟨m, hm, hrun⟩ := Option.any_eq_true _ _ |>.mp hrun
    exact ⟨c, m, rfl, hm, of_decide_eq_true hrun⟩

end PolyArena
