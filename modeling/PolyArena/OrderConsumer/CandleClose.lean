import PolyArena.MatchingEngine.Actions
import PolyArena.OrderConsumer.Process

/-!
# Fills after the close of the candle

The books of a session serve one candle, which closes at its `settlement_at`.  An order's own expiry
is its TTL, counted from the time it is processed, or the close of the candle that contains that
time; neither is held against the close of the session.  What ends a session's orders is its
transition to SETTLING, which a later tick makes.

1. `no_fill_after_close`: no fill at or after the close, in every run in which no matching pass and
   no placement at or after the close finds a match for a `late` order, one that is placed at or
   after the close or expires after it.
2. `fill_after_close`: an order with a TTL of 600 s, placed 200 s before the close, is filled after
   it.
-/

namespace PolyArena

open ShadowOrderbook

/-- The order is placed at or after the close, or expires after it. -/
def SimulatedOrder.late (close : Time) (o : SimulatedOrder) : Bool :=
  decide (close ≤ o.createdAt) || o.expireAt.all fun t => close < t

/-- At or after the close, no late order is matched. -/
def KeepsClose (close : Time) (b : ShadowOrderbook) (x : Time × BookAction) : Prop :=
  close ≤ x.1 → x.2.fills (·.late close) x.1 b = false

instance (close : Time) (b : ShadowOrderbook) (x : Time × BookAction) :
    Decidable (KeepsClose close b x) := by
  unfold KeepsClose
  infer_instance

/-- Every entry fill of the book was executed before the close. -/
def FilledBefore (close : Time) (b : ShadowOrderbook) : Prop :=
  ∀ i side p q t, .fill i side p q t ∈ b.history → t < close

section

variable {b b' : ShadowOrderbook} {o : SimulatedOrder} {close now : Time} {x : Time × BookAction}

theorem expireOrder_expireAt : ((expireOrder now o).getD o).expireAt = o.expireAt := by
  unfold expireOrder
  split
  · split
    · rfl
    · rfl
    · split <;> rfl
    · rfl
  · rfl

/-- Once its expiry is reached, an order is terminal. -/
theorem expireOrder_terminal (h : ∃ t ∈ o.expireAt, t ≤ now) :
    ((expireOrder now o).getD o).status.isTerminal = true := by
  unfold expireOrder
  rw [if_pos h]
  cases hs : o.status with
  | pending => rfl
  | partial_ => rfl
  | filled =>
    dsimp only
    split <;> simp [hs, OrderStatus.isTerminal]
  | canceled => simp [hs, OrderStatus.isTerminal]

/-- An order that is open after the expiry of a pass has not reached its own. -/
theorem passBook_open (ho : o ∈ (b.passBook now).virtualOrders)
    (hopen : o.status.isTerminal = false) :
    ∀ t ∈ o.expireAt, now < t := by
  obtain ⟨y, -, rfl⟩ := List.mem_map.mp ho
  intro t ht
  by_contra hle
  rw [expireOrder_expireAt] at ht
  rw [expireOrder_terminal ⟨t, ht, not_lt.mp hle⟩] at hopen
  cases hopen

/-- **A guarded step** executes no fill at or after the close. -/
theorem filledBefore_step (hb : FilledBefore close b) (hguard : KeepsClose close b x)
    (hstep : bookStep b x = some b') : FilledBefore close b' := by
  obtain ⟨hallowed, rfl⟩ := bookStep_some hstep
  intro i side p q t ht
  by_cases hclose : close ≤ x.1
  · rcases (action_entries hallowed (hguard hclose)).mem ht with hentry | hold
    · obtain ⟨rfl, y, -, hP, hmem⟩ := hentry.fill i side p q t rfl
      rw [SimulatedOrder.late, Bool.or_eq_false_iff, decide_eq_false_iff_not] at hP
      rcases hmem with ⟨hmem, hopen⟩ | ⟨hnew, -⟩
      · -- the order expires by the close, so the pass has cancelled it
        cases hexp : y.expireAt with
        | none => simp [hexp] at hP
        | some e =>
          have hafter := passBook_open hmem hopen e hexp
          have hby : ¬ close < e := by simpa [hexp] using hP.2
          exact absurd (hclose.trans_lt hafter) hby
      · exact absurd (hclose.trans hnew.ge) hP.1
    · exact hb i side p q t hold
  · rcases (action_entries hallowed (fills_none x.2)).mem ht with hentry | hold
    · obtain ⟨rfl, -⟩ := hentry.fill i side p q t rfl
      exact not_le.mp hclose
    · exact hb i side p q t hold

/-- **No fill after the close**, in every run in which no late order is matched at or after it. -/
theorem no_fill_after_close {tokenId : String}
    (hrun : Run bookStep (KeepsClose close) { tokenId := tokenId } b) : FilledBefore close b :=
  hrun.invariant (FilledBefore close) (fun _ _ _ _ _ h => absurd h List.not_mem_nil)
    fun _ _ _ hb hguard hstep => filledBefore_step hb hguard hstep

end

/-! ## A fill after the close -/

/-- A LIMIT BUY at `0.40` for the candle that closes at 1200, with the given TTL. -/
def closingPayload (ttl : ℕ) : QueuePayload where
  boId := 5
  sessionId := ⟨.btc, .m5, 900⟩
  direction := .up
  symbol := .btc
  forecast := .green
  price := some (2 / 5)
  quantity := some 10
  limitPrice := some (2 / 5)
  tpPrice := none
  slPrice := none
  timeframe := .m5
  ttl := some ttl
  sessionOffset := 0
  settlementAt := some 1200

/-- The order that is placed at 1000. -/
def closingOrder (ttl : ℕ) : OrderRequest where
  side := .buy
  price := 2 / 5
  quantity := 10
  timeframe := some .m5
  ttlSeconds := some ttl

theorem orderRequest_closingPayload (ttl : ℕ) :
    (closingPayload ttl).orderRequest 1000 none = some (closingOrder ttl) := by
  unfold QueuePayload.orderRequest
  rfl

/-- The orders that are placed are those of the candle, and they are placed before it closes. -/
def ForCandle (close : Time) (_ : ShadowOrderbook) (x : Time × BookAction) : Prop :=
  ∀ id r, x.2 = .place id r → x.1 < close ∧
    ∃ (m : QueuePayload) (bestAsk : Option ℚ), m.settlementAt = some close ∧
      m.orderRequest x.1 bestAsk = some r

/-- At 1250, before the session is told to settle, the ask comes down to `0.35`. -/
def closingActions (ttl : ℕ) : List (Time × BookAction) :=
  [(1000, .place 7 (closingOrder ttl)),
    (1250, .feed (.applySnapshot [] [⟨7 / 20, 10, by norm_num⟩])),
    (1250, .feed .runMatching)]

/-- With a TTL of 100 s the order has expired by then. -/
theorem no_fill_after_close_short :
    ((exec bookStep (KeepsClose 1200) { tokenId := "up" } (closingActions 100)).any fun b =>
      b.virtualOrders.map (·.status) == [.canceled]) = true ∧
    ∀ b, exec bookStep (KeepsClose 1200) { tokenId := "up" } (closingActions 100) = some b →
      FilledBefore 1200 b :=
  ⟨by decide +kernel, fun _ hb => no_fill_after_close (run_of_exec hb)⟩

/-- The book after the actions with a TTL of 600 s. -/
def closedCandleBook : ShadowOrderbook :=
  (((({ tokenId := "up" } : ShadowOrderbook).placeVirtualOrder 1000 7 (closingOrder 600)).book
    ).applySnapshot 1250 [] [⟨7 / 20, 10, by norm_num⟩]).runMatching 1250 |>.1

theorem forCandle_feed {close t : Time} {b : ShadowOrderbook} (op : FeedOp) :
    ForCandle close b (t, .feed op) := by
  intro id r he
  cases he

theorem run_closedCandleBook :
    Run bookStep (ForCandle 1200) { tokenId := "up" } closedCandleBook := by
  have hplace : ForCandle 1200 { tokenId := "up" } (1000, .place 7 (closingOrder 600)) := by
    intro id r he
    cases he
    exact ⟨by norm_num, closingPayload 600, none, rfl, orderRequest_closingPayload 600⟩
  have hplaced :=
    Run.next .start hplace (bookStep_of_allowed ⟨List.not_mem_nil, by norm_num [closingOrder]⟩)
  have hquoted := Run.next hplaced (forCandle_feed (.applySnapshot [] [⟨7 / 20, 10, by norm_num⟩]))
    (bookStep_of_allowed (x := (1250, _)) trivial)
  exact Run.next hquoted (forCandle_feed .runMatching)
    (bookStep_of_allowed (x := (1250, _)) trivial)

/-- **A fill after the close**: with a TTL of 600 s the order is filled at 1250. -/
theorem fill_after_close : ¬ ∀ (close : Time) (tokenId : String) (b : ShadowOrderbook),
    Run bookStep (ForCandle close) { tokenId := tokenId } b → FilledBefore close b := by
  intro hall
  have hfill : .fill 7 .buy (7 / 20) 10 1250 ∈ closedCandleBook.history := by decide +kernel
  have hlt := hall 1200 "up" _ run_closedCandleBook 7 .buy (7 / 20) 10 1250 hfill
  norm_num at hlt

end PolyArena
