import PolyArena.MatchingEngine.Actions
import PolyArena.MatchingEngine.Liquidity

/-!
# The exits of an operation

An operation may execute several exits one after the other, each on what the others left of the
bids.

1. `ExitCall`: one call of `_execute_bracket_exit`, with the book as it is then.
2. `exitCalls`: the calls of an operation, in order; `exitResults_eq` says that their results are
   what the operation reports.
3. `walkExit_fromTop`: an exit takes a bid level only when it has taken all of every better one.
-/

namespace PolyArena

open ShadowOrderbook

/-- A call of `_execute_bracket_exit` for an order of the book. -/
structure ExitCall where
  now : Time
  book : ShadowOrderbook
  order : SimulatedOrder
  marketBid : ℚ
  trigger : Trigger

namespace ExitCall

variable (x : ExitCall)

/-- The book and the order after the call, and its result. -/
def run : ShadowOrderbook × SimulatedOrder × BracketFillResult :=
  executeBracketExit x.now x.book x.order x.marketBid x.trigger

def result : BracketFillResult := x.run.2.2

/-- What the order received. -/
def value : ℚ := (x.result.fillLevels.map fun f => f.2 * f.1).sum

end ExitCall

namespace ShadowOrderbook

/-- The call of the bracket check of one order, when there is one. -/
def checkCalls (now : Time) (bestBid : ℚ) (b : ShadowOrderbook) (o : SimulatedOrder) :
    List ExitCall :=
  if o.isEligibleForBracket then
    (bracketTrigger o bestBid).toList.map fun trigger => ⟨now, b, o, bestBid, trigger⟩
  else []

/-- The calls of the loop of `monitor_bracket_orders`. -/
def monitorCalls (now : Time) (bestBid : ℚ) : ShadowOrderbook → List SimulatedOrder → List ExitCall
  | _, [] => []
  | b, o :: rest =>
    checkCalls now bestBid b o ++ monitorCalls now bestBid (checkBracket now bestBid b o).1 rest

/-- The call of the bracket check of a new order. -/
def newCalls (now : Time) (b : ShadowOrderbook) (o : SimulatedOrder) : List ExitCall :=
  b.bestBid.elim [] fun bestBid => checkCalls now bestBid b o

/-- The call of `force_close_at_market`. -/
def forceCalls (now : Time) (orderId : OrderId) (b : ShadowOrderbook) : List ExitCall :=
  match b.virtualOrders.find? fun o => o.orderId = orderId with
  | none => []
  | some o =>
    if o.filled ≤ 0 ∨ o.positionClosed then []
    else b.bestBid.toList.map fun bestBid => ⟨now, b, o, bestBid, .forceClose⟩

end ShadowOrderbook

/-- The calls of `_execute_bracket_exit` that the operation makes. -/
def BookAction.exitCalls (now : Time) (b : ShadowOrderbook) : BookAction → List ExitCall
  | feed .monitorBracketOrders =>
    b.bestBid.elim [] fun bestBid => monitorCalls now bestBid b b.virtualOrders
  | place id r =>
    let entered := matchAndCancel now { b with history := .placed id :: b.history }
      (r.newOrder now id)
    newCalls now entered.1 entered.2
  | placePrefilled id r =>
    newCalls now { b with history := [.prefill id r.avgEntryPrice r.filled,
      .placed id] ++ b.history }
      (r.newOrder now id)
  | forceClose id => b.forceCalls now id
  | _ => []

section

variable {now : Time} {b : ShadowOrderbook} {o : SimulatedOrder} {bestBid : ℚ}
  {os : List SimulatedOrder}

theorem results_checkCalls : (checkBracket now bestBid b o).2.2 =
    (checkCalls now bestBid b o).map ExitCall.result := by
  unfold checkBracket checkCalls
  split
  · cases bracketTrigger o bestBid <;> rfl
  · rfl

theorem results_monitorCalls : (monitorOrders now bestBid b os).2.2 =
    (monitorCalls now bestBid b os).map ExitCall.result := by
  induction os generalizing b with
  | nil => rfl
  | cons o os ih =>
    unfold monitorOrders monitorCalls
    rw [List.map_append, ← results_checkCalls]
    exact congrArg _ ih

theorem results_newCalls : (checkNewBracket now b o).2.2 =
    (newCalls now b o).map ExitCall.result := by
  unfold checkNewBracket newCalls
  cases b.bestBid with
  | none => rfl
  | some bestBid => exact results_checkCalls

theorem results_forceCalls (id : OrderId) : (b.forceCloseAtMarket now id).2.toList =
    (b.forceCalls now id).map ExitCall.result := by
  unfold forceCloseAtMarket forceCalls
  cases b.virtualOrders.find? fun o => o.orderId = id with
  | none => rfl
  | some o =>
    dsimp only
    split
    · rfl
    · cases b.bestBid <;> rfl

/-- **The results of an operation** are those of its calls. -/
theorem exitResults_eq (a : BookAction) :
    a.exitResults now b = (a.exitCalls now b).map ExitCall.result := by
  cases a with
  | feed op =>
    cases op with
    | monitorBracketOrders =>
      unfold BookAction.exitResults BookAction.exitCalls monitorBracketOrders
      cases b.bestBid with
      | none => rfl
      | some bestBid => exact results_monitorCalls
    | _ => rfl
  | place id r => exact results_newCalls
  | placePrefilled id r => exact results_newCalls
  | forceClose id => exact results_forceCalls id
  | _ => rfl

end

/-! ## From the best bid downward -/

/-- The fills `fs` take the bids `l` from the highest price downward: the next one is at a lower
price, and all of every better level was taken before. -/
structure FromTop (l : Ladder) (fs : List (ℚ × ℚ)) : Prop where
  descending : fs.Pairwise fun f g => g.1 < f.1
  exhausted : ∀ f ∈ fs, ∀ p size, f.1 < p → l.get? p = some size → 0 < size → (p, size) ∈ fs

/-- **The exit loop** takes levels from the top. -/
theorem walkExit_fromTop (qtyToClose : ℚ) (prices : List ℚ) (w : ExitWalk)
    (hprices : prices.Pairwise fun p p' => p' < p) :
    ∃ fs, (walkExit qtyToClose prices w).levels = w.levels ++ fs ∧
      fs.Pairwise (fun f g => g.1 < f.1) ∧ (∀ f ∈ fs, f.1 ∈ prices) ∧
      ∀ f ∈ fs, ∀ p ∈ prices, ∀ size, f.1 < p → w.bids.get? p = some size → 0 < size →
        (p, size) ∈ fs := by
  induction prices generalizing w with
  | nil => exact ⟨[], by simp [walkExit], .nil, nofun, nofun⟩
  | cons p rest ih =>
    obtain ⟨hbelow, hrest⟩ := List.pairwise_cons.mp hprices
    unfold walkExit
    dsimp only
    by_cases hsize : w.bids.getD p 0 ≤ 0
    · -- an empty level is passed over
      rw [if_pos hsize]
      obtain ⟨fs, hlevels, hdesc, hmem, hall⟩ := ih w hrest
      refine ⟨fs, hlevels, hdesc, fun f hf => List.mem_cons_of_mem _ (hmem f hf),
        fun f hf p' hp' size hlt hget hpos => ?_⟩
      rcases List.mem_cons.mp hp' with rfl | hp'
      · rw [SortedDict.getD, hget, Option.getD_some] at hsize
        exact absurd hpos (not_lt.mpr hsize)
      · exact hall f hf p' hp' size hlt hget hpos
    rw [if_neg hsize]
    by_cases hdone : qtyToClose ≤ w.qtyExited + min (qtyToClose - w.qtyExited) (w.bids.getD p 0)
    · rw [if_pos hdone]
      refine ⟨[(p, min (qtyToClose - w.qtyExited) (w.bids.getD p 0))], rfl,
        List.pairwise_singleton _ _, fun f hf => ?_, fun f hf p' hp' size hlt => ?_⟩
      · rw [List.mem_singleton.mp hf]
        exact List.mem_cons_self
      · rw [List.mem_singleton.mp hf] at hlt
        rcases List.mem_cons.mp hp' with rfl | hp'
        · exact absurd hlt (lt_irrefl _)
        · exact absurd (hbelow p' hp') (not_lt.mpr hlt.le)
    · rw [if_neg hdone]
      -- the level is taken as a whole
      have hwhole : min (qtyToClose - w.qtyExited) (w.bids.getD p 0) = w.bids.getD p 0 := by
        rcases min_choice (qtyToClose - w.qtyExited) (w.bids.getD p 0) with hmin | hmin
        · rw [hmin] at hdone
          linarith
        · exact hmin
      obtain ⟨fs, hlevels, hdesc, hmem, hall⟩ := ih
        { bids := w.bids.consume p (min (qtyToClose - w.qtyExited) (w.bids.getD p 0))
          qtyExited := w.qtyExited + min (qtyToClose - w.qtyExited) (w.bids.getD p 0)
          totalValue := w.totalValue + min (qtyToClose - w.qtyExited) (w.bids.getD p 0) * p
          levels := w.levels ++ [(p, min (qtyToClose - w.qtyExited) (w.bids.getD p 0))] } hrest
      refine ⟨(p, w.bids.getD p 0) :: fs, ?_, ?_, fun f hf => ?_,
        fun f hf p' hp' size hlt hget hpos => ?_⟩
      · rw [hlevels, hwhole, List.append_assoc]
        rfl
      · exact List.pairwise_cons.mpr ⟨fun f hf => hbelow _ (hmem f hf), hdesc⟩
      · rcases List.mem_cons.mp hf with rfl | hf
        · exact List.mem_cons_self
        · exact List.mem_cons_of_mem _ (hmem f hf)
      · rcases List.mem_cons.mp hp' with rfl | hp'
        · rw [SortedDict.getD, hget]
          exact List.mem_cons_self
        · rcases List.mem_cons.mp hf with rfl | hf
          · exact absurd (hbelow p' hp') (not_lt.mpr hlt.le)
          · refine List.mem_cons_of_mem _ (hall f hf p' hp' size hlt ?_ hpos)
            show (w.bids.consume p _).get? p' = some size
            rw [get?_consume_ne (hbelow p' hp').ne, hget]

/-- **Every exit** takes the bids of its book from the top. -/
theorem ExitCall.fromTop (x : ExitCall) : FromTop x.book.bids x.result.fillLevels := by
  have hprices : x.book.bids.keys.reverse.Pairwise fun p p' => p' < p :=
    List.pairwise_reverse.mpr x.book.bids.pairwise_keys
  obtain ⟨fs, hlevels, hdesc, -, hall⟩ :=
    walkExit_fromTop (x.order.filled - x.order.exitFilled.getD 0) _
      ⟨x.book.bids, 0, 0, []⟩ hprices
  rw [List.nil_append] at hlevels
  have hfs : x.result.fillLevels = fs := hlevels
  rw [hfs]
  refine ⟨hdesc, fun f hf p size hlt hget hpos => hall f hf p ?_ size hlt hget hpos⟩
  exact List.mem_reverse.mpr (SortedDict.mem_keys.mpr ⟨size, hget⟩)

end PolyArena
