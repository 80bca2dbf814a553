import PolyArena.MatchingEngine.ExitCalls
import PolyArena.MatchingEngine.OrderRelations
import PolyArena.MatchingEngine.StateChanges

/-!
# The accounts of the exits

An order keeps how much of it was sold and at which average price; each exit brings both up to date
from the average of before.

1. `ExitsTold xs`: what an order says of its exits is true of those in the list `xs`.
2. `ExitsTold.exit`: one more exit, also a first one and one that finds no bids.
3. `exitsKept_apply`: every operation keeps the accounts of all orders, the pruned ones too.
4. `exits_accounted`: in every run an order has sold what its exits sold, for what they received,
   and each exit took the bids from the top.
-/

namespace PolyArena

open ShadowOrderbook

/-! ## The accounts of one order -/

/-- The exits of an order. -/
def exitsOf (id : OrderId) (xs : List ExitCall) : List ExitCall :=
  xs.filter fun x => x.order.orderId = id

/-- What they sold. -/
def exitedQty (id : OrderId) (xs : List ExitCall) : ℚ :=
  ((exitsOf id xs).map fun x => x.result.qtyExited).sum

/-- What they received. -/
def exitedValue (id : OrderId) (xs : List ExitCall) : ℚ := ((exitsOf id xs).map ExitCall.value).sum

/-- The order tells of its exits among `xs`. -/
structure ExitsTold (xs : List ExitCall) (o : SimulatedOrder) : Prop where
  exitFilled : o.exitFilled = if exitsOf o.orderId xs = [] then none
    else some (exitedQty o.orderId xs)
  priced : o.exitPrice.isSome = o.exitFilled.isSome
  value : o.exitPrice.getD 0 * o.exited = exitedValue o.orderId xs

/-- What an order says of its exits. -/
def SimulatedOrder.exitFields (o : SimulatedOrder) : OrderId × Option ℚ × Option ℚ :=
  (o.orderId, o.exitFilled, o.exitPrice)

section

variable {xs ys : List ExitCall} {o o' : SimulatedOrder} {x : ExitCall} {id : OrderId}

theorem exitsOf_append : exitsOf id (xs ++ ys) = exitsOf id xs ++ exitsOf id ys :=
  List.filter_append ..

theorem ExitsTold.congr (h : ExitsTold xs o) (hsame : o'.exitFields = o.exitFields) :
    ExitsTold xs o' := by
  obtain ⟨hid, hfilled, hprice⟩ : o'.orderId = o.orderId ∧ o'.exitFilled = o.exitFilled ∧
      o'.exitPrice = o.exitPrice := by
    simpa [SimulatedOrder.exitFields] using hsame
  refine ⟨?_, ?_, ?_⟩
  · rw [hid, hfilled, h.exitFilled]
  · rw [hprice, hfilled, h.priced]
  · have hexited : o'.exited = o.exited := congrArg (Option.getD · 0) hfilled
    rw [hprice, hexited, hid, h.value]

/-- Exits of other orders. -/
theorem ExitsTold.others (h : ExitsTold xs o) (hothers : ∀ x ∈ ys, x.order.orderId ≠ o.orderId) :
    ExitsTold (xs ++ ys) o := by
  have hnil : exitsOf o.orderId ys = [] :=
    List.filter_eq_nil_iff.mpr fun x hx => by simpa using hothers x hx
  have hsame : exitsOf o.orderId (xs ++ ys) = exitsOf o.orderId xs := by
    rw [exitsOf_append, hnil, List.append_nil]
  refine ⟨?_, h.priced, ?_⟩
  · rw [h.exitFilled, exitedQty, exitedQty, hsame]
  · rw [h.value, exitedValue, exitedValue, hsame]

/-- An order without exits. -/
theorem exitsTold_new (hfilled : o.exitFilled = none) (hprice : o.exitPrice = none)
    (hnone : ∀ x ∈ xs, x.order.orderId ≠ o.orderId) : ExitsTold xs o := by
  have hnil : exitsOf o.orderId xs = [] :=
    List.filter_eq_nil_iff.mpr fun x hx => by simpa using hnone x hx
  refine ⟨?_, ?_, ?_⟩
  · rw [if_pos hnil, hfilled]
  · rw [hprice, hfilled]
  · rw [hprice, exitedValue, hnil]
    exact zero_mul _

/-! ## One more exit -/

/-- The exit of an order of which some is left to sell: it takes bids of its book, it sold what they
take together, and what it says it received on average comes to what it received. -/
structure ExitCall.Sound (x : ExitCall) : Prop where
  takes : Takes x.book.bids x.result.fillLevels x.run.1.bids
  top : FromTop x.book.bids x.result.fillLevels
  qty : x.result.qtyExited = (x.result.fillLevels.map Prod.snd).sum
  average : x.result.avgExitPrice * x.result.qtyExited = x.value

theorem Takes.sum_eq_zero {l l' : Ladder} {fs : List (ℚ × ℚ)} (h : Takes l fs l')
    (hzero : ¬ 0 < (fs.map Prod.snd).sum) : fs = [] := by
  cases h with
  | nil => rfl
  | @cons _ _ fs p q size hsize hpos hle hrest =>
    refine absurd ?_ hzero
    rw [List.map_cons, List.sum_cons]
    refine add_pos_of_pos_of_nonneg hpos (List.sum_nonneg fun y hy => ?_)
    obtain ⟨f, hf, rfl⟩ := List.mem_map.mp hy
    exact (hrest.pos f hf).le

theorem ExitCall.sound (hopen : x.order.exited < x.order.filled) : x.Sound := by
  have hpos : (0 : ℚ) < x.order.filled - x.order.exited := sub_pos.mpr hopen
  obtain ⟨fs, hlevels, hqty, hvalue, -, htakes⟩ := takes_walkExit (x.order.filled - x.order.exited)
    x.book.bids.keys.reverse ⟨x.book.bids, 0, 0, []⟩ hpos
  rw [List.nil_append] at hlevels
  rw [zero_add] at hqty hvalue
  have hfs : x.result.fillLevels = fs := hlevels
  have hsold : x.result.qtyExited = (fs.map Prod.snd).sum := hqty
  refine ⟨hfs ▸ htakes, x.fromTop, hfs ▸ hsold, ?_⟩
  have havg : x.result.avgExitPrice = if 0 < x.result.qtyExited then
      (fs.map fun f => f.2 * f.1).sum / x.result.qtyExited else x.marketBid := hvalue ▸ rfl
  rw [havg, ExitCall.value, hfs]
  split
  · next hsome => exact div_mul_cancel₀ _ hsome.ne'
  · next hnone =>
    -- nothing was sold
    rw [hsold] at hnone ⊢
    rw [htakes.sum_eq_zero hnone]
    exact mul_zero _

/-- An exit sells some of the order or nothing. -/
theorem ExitCall.qtyExited_nonneg (hopen : x.order.exited < x.order.filled) :
    0 ≤ x.result.qtyExited := by
  have hsound := x.sound hopen
  rw [hsound.qty]
  refine List.sum_nonneg fun y hy => ?_
  obtain ⟨f, hf, rfl⟩ := List.mem_map.mp hy
  exact (hsound.takes.pos f hf).le

/-- The average price after an exit: the new average over all exits, when there were some before. -/
theorem ExitCall.exitPrice_eq (hopen : x.order.exited < x.order.filled) : x.run.2.1.exitPrice =
    some (match x.order.exitPrice with
      | some prev =>
        if 0 < x.order.exited then
          if 0 < x.order.exited + x.result.qtyExited then
            (prev * x.order.exited + x.value) / (x.order.exited + x.result.qtyExited)
          else x.result.avgExitPrice
        else x.result.avgExitPrice
      | none => x.result.avgExitPrice) := by
  obtain ⟨fs, hlevels, -, hvalue, -, -⟩ := takes_walkExit (x.order.filled - x.order.exited)
    x.book.bids.keys.reverse ⟨x.book.bids, 0, 0, []⟩ (sub_pos.mpr hopen)
  rw [List.nil_append] at hlevels
  rw [zero_add] at hvalue
  have hreceived : (walkExit (x.order.filled - x.order.exited) x.book.bids.keys.reverse
      ⟨x.book.bids, 0, 0, []⟩).totalValue = x.value := by
    rw [hvalue, ExitCall.value, show x.result.fillLevels = fs from hlevels]
  rw [← hreceived]
  rfl

/-- **One exit** is told with the others: it adds what it sold and what it received. -/
theorem ExitsTold.exit (h : ExitsTold xs x.order) (hnonneg : 0 ≤ x.order.exited)
    (hopen : x.order.exited < x.order.filled) : ExitsTold (xs ++ [x]) x.run.2.1 := by
  have hsound := x.sound hopen
  have hid : x.run.2.1.orderId = x.order.orderId := rfl
  have hexits : exitsOf x.order.orderId (xs ++ [x]) = exitsOf x.order.orderId xs ++ [x] := by
    rw [exitsOf_append, show exitsOf x.order.orderId [x] = [x]
      from List.filter_cons_of_pos (by simp)]
  have hexited : x.run.2.1.exitFilled = some (x.order.exited + x.result.qtyExited) := rfl
  have hqty : exitedQty x.order.orderId (xs ++ [x]) = x.order.exited + x.result.qtyExited := by
    have hbefore : x.order.exited = exitedQty x.order.orderId xs := by
      rw [SimulatedOrder.exited, h.exitFilled]
      split
      · next hnil => rw [exitedQty, hnil]; rfl
      · rfl
    rw [exitedQty, hexits, List.map_append, List.sum_append, hbefore, exitedQty]
    simp
  have hvalue : exitedValue x.order.orderId (xs ++ [x]) =
      x.order.exitPrice.getD 0 * x.order.exited + x.value := by
    rw [exitedValue, hexits, List.map_append, List.sum_append, h.value, exitedValue]
    simp
  refine ⟨?_, rfl, ?_⟩
  · rw [hid, hexits, if_neg (by simp), hqty, hexited]
  · rw [hid, hvalue, x.exitPrice_eq hopen, Option.getD_some,
      show x.run.2.1.exited = x.order.exited + x.result.qtyExited from rfl]
    -- the average of a first exit is that of the exit itself
    have hfirst : ¬ 0 < x.order.exited →
        x.result.avgExitPrice * (x.order.exited + x.result.qtyExited) =
        x.order.exitPrice.getD 0 * x.order.exited + x.value := by
      intro hnone
      rw [le_antisymm (not_lt.mp hnone) hnonneg, zero_add, mul_zero, zero_add, hsound.average]
    cases hprice : x.order.exitPrice with
    | none =>
      rw [hprice] at hfirst
      refine hfirst fun hpos => ?_
      have hnone : x.order.exitFilled = none := by
        rw [← Option.not_isSome_iff_eq_none, ← h.priced, hprice]
        exact Bool.false_ne_true
      rw [SimulatedOrder.exited, hnone] at hpos
      exact absurd hpos (lt_irrefl _)
    | some prev =>
      rw [hprice, Option.getD_some] at hfirst
      dsimp only [Option.getD_some]
      split
      · next hpos =>
        have htotal : 0 < x.order.exited + x.result.qtyExited :=
          add_pos_of_pos_of_nonneg hpos (x.qtyExited_nonneg hopen)
        rw [if_pos htotal, div_mul_cancel₀ _ htotal.ne']
      · next hnone => exact hfirst hnone

/-! ## Checks, one order after the other -/

variable {now : Time} {b : ShadowOrderbook} {bestBid : ℚ} {os : List SimulatedOrder}

/-- There is something left to sell of an order that is looked at. -/
structure CanExit (o : SimulatedOrder) : Prop where
  nonneg : 0 ≤ o.exited
  eligible : o.isEligibleForBracket = true → o.exited < o.filled

theorem canExit_of_ok (ho : OrderOk o) : CanExit o := ⟨ho.exited_nonneg, exited_lt_of_eligible ho⟩

theorem canExit_of_new (hnone : o.exitFilled = none) : CanExit o := by
  have hexited : o.exited = 0 := by rw [SimulatedOrder.exited, hnone]; rfl
  refine ⟨hexited.ge, fun heligible => ?_⟩
  simp only [SimulatedOrder.isEligibleForBracket, decide_eq_true_eq] at heligible
  exact hexited ▸ heligible.2.2.1

theorem checkCalls_mem (hx : x ∈ checkCalls now bestBid b o) :
    o.isEligibleForBracket = true ∧ x.order = o := by
  unfold checkCalls at hx
  split at hx
  · next heligible =>
    obtain ⟨trigger, -, rfl⟩ := List.mem_map.mp hx
    exact ⟨heligible, rfl⟩
  · cases hx

theorem monitorCalls_mem (hx : x ∈ monitorCalls now bestBid b os) :
    ∃ o ∈ os, o.isEligibleForBracket = true ∧ x.order = o := by
  induction os generalizing b with
  | nil => cases hx
  | cons o os ih =>
    rcases List.mem_append.mp hx with hx | hx
    · exact ⟨o, List.mem_cons_self, checkCalls_mem hx⟩
    · obtain ⟨o', ho', h⟩ := ih hx
      exact ⟨o', List.mem_cons_of_mem _ ho', h⟩

/-- A bracket check keeps the accounts. -/
theorem ExitsTold.check (h : ExitsTold xs o) (ho : CanExit o) :
    ExitsTold (xs ++ checkCalls now bestBid b o) (checkBracket now bestBid b o).2.1 := by
  unfold checkBracket checkCalls
  split
  · next heligible =>
    cases htrigger : bracketTrigger o bestBid with
    | none => simpa [htrigger] using h
    | some trigger =>
      exact ExitsTold.exit (x := ⟨now, b, o, bestBid, trigger⟩) h ho.nonneg (ho.eligible heligible)
  · simpa using h

theorem checkBracket_id : (checkBracket now bestBid b o).2.1.orderId = o.orderId :=
  checkBracket_same.1

/-- **The loop of `monitor_bracket_orders`** keeps the accounts of its orders. -/
theorem told_monitorOrders (h : ∀ o ∈ os, ExitsTold xs o) (hcan : ∀ o ∈ os, CanExit o)
    (hnd : (os.map SimulatedOrder.orderId).Nodup) : ∀ o' ∈ (monitorOrders now bestBid b os).2.1,
      ExitsTold (xs ++ monitorCalls now bestBid b os) o' := by
  induction os generalizing b xs with
  | nil => exact fun o' ho' => absurd ho' List.not_mem_nil
  | cons o os ih =>
    rw [List.map_cons, List.nodup_cons] at hnd
    have hother : ∀ o' ∈ os, o.orderId ≠ o'.orderId := fun o' ho' heq =>
      hnd.1 (heq ▸ List.mem_map_of_mem ho')
    unfold monitorCalls
    rw [← List.append_assoc]
    intro o' ho'
    rcases List.mem_cons.mp ho' with rfl | ho'
    · refine ((h o List.mem_cons_self).check (hcan o List.mem_cons_self)).others fun x hx heq => ?_
      obtain ⟨y, hy, -, hxy⟩ := monitorCalls_mem hx
      exact hother y hy (hxy ▸ heq.trans checkBracket_id).symm
    · refine ih (fun y hy => (h y (List.mem_cons_of_mem _ hy)).others fun x hx => ?_)
        (fun y hy => hcan y (List.mem_cons_of_mem _ hy)) hnd.2 o' ho'
      rw [(checkCalls_mem hx).2]
      exact hother y hy

/-- The bracket check of a new order. -/
theorem ExitsTold.checkNew (h : ExitsTold xs o) (ho : CanExit o) :
    ExitsTold (xs ++ newCalls now b o) (checkNewBracket now b o).2.1 := by
  unfold checkNewBracket newCalls
  cases b.bestBid with
  | none => simpa using h
  | some bestBid => exact h.check ho

theorem newCalls_mem (hx : x ∈ newCalls now b o) : o.isEligibleForBracket = true ∧ x.order = o := by
  unfold newCalls at hx
  cases hb : b.bestBid with
  | none =>
    rw [hb] at hx
    cases hx
  | some bestBid =>
    rw [hb] at hx
    exact checkCalls_mem hx

/-! ## An operation -/

/-- What matching and cancelling do to an order is not an exit. -/
theorem respects_exitFields : RespectsMatching fun o' o => o'.exitFields = o.exitFields where
  orderId h := congrArg Prod.fst h
  refl o := rfl
  trans h h' := h.trans h'
  drained o := rfl
  canceled o := by
    unfold cancelOpen
    split <;> rfl
  matched t b o _ := by
    refine Fixed.matchAndCancel ⟨fun o p q => ?_, fun o ref => rfl, fun o => rfl⟩
    unfold SimulatedOrder.addFill SimulatedOrder.updateStatus
    split_ifs <;> rfl

theorem expireOrder_exitFields : ((expireOrder now o).getD o).exitFields = o.exitFields := by
  unfold expireOrder
  split
  · cases o.status with
    | filled =>
      dsimp only
      split <;> rfl
    | _ => rfl
  · rfl

theorem resolveOrder_exitFields : (resolveOrder o).exitFields = o.exitFields := by
  unfold resolveOrder
  split
  · rfl
  · exact respects_exitFields.canceled o

/-- Only the matching pass prunes. -/
theorem pruned_apply {a : BookAction} (hinv : CoreInv b.core) (hallowed : a.Allowed b)
    (hpass : a ≠ .feed .runMatching) : (a.apply now b).pruned = b.pruned := by
  cases a with
  | feed op =>
    cases op with
    | runMatching => exact absurd rfl hpass
    | applyChanges changes => exact works_pruned (works_applyChanges (t := now) changes)
    | monitorBracketOrders => exact works_pruned (works_monitorBracketOrders (t := now) hinv.ok)
    | expireAllPending =>
      show (b.expireAllPending now).1.pruned = b.pruned
      unfold ShadowOrderbook.expireAllPending
      dsimp only
      split <;> rfl
    | _ => rfl
  | place id r => exact works_pruned (works_enterOrder (t := now) hinv hallowed.1 hallowed.2)
  | placePrefilled id r => exact works_pruned (works_placePrefilled (t := now) (r := r) hallowed)
  | forceClose id => exact works_pruned (works_forceClose (t := now) hinv)
  | cancelOrder id => exact works_pruned (works_cancelOrder hinv)
  | depth side levels =>
    show (b.depth side levels).2.pruned = b.pruned
    unfold ShadowOrderbook.depth
    split <;> rfl
  | _ => rfl

/-- **An operation without exits** leaves what the orders say of their exits. -/
theorem exitFields_apply {a : BookAction} (hinv : CoreInv b.core) (hallowed : a.Allowed b)
    (hexits : a.mayExit = false) : ∀ o' ∈ (a.apply now b).virtualOrders ++ (a.apply now b).pruned,
      ∃ o ∈ b.virtualOrders ++ b.pruned, o'.exitFields = o.exitFields := by
  intro o' ho'
  have hold : ∀ {os : List SimulatedOrder},
      List.Forall₂ (fun o' o => o'.exitFields = o.exitFields) os b.virtualOrders → o' ∈ os →
        ∃ o ∈ b.virtualOrders ++ b.pruned, o'.exitFields = o.exitFields := by
    intro os hos hmem
    obtain ⟨o, ho, hsame⟩ := exists_before hos hmem
    exact ⟨o, List.mem_append_left _ ho, hsame⟩
  by_cases hpass : a = .feed .runMatching
  · subst hpass
    have hos := respects_exitFields.forall₂_trans respects_exitFields.collect
      (respects_exitFields.matchPass (b := b) (t := now) fun o _ => expireOrder_exitFields)
    rcases List.mem_append.mp ho' with ho' | ho'
    · exact hold hos (cleanup_mem ho')
    · rcases cleanup_pruned ho' with hpruned | ⟨hlive, -⟩
      · have hsame : (b.matchPass now).pruned = b.pruned := works_pruned (works_matchPass hinv)
        exact ⟨o', List.mem_append_right _ (hsame ▸ hpruned), rfl⟩
      · exact hold hos hlive
  · rcases List.mem_append.mp ho' with ho' | ho'
    · obtain ⟨os, hos, hlisted⟩ := respects_exitFields.apply (t := now) hinv.nodup hexits
        (fun _ o _ => expireOrder_exitFields) fun _ o _ => resolveOrder_exitFields
      cases hlisted with
      | all horders => exact hold hos (horders ▸ ho')
      | brought o hplaced =>
        cases a with
        | place => cases hexits
        | placePrefilled => cases hexits
        | _ => cases hplaced
      | swept horders => exact hold hos (List.mem_of_mem_filter (horders ▸ ho'))
    · rw [pruned_apply hinv hallowed hpass] at ho'
      exact ⟨o', List.mem_append_right _ ho', rfl⟩

/-- The exits of a book: what its orders tell of the exits `xs`, and that these were of orders of
it. -/
structure ExitsKept (xs : List ExitCall) (b : ShadowOrderbook) : Prop where
  told : ∀ o ∈ b.virtualOrders ++ b.pruned, ExitsTold xs o
  known : ∀ x ∈ xs, .placed x.order.orderId ∈ b.history
  sound : ∀ x ∈ xs, x.Sound

theorem exitCalls_quiet {a : BookAction} (hexits : a.mayExit = false) : a.exitCalls now b = [] := by
  cases a with
  | feed op => cases op <;> first | rfl | cases hexits
  | _ => first | rfl | cases hexits

/-- Exits of live orders, and the accounts of the orders after them. -/
theorem ExitsKept.exits {b' : ShadowOrderbook} (h : ExitsKept xs b) (hb : Reachable b)
    (heffects : Effects b.core b'.core) (hpruned : b'.pruned = b.pruned)
    (hcalls : ∀ x ∈ ys, x.order ∈ b.virtualOrders ∧ x.order.exited < x.order.filled)
    (htold : ∀ o ∈ b'.virtualOrders, ExitsTold (xs ++ ys) o) : ExitsKept (xs ++ ys) b' := by
  have hinv := (effects_of_reachable hb).1
  refine ⟨fun o ho => ?_, fun x hx => ?_, fun x hx => ?_⟩
  · rcases List.mem_append.mp ho with ho | ho
    · exact htold o ho
    · rw [hpruned] at ho
      refine (h.told o (List.mem_append_right _ ho)).others fun x hx heq => ?_
      exact (retired_of_reachable hb).gone o ho x.order (hcalls x hx).1 heq
  · rcases List.mem_append.mp hx with hx | hx
    · exact effects_placed heffects (h.known x hx)
    · exact effects_placed heffects (hinv.placed x.order (hcalls x hx).1)
  · rcases List.mem_append.mp hx with hx | hx
    · exact h.sound x hx
    · exact x.sound (hcalls x hx).2

/-- An order is entered that has no exits yet, and its bracket is checked. -/
theorem ExitsKept.enter {b' m : ShadowOrderbook} (h : ExitsKept xs b) (hb : Reachable b)
    (hfresh : .placed id ∉ b.history) (heffects : Effects b.core b'.core)
    (hplaced : .placed id ∈ b'.history)
    (hpruned : b'.pruned = b.pruned) (ho : o.exitFields = (id, none, none))
    (horders : List.Forall₂ (fun o' o => o'.exitFields = o.exitFields) b'.virtualOrders
      (b.virtualOrders ++ [(checkNewBracket now m o).2.1])) : ExitsKept
        (xs ++ newCalls now m o) b' := by
  obtain ⟨hid, hfilled, hprice⟩ : o.orderId = id ∧ o.exitFilled = none ∧ o.exitPrice = none := by
    simpa [SimulatedOrder.exitFields] using ho
  have hinv := (effects_of_reachable hb).1
  have hcan := canExit_of_new hfilled
  have hothers : ∀ y : SimulatedOrder, .placed y.orderId ∈ b.history →
      ∀ x ∈ newCalls now m o, x.order.orderId ≠ y.orderId := by
    intro y hy x hx heq
    rw [(newCalls_mem hx).2, hid] at heq
    exact hfresh (heq ▸ hy)
  refine ⟨fun o' ho' => ?_, fun x hx => ?_, fun x hx => ?_⟩
  · rcases List.mem_append.mp ho' with ho' | ho'
    · obtain ⟨y, hy, hsame⟩ := exists_before horders ho'
      refine ExitsTold.congr ?_ hsame
      rcases List.mem_append.mp hy with hy | hy
      · exact (h.told y (List.mem_append_left _ hy)).others (hothers y (hinv.placed y hy))
      · rw [List.mem_singleton.mp hy]
        refine ExitsTold.checkNew (exitsTold_new hfilled hprice fun x hx heq => ?_) hcan
        exact hfresh (hid ▸ heq ▸ h.known x hx)
    · rw [hpruned] at ho'
      exact (h.told o' (List.mem_append_right _ ho')).others
        (hothers o' ((retired_of_reachable hb).placed o' ho'))
  · rcases List.mem_append.mp hx with hx | hx
    · exact effects_placed heffects (h.known x hx)
    · rw [(newCalls_mem hx).2, hid]
      exact hplaced
  · rcases List.mem_append.mp hx with hx | hx
    · exact h.sound x hx
    · obtain ⟨heligible, hx⟩ := newCalls_mem hx
      exact x.sound (by rw [hx]; exact hcan.eligible heligible)

/-- A forced exit is of the live order of the id, some of which is left. -/
theorem forceCalls_mem (hinv : CoreInv b.core) (hx : x ∈ b.forceCalls now id) :
    x.order ∈ b.virtualOrders ∧ x.order.exited < x.order.filled ∧ x.order.orderId = id := by
  unfold forceCalls at hx
  cases hfind : b.virtualOrders.find? fun o => o.orderId = id with
  | none =>
    rw [hfind] at hx
    cases hx
  | some o =>
    rw [hfind] at hx
    dsimp only at hx
    split at hx
    · cases hx
    · next hcan =>
      obtain ⟨hpos, hopen⟩ := not_or.mp hcan
      obtain ⟨bestBid, -, rfl⟩ := List.mem_map.mp hx
      have ho := List.mem_of_find?_eq_some hfind
      exact ⟨ho, (hinv.ok o ho).exited_lt (by simpa using hopen) (not_le.mp hpos),
        by simpa using List.find?_some hfind⟩

/-- A forced close keeps the accounts. -/
theorem told_forceClose (h : ∀ o ∈ b.virtualOrders, ExitsTold xs o) (hinv : CoreInv b.core) :
    ∀ o ∈ (b.forceCloseAtMarket now id).1.virtualOrders,
      ExitsTold (xs ++ b.forceCalls now id) o := by
  have hcalls : ∀ x ∈ b.forceCalls now id, _ := fun x hx => forceCalls_mem hinv hx
  unfold forceCloseAtMarket forceCalls at *
  cases hfind : b.virtualOrders.find? fun o => o.orderId = id with
  | none => simpa using h
  | some o =>
    rw [hfind] at hcalls
    dsimp only at hcalls ⊢
    split at hcalls
    · next hclosed =>
      rw [if_pos hclosed, if_pos hclosed]
      simpa using h
    · next hcan =>
      rw [if_neg hcan, if_neg hcan]
      cases hbid : b.bestBid with
      | none => simpa using h
      | some bestBid =>
        rw [hbid] at hcalls
        obtain ⟨ho, hopen, hid⟩ := hcalls _ (List.mem_singleton_self _)
        intro o' ho'
        obtain ⟨y, hy, rfl⟩ := List.mem_map.mp ho'
        split
        · exact (h o ho).exit (x := ⟨now, b, o, bestBid, .forceClose⟩)
            (hinv.ok o ho).exited_nonneg hopen
        · next hne =>
          refine (h y hy).others fun x hx heq => hne ?_
          rw [List.mem_singleton.mp hx] at heq
          exact heq.symm.trans hid

/-- **The monitor** keeps the accounts. -/
theorem ExitsKept.monitor (h : ExitsKept xs b) (hb : Reachable b) :
    ExitsKept (xs ++ (BookAction.feed .monitorBracketOrders).exitCalls now b)
      (b.monitorBracketOrders now).1 := by
  have hinv := (effects_of_reachable hb).1
  have heffects : Effects b.core (b.monitorBracketOrders now).1.core :=
    effects_of_step hinv (.monitorBracketOrders b now)
  have hpruned : ((BookAction.feed .monitorBracketOrders).apply now b).pruned = b.pruned :=
    pruned_apply hinv trivial nofun
  refine h.exits hb heffects hpruned (fun x hx => ?_) fun o ho => ?_
  · simp only [BookAction.exitCalls] at hx
    cases hbid : b.bestBid with
    | none =>
      rw [hbid] at hx
      cases hx
    | some bestBid =>
      rw [hbid] at hx
      obtain ⟨o, ho, heligible, hxo⟩ := monitorCalls_mem hx
      rw [hxo]
      exact ⟨ho, exited_lt_of_eligible (hinv.ok o ho) heligible⟩
  · have hlive : ∀ o ∈ b.virtualOrders, ExitsTold xs o :=
      fun o ho => h.told o (List.mem_append_left _ ho)
    unfold monitorBracketOrders at ho
    simp only [BookAction.exitCalls]
    cases hbid : b.bestBid with
    | none =>
      rw [hbid] at ho
      simpa using hlive o ho
    | some bestBid =>
      rw [hbid] at ho
      exact told_monitorOrders hlive (fun o ho => canExit_of_ok (hinv.ok o ho)) hinv.nodup o ho

/-- **An operation** keeps the accounts. -/
theorem exitsKept_apply {a : BookAction} (h : ExitsKept xs b) (hb : Reachable b)
    (hallowed : a.Allowed b) :
    ExitsKept (xs ++ a.exitCalls now b) (a.apply now b) := by
  have hinv := (effects_of_reachable hb).1
  have heffects : Effects b.core (a.apply now b).core :=
    effects_of_step hinv (bookStep_sound (x := (now, a)) (bookStep_of_allowed hallowed))
  cases hexits : a.mayExit with
  | false =>
    rw [exitCalls_quiet hexits, List.append_nil]
    refine ⟨fun o' ho' => ?_, fun x hx => effects_placed heffects (h.known x hx), h.sound⟩
    obtain ⟨o, ho, hsame⟩ := exitFields_apply hinv hallowed hexits o' ho'
    exact (h.told o ho).congr hsame
  | true =>
    cases a with
    | feed op =>
      cases op with
      | monitorBracketOrders => exact h.monitor hb
      | _ => cases hexits
    | place id r =>
      have hplaced : .placed id ∈ (b.enterOrder now id r).1.history :=
        effects_placed (works_effects (works_matchNew (t := now) hinv hallowed.1 hallowed.2))
          List.mem_cons_self
      exact h.enter hb hallowed.1 heffects (effects_placed effects_collect hplaced)
        (pruned_apply hinv hallowed nofun) (respects_exitFields.matched now _
          (r.newOrder now id) rfl)
        respects_exitFields.collectOrders
    | placePrefilled id r =>
      refine h.enter hb hallowed heffects
        (effects_placed (works_effects works_checkPrefilled) (by simp))
        (pruned_apply hinv hallowed nofun) rfl ?_
      have horders : (b.placePrefilledBracketOrder now id r).book.virtualOrders = b.virtualOrders ++
          [(checkNewBracket now { b with
            history := [.prefill id r.avgEntryPrice r.filled, .placed id] ++ b.history }
            (r.newOrder now id)).2.1] := by
        unfold placePrefilledBracketOrder
        dsimp only
        rw [checkNewBracket_virtualOrders]
      exact horders ▸ respects_exitFields.same _
    | forceClose id =>
      refine h.exits hb heffects (pruned_apply hinv hallowed nofun) (fun x hx => ?_) fun o ho => ?_
      · obtain ⟨ho, hopen, -⟩ := forceCalls_mem hinv hx
        exact ⟨ho, hopen⟩
      · exact told_forceClose (fun o ho => h.told o (List.mem_append_left _ ho)) hinv o ho
    | _ => cases hexits

/-- What was pruned is as it was before. -/
theorem effects_prunedOk {c c' : BookCore} (hinv : CoreInv c) (h : AllOk c.pruned)
    (he : Effects c c') :
    AllOk c'.pruned := by
  have hboth : CoreInv c' ∧ AllOk c'.pruned := by
    induction he with
    | refl => exact ⟨hinv, h⟩
    | tail _ hstep ih =>
      refine ⟨effect_inv ih.1 hstep, ?_⟩
      cases hstep with
      | prune drop =>
        intro o ho
        rcases List.mem_append.mp ho with ho | ho
        · exact ih.2 o ho
        · exact ih.1.ok o (List.mem_of_mem_filter ho)
      | set side => cases side <;> exact ih.2
      | @fill _ _ _ _ o =>
        unfold BookCore.fill
        cases o.side <;> exact ih.2
      | _ => exact ih.2
  exact hboth.2

theorem ok_of_reachable (hb : Reachable b) : AllOk (b.virtualOrders ++ b.pruned) := by
  intro o ho
  obtain ⟨hinv, heffects⟩ := effects_of_reachable hb
  rcases List.mem_append.mp ho with ho | ho
  · exact hinv.ok o ho
  · exact effects_prunedOk emptyCore_inv (fun o ho => absurd ho List.not_mem_nil) heffects o ho

end

/-! ## Runs -/

/-- A book, the exits that it executed and the results that it reported. -/
structure ExitLog where
  book : ShadowOrderbook
  exits : List ExitCall
  reported : List BracketFillResult

/-- An operation at an instant. -/
def ExitLog.step (s : ExitLog) (x : Time × BookAction) : Option ExitLog :=
  (bookStep s.book x).map fun b =>
    ⟨b, s.exits ++ x.2.exitCalls x.1 s.book, s.reported ++ x.2.exitResults x.1 s.book⟩

/-- A new book. -/
def ExitLog.new (tokenId : String) : ExitLog := ⟨{ tokenId := tokenId }, [], []⟩

/-- The accounts of an order: what its exits sold, at most what was bought, what they received, and
what that is more than it cost. -/
structure ExitsAccounted (xs : List ExitCall) (o : SimulatedOrder) : Prop where
  filled : o.exitFilled = if exitsOf o.orderId xs = [] then none else some (exitedQty o.orderId xs)
  bounded : exitedQty o.orderId xs ≤ o.filled
  received : o.exitPrice.getD 0 * exitedQty o.orderId xs = exitedValue o.orderId xs
  profit : o.calculateProfit = if 0 < exitedQty o.orderId xs
    then some (exitedValue o.orderId xs - exitedQty o.orderId xs * (o.entryCost / o.filled))
    else none

section

variable {xs : List ExitCall} {o : SimulatedOrder}

theorem ExitsTold.exited_eq (h : ExitsTold xs o) : o.exited = exitedQty o.orderId xs := by
  rw [SimulatedOrder.exited, h.exitFilled]
  split
  · next hnone =>
    rw [exitedQty, hnone]
    rfl
  · rfl

theorem ExitsTold.accounted (h : ExitsTold xs o) (ho : OrderOk o) : ExitsAccounted xs o := by
  have hvalue := h.value
  rw [h.exited_eq] at hvalue
  refine ⟨h.exitFilled, h.exited_eq ▸ ho.exited_le, hvalue, ?_⟩
  rw [← hvalue, ← h.exited_eq]
  unfold SimulatedOrder.calculateProfit
  cases hfilled : o.exitFilled with
  | none =>
    rw [SimulatedOrder.exited, hfilled]
    exact (if_neg (lt_irrefl _)).symm
  | some exited =>
    obtain ⟨price, hprice⟩ : ∃ price, o.exitPrice = some price :=
      Option.isSome_iff_exists.mp (by rw [h.priced, hfilled]; rfl)
    have hexited : o.exited = exited := by rw [SimulatedOrder.exited, hfilled]; rfl
    have hle := ho.exited_le
    rw [hexited] at hle ⊢
    rw [hprice, SimulatedOrder.avgEntryPrice]
    by_cases hpos : 0 < exited
    · rw [if_pos hpos, if_pos (hpos.trans_le hle)]
      dsimp only
      rw [if_neg (not_le.mpr hpos), Option.getD_some, mul_comm exited price]
    · rw [if_neg hpos]
      split_ifs <;> simp [not_lt.mp hpos]

end

/-- **Exits are accounted for.** In every run the exits that a book executed are those it reported,
each order has sold and received what its exits did, and each exit took the bids from the top. -/
theorem exits_accounted {tokenId : String} {s : ExitLog}
    (hrun : Run ExitLog.step (fun _ _ => True) (.new tokenId) s) :
    s.reported = s.exits.map ExitCall.result ∧
      (∀ o ∈ s.book.virtualOrders ++ s.book.pruned, ExitsAccounted s.exits o) ∧
        ∀ x ∈ s.exits, x.Sound := by
  have hkept : Reachable s.book ∧ ExitsKept s.exits s.book ∧
      s.reported = s.exits.map ExitCall.result := by
    refine hrun.invariant (fun s => Reachable s.book ∧ ExitsKept s.exits s.book ∧
      s.reported = s.exits.map ExitCall.result) ?_ ?_
    · exact ⟨⟨tokenId, .refl⟩, ⟨fun _ ho => absurd ho List.not_mem_nil,
        fun _ hx => absurd hx List.not_mem_nil, fun _ hx => absurd hx List.not_mem_nil⟩, rfl⟩
    · rintro s x s' ⟨⟨tokenId, hb⟩, hkept, hreported⟩ - hstep
      obtain ⟨b, hbook, rfl⟩ := Option.map_eq_some_iff.mp hstep
      obtain ⟨hallowed, rfl⟩ := bookStep_some hbook
      refine ⟨⟨tokenId, hb.tail (bookStep_sound hbook)⟩,
        exitsKept_apply hkept ⟨tokenId, hb⟩ hallowed, ?_⟩
      rw [List.map_append, hreported, exitResults_eq]
  exact ⟨hkept.2.2, fun o ho => (hkept.2.1.told o ho).accounted (ok_of_reachable hkept.1 o ho),
    hkept.2.1.sound⟩

/-- Ten shares are bought at `0.50`; four are sold at `0.75` by the bracket, and three more of it
are bought at `0.40` and the rest sold at `0.80` and `0.60`. -/
def soldInParts : List (Time × BookAction) :=
  [(0, .feed (.applySnapshot [] [⟨1 / 2, 10, pos_one_half⟩])),
    (1, .place 7 { side := .buy, price := 3 / 5, quantity := 13, tpPrice := some (7 / 10) }),
    (2, .feed (.applySnapshot [⟨3 / 4, 4, pos_three_quarters⟩] [])),
    (2, .feed .monitorBracketOrders),
    (3, .feed (.applySnapshot [⟨3 / 5, 20, pos_three_fifths⟩, ⟨4 / 5, 2, pos_four_fifths⟩] [⟨2 / 5,
      3, pos_two_fifths⟩])),
    (3, .feed .runMatching),
    (4, .forceClose 7)]

theorem exits_accounted_soldInParts :
    ∃ s, exec ExitLog.step (fun _ _ => True) (.new "up") soldInParts = some s ∧
    s.exits.length = 2 ∧ ∀ o ∈ s.book.virtualOrders, ExitsAccounted s.exits o := by
  have hrun : (exec ExitLog.step (fun _ _ => True) (.new "up") soldInParts).any
      (fun s => s.exits.length = 2) = true := by decide +kernel
  obtain ⟨s, hs, htwo⟩ := (Option.any_eq_true _ _).mp hrun
  exact ⟨s, hs, of_decide_eq_true htwo, fun o ho =>
    (exits_accounted (run_of_exec hs)).2.1 o (List.mem_append_left _ ho)⟩

/-- Two orders with ten shares each, and ten wanted. -/
def soldToOne : List (Time × BookAction) :=
  [(0, .feed (.applySnapshot [] [⟨1 / 2, 20, pos_one_half⟩])),
    (1, .place 7 { side := .buy, price := 3 / 5, quantity := 10, tpPrice := some (7 / 10) }),
    (1, .place 8 { side := .buy, price := 3 / 5, quantity := 10, tpPrice := some (7 / 10) }),
    (2, .feed (.applySnapshot [⟨3 / 4, 10, pos_three_quarters⟩] [])),
    (2, .feed .monitorBracketOrders)]

/-- **An exit that found no bids** leaves the order without a profit, not with one of zero. -/
theorem no_profit_of_nothing : ¬ ∀ (tokenId : String) (s : ExitLog),
    Run ExitLog.step (fun _ _ => True) (.new tokenId) s → ∀ o ∈ s.book.virtualOrders,
      exitsOf o.orderId s.exits ≠ [] → o.calculateProfit =
        some (exitedValue o.orderId s.exits -
          exitedQty o.orderId s.exits * (o.entryCost / o.filled)) := by
  intro hall
  have hrun : (exec ExitLog.step (fun _ _ => True) (.new "up") soldToOne).any (fun s =>
      s.book.virtualOrders.any fun o => !(exitsOf o.orderId s.exits).isEmpty &&
        o.calculateProfit.isNone) = true := by
    decide +kernel
  obtain ⟨s, hs, hempty⟩ := (Option.any_eq_true _ _).mp hrun
  obtain ⟨o, ho, hnone⟩ := List.any_eq_true.mp hempty
  rw [Bool.and_eq_true] at hnone
  have hsold := hall "up" s (run_of_exec hs) o ho (by simpa using hnone.1)
  rw [hsold] at hnone
  exact absurd hnone.2 (by simp)

end PolyArena
