import PolyArena.MatchingEngine.ExitAccounts
import PolyArena.MatchingEngine.Levels

/-!
# Which reported exits are real

`monitor_bracket_orders` reads the best bid once, while every exit of its loop takes bids.  A later
exit is then judged on a price that may be gone, and may sell at a worse one or nothing at all.

1. `sellDown`: what a sale leaves of the bids; `walkExit_items` says that the exit loop leaves just
   that.
2. `BidsSuffice`: at the turn of each order that fires, what the orders before it leave still meets
   its condition.
3. `exits_real_iff`: the exits of a pass are real if and only if the bids suffice for it.
-/

namespace PolyArena

open ShadowOrderbook

/-! ## Real exits -/

/-- The condition of the order that `trigger` stands for, at the best bid `bid`. -/
def Trigger.metBy (o : SimulatedOrder) (bid : ℚ) : Trigger → Prop
  | .tp => ∃ tp ∈ o.tpPrice, tp ≤ bid
  | .sl => ∃ sl ∈ o.slPrice, bid ≤ sl
  | .forceClose => True

/-- The exit is real: the best bid that it meets is one to exit at, and it sells at prices of the
bid ladder. -/
structure ExitCall.Real (x : ExitCall) : Prop where
  triggered : ∃ bid ∈ x.book.bestBid, x.trigger.metBy x.order bid
  sold : 0 < x.result.qtyExited
  priced : ∀ f ∈ x.result.fillLevels, ∃ size, x.book.bids.get? f.1 = some size ∧ f.2 ≤ size

/-! ## What a sale leaves -/

/-- What is left of the bids, best first, when `qty` is sold to them; the rest of a level is dropped
when it is below the dust threshold. -/
def sellDown (levels : List (ℚ × ℚ)) (qty : ℚ) : List (ℚ × ℚ) :=
  match levels with
  | [] => []
  | (p, size) :: rest =>
    if qty ≤ size then
      if size - qty < ME_DUST_THRESHOLD then rest else (p, size - qty) :: rest
    else sellDown rest (qty - size)

/-- The bids of a book, best first. -/
def ShadowOrderbook.bidLevels (b : ShadowOrderbook) : List (ℚ × ℚ) := b.bids.items.reverse

/-- The quantities that the orders sell which fire at `bestBid`, in order. -/
def soldAt (bestBid : ℚ) (os : List SimulatedOrder) : List ℚ :=
  (os.filter (·.fires bestBid)).map fun o => o.filled - o.exited

/-- When it is the turn of an order that fires, some bid is left by the orders before it, and one at
the take profit when that is what fires. -/
def BidsSuffice (b : ShadowOrderbook) : Prop :=
  ∀ bestBid ∈ b.bestBid, ∀ pre o post, b.virtualOrders = pre ++ o :: post → o.fires bestBid = true →
    ∃ top ∈ ((soldAt bestBid pre).foldl sellDown b.bidLevels).head?,
      ∀ tp ∈ o.tpPrice, tp ≤ bestBid → tp ≤ top.1

section

variable {b : ShadowOrderbook} {o : SimulatedOrder} {os : List SimulatedOrder} {l l' : Ladder}
  {now : Time} {x : ExitCall} {bestBid p qty size : ℚ} {levels rest : List (ℚ × ℚ)}
  {fs : List (ℚ × ℚ)}

theorem bestBid_eq : b.bestBid = b.bidLevels.head?.map Prod.fst := by
  rw [ShadowOrderbook.bestBid, bidLevels, List.head?_reverse]
  rfl

/-- **The exit loop** leaves of the bids what the sale leaves. -/
theorem walkExit_items (levels : List (ℚ × ℚ)) (qtyToClose : ℚ) (w : ExitWalk)
    (hopen : w.qtyExited < qtyToClose) (hitems : w.bids.items.reverse = levels)
    (hpos : ∀ f ∈ levels, 0 < f.2) :
    (walkExit qtyToClose (levels.map Prod.fst) w).bids.items.reverse =
      sellDown levels (qtyToClose - w.qtyExited) := by
  induction levels generalizing w with
  | nil => exact hitems
  | cons f rest ih =>
    obtain ⟨p, size⟩ := f
    have hsize : w.bids.getD p 0 = size :=
      SortedDict.getD_items (p, size) (List.mem_reverse.mp (hitems ▸ List.mem_cons_self))
    have hsize0 : 0 < size := hpos _ List.mem_cons_self
    rw [List.map_cons]
    unfold walkExit sellDown
    dsimp only
    rw [hsize, if_neg (not_le.mpr hsize0)]
    by_cases hlast : qtyToClose - w.qtyExited ≤ size
    · rw [min_eq_left hlast, if_pos (by linarith), if_pos hlast, consume_top hitems]
    · have hmin : min (qtyToClose - w.qtyExited) size = size := min_eq_right (not_le.mp hlast).le
      have hleft := consume_top hitems size
      rw [sub_self, if_pos dust_pos] at hleft
      rw [hmin, if_neg (by linarith), if_neg hlast, sub_sub]
      refine ih { bids := w.bids.consume p size
                  qtyExited := w.qtyExited + size
                  totalValue := w.totalValue + size * p
                  levels := w.levels ++ [(p, size)] } ?_ hleft fun f hf =>
                    hpos f (List.mem_cons_of_mem _ hf)
      dsimp only
      linarith

theorem sellDown_subset (hpos : ∀ f ∈ levels, 0 < f.2) :
    ∀ f ∈ sellDown levels qty, 0 < f.2 ∧ f.1 ∈ levels.map Prod.fst := by
  induction levels generalizing qty with
  | nil => exact fun f hf => absurd hf List.not_mem_nil
  | cons e rest ih =>
    obtain ⟨p, size⟩ := e
    have hrest : ∀ f ∈ rest, 0 < f.2 := fun f hf => hpos f (List.mem_cons_of_mem _ hf)
    have htail : ∀ f ∈ rest, 0 < f.2 ∧ f.1 ∈ ((p, size) :: rest).map Prod.fst := fun f hf =>
      ⟨hrest f hf, List.mem_cons_of_mem _ (List.mem_map_of_mem hf)⟩
    intro f hf
    unfold sellDown at hf
    split_ifs at hf with hlast hdust
    · exact htail f hf
    · rcases List.mem_cons.mp hf with rfl | hf
      · exact ⟨dust_pos.trans_le (not_lt.mp hdust), List.mem_cons_self⟩
      · exact htail f hf
    · obtain ⟨hf, hmem⟩ := ih hrest f hf
      exact ⟨hf, List.mem_cons_of_mem _ hmem⟩

/-! ## One exit -/

/-- The exit loop sells something to the first level. -/
theorem walkExit_sells {w : ExitWalk} (prices : List ℚ) (hopen : w.qtyExited < qty)
    (hsize : 0 < w.bids.getD p 0) : w.qtyExited < (walkExit qty (p :: prices) w).qtyExited := by
  have hfill : 0 < min (qty - w.qtyExited) (w.bids.getD p 0) := lt_min (sub_pos.mpr hopen) hsize
  unfold walkExit
  dsimp only
  rw [if_neg (not_le.mpr hsize)]
  split
  · exact lt_add_of_pos_right _ hfill
  · next hleft =>
    obtain ⟨fs, -, hqty, -, -, htakes⟩ := takes_walkExit qty prices
      { bids := w.bids.consume p (min (qty - w.qtyExited) (w.bids.getD p 0))
        qtyExited := w.qtyExited + min (qty - w.qtyExited) (w.bids.getD p 0)
        totalValue := w.totalValue + min (qty - w.qtyExited) (w.bids.getD p 0) * p
        levels := w.levels ++ [(p, min (qty - w.qtyExited) (w.bids.getD p 0))] } (not_le.mp hleft)
    have hmore : 0 ≤ (fs.map Prod.snd).sum := by
      refine List.sum_nonneg fun y hy => ?_
      obtain ⟨f, hf, rfl⟩ := List.mem_map.mp hy
      exact (htakes.pos f hf).le
    rw [hqty]
    dsimp only
    linarith

/-- **An exit** is real when the best bid is still one to exit at. -/
theorem ExitCall.real_iff (hopen : x.order.exited < x.order.filled)
    (hpos : ∀ f ∈ x.book.bidLevels, 0 < f.2) :
    x.Real ↔ ∃ top ∈ x.book.bidLevels.head?, x.trigger.metBy x.order top.1 := by
  constructor
  · rintro ⟨⟨bid, hbid, hmet⟩, -, -⟩
    rw [bestBid_eq] at hbid
    obtain ⟨top, htop, rfl⟩ := Option.map_eq_some_iff.mp hbid
    exact ⟨top, htop, hmet⟩
  · rintro ⟨⟨p, size⟩, htop, hmet⟩
    have hsound := x.sound hopen
    refine ⟨⟨p, by rw [bestBid_eq, htop]; rfl, hmet⟩, ?_, hsound.takes.offered⟩
    obtain ⟨rest, hlevels⟩ := List.head?_eq_some_iff.mp htop
    have hmem : (p, size) ∈ x.book.bidLevels := List.mem_of_mem_head? htop
    have hsize : 0 < x.book.bids.getD p 0 := by
      rw [SortedDict.getD_items (p, size) (List.mem_reverse.mp hmem)]
      exact hpos _ hmem
    have hkeys : x.book.bids.keys.reverse = p :: rest.map Prod.fst := by
      rw [SortedDict.keys, ← List.map_reverse, show x.book.bids.items.reverse = _
        from hlevels, List.map_cons]
    have hsells := walkExit_sells (w := ⟨x.book.bids, 0, 0, []⟩) (rest.map Prod.fst)
      (sub_pos.mpr hopen) hsize
    rw [← hkeys] at hsells
    exact hsells

/-- The bids that an exit leaves. -/
theorem ExitCall.bidLevels_run (hopen : x.order.exited < x.order.filled)
    (hpos : ∀ f ∈ x.book.bidLevels, 0 < f.2) :
    x.run.1.bidLevels = sellDown x.book.bidLevels (x.order.filled - x.order.exited) := by
  have hkeys : x.book.bids.keys.reverse = x.book.bidLevels.map Prod.fst := by
    rw [SortedDict.keys, ← List.map_reverse]
    rfl
  have hleft := walkExit_items x.book.bidLevels (x.order.filled - x.order.exited)
    ⟨x.book.bids, 0, 0, []⟩
    (sub_pos.mpr hopen) rfl hpos
  rw [← hkeys, sub_zero] at hleft
  exact hleft

/-! ## The loop -/

/-- At a lower best bid, the condition that fired at `bestBid` is met if the take profit is. -/
theorem metBy_iff {trigger : Trigger} (htrigger : bracketTrigger o bestBid = some trigger)
    (hp : p ≤ bestBid) :
    trigger.metBy o p ↔ ∀ tp ∈ o.tpPrice, tp ≤ bestBid → tp ≤ p := by
  unfold bracketTrigger at htrigger
  split_ifs at htrigger with htp hsl
  · obtain rfl := Option.some.inj htrigger
    obtain ⟨tp, hmem, hle⟩ := htp
    constructor
    · rintro ⟨tp', hmem', hmet⟩ tp'' hmem'' -
      obtain rfl : tp' = tp'' := Option.mem_unique hmem' hmem''
      exact hmet
    · exact fun hall => ⟨tp, hmem, hall tp hmem hle⟩
  · obtain rfl := Option.some.inj htrigger
    obtain ⟨sl, hmem, hle⟩ := hsl
    exact ⟨fun _ tp hmem hle => absurd ⟨tp, hmem, hle⟩ htp, fun _ => ⟨sl, hmem, hp.trans hle⟩⟩

theorem forall_split_cons {α : Type*} {a : α} {l : List α} {P : List α → α → Prop} :
    (∀ pre x post, a :: l = pre ++ x :: post → P pre x) ↔
      P [] a ∧ ∀ pre x post, l = pre ++ x :: post → P (a :: pre) x := by
  constructor
  · exact fun h => ⟨h [] a l rfl, fun pre x post hl => h (a :: pre) x post (by rw [hl]; rfl)⟩
  · rintro ⟨hhead, htail⟩ pre x post hl
    cases pre with
    | nil =>
      obtain ⟨rfl, -⟩ := List.cons.inj hl
      exact hhead
    | cons y pre =>
      obtain ⟨rfl, hrest⟩ := List.cons.inj hl
      exact htail pre x post hrest

/-- **The exits of the loop** are real if and only if each finds its condition met by what the ones
before it leave. -/
theorem monitorCalls_real_iff (hcan : ∀ o ∈ os, CanExit o)
    (hlevels : ∀ f ∈ b.bidLevels, 0 < f.2 ∧ f.1 ≤ bestBid) :
    (∀ x ∈ monitorCalls now bestBid b os, x.Real) ↔
      ∀ pre o post, os = pre ++ o :: post → o.fires bestBid = true →
        ∃ top ∈ ((soldAt bestBid pre).foldl sellDown b.bidLevels).head?,
          ∀ tp ∈ o.tpPrice, tp ≤ bestBid → tp ≤ top.1 := by
  induction os generalizing b with
  | nil => simp [monitorCalls]
  | cons o os ih =>
    rw [forall_split_cons]
    unfold monitorCalls
    rw [List.forall_mem_append]
    have hrest : ∀ o ∈ os, CanExit o := fun o ho => hcan o (List.mem_cons_of_mem _ ho)
    cases hfires : o.fires bestBid with
    | false =>
      have hnone : checkCalls now bestBid b o = [] := by
        unfold checkCalls
        split
        · next heligible =>
          rw [SimulatedOrder.fires, heligible, Bool.true_and, Option.isSome_eq_false_iff,
            Option.isNone_iff_eq_none] at hfires
          rw [hfires]
          rfl
        · rfl
      have hsame : ∀ pre, soldAt bestBid (o :: pre) = soldAt bestBid pre := fun pre => by
        rw [soldAt, List.filter_cons_of_neg (by simp [hfires])]
        rfl
      rw [hnone, checkBracket_idle hfires]
      simp only [hsame, ih hrest hlevels]
      simp
    | true =>
      rw [SimulatedOrder.fires, Bool.and_eq_true] at hfires
      obtain ⟨heligible, hsome⟩ := hfires
      obtain ⟨trigger, htrigger⟩ := Option.isSome_iff_exists.mp hsome
      have hopen := (hcan o List.mem_cons_self).eligible heligible
      have hpos : ∀ f ∈ b.bidLevels, 0 < f.2 := fun f hf => (hlevels f hf).1
      have hcall : checkCalls now bestBid b o = [⟨now, b, o, bestBid, trigger⟩] := by
        rw [checkCalls, if_pos heligible, htrigger]
        rfl
      have hleft : (checkBracket now bestBid b o).1.bidLevels = sellDown b.bidLevels
          (o.filled - o.exited) := by
        rw [← ExitCall.bidLevels_run (x := ⟨now, b, o, bestBid, trigger⟩) hopen hpos]
        unfold checkBracket
        rw [if_pos heligible, htrigger]
        rfl
      have hsold : ∀ pre, soldAt bestBid (o :: pre) =
          (o.filled - o.exited) :: soldAt bestBid pre := fun pre => by
        rw [soldAt, List.filter_cons_of_pos (by simp [SimulatedOrder.fires, heligible, htrigger])]
        rfl
      have hlevels' : ∀ f ∈ (checkBracket now bestBid b o).1.bidLevels, 0 < f.2 ∧
          f.1 ≤ bestBid := by
        rw [hleft]
        intro f hf
        obtain ⟨hf0, hmem⟩ := sellDown_subset hpos f hf
        obtain ⟨g, hg, hgf⟩ := List.mem_map.mp hmem
        exact ⟨hf0, hgf ▸ (hlevels g hg).2⟩
      rw [ih hrest hlevels', hcall, List.forall_mem_singleton,
        ExitCall.real_iff (x := ⟨now, b, o, bestBid, trigger⟩) hopen hpos, hleft]
      simp only [hsold, List.foldl_cons]
      refine and_congr ?_ Iff.rfl
      have hmet : ∀ top ∈ b.bidLevels.head?,
          (trigger.metBy o top.1 ↔ ∀ tp ∈ o.tpPrice, tp ≤ bestBid → tp ≤ top.1) := fun top htop =>
        metBy_iff htrigger (hlevels top (List.mem_of_mem_head? htop)).2
      constructor
      · rintro ⟨top, htop, h⟩ -
        exact ⟨top, htop, (hmet top htop).mp h⟩
      · intro h
        obtain ⟨top, htop, h⟩ := h trivial
        exact ⟨top, htop, (hmet top htop).mpr h⟩

end

/-! ## A pass of the monitor -/

/-- **Real exits**: what `monitor_bracket_orders` reports on a reachable book are the results of its
calls, and these are all real if and only if the bids suffice. -/
theorem exits_real_iff {b : ShadowOrderbook} (hb : Reachable b) (now : Time) :
    (b.monitorBracketOrders now).2 =
        ((BookAction.feed .monitorBracketOrders).exitCalls now b).map ExitCall.result ∧
      ((∀ x ∈ (BookAction.feed .monitorBracketOrders).exitCalls now b, x.Real) ↔
        BidsSuffice b) := by
  refine ⟨exitResults_eq (.feed .monitorBracketOrders), ?_⟩
  unfold BookAction.exitCalls BidsSuffice
  cases hbid : b.bestBid with
  | none => simp
  | some bestBid =>
    have hlevels : ∀ f ∈ b.bidLevels, 0 < f.2 ∧ f.1 ≤ bestBid := by
      rintro ⟨p, size⟩ hf
      have hlevel := SortedDict.get?_of_mem_items (List.mem_reverse.mp hf)
      obtain ⟨top, htop, rfl⟩ := Option.map_eq_some_iff.mp hbid
      exact ⟨size_pos_of_reachable hb .bid hlevel,
        (SortedDict.peekLast_eq_some htop).2 p size hlevel⟩
    have hinv := (effects_of_reachable hb).1
    have hreal : (∀ x ∈ monitorCalls now bestBid b b.virtualOrders, x.Real) ↔ _ :=
      monitorCalls_real_iff (fun o ho => canExit_of_ok (hinv.ok o ho)) hlevels
    simpa using hreal

/-- Two orders of ten shares wait to sell from `0.70` on, when `size` are wanted at `0.75`. -/
def twoTakers (size : ℚ) : List (Time × BookAction) :=
  [(0, .feed (.applySnapshot [] [⟨1 / 2, 20, pos_one_half⟩])),
    (1, .place 7 { side := .buy, price := 3 / 5, quantity := 10, tpPrice := some (7 / 10) }),
    (1, .place 8 { side := .buy, price := 3 / 5, quantity := 10, tpPrice := some (7 / 10) }),
    (2, .feed (.applySnapshot [⟨3 / 4, size, pos_three_quarters⟩, ⟨1 / 5, 5, by norm_num⟩] []))]

/-- Both of the orders are served when enough is wanted. -/
theorem exits_real_iff_twoTakers :
    ∃ b, exec bookStep (fun _ _ => True) { tokenId := "up" } (twoTakers 30) = some b ∧
    ((∀ x ∈ (BookAction.feed .monitorBracketOrders).exitCalls 2 b, x.Real) ↔ BidsSuffice b) := by
  have hrun : (exec bookStep (fun _ _ => True) { tokenId := "up" } (twoTakers 30)).isSome =
    true := by decide +kernel
  obtain ⟨b, hb⟩ := Option.isSome_iff_exists.mp hrun
  exact ⟨b, hb, (exits_real_iff (reachable_of_exec hb) 2).2⟩

/-- **An exit that is not real**: the first order takes all that is wanted from `0.70` on, and the
second is sold at `0.20`. -/
theorem unreal_exit : ¬ ∀ (b : ShadowOrderbook) (now : Time), Reachable b →
    ∀ x ∈ (BookAction.feed .monitorBracketOrders).exitCalls now b, x.Real := by
  intro hall
  have hrun : (exec bookStep (fun _ _ => True) { tokenId := "up" } (twoTakers 10)).any (fun b =>
      ((BookAction.feed .monitorBracketOrders).exitCalls 2 b).any fun x =>
        x.book.bestBid == some (1 / 5) && x.order.tpPrice == some
          (7 / 10) && x.trigger == .tp) = true := by
    decide +kernel
  obtain ⟨b, hb, hsold⟩ := (Option.any_eq_true _ _).mp hrun
  obtain ⟨x, hx, hlow⟩ := List.any_eq_true.mp hsold
  simp only [Bool.and_eq_true, beq_iff_eq] at hlow
  obtain ⟨⟨hbid, htp⟩, htrigger⟩ := hlow
  obtain ⟨bid, hbest, hmet⟩ := (hall b 2 (reachable_of_exec hb) x hx).triggered
  rw [htrigger] at hmet
  obtain ⟨tp, htp', hle⟩ := hmet
  rw [hbid, Option.mem_some_iff] at hbest
  rw [htp, Option.mem_some_iff] at htp'
  subst hbest htp'
  norm_num at hle

end PolyArena
