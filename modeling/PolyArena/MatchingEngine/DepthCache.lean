import PolyArena.MatchingEngine.Actions

/-!
# The depth cache

`depth` answers from `_depth_cache` when it has an entry, and each method that changes a ladder is
trusted to clear it.

1. `Frames`: an operation leaves the cache empty, or it leaves the cache and both ladders as they
   are.
2. `frames_apply`: every operation does, queries apart, whatever its arguments.
3. `cached_operate`: after any operations every entry of the cache is what the ladder of its side
   says.
4. `depth_operate`: what `depth` answers is the best levels of the shadow ladder, best first.
-/

namespace PolyArena

/-- One price is better than another on a side. -/
def BookSide.Better : BookSide → ℚ → ℚ → Prop
  | .ask, p, q => p < q
  | .bid, p, q => q < p

namespace ShadowOrderbook

/-- Every entry of the cache is what the ladder of its side says. -/
def Cached (b : ShadowOrderbook) : Prop :=
  ∀ entry ∈ b.depthCache, entry.2 = b.topLevels entry.1.1 entry.1.2

/-- The cache is left empty, or the cache and the ladders are left as they are. -/
def Frames (b b' : ShadowOrderbook) : Prop :=
  b'.depthCache = [] ∨ b'.depthCache = b.depthCache ∧ b'.bids = b.bids ∧ b'.asks = b.asks

section

variable {b b' b'' : ShadowOrderbook} {now : Time} {bid : ℚ} {o : SimulatedOrder}
  {os : List SimulatedOrder} {side : BookSide} {levels : ℕ}

theorem Frames.same (hcache : b'.depthCache = b.depthCache) (hbids : b'.bids = b.bids)
    (hasks : b'.asks = b.asks) : Frames b b' :=
  .inr ⟨hcache, hbids, hasks⟩

theorem Frames.refl (b : ShadowOrderbook) : Frames b b := .same rfl rfl rfl

theorem Frames.cleared (h : b'.depthCache = []) : Frames b b' := .inl h

theorem Frames.trans (h : Frames b b') (h' : Frames b' b'') : Frames b b'' := by
  rcases h' with h' | ⟨hcache, hbids, hasks⟩
  · exact .cleared h'
  · rcases h with h | ⟨hcache', hbids', hasks'⟩
    · exact .cleared (hcache.trans h)
    · exact .same (hcache.trans hcache') (hbids.trans hbids') (hasks.trans hasks')

theorem topLevels_congr (hbids : b'.bids = b.bids) (hasks : b'.asks = b.asks) :
    b'.topLevels side levels = b.topLevels side levels := by
  unfold topLevels
  rw [hbids, hasks]

/-- An operation that frames the ladders keeps the cache true. -/
theorem Cached.frames (h : Cached b) (hframes : Frames b b') : Cached b' := by
  intro entry hentry
  rcases hframes with hnil | ⟨hcache, hbids, hasks⟩
  · rw [hnil] at hentry
    exact absurd hentry List.not_mem_nil
  · rw [hcache] at hentry
    rw [topLevels_congr hbids hasks]
    exact h entry hentry

/-! ## The operations -/

theorem depthCache_applyChange (changes : List FeedChange) :
    (changes.foldl applyChange b).depthCache = b.depthCache := by
  induction changes generalizing b with
  | nil => rfl
  | cons ch changes ih =>
    refine ih.trans ?_
    unfold applyChange
    cases ch.side <;> rfl

theorem frames_applyChanges (changes : List FeedChange) : Frames b (b.applyChanges now changes) :=
  .cleared (depthCache_applyChange (b := { b with depthCache := [] }) changes)

theorem frames_collect : Frames b b.collectStateChanges.1 := .same rfl rfl rfl

theorem frames_matchAndCancel : Frames b (matchAndCancel now b o).1 := by
  refine .cleared ?_
  unfold matchAndCancel matchOrder
  dsimp only
  split <;> rfl

theorem frames_matchOrders : Frames b (matchOrders now b os).1 := by
  induction os generalizing b with
  | nil => exact .refl b
  | cons o os ih =>
    unfold matchOrders
    dsimp only
    split
    · exact ih
    · exact frames_matchAndCancel.trans ih

theorem frames_matchPass : Frames b (b.matchPass now) := by
  have hexpired : Frames b (b.passBook now) := .cleared rfl
  unfold matchPass
  dsimp only
  split
  · exact hexpired
  · refine hexpired.trans ?_
    exact Frames.trans frames_matchOrders (.same rfl rfl rfl)

theorem frames_cleanup : Frames b (b.cleanup now) := by
  unfold cleanup
  split <;> exact .same rfl rfl rfl

theorem frames_runMatching : Frames b (b.runMatching now).1 :=
  (frames_matchPass.trans frames_collect).trans frames_cleanup

theorem frames_checkBracket : Frames b (checkBracket now bid b o).1 := by
  unfold checkBracket
  split
  · split
    · exact .refl b
    · exact .cleared rfl
  · exact .refl b

theorem frames_checkNewBracket : Frames b (checkNewBracket now b o).1 := by
  unfold checkNewBracket
  split
  · exact .refl b
  · exact frames_checkBracket

theorem frames_monitorOrders : Frames b (monitorOrders now bid b os).1 := by
  induction os generalizing b with
  | nil => exact .refl b
  | cons o os ih => exact frames_checkBracket.trans ih

theorem frames_monitor : Frames b (b.monitorBracketOrders now).1 := by
  unfold monitorBracketOrders
  split
  · exact .refl b
  · exact Frames.trans frames_monitorOrders (.same rfl rfl rfl)

theorem frames_forceClose (id : OrderId) : Frames b (b.forceCloseAtMarket now id).1 := by
  unfold forceCloseAtMarket
  split
  · exact .refl b
  · split
    · exact .refl b
    · dsimp only
      split
      · exact .refl b
      · exact .cleared rfl

theorem frames_placeVirtualOrder (id : OrderId) (r : OrderRequest) :
    Frames b (b.placeVirtualOrder now id r).book := by
  have hplaced : Frames b { b with history := .placed id :: b.history } := .same rfl rfl rfl
  have hentered : Frames b (b.enterOrder now id r).1 :=
    ((hplaced.trans frames_matchAndCancel).trans frames_checkNewBracket).trans (.same rfl rfl rfl)
  exact hentered.trans frames_collect

theorem frames_placePrefilled (id : OrderId) (r : PrefilledRequest) :
    Frames b (b.placePrefilledBracketOrder now id r).book := by
  have hplaced : Frames b
      { b with history := .prefill id r.avgEntryPrice r.filled :: .placed id :: b.history } :=
    .same rfl rfl rfl
  exact (hplaced.trans frames_checkNewBracket).trans (.same rfl rfl rfl)

theorem frames_cancelOrder (id : OrderId) : Frames b (b.cancelOrder id).1 := by
  unfold ShadowOrderbook.cancelOrder
  split
  · exact .refl b
  · split
    · exact .refl b
    · exact .same rfl rfl rfl

theorem frames_expireAllPending : Frames b (b.expireAllPending now).1 := by
  unfold expireAllPending
  dsimp only
  split <;> exact .same rfl rfl rfl

theorem frames_feedOp (op : FeedOp) : Frames b (op.apply now b).1 := by
  cases op with
  | applySnapshot bids asks => exact .cleared rfl
  | applyChanges changes => exact frames_applyChanges changes
  | recordTrade price size side => exact .same rfl rfl rfl
  | touch => exact .same rfl rfl rfl
  | runMatching => exact frames_runMatching
  | monitorBracketOrders => exact frames_monitor
  | expireAllPending => exact frames_expireAllPending
  | expireBook => exact .cleared rfl
  | handleMarketResolved => exact .same rfl rfl rfl
  | shutdownBook => exact .same rfl rfl rfl

/-! ## Queries -/

/-- What a query answers is what the ladder says, and so is what it caches. -/
theorem Cached.depth (h : Cached b) (side : BookSide) (levels : ℕ) :
    (b.depth side levels).1 = b.topLevels side levels ∧ Cached (b.depth side levels).2 := by
  unfold ShadowOrderbook.depth
  cases hlookup : b.depthCache.lookup (side, levels) with
  | some cached =>
    obtain ⟨before, after, hcache, -⟩ := List.lookup_eq_some_iff.mp hlookup
    have hmem : ((side, levels), cached) ∈ b.depthCache := by
      rw [hcache]
      exact List.mem_append_right _ List.mem_cons_self
    exact ⟨h _ hmem, h⟩
  | none =>
    refine ⟨rfl, fun entry hentry => ?_⟩
    rcases List.mem_cons.mp hentry with rfl | hentry
    · rfl
    · exact h entry hentry

/-- **Every operation** frames the ladders or keeps the cache as a query does. -/
theorem Cached.apply (h : Cached b) (a : BookAction) : Cached (a.apply now b) := by
  cases a with
  | feed op => exact h.frames (frames_feedOp op)
  | place id r => exact h.frames (frames_placeVirtualOrder id r)
  | placePrefilled id r => exact h.frames (frames_placePrefilled id r)
  | forceClose id => exact h.frames (frames_forceClose id)
  | cancelOrder id => exact h.frames (frames_cancelOrder id)
  | cancelAllVirtual => exact h.frames (.same rfl rfl rfl)
  | expirePendingOrders => exact h.frames (.same rfl rfl rfl)
  | seedLastReported id filled status => exact h.frames (.same rfl rfl rfl)
  | registerStateChangeCallback => exact h.frames (.same rfl rfl rfl)
  | depth side levels => exact (h.depth side levels).2

/-! ## Runs -/

/-- The book after operations with any arguments, each at its instant. -/
def operate (b : ShadowOrderbook) (xs : List (Time × BookAction)) : ShadowOrderbook :=
  xs.foldl (fun b x => x.2.apply x.1 b) b

theorem cached_operate {xs : List (Time × BookAction)} (h : Cached b) : Cached (b.operate xs) := by
  unfold operate
  induction xs generalizing b with
  | nil => exact h
  | cons x xs ih => exact ih (h.apply x.2)

/-- The price levels of a side, best first: asks ascending, bids descending. -/
def bestFirst (b : ShadowOrderbook) : BookSide → List (ℚ × ℚ)
  | .ask => b.asks.items
  | .bid => b.bids.items.reverse

theorem bestFirst_sorted (side : BookSide) :
    (b.bestFirst side).Pairwise fun x y => side.Better x.1 y.1 := by
  cases side with
  | ask => exact b.asks.sorted
  | bid => exact List.pairwise_reverse.mpr b.bids.sorted

theorem topLevels_eq (h : 1 ≤ levels) :
    b.topLevels side levels = (b.bestFirst side).take levels := by
  cases side with
  | ask => rfl
  | bid => exact if_neg (by omega)

end

/-- **The depth cache is never stale.** After any operations on a new book, `depth` answers the best
levels of the shadow ladder as it is, best first. -/
theorem depth_operate (tokenId : String) (xs : List (Time × BookAction)) (side : BookSide)
    (levels : ℕ) (h : 1 ≤ levels) :
    let b := operate { tokenId := tokenId } xs
    (b.depth side levels).1 = (b.bestFirst side).take levels ∧
      ((b.depth side levels).1.Pairwise fun x y => side.Better x.1 y.1) := by
  intro b
  have hcached : Cached b := cached_operate fun entry hentry => absurd hentry List.not_mem_nil
  have hdepth : (b.depth side levels).1 = (b.bestFirst side).take levels :=
    (hcached.depth side levels).1.trans (topLevels_eq h)
  refine ⟨hdepth, ?_⟩
  rw [hdepth]
  exact (bestFirst_sorted side).sublist (List.take_sublist levels _)

/-- A query of the asks, a BUY that takes of the best of them, and the query again. -/
theorem depth_operate_buy :
    let xs : List (Time × BookAction) := [
      (0, .feed (.applySnapshot [] [⟨1 / 2, 10, by norm_num⟩, ⟨3 / 5, 4, by norm_num⟩])),
      (1, .depth .ask 1),
      (2, .place 7 { side := .buy, price := 1 / 2, quantity := 6 })]
    let b := operate { tokenId := "up" } xs
    (b.depth .ask 1).1 = (b.bestFirst .ask).take 1 ∧
      ((b.depth .ask 1).1.Pairwise fun x y => BookSide.ask.Better x.1 y.1) :=
  depth_operate _ _ _ _ (by decide)

end ShadowOrderbook

end PolyArena
