import PolyArena.MatchingEngine.Actions
import PolyArena.OrderConsumer.SessionDispatch

/-!
# The top of the book after a `best_bid_ask` event

An event that has both sizes is put into the ladders as two levels; what else is in the ladders
stays.

1. `applyBestBidAsk_sized`, `handleBestBidAsk_sized`: the handlers match and monitor `topBook`.
2. `topIs_topBook_iff`: the event's quotes are the top of `topBook` exactly when no level was better
   than them.
-/

namespace PolyArena

open ShadowOrderbook

/-- A side of a `best_bid_ask` event that gives a positive size. -/
structure SizedQuote where
  price : ℚ
  price_pos : 0 < price
  size : ℚ
  size_pos : 0 < size

namespace SizedQuote

def toQuote (q : SizedQuote) : Quote := ⟨q.price, q.price_pos, some q.size⟩

/-- The quote as an entry of `changes`. -/
def change (q : SizedQuote) (side : BookSide) : FeedChange := ⟨⟨q.price, q.size, q.price_pos⟩, side⟩

end SizedQuote

namespace ShadowOrderbook

/-- Every bid is below every ask. -/
def Uncrossed (b : ShadowOrderbook) : Prop := ∀ p ∈ b.bids.keys, ∀ q ∈ b.asks.keys, p < q

instance (b : ShadowOrderbook) : Decidable b.Uncrossed := by
  unfold Uncrossed
  infer_instance

/-- The best levels of an uncrossed book. -/
structure TopIs (b : ShadowOrderbook) (bid ask : ℚ) : Prop where
  bestBid : b.bestBid = some bid
  bestAsk : b.bestAsk = some ask
  uncrossed : b.Uncrossed

/-- The book after the event is applied and before matching. -/
def topBook (now : Time) (bid ask : SizedQuote) (b : ShadowOrderbook) : ShadowOrderbook :=
  b.applyChanges now [bid.change .bid, ask.change .ask]

section

variable {b : ShadowOrderbook} {now : Time} {bid ask : SizedQuote}

theorem bids_topBook : (b.topBook now bid ask).bids = b.bids.set bid.price bid.size :=
  if_neg (not_le.mpr bid.size_pos)

theorem asks_topBook : (b.topBook now bid ask).asks = b.asks.set ask.price ask.size :=
  if_neg (not_le.mpr ask.size_pos)

theorem bestBid_topBook_iff :
    (b.topBook now bid ask).bestBid = some bid.price ↔ ∀ p ∈ b.bids.keys, p ≤ bid.price := by
  unfold bestBid
  rw [SortedDict.peekLast_key_iff, bids_topBook]
  constructor
  · rintro ⟨-, hmax⟩ p hp
    exact hmax p (SortedDict.mem_keys_set.mpr (.inr hp))
  · intro hmax
    refine ⟨SortedDict.mem_keys_set.mpr (.inl rfl), fun p hp => ?_⟩
    rcases SortedDict.mem_keys_set.mp hp with rfl | hp
    · exact le_rfl
    · exact hmax p hp

theorem bestAsk_topBook_iff :
    (b.topBook now bid ask).bestAsk = some ask.price ↔ ∀ p ∈ b.asks.keys, ask.price ≤ p := by
  unfold bestAsk
  rw [SortedDict.peekFirst_key_iff, asks_topBook]
  constructor
  · rintro ⟨-, hmin⟩ p hp
    exact hmin p (SortedDict.mem_keys_set.mpr (.inr hp))
  · intro hmin
    refine ⟨SortedDict.mem_keys_set.mpr (.inl rfl), fun p hp => ?_⟩
    rcases SortedDict.mem_keys_set.mp hp with rfl | hp
    · exact le_rfl
    · exact hmin p hp

/-- A book whose best levels are in order is uncrossed. -/
theorem uncrossed_of_best {p q : ℚ} (hbid : b.bestBid = some p) (hask : b.bestAsk = some q)
    (hpq : p < q) :
    b.Uncrossed := by
  intro p' hp' q' hq'
  have hmax := (SortedDict.peekLast_key_iff.mp hbid).2 p' hp'
  have hmin := (SortedDict.peekFirst_key_iff.mp hask).2 q' hq'
  exact (hmax.trans_lt hpq).trans_le hmin

end

end ShadowOrderbook

/-! ## The handlers -/

section

variable {now : Time} {b : ShadowOrderbook} {bid ask : SizedQuote}

/-- `_apply_best_bid_ask` matches the book with the event in it. -/
theorem applyBestBidAsk_sized :
    (SessionEngine.applyBestBidAsk now b (some bid.toQuote) (some ask.toQuote)).1 =
      (((b.topBook now bid ask).runMatching now).1.monitorBracketOrders now).1 :=
  rfl

/-- So does `_handle_best_bid_ask`. -/
theorem handleBestBidAsk_sized (m : MatchingEngine) (assetId : String) :
    (m.handleBestBidAsk now assetId (some bid.toQuote) (some ask.toQuote)).1 =
      m.putBook assetId
        ((((m.getOrCreateBook assetId).topBook now bid ask).runMatching now
          ).1.monitorBracketOrders now).1 :=
  rfl

end

/-- **The event is the top of the book exactly when nothing in the book was better.** A level that
the event passes over, a bid above its bid or an ask below its ask, stays in the ladder as the best
one. -/
theorem topIs_topBook_iff (now : Time) (b : ShadowOrderbook) (bid ask : SizedQuote)
    (hspread : bid.price < ask.price) :
    (b.topBook now bid ask).TopIs bid.price ask.price ↔
      (∀ p ∈ b.bids.keys, p ≤ bid.price) ∧ ∀ p ∈ b.asks.keys, ask.price ≤ p := by
  constructor
  · intro h
    exact ⟨bestBid_topBook_iff.mp h.bestBid, bestAsk_topBook_iff.mp h.bestAsk⟩
  · rintro ⟨hbids, hasks⟩
    have hbid : (b.topBook now bid ask).bestBid = some bid.price := bestBid_topBook_iff.mpr hbids
    have hask : (b.topBook now bid ask).bestAsk = some ask.price := bestAsk_topBook_iff.mpr hasks
    exact ⟨hbid, hask, uncrossed_of_best hbid hask hspread⟩

/-- One bid at `0.50` and one ask at `0.60`. -/
def spreadBook : ShadowOrderbook :=
  ({ tokenId := "up" } : ShadowOrderbook).applySnapshot 0 [⟨1 / 2, 10, pos_one_half⟩]
    [⟨3 / 5, 10, pos_three_fifths⟩]

/-- A quote of five shares. -/
def fiveAt (price : ℚ) (h : 0 < price) : SizedQuote := ⟨price, h, 5, by norm_num⟩

/-- Quotes inside the spread become the top. -/
theorem topIs_topBook_inside :
    (fiveAt (53 / 100) (by norm_num)).price < (fiveAt (55 / 100) (by norm_num)).price ∧
      ((spreadBook.topBook 1 (fiveAt (53 / 100) (by norm_num))
          (fiveAt (55 / 100) (by norm_num))).TopIs
          (53 / 100) (55 / 100) ↔
        (∀ p ∈ spreadBook.bids.keys, p ≤ 53 / 100) ∧ ∀ p ∈ spreadBook.asks.keys, 55 / 100 ≤ p) :=
  ⟨by decide +kernel,
    topIs_topBook_iff 1 spreadBook (fiveAt (53 / 100) (by norm_num))
      (fiveAt (55 / 100) (by norm_num))
      (by decide +kernel)⟩

/-- The market falls to `0.44` and `0.45`: the bid at `0.50` stays, above the new ask. -/
theorem topBook_crossed : ∃ b : ShadowOrderbook, Reachable b ∧ b.Uncrossed ∧
    ∃ bid ask : SizedQuote, bid.price < ask.price ∧
      (b.topBook 1 bid ask).bestBid = some (1 / 2) ∧ bid.price = 44 / 100 ∧
      ¬ (b.topBook 1 bid ask).Uncrossed ∧ ¬ (b.topBook 1 bid ask).TopIs bid.price ask.price := by
  have hexec : exec bookStep (fun _ _ => True) { tokenId := "up" }
      [(0, .feed (.applySnapshot [⟨1 / 2, 10, by norm_num⟩] [⟨3 / 5, 10, by norm_num⟩]))] =
        some spreadBook := rfl
  have hcrossed : ¬ (spreadBook.topBook 1 (fiveAt (44 / 100) (by norm_num))
      (fiveAt (45 / 100) (by norm_num))).Uncrossed := by decide +kernel
  exact ⟨spreadBook, reachable_of_exec hexec, by decide +kernel, fiveAt (44 / 100) (by norm_num),
    fiveAt (45 / 100) (by norm_num),
    by decide +kernel, by decide +kernel, rfl, hcrossed, fun h => hcrossed h.uncrossed⟩

end PolyArena
