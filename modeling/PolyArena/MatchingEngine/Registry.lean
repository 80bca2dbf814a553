import PolyArena.MatchingEngine.Book

/-!
# The registry of books

`MatchingEngine` (`matching_engine.py`): the books by token, the tokens that are valid, and the
handlers of the feed's events.  A book is created when its token is first seen.
-/

namespace PolyArena

open ShadowOrderbook

/-- One side of a `best_bid_ask` event; the size may be missing. -/
structure Quote where
  price : ℚ
  price_pos : 0 < price
  size : Option ℚ

/-- An event of the feed, without its `asset_id`. -/
inductive FeedEvent
  | book (bids asks : List FeedLevel)
  | priceChange (changes : List FeedChange)
  | bestBidAsk (bid ask : Option Quote)
  | lastTradePrice (price size : ℚ) (side : String)
  | marketResolved

/-- What the engines tell their callers: bracket exits, state-change events, and the `ValueError` of
a placement. -/
inductive EngineOutput
  | bracketExit (r : BracketFillResult)
  | stateChange (e : OrderStateChangeEvent)
  | valueError
  deriving DecidableEq

/-- What a placement tells. -/
def ShadowOrderbook.Placement.outputs (p : Placement) : List EngineOutput :=
  p.events.map .stateChange ++ p.bracketResults.map .bracketExit

/-- The dictionary of books is a function of the token. -/
structure MatchingEngine where
  books : String → Option ShadowOrderbook := fun _ => none
  running : Bool := true
  validTokenIds : List String := []

namespace MatchingEngine

/-- `get_book`. -/
def getBook (m : MatchingEngine) (tokenId : String) : Option ShadowOrderbook := m.books tokenId

/-- The book that `get_or_create_book` returns. -/
def getOrCreateBook (m : MatchingEngine) (tokenId : String) : ShadowOrderbook :=
  (m.getBook tokenId).getD { tokenId := tokenId }

/-- The engine after work on a book. -/
def putBook (m : MatchingEngine) (tokenId : String) (b : ShadowOrderbook) : MatchingEngine :=
  { m with books := fun t => if t = tokenId then some b else m.books t }

/-- `is_valid_token`: as long as none is registered, every token is. -/
def isValidToken (m : MatchingEngine) (tokenId : String) : Bool :=
  m.validTokenIds.isEmpty || tokenId ∈ m.validTokenIds

/-- `add_valid_token`. -/
def addValidToken (m : MatchingEngine) (tokenId : String) : MatchingEngine :=
  { m with validTokenIds := tokenId :: m.validTokenIds }

section

variable (now : Time) (m : MatchingEngine) (assetId : String)

/-- `_handle_book`. -/
def handleBook (bids asks : List FeedLevel) : MatchingEngine × List EngineOutput :=
  let book := m.getOrCreateBook assetId
  let book := book.applySnapshot now bids asks
  let (book, events) := book.runMatching now
  let (book, exits) := book.monitorBracketOrders now
  (m.putBook assetId book, events.map .stateChange ++ exits.map .bracketExit)

/-- `_handle_price_change`. -/
def handlePriceChange (changes : List FeedChange) : MatchingEngine × List EngineOutput :=
  let book := m.getOrCreateBook assetId
  let book := book.applyChanges now changes
  let (book, events) := book.runMatching now
  let (book, exits) := book.monitorBracketOrders now
  (m.putBook assetId book, events.map .stateChange ++ exits.map .bracketExit)

/-- The changes of `_handle_best_bid_ask`: a size that is missing is that of the current best level,
when the quote is better. -/
def bestBidAskChanges (book : ShadowOrderbook) (bid ask : Option Quote) : List FeedChange :=
  let bidChange : List FeedChange :=
    match bid with
    | none => []
    | some ⟨price, hprice, some size⟩ => [⟨⟨price, size, hprice⟩, .bid⟩]
    | some ⟨price, hprice, none⟩ =>
      match book.bids.peekLast with
      | none => []
      | some (bestPrice, bestSize) =>
        if bestPrice < price ∧ 0 < bestSize then [⟨⟨price, bestSize, hprice⟩, .bid⟩] else []
  let askChange : List FeedChange :=
    match ask with
    | none => []
    | some ⟨price, hprice, some size⟩ => [⟨⟨price, size, hprice⟩, .ask⟩]
    | some ⟨price, hprice, none⟩ =>
      match book.asks.peekFirst with
      | none => []
      | some (bestPrice, bestSize) =>
        if price < bestPrice ∧ 0 < bestSize then [⟨⟨price, bestSize, hprice⟩, .ask⟩] else []
  bidChange ++ askChange

/-- `_handle_best_bid_ask`. -/
def handleBestBidAsk (bid ask : Option Quote) : MatchingEngine × List EngineOutput :=
  let book := m.getOrCreateBook assetId
  let (book, events) :=
    if bid.isSome ∨ ask.isSome then
      let changes := bestBidAskChanges book bid ask
      if changes.isEmpty then (book.touch now, [])
        else (book.applyChanges now changes).runMatching now
    else (book, [])
  let (book, exits) := book.monitorBracketOrders now
  (m.putBook assetId book, events.map .stateChange ++ exits.map .bracketExit)

/-- `_handle_last_trade`. -/
def handleLastTrade (price size : ℚ) (side : String) : MatchingEngine × List EngineOutput :=
  let book := m.getOrCreateBook assetId
  let book := book.recordTrade now price size side
  let (book, exits) := book.monitorBracketOrders now
  (m.putBook assetId book, exits.map .bracketExit)

/-- `_handle_market_resolved`. -/
def handleMarketResolved : MatchingEngine × List EngineOutput :=
  match m.getBook assetId with
  | none => (m, [])
  | some book => (m.putBook assetId book.handleMarketResolved, [])

/-- `dispatch_event`. -/
def dispatchEvent (event : FeedEvent) : MatchingEngine × List EngineOutput :=
  if m.running then
    match event with
    | .book bids asks => m.handleBook now assetId bids asks
    | .priceChange changes => m.handlePriceChange now assetId changes
    | .bestBidAsk bid ask => m.handleBestBidAsk now assetId bid ask
    | .lastTradePrice price size side => m.handleLastTrade now assetId price size side
    | .marketResolved => m.handleMarketResolved assetId
  else (m, [])

/-- `place_virtual_order`, under the fresh id `orderId`. -/
def placeVirtualOrder (orderId : OrderId) (r : OrderRequest) : MatchingEngine × List EngineOutput :=
  if m.isValidToken assetId then
    let book := m.getOrCreateBook assetId
    if book.expired then (m.putBook assetId book, [.valueError])
    else
      let p := book.placeVirtualOrder now orderId r
      (m.putBook assetId p.book, p.outputs)
  else (m, [.valueError])

/-- `place_prefilled_bracket_order`. -/
def placePrefilledBracketOrder (orderId : OrderId) (r : PrefilledRequest) :
    MatchingEngine × List EngineOutput :=
  if m.isValidToken assetId then
    let book := m.getOrCreateBook assetId
    if book.expired then (m.putBook assetId book, [.valueError])
    else
      let p := book.placePrefilledBracketOrder now orderId r
      (m.putBook assetId p.book, p.outputs)
  else (m, [.valueError])

end

end MatchingEngine

end PolyArena
