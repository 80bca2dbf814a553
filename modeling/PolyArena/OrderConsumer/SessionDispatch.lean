import PolyArena.Lib.Transducer
import PolyArena.MatchingEngine.Registry
import PolyArena.OrderConsumer.Session

/-!
# Sessions and the registry

`SessionManager.dispatch_event` and the handlers of `SessionEngine` do for one session what the
older `MatchingEngine` does for all books.

1. `dispatchEvent_eq`: a handler of the registry does to the book of the token what the session's
   does.
2. `InAgreement` relates a manager with one session to a registry; `agreement_step` is the step
   lemma.
3. `session_refines_registry`: from the same inputs the two get the same book and give the same
   outputs, when the session lists the token for one direction.
-/

namespace PolyArena

open ShadowOrderbook

/-! ## Dispatch -/

namespace SessionEngine

/-- `token_ids`: the tokens by direction. -/
def tokenIds (s : SessionEngine) : List String := [Direction.up, .down].filterMap s.tokens

/-- The changes of `_apply_best_bid_ask`. -/
def bestBidAskChanges (book : ShadowOrderbook) (bid ask : Option Quote) : List FeedChange :=
  let bidChange : List FeedChange :=
    match bid with
    | none => []
    | some ⟨price, hprice, some size⟩ => [⟨⟨price, size, hprice⟩, .bid⟩]
    | some ⟨price, hprice, none⟩ =>
      match book.bids.peekLast with
      | none => []
      | some (bestPrice, bestSize) =>
        if bestPrice < price ∧ 0 < bestSize then [⟨⟨price, bestSize, hprice⟩, .bid⟩] else []
  let askChange : List FeedChange :=
    match ask with
    | none => []
    | some ⟨price, hprice, some size⟩ => [⟨⟨price, size, hprice⟩, .ask⟩]
    | some ⟨price, hprice, none⟩ =>
      match book.asks.peekFirst with
      | none => []
      | some (bestPrice, bestSize) =>
        if price < bestPrice ∧ 0 < bestSize then [⟨⟨price, bestSize, hprice⟩, .ask⟩] else []
  bidChange ++ askChange

/-- `_apply_best_bid_ask`. -/
def applyBestBidAsk (now : Time) (book : ShadowOrderbook) (bid ask : Option Quote) :
    ShadowOrderbook × List EngineOutput :=
  let (book, events) :=
    if bid.isSome ∨ ask.isSome then
      let changes := bestBidAskChanges book bid ask
      if changes.isEmpty then (book.touch now, [])
        else (book.applyChanges now changes).runMatching now
    else (book, [])
  let (book, exits) := book.monitorBracketOrders now
  (book, events.map .stateChange ++ exits.map .bracketExit)

/-- The branches of `dispatch_ws_event` on the book it found; `market_resolved` is none of them. -/
def dispatchToBook (now : Time) (book : ShadowOrderbook) :
    FeedEvent → ShadowOrderbook × List EngineOutput
  | .book bids asks =>
    let (book, events) := (book.applySnapshot now bids asks).runMatching now
    let (book, exits) := book.monitorBracketOrders now
    (book, events.map .stateChange ++ exits.map .bracketExit)
  | .priceChange changes =>
    let (book, events) := (book.applyChanges now changes).runMatching now
    let (book, exits) := book.monitorBracketOrders now
    (book, events.map .stateChange ++ exits.map .bracketExit)
  | .bestBidAsk bid ask => applyBestBidAsk now book bid ask
  | .lastTradePrice price size side =>
    let (book, exits) := (book.recordTrade now price size side).monitorBracketOrders now
    (book, exits.map .bracketExit)
  | .marketResolved => (book, [])

/-- `dispatch_ws_event`. -/
def dispatchWsEvent (now : Time) (s : SessionEngine) (assetId : String) (event : FeedEvent) :
    SessionEngine × List EngineOutput :=
  if s.state = .archived then (s, [])
  else
    match s.getBookForToken assetId with
    | none => (s, [])
    | some (dir, book) =>
      let r := dispatchToBook now book event
      (s.setBook dir r.1, r.2)

end SessionEngine

namespace SessionManager

/-- `_token_index`: a session is listed once for each direction that has the token. -/
def tokenIndex (m : SessionManager) (tokenId : String) : List SessionId :=
  m.engines.rows.flatMap fun s => (s.tokenIds.filter (· = tokenId)).map fun _ => s.sessionId

section

variable (now : Time) (assetId : String)

/-- The loop body of `dispatch_event`. -/
def dispatchToSession (event : FeedEvent) (m : SessionManager) (id : SessionId) :
    SessionManager × List EngineOutput :=
  match m.getSession id with
  | none => (m, [])
  | some s =>
    let r := s.dispatchWsEvent now assetId event
    (⟨m.engines.put r.1⟩, r.2)

/-- The loop body of `_handle_market_resolved`. -/
def resolveSession (m : SessionManager) (id : SessionId) : SessionManager × List EngineOutput :=
  match m.getSession id with
  | none => (m, [])
  | some s =>
    match s.getBookForToken assetId with
    | none => (m, [])
    | some (dir, book) => (m.setBook s dir book.handleMarketResolved, [])

/-- `dispatch_event`. -/
def dispatchEvent (m : SessionManager) (event : FeedEvent) : SessionManager × List EngineOutput :=
  match event with
  | .marketResolved => runOutputs (resolveSession assetId) m (m.tokenIndex assetId)
  | event => runOutputs (dispatchToSession now assetId event) m (m.tokenIndex assetId)

/-- `place_virtual_order` of the session, under the fresh id `orderId`. -/
def placeVirtualOrder (id : SessionId) (m : SessionManager) (orderId : OrderId) (r : OrderRequest) :
    SessionManager × List EngineOutput :=
  match m.getSession id with
  | none => (m, [])
  | some s =>
    match s.bookForOrder assetId with
    | none => (m, [.valueError])
    | some (dir, book) =>
      let p := book.placeVirtualOrder now orderId r
      (m.setBook s dir p.book, p.outputs)

/-- `place_prefilled_bracket_order` of the session. -/
def placePrefilledBracketOrder (id : SessionId) (m : SessionManager) (orderId : OrderId)
    (r : PrefilledRequest) : SessionManager × List EngineOutput :=
  match m.getSession id with
  | none => (m, [])
  | some s =>
    match s.bookForPrefilled assetId with
    | none => (m, [.valueError])
    | some (dir, book) =>
      let p := book.placePrefilledBracketOrder now orderId r
      (m.setBook s dir p.book, p.outputs)

end

end SessionManager

/-! ## The two machines -/

/-- What is asked of either engine, about one token. -/
inductive EngineInput
  | event (e : FeedEvent)
  | place (orderId : OrderId) (r : OrderRequest)
  | placePrefilled (orderId : OrderId) (r : PrefilledRequest)

/-- The session engine takes an input. -/
def sessionStep (id : SessionId) (token : String) (m : SessionManager) (x : Time × EngineInput) :
    SessionManager × List EngineOutput :=
  match x.2 with
  | .event e => m.dispatchEvent x.1 token e
  | .place orderId r => m.placeVirtualOrder x.1 token id orderId r
  | .placePrefilled orderId r => m.placePrefilledBracketOrder x.1 token id orderId r

/-- The registry takes an input. -/
def registryStep (token : String) (e : MatchingEngine) (x : Time × EngineInput) :
    MatchingEngine × List EngineOutput :=
  match x.2 with
  | .event ev => e.dispatchEvent x.1 token ev
  | .place orderId r => e.placeVirtualOrder x.1 token orderId r
  | .placePrefilled orderId r => e.placePrefilledBracketOrder x.1 token orderId r

section

variable {m : SessionManager} {s : SessionEngine} {e : MatchingEngine} {token : String} {now : Time}
  {b b' : ShadowOrderbook} {dir : Direction} {ev : FeedEvent} {id : SessionId}

/-! ## Registries -/

@[simp] theorem getOrCreateBook_putBook : (e.putBook token b).getOrCreateBook token = b := by
  simp [MatchingEngine.getOrCreateBook, MatchingEngine.getBook, MatchingEngine.putBook]

/-- **The handlers agree**: the registry does to the book what the session does. -/
theorem dispatchEvent_eq (hrunning : e.running = true) (hne : ev ≠ .marketResolved) :
    e.dispatchEvent now token ev =
      (e.putBook token (SessionEngine.dispatchToBook now (e.getOrCreateBook token) ev).1,
        (SessionEngine.dispatchToBook now (e.getOrCreateBook token) ev).2) := by
  unfold MatchingEngine.dispatchEvent
  rw [if_pos hrunning]
  cases ev with
  | marketResolved => exact absurd rfl hne
  | _ => rfl

/-! ## Sessions -/

theorem getBookForToken_setBook (h : s.getBookForToken token = some (dir, b)) :
    (s.setBook dir b').getBookForToken token = some (dir, b') := by
  unfold SessionEngine.getBookForToken at h ⊢
  obtain ⟨d, hd, h⟩ := Option.bind_eq_some_iff.mp h
  obtain ⟨x, hx, h⟩ := Option.map_eq_some_iff.mp h
  cases h
  have hdir : (s.setBook dir b').tokenToDir token = some dir := hd
  rw [hdir]
  simp [SessionEngine.setBook, hx]

/-- What the token index lists does not depend on the books. -/
theorem tokenIndex_setBook (hs : m.getSession s.sessionId = some s) :
    (m.setBook s dir b).tokenIndex token = m.tokenIndex token := by
  let entries (r : SessionEngine) : List SessionId :=
    (r.tokenIds.filter (· = token)).map fun _ => r.sessionId
  show (m.engines.rows.map _).flatMap entries = m.engines.rows.flatMap entries
  rw [List.flatMap_map]
  refine List.flatMap_congr fun r hr => ?_
  by_cases hkey : r.sessionId = s.sessionId
  · have hsame : r = s := by
      have hget := Table.get_of_mem hr
      rw [hkey] at hget
      exact Option.some.inj (hget.symm.trans hs)
    subst hsame
    exact (congrArg entries (if_pos rfl)).trans (rfl : entries (r.setBook dir b) = entries r)
  · exact congrArg entries (if_neg hkey)

/-- The token is listed once, by an ACTIVE session with the registry's book. -/
structure InAgreement (s : SessionEngine) (token : String) (m : SessionManager)
    (e : MatchingEngine) :
    Prop where
  session : m.getSession s.sessionId = some s
  active : s.state = .active
  listed : m.tokenIndex token = [s.sessionId]
  running : e.running = true
  valid : e.isValidToken token = true
  book : ∃ dir, s.getBookForToken token = some (dir, e.getOrCreateBook token)

/-- The registry looked its book up. -/
theorem InAgreement.putSame (h : InAgreement s token m e) :
    InAgreement s token m (e.putBook token (e.getOrCreateBook token)) where
  session := h.session
  active := h.active
  listed := h.listed
  running := h.running
  valid := h.valid
  book := by
    rw [getOrCreateBook_putBook]
    exact h.book

/-- After the same work on the book. -/
theorem InAgreement.setBook (h : InAgreement s token m e)
    (hb : s.getBookForToken token = some (dir, b)) (b' : ShadowOrderbook) :
    InAgreement (s.setBook dir b') token (m.setBook s dir b')
      (e.putBook token b') where
  session := Table.get_put_self (a := s.setBook dir b') h.session
  active := h.active
  listed := (tokenIndex_setBook h.session).trans h.listed
  running := h.running
  valid := h.valid
  book := ⟨dir, by rw [getOrCreateBook_putBook]; exact getBookForToken_setBook hb⟩

/-- The two engines are in agreement, whatever work brought the session there. -/
def Agree (id : SessionId) (token : String) (m : SessionManager) (e : MatchingEngine) : Prop :=
  ∃ s, s.sessionId = id ∧ InAgreement s token m e

theorem InAgreement.agree (h : InAgreement s token m e) (hid : s.sessionId = id)
    (hb : s.getBookForToken token = some (dir, b)) (b' : ShadowOrderbook) :
    Agree id token (m.setBook s dir b') (e.putBook token b') :=
  ⟨s.setBook dir b', hid, h.setBook hb b'⟩

/-! ## One input -/

/-- **One event** of the feed. -/
theorem agreement_event (h : Agree id token m e) (now : Time) (ev : FeedEvent) :
    Agree id token (m.dispatchEvent now token ev).1 (e.dispatchEvent now token ev).1 ∧
      (m.dispatchEvent now token ev).2 = (e.dispatchEvent now token ev).2 := by
  obtain ⟨s, hid, h⟩ := h
  obtain ⟨dir, hb⟩ := h.book
  have hlive : s.state ≠ .archived := by rw [h.active]; nofun
  by_cases hres : ev = .marketResolved
  · subst hres
    have hsession : m.dispatchEvent now token .marketResolved =
        (m.setBook s dir (e.getOrCreateBook token).handleMarketResolved, []) := by
      show runOutputs (SessionManager.resolveSession token) m (m.tokenIndex token) = _
      rw [h.listed, runOutputs_singleton, SessionManager.resolveSession, h.session]
      dsimp only
      rw [hb]
    have hregistry : e.dispatchEvent now token .marketResolved = e.handleMarketResolved token := by
      unfold MatchingEngine.dispatchEvent
      rw [if_pos h.running]
    rw [hsession, hregistry]
    unfold MatchingEngine.handleMarketResolved
    cases hbook : e.getBook token with
    | some b =>
      have hsame : e.getOrCreateBook token = b := by
        rw [MatchingEngine.getOrCreateBook, hbook]
        rfl
      rw [hsame]
      exact ⟨h.agree hid hb _, rfl⟩
    | none =>
      -- a book that the registry does not have yet has no orders
      have hsame : (e.getOrCreateBook token).handleMarketResolved = e.getOrCreateBook token := by
        rw [MatchingEngine.getOrCreateBook, hbook]
        rfl
      rw [hsame]
      exact ⟨⟨s.setBook dir _, hid, (h.setBook hb _).session, h.active,
        (h.setBook hb _).listed, h.running, h.valid, dir, getBookForToken_setBook hb⟩, rfl⟩
  · have hsession : m.dispatchEvent now token ev =
        (m.setBook s dir (SessionEngine.dispatchToBook now (e.getOrCreateBook token) ev).1,
          (SessionEngine.dispatchToBook now (e.getOrCreateBook token) ev).2) := by
      have hfan : m.dispatchEvent now token ev =
          runOutputs (SessionManager.dispatchToSession now token ev) m (m.tokenIndex token) := by
        cases ev with
        | marketResolved => exact absurd rfl hres
        | _ => rfl
      rw [hfan, h.listed, runOutputs_singleton, SessionManager.dispatchToSession, h.session]
      dsimp only
      unfold SessionEngine.dispatchWsEvent
      rw [if_neg hlive, hb]
      rfl
    rw [hsession, dispatchEvent_eq h.running hres]
    exact ⟨h.agree hid hb _, rfl⟩

/-- **One placement** of any kind: the two refuse it when the book expired. -/
theorem agreement_place (h : Agree id token m e) (place : ShadowOrderbook → Placement)
    (find : SessionEngine → Option (Direction × ShadowOrderbook))
    (hfind : ∀ s : SessionEngine, s.state = .active →
      find s = (s.getBookForToken token).filter fun b => !b.2.expired) :
    let r := match m.getSession id with
      | none => (m, [])
      | some s =>
        match find s with
        | none => (m, [EngineOutput.valueError])
        | some (dir, book) => (m.setBook s dir (place book).book, (place book).outputs)
    let r' := if e.isValidToken token then
        if (e.getOrCreateBook token).expired then
          (e.putBook token (e.getOrCreateBook token), [EngineOutput.valueError])
        else (e.putBook token (place (e.getOrCreateBook token)).book,
          (place (e.getOrCreateBook token)).outputs)
      else (e, [EngineOutput.valueError])
    Agree id token r.1 r'.1 ∧ r.2 = r'.2 := by
  obtain ⟨s, hid, h⟩ := h
  obtain ⟨dir, hb⟩ := h.book
  rw [← hid, h.session]
  dsimp only
  rw [hfind s h.active, hb, if_pos h.valid]
  by_cases hexpired : (e.getOrCreateBook token).expired = true
  · rw [Option.filter_some_neg (by simp [hexpired]), if_pos hexpired]
    exact ⟨⟨s, rfl, h.putSame⟩, rfl⟩
  · rw [Option.filter_some_pos (by simp [hexpired]), if_neg hexpired]
    exact ⟨h.agree rfl hb _, rfl⟩

/-- **One input.** -/
theorem agreement_step (h : Agree id token m e) (x : Time × EngineInput) :
    Agree id token (sessionStep id token m x).1 (registryStep token e x).1 ∧
      (sessionStep id token m x).2 = (registryStep token e x).2 := by
  obtain ⟨now, input⟩ := x
  cases input with
  | event ev => exact agreement_event h now ev
  | place orderId r =>
    refine agreement_place h (fun book => book.placeVirtualOrder now orderId r)
      (·.bookForOrder token)
      fun s hs => ?_
    unfold SessionEngine.bookForOrder
    rw [if_neg (by rw [hs]; simp)]
  | placePrefilled orderId r =>
    refine agreement_place h (fun book => book.placePrefilledBracketOrder now orderId r)
      (·.bookForPrefilled token) fun s hs => ?_
    unfold SessionEngine.bookForPrefilled
    rw [if_neg (by rw [hs]; nofun)]

/-! ## Sequences of inputs -/

/-- **The session engine refines the registry**: on any events and placements about a token that the
index lists once, for an ACTIVE session, the two end with the same book and tell the same, in the
same order. -/
theorem session_refines_registry (hs : m.getSession id = some s) (hactive : s.state = .active)
    (hlisted : m.tokenIndex token = [id]) (hrunning : e.running = true)
    (hvalid : e.isValidToken token = true)
    (hbook : (s.getBookForToken token).map (·.2) = some (e.getOrCreateBook token))
    (inputs : List (Time × EngineInput)) :
    let r := runOutputs (sessionStep id token) m inputs
    let r' := runOutputs (registryStep token) e inputs
    ((r.1.getSession id).bind (·.getBookForToken token)).map (·.2) =
      some (r'.1.getOrCreateBook token) ∧
      r.2 = r'.2 := by
  have hid : s.sessionId = id := Table.key_of_get hs
  subst hid
  obtain ⟨⟨dir, b⟩, hb, rfl⟩ := Option.map_eq_some_iff.mp hbook
  have hstart : Agree s.sessionId token m e :=
    ⟨s, rfl, hs, hactive, hlisted, hrunning, hvalid, dir, hb⟩
  obtain ⟨⟨s', hid', hend⟩, houts⟩ :=
    runOutputs_simulates (R := Agree s.sessionId token)
      (fun _ _ x h => agreement_step h x) hstart inputs
  obtain ⟨dir', hb'⟩ := hend.book
  refine ⟨?_, houts⟩
  have hsession := hend.session
  rw [hid'] at hsession
  rw [hsession, Option.bind_some, hb']
  rfl

end

/-! ## Samples -/

/-- The session of the candle at `900`, in a manager of its own. -/
def soloSession (tokens : Direction → Option String) : SessionEngine :=
  SessionEngine.create ⟨.btc, .m5, 900⟩ tokens .active

def soloManager (tokens : Direction → Option String) :
    SessionManager := ⟨⟨[soloSession tokens], by simp⟩⟩

/-- A registry with one valid token. -/
def soloRegistry : MatchingEngine := ({} : MatchingEngine).addValidToken "T"

/-- A LIMIT order for 20 shares, and then 10 shares on offer below its limit. -/
def restThenOffer : List (Time × EngineInput) :=
  [(1000, .place 7 { side := .buy, price := 3 / 5, quantity := 20 }),
   (1001, .event (.book [] [⟨1 / 2, 10, pos_one_half⟩]))]

/-- On a session whose UP token it is. -/
theorem session_refines_registry_offer :
    let id : SessionId := ⟨.btc, .m5, 900⟩
    let r := runOutputs (sessionStep id "T") (soloManager fun dir =>
      if dir = .up then some "T" else none)
      restThenOffer
    let r' := runOutputs (registryStep "T") soloRegistry restThenOffer
    ((r.1.getSession id).bind (·.getBookForToken "T")).map (·.2) = some (r'.1.getOrCreateBook "T") ∧
      r.2 = r'.2 :=
  session_refines_registry (s := soloSession fun dir => if dir = .up then some "T"
    else none) rfl rfl
    (by decide) rfl (by decide) rfl restThenOffer

/-- A session with the token for both directions gets each event twice, and fills the order
twice. -/
theorem token_of_both_directions :
    let id : SessionId := ⟨.btc, .m5, 900⟩
    let m := soloManager fun _ => some "T"
    (m.getSession id).any (fun s => decide (s.state = .active) && decide
      ("T" ∈ s.tokenIds)) = true ∧
      soloRegistry.running = true ∧ soloRegistry.isValidToken "T" = true ∧
      (runOutputs (sessionStep id "T") m restThenOffer).2 ≠
        (runOutputs (registryStep "T") soloRegistry restThenOffer).2 := by
  refine ⟨by decide +kernel, rfl, by decide, ?_⟩
  decide +kernel

end PolyArena
