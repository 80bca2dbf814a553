import Mathlib.Data.List.Infix
import Mathlib.Logic.Function.Basic
import PolyArena.Lib.Runs
import PolyArena.Models

/-!
# The Polymarket proxy

`/ws/polymarket` (`ws_polymarket.py`): a client subscribes to a market and gets a token map, the
snapshots of its books, and then the updates, each under the id of its token.  The map is looked up
again after every boundary.  The reader of the client's messages, the boundary timer and the stream
of updates are tasks of one event loop.

1. `discoverTokensSync` looks up the tokens, `ProxyAction.step` is what the tasks do, in any order.
2. `ProxyInv` is the invariant over the log of the connection, and `proxyInv_step` its step lemma.
3. `events_decode`: by the token map that the client got last, the id of an event has the direction
   and the candle of its book; and it is that book's token, once the client's last subscription was
   answered by a token map.
4. `switched_mislabelled`: before that the id can be of the other market.
-/

namespace PolyArena

/-- `symbol` and `timeframe` of a subscription, in capitals. -/
structure ProxyMarket where
  symbol : String
  timeframe : String
  deriving DecidableEq, Repr

/-- `TF_SECONDS.get(tf, 300)`. -/
def periodOf (timeframe : String) : ℤ :=
  match timeframe with
  | "M5" => 300
  | "M15" => 900
  | _ => 300

/-- The tokens of Polymarket: `get_token_id_at` gives one for each outcome of a candle. -/
structure Outcomes where
  token : ProxyMarket → Direction → ℤ → Option String
  distinct : ∀ {m : ProxyMarket} {dir dir' : Direction} {ts ts' : ℤ} {id : String},
    token m dir ts = some id → token m dir' ts' = some id → dir = dir' ∧ ts = ts'

/-- `token_map`, what the client gets. -/
abbrev TokenMap := String → Option (Direction × ℤ)

structure DiscoveredTokens where
  tokenMap : TokenMap := fun _ => none
  reverseMap : Direction × ℤ → Option String := fun _ => none
  period : ℤ
  /-- `token_map` has an entry. -/
  found : Bool := false

/-- The loop body of `_discover_tokens_sync`. -/
def DiscoveredTokens.record (d : DiscoveredTokens) (key : Direction × ℤ) (answer : Option String) :
    DiscoveredTokens :=
  match answer with
  | none => d
  | some id => { d with
      tokenMap := Function.update d.tokenMap id (some key)
      reverseMap := Function.update d.reverseMap key (some id)
      found := true }

/-- `_discover_tokens_sync`; `ok` says which lookups succeed. -/
def discoverTokensSync (P : Outcomes) (m : ProxyMarket) (now : ℤ) (ok : Direction → ℤ → Bool) :
    Option DiscoveredTokens :=
  let period := periodOf m.timeframe
  let current := now - now % period
  let keys := [current, current + period, current + period * 2].flatMap fun ts =>
    [Direction.up, .down].map fun dir => (dir, ts)
  let d := keys.foldl (fun d key => d.record key
    (if ok key.1 key.2 then P.token m key.1 key.2 else none))
    { period := period }
  if d.found then some d else none

/-- `ParsedOrderbookMessage`, and the entries of a snapshot, which have the same fields. -/
structure ParsedOrderbookMessage where
  market : ProxyMarket
  direction : Direction
  session : Option ℤ
  bids : List (ℚ × ℚ)
  asks : List (ℚ × ℚ)
  updatedAt : Option Time

/-- An event in Polymarket's format. -/
structure BookEvent where
  assetId : String
  bids : List (ℚ × ℚ)
  asks : List (ℚ × ℚ)
  timestamp : Option Time

/-- Whose book an event has: a message without a candle is of the current one. -/
structure BookOf where
  market : ProxyMarket
  direction : Direction
  session : ℤ
  deriving DecidableEq

namespace ParsedOrderbookMessage

def bookOf (msg : ParsedOrderbookMessage) (now period : ℤ) : BookOf :=
  ⟨msg.market, msg.direction, msg.session.getD (now - now % period)⟩

/-- `_book_event_from_parsed`. -/
def bookEvent (msg : ParsedOrderbookMessage) (assetId : String) : BookEvent :=
  ⟨assetId, msg.bids, msg.asks, msg.updatedAt⟩

end ParsedOrderbookMessage

/-- What client and server sent, with what a map and an event are of. -/
inductive ProxyEntry
  | subscribe (market : ProxyMarket)
  | tokenMap (market : ProxyMarket) (tokens : TokenMap)
  | noTokens (market : ProxyMarket)
  | book (event : BookEvent) (of : BookOf)

/-- Where the reader, or the boundary timer, is with a market. -/
inductive ProxyStage
  | discovering
  | fetching
  | sending (entries : List ParsedOrderbookMessage)

/-- A connection. -/
structure PolymarketProxy where
  market : Option ProxyMarket := none
  reverseMap : Direction × ℤ → Option String := fun _ => none
  period : ℤ := 300
  /-- `_handle_subscribe`, while it runs. -/
  reader : Option (ProxyMarket × ProxyStage) := none
  /-- `boundary_task`, until it is done; it sleeps when it has no stage. -/
  boundary : Option (ProxyMarket × Option ProxyStage) := none
  /-- `queue is not None`. -/
  streaming : Bool := false
  /-- Newest first. -/
  log : List ProxyEntry := []

namespace PolymarketProxy

/-- The maps of a discovery are set and the token map is sent. -/
def setMaps (s : PolymarketProxy) (m : ProxyMarket) (d : DiscoveredTokens) : PolymarketProxy :=
  { s with reverseMap := d.reverseMap, period := d.period, log := .tokenMap m d.tokenMap :: s.log }

/-- `_book_event_from_snapshot`, and the event is sent. -/
def sendSnapshot (s : PolymarketProxy) (now : ℤ) (entry : ParsedOrderbookMessage) :
    PolymarketProxy :=
  let book := entry.bookOf now s.period
  match s.reverseMap (book.direction, book.session) with
  | none => s
  | some id => if entry.bids = [] ∧ entry.asks = [] then s
      else { s with log := .book (entry.bookEvent id) book :: s.log }

/-- `_stream_updates`, with a message of the queue. -/
def streamUpdate (s : PolymarketProxy) (now : ℤ) (msg : ParsedOrderbookMessage) : PolymarketProxy :=
  if s.market = some msg.market then
    let book := msg.bookOf now (periodOf msg.market.timeframe)
    match s.reverseMap (book.direction, book.session) with
    | none => s
    | some id => { s with log := .book (msg.bookEvent id) book :: s.log }
  else s

end PolymarketProxy

/-- What may happen next.  The end of the connection ends the run. -/
inductive ProxyAction
  | subscribe (m : ProxyMarket)
  /-- The reader has the result of a discovery that was made at `now`. -/
  | discovered (now : ℤ) (ok : Direction → ℤ → Bool)
  /-- The reader has the snapshots of the market. -/
  | fetched (entries : List ParsedOrderbookMessage)
  /-- The reader sends the next one, or is done. -/
  | sendNext (now : ℤ)
  | boundaryWake
  | boundaryDiscovered (now : ℤ) (ok : Direction → ℤ → Bool)
  | boundaryFetched (entries : List ParsedOrderbookMessage)
  | boundarySendNext (now : ℤ)
  /-- A send of the timer fails. -/
  | boundaryReturn
  | update (now : ℤ) (msg : ParsedOrderbookMessage)

namespace ProxyAction

/-- One step.  A snapshot is of the market that was asked for. -/
def step (P : Outcomes) (s : PolymarketProxy) : ProxyAction → Option PolymarketProxy
  | subscribe m =>
    match s.reader with
    | none => some { s with
        market := some m
        boundary := none
        reader := some (m, .discovering)
        log := .subscribe m :: s.log }
    | some _ => none
  | discovered now ok =>
    match s.reader with
    | some (m, .discovering) =>
      match discoverTokensSync P m now ok with
      | none => some { s with reader := none, log := .noTokens m :: s.log }
      | some d => some { s.setMaps m d with reader := some (m, .fetching) }
    | _ => none
  | fetched entries =>
    match s.reader with
    | some (m, .fetching) =>
      some { s with reader := some (m, .sending (entries.map fun entry => { entry with
        market := m })) }
    | _ => none
  | sendNext now =>
    match s.reader with
    | some (m, .sending (entry :: rest)) =>
      some { s.sendSnapshot now entry with reader := some (m, .sending rest) }
    | some (m, .sending []) =>
      some { s with reader := none, boundary := some (m, none), streaming := true }
    | _ => none
  | boundaryWake =>
    match s.boundary with
    | some (m, none) => some { s with boundary := some (m, some .discovering) }
    | _ => none
  | boundaryDiscovered now ok =>
    match s.boundary with
    | some (m, some .discovering) =>
      match discoverTokensSync P m now ok with
      | none => some { s with boundary := some (m, none) }
      | some d => some { s.setMaps m d with boundary := some (m, some .fetching) }
    | _ => none
  | boundaryFetched entries =>
    match s.boundary with
    | some (m, some .fetching) =>
      some { s with boundary := some (m, some
        (.sending (entries.map fun entry => { entry with market := m }))) }
    | _ => none
  | boundarySendNext now =>
    match s.boundary with
    | some (m, some (.sending (entry :: rest))) =>
      some { s.sendSnapshot now entry with boundary := some (m, some (.sending rest)) }
    | some (m, some (.sending [])) => some { s with boundary := some (m, none) }
    | _ => none
  | boundaryReturn => some { s with boundary := none }
  | update now msg => if s.streaming then some (s.streamUpdate now msg) else none

end ProxyAction

/-! ## What the client knows -/

/-- The token map that the client got last, with its market. -/
def lastMap : List ProxyEntry → Option (ProxyMarket × TokenMap)
  | [] => none
  | .tokenMap m tokens :: _ => some (m, tokens)
  | _ :: log => lastMap log

/-- The client's last subscription was answered by a token map. -/
def Answered : List ProxyEntry → Prop
  | [] => False
  | .tokenMap _ _ :: _ => True
  | .subscribe _ :: _ => False
  | _ :: log => Answered log

/-- The id of an event after `log`: the last token map has the direction and the candle of the book
for it.  It is the token that Polymarket has for them in the market of the map, which is the market
of the book when the subscription was answered. -/
def Labelled (P : Outcomes) (log : List ProxyEntry) (id : String) (book : BookOf) : Prop :=
  ∃ m tokens, lastMap log = some (m, tokens) ∧ tokens id = some (book.direction, book.session) ∧
    P.token m book.direction book.session = some id ∧ (Answered log → m = book.market)

structure ProxyInv (P : Outcomes) (s : PolymarketProxy) : Prop where
  /-- The reverse map goes with the last token map. -/
  maps : ∀ key id, s.reverseMap key = some id →
    ∃ m tokens, lastMap s.log = some (m, tokens) ∧ tokens id = some key ∧
      P.token m key.1 key.2 = some id
  /-- The token map that answered the subscription is of its market. -/
  answered : Answered s.log → ∃ m tokens, lastMap s.log = some (m, tokens) ∧ s.market = some m
  reading : ∀ m stage, s.reader = some (m, stage) → s.market = some m ∧ s.boundary = none
  snapshots : ∀ m stage, s.reader = some (m, stage) → stage ≠ .discovering → Answered s.log
  timed : ∀ m stage, s.boundary = some (m, stage) → s.market = some m ∧ Answered s.log
  entries : ∀ m entries, s.reader = some (m, .sending entries) ∨
    s.boundary = some (m, some (.sending entries)) →
    ∀ entry ∈ entries, entry.market = m
  events : ∀ ev book before, .book ev book :: before <:+ s.log → Labelled P before ev.assetId book

section

variable {P : Outcomes} {s s' : PolymarketProxy} {a : ProxyAction} {m : ProxyMarket}
  {d : DiscoveredTokens} {now : ℤ} {ok : Direction → ℤ → Bool} {ev : BookEvent} {book : BookOf}
  {before : List ProxyEntry}

/-! ## Discoveries -/

/-- The two maps go together, and have Polymarket's tokens. -/
structure DiscoveredTokens.Of (P : Outcomes) (m : ProxyMarket) (d : DiscoveredTokens) : Prop where
  back : ∀ key id, d.reverseMap key = some id → d.tokenMap id = some key
  tokens : ∀ key id, d.reverseMap key = some id → P.token m key.1 key.2 = some id

theorem DiscoveredTokens.Of.record (h : d.Of P m) {key : Direction × ℤ} {answer : Option String}
    (hanswer : ∀ id, answer = some id → P.token m key.1 key.2 = some id) :
    (d.record key answer).Of P m := by
  cases answer with
  | none => exact h
  | some id =>
    have hid := hanswer id rfl
    have htokens : ∀ key' id', Function.update d.reverseMap key (some id) key' = some id' →
        P.token m key'.1 key'.2 = some id' := by
      intro key' id' hkey'
      rw [Function.update_apply] at hkey'
      split_ifs at hkey' with hsame
      · cases hkey'
        rw [hsame]
        exact hid
      · exact h.tokens key' id' hkey'
    refine ⟨fun key' id' hkey' => ?_, htokens⟩
    -- an id that is found a second time is found under the same key
    have hkey := htokens key' id' hkey'
    change Function.update d.tokenMap id (some key) id' = some key'
    rw [Function.update_apply]
    split_ifs with hsame
    · rw [hsame] at hkey
      obtain ⟨hdir, hts⟩ := P.distinct hid hkey
      exact congrArg some (Prod.ext hdir hts)
    · refine h.back key' id' ?_
      replace hkey' : Function.update d.reverseMap key (some id) key' = some id' := hkey'
      rw [Function.update_apply] at hkey'
      split_ifs at hkey'
      · cases hkey'
        exact absurd rfl hsame
      · exact hkey'

theorem discovery_of (h : discoverTokensSync P m now ok = some d) : d.Of P m := by
  unfold discoverTokensSync at h
  dsimp only at h
  split_ifs at h
  cases h
  have hnone : DiscoveredTokens.Of P m { period := periodOf m.timeframe } :=
    ⟨fun _ _ h => absurd h.symm (Option.some_ne_none _),
      fun _ _ h => absurd h.symm (Option.some_ne_none _)⟩
  refine List.foldlRecOn (motive := DiscoveredTokens.Of P m) _ _ hnone fun d hd key _ =>
    hd.record fun id hid => ?_
  split_ifs at hid
  exact hid

/-! ## The log -/

theorem events_of_quiet {x : ProxyEntry} {log : List ProxyEntry}
    (hquiet : ∀ ev book, x ≠ .book ev book)
    (h : ∀ ev book before, .book ev book :: before <:+ log → Labelled P before ev.assetId book) :
    ∀ ev book before, .book ev book :: before <:+ x :: log → Labelled P before ev.assetId book := by
  intro ev book before hsuffix
  rcases List.suffix_cons_iff.mp hsuffix with heq | hsuffix
  · exact absurd (List.cons.inj heq).1.symm (hquiet ev book)
  · exact h ev book before hsuffix

/-- An event with its id from the reverse map. -/
theorem ProxyInv.send (h : ProxyInv P s)
    (hid : s.reverseMap (book.direction, book.session) = some ev.assetId)
    (hmarket : s.market = some book.market) :
    ProxyInv P { s with log := .book ev book :: s.log } where
  maps := h.maps
  answered := h.answered
  reading := h.reading
  snapshots := h.snapshots
  timed := h.timed
  entries := h.entries
  events := by
    intro ev' book' before hsuffix
    rcases List.suffix_cons_iff.mp hsuffix with heq | hsuffix
    · cases heq
      obtain ⟨m, tokens, hlast, htokens, htoken⟩ := h.maps _ _ hid
      refine ⟨m, tokens, hlast, htokens, htoken, fun hanswered => ?_⟩
      obtain ⟨m', tokens', hlast', hm'⟩ := h.answered hanswered
      obtain rfl : m = m' := congrArg Prod.fst (Option.some.inj (hlast.symm.trans hlast'))
      exact Option.some.inj (hm'.symm.trans hmarket)
    · exact h.events ev' book' before hsuffix

theorem ProxyInv.sendSnapshot (h : ProxyInv P s) {entry : ParsedOrderbookMessage}
    (hmarket : s.market = some entry.market) (now : ℤ) : ProxyInv P (s.sendSnapshot now entry) := by
  unfold PolymarketProxy.sendSnapshot
  dsimp only
  split
  · exact h
  · next id hid =>
    split_ifs
    · exact h
    · exact h.send hid hmarket

theorem ProxyInv.streamUpdate (h : ProxyInv P s) (now : ℤ) (msg : ParsedOrderbookMessage) :
    ProxyInv P (s.streamUpdate now msg) := by
  unfold PolymarketProxy.streamUpdate
  split_ifs with hmarket
  · dsimp only
    split
    · exact h
    · next id hid => exact h.send hid hmarket
  · exact h

section

variable (s : PolymarketProxy) (now : ℤ) (entry : ParsedOrderbookMessage)

theorem sendSnapshot_cases : s.sendSnapshot now entry = s ∨
    ∃ id, s.sendSnapshot now entry =
      { s with log := .book (entry.bookEvent id) (entry.bookOf now s.period) :: s.log } := by
  unfold PolymarketProxy.sendSnapshot
  dsimp only
  split
  · exact .inl rfl
  · next id _ =>
    split_ifs
    · exact .inl rfl
    · exact .inr ⟨id, rfl⟩

theorem market_sendSnapshot : (s.sendSnapshot now entry).market = s.market := by
  rcases sendSnapshot_cases s now entry with heq | ⟨id, heq⟩ <;> rw [heq]

theorem reader_sendSnapshot : (s.sendSnapshot now entry).reader = s.reader := by
  rcases sendSnapshot_cases s now entry with heq | ⟨id, heq⟩ <;> rw [heq]

theorem boundary_sendSnapshot : (s.sendSnapshot now entry).boundary = s.boundary := by
  rcases sendSnapshot_cases s now entry with heq | ⟨id, heq⟩ <;> rw [heq]

end

theorem answered_sendSnapshot {entry : ParsedOrderbookMessage} (h : Answered s.log) :
    Answered (s.sendSnapshot now entry).log := by
  rcases sendSnapshot_cases s now entry with heq | ⟨id, heq⟩ <;> rw [heq]
  · exact h
  · exact h

/-! ## Steps -/

/-- A task goes on, and the log stays. -/
theorem ProxyInv.move (h : ProxyInv P s) {reader : Option (ProxyMarket × ProxyStage)}
    {boundary : Option (ProxyMarket × Option ProxyStage)} {streaming : Bool}
    (hreader : ∀ m stage, reader = some (m, stage) →
      s.market = some m ∧ boundary = none ∧ (stage ≠ .discovering → Answered s.log))
    (hboundary : ∀ m stage, boundary = some (m, stage) → s.market = some m ∧ Answered s.log)
    (hentries : ∀ m entries, reader = some (m, .sending entries) ∨
      boundary = some (m, some (.sending entries)) →
      ∀ entry ∈ entries, entry.market = m) :
    ProxyInv P { s with reader := reader, boundary := boundary, streaming := streaming } where
  maps := h.maps
  answered := h.answered
  reading := fun m stage hstage => ⟨(hreader m stage hstage).1, (hreader m stage hstage).2.1⟩
  snapshots := fun m stage hstage => (hreader m stage hstage).2.2
  timed := hboundary
  entries := hentries
  events := h.events

/-- The reader goes on, and the timer is done. -/
theorem ProxyInv.moveReader (h : ProxyInv P s) {reader : Option (ProxyMarket × ProxyStage)}
    (hdone : s.boundary = none)
    (hreader : ∀ m stage, reader = some (m, stage) →
      s.market = some m ∧ (stage ≠ .discovering → Answered s.log))
    (hentries : ∀ m entries, reader = some (m, .sending entries) →
      ∀ entry ∈ entries, entry.market = m) :
    ProxyInv P { s with reader := reader } := by
  have hmoved : ProxyInv P { s with
      reader := reader, boundary := none, streaming := s.streaming } :=
    h.move (fun m stage hstage => ⟨(hreader m stage hstage).1, rfl,
      (hreader m stage hstage).2⟩) (by simp)
      (by simpa using hentries)
  rwa [← hdone] at hmoved

/-- The timer goes on, and the reader waits. -/
theorem ProxyInv.moveBoundary (h : ProxyInv P s)
    {boundary : Option (ProxyMarket × Option ProxyStage)}
    (hidle : s.reader = none) (hboundary : ∀ m stage, boundary = some (m, stage) →
      s.market = some m ∧ Answered s.log)
    (hentries : ∀ m entries, boundary = some (m, some (.sending entries)) →
      ∀ entry ∈ entries, entry.market = m) :
    ProxyInv P { s with boundary := boundary } := by
  have hmoved : ProxyInv P { s with
      reader := none, boundary := boundary, streaming := s.streaming } :=
    h.move (by simp) hboundary (by simpa using hentries)
  rwa [← hidle] at hmoved

/-- The reader and the timer do not work at the same time. -/
theorem ProxyInv.idle (h : ProxyInv P s) {stage : Option ProxyStage}
    (hboundary : s.boundary = some (m, stage)) :
    s.reader = none := by
  cases hreader : s.reader with
  | none => rfl
  | some x =>
    exact absurd (h.reading x.1 x.2 hreader).2 (by rw [hboundary]; exact Option.some_ne_none _)

/-- A discovery of the market of the subscription. -/
theorem ProxyInv.setMaps (h : ProxyInv P s) (hd : d.Of P m) (hmarket : s.market = some m) :
    ProxyInv P (s.setMaps m d) where
  maps := fun key id hkey => ⟨m, d.tokenMap, rfl, hd.back key id hkey, hd.tokens key id hkey⟩
  answered := fun _ => ⟨m, d.tokenMap, rfl, hmarket⟩
  reading := h.reading
  snapshots := fun _ _ _ _ => trivial
  timed := fun m stage hstage => ⟨(h.timed m stage hstage).1, trivial⟩
  entries := h.entries
  events := events_of_quiet (fun _ _ => ProxyEntry.noConfusion) h.events

theorem proxyInv_start : ProxyInv P {} where
  maps := by simp
  answered := False.elim
  reading := by simp
  snapshots := by simp
  timed := by simp
  entries := by simp
  events := by simp

/-- **Every step** keeps the invariant. -/
theorem proxyInv_step (h : ProxyInv P s) (hstep : a.step P s = some s') : ProxyInv P s' := by
  cases a with
  | subscribe m =>
    simp only [ProxyAction.step] at hstep
    split at hstep
    · cases hstep
      exact {
        maps := h.maps
        answered := False.elim
        reading := fun m' stage hstage => by cases hstage; exact ⟨rfl, rfl⟩
        snapshots := fun m' stage hstage hne => by cases hstage; exact absurd rfl hne
        timed := by simp
        entries := by simp
        events := events_of_quiet (fun _ _ => ProxyEntry.noConfusion) h.events }
    · cases hstep
  | discovered now ok =>
    simp only [ProxyAction.step] at hstep
    split at hstep
    · next m hreader =>
      obtain ⟨hmarket, hboundary⟩ := h.reading m _ hreader
      split at hstep
      · cases hstep
        exact {
          maps := h.maps
          answered := h.answered
          reading := by simp
          snapshots := by simp
          timed := h.timed
          entries := by simp [hboundary]
          events := events_of_quiet (fun _ _ => ProxyEntry.noConfusion) h.events }
      · next d hd =>
        cases hstep
        exact (h.setMaps (discovery_of hd) hmarket).moveReader hboundary
          (fun m' stage hstage => by cases hstage; exact ⟨hmarket, fun _ => trivial⟩) (by simp)
    · cases hstep
  | fetched found =>
    simp only [ProxyAction.step] at hstep
    split at hstep
    · next m hreader =>
      cases hstep
      obtain ⟨hmarket, hboundary⟩ := h.reading m _ hreader
      have hanswered := h.snapshots m _ hreader ProxyStage.noConfusion
      refine h.moveReader hboundary (fun m' stage hstage => ?_) fun m' entries hstage => ?_
      · cases hstage
        exact ⟨hmarket, fun _ => hanswered⟩
      · cases hstage
        exact List.forall_mem_map.mpr fun _ _ => rfl
    · cases hstep
  | sendNext now =>
    simp only [ProxyAction.step] at hstep
    split at hstep
    · next m entry rest hreader =>
      cases hstep
      obtain ⟨hmarket, hboundary⟩ := h.reading m _ hreader
      have hof := h.entries m _ (.inl hreader)
      have hanswered := h.snapshots m _ hreader ProxyStage.noConfusion
      have hsent :=
        h.sendSnapshot (hmarket.trans (congrArg some (hof entry List.mem_cons_self).symm)) now
      refine hsent.moveReader ((boundary_sendSnapshot s now entry).trans hboundary)
        (fun m' stage hstage => ?_)
        fun m' entries hstage => ?_
      · cases hstage
        exact ⟨(market_sendSnapshot s now entry).trans hmarket,
          fun _ => answered_sendSnapshot hanswered⟩
      · cases hstage
        exact fun entry' hmem => hof entry' (List.mem_cons_of_mem entry hmem)
    · next m hreader =>
      cases hstep
      obtain ⟨hmarket, -⟩ := h.reading m _ hreader
      have hanswered := h.snapshots m _ hreader ProxyStage.noConfusion
      exact h.move (by simp) (fun m' stage hstage => by cases hstage; exact ⟨hmarket,
        hanswered⟩) (by simp)
    · cases hstep
  | boundaryWake =>
    simp only [ProxyAction.step] at hstep
    split at hstep
    · next m hboundary =>
      cases hstep
      exact h.moveBoundary (h.idle hboundary)
        (fun m' stage hstage => by cases hstage; exact h.timed m none hboundary) (by simp)
    · cases hstep
  | boundaryDiscovered now ok =>
    simp only [ProxyAction.step] at hstep
    split at hstep
    · next m hboundary =>
      have hmarket := (h.timed m _ hboundary).1
      split at hstep
      · cases hstep
        exact h.moveBoundary (h.idle hboundary)
          (fun m' stage hstage => by cases hstage; exact h.timed m _ hboundary) (by simp)
      · next d hd =>
        cases hstep
        exact (h.setMaps (discovery_of hd) hmarket).moveBoundary (h.idle hboundary)
          (fun m' stage hstage => by cases hstage; exact ⟨hmarket, trivial⟩) (by simp)
    · cases hstep
  | boundaryFetched found =>
    simp only [ProxyAction.step] at hstep
    split at hstep
    · next m hboundary =>
      cases hstep
      refine h.moveBoundary (h.idle hboundary) (fun m' stage hstage => ?_)
        fun m' entries hstage => ?_
      · cases hstage
        exact h.timed m _ hboundary
      · cases hstage
        exact List.forall_mem_map.mpr fun _ _ => rfl
    · cases hstep
  | boundarySendNext now =>
    simp only [ProxyAction.step] at hstep
    split at hstep
    · next m entry rest hboundary =>
      cases hstep
      obtain ⟨hmarket, hanswered⟩ := h.timed m _ hboundary
      have hof := h.entries m _ (.inr hboundary)
      have hsent :=
        h.sendSnapshot (hmarket.trans (congrArg some (hof entry List.mem_cons_self).symm)) now
      refine hsent.moveBoundary ((reader_sendSnapshot s now entry).trans (h.idle hboundary))
        (fun m' stage hstage => ?_) fun m' entries hstage => ?_
      · cases hstage
        exact ⟨(market_sendSnapshot s now entry).trans hmarket, answered_sendSnapshot hanswered⟩
      · cases hstage
        exact fun entry' hmem => hof entry' (List.mem_cons_of_mem entry hmem)
    · next m hboundary =>
      cases hstep
      exact h.moveBoundary (h.idle hboundary)
        (fun m' stage hstage => by cases hstage; exact h.timed m _ hboundary) (by simp)
    · cases hstep
  | boundaryReturn =>
    cases hstep
    exact h.move (fun m stage hstage => ⟨(h.reading m stage hstage).1, rfl,
      h.snapshots m stage hstage⟩) (by simp)
      fun m entries hentries => h.entries m entries (hentries.imp_right (by simp))
  | update now msg =>
    simp only [ProxyAction.step] at hstep
    split_ifs at hstep
    cases hstep
    exact h.streamUpdate now msg

/-- **What the ids of a connection mean.**  In every run, an event that was sent has an id that the
client's last token map decodes to the direction and the candle of the event's book, and it is
Polymarket's token for these in the market of that map.  If the client's last subscription was
answered by a token map, it is the market of the book. -/
theorem events_decode {guard : PolymarketProxy → ProxyAction → Prop}
    (hrun : Run (ProxyAction.step P) guard {} s) (hsent : .book ev book :: before <:+ s.log) :
    Labelled P before ev.assetId book :=
  (hrun.invariant (ProxyInv P) proxyInv_start fun _ _ _ h _ hstep =>
    proxyInv_step h hstep).events ev book before hsent

end

/-! ## A change of the market -/

/-- The tokens of the first candle, for UP. -/
def twoMarkets : Outcomes where
  token m dir ts := if dir = .up ∧ ts = 0 then some m.symbol else none
  distinct := by
    intro m dir dir' ts ts' id h h'
    split_ifs at h with hkey
    split_ifs at h' with hkey'
    exact ⟨hkey.1.trans hkey'.1.symm, hkey.2.trans hkey'.2.symm⟩

def bookMessage (symbol : String) : ParsedOrderbookMessage where
  market := ⟨symbol, "M5"⟩
  direction := .up
  session := none
  bids := [(1 / 2, 10)]
  asks := []
  updatedAt := none

/-- The id of the newest entry, when it is an event, and its book. -/
def newestEvent : List ProxyEntry → Option (String × BookOf)
  | .book ev book :: _ => some (ev.assetId, book)
  | _ => none

theorem book_of_newestEvent {log : List ProxyEntry} {id : String} {book : BookOf}
    (h : newestEvent log = some (id, book)) :
    ∃ ev before, ev.assetId = id ∧ log = .book ev book :: before := by
  cases log with
  | nil => cases h
  | cons x before =>
    cases x with
    | book ev book' =>
      cases h
      exact ⟨ev, before, rfl, rfl⟩
    | _ => cases h

/-- A subscription to BTC, with a snapshot and an update. -/
def firstMarket : List ProxyAction :=
  [.subscribe ⟨"BTC", "M5"⟩, .discovered 7 fun _ _ => true, .fetched [bookMessage "BTC"],
    .sendNext 8, .sendNext 8, .update 9 (bookMessage "BTC")]

theorem events_decode_first : ∃ s ev before, Run (ProxyAction.step twoMarkets)
    (fun _ _ => True) {} s ∧
    .book ev ⟨⟨"BTC", "M5"⟩, .up, 0⟩ :: before <:+ s.log ∧
      Labelled twoMarkets before "BTC" ⟨⟨"BTC", "M5"⟩, .up, 0⟩ := by
  have hexec : (exec (ProxyAction.step twoMarkets) (fun _ _ => True) {} firstMarket).any (fun s =>
      decide (newestEvent s.log = some ("BTC", ⟨⟨"BTC", "M5"⟩, .up, 0⟩))) = true := by
        decide +kernel
  obtain ⟨s, hexec, hs⟩ := Option.any_eq_true _ _ |>.mp hexec
  obtain ⟨ev, before, hid, hlog⟩ := book_of_newestEvent (of_decide_eq_true hs)
  have hsuffix : .book ev ⟨⟨"BTC", "M5"⟩, .up, 0⟩ :: before <:+ s.log := by rw [hlog]
  have hlabelled := events_decode (run_of_exec hexec) hsuffix
  rw [hid] at hlabelled
  exact ⟨s, ev, before, run_of_exec hexec, hsuffix, hlabelled⟩

/-- The client changes to ETH, and an update of ETH comes before the tokens were looked up: its
event has the id that the client knows for BTC. -/
theorem switched_mislabelled :
    ∃ s ev before, Run (ProxyAction.step twoMarkets) (fun _ _ => True) {} s ∧
    .book ev ⟨⟨"ETH", "M5"⟩, .up, 0⟩ :: before <:+ s.log ∧ ev.assetId = "BTC" ∧
      twoMarkets.token ⟨"ETH", "M5"⟩ .up 0 = some "ETH" := by
  have hexec : (exec (ProxyAction.step twoMarkets) (fun _ _ => True) {}
      (firstMarket ++ [.subscribe ⟨"ETH", "M5"⟩, .update 10 (bookMessage "ETH")])).any (fun s =>
        decide (newestEvent s.log = some ("BTC", ⟨⟨"ETH", "M5"⟩, .up, 0⟩))) = true := by
          decide +kernel
  obtain ⟨s, hexec, hs⟩ := Option.any_eq_true _ _ |>.mp hexec
  obtain ⟨ev, before, hid, hlog⟩ := book_of_newestEvent (of_decide_eq_true hs)
  exact ⟨s, ev, before, run_of_exec hexec, by rw [hlog], hid, rfl⟩

end PolyArena
