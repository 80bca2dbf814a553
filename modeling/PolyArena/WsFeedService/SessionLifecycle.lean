import PolyArena.OrderConsumer.SessionDispatch
import PolyArena.WsFeedService.TokenRegistry

/-!
# The life of sessions

`SessionManager`'s creation and transition of sessions, and what calls them: the registry's rotation
and the start of the service (`main.py`), and the lifecycle tick (`session_lifecycle.py`).

1. `SessionsHave P` says that the tokens of every session satisfy `P`.  `sessionsHave_createSession`
   is its condition for a new session; transitions, boundaries and the archiving keep it.
2. `Owned` is the case that every token of every session is one of the session's own candle.
3. `owned_createFutureSessions` and `owned_ensureSession`: sessions made of recorded tokens.
-/

namespace PolyArena

open ShadowOrderbook

def REQUIRED_FUTURE_SESSIONS : ℕ := 3
def SESSION_PRE_CREATE_BUFFER_S : ℤ := 20
def SESSION_CLEANUP_DELAY_S : ℤ := 10

/-! ## The manager -/

/-- `transition`: SETTLING expires all books, ARCHIVED clears them. -/
def SessionEngine.transition (s : SessionEngine) (newState : SessionState) : SessionEngine :=
  if s.state = .archived then s
  else
    match newState with
    | .settling =>
      { s with
        state := .settling
        books := fun dir => (s.books dir).map fun b => b.expireBook.1
        booked := fun dir => Option.isSome_map.trans (s.booked dir) }
    | .archived =>
      { s with
        state := .archived, tokens := fun _ => none, books := fun _ => none,
        booked := fun _ => rfl }
    | state => { s with state := state }

namespace SessionManager

def empty : SessionManager := ⟨⟨[], List.nodup_nil⟩⟩

/-- `create_session`: a session that exists stays as it is. -/
def createSession (m : SessionManager) (id : SessionId) (tokens : Direction → Option String)
    (initialState : SessionState) : SessionManager :=
  if h : id ∈ m.engines.rows.map SessionEngine.sessionId then m
  else ⟨m.engines.insert (SessionEngine.create id tokens initialState) h⟩

/-- `transition_session`: an ARCHIVED session leaves the manager. -/
def transitionSession (m : SessionManager) (id : SessionId) (newState : SessionState) :
    SessionManager :=
  match m.getSession id with
  | none => m
  | some s =>
    if newState = .archived then ⟨m.engines.erase id⟩ else ⟨m.engines.put (s.transition newState)⟩

/-- `on_candle_boundary`. -/
def onCandleBoundary (m : SessionManager) (symbol : BOSymbol) (timeframe : BOTimeframe)
    (newCandleTs : ℤ) : SessionManager :=
  m.engines.rows.foldl (fun m engine =>
    if engine.sessionId.symbol ≠ symbol ∨ engine.sessionId.timeframe ≠ timeframe then m
    else if engine.state = .active ∧ engine.sessionId.candleOpen < newCandleTs then
      m.transitionSession engine.sessionId .settling
    else if engine.state = .prefetch ∧ engine.sessionId.candleOpen = newCandleTs then
      m.transitionSession engine.sessionId .active
    else m) m

/-! ## Sessions from the registry -/

/-- `["BTC", "ETH"]` with `["M5", "M15"]`. -/
def markets : List (BOSymbol × BOTimeframe) := do
  let symbol ← [.btc, .eth]
  let timeframe ← [.m5, .m15]
  return (symbol, timeframe)

/-- The tokens that `_future_mapping` has for a candle, by direction: of several the last one. -/
def futureTokens (r : TokenRegistry) (id : SessionId) : Direction → Option String := fun dir =>
  ((r.futureMapping ⟨id.symbol, id.timeframe, dir⟩).filter fun token =>
    r.tokenSessions token = some id.candleOpen).getLast?

/-- The sessions of the tokens in `_future_mapping`; tokens without a record are passed over. -/
def futureSessions (r : TokenRegistry) : List SessionId :=
  markets.flatMap fun (symbol, timeframe) => [Direction.up, .down].flatMap fun dir =>
    (((r.futureMapping ⟨symbol, timeframe, dir⟩).filterMap r.tokenSessions).filter (· ≠ 0)).map
      fun ts => ⟨symbol, timeframe, ts⟩

/-- The PREFETCH sessions of the registry's later candles. -/
def createFutureSessions (m : SessionManager) (r : TokenRegistry) : SessionManager :=
  (futureSessions r).foldl (fun m id => createSession m id (futureTokens r id) .prefetch) m

/-- The session of the current candle, with the registry's current tokens. -/
def createCurrentSession (m : SessionManager) (r : TokenRegistry) (now : ℤ) (symbol : BOSymbol)
    (timeframe : BOTimeframe) : SessionManager :=
  let tokens := r.currentTokens symbol timeframe
  if tokens .up = none ∧ tokens .down = none then m
  else m.createSession ⟨symbol, timeframe, currentCandleOpen timeframe now⟩ tokens .active

/-- `_create_sessions_from_registry`. -/
def createSessionsFromRegistry (m : SessionManager) (r : TokenRegistry) (now : ℤ) :
    SessionManager :=
  (markets.foldl (fun m p => m.createCurrentSession r now p.1 p.2) m).createFutureSessions r

/-- The loop body of `_update_sessions_from_registry`. -/
def updateCurrentSession (m : SessionManager) (r : TokenRegistry) (now : ℤ) (symbol : BOSymbol)
    (timeframe : BOTimeframe) : SessionManager :=
  let tokens := r.currentTokens symbol timeframe
  let newCandleTs := currentCandleOpen timeframe now
  if tokens .up = none ∧ tokens .down = none then m
  else
    let id : SessionId := ⟨symbol, timeframe, newCandleTs⟩
    let m : SessionManager :=
      match m.getSession id with
      | none => m.createSession id tokens .active
      | some s => if s.state = SessionState.prefetch then m.transitionSession id .active else m
    m.onCandleBoundary symbol timeframe newCandleTs

/-- `_update_sessions_from_registry`. -/
def updateSessionsFromRegistry (m : SessionManager) (r : TokenRegistry) (now : ℤ) :
    SessionManager :=
  (markets.foldl (fun m p => m.updateCurrentSession r now p.1 p.2) m).createFutureSessions r

end SessionManager

/-! ## The lifecycle tick -/

/-- `_expected_candle_opens`. -/
def expectedCandleOpens (timeframe : BOTimeframe) (now : ℤ) : List ℤ :=
  let period : ℤ := TF_SECONDS timeframe
  let currentOpen := currentCandleOpen timeframe now
  let opens := (List.range (REQUIRED_FUTURE_SESSIONS + 1)).map fun i => currentOpen + i * period
  if currentOpen + period - now ≤ SESSION_PRE_CREATE_BUFFER_S then
    opens ++ [currentOpen + (REQUIRED_FUTURE_SESSIONS + 1) * period]
  else opens

/-- What `ensure_future_sessions` records of one token of a session it made. -/
def TokenRegistry.recordEnsured (r : TokenRegistry) (now : ℤ) (id : SessionId) (dir : Direction)
    (token : String) : TokenRegistry :=
  let c : Combo := ⟨id.symbol, id.timeframe, dir⟩
  let r : TokenRegistry :=
    if id.candleOpen = currentCandleOpen id.timeframe now then
      { r with mapping := Function.update r.mapping c (some token) }
    else if token ∈ r.futureMapping c then r
    else { r with
      futureMapping := Function.update r.futureMapping c (r.futureMapping c ++ [token]) }
  r.recordSession token id.candleOpen

/-- `ensure_future_sessions` for one session that is missing; `tokens` is what `_resolve_tokens`
found. -/
def ensureSession (m : SessionManager) (r : TokenRegistry) (now : ℤ) (id : SessionId)
    (tokens : Direction → Option String) : SessionManager × TokenRegistry :=
  if tokens .up = none ∧ tokens .down = none then (m, r)
  else
    let state := if id.candleOpen = currentCandleOpen id.timeframe now then .active else .prefetch
    (m.createSession id tokens state,
      [Direction.up, .down].foldl (fun r dir =>
        match tokens dir with
        | none => r
        | some token => r.recordEnsured now id dir token) r)

/-- The sessions that `cleanup_expired_sessions` archives. -/
def SessionEngine.isExpired (s : SessionEngine) (now : ℤ) : Bool :=
  s.sessionId.candleOpen + TF_SECONDS s.sessionId.timeframe + SESSION_CLEANUP_DELAY_S < now

/-- `cleanup_expired_sessions`, on the manager: an ACTIVE session becomes SETTLING first. -/
def SessionManager.cleanupExpiredSessions (m : SessionManager) (now : ℤ) : SessionManager :=
  m.engines.rows.foldl (fun m s =>
    if s.isExpired now then
      let m := if s.state = .active then m.transitionSession s.sessionId .settling else m
      m.transitionSession s.sessionId .archived
    else m) m

/-! ## What all sessions have -/

section

variable {P : SessionId → (Direction → Option String) → Prop} {m : SessionManager}
  {s : SessionEngine} {id : SessionId} {tokens : Direction → Option String}
  {state newState : SessionState}

/-- The tokens of every session satisfy `P`. -/
def SessionsHave (P : SessionId → (Direction → Option String) → Prop) (m : SessionManager) : Prop :=
  ∀ s ∈ m.engines.rows, P s.sessionId s.tokens

theorem sessionsHave_empty : SessionsHave P SessionManager.empty :=
  fun _ h => absurd h List.not_mem_nil

/-- Only a missing session is made of the tokens. -/
theorem sessionsHave_createSession (h : SessionsHave P m)
    (htokens : m.getSession id = none → P id tokens) :
    SessionsHave P (m.createSession id tokens state) := by
  unfold SessionManager.createSession
  split
  · exact h
  · next hfresh =>
    intro s hs
    rcases List.mem_append.mp hs with hs | hs
    · exact h s hs
    · obtain rfl := List.mem_singleton.mp hs
      refine htokens ?_
      cases hget : m.getSession id with
      | none => rfl
      | some s =>
        exact absurd (Table.key_of_get hget ▸ List.mem_map_of_mem (Table.mem_of_get hget)) hfresh

theorem tokens_transition (h : newState ≠ .archived) :
    (s.transition newState).tokens = s.tokens := by
  unfold SessionEngine.transition
  split
  · rfl
  · cases newState with
    | archived => exact absurd rfl h
    | _ => rfl

theorem sessionId_transition : (s.transition newState).sessionId = s.sessionId := by
  unfold SessionEngine.transition
  split
  · rfl
  · cases newState <;> rfl

theorem sessionsHave_put (h : SessionsHave P m) (hs : P s.sessionId s.tokens) :
    SessionsHave P ⟨m.engines.put s⟩ := by
  intro x hx
  rcases Table.mem_put hx with rfl | ⟨hx, -⟩
  · exact hs
  · exact h x hx

theorem sessionsHave_transitionSession (h : SessionsHave P m) (id : SessionId)
    (newState : SessionState) :
    SessionsHave P (m.transitionSession id newState) := by
  unfold SessionManager.transitionSession
  cases hs : m.getSession id with
  | none => exact h
  | some s =>
    dsimp only
    split
    · exact fun x hx => h x (List.mem_of_mem_filter hx)
    · next hstate =>
      refine sessionsHave_put h ?_
      rw [tokens_transition hstate, sessionId_transition]
      exact h s (Table.mem_of_get hs)

theorem sessionsHave_onCandleBoundary (h : SessionsHave P m) (symbol : BOSymbol)
    (timeframe : BOTimeframe) (ts : ℤ) :
    SessionsHave P (m.onCandleBoundary symbol timeframe ts) := by
  refine List.foldlRecOn _ _ h fun m h engine _ => ?_
  split_ifs
  · exact h
  · exact sessionsHave_transitionSession h _ _
  · exact sessionsHave_transitionSession h _ _
  · exact h

theorem sessionsHave_cleanupExpiredSessions (h : SessionsHave P m) (now : ℤ) :
    SessionsHave P (m.cleanupExpiredSessions now) := by
  refine List.foldlRecOn _ _ h fun m h s _ => ?_
  split_ifs
  · exact sessionsHave_transitionSession (sessionsHave_transitionSession h _ _) _ _
  · exact sessionsHave_transitionSession h _ _
  · exact h

end

/-! ## Ownership -/

section

variable {marketOf : String → Option (SessionId × Direction)} {m : SessionManager}
  {r : TokenRegistry} {s : SessionEngine} {id : SessionId} {tokens : Direction → Option String}
  {state : SessionState} {now : ℤ} {symbol : BOSymbol} {timeframe : BOTimeframe} {token : String}
  {dir : Direction}

/-- The tokens are those of the candle. -/
def TokensOf (marketOf : String → Option (SessionId × Direction)) (id : SessionId)
    (tokens : Direction → Option String) : Prop :=
  ∀ dir token, tokens dir = some token → marketOf token = some (id, dir)

/-- Every session has the tokens of its own candle. -/
def Owned (marketOf : String → Option (SessionId × Direction)) (m : SessionManager) : Prop :=
  ∀ s ∈ m.engines.rows, TokensOf marketOf s.sessionId s.tokens

theorem owned_empty : Owned marketOf SessionManager.empty := sessionsHave_empty

/-- A new session: only a missing one is made of the tokens. -/
theorem owned_createSession (h : Owned marketOf m)
    (htokens : m.getSession id = none → TokensOf marketOf id tokens) :
    Owned marketOf (m.createSession id tokens state) := sessionsHave_createSession h htokens

theorem owned_setBook (h : Owned marketOf m) (hs : m.getSession id = some s) (b : ShadowOrderbook) :
    Owned marketOf (m.setBook s dir b) :=
  sessionsHave_put h (h s (Table.mem_of_get hs))

theorem owned_cleanupExpiredSessions (h : Owned marketOf m) (now : ℤ) :
    Owned marketOf (m.cleanupExpiredSessions now) := sessionsHave_cleanupExpiredSessions h now

/-! ## Sessions of recorded tokens -/

/-- The registry's current tokens, when they are recorded for the candle. -/
theorem tokensOf_current (hr : Recorded marketOf r)
    (hfresh : ∀ dir token, r.currentTokens id.symbol id.timeframe dir = some token →
      r.tokenSessions token = some id.candleOpen) :
    TokensOf marketOf id (r.currentTokens id.symbol id.timeframe) := fun dir token htoken =>
  hr.market (c := ⟨id.symbol, id.timeframe, dir⟩) (hr.current _ _ htoken) (hfresh dir token htoken)

theorem tokensOf_future (hr : Recorded marketOf r) :
    TokensOf marketOf id (SessionManager.futureTokens r id) := by
  intro dir token htoken
  have hmem := List.mem_of_getLast? htoken
  rw [List.mem_filter, decide_eq_true_eq] at hmem
  exact hr.market (c := ⟨id.symbol, id.timeframe, dir⟩) (hr.future _ _ hmem.1) hmem.2

theorem owned_createFutureSessions (hr : Recorded marketOf r) (h : Owned marketOf m) :
    Owned marketOf (m.createFutureSessions r) :=
  List.foldlRecOn _ _ h fun _ h _ _ => owned_createSession h fun _ => tokensOf_future hr

/-- What the lifecycle tick records of a token it resolved. -/
theorem recorded_recordEnsured (hr : Recorded marketOf r)
    (htoken : marketOf token = some (id, dir)) :
    Recorded marketOf (r.recordEnsured now id dir token) := by
  have hown : IsTokenOf marketOf ⟨id.symbol, id.timeframe, dir⟩ token := ⟨id.candleOpen, htoken⟩
  refine recorded_recordSession ?_ htoken rfl
  split_ifs
  · refine ⟨fun c t hc => ?_, hr.future, hr.candle⟩
    replace hc : Function.update r.mapping _ (some token) c = some t := hc
    rw [Function.update_apply] at hc
    split_ifs at hc with hcc
    · cases hc
      exact hcc ▸ hown
    · exact hr.current c t hc
  · exact hr
  · refine ⟨hr.current, fun c t hc => ?_, hr.candle⟩
    replace hc : t ∈ Function.update r.futureMapping _ _ c := hc
    rw [Function.update_apply] at hc
    split_ifs at hc with hcc
    · rcases List.mem_append.mp hc with hc | hc
      · exact hr.future c t (hcc ▸ hc)
      · obtain rfl := List.mem_singleton.mp hc
        exact hcc ▸ hown
    · exact hr.future c t hc

theorem owned_ensureSession (h : Owned marketOf m) (htokens : TokensOf marketOf id tokens) :
    Owned marketOf (ensureSession m r now id tokens).1 := by
  unfold ensureSession
  split
  · exact h
  · exact owned_createSession h fun _ => htokens

theorem recorded_ensureSession (hr : Recorded marketOf r) (htokens : TokensOf marketOf id tokens) :
    Recorded marketOf (ensureSession m r now id tokens).2 := by
  have hrecord : ∀ r dir, Recorded marketOf r → Recorded marketOf (match tokens dir with
      | none => r
      | some token => r.recordEnsured now id dir token) := by
    intro r dir hr
    cases htoken : tokens dir with
    | none => exact hr
    | some token => exact recorded_recordEnsured hr (htokens dir token htoken)
  unfold ensureSession
  split
  · exact hr
  · exact hrecord _ _ (hrecord _ _ hr)

end

end PolyArena
