import PolyArena.Lib.KeyIndex
import PolyArena.Lib.Runs
import PolyArena.WsFeedService.BookFrames

/-!
# The token index

`SessionManager` keeps two dictionaries: the engines by session, and `_token_index`, the sessions by
token.  `IndexedManager` has both as the source updates them; `SessionManager` of the other modules
derives the second from the first.

1. `IndexInv`: the index lists exactly the engines that own a token.  `EngineInvariant.step` is the
   step lemma, for this and for `NoneArchived`.
2. `dispatchEvent_exact`: the owners of a token take an event of it, each once.
3. `toManager_dispatchEvent` and its siblings: the manager with the derived index does the same.
4. `token_index_exact`: in every run the index is exact, and no registered engine is ARCHIVED but
   one that was created so.
-/

namespace PolyArena

open ShadowOrderbook KeyIndex

/-- The engines, the index, and `settling_at` of the engines. -/
structure IndexedManager where
  engines : Table SessionEngine.sessionId := ⟨[], List.nodup_nil⟩
  tokenIndex : KeyIndex String SessionId := fun _ => none
  settlingAt : SessionId → Option Time := fun _ => none

namespace SessionEngine

/-- Work on all books. -/
def mapBooks (s : SessionEngine) (f : ShadowOrderbook → ShadowOrderbook) : SessionEngine :=
  { s with
    books := fun dir => (s.books dir).map f
    booked := fun dir => Option.isSome_map.trans (s.booked dir) }

/-- The engine that `create_session` registers. -/
def createIn (id : SessionId) (tokens : Direction → Option String) (initialState : SessionState) :
    SessionEngine :=
  let engine := create id tokens .prefetch
  if initialState = .prefetch then engine else engine.transition initialState

/-- What a session does on an event of the feed: `dispatch_ws_event`, or its part of
`_handle_market_resolved`. -/
def deliver (now : Time) (assetId : String) (event : FeedEvent) (s : SessionEngine) :
    SessionEngine × List EngineOutput :=
  match event with
  | .marketResolved =>
    match s.getBookForToken assetId with
    | none => (s, [])
    | some (dir, book) => (s.setBook dir book.handleMarketResolved, [])
  | event => s.dispatchWsEvent now assetId event

end SessionEngine

namespace IndexedManager

/-- `create_session`. -/
def createSession (m : IndexedManager) (now : Time) (id : SessionId)
    (tokens : Direction → Option String) (initialState : SessionState) : IndexedManager :=
  let engine := SessionEngine.createIn id tokens initialState
  if h : engine.sessionId ∈ m.engines.rows.map SessionEngine.sessionId then m
  else
    { engines := m.engines.insert engine h
      tokenIndex := m.tokenIndex.add engine.tokenIds id
      settlingAt := Function.update m.settlingAt id
        (if initialState = .settling then some now else none) }

/-- `transition_session`. -/
def transitionSession (m : IndexedManager) (now : Time) (id : SessionId) (newState : SessionState) :
    IndexedManager :=
  match m.engines.get id with
  | none => m
  | some engine =>
    let oldTokenIds := engine.tokenIds
    if newState = .archived then
      { m with engines := m.engines.erase id, tokenIndex := m.tokenIndex.remove oldTokenIds id }
    else
      { m with
        engines := m.engines.put (engine.transition newState)
        settlingAt :=
          if newState = .settling ∧ engine.state ≠ .archived then
            Function.update m.settlingAt id (some now)
          else m.settlingAt }

/-- `archive_settling_sessions`. -/
def archiveSettlingSessions (m : IndexedManager) (now graceSeconds : Time) : IndexedManager :=
  let toArchive := (m.engines.rows.filter fun engine => engine.state = .settling ∧
    (m.settlingAt engine.sessionId).any fun at_ =>
      graceSeconds < now - at_).map SessionEngine.sessionId
  toArchive.foldl (fun m sid => m.transitionSession now sid .archived) m

/-- `on_candle_boundary`. -/
def onCandleBoundary (m : IndexedManager) (now : Time) (symbol : BOSymbol) (timeframe : BOTimeframe)
    (newCandleTs : ℤ) : IndexedManager :=
  m.engines.rows.foldl (fun m engine =>
    if engine.sessionId.symbol ≠ symbol ∨ engine.sessionId.timeframe ≠ timeframe then m
    else if engine.state = .active ∧ engine.sessionId.candleOpen < newCandleTs then
      m.transitionSession now engine.sessionId .settling
    else if engine.state = .prefetch ∧ engine.sessionId.candleOpen = newCandleTs then
      m.transitionSession now engine.sessionId .active
    else m) m

/-- `shutdown`. -/
def shutdown (m : IndexedManager) (now : Time) : IndexedManager :=
  (m.engines.rows.map SessionEngine.sessionId).foldl (fun m sid =>
    match m.engines.get sid with
    | none => m
    | some engine =>
      transitionSession { m with
        engines := m.engines.put (engine.mapBooks fun b => b.shutdownBook.1) }
        now sid .archived) m

/-- `get_sessions_for_token`. -/
def getSessionsForToken (m : IndexedManager) (tokenId : String) : List SessionEngine :=
  (m.tokenIndex.listed tokenId).filterMap m.engines.get

/-- `dispatch_event`: the listed sessions that are registered take the event, one after the other.
Each delivery is recorded with what the session gave out on it. -/
def dispatchEvent (m : IndexedManager) (now : Time) (assetId : String) (event : FeedEvent) :
    IndexedManager × List (SessionId × List EngineOutput) :=
  let r := runOutputs
    (visit fun s => ((s.deliver now assetId event).1,
      [(s.sessionId, (s.deliver now assetId event).2)]))
    m.engines (m.tokenIndex.listed assetId)
  ({ m with engines := r.1 }, r.2)

/-- The manager of the other modules, with the derived index. -/
def toManager (m : IndexedManager) : SessionManager := ⟨m.engines⟩

end IndexedManager

inductive IndexAction
  | createSession (now : Time) (id : SessionId) (tokens : Direction → Option String)
      (initialState : SessionState)
  | transition (now : Time) (id : SessionId) (newState : SessionState)
  | archiveSettling (now graceSeconds : Time)
  | candleBoundary (now : Time) (symbol : BOSymbol) (timeframe : BOTimeframe) (newCandleTs : ℤ)
  | shutdown (now : Time)
  | dispatch (now : Time) (assetId : String) (event : FeedEvent)
  /-- Whatever else is done to the books of a session. -/
  | work (id : SessionId) (f : ShadowOrderbook → ShadowOrderbook)

/-- The UP and the DOWN token of a new session are different. -/
def IndexAction.Distinct : IndexAction → Prop
  | createSession _ _ tokens _ => tokens .up = none ∨ tokens .up ≠ tokens .down
  | _ => True

/-- A new session is not ARCHIVED. -/
def IndexAction.Starts : IndexAction → Prop
  | createSession _ _ _ initialState => initialState ≠ .archived
  | _ => True

instance (a : IndexAction) : Decidable a.Distinct := by
  cases a <;> unfold IndexAction.Distinct <;> infer_instance

instance (a : IndexAction) : Decidable a.Starts := by
  cases a <;> unfold IndexAction.Starts <;> infer_instance

def IndexedManager.step (m : IndexedManager) : IndexAction → Option IndexedManager
  | .createSession now id tokens initialState => some (m.createSession now id tokens initialState)
  | .transition now id newState => some (m.transitionSession now id newState)
  | .archiveSettling now graceSeconds => some (m.archiveSettlingSessions now graceSeconds)
  | .candleBoundary now symbol timeframe ts => some (m.onCandleBoundary now symbol timeframe ts)
  | .shutdown now => some (m.shutdown now)
  | .dispatch now assetId event => some (m.dispatchEvent now assetId event).1
  | .work id f => (m.engines.get id).map fun s => { m with engines := m.engines.put (s.mapBooks f) }

/-- The index lists the sessions by the tokens they own; an ARCHIVED one owns none. -/
structure IndexInv (m : IndexedManager) : Prop where
  exact : m.tokenIndex.Exact m.engines SessionEngine.tokenIds
  distinct : ∀ s ∈ m.engines.rows, s.tokenIds.Nodup
  archived : ∀ s ∈ m.engines.rows, s.state = .archived → s.tokenIds = []

/-- No registered engine is ARCHIVED. -/
def NoneArchived (m : IndexedManager) : Prop := ∀ s ∈ m.engines.rows, s.state ≠ .archived

/-- The token index is exact, and so is what `dispatch_event` makes of it. -/
structure ExactIndex (m : IndexedManager) : Prop where
  /-- Listed once under the tokens of its engine, and under no other. -/
  count : ∀ token id, (m.tokenIndex.listed token).count id =
    if (m.engines.get id).any (fun s => token ∈ s.tokenIds) then 1 else 0
  /-- The owners of the token take the event once each, and no one else does. -/
  deliveries : ∀ now assetId event, (m.dispatchEvent now assetId event).2 =
    (m.engines.rows.filter fun s => assetId ∈ s.tokenIds).map fun s =>
      (s.sessionId, (s.deliver now assetId event).2)
  engines : ∀ now assetId event, (m.dispatchEvent now assetId event).1.engines.rows =
    m.engines.rows.map fun s => if assetId ∈ s.tokenIds then (s.deliver now assetId event).1 else s
  /-- Nor does an owner reject it. -/
  accepted : ∀ s ∈ m.engines.rows, s.tokenIds ≠ [] → s.state ≠ .archived

section

variable {m m' : IndexedManager} {s s' : SessionEngine} {now : Time} {id : SessionId}
  {assetId token : String} {event : FeedEvent} {tokens : Direction → Option String}
  {state : SessionState} {a : IndexAction}

/-! ## Engines -/

theorem tokenIds_nodup (h : s.tokens .up = none ∨ s.tokens .up ≠ s.tokens .down) :
    s.tokenIds.Nodup := by
  unfold SessionEngine.tokenIds
  cases hup : s.tokens .up with
  | none => cases hdown : s.tokens .down <;> simp [hup, hdown]
  | some up =>
    cases hdown : s.tokens .down with
    | none => simp [hup, hdown]
    | some down =>
      have hne : up ≠ down := fun e => by simp [hup, hdown, e] at h
      simp [hup, hdown, hne]

/-- A transition to a state other than ARCHIVED keeps the tokens. -/
theorem transition_tokens (hnew : state ≠ .archived) : (s.transition state).tokens = s.tokens := by
  unfold SessionEngine.transition
  split
  · rfl
  · cases state with
    | archived => exact absurd rfl hnew
    | _ => rfl

theorem transition_archived (h : (s.transition state).state = .archived) :
    s.state = .archived ∨ state = .archived := by
  unfold SessionEngine.transition at h
  split at h
  · exact .inl h
  · cases state with
    | archived => exact .inr rfl
    | _ => cases h

theorem createIn_sessionId : (SessionEngine.createIn id tokens state).sessionId = id := by
  unfold SessionEngine.createIn
  dsimp only
  split
  · rfl
  · rw [transition_sessionId]
    rfl

theorem createIn_archived (h : (SessionEngine.createIn id tokens state).state = .archived) :
    state = .archived := by
  unfold SessionEngine.createIn at h
  dsimp only at h
  split at h
  · cases h
  · exact (transition_archived h).resolve_left fun h => by cases h

/-- A new engine has the tokens it is given, or none when it is ARCHIVED. -/
theorem createIn_tokens : (SessionEngine.createIn id tokens state).tokens = tokens ∨
    (SessionEngine.createIn id tokens state).tokens = fun _ => none := by
  cases state with
  | archived => exact .inr rfl
  | _ => exact .inl rfl

theorem createIn_tokenIds_archived (h : state = .archived) :
    (SessionEngine.createIn id tokens state).tokenIds = [] := by
  subst h
  rfl

/-- An engine that differs in its books. -/
structure SameEngine (s' s : SessionEngine) : Prop where
  sessionId : s'.sessionId = s.sessionId
  state : s'.state = s.state
  tokens : s'.tokens = s.tokens

theorem tokenIds_congr (h : s'.tokens = s.tokens) : s'.tokenIds = s.tokenIds := by
  unfold SessionEngine.tokenIds
  rw [h]

theorem sameEngine_deliver : SameEngine (s.deliver now assetId event).1 s := by
  have hws : ∀ event, SameEngine (s.dispatchWsEvent now assetId event).1 s := by
    intro event
    unfold SessionEngine.dispatchWsEvent
    split
    · exact ⟨rfl, rfl, rfl⟩
    · split <;> exact ⟨rfl, rfl, rfl⟩
  cases event with
  | marketResolved =>
    unfold SessionEngine.deliver
    dsimp only
    split <;> exact ⟨rfl, rfl, rfl⟩
  | _ => exact hws _

/-! ## Steps -/

/-- What is done to a registered engine: its tokens stay, and it is not ARCHIVED by it. -/
theorem IndexInv.put (h : IndexInv m) (hget : m.engines.get s'.sessionId = some s)
    (htokens : s'.tokens = s.tokens) (hstate : s'.state = .archived → s.state = .archived)
    (settlingAt : SessionId → Option Time) :
    IndexInv { m with engines := m.engines.put s', settlingAt := settlingAt } := by
  have hids := tokenIds_congr htokens
  have hmem := Table.mem_of_get hget
  refine ⟨h.exact.put hget hids, fun x hx => ?_, fun x hx => ?_⟩
  · rcases Table.mem_put hx with rfl | ⟨hx, -⟩
    · rw [hids]
      exact h.distinct s hmem
    · exact h.distinct x hx
  · rcases Table.mem_put hx with rfl | ⟨hx, -⟩
    · rw [hids]
      exact fun e => h.archived s hmem (hstate e)
    · exact h.archived x hx

theorem NoneArchived.put (h : NoneArchived m) (hget : m.engines.get s'.sessionId = some s)
    (hstate : s'.state = .archived → s.state = .archived) (settlingAt : SessionId → Option Time) :
    NoneArchived { m with engines := m.engines.put s', settlingAt := settlingAt } := by
  intro x hx
  rcases Table.mem_put hx with rfl | ⟨hx, -⟩
  · exact fun e => h s (Table.mem_of_get hget) (hstate e)
  · exact h x hx

theorem IndexInv.createSession (h : IndexInv m)
    (hdistinct : tokens .up = none ∨ tokens .up ≠ tokens .down) :
    IndexInv (m.createSession now id tokens state) := by
  have hnodup : (SessionEngine.createIn id tokens state).tokenIds.Nodup := by
    refine tokenIds_nodup ?_
    have hcreated : (SessionEngine.createIn id tokens state).tokens = tokens ∨ _ := createIn_tokens
    rcases hcreated with htokens | htokens
    · rw [htokens]
      exact hdistinct
    · rw [htokens]
      exact .inl rfl
  unfold IndexedManager.createSession
  dsimp only
  split
  · exact h
  · next hfresh =>
    refine ⟨?_, fun x hx => ?_, fun x hx => ?_⟩
    · have hexact := h.exact.insert hfresh hnodup
      rwa [createIn_sessionId] at hexact
    · rcases List.mem_append.mp hx with hx | hx
      · exact h.distinct x hx
      · rw [List.mem_singleton.mp hx]
        exact hnodup
    · rcases List.mem_append.mp hx with hx | hx
      · exact h.archived x hx
      · rw [List.mem_singleton.mp hx]
        exact fun e => createIn_tokenIds_archived (createIn_archived e)

theorem NoneArchived.createSession (h : NoneArchived m) (hstate : state ≠ .archived) :
    NoneArchived (m.createSession now id tokens state) := by
  unfold IndexedManager.createSession
  dsimp only
  split
  · exact h
  · intro x hx
    rcases List.mem_append.mp hx with hx | hx
    · exact h x hx
    · rw [List.mem_singleton.mp hx]
      exact fun e => hstate (createIn_archived e)

theorem IndexInv.transitionSession (h : IndexInv m) :
    IndexInv (m.transitionSession now id state) := by
  unfold IndexedManager.transitionSession
  cases hget : m.engines.get id with
  | none => exact h
  | some engine =>
    have hmem := Table.mem_of_get hget
    dsimp only
    split
    · exact ⟨h.exact.erase hget (h.distinct engine hmem),
        fun x hx => h.distinct x (List.mem_of_mem_filter hx),
        fun x hx => h.archived x (List.mem_of_mem_filter hx)⟩
    · next hnew =>
      have hid : (engine.transition state).sessionId = id :=
        transition_sessionId.trans (Table.key_of_get hget)
      exact h.put (hid ▸ hget) (transition_tokens hnew)
        (fun e => (transition_archived e).resolve_right hnew) _

theorem NoneArchived.transitionSession (h : NoneArchived m) :
    NoneArchived (m.transitionSession now id state) := by
  unfold IndexedManager.transitionSession
  cases hget : m.engines.get id with
  | none => exact h
  | some engine =>
    dsimp only
    split
    · exact fun x hx => h x (List.mem_of_mem_filter hx)
    · next hnew =>
      have hid : (engine.transition state).sessionId = id :=
        transition_sessionId.trans (Table.key_of_get hget)
      exact h.put (hid ▸ hget) (fun e => (transition_archived e).resolve_right hnew) _

end

/-- Invariants of the steps on registered engines: kept by transitions, and by work on the books. -/
structure EngineInvariant (inv : IndexedManager → Prop) : Prop where
  transition : ∀ {m now id state}, inv m → inv (m.transitionSession now id state)
  books : ∀ {m id s s'}, inv m → m.engines.get id = some s → SameEngine s' s →
    inv { m with engines := m.engines.put s' }

theorem indexInv_invariant : EngineInvariant IndexInv where
  transition h := h.transitionSession
  books {m id s s'} h hget hsame := by
    have hid : s'.sessionId = id := hsame.sessionId.trans (Table.key_of_get hget)
    exact h.put (hid ▸ hget) hsame.tokens (fun e => hsame.state ▸ e) m.settlingAt

theorem noneArchived_invariant : EngineInvariant NoneArchived where
  transition h := h.transitionSession
  books {m id s s'} h hget hsame := by
    have hid : s'.sessionId = id := hsame.sessionId.trans (Table.key_of_get hget)
    exact h.put (hid ▸ hget) (fun e => hsame.state ▸ e) m.settlingAt

section

variable {m m' : IndexedManager} {inv : IndexedManager → Prop} {now : Time} {assetId token : String}
  {event : FeedEvent} {a : IndexAction} {id : SessionId} {tokens : Direction → Option String}
  {state : SessionState}

theorem EngineInvariant.shutdown (hinv : EngineInvariant inv) (h : inv m) :
    inv (m.shutdown now) := by
  refine List.foldlRecOn _ _ h fun m h sid _ => ?_
  cases hget : m.engines.get sid with
  | none => exact h
  | some engine =>
    have hsame : SameEngine (engine.mapBooks fun b => b.shutdownBook.1) engine := ⟨rfl, rfl, rfl⟩
    exact hinv.transition (hinv.books h hget hsame)

theorem EngineInvariant.dispatchEvent (hinv : EngineInvariant inv) (h : inv m) :
    inv (m.dispatchEvent now assetId event).1 := by
  unfold IndexedManager.dispatchEvent
  generalize m.tokenIndex.listed assetId = ids
  induction ids generalizing m with
  | nil => exact h
  | cons id ids ih =>
    rw [runOutputs_cons]
    refine ih (m := { m with engines := _ }) ?_
    unfold visit
    cases hget : m.engines.get id with
    | none => exact h
    | some s => exact hinv.books h hget sameEngine_deliver

/-- **One step** other than a creation keeps an invariant of the engines. -/
theorem EngineInvariant.step (hinv : EngineInvariant inv) (h : inv m)
    (hcreate : ∀ now id tokens state, a = .createSession now id tokens state →
      inv (m.createSession now id tokens state)) (hstep : m.step a = some m') : inv m' := by
  cases a with
  | createSession now id tokens state =>
    cases hstep
    exact hcreate now id tokens state rfl
  | transition now id state =>
    cases hstep
    exact hinv.transition h
  | archiveSettling now grace =>
    cases hstep
    exact List.foldlRecOn _ _ h fun m h _ _ => hinv.transition h
  | candleBoundary now symbol timeframe ts =>
    cases hstep
    refine List.foldlRecOn _ _ h fun m h engine _ => ?_
    split_ifs
    · exact h
    · exact hinv.transition h
    · exact hinv.transition h
    · exact h
  | shutdown now =>
    cases hstep
    exact hinv.shutdown h
  | dispatch now assetId event =>
    cases hstep
    exact hinv.dispatchEvent h
  | work id f =>
    obtain ⟨s, hget, rfl⟩ := Option.map_eq_some_iff.mp hstep
    exact hinv.books h hget ⟨rfl, rfl, rfl⟩

theorem indexInv_step (h : IndexInv m) (hguard : a.Distinct) (hstep : m.step a = some m') :
    IndexInv m' :=
  indexInv_invariant.step h (fun _ _ _ _ e => h.createSession (by subst e; exact hguard)) hstep

theorem noneArchived_step (h : NoneArchived m) (hguard : a.Starts) (hstep : m.step a = some m') :
    NoneArchived m' :=
  noneArchived_invariant.step h (fun _ _ _ _ e => h.createSession (by subst e; exact hguard)) hstep

end

/-! ## What the index is for -/

section

variable {m : IndexedManager} {now : Time} {assetId token : String} {event : FeedEvent}
  {id : SessionId} {tokens : Direction → Option String} {state : SessionState}

theorem mem_listed_iff (h : IndexInv m) {s : SessionEngine} (hs : s ∈ m.engines.rows) :
    s.sessionId ∈ m.tokenIndex.listed token ↔ token ∈ s.tokenIds := by
  rw [h.exact.listed token, List.mem_map]
  constructor
  · rintro ⟨r, hr, hid⟩
    obtain ⟨hr, hrt⟩ := List.mem_filter.mp hr
    have hrs : some r = some s := (Table.get_of_mem hr).symm.trans (hid ▸ Table.get_of_mem hs)
    obtain rfl := Option.some.inj hrs
    exact of_decide_eq_true hrt
  · exact fun ht => ⟨s, List.mem_filter.mpr ⟨hs, decide_eq_true ht⟩, rfl⟩

/-- `get_sessions_for_token` returns the owners. -/
theorem getSessionsForToken_eq (h : IndexInv m) :
    m.getSessionsForToken token = m.engines.rows.filter fun s => token ∈ s.tokenIds := by
  unfold IndexedManager.getSessionsForToken
  rw [h.exact.listed token, List.filterMap_map]
  refine (List.filterMap_congr fun s hs => ?_).trans List.filterMap_some
  exact Table.get_of_mem (List.mem_of_mem_filter hs)

/-- **Dispatch**: the owners of the token take the event, each once. -/
theorem dispatchEvent_exact (h : IndexInv m) :
    (m.dispatchEvent now assetId event).2 =
        (m.engines.rows.filter fun s => assetId ∈ s.tokenIds).map
        (fun s => (s.sessionId, (s.deliver now assetId event).2)) ∧
      (m.dispatchEvent now assetId event).1.engines.rows =
        m.engines.rows.map fun s =>
          if assetId ∈ s.tokenIds then (s.deliver now assetId event).1 else s := by
  obtain ⟨hrows, houts⟩ := runOutputs_visit
    (f := fun s => ((s.deliver now assetId event).1,
      [(s.sessionId, (s.deliver now assetId event).2)]))
    (fun _ => sameEngine_deliver.sessionId) (h.exact.nodup assetId) m.engines
  constructor
  · refine houts.trans ?_
    rw [h.exact.listed assetId, List.flatMap_map, ← List.flatMap_pure_eq_map]
    refine List.flatMap_congr fun s hs => ?_
    rw [Table.get_of_mem (List.mem_of_mem_filter hs)]
    rfl
  · refine hrows.trans (List.map_congr_left fun s hs => ?_)
    simp only [mem_listed_iff h hs]

theorem IndexInv.exactIndex (h : IndexInv m) : ExactIndex m where
  count token id := h.exact.count token id
  deliveries _ _ _ := (dispatchEvent_exact h).1
  engines _ _ _ := (dispatchEvent_exact h).2
  accepted s hs hne harchived := hne (h.archived s hs harchived)

theorem indexInv_empty : IndexInv {} where
  exact := exact_empty
  distinct _ h := nomatch h
  archived _ h := nomatch h

/-! ## The derived index -/

theorem toManager_tokenIndex (h : IndexInv m) :
    m.toManager.tokenIndex token = m.tokenIndex.listed token := by
  rw [h.exact.listed token]
  have hdistinct := h.distinct
  show m.engines.rows.flatMap _ = _
  generalize m.engines.rows = rows at hdistinct
  induction rows with
  | nil => rfl
  | cons s rows ih =>
    have hs : s.tokenIds.filter (· = token) = if token ∈ s.tokenIds then [token] else [] := by
      rw [List.filter_eq, (hdistinct s List.mem_cons_self).count]
      split <;> rfl
    rw [List.flatMap_cons, hs, ih fun r hr => hdistinct r (List.mem_cons_of_mem _ hr)]
    by_cases ht : token ∈ s.tokenIds <;> simp [ht]

theorem toManager_createSession (hstate : state = .prefetch ∨ state = .active) :
    (m.createSession now id tokens state).toManager =
      m.toManager.createSession id tokens state := by
  have hcreate : SessionEngine.createIn id tokens state = SessionEngine.create id tokens state := by
    rcases hstate with rfl | rfl <;> rfl
  unfold IndexedManager.createSession SessionManager.createSession
  rw [hcreate]
  exact apply_dite IndexedManager.toManager _ _ _

theorem toManager_transitionSession :
    (m.transitionSession now id state).toManager = m.toManager.transitionSession id state := by
  unfold IndexedManager.transitionSession SessionManager.transitionSession SessionManager.getSession
  show IndexedManager.toManager _ = match m.engines.get id with | none => _ | some s => _
  cases m.engines.get id with
  | none => rfl
  | some engine =>
    dsimp only
    split <;> rfl

theorem toManager_onCandleBoundary {symbol : BOSymbol} {timeframe : BOTimeframe} {ts : ℤ} :
    (m.onCandleBoundary now symbol timeframe ts).toManager =
      m.toManager.onCandleBoundary symbol timeframe ts := by
  unfold IndexedManager.onCandleBoundary SessionManager.onCandleBoundary
  show _ = m.engines.rows.foldl _ m.toManager
  generalize m.engines.rows = rows
  induction rows generalizing m with
  | nil => rfl
  | cons engine rows ih =>
    rw [List.foldl_cons, List.foldl_cons, ih]
    congr 1
    split_ifs <;> first | rfl | exact toManager_transitionSession

theorem toManager_dispatchEvent (h : IndexInv m) : m.toManager.dispatchEvent now assetId event =
    ((m.dispatchEvent now assetId event).1.toManager,
      (m.dispatchEvent now assetId event).2.flatMap Prod.snd) := by
  let f : SessionEngine → SessionEngine × List (SessionId × List EngineOutput) := fun s =>
    ((s.deliver now assetId event).1, [(s.sessionId, (s.deliver now assetId event).2)])
  have hall : ∀ g : SessionManager → SessionId → SessionManager × List EngineOutput,
      (∀ t id, g ⟨t⟩ id = (⟨(visit f t id).1⟩, (visit f t id).2.flatMap Prod.snd)) →
      ∀ ids t, runOutputs g ⟨t⟩ ids =
        (⟨(runOutputs (visit f) t ids).1⟩, (runOutputs (visit f) t ids).2.flatMap Prod.snd) := by
    intro g hg ids
    induction ids with
    | nil => exact fun _ => rfl
    | cons id ids ih =>
      intro t
      rw [runOutputs_cons, runOutputs_cons, hg, ih, List.flatMap_append]
  unfold SessionManager.dispatchEvent
  rw [toManager_tokenIndex h]
  cases event with
  | marketResolved =>
    refine hall _ (fun t id => ?_) _ _
    unfold SessionManager.resolveSession SessionManager.getSession visit
    cases hget : t.get id with
    | none => rfl
    | some s =>
      have hid : s.sessionId = id := Table.key_of_get hget
      have hput : t.put s = t := Table.put_of_get (hid ▸ hget)
      dsimp only [f]
      rw [List.flatMap_singleton]
      unfold SessionEngine.deliver
      cases s.getBookForToken assetId with
      | none => exact Prod.ext (congrArg SessionManager.mk hput.symm) rfl
      | some _ => rfl
  | _ =>
    refine hall _ (fun t id => ?_) _ _
    unfold SessionManager.dispatchToSession SessionManager.getSession visit
    cases hget : t.get id with
    | none => rfl
    | some s =>
      dsimp only [f]
      rw [List.flatMap_singleton]
      rfl

end

/-! ## Reachable states -/

section

variable {m : IndexedManager}

/-- **The token index**: in every run of the manager's operations (each session's UP and DOWN tokens
being different) it is exact, and where no session was created ARCHIVED no registered engine is
ARCHIVED. -/
theorem token_index_exact (hrun : Run IndexedManager.step (fun _ a => a.Distinct) {} m) :
    ExactIndex m ∧ (Run IndexedManager.step (fun _ a => a.Distinct ∧ a.Starts) {} m →
      NoneArchived m) :=
  ⟨(hrun.invariant IndexInv indexInv_empty fun _ _ _ h hg hs => indexInv_step h hg hs).exactIndex,
    fun hrun => hrun.invariant NoneArchived (fun _ h => absurd h List.not_mem_nil)
        fun _ _ _ h hg hs =>
      noneArchived_step h hg.2 hs⟩

end

namespace TokenIndexExample

def first : SessionId := ⟨.btc, .m5, 300⟩

def second : SessionId := ⟨.btc, .m5, 600⟩

/-- The two sessions share the UP token. -/
def tokens (down : String) : Direction → Option String
  | .up => some "up"
  | .down => some down

/-- Both sessions live through a candle boundary. -/
def boundary : List IndexAction :=
  [.createSession 0 first (tokens "down1") .active,
    .createSession 1 second (tokens "down2") .prefetch, .candleBoundary 600 .btc .m5 600]

end TokenIndexExample

open TokenIndexExample in
/-- The grace period is over for the first session, and only the second is listed under their
token. -/
theorem token_index_exact_shared : ∃ m,
    (m.tokenIndex.listed "up" = [first, second] ∧ ExactIndex m ∧ NoneArchived m) ∧
      (m.archiveSettlingSessions 631 30).tokenIndex.listed "up" = [second] := by
  have hexec :
    (exec IndexedManager.step (fun _ a => a.Distinct ∧ a.Starts) {} boundary).any fun m =>
      m.tokenIndex.listed "up" = [first, second] ∧
        (m.archiveSettlingSessions 631 30).tokenIndex.listed "up" = [second] := by
    decide +kernel
  have hdistinct : (exec IndexedManager.step (fun _ a => a.Distinct) {} boundary) =
      exec IndexedManager.step (fun _ a => a.Distinct ∧ a.Starts) {} boundary := rfl
  obtain ⟨m, hm, hlisted⟩ := (Option.any_eq_true _ _).mp hexec
  obtain ⟨hboth, hone⟩ := of_decide_eq_true hlisted
  obtain ⟨hexact, hnone⟩ := token_index_exact (m := m) (run_of_exec (hdistinct.trans hm))
  exact ⟨m, ⟨hboth, hexact, hnone (run_of_exec hm)⟩, hone⟩

open TokenIndexExample in
/-- A session that is created ARCHIVED is registered. -/
theorem archived_registered : ∃ m, Run IndexedManager.step (fun _ a => a.Distinct) {} m ∧
    ¬ (ExactIndex m ∧ NoneArchived m) := by
  have hexec : (exec IndexedManager.step (fun _ a => a.Distinct) {}
      [.createSession 0 first (tokens "down1") .archived]).any fun m =>
        m.engines.rows.any fun s => s.state = .archived := by
    decide +kernel
  obtain ⟨m, hm, hany⟩ := (Option.any_eq_true _ _).mp hexec
  obtain ⟨s, hs, harchived⟩ := List.any_eq_true.mp hany
  exact ⟨m, run_of_exec hm, fun h => h.2 s hs (of_decide_eq_true harchived)⟩

end PolyArena
