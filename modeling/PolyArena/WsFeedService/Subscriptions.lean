import PolyArena.WsFeedService.MarketFeed
import PolyArena.WsFeedService.Recovery
import PolyArena.WsFeedService.Refresh

/-!
# Sessions and the subscription

Which tokens of the sessions the market feed has, as `main.py` connects the registry, the sessions
and the feed.  The feed is told of the tokens that were found at the start, of those that a refresh
reports as changed, and of those of the sessions that the lifecycle tick made; not of the tokens of
later candles that a refresh looks up on the way, though `_update_sessions_from_registry` makes
sessions of these.

1. `MarketAction.step`: what the event loop, the threads of lookups, the connection and the server
   do, in any order.
2. `marketInv_step`: the registry's current tokens are always known to the feed, or on their way to
   it.
3. `active_subscribed`: so are the tokens of the ACTIVE sessions, as long as each session of the
   current candle that `_update_sessions_from_registry` finds is ACTIVE already or has the
   registry's current tokens; then an idle connection has them all.
4. `promoted_unsubscribed`: without the condition an ACTIVE session can be left without a
   subscription.
-/

namespace PolyArena

/-- `discover_all`: the registry, and the tokens it returns. -/
def TokenRegistry.discoverAll (answers : FetchAnswers) : TokenRegistry × List String :=
  (SessionManager.markets.flatMap fun p => [Direction.up, .down].map fun dir =>
    (⟨p.1, p.2, dir⟩ : Combo)).foldl
    (fun found c =>
      match answers.current c with
      | none => found
      | some token =>
        let now := answers.now c
        let later := (futureSettlements c.timeframe now TOKEN_PREFETCH_CANDLES).filterMap
          (answers.later c)
        ((found.1.recordCurrent c now token).prefetchFuture c now (answers.later c),
          found.2 ++ token :: later))
    ({}, [])

/-- The tokens of a session. -/
def foundTokens (tokens : Direction → Option String) : List String :=
  [Direction.up, .down].filterMap tokens

/-- The service with a feed, as far as tokens go. -/
structure MarketSide where
  registry : TokenRegistry
  manager : SessionManager
  feed : MarketFeed
  /-- The reports of refreshes that `on_new_tokens` has not been called with. -/
  reports : List (List String) := []
  /-- The tokens of sessions that the tick made and has not told the feed of. -/
  made : List String := []

/-- The start of the service at `now`, up to the start of the feed; there is no feed when nothing
was found. -/
def MarketSide.start (answers : FetchAnswers) (now : ℤ) : Option MarketSide :=
  let found := TokenRegistry.discoverAll answers
  if found.2 = [] then none
  else some {
    registry := found.1
    manager := SessionManager.empty.createSessionsFromRegistry found.1 now
    feed := { tokenIds := found.2 } }

inductive MarketAction
  /-- One attempt of a refresh, in its thread. -/
  | fetch (tf : BOTimeframe) (answers : FetchAnswers)
  /-- `on_new_tokens`, on the event loop. -/
  | onNewTokens (ids : List String) (now : ℤ)
  /-- `ensure_future_sessions` makes a session that was missing when it began, in its thread. -/
  | ensure (now : ℤ) (id : SessionId) (tokens : Direction → Option String)
  /-- The end of a tick. -/
  | addMade
  | cleanup (now : ℤ)
  | recover (now : Time) (bo : BinaryOption)
  | feed (a : FeedAction)

namespace MarketAction

def step (s : MarketSide) : MarketAction → Option MarketSide
  | fetch tf answers =>
    let e := s.registry.fetchTimeframe (timeframeCombos [.btc, .eth] tf) answers
    some { s with
      registry := e.1
      -- without a token that changed, the refresh tries again
      reports := if e.2.getD [] = [] then s.reports else s.reports ++ [e.2.getD []] }
  | onNewTokens ids now =>
    if ids ∈ s.reports then some { s with
      reports := s.reports.erase ids
      manager := s.manager.updateSessionsFromRegistry s.registry now
      feed := s.feed.addTokens ids }
    else none
  | ensure now id tokens =>
    let e := ensureSession s.manager s.registry now id tokens
    some { s with manager := e.1, registry := e.2, made := s.made ++ foundTokens tokens }
  | addMade => some { s with feed := s.feed.addTokens s.made, made := [] }
  | cleanup now => some { s with manager := s.manager.cleanupExpiredSessions now }
  | recover now bo => some { s with manager := (recoverOrder s.manager s.registry now bo).1 }
  | feed a => (a.step s.feed).map fun f => { s with feed := f }

end MarketAction

/-! ## Tokens of sessions -/

/-- All tokens are of `S`. -/
def TokensIn (S : List String) (tokens : Direction → Option String) : Prop :=
  ∀ dir token, tokens dir = some token → token ∈ S

/-- The tokens of every ACTIVE session are of `S`. -/
def ActiveIn (S : List String) (m : SessionManager) : Prop :=
  ∀ s ∈ m.engines.rows, s.state = .active → TokensIn S s.tokens

def SessionId.IsCurrent (id : SessionId) (now : ℤ) : Prop :=
  id.candleOpen = currentCandleOpen id.timeframe now

instance (id : SessionId) (now : ℤ) : Decidable (id.IsCurrent now) :=
  inferInstanceAs (Decidable (_ = _))

/-- The same of the sessions of the current candle, in whatever state. -/
def CurrentIn (S : List String) (now : ℤ) (m : SessionManager) : Prop :=
  ∀ s ∈ m.engines.rows, s.state = .active ∨ s.sessionId.IsCurrent now → TokensIn S s.tokens

section

variable {S S' : List String} {m : SessionManager} {s : SessionEngine} {id : SessionId} {now : ℤ}
  {tokens : Direction → Option String} {state newState : SessionState} {r : TokenRegistry}

theorem TokensIn.mono (h : TokensIn S tokens) (hsub : S ⊆ S') : TokensIn S' tokens :=
  fun dir token htoken => hsub (h dir token htoken)

theorem ActiveIn.mono (h : ActiveIn S m) (hsub : S ⊆ S') : ActiveIn S' m :=
  fun s hs hactive => (h s hs hactive).mono hsub

theorem activeIn_createSession (h : ActiveIn S m) (htokens : state = .active → TokensIn S tokens) :
    ActiveIn S (m.createSession id tokens state) := by
  unfold SessionManager.createSession
  split
  · exact h
  · intro s hs hactive
    rcases List.mem_append.mp hs with hs | hs
    · exact h s hs hactive
    · obtain rfl := List.mem_singleton.mp hs
      exact htokens hactive

theorem currentIn_createSession (h : CurrentIn S now m) (htokens : TokensIn S tokens) :
    CurrentIn S now (m.createSession id tokens state) := by
  unfold SessionManager.createSession
  split
  · exact h
  · intro s hs hcurrent
    rcases List.mem_append.mp hs with hs | hs
    · exact h s hs hcurrent
    · obtain rfl := List.mem_singleton.mp hs
      exact htokens

/-- A transition, which makes a session ACTIVE only when it is one of the current candle. -/
theorem currentIn_transitionSession (h : CurrentIn S now m)
    (hnew : newState = .active → id.IsCurrent now) :
    CurrentIn S now (m.transitionSession id newState) := by
  unfold SessionManager.transitionSession
  cases hget : m.getSession id with
  | none => exact h
  | some s =>
    dsimp only
    split
    · exact fun x hx => h x (List.mem_of_mem_filter hx)
    · next hstate =>
      intro x hx hcurrent
      rcases Table.mem_put hx with rfl | ⟨hx, -⟩
      · have hs : s ∈ m.engines.rows := Table.mem_of_get hget
        have hid : s.sessionId = id := Table.key_of_get hget
        rw [tokens_transition hstate]
        rw [sessionId_transition] at hcurrent
        refine h s hs ?_
        by_cases harchived : s.state = .archived
        · unfold SessionEngine.transition at hcurrent
          rwa [if_pos harchived] at hcurrent
        · rcases hcurrent with hactive | hcurrent
          · refine .inr (hid ▸ hnew ?_)
            unfold SessionEngine.transition at hactive
            rw [if_neg harchived] at hactive
            cases newState <;> first | rfl | cases hactive
          · exact .inr hcurrent
      · exact h x hx hcurrent

/-- The end of a session makes none ACTIVE. -/
theorem activeIn_transitionSession (h : ActiveIn S m) (hnew : newState ≠ .active) :
    ActiveIn S (m.transitionSession id newState) := by
  unfold SessionManager.transitionSession
  cases hget : m.getSession id with
  | none => exact h
  | some s =>
    dsimp only
    split
    · exact fun x hx => h x (List.mem_of_mem_filter hx)
    · next hstate =>
      intro x hx hactive
      rcases Table.mem_put hx with rfl | ⟨hx, -⟩
      · rw [tokens_transition hstate]
        refine h s (Table.mem_of_get hget) ?_
        unfold SessionEngine.transition at hactive
        split at hactive
        · exact hactive
        · cases newState <;> first | exact absurd rfl hnew | cases hactive
      · exact h x hx hactive

theorem activeIn_cleanupExpiredSessions (h : ActiveIn S m) (now : ℤ) :
    ActiveIn S (m.cleanupExpiredSessions now) := by
  refine List.foldlRecOn (motive := ActiveIn S) _ _ h fun m h s _ => ?_
  split_ifs
  · exact activeIn_transitionSession
      (activeIn_transitionSession h SessionState.noConfusion) SessionState.noConfusion
  · exact activeIn_transitionSession h SessionState.noConfusion
  · exact h

theorem currentIn_onCandleBoundary (h : CurrentIn S now m) (symbol : BOSymbol)
    (timeframe : BOTimeframe) :
    CurrentIn S now (m.onCandleBoundary symbol timeframe (currentCandleOpen timeframe now)) := by
  refine List.foldlRecOn (motive := CurrentIn S now) _ _ h fun m h engine _ => ?_
  split_ifs with hother hended hbegun
  · exact h
  · exact currentIn_transitionSession h fun hactive => nomatch hactive
  · refine currentIn_transitionSession h fun _ => ?_
    rw [not_or, not_not, not_not] at hother
    unfold SessionId.IsCurrent
    rw [hother.2]
    exact hbegun.2
  · exact h

/-! ## `_update_sessions_from_registry` -/

/-- The registry's current tokens are of `S`. -/
def MappingIn (S : List String) (r : TokenRegistry) : Prop :=
  ∀ c token, r.mapping c = some token → token ∈ S

theorem MappingIn.mono (h : MappingIn S r) (hsub : S ⊆ S') : MappingIn S' r :=
  fun c token htoken => hsub (h c token htoken)

theorem currentIn_updateCurrentSession (h : CurrentIn S now m) (hr : MappingIn S r)
    (symbol : BOSymbol) (timeframe : BOTimeframe) :
    CurrentIn S now (m.updateCurrentSession r now symbol timeframe) := by
  have htokens : TokensIn S (r.currentTokens symbol timeframe) :=
    fun dir token => hr ⟨symbol, timeframe, dir⟩ token
  unfold SessionManager.updateCurrentSession
  dsimp only
  split
  · exact h
  · refine currentIn_onCandleBoundary ?_ symbol timeframe
    split
    · exact currentIn_createSession h htokens
    · split
      · exact currentIn_transitionSession h fun _ => rfl
      · exact h

theorem activeIn_createFutureSessions (h : ActiveIn S m) (r : TokenRegistry) :
    ActiveIn S (m.createFutureSessions r) :=
  List.foldlRecOn (motive := ActiveIn S) _ _ h fun _ h _ _ =>
    activeIn_createSession h fun hactive => nomatch hactive

theorem activeIn_updateSessionsFromRegistry (h : CurrentIn S now m) (hr : MappingIn S r) :
    ActiveIn S (m.updateSessionsFromRegistry r now) := by
  refine activeIn_createFutureSessions (fun s hs hactive => ?_) r
  have hcurrent : CurrentIn S now (SessionManager.markets.foldl
      (fun m p => m.updateCurrentSession r now p.1 p.2) m) :=
    List.foldlRecOn (motive := CurrentIn S now) _ _ h fun _ h p _ =>
      currentIn_updateCurrentSession h hr p.1 p.2
  exact hcurrent s hs (.inl hactive)

theorem activeIn_createSessionsFromRegistry (h : ActiveIn S m) (hr : MappingIn S r) :
    ActiveIn S (m.createSessionsFromRegistry r now) := by
  refine activeIn_createFutureSessions ?_ r
  refine List.foldlRecOn (motive := ActiveIn S) _ _ h fun m h p _ => ?_
  unfold SessionManager.createCurrentSession
  dsimp only
  split
  · exact h
  · exact activeIn_createSession h fun _ dir token => hr ⟨p.1, p.2, dir⟩ token

end

/-! ## The registry's current tokens -/

section

variable {S S' : List String} {r : TokenRegistry} {f : Fetched} {combos : List Combo}
  {answers : FetchAnswers} {c : Combo} {now : ℤ} {token : String}

theorem mappingIn_recordCurrent (h : MappingIn S r) (c : Combo) (now : ℤ) (htoken : token ∈ S) :
    MappingIn S (r.recordCurrent c now token) := by
  intro c' token' hc
  replace hc : Function.update r.mapping c (some token) c' = some token' := hc
  rw [Function.update_apply] at hc
  split_ifs at hc
  · cases hc
    exact htoken
  · exact h c' token' hc

theorem mappingIn_discoverAll (answers : FetchAnswers) :
    MappingIn (TokenRegistry.discoverAll answers).2 (TokenRegistry.discoverAll answers).1 := by
  refine List.foldlRecOn (motive := fun found : TokenRegistry × List String =>
    MappingIn found.2 found.1) _ _
    (fun _ _ h => nomatch h) fun found h c _ => ?_
  cases answers.current c with
  | none => exact h
  | some token =>
    dsimp only
    intro c' token' hc
    rw [prefetchFuture_mapping] at hc
    have hmem : token ∈ found.2 ++ token :: (futureSettlements c.timeframe (answers.now c)
        TOKEN_PREFETCH_CANDLES).filterMap (answers.later c) :=
      List.mem_append_right _ List.mem_cons_self
    exact mappingIn_recordCurrent (h.mono (List.subset_append_left _ _)) c
      (answers.now c) hmem c' token' hc

/-- What a lookup puts into the mapping is reported, or it was there. -/
theorem mappingIn_lookUp (h : MappingIn (S ++ f.localNew) f.registry) (c : Combo) :
    MappingIn (S ++ (f.lookUp answers c).localNew) (f.lookUp answers c).registry := by
  unfold Fetched.lookUp
  cases answers.current c with
  | none => exact h
  | some token =>
    dsimp only
    intro c' token' hc
    rw [prefetchFuture_mapping] at hc
    split_ifs with hnew
    · have hmem : token ∈ S ++ (f.localNew ++ [token]) :=
        List.mem_append_right _ (List.mem_append_right _ (List.mem_singleton_self token))
      refine mappingIn_recordCurrent (h.mono ?_) c (answers.now c) hmem c' token' hc
      rw [← List.append_assoc]
      exact List.subset_append_left _ _
    · exact mappingIn_recordCurrent h c (answers.now c)
        (h c token (not_not.mp hnew).symm) c' token' hc

theorem mappingIn_fetchTimeframe (h : MappingIn S r) (combos : List Combo)
    (answers : FetchAnswers) : MappingIn
    (S ++ (combos.foldl (Fetched.lookUp answers) { registry := r }).localNew)
      (r.fetchTimeframe combos answers).1 := by
  refine List.foldlRecOn (motive := fun f : Fetched =>
    MappingIn (S ++ f.localNew) f.registry) combos _ ?_
    fun f h c _ => mappingIn_lookUp h c
  exact h.mono (List.subset_append_left _ _)

/-- An attempt without a report puts nothing new into the mapping. -/
theorem mappingIn_told (h : MappingIn S r) {r' : TokenRegistry} {told : Option (List String)}
    (hfetch : r.fetchTimeframe combos answers = (r', told)) : MappingIn (S ++ told.getD []) r' := by
  have hnew := mappingIn_fetchTimeframe h combos answers
  have hok : (combos.foldl (Fetched.lookUp answers) { registry := r }).localNew ≠ [] →
      (combos.foldl (Fetched.lookUp answers) { registry := r }).localOk = true :=
        foldl_localOk fun h => absurd rfl h
  unfold TokenRegistry.fetchTimeframe at hfetch hnew
  dsimp only at hfetch hnew
  generalize combos.foldl (Fetched.lookUp answers) { registry := r } = f at hfetch hnew hok
  cases hfetch
  by_cases hlocal : f.localOk = true
  · rw [if_pos hlocal]
    exact hnew
  · rw [if_neg hlocal]
    have hnil : f.localNew = [] := not_not.mp fun hne => hlocal (hok hne)
    rwa [hnil] at hnew

/-- What the tick records of a token. -/
theorem mappingIn_recordEnsured (h : MappingIn S r) (id : SessionId) (dir : Direction)
    (htoken : token ∈ S) :
    MappingIn S (r.recordEnsured now id dir token) := by
  intro c' token' hc
  unfold TokenRegistry.recordEnsured at hc
  dsimp only at hc
  split_ifs at hc
  · replace hc : Function.update r.mapping _ (some token) c' = some token' := hc
    rw [Function.update_apply] at hc
    split_ifs at hc
    · cases hc
      exact htoken
    · exact h c' token' hc
  · exact h c' token' hc
  · exact h c' token' hc

theorem mappingIn_ensureSession {m : SessionManager} {id : SessionId}
    {tokens : Direction → Option String} (h : MappingIn S r) (htokens : TokensIn S tokens) :
    MappingIn S (ensureSession m r now id tokens).2 := by
  unfold ensureSession
  split
  · exact h
  · refine List.foldlRecOn (motive := MappingIn S) _ _ h fun r h dir _ => ?_
    cases hdir : tokens dir with
    | none => exact h
    | some token => exact mappingIn_recordEnsured h id dir (htokens dir token hdir)

theorem activeIn_ensureSession {m : SessionManager} {id : SessionId}
    {tokens : Direction → Option String} (h : ActiveIn S m) (htokens : TokensIn S tokens) :
    ActiveIn S (ensureSession m r now id tokens).1 := by
  unfold ensureSession
  split
  · exact h
  · exact activeIn_createSession h fun _ => htokens

theorem tokensIn_foundTokens (tokens : Direction → Option String) :
    TokensIn (foundTokens tokens) tokens :=
  fun dir _ htoken => List.mem_filterMap.mpr ⟨dir, by cases dir <;> simp, htoken⟩

theorem activeIn_recoverOrder {m : SessionManager} (h : ActiveIn S m) (hr : MappingIn S r)
    (now : Time) (bo : BinaryOption) : ActiveIn S (recoverOrder m r now bo).1 := by
  unfold recoverOrder
  split
  · exact h
  · exact activeIn_createSession h fun _ dir token => hr ⟨bo.symbol, bo.timeframe, dir⟩ token

end

/-! ## The service -/

/-- The tokens that the feed has or will be told of. -/
def MarketSide.known (s : MarketSide) : List String :=
  s.feed.tokenIds ++ (s.reports.flatten ++ s.made)

/-- A session of the current candle that `_update_sessions_from_registry` finds is ACTIVE, or has
the registry's current tokens. -/
def PromotesCurrent (s : MarketSide) : MarketAction → Prop
  | .onNewTokens _ now =>
    ∀ e ∈ s.manager.engines.rows, e.sessionId.IsCurrent now → e.state = .active ∨
      ∀ dir ∈ [Direction.up, .down], e.tokens dir = none ∨
        e.tokens dir = s.registry.mapping ⟨e.sessionId.symbol, e.sessionId.timeframe, dir⟩
  | _ => True

instance (s : MarketSide) (a : MarketAction) : Decidable (PromotesCurrent s a) := by
  cases a <;> unfold PromotesCurrent <;> infer_instance

structure MarketInv (s : MarketSide) : Prop where
  mapping : MappingIn s.known s.registry
  feed : FeedInv s.feed

section

variable {s s' s₀ : MarketSide} {a : MarketAction} {answers : FetchAnswers} {now : ℤ} {link : Link}
  {f f' : MarketFeed} {token : String} {S : List String}

theorem mem_addTokens (f : MarketFeed) (ids : List String) :
    token ∈ (f.addTokens ids).tokenIds ↔ token ∈ f.tokenIds ∨ token ∈ ids := by
  have hnew : token ∈ f.newTokens ids ↔ token ∈ ids ∧ token ∉ f.tokenIds := by
    unfold MarketFeed.newTokens
    rw [List.mem_dedup, List.mem_filter, decide_eq_true_eq]
  unfold MarketFeed.addTokens
  split_ifs with hnone
  · rw [hnone] at hnew
    have hold : token ∈ ids → token ∈ f.tokenIds := fun hids =>
      not_not.mp fun hmem => List.not_mem_nil (hnew.mpr ⟨hids, hmem⟩)
    exact ⟨.inl, fun h => h.elim (fun hmem => hmem) hold⟩
  all_goals
    dsimp only
    rw [List.mem_append, hnew]
    tauto

/-- No step of the feed takes a token from its list. -/
theorem tokenIds_step {a : FeedAction} (hstep : a.step f = some f') : f.tokenIds ⊆ f'.tokenIds := by
  cases a with
  | start =>
    cases hstep
    split_ifs <;> exact List.Subset.refl _
  | addTokens ids =>
    cases hstep
    exact fun _ hmem => (mem_addTokens f ids).mpr (.inl hmem)
  | resubscribe sent =>
    simp only [FeedAction.step] at hstep
    split at hstep
    · cases hstep
    · cases hstep
      unfold MarketFeed.resubscribe
      split <;> exact List.Subset.refl _
  | deliver =>
    simp only [FeedAction.step] at hstep
    split at hstep <;> cases hstep
    exact List.Subset.refl _
  | stop =>
    cases hstep
    exact List.Subset.refl _
  | _ =>
    simp only [FeedAction.step] at hstep
    split at hstep <;> cases hstep
    exact List.Subset.refl _

/-- **No step** forgets a token. -/
theorem known_step (hstep : a.step s = some s') : s.known ⊆ s'.known := by
  cases a with
  | fetch tf answers =>
    cases hstep
    intro token hmem
    unfold MarketSide.known at hmem ⊢
    dsimp only
    split_ifs
    · exact hmem
    · simp only [List.mem_append, List.flatten_append] at hmem ⊢
      tauto
  | onNewTokens ids now =>
    simp only [MarketAction.step] at hstep
    split_ifs at hstep with hids
    cases hstep
    intro token hmem
    simp only [MarketSide.known, List.mem_append, mem_addTokens, List.mem_flatten] at hmem ⊢
    rcases hmem with hold | ⟨report, hreport, htoken⟩ | hmade
    · exact .inl (.inl hold)
    · by_cases hsame : report = ids
      · exact .inl (.inr (hsame ▸ htoken))
      · exact .inr (.inl ⟨report, (List.mem_erase_of_ne hsame).mpr hreport, htoken⟩)
    · exact .inr (.inr hmade)
  | ensure now id tokens =>
    cases hstep
    intro token hmem
    simp only [MarketSide.known, List.mem_append] at hmem ⊢
    tauto
  | addMade =>
    cases hstep
    intro token hmem
    simp only [MarketSide.known, List.mem_append, mem_addTokens] at hmem ⊢
    tauto
  | cleanup now =>
    cases hstep
    exact List.Subset.refl _
  | recover now bo =>
    cases hstep
    exact List.Subset.refl _
  | feed a =>
    obtain ⟨f', hf, rfl⟩ := Option.map_eq_some_iff.mp hstep
    intro token hmem
    unfold MarketSide.known at hmem ⊢
    rw [List.mem_append] at hmem ⊢
    exact hmem.imp_left fun hold => tokenIds_step hf hold

/-- The start of the service. -/
theorem marketInv_start (hstart : MarketSide.start answers now = some s₀) :
    MarketInv s₀ ∧ ActiveIn s₀.known s₀.manager := by
  unfold MarketSide.start at hstart
  dsimp only at hstart
  split_ifs at hstart
  cases hstart
  have hmapping := (mappingIn_discoverAll answers).mono
    (List.subset_append_left _ ([].flatten ++ []))
  exact ⟨⟨hmapping, feedInv_start _⟩,
    activeIn_createSessionsFromRegistry (fun _ hs => absurd hs List.not_mem_nil) hmapping⟩

/-- **Every step** keeps the registry's current tokens known. -/
theorem marketInv_step (h : MarketInv s) (hstep : a.step s = some s') : MarketInv s' := by
  have hknown := known_step hstep
  cases a with
  | fetch tf answers =>
    cases hstep
    have hr : MappingIn
        (s.known ++ (s.registry.fetchTimeframe (timeframeCombos [.btc, .eth] tf) answers).2.getD [])
        (s.registry.fetchTimeframe (timeframeCombos [.btc, .eth] tf) answers).1 :=
          mappingIn_told h.mapping rfl
    refine ⟨hr.mono fun token hmem => ?_, h.feed⟩
    rcases List.mem_append.mp hmem with hold | hreport
    · exact hknown hold
    · unfold MarketSide.known
      dsimp only
      rw [if_neg (List.ne_nil_of_mem hreport), List.flatten_append, List.flatten_singleton]
      simp only [List.mem_append]
      tauto
  | onNewTokens ids now =>
    simp only [MarketAction.step] at hstep
    split_ifs at hstep
    cases hstep
    exact ⟨h.mapping.mono hknown, feedInv_addTokens h.feed ids⟩
  | ensure now id tokens =>
    cases hstep
    have hfound : foundTokens tokens ⊆ MarketSide.known { s with
        made := s.made ++ foundTokens tokens } := by
      intro token hmem
      simp only [MarketSide.known, List.mem_append]
      tauto
    exact ⟨mappingIn_ensureSession (h.mapping.mono hknown)
      ((tokensIn_foundTokens tokens).mono hfound), h.feed⟩
  | addMade =>
    cases hstep
    exact ⟨h.mapping.mono hknown, feedInv_addTokens h.feed _⟩
  | cleanup now =>
    cases hstep
    exact ⟨h.mapping, h.feed⟩
  | recover now bo =>
    cases hstep
    exact ⟨h.mapping, h.feed⟩
  | feed a =>
    obtain ⟨f', hf, rfl⟩ := Option.map_eq_some_iff.mp hstep
    exact ⟨h.mapping.mono hknown, feedInv_step h.feed hf⟩

/-- Under the condition, every session that may be ACTIVE after the update has known tokens before
it. -/
theorem currentIn_of_promotes {ids : List String} (hactive : ActiveIn S s.manager)
    (hr : MappingIn S s.registry) (hguard : PromotesCurrent s (.onNewTokens ids now)) :
    CurrentIn S now s.manager := by
  intro e he hcurrent
  by_cases hstate : e.state = .active
  · exact hactive e he hstate
  · have htokens := (hguard e he (hcurrent.resolve_left hstate)).resolve_left hstate
    intro dir token htoken
    rcases htokens dir (by cases dir <;> simp) with hnone | hsame
    · rw [hnone] at htoken
      cases htoken
    · exact hr _ token (hsame.symm.trans htoken)

/-- **A step** under the condition keeps the tokens of the ACTIVE sessions known. -/
theorem activeIn_step (h : MarketInv s) (hactive : ActiveIn s.known s.manager)
    (hguard : PromotesCurrent s a) (hstep : a.step s = some s') : ActiveIn s'.known s'.manager := by
  have hold := hactive.mono (known_step hstep)
  have hr := h.mapping.mono (known_step hstep)
  cases a with
  | fetch tf answers =>
    cases hstep
    exact hold
  | onNewTokens ids now =>
    simp only [MarketAction.step] at hstep
    split_ifs at hstep
    cases hstep
    exact activeIn_updateSessionsFromRegistry (currentIn_of_promotes hold hr hguard) hr
  | ensure now id tokens =>
    cases hstep
    refine activeIn_ensureSession hold ((tokensIn_foundTokens tokens).mono fun token hmem => ?_)
    simp only [MarketSide.known, List.mem_append]
    tauto
  | addMade =>
    cases hstep
    exact hold
  | cleanup now =>
    cases hstep
    exact activeIn_cleanupExpiredSessions hold now
  | recover now bo =>
    cases hstep
    exact activeIn_recoverOrder hold hr now bo
  | feed a =>
    obtain ⟨f', hf, rfl⟩ := Option.map_eq_some_iff.mp hstep
    exact hold

/-- **ACTIVE sessions are subscribed.**  Start the service with any answers, and let its refreshes,
ticks, cleanups and recoveries, the feed, the connection and the server interleave in any order,
where every session of the current candle that `_update_sessions_from_registry` finds is ACTIVE or
has the registry's current tokens.  Whenever nothing is outstanding on a standing connection, the
server has the registry's current tokens and those of every ACTIVE session. -/
theorem active_subscribed (hstart : MarketSide.start answers now = some s₀)
    (hrun : Run MarketAction.step PromotesCurrent s₀ s) (hlive : s.feed.socket = .live link)
    (htasks : s.feed.tasks = 0) (hdrained : link.inFlight = []) (hreports : s.reports = [])
    (hmade : s.made = []) :
    ∃ frame, link.server = some frame ∧ MappingIn frame s.registry ∧ ActiveIn frame s.manager := by
  have h : MarketInv s ∧ ActiveIn s.known s.manager :=
    hrun.invariant (fun s => MarketInv s ∧ ActiveIn s.known s.manager) (marketInv_start hstart)
      fun _ _ _ h hguard hstep => ⟨marketInv_step h.1 hstep, activeIn_step h.1 h.2 hguard hstep⟩
  have hknown : s.known = s.feed.tokenIds := by
    rw [MarketSide.known, hreports, hmade, List.flatten_nil, List.append_nil, List.append_nil]
  rw [hknown] at h
  refine ⟨s.feed.tokenIds, server_eq_of_told (h.1.feed.told link hlive htasks) hdrained,
    hknown ▸ h.1.mapping, h.2⟩

end

/-! ## A candle boundary -/

/-- The lookups of BTC M5 find these tokens, those of later candles by candle. -/
def btcFound (up down : Option String) (later : List (ℤ × String × String)) (now : ℤ) :
    FetchAnswers where
  current := fun
    | ⟨.btc, .m5, .up⟩ => up
    | ⟨.btc, .m5, .down⟩ => down
    | _ => none
  later := fun
    | ⟨.btc, .m5, .up⟩, ts => (later.lookup ts).map Prod.fst
    | ⟨.btc, .m5, .down⟩, ts => (later.lookup ts).map Prod.snd
    | _, _ => none
  now := fun _ => now
  cleanup := now

/-- Nothing is outstanding, and the server has this list. -/
def MarketSide.Idle (s : MarketSide) (server : List String) : Prop :=
  s.feed.socket = .live ⟨some server, []⟩ ∧ s.feed.tasks = 0 ∧ s.reports = [] ∧ s.made = []

instance (s : MarketSide) (server : List String) : Decidable (s.Idle server) :=
  inferInstanceAs (Decidable (_ ∧ _))

/-- The run of a service that finds the tokens of one market at the start. -/
def MarketSide.runFrom (guard : MarketSide → MarketAction → Prop) [∀ s a, Decidable (guard s a)]
    (actions : List MarketAction) : Option MarketSide :=
  (MarketSide.start (btcFound (some "u0") (some "d0") [] 0) 0).bind fun s =>
    exec MarketAction.step guard s actions

/-- The first candle, and the boundary to the next one, when the candle after that is looked up
too. -/
def oneBoundary : List MarketAction :=
  [.feed .start, .feed .connected, .feed .deliver,
    .fetch .m5 (btcFound (some "u1") (some "d1") [(600, "u2", "d2")] 300),
      .onNewTokens ["u1", "d1"] 300,
    .feed (.resubscribe true), .feed .deliver]

/-- At the next boundary only the lookup of UP succeeds. -/
def halfBoundary : List MarketAction :=
  [.fetch .m5 (btcFound (some "u2") none [] 600), .onNewTokens ["u2"] 600,
    .feed (.resubscribe true), .feed .deliver]

theorem runFrom_cases {guard : MarketSide → MarketAction → Prop} [∀ s a, Decidable (guard s a)]
    {actions : List MarketAction} {P : MarketSide → Bool}
    (h : (MarketSide.runFrom guard actions).any P = true) :
    ∃ s₀ s, MarketSide.start (btcFound (some "u0") (some "d0") [] 0) 0 = some s₀ ∧
      Run MarketAction.step guard s₀ s ∧ P s = true := by
  obtain ⟨s, hs, hP⟩ := Option.any_eq_true _ _ |>.mp h
  obtain ⟨s₀, hstart, hexec⟩ := Option.bind_eq_some_iff.mp hs
  exact ⟨s₀, s, hstart, run_of_exec hexec, hP⟩

theorem active_subscribed_boundary :
    ∃ s₀ s, MarketSide.start (btcFound (some "u0") (some "d0") [] 0) 0 = some s₀ ∧
    Run MarketAction.step PromotesCurrent s₀ s ∧ ∃ frame, MappingIn frame s.registry ∧
      ActiveIn frame s.manager := by
  have hexec : (MarketSide.runFrom PromotesCurrent oneBoundary).any
      (fun s => decide (s.Idle ["u0", "d0", "u1", "d1"])) = true := by decide +kernel
  obtain ⟨s₀, s, hstart, hrun, hidle⟩ := runFrom_cases hexec
  obtain ⟨hlive, htasks, hreports, hmade⟩ := of_decide_eq_true hidle
  obtain ⟨frame, -, hmapping, hactive⟩ :=
    active_subscribed hstart hrun hlive htasks rfl hreports hmade
  exact ⟨s₀, s, hstart, hrun, frame, hmapping, hactive⟩

/-- The session that was looked up ahead becomes ACTIVE with both tokens, and the feed is told of
one. -/
theorem promoted_unsubscribed :
    ∃ s₀ s, MarketSide.start (btcFound (some "u0") (some "d0") [] 0) 0 = some s₀ ∧
    Run MarketAction.step (fun _ _ => True) s₀ s ∧
      ∃ frame, s.Idle frame ∧ MappingIn frame s.registry ∧ ¬ ActiveIn frame s.manager := by
  have hexec : (MarketSide.runFrom (fun _ _ => True) (oneBoundary ++ halfBoundary)).any
      (fun s => decide (s.Idle ["u0", "d0", "u1", "d1", "u2"] ∧
        ∃ e ∈ s.manager.engines.rows, e.state = .active ∧ e.tokens .down = some "d2")) = true := by
          decide +kernel
  obtain ⟨s₀, s, hstart, hrun, hidle⟩ := runFrom_cases hexec
  obtain ⟨hidle, e, he, hstate, htoken⟩ := of_decide_eq_true hidle
  have hinv : MarketInv s := hrun.invariant MarketInv (marketInv_start hstart).1
      fun _ _ _ h _ hstep =>
    marketInv_step h hstep
  have hsent := server_eq_of_told (hinv.feed.told _ hidle.1 hidle.2.1) rfl
  have hmapping := hinv.mapping
  rw [MarketSide.known, hidle.2.2.1, hidle.2.2.2, List.flatten_nil, List.append_nil,
    List.append_nil, ← Option.some.inj hsent] at hmapping
  exact ⟨s₀, s, hstart, hrun, _, hidle, hmapping,
    fun hactive => absurd (hactive e he hstate .down "d2" htoken)
    (by decide)⟩

end PolyArena
