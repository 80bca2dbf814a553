import PolyArena.Lib.Runs
import PolyArena.WsFeedService.Recovery

/-!
# Tokens and candles

The registry and the sessions of the running service, under everything that brings tokens into
sessions: lookups of the current markets and of later ones, rotations, the start of the service with
its recovery, and the lifecycle tick, in any order and with any lookups failing.

1. `CandleInv` says that the registry's records are right and the sessions own tokens of their
   candles.
2. `candleInv_step` is the step lemma under the guard `KeepsCandles`.
3. `sessions_own_their_candle`: in a run of guarded steps every session owns tokens of its own
   candle only, and the events of a market reach no session of another candle.
-/

namespace PolyArena

structure FeedTokens where
  registry : TokenRegistry := {}
  manager : SessionManager := SessionManager.empty

/-- Everything that moves tokens.  Answers of Polymarket are part of the action, `none` being a
failed lookup. -/
inductive TokenAction
  /-- `get_orderbook` for the current market, by `discover_all` or `_fetch_timeframe` -/
  | lookup (c : Combo) (now : ℤ) (answer : Option String)
  /-- `get_token_id_at` for the next candles -/
  | prefetch (c : Combo) (now : ℤ) (answer : ℤ → Option String)
  | cleanupStale (now : ℤ)
  /-- the start of the service -/
  | createSessions (now : ℤ)
  /-- `on_new_tokens` -/
  | updateSessions (now : ℤ)
  /-- the lifecycle tick finds that a session is missing -/
  | ensureSession (now : ℤ) (id : SessionId) (tokens : Direction → Option String)
  | cleanupExpired (now : ℤ)
  | recover (now : Time) (bo : BinaryOption)
  /-- matching in a book of a session -/
  | work (id : SessionId) (dir : Direction) (b : ShadowOrderbook)
  /-- the process ends and a new one starts -/
  | restart

section

variable (marketOf : String → Option (SessionId × Direction))

/-- An answer is a token of the market that was asked for. -/
def IsAnswer (id : SessionId) (dir : Direction) (answer : Option String) : Prop :=
  ∀ token ∈ answer, marketOf token = some (id, dir)

instance (id : SessionId) (dir : Direction) (answer : Option String) :
    Decidable (IsAnswer marketOf id dir answer) :=
  match answer with
  | none => .isTrue fun _ h => nomatch h
  | some token => decidable_of_iff (marketOf token = some (id, dir)) (by simp [IsAnswer])

/-- `get_orderbook` answers with a token of the current candle, or of the one before when the candle
has just changed. -/
def IsCurrentAnswer (c : Combo) (now : ℤ) (answer : Option String) : Prop :=
  IsAnswer marketOf (c.session (currentCandleOpen c.timeframe now)) c.direction answer ∨
    IsAnswer marketOf
      (c.session (currentCandleOpen c.timeframe now - TF_SECONDS c.timeframe)) c.direction
      answer

instance (c : Combo) (now : ℤ) (answer : Option String) :
    Decidable (IsCurrentAnswer marketOf c now answer) :=
  inferInstanceAs (Decidable (_ ∨ _))

namespace FeedTokens

/-- One step; there is none with an answer that Polymarket does not give. -/
def step (s : FeedTokens) : TokenAction → Option FeedTokens
  | .lookup c now answer =>
    if IsCurrentAnswer marketOf c now answer then
      match answer with
      | none => some s
      | some token => some { s with registry := s.registry.recordCurrent c now token }
    else none
  | .prefetch c now answer =>
    if ∀ ts ∈ futureSettlements c.timeframe now TOKEN_PREFETCH_CANDLES,
        IsAnswer marketOf (c.session ts) c.direction (answer ts) then
      some { s with registry := s.registry.prefetchFuture c now answer }
    else none
  | .cleanupStale now => some { s with registry := s.registry.cleanupStaleSessions now }
  | .createSessions now =>
    some { s with manager := s.manager.createSessionsFromRegistry s.registry now }
  | .updateSessions now =>
    some { s with manager := s.manager.updateSessionsFromRegistry s.registry now }
  | .ensureSession now id tokens =>
    if id.candleOpen ∈ expectedCandleOpens id.timeframe now ∧
        IsAnswer marketOf id .up (tokens .up) ∧ IsAnswer marketOf id .down (tokens .down) then
      let r := PolyArena.ensureSession s.manager s.registry now id tokens
      some ⟨r.2, r.1⟩
    else none
  | .cleanupExpired now => some { s with manager := s.manager.cleanupExpiredSessions now }
  | .recover now bo => some { s with manager := (recoverOrder s.manager s.registry now bo).1 }
  | .work id dir b =>
    (s.manager.getSession id).map fun session =>
      { s with manager := s.manager.setBook session dir b }
  | .restart => some {}

end FeedTokens

end

/-! ## The guard -/

/-- The registry's current tokens of a symbol and a timeframe are recorded for the session's
candle. -/
def TokenRegistry.IsFresh (r : TokenRegistry) (id : SessionId) : Prop :=
  ∀ dir, ∀ token ∈ r.currentTokens id.symbol id.timeframe dir,
    r.tokenSessions token = some id.candleOpen

instance (r : TokenRegistry) (id : SessionId) : Decidable (r.IsFresh id) :=
  decidable_of_iff (∀ dir ∈ [Direction.up, .down],
      (r.currentTokens id.symbol id.timeframe dir).all fun token =>
        decide (r.tokenSessions token = some id.candleOpen)) (by
    constructor
    · intro h dir token htoken
      have hdir := h dir (by cases dir <;> simp)
      rw [Option.mem_def.mp htoken] at hdir
      exact of_decide_eq_true hdir
    · intro h dir _
      cases htoken : r.currentTokens id.symbol id.timeframe dir with
      | none => rfl
      | some token => exact decide_eq_true (h dir token htoken))

/-- A session that the registry's current tokens would be given to, or one that exists. -/
def FeedTokens.MayCreate (s : FeedTokens) (id : SessionId) : Prop :=
  s.manager.getSession id = none → s.registry.IsFresh id

instance (s : FeedTokens) (id : SessionId) : Decidable (s.MayCreate id) :=
  decidable_of_iff ((s.manager.getSession id).isSome = true ∨ s.registry.IsFresh id) (by
    unfold FeedTokens.MayCreate
    cases s.manager.getSession id <;> simp)

/-- No stale answer is recorded, and the registry's current tokens make no session of another
candle. -/
def KeepsCandles (marketOf : String → Option (SessionId × Direction)) (s : FeedTokens) :
    TokenAction → Prop
  | .lookup c now answer =>
    IsAnswer marketOf (c.session (currentCandleOpen c.timeframe now)) c.direction answer
  | .createSessions now | .updateSessions now =>
    ∀ p ∈ SessionManager.markets, s.MayCreate ⟨p.1, p.2, currentCandleOpen p.2 now⟩
  | .recover now bo => ∀ target ∈ bo.recoveryTarget now s.registry, s.MayCreate target.1
  | _ => True

instance (marketOf : String → Option (SessionId × Direction)) (s : FeedTokens) (a : TokenAction) :
    Decidable (KeepsCandles marketOf s a) := by
  unfold KeepsCandles
  cases a <;> dsimp only <;> infer_instance

/-! ## One step -/

/-- The registry's records are right, and every session owns the tokens of its candle. -/
structure CandleInv (marketOf : String → Option (SessionId × Direction)) (s : FeedTokens) :
    Prop where
  recorded : Recorded marketOf s.registry
  owned : Owned marketOf s.manager

section

variable {marketOf : String → Option (SessionId × Direction)} {s s' : FeedTokens} {a : TokenAction}
  {m : SessionManager} {r : TokenRegistry} {now : ℤ} {id : SessionId}

theorem candleInv_start : CandleInv marketOf {} := ⟨recorded_empty, owned_empty⟩

/-- `m'` has the sessions of `m`, and perhaps more. -/
def HasSessionsOf (m' m : SessionManager) : Prop :=
  ∀ id, m'.getSession id = none → m.getSession id = none

theorem HasSessionsOf.trans {m' m'' : SessionManager} (h : HasSessionsOf m'' m')
    (h' : HasSessionsOf m' m) :
    HasSessionsOf m'' m := fun x hx => h' x (h x hx)

theorem hasSessions_createSession {tokens : Direction → Option String} {state : SessionState} :
    HasSessionsOf (m.createSession id tokens state) m := by
  intro x hx
  unfold SessionManager.createSession at hx
  split at hx
  · exact hx
  · unfold SessionManager.getSession Table.get at hx ⊢
    exact List.find?_eq_none.mpr fun s hs => List.find?_eq_none.mp hx s (List.mem_append_left _ hs)

theorem hasSessions_put (e : SessionEngine) : HasSessionsOf ⟨m.engines.put e⟩ m := by
  intro x hx
  by_cases hid : x = e.sessionId
  · subst hid
    cases hget : m.getSession e.sessionId with
    | none => rfl
    | some s => exact absurd ((Table.get_put_self hget).symm.trans hx) nofun
  · exact (Table.get_put_ne hid).symm.trans hx

theorem hasSessions_transition {newState : SessionState} (h : newState ≠ .archived) :
    HasSessionsOf (m.transitionSession id newState) m := by
  unfold SessionManager.transitionSession
  split
  · exact fun _ hx => hx
  · rw [if_neg h]
    exact hasSessions_put _

theorem hasSessions_onCandleBoundary {symbol : BOSymbol} {timeframe : BOTimeframe} {ts : ℤ} :
    HasSessionsOf (m.onCandleBoundary symbol timeframe ts) m := by
  unfold SessionManager.onCandleBoundary
  refine List.foldlRecOn (motive := (HasSessionsOf · m)) _ _ (fun _ hx => hx)
    fun m' h engine _ => ?_
  split_ifs
  · exact h
  · exact (hasSessions_transition (by simp)).trans h
  · exact (hasSessions_transition (by simp)).trans h
  · exact h

/-- What a pass over the markets keeps: what all sessions of `m'` have, and none of `m` went
missing. -/
def Grows (P : SessionId → (Direction → Option String) → Prop) (m m' : SessionManager) : Prop :=
  SessionsHave P m' ∧ HasSessionsOf m' m

section

variable {P : SessionId → (Direction → Option String) → Prop} {m' : SessionManager}
  {p : BOSymbol × BOTimeframe}

theorem grows_refl (h : SessionsHave P m) : Grows P m m := ⟨h, fun _ hx => hx⟩

/-- A new session of tokens that a missing one may have. -/
theorem grows_create {tokens : Direction → Option String} {state : SessionState} (h : Grows P m m')
    (htokens : m.getSession id = none → P id tokens) :
    Grows P m (m'.createSession id tokens state) :=
  ⟨sessionsHave_createSession h.1 fun hnone => htokens (h.2 _ hnone),
    hasSessions_createSession.trans h.2⟩

theorem grows_createCurrentSession (h : Grows P m m')
    (htokens : ¬ (r.currentTokens p.1 p.2 .up = none ∧ r.currentTokens p.1 p.2 .down = none) →
      m.getSession ⟨p.1, p.2, currentCandleOpen p.2 now⟩ = none →
      P ⟨p.1, p.2, currentCandleOpen p.2 now⟩ (r.currentTokens p.1 p.2)) :
    Grows P m (m'.createCurrentSession r now p.1 p.2) := by
  unfold SessionManager.createCurrentSession
  dsimp only
  split_ifs with hnone
  · exact h
  · exact grows_create h (htokens hnone)

theorem grows_updateCurrentSession (h : Grows P m m')
    (htokens : ¬ (r.currentTokens p.1 p.2 .up = none ∧ r.currentTokens p.1 p.2 .down = none) →
      m.getSession ⟨p.1, p.2, currentCandleOpen p.2 now⟩ = none →
      P ⟨p.1, p.2, currentCandleOpen p.2 now⟩ (r.currentTokens p.1 p.2)) :
    Grows P m (m'.updateCurrentSession r now p.1 p.2) := by
  have hboundary : ∀ m'', Grows P m m'' → Grows P m
      (m''.onCandleBoundary p.1 p.2 (currentCandleOpen p.2 now)) := fun m'' h =>
    ⟨sessionsHave_onCandleBoundary h.1 _ _ _, hasSessions_onCandleBoundary.trans h.2⟩
  unfold SessionManager.updateCurrentSession
  dsimp only
  split_ifs with hnone
  · exact h
  · refine hboundary _ ?_
    split
    · exact grows_create h (htokens hnone)
    · split_ifs
      · exact ⟨sessionsHave_transitionSession h.1 _ _, (hasSessions_transition (by simp)).trans h.2⟩
      · exact h

theorem grows_createFutureSessions (h : Grows P m m')
    (htokens : ∀ id ∈ SessionManager.futureSessions r, m.getSession id = none →
      P id (SessionManager.futureTokens r id)) :
    Grows P m (m'.createFutureSessions r) := by
  unfold SessionManager.createFutureSessions
  exact List.foldlRecOn (motive := Grows P m) _ _ h fun m'' h id hid =>
    grows_create h (htokens id hid)

/-- The order's session, made of the registry's current tokens. -/
theorem sessionsHave_recoverOrder {now : Time} {bo : BinaryOption} (h : SessionsHave P m)
    (htokens : ∀ target ∈ bo.recoveryTarget now r, m.getSession target.1 = none →
      P target.1 (r.currentTokens target.1.symbol target.1.timeframe)) :
    SessionsHave P (recoverOrder m r now bo).1 := by
  unfold recoverOrder
  cases htarget : bo.recoveryTarget now r with
  | none => exact h
  | some target =>
    obtain ⟨id, token⟩ := target
    have hid : id.symbol = bo.symbol ∧ id.timeframe = bo.timeframe := by
      unfold BinaryOption.recoveryTarget at htarget
      split_ifs at htarget
      obtain ⟨t, -, ht⟩ := Option.map_eq_some_iff.mp htarget
      cases ht
      exact ⟨rfl, rfl⟩
    refine sessionsHave_createSession h fun hnone => ?_
    rw [← hid.1, ← hid.2]
    exact htokens _ htarget hnone

end

/-- **One step** under the guard. -/
theorem candleInv_step (h : CandleInv marketOf s) (hguard : KeepsCandles marketOf s a)
    (hstep : s.step marketOf a = some s') : CandleInv marketOf s' := by
  cases a with
  | lookup c now answer =>
    simp only [FeedTokens.step] at hstep
    split_ifs at hstep
    cases answer with
    | none =>
      cases hstep
      exact h
    | some token =>
      cases hstep
      exact ⟨recorded_recordCurrent h.recorded (hguard token rfl), h.owned⟩
  | prefetch c now answer =>
    simp only [FeedTokens.step] at hstep
    split_ifs at hstep with hanswer
    cases hstep
    exact ⟨recorded_prefetchFuture h.recorded hanswer, h.owned⟩
  | cleanupStale now =>
    cases hstep
    exact ⟨recorded_cleanupStaleSessions h.recorded now, h.owned⟩
  | createSessions now =>
    cases hstep
    refine ⟨h.recorded, owned_createFutureSessions h.recorded ?_⟩
    exact (List.foldlRecOn (motive := Grows (TokensOf marketOf) s.manager) _ _ (grows_refl h.owned)
      fun m' hm p hp => grows_createCurrentSession hm fun _ hnone =>
        tokensOf_current h.recorded (hguard p hp hnone)).1
  | updateSessions now =>
    cases hstep
    refine ⟨h.recorded, owned_createFutureSessions h.recorded ?_⟩
    exact (List.foldlRecOn (motive := Grows (TokensOf marketOf) s.manager) _ _ (grows_refl h.owned)
      fun m' hm p hp => grows_updateCurrentSession hm fun _ hnone =>
        tokensOf_current h.recorded (hguard p hp hnone)).1
  | ensureSession now id tokens =>
    simp only [FeedTokens.step] at hstep
    split_ifs at hstep with hanswer
    cases hstep
    have htokens : TokensOf marketOf id tokens := by
      intro dir token htoken
      cases dir with
      | up => exact hanswer.2.1 token htoken
      | down => exact hanswer.2.2 token htoken
    exact ⟨recorded_ensureSession h.recorded htokens, owned_ensureSession h.owned htokens⟩
  | cleanupExpired now =>
    cases hstep
    exact ⟨h.recorded, owned_cleanupExpiredSessions h.owned now⟩
  | recover now bo =>
    cases hstep
    exact ⟨h.recorded, sessionsHave_recoverOrder h.owned fun target htarget hnone =>
      tokensOf_current h.recorded (hguard target htarget hnone)⟩
  | work id dir b =>
    obtain ⟨session, hsession, rfl⟩ := Option.map_eq_some_iff.mp hstep
    exact ⟨h.recorded, owned_setBook h.owned hsession b⟩
  | restart =>
    cases hstep
    exact candleInv_start

/-! ## Runs -/

/-- The token of a session belongs to the session's candle, and the registry's record says so
too. -/
theorem CandleInv.tokens {session : SessionEngine} {dir : Direction} {token : String}
    (h : CandleInv marketOf s) (hs : session ∈ s.manager.engines.rows)
    (htoken : session.tokens dir = some token) :
    marketOf token = some (session.sessionId, dir) ∧
      ∀ ts ∈ s.registry.tokenSessions token, ts = session.sessionId.candleOpen := by
  have hmarket := h.owned session hs dir token htoken
  refine ⟨hmarket, fun ts hts => ?_⟩
  obtain ⟨m, hm, rfl⟩ := h.recorded.candle token ts hts
  rw [hmarket] at hm
  cases hm
  rfl

/-- A session that the manager finds for a token has the token. -/
theorem tokens_of_getSessionsForToken {session : SessionEngine} {token : String}
    (h : session ∈ m.getSessionsForToken token) :
    session ∈ m.engines.rows ∧ ∃ dir, session.tokens dir = some token := by
  obtain ⟨hs, hdir⟩ := List.mem_filter.mp h
  refine ⟨hs, ?_⟩
  unfold SessionEngine.tokenToDir at hdir
  split_ifs at hdir with hdown hup
  · exact ⟨.down, hdown⟩
  · exact ⟨.up, hup⟩
  · exact absurd hdir nofun

/-- **Sessions own the tokens of their candle**, and an event of a market reaches sessions of its
candle only: in every run in which no stale answer is recorded and no missing session is made of
current tokens that are recorded for another candle. -/
theorem sessions_own_their_candle
    (hrun : Run (FeedTokens.step marketOf) (KeepsCandles marketOf) {} s) :
    (∀ session ∈ s.manager.engines.rows, ∀ dir, ∀ token ∈ session.tokens dir,
      marketOf token = some (session.sessionId, dir) ∧
        ∀ ts ∈ s.registry.tokenSessions token, ts = session.sessionId.candleOpen) ∧
      ∀ token id dir, marketOf token = some (id, dir) →
        ∀ session ∈ s.manager.getSessionsForToken token, session.sessionId = id := by
  have hinv : CandleInv marketOf s :=
    hrun.invariant (CandleInv marketOf) candleInv_start fun _ _ _ => candleInv_step
  refine ⟨fun session hs dir token htoken => hinv.tokens hs htoken,
    fun token id dir hmarket session hs => ?_⟩
  obtain ⟨hrow, dir', htoken⟩ := tokens_of_getSessionsForToken hs
  have hown := (hinv.tokens hrow htoken).1
  rw [hmarket] at hown
  cases hown
  rfl

end

/-! ## Samples -/

/-- The markets of the first two BTC and ETH candles of five minutes. -/
def sampleMarkets : String → Option (SessionId × Direction)
  | "btc0" => some (⟨.btc, .m5, 3600⟩, .up)
  | "btc1" => some (⟨.btc, .m5, 3900⟩, .up)
  | "eth0" => some (⟨.eth, .m5, 3600⟩, .up)
  | "eth1" => some (⟨.eth, .m5, 3900⟩, .up)
  | _ => none

def btcUp : Combo := ⟨.btc, .m5, .up⟩

def ethUp : Combo := ⟨.eth, .m5, .up⟩

/-- The service starts, and both symbols rotate at the next candle. -/
def cleanRotation : List TokenAction :=
  [.lookup btcUp 3610 (some "btc0"), .lookup ethUp 3611 (some "eth0"), .createSessions 3612,
   .lookup btcUp 3905 (some "btc1"), .lookup ethUp 3906 (some "eth1"), .updateSessions 3907]

/-- The same, but BTC's lookup fails and nobody had found its next market. -/
def halfRotation : List TokenAction :=
  [.lookup btcUp 3610 (some "btc0"), .lookup ethUp 3611 (some "eth0"), .createSessions 3612,
   .lookup btcUp 3905 none, .lookup ethUp 3906 (some "eth1"), .updateSessions 3907]

theorem sessions_own_their_candle_rotation : ∃ s : FeedTokens,
    s.manager.engines.rows.map (·.sessionId.candleOpen) = [3600, 3600, 3900, 3900] ∧
      ∀ session ∈ s.manager.engines.rows, ∀ dir, ∀ token ∈ session.tokens dir,
        sampleMarkets token = some (session.sessionId, dir) := by
  have hexec :
      (exec (FeedTokens.step sampleMarkets) (KeepsCandles sampleMarkets) {} cleanRotation).any
      (fun s => decide (s.manager.engines.rows.map (·.sessionId.candleOpen) =
        [3600, 3600, 3900, 3900])) =
        true := by
    decide +kernel
  obtain ⟨s, hs, hrows⟩ := Option.any_eq_true _ _ |>.mp hexec
  exact ⟨s, of_decide_eq_true hrows, fun session hsession dir token htoken =>
    ((sessions_own_their_candle (run_of_exec hs)).1 session hsession dir token htoken).1⟩

/-- The rotation of one symbol gives the other's next session the tokens of the candle before. -/
theorem stale_token_in_session : ∃ s : FeedTokens,
    Run (FeedTokens.step sampleMarkets) (fun _ _ => True) {} s ∧
      ∃ session ∈ s.manager.engines.rows, session.sessionId = ⟨.btc, .m5, 3900⟩ ∧
        session.tokens .up = some "btc0" ∧ s.registry.tokenSessions "btc0" = some 3600 := by
  have hexec :
    (exec (FeedTokens.step sampleMarkets) (fun _ _ => True) {} halfRotation).any (fun s =>
      decide (s.registry.tokenSessions "btc0" = some 3600) &&
        s.manager.engines.rows.any fun session =>
          decide (session.sessionId = ⟨.btc, .m5, 3900⟩ ∧
            session.tokens .up = some "btc0")) = true := by
    decide +kernel
  obtain ⟨s, hs, hfound⟩ := Option.any_eq_true _ _ |>.mp hexec
  rw [Bool.and_eq_true, List.any_eq_true] at hfound
  obtain ⟨hrec, session, hsession, hown⟩ := hfound
  exact ⟨s, run_of_exec hs, session, hsession, (of_decide_eq_true hown).1,
    (of_decide_eq_true hown).2, of_decide_eq_true hrec⟩

end PolyArena
