import PolyArena.CandleGrid
import PolyArena.WsFeedService.WholeSessions

/-!
# Requests and the sessions of a tick

The API accepts orders for the current candle and the three after it, and queues them to the
sessions of these candles.  The lifecycle tick makes the sessions ahead of time.

1. `getSession_step`: a step keeps the session of a candle that has not closed.
2. `candleOpen_of_resolveSession`: the candles that requests are resolved to.
3. `session_of_request`: after a tick that finds its tokens, whatever happens until the buffer has
   passed, the session that a request is resolved to exists.
-/

namespace PolyArena

/-! ## Requests after a tick -/

/-- Until the clock shows `t` the process lives, and sessions are archived by no later clock. -/
def UntilClock (t : ℤ) (_ : FeedTokens) : LifecycleAction → Prop
  | .other .restart => False
  | .other (.cleanupExpired now) => now ≤ t
  | _ => True

section

variable {marketOf : String → Option (SessionId × Direction)} {m m' : SessionManager}
  {r : TokenRegistry} {s s' : FeedTokens} {a : LifecycleAction} {id : SessionId} {now t : ℤ}
  {answers : TickAnswers}

theorem HasSessionsOf.keep (h : HasSessionsOf m' m) (hid : m.getSession id ≠ none) :
    m'.getSession id ≠ none :=
  fun hnone => hid (h id hnone)

theorem hasSessions_createSessionsFromRegistry :
    HasSessionsOf (m.createSessionsFromRegistry r now) m := by
  have hcurrent : Grows (fun _ _ => True) m
      (SessionManager.markets.foldl (fun m p => m.createCurrentSession r now p.1 p.2) m) :=
    List.foldlRecOn _ _ (grows_refl fun _ _ => trivial) fun _ hm _ _ =>
      grows_createCurrentSession hm fun _ _ => trivial
  exact (grows_createFutureSessions hcurrent fun _ _ _ => trivial).2

theorem hasSessions_updateSessionsFromRegistry :
    HasSessionsOf (m.updateSessionsFromRegistry r now) m := by
  have hcurrent : Grows (fun _ _ => True) m
      (SessionManager.markets.foldl (fun m p => m.updateCurrentSession r now p.1 p.2) m) :=
    List.foldlRecOn _ _ (grows_refl fun _ _ => trivial) fun _ hm _ _ =>
      grows_updateCurrentSession hm fun _ _ => trivial
  exact (grows_createFutureSessions hcurrent fun _ _ _ => trivial).2

/-- Whatever becomes of another session. -/
theorem getSession_transition_ne {id' : SessionId} {newState : SessionState} (h : id ≠ id') :
    (m.transitionSession id' newState).getSession id = m.getSession id := by
  unfold SessionManager.transitionSession
  cases hget : m.getSession id' with
  | none => rfl
  | some e =>
    dsimp only
    split_ifs
    · exact Table.get_erase_ne h
    · refine Table.get_put_ne ?_
      rw [sessionId_transition, Table.key_of_get hget]
      exact h

/-- A session is not archived before its time. -/
theorem getSession_cleanup (hid : m.getSession id ≠ none)
    (hopen : now ≤ id.candleOpen + TF_SECONDS id.timeframe + SESSION_CLEANUP_DELAY_S) :
    (m.cleanupExpiredSessions now).getSession id ≠ none := by
  refine List.foldlRecOn (motive := fun m : SessionManager => m.getSession id ≠ none) _ _ hid
    fun m hid e _ => ?_
  by_cases he : e.isExpired now = true
  · have hne : id ≠ e.sessionId := by
      rintro rfl
      exact absurd (of_decide_eq_true he) (not_lt.mpr hopen)
    rw [if_pos he]
    dsimp only
    rw [getSession_transition_ne hne]
    split_ifs
    · rw [getSession_transition_ne hne]
      exact hid
    · exact hid
  · rw [if_neg he]
    exact hid

/-- **One step** keeps a session whose candle has not closed. -/
theorem getSession_step (hid : s.manager.getSession id ≠ none)
    (hopen : t ≤ id.candleOpen + TF_SECONDS id.timeframe + SESSION_CLEANUP_DELAY_S)
    (hguard : UntilClock t s a) (hstep : s.lifecycleStep marketOf a = some s') :
    s'.manager.getSession id ≠ none := by
  cases a with
  | tick now answers =>
    simp only [FeedTokens.lifecycleStep] at hstep
    split_ifs at hstep
    cases hstep
    obtain ⟨e, he⟩ := Option.ne_none_iff_exists'.mp hid
    exact Option.ne_none_iff_exists'.mpr ⟨e, getSession_foldl_some _ he⟩
  | other a =>
    replace hstep : s.step marketOf a = some s' := hstep
    cases a with
    | lookup c now answer =>
      simp only [FeedTokens.step] at hstep
      split_ifs at hstep
      cases answer <;> cases hstep <;> exact hid
    | prefetch c now answer =>
      simp only [FeedTokens.step] at hstep
      split_ifs at hstep
      cases hstep
      exact hid
    | cleanupStale now =>
      cases hstep
      exact hid
    | createSessions now =>
      cases hstep
      exact hasSessions_createSessionsFromRegistry.keep hid
    | updateSessions now =>
      cases hstep
      exact hasSessions_updateSessionsFromRegistry.keep hid
    | ensureSession now id tokens =>
      simp only [FeedTokens.step] at hstep
      split_ifs at hstep
      cases hstep
      unfold ensureSession
      split
      · exact hid
      · exact hasSessions_createSession.keep hid
    | cleanupExpired now =>
      cases hstep
      exact getSession_cleanup hid (le_trans hguard hopen)
    | recover now bo =>
      cases hstep
      unfold recoverOrder
      split
      · exact hid
      · exact hasSessions_createSession.keep hid
    | work id dir b =>
      obtain ⟨session, hsession, rfl⟩ := Option.map_eq_some_iff.mp hstep
      exact (hasSessions_put _).keep hid
    | restart => exact hguard.elim

/-- The tick makes the session when a lookup finds a token. -/
theorem getSession_tick (hid : id ∈ expectedSessions now)
    (hfound : s.manager.getSession id = none → ¬ NoTokens (answers id)) :
    (ensureFutureSessions s now answers).manager.getSession id ≠ none := by
  unfold ensureFutureSessions
  cases hget : s.manager.getSession id with
  | none =>
    obtain ⟨state, hmade⟩ := getSession_foldl_none hid (fun hmem => mem_keys_iff.mp hmem hget)
      (hfound hget) hget
    exact Option.ne_none_iff_exists'.mpr ⟨_, hmade⟩
  | some e => exact Option.ne_none_iff_exists'.mpr ⟨e, getSession_foldl_some _ hget⟩

theorem mem_expectedSessions_iff :
    id ∈ expectedSessions now ↔ id.candleOpen ∈ expectedCandleOpens id.timeframe now := by
  unfold expectedSessions
  rw [List.mem_flatMap]
  constructor
  · rintro ⟨p, -, hp⟩
    obtain ⟨ts, hts, rfl⟩ := List.mem_map.mp hp
    exact hts
  · intro h
    refine ⟨(id.symbol, id.timeframe), ?_, List.mem_map.mpr ⟨id.candleOpen, h, rfl⟩⟩
    cases id.symbol <;> cases id.timeframe <;> decide

end

/-- A request is resolved to the candle of the clock or to one of the three after it. -/
theorem candleOpen_of_resolveSession {now : ClockTime} {tf : BOTimeframe} {timestamp : Option ℤ}
    {offset : ℕ} {info : SessionInfo}
    (h : resolveSession now.seconds tf timestamp offset = .ok info) :
    ∃ i : ℕ, i ≤ 3 ∧ info.candleOpen = currentCandleOpen tf now.toInt + i * TF_SECONDS tf := by
  have hopen : currentCandleOpen tf now.toInt = now.candle tf * TF_SECONDS tf :=
    toInt_sub_mod now tf
  cases timestamp with
  | some timestamp =>
    obtain ⟨i, hi, -, rfl⟩ := (resolveSession_timestamp tf timestamp offset info).mp h
    exact ⟨i, hi, by rw [hopen, session_candleOpen, mul_comm (i : ℤ)]⟩
  | none =>
    have hclamp : resolveSession now.seconds tf none offset =
        resolveSession now.seconds tf none (min offset 3) := by
      unfold resolveSession
      dsimp only
      rw [show MAX_SESSION_OFFSET = 3 from rfl, min_assoc, min_self]
    rw [hclamp, resolveSession_offset (min_le_right offset 3)] at h
    cases h
    refine ⟨min offset 3, min_le_right offset 3, ?_⟩
    rw [hopen, session_candleOpen, mul_comm ((min offset 3 : ℕ) : ℤ)]

/-- **The session of a request exists.**  A tick found a token for every candle of the market that
had no session.  Then, until the buffer has passed, every request for the market is resolved to a
session that exists. -/
theorem session_of_request {marketOf : String → Option (SessionId × Direction)}
    {s s₁ s' : FeedTokens}
    {now t : ClockTime} {answers : TickAnswers} {symbol : BOSymbol} {tf : BOTimeframe}
    {timestamp : Option ℤ}
    {offset : ℕ} {info : SessionInfo}
    (htick : s.lifecycleStep marketOf (.tick now.toInt answers) = some s₁)
    (hfound : ∀ ts ∈ expectedCandleOpens tf now.toInt,
      s.manager.getSession ⟨symbol, tf, ts⟩ = none →
      ¬ NoTokens (answers ⟨symbol, tf, ts⟩))
    (hrun : Run (FeedTokens.lifecycleStep marketOf) (UntilClock t.toInt) s₁ s')
    (hle : now.seconds ≤ t.seconds)
    (hbuffer : t.seconds ≤ now.seconds + SESSION_PRE_CREATE_BUFFER_S)
    (hrequest : resolveSession t.seconds tf timestamp offset = .ok info) :
    s'.manager.getSession ⟨symbol, tf, info.candleOpen⟩ ≠ none := by
  obtain ⟨i, hi, hopen⟩ := candleOpen_of_resolveSession hrequest
  have hfloor : t.toInt ≤ now.toInt + SESSION_PRE_CREATE_BUFFER_S := by
    unfold ClockTime.toInt
    rw [← Int.floor_add_intCast]
    exact Int.floor_mono hbuffer
  have hexpected : info.candleOpen ∈ expectedCandleOpens tf now.toInt := by
    rw [hopen, expectedCandleOpens_eq]
    exact mem_expected_ahead (Int.floor_mono hle) hfloor hi
  have hlate : t.toInt ≤ info.candleOpen + TF_SECONDS tf + SESSION_CLEANUP_DELAY_S := by
    have hclose := Int.floor_lt.mpr (isCandleOf_currentCandleOpen tf t.seconds).lt_close
    have hstep : (0 : ℤ) ≤ i * TF_SECONDS tf := by positivity
    unfold ClockTime.toInt at hopen ⊢
    unfold SESSION_CLEANUP_DELAY_S
    omega
  refine hrun.invariant (fun s => s.manager.getSession ⟨symbol, tf, info.candleOpen⟩ ≠ none) ?_
    fun _ _ _ hid hguard hstep => getSession_step hid hlate hguard hstep
  simp only [FeedTokens.lifecycleStep] at htick
  split_ifs at htick
  cases htick
  exact getSession_tick (mem_expectedSessions_iff.mpr hexpected) (hfound _ hexpected)

/-! ## Samples -/

/-- The UP tokens of five candles. -/
def fiveUps : List (ℤ × String) :=
  [(0, "up0"), (300, "up1"), (600, "up2"), (900, "up3"), (1200, "up4")]

def fiveMarkets (token : String) : Option (SessionId × Direction) :=
  (fiveUps.find? fun p => p.2 = token).map fun p => (⟨.btc, .m5, p.1⟩, .up)

/-- The UP lookups of BTC with five minutes succeed. -/
def fiveFound : TickAnswers
  | id, .up => if id.symbol = .btc ∧ id.timeframe = .m5 then fiveUps.lookup id.candleOpen else none
  | _, .down => none

/-- An instant of the first quarter of an hour. -/
def wholeSecond (n : ℤ) (h0 : 0 ≤ n) (h : n < 900) : ClockTime where
  seconds := n
  double := Rounding.fl_of_int h0 (h.trans (by norm_num))
  nonneg := by exact_mod_cast h0
  dated := by
    have hcast : (n : ℚ) < 900 := by exact_mod_cast h
    unfold DATETIME_END
    linarith

/-- A tick twenty seconds before a boundary, then the cleanup at the boundary and a request for the
last candle. -/
theorem session_of_request_boundary : ∃ s s' : FeedTokens,
    s.lifecycleStep fiveMarkets (.tick 280 fiveFound) = some s' ∧
      ∃ s'', s'.lifecycleStep fiveMarkets (.other (.cleanupExpired 300)) = some s'' ∧
        s''.manager.getSession ⟨.btc, .m5, 1200⟩ ≠ none := by
  have hanswers : AnswersTick fiveMarkets 280 fiveFound := by decide +kernel
  have htick : ({} : FeedTokens).lifecycleStep fiveMarkets (.tick 280 fiveFound) =
      some (ensureFutureSessions {} 280 fiveFound) := by
    unfold FeedTokens.lifecycleStep
    exact if_pos hanswers
  have hnow : (wholeSecond 280 (by norm_num) (by norm_num)).toInt = 280 := Int.floor_intCast 280
  have ht : (wholeSecond 300 (by norm_num) (by norm_num)).toInt = 300 := Int.floor_intCast 300
  have hguard : UntilClock (wholeSecond 300 (by norm_num) (by norm_num)).toInt
      (ensureFutureSessions {} 280 fiveFound) (.other (.cleanupExpired 300)) := ht.ge
  have hrequest : resolveSession (wholeSecond 300 (by norm_num) (by norm_num)).seconds .m5 none 3 =
      .ok ⟨1200, 1500, 3⟩ := by decide +kernel
  refine ⟨{}, _, htick, _, rfl, ?_⟩
  exact session_of_request (hnow.symm ▸ htick) (by rw [hnow]; decide +kernel)
    (.next .start hguard rfl)
    (by decide +kernel) (by decide +kernel) hrequest

end PolyArena
