import PolyArena.WsFeedService.CandleTokens

/-!
# Sessions with both tokens

The lifecycle tick makes the sessions of the current candle and of the next ones.  It passes over
those that exist, and one lookup of the two is enough to make a session.

1. `ensureFutureSessions` is the tick; `getSession_ensureFutureSessions` says what it makes of each
   session.
2. `CreatesWhole` is the guard: every session that a step makes gets both tokens of its candle.
3. `ensured_sessions_whole`: a tick whose two lookups of a candle succeed leaves its session with
   both tokens exactly when the session was missing or had them, and so in every run of guarded
   steps.
-/

namespace PolyArena

/-- The sessions that `ensure_future_sessions` looks at, in order. -/
def expectedSessions (now : ℤ) : List SessionId :=
  SessionManager.markets.flatMap fun p => (expectedCandleOpens p.2 now).map fun ts => ⟨p.1, p.2, ts⟩

/-- What `get_token_id_at` finds in a tick, `none` for a market that is not there or a lookup that
failed. -/
abbrev TickAnswers := SessionId → Direction → Option String

/-- The loop body of `ensure_future_sessions`; `existing` are the sessions at its start. -/
def ensureMissing (existing : List SessionId) (now : ℤ) (answers : TickAnswers) (s : FeedTokens)
    (id : SessionId) : FeedTokens :=
  if id ∈ existing then s
  else
    let e := ensureSession s.manager s.registry now id (answers id)
    ⟨e.2, e.1⟩

/-- `ensure_future_sessions`. -/
def ensureFutureSessions (s : FeedTokens) (now : ℤ) (answers : TickAnswers) : FeedTokens :=
  (expectedSessions now).foldl
    (ensureMissing (s.manager.engines.rows.map SessionEngine.sessionId) now answers) s

/-! ## What a tick makes -/

/-- No lookup found a token. -/
def NoTokens (tokens : Direction → Option String) : Prop := tokens .up = none ∧ tokens .down = none

instance (tokens : Direction → Option String) : Decidable (NoTokens tokens) :=
  inferInstanceAs (Decidable (_ ∧ _))

section

variable {m : SessionManager} {s : FeedTokens} {id id' : SessionId} {existing : List SessionId}
  {now : ℤ} {answers : TickAnswers} {tokens : Direction → Option String} {state : SessionState}

theorem mem_keys_iff : id ∈ m.engines.rows.map SessionEngine.sessionId ↔
    m.getSession id ≠ none := by
  constructor
  · intro h
    obtain ⟨s, hs, rfl⟩ := List.mem_map.mp h
    exact fun hnone => nomatch (Table.get_of_mem hs).symm.trans hnone
  · intro h
    obtain ⟨s, hs⟩ := Option.ne_none_iff_exists'.mp h
    exact Table.key_of_get hs ▸ List.mem_map_of_mem (Table.mem_of_get hs)

theorem getSession_createSession_ne (h : id ≠ id') :
    (m.createSession id' tokens state).getSession id = m.getSession id := by
  unfold SessionManager.createSession
  split
  · rfl
  · next hfresh => exact Table.get_insert_ne (h := hfresh) h

theorem getSession_createSession_none (h : m.getSession id = none) :
    (m.createSession id tokens state).getSession id =
      some (SessionEngine.create id tokens state) := by
  have hfresh : id ∉ m.engines.rows.map SessionEngine.sessionId :=
    fun hmem => mem_keys_iff.mp hmem h
  unfold SessionManager.createSession
  rw [dif_neg hfresh]
  exact Table.get_insert_self (h := hfresh)

theorem getSession_createSession_some {e : SessionEngine} (h : m.getSession id = some e) :
    (m.createSession id' tokens state).getSession id = some e := by
  by_cases hid : id = id'
  · subst hid
    unfold SessionManager.createSession
    rw [dif_pos (mem_keys_iff.mpr (Option.ne_none_iff_exists'.mpr ⟨e, h⟩))]
    exact h
  · exact (getSession_createSession_ne hid).trans h

/-- A tick visits a session: nothing, or one creation. -/
theorem ensureMissing_cases (existing : List SessionId) (now : ℤ) (answers : TickAnswers)
    (s : FeedTokens) (id : SessionId) :
    ((id ∈ existing ∨ NoTokens (answers id)) ∧
      (ensureMissing existing now answers s id).manager = s.manager) ∨
      id ∉ existing ∧ ¬ NoTokens (answers id) ∧ ∃ state,
        (ensureMissing existing now answers s id).manager = s.manager.createSession id
          (answers id) state := by
  unfold ensureMissing ensureSession
  by_cases hmem : id ∈ existing
  · rw [if_pos hmem]
    exact .inl ⟨.inl hmem, rfl⟩
  · rw [if_neg hmem]
    by_cases hnone : NoTokens (answers id)
    · refine .inl ⟨.inr hnone, ?_⟩
      dsimp only
      rw [if_pos (show answers id .up = none ∧ answers id .down = none from hnone)]
    · refine .inr ⟨hmem, hnone,
        if id.candleOpen = currentCandleOpen id.timeframe now then .active else .prefetch, ?_⟩
      dsimp only
      rw [if_neg (show ¬ (answers id .up = none ∧ answers id .down = none) from hnone)]

/-- A session that exists stays as it is. -/
theorem getSession_foldl_some (ids : List SessionId) {e : SessionEngine}
    (h : s.manager.getSession id = some e) :
    (ids.foldl (ensureMissing existing now answers) s).manager.getSession id = some e := by
  refine List.foldlRecOn (motive := fun s : FeedTokens => s.manager.getSession id = some e) _ _ h
    fun s h id' _ => ?_
  rcases ensureMissing_cases existing now answers s id' with ⟨-, heq⟩ | ⟨-, -, state, heq⟩
  · rw [heq, h]
  · rw [heq, getSession_createSession_some h]

/-- A missing session is made of the tokens that were found. -/
theorem getSession_foldl_none {ids : List SessionId} (hid : id ∈ ids) (hmissing : id ∉ existing)
    (hfound : ¬ NoTokens (answers id)) (h : s.manager.getSession id = none) : ∃ state,
    (ids.foldl (ensureMissing existing now answers) s).manager.getSession id =
      some (SessionEngine.create id (answers id) state) := by
  induction ids generalizing s with
  | nil => exact absurd hid List.not_mem_nil
  | cons id' ids ih =>
    rcases ensureMissing_cases existing now answers s id' with ⟨hpass, heq⟩ | ⟨-, -, state, heq⟩
    · rcases List.mem_cons.mp hid with rfl | hid
      · exact absurd hpass (not_or.mpr ⟨hmissing, hfound⟩)
      · exact ih hid (heq ▸ h)
    · by_cases hsame : id = id'
      · subst hsame
        exact ⟨state, getSession_foldl_some ids (heq ▸ getSession_createSession_none h)⟩
      · refine ih ((List.mem_cons.mp hid).resolve_left hsame) ?_
        rw [heq, getSession_createSession_ne hsame, h]

end

/-! ## Both tokens -/

/-- The tokens are the UP and the DOWN token of the candle. -/
def Whole (marketOf : String → Option (SessionId × Direction)) (id : SessionId)
    (tokens : Direction → Option String) : Prop :=
  (tokens .up).bind marketOf = some (id, .up) ∧ (tokens .down).bind marketOf = some (id, .down)

instance (marketOf : String → Option (SessionId × Direction)) (id : SessionId)
    (tokens : Direction → Option String) : Decidable (Whole marketOf id tokens) :=
  inferInstanceAs (Decidable (_ ∧ _))

/-- The session exists and owns both of its tokens. -/
def OwnsBoth (marketOf : String → Option (SessionId × Direction)) (m : SessionManager)
    (id : SessionId) : Prop :=
  ∃ s, m.getSession id = some s ∧ Whole marketOf id s.tokens

/-- A tick, or anything else that moves tokens. -/
inductive LifecycleAction
  | tick (now : ℤ) (answers : TickAnswers)
  | other (a : TokenAction)

/-- Polymarket's answers to a tick are tokens of the markets that were asked for. -/
def AnswersTick (marketOf : String → Option (SessionId × Direction)) (now : ℤ)
    (answers : TickAnswers) : Prop :=
  ∀ id ∈ expectedSessions now, IsAnswer marketOf id .up (answers id .up) ∧
    IsAnswer marketOf id .down (answers id .down)

instance (marketOf : String → Option (SessionId × Direction)) (now : ℤ) (answers : TickAnswers) :
    Decidable (AnswersTick marketOf now answers) :=
  inferInstanceAs (Decidable (∀ id ∈ expectedSessions now, _))

def FeedTokens.lifecycleStep (marketOf : String → Option (SessionId × Direction)) (s : FeedTokens) :
    LifecycleAction → Option FeedTokens
  | .tick now answers =>
    if AnswersTick marketOf now answers then some (ensureFutureSessions s now answers) else none
  | .other a => s.step marketOf a

/-- The session exists, or would get both tokens. -/
def FeedTokens.MayComeWith (marketOf : String → Option (SessionId × Direction)) (s : FeedTokens)
    (id : SessionId) (tokens : Direction → Option String) : Prop :=
  s.manager.getSession id = none → Whole marketOf id tokens

instance (marketOf : String → Option (SessionId × Direction)) (s : FeedTokens) (id : SessionId)
    (tokens : Direction → Option String) : Decidable (s.MayComeWith marketOf id tokens) :=
  decidable_of_iff ((s.manager.getSession id).isSome = true ∨ Whole marketOf id tokens) (by
    unfold FeedTokens.MayComeWith
    cases s.manager.getSession id <;> simp)

/-- Every session that the step makes gets both tokens of its candle. -/
def CreatesWhole (marketOf : String → Option (SessionId × Direction)) (s : FeedTokens) :
    LifecycleAction → Prop
  | .tick now answers =>
    ∀ id ∈ expectedSessions now, NoTokens (answers id) ∨ s.MayComeWith marketOf id (answers id)
  | .other (.ensureSession _ id tokens) => NoTokens tokens ∨ s.MayComeWith marketOf id tokens
  | .other (.createSessions now) | .other (.updateSessions now) =>
    (∀ p ∈ SessionManager.markets, NoTokens (s.registry.currentTokens p.1 p.2) ∨
      s.MayComeWith marketOf ⟨p.1, p.2, currentCandleOpen p.2 now⟩
        (s.registry.currentTokens p.1 p.2)) ∧
    ∀ id ∈ SessionManager.futureSessions s.registry,
      s.MayComeWith marketOf id (SessionManager.futureTokens s.registry id)
  | .other (.recover now bo) => ∀ target ∈ bo.recoveryTarget now s.registry,
      s.MayComeWith marketOf target.1 (s.registry.currentTokens target.1.symbol target.1.timeframe)
  | .other _ => True

instance (marketOf : String → Option (SessionId × Direction)) (s : FeedTokens)
    (a : LifecycleAction) :
    Decidable (CreatesWhole marketOf s a) :=
  match a with
  | .tick now _ => inferInstanceAs (Decidable (∀ id ∈ expectedSessions now, _))
  | .other (.ensureSession _ _ _) => inferInstanceAs (Decidable (_ ∨ _))
  | .other (.createSessions _) | .other (.updateSessions _) => inferInstanceAs (Decidable (_ ∧ _))
  | .other (.recover now bo) =>
    inferInstanceAs (Decidable (∀ target ∈ bo.recoveryTarget now s.registry, _))
  | .other (.lookup _ _ _) | .other (.prefetch _ _ _) | .other (.cleanupStale _)
  | .other (.cleanupExpired _)
  | .other (.work _ _ _) | .other .restart => .isTrue trivial

section

variable {marketOf : String → Option (SessionId × Direction)} {s s' : FeedTokens}
  {a : LifecycleAction} {id : SessionId} {now : ℤ} {answers : TickAnswers}

theorem whole_of_found (hanswers : AnswersTick marketOf now answers)
    (hid : id ∈ expectedSessions now) (hfound : ∀ dir, answers id dir ≠ none) :
    Whole marketOf id (answers id) := by
  obtain ⟨up, hup⟩ := Option.ne_none_iff_exists'.mp (hfound .up)
  obtain ⟨down, hdown⟩ := Option.ne_none_iff_exists'.mp (hfound .down)
  refine ⟨?_, ?_⟩
  · rw [hup]
    exact (hanswers id hid).1 up hup
  · rw [hdown]
    exact (hanswers id hid).2 down hdown

/-- A tick that finds both tokens of a candle. -/
theorem ownsBoth_tick_iff (hanswers : AnswersTick marketOf now answers)
    (hid : id ∈ expectedSessions now) (hfound : ∀ dir, answers id dir ≠ none) :
    OwnsBoth marketOf (ensureFutureSessions s now answers).manager id ↔
      s.manager.getSession id = none ∨ OwnsBoth marketOf s.manager id := by
  unfold OwnsBoth ensureFutureSessions
  cases hget : s.manager.getSession id with
  | none =>
    obtain ⟨state, hmade⟩ := getSession_foldl_none hid (fun hmem => mem_keys_iff.mp hmem hget)
      (fun hnone => hfound .up hnone.1) hget
    exact ⟨fun _ => .inl rfl, fun _ => ⟨_, hmade, whole_of_found hanswers hid hfound⟩⟩
  | some e =>
    rw [getSession_foldl_some _ hget]
    exact ⟨.inr, fun h => h.resolve_left nofun⟩

/-- Every session owns both of its tokens. -/
def AllWhole (marketOf : String → Option (SessionId × Direction)) (s : FeedTokens) : Prop :=
  SessionsHave (Whole marketOf) s.manager

/-- **One step** under the guard. -/
theorem allWhole_step (h : AllWhole marketOf s) (hguard : CreatesWhole marketOf s a)
    (hstep : s.lifecycleStep marketOf a = some s') : AllWhole marketOf s' := by
  cases a with
  | tick now answers =>
    simp only [FeedTokens.lifecycleStep] at hstep
    split_ifs at hstep
    cases hstep
    refine (List.foldlRecOn (motive := fun s' : FeedTokens =>
      Grows (Whole marketOf) s.manager s'.manager) _ _
      (grows_refl h) fun s' hs' id hid => ?_).1
    rcases ensureMissing_cases _ now answers s' id with ⟨-, heq⟩ | ⟨-, hsome, state, heq⟩
    · rw [heq]
      exact hs'
    · rw [heq]
      exact grows_create hs' ((hguard id hid).resolve_left hsome)
  | other a =>
    replace hstep : s.step marketOf a = some s' := hstep
    cases a with
    | lookup c now answer =>
      simp only [FeedTokens.step] at hstep
      split_ifs at hstep
      cases answer <;> cases hstep <;> exact h
    | prefetch c now answer =>
      simp only [FeedTokens.step] at hstep
      split_ifs at hstep
      cases hstep
      exact h
    | cleanupStale now =>
      cases hstep
      exact h
    | createSessions now =>
      cases hstep
      refine (grows_createFutureSessions ?_ hguard.2).1
      exact List.foldlRecOn (motive := Grows (Whole marketOf) s.manager) _ _ (grows_refl h)
        fun m' hm p hp => grows_createCurrentSession hm (hguard.1 p hp).resolve_left
    | updateSessions now =>
      cases hstep
      refine (grows_createFutureSessions ?_ hguard.2).1
      exact List.foldlRecOn (motive := Grows (Whole marketOf) s.manager) _ _ (grows_refl h)
        fun m' hm p hp => grows_updateCurrentSession hm (hguard.1 p hp).resolve_left
    | ensureSession now id tokens =>
      simp only [FeedTokens.step] at hstep
      split_ifs at hstep
      cases hstep
      unfold ensureSession
      split
      · exact h
      · next hsome => exact sessionsHave_createSession h (Or.resolve_left hguard hsome)
    | cleanupExpired now =>
      cases hstep
      exact sessionsHave_cleanupExpiredSessions h now
    | recover now bo =>
      cases hstep
      exact sessionsHave_recoverOrder h hguard
    | work id dir b =>
      obtain ⟨session, hsession, rfl⟩ := Option.map_eq_some_iff.mp hstep
      exact sessionsHave_put h (h session (Table.mem_of_get hsession))
    | restart =>
      cases hstep
      exact sessionsHave_empty

/-- The tick from `s` to `s'` expects the session, and both lookups of its candle succeed. -/
def TickFindsBoth (marketOf : String → Option (SessionId × Direction)) (s s' : FeedTokens)
    (id : SessionId) :
    Prop :=
  ∃ now answers, s.lifecycleStep marketOf (.tick now answers) = some s' ∧
    id ∈ expectedSessions now ∧
    ∀ dir, answers id dir ≠ none

/-- **A tick that finds both tokens of a candle leaves its session with both**, exactly when the
session was missing or had them before; and so does every such tick of a run in which every session
is made of both. -/
theorem ensured_sessions_whole (marketOf : String → Option (SessionId × Direction)) :
    (∀ s s' id, TickFindsBoth marketOf s s' id →
      (OwnsBoth marketOf s'.manager id ↔ s.manager.getSession id = none ∨
        OwnsBoth marketOf s.manager id)) ∧
    ∀ s s' id, Run (FeedTokens.lifecycleStep marketOf) (CreatesWhole marketOf) {} s →
      TickFindsBoth marketOf s s' id → OwnsBoth marketOf s'.manager id := by
  have htick : ∀ s s' id, TickFindsBoth marketOf s s' id →
      (OwnsBoth marketOf s'.manager id ↔ s.manager.getSession id = none ∨
        OwnsBoth marketOf s.manager id) := by
    rintro s s' id ⟨now, answers, hstep, hid, hfound⟩
    simp only [FeedTokens.lifecycleStep] at hstep
    split_ifs at hstep with hanswers
    cases hstep
    exact ownsBoth_tick_iff hanswers hid hfound
  refine ⟨htick, fun s s' id hrun hfinds => (htick s s' id hfinds).mpr ?_⟩
  have hall : AllWhole marketOf s :=
    hrun.invariant (AllWhole marketOf) (show AllWhole marketOf {} from sessionsHave_empty)
      fun _ _ _ => allWhole_step
  cases hget : s.manager.getSession id with
  | none => exact .inl rfl
  | some e =>
    refine .inr ⟨e, hget, ?_⟩
    rw [← Table.key_of_get hget]
    exact hall e (Table.mem_of_get hget)

end

/-! ## Samples -/

/-- A candle of five minutes and its two tokens. -/
def firstCandle : SessionId := ⟨.btc, .m5, 3600⟩

def firstTokens : String → Option (SessionId × Direction)
  | "up" => some (firstCandle, .up)
  | "down" => some (firstCandle, .down)
  | _ => none

/-- Both lookups of the candle succeed. -/
def bothFound : TickAnswers
  | id, .up => if id = firstCandle then some "up" else none
  | id, .down => if id = firstCandle then some "down" else none

/-- The second lookup fails. -/
def upFound : TickAnswers
  | id, .up => if id = firstCandle then some "up" else none
  | _, .down => none

/-- After a tick that finds nothing, one that finds both tokens leaves the session with both. -/
theorem ensured_sessions_whole_late : ∃ s s' : FeedTokens,
    Run (FeedTokens.lifecycleStep firstTokens) (fun _ _ => True) {} s ∧
      TickFindsBoth firstTokens s s' firstCandle ∧ OwnsBoth firstTokens s'.manager firstCandle := by
  have hexec : (exec (FeedTokens.lifecycleStep firstTokens) (CreatesWhole firstTokens) {}
      [.tick 3605 fun _ _ => none]).any (fun s =>
        (s.lifecycleStep firstTokens (.tick 3610 bothFound)).isSome) =
        true := by decide +kernel
  obtain ⟨s, hs, hnext⟩ := Option.any_eq_true _ _ |>.mp hexec
  obtain ⟨s', hs'⟩ := Option.isSome_iff_exists.mp hnext
  have hfinds : TickFindsBoth firstTokens s s' firstCandle :=
    ⟨3610, bothFound, hs', by decide +kernel, fun dir => by cases dir <;> decide⟩
  have hrun := run_of_exec hs
  exact ⟨s, s', hrun.mono fun _ _ _ => trivial, hfinds,
    (ensured_sessions_whole firstTokens).2 s s' firstCandle hrun hfinds⟩

/-- **A half session stays half**: the tick that made it found the UP token only, and the next tick,
which would find both, passes over it. -/
theorem half_session_stays : ∃ s s' : FeedTokens,
    Run (FeedTokens.lifecycleStep firstTokens) (fun _ _ => True) {} s ∧
      TickFindsBoth firstTokens s s' firstCandle ∧
      (∃ e, s'.manager.getSession firstCandle = some e ∧ e.tokens .up = some "up" ∧
        e.tokens .down = none) ∧
      ¬ OwnsBoth firstTokens s'.manager firstCandle := by
  have hexec : (exec (FeedTokens.lifecycleStep firstTokens) (fun _ _ => True) {}
      [.tick 3605 upFound]).any
          (fun s => (s.lifecycleStep firstTokens (.tick 3610 bothFound)).any fun s' =>
        (s'.manager.getSession firstCandle).any fun e =>
          decide (e.tokens .up = some "up" ∧ e.tokens .down = none)) = true := by decide +kernel
  obtain ⟨s, hs, hnext⟩ := Option.any_eq_true _ _ |>.mp hexec
  obtain ⟨s', hs', hhalf⟩ := Option.any_eq_true _ _ |>.mp hnext
  obtain ⟨e, he, htokens⟩ := Option.any_eq_true _ _ |>.mp hhalf
  obtain ⟨hup, hdown⟩ := of_decide_eq_true htokens
  refine ⟨s, s', run_of_exec hs, ⟨3610, bothFound, hs', by decide +kernel,
    fun dir => by cases dir <;> decide⟩, ⟨e, he, hup, hdown⟩, ?_⟩
  rintro ⟨e', he', -, hwhole⟩
  rw [he] at he'
  cases he'
  rw [hdown] at hwhole
  exact nomatch hwhole

end PolyArena
