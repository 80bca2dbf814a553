import PolyArena.WsFeedService.TokenRegistry

/-!
# The refresh at a candle boundary

`_refresh_timeframe_with_retry` looks up the tokens of a timeframe up to six times.  What Polymarket
answers at each attempt is an input.

1. `fetchTimeframe` is one attempt; `fetchTimeframe_mapping` and `fetchTimeframe_changed` say what
   it makes of the mapping and which attempts report a change.
2. `refreshTimeframe` is the loop; it ends at the first attempt that reports a change.
3. `refresh_whole_iff`: an end before the last attempt leaves no old token exactly when the attempt
   that changes the first token changes them all.
-/

namespace PolyArena

/-- `_REFRESH_MAX_RETRIES`. -/
def REFRESH_MAX_RETRIES : ℕ := 6

/-- The answers of one attempt: the token of the current market, `none` for an exception, and those
of later ones, with the instants of the lookups and of the cleanup. -/
structure FetchAnswers where
  current : Combo → Option String
  later : Combo → ℤ → Option String := fun _ _ => none
  now : Combo → ℤ := fun _ => 0
  cleanup : ℤ := 0

/-- The lookups of a timeframe, in order. -/
def timeframeCombos (symbols : List BOSymbol) (tf : BOTimeframe) : List Combo :=
  symbols.flatMap fun symbol => [Direction.up, .down].map fun dir => ⟨symbol, tf, dir⟩

/-- The registry, `local_new` and `local_ok`. -/
structure Fetched where
  registry : TokenRegistry
  localNew : List String := []
  localOk : Bool := false

/-- The loop body of `_blocking_fetch`. -/
def Fetched.lookUp (answers : FetchAnswers) (f : Fetched) (c : Combo) : Fetched :=
  match answers.current c with
  | none => f
  | some token =>
    { registry := (f.registry.recordCurrent c (answers.now c) token).prefetchFuture c
        (answers.now c)
        (answers.later c)
      localNew := if some token ≠ f.registry.mapping c then f.localNew ++ [token] else f.localNew
      localOk := true }

/-- `_fetch_timeframe`: the tokens that changed, or `None` when every lookup failed. -/
def TokenRegistry.fetchTimeframe (r : TokenRegistry) (combos : List Combo)
    (answers : FetchAnswers) :
    TokenRegistry × Option (List String) :=
  let f := combos.foldl (Fetched.lookUp answers) { registry := r }
  (f.registry.cleanupStaleSessions answers.cleanup, if f.localOk then some f.localNew else none)

/-- The registry after a refresh, what `_on_new_tokens` was told, and the attempts that were not
made. -/
structure Refreshed where
  registry : TokenRegistry
  told : Option (List String)
  unused : List FetchAnswers

/-- `_refresh_timeframe_with_retry`, with the answers of its attempts. -/
def TokenRegistry.refreshTimeframe (combos : List Combo) :
    TokenRegistry → List FetchAnswers → Refreshed
  | r, [] => ⟨r, none, []⟩
  | r, answers :: rest =>
    match r.fetchTimeframe combos answers with
    | (r', some (token :: tokens)) => ⟨r', some (token :: tokens), rest⟩
    | (r', some []) => refreshTimeframe combos r' rest
    | (r', none) => refreshTimeframe combos r' rest

/-! ## One attempt -/

/-- The combo gets a token that is not the one of the mapping. -/
def FetchAnswers.Rotates (answers : FetchAnswers) (mapping : Combo → Option String) (c : Combo) :
    Prop :=
  ∃ token, answers.current c = some token ∧ mapping c ≠ some token

/-- The combo has a token, and it is not the one that it had at the boundary. -/
def RotatedFrom (mapping mapping' : Combo → Option String) (c : Combo) : Prop :=
  ∃ token, mapping' c = some token ∧ mapping c ≠ some token

section

variable {r : TokenRegistry} {f : Fetched} {combos : List Combo} {answers : FetchAnswers}
  {c c' : Combo}

theorem prefetchFuture_mapping (now : ℤ) (answer : ℤ → Option String) :
    (r.prefetchFuture c now answer).mapping = r.mapping := by
  have hfold : ∀ (found : List (String × ℤ)) (r : TokenRegistry),
      (found.foldl (fun r p => r.recordSession p.1 p.2) r).mapping = r.mapping := by
    intro found
    induction found with
    | nil => exact fun _ => rfl
    | cons p found ih => exact fun r => ih _
  exact hfold _ r

/-- A lookup that is answered puts its token into the mapping. -/
theorem lookUp_mapping (answers : FetchAnswers) (f : Fetched) (c c' : Combo) :
    (f.lookUp answers c).registry.mapping c' =
      if c' = c then (answers.current c).or (f.registry.mapping c) else f.registry.mapping c' := by
  unfold Fetched.lookUp
  cases hcurrent : answers.current c with
  | none =>
    dsimp only
    split_ifs with hc
    · rw [hc, Option.none_or]
    · rfl
  | some token =>
    dsimp only
    rw [prefetchFuture_mapping]
    exact Function.update_apply ..

/-- Looking a combo up again with the same answer changes nothing. -/
theorem rotates_lookUp_iff (hold : ¬ answers.Rotates f.registry.mapping c) :
    (f.lookUp answers c).registry.mapping = f.registry.mapping ∧
      (f.lookUp answers c).localNew = f.localNew := by
  refine ⟨?_, ?_⟩
  · funext c'
    rw [lookUp_mapping]
    split_ifs with hc
    · subst hc
      cases hcurrent : answers.current c' with
      | none => exact Option.none_or
      | some token => exact (not_not.mp fun hne => hold ⟨token, hcurrent, hne⟩).symm
    · rfl
  · unfold Fetched.lookUp
    cases hcurrent : answers.current c with
    | none => rfl
    | some token =>
      exact if_neg fun hne => hold ⟨token, hcurrent, fun h => hne h.symm⟩

/-- A lookup that rotates its combo is reported. -/
theorem localNew_lookUp (hnew : answers.Rotates f.registry.mapping c) :
    (f.lookUp answers c).localNew ≠ [] := by
  obtain ⟨token, hcurrent, hne⟩ := hnew
  unfold Fetched.lookUp
  rw [hcurrent]
  dsimp only
  rw [if_pos fun h => hne h.symm]
  exact List.append_ne_nil_of_right_ne_nil _ (List.cons_ne_nil _ _)

/-- What was reported stays reported. -/
theorem localNew_foldl (h : f.localNew ≠ []) :
    (combos.foldl (Fetched.lookUp answers) f).localNew ≠ [] := by
  induction combos generalizing f with
  | nil => exact h
  | cons c combos ih =>
    refine ih ?_
    unfold Fetched.lookUp
    cases answers.current c with
    | none => exact h
    | some token =>
      dsimp only
      split_ifs
      · exact List.append_ne_nil_of_left_ne_nil h _
      · exact h

theorem foldl_mapping (combos : List Combo) (answers : FetchAnswers) (f : Fetched) (c : Combo) :
    (combos.foldl (Fetched.lookUp answers) f).registry.mapping c =
      if c ∈ combos then (answers.current c).or (f.registry.mapping c)
        else f.registry.mapping c := by
  induction combos generalizing f with
  | nil => rfl
  | cons c' combos ih =>
    rw [List.foldl_cons, ih, lookUp_mapping]
    by_cases hc : c = c'
    · subst hc
      cases answers.current c <;> simp
    · simp [hc]

theorem foldl_changed (combos : List Combo) (answers : FetchAnswers) (f : Fetched)
    (hnil : f.localNew = []) :
    (combos.foldl (Fetched.lookUp answers) f).localNew ≠ [] ↔
      ∃ c ∈ combos, answers.Rotates f.registry.mapping c := by
  induction combos generalizing f with
  | nil => simp [hnil]
  | cons c combos ih =>
    by_cases hnew : answers.Rotates f.registry.mapping c
    · have hreported : ((c :: combos).foldl (Fetched.lookUp answers) f).localNew ≠ [] :=
        localNew_foldl (f := f.lookUp answers c) (localNew_lookUp hnew)
      exact ⟨fun _ => ⟨c, List.mem_cons_self, hnew⟩, fun _ => hreported⟩
    · obtain ⟨hmapping, hlocal⟩ := rotates_lookUp_iff hnew
      rw [List.foldl_cons, ih _ (hlocal.trans hnil), hmapping]
      simp [hnew]

/-- A change is reported by a lookup that succeeds. -/
theorem foldl_localOk (h : f.localNew ≠ [] → f.localOk = true) :
    (combos.foldl (Fetched.lookUp answers) f).localNew ≠ [] →
      (combos.foldl (Fetched.lookUp answers) f).localOk = true := by
  induction combos generalizing f with
  | nil => exact h
  | cons c combos ih =>
    refine ih ?_
    unfold Fetched.lookUp
    cases answers.current c with
    | none => exact h
    | some token => exact fun _ => rfl

/-- The mapping after an attempt. -/
theorem fetchTimeframe_mapping (hc : c ∈ combos) :
    (r.fetchTimeframe combos answers).1.mapping c = (answers.current c).or (r.mapping c) :=
  (foldl_mapping combos answers { registry := r } c).trans (if_pos hc)

/-- A combo has another token after an attempt exactly when the attempt rotates it. -/
theorem rotatedFrom_fetch_iff (hc : c ∈ combos) :
    RotatedFrom r.mapping (r.fetchTimeframe combos answers).1.mapping c ↔
      answers.Rotates r.mapping c := by
  unfold RotatedFrom FetchAnswers.Rotates
  rw [fetchTimeframe_mapping hc]
  cases answers.current c with
  | none => simp
  | some token => simp

/-- An attempt that rotates nothing leaves the mapping as it is, and the loop goes on. -/
theorem refreshTimeframe_same (rest : List FetchAnswers)
    (hsame : ¬ ∃ c ∈ combos, answers.Rotates r.mapping c) :
    ∃ r' : TokenRegistry, r'.mapping = r.mapping ∧
      r.refreshTimeframe combos (answers :: rest) = r'.refreshTimeframe combos rest := by
  have hnil : (combos.foldl (Fetched.lookUp answers) { registry := r }).localNew = [] := by
    rw [← not_ne_iff, foldl_changed combos answers { registry := r } rfl]
    exact hsame
  refine ⟨(r.fetchTimeframe combos answers).1, ?_, ?_⟩
  · funext c
    by_cases hc : c ∈ combos
    · rw [fetchTimeframe_mapping hc]
      cases hcurrent : answers.current c with
      | none => exact Option.none_or
      | some token => exact (not_not.mp fun hne => hsame ⟨c, hc, token, hcurrent, hne⟩).symm
    · exact (foldl_mapping combos answers { registry := r } c).trans (if_neg hc)
  · have hfetch : (r.fetchTimeframe combos answers).2 = some [] ∨
        (r.fetchTimeframe combos answers).2 = none := by
      unfold TokenRegistry.fetchTimeframe
      dsimp only
      rw [hnil]
      split_ifs
      · exact .inl rfl
      · exact .inr rfl
    rw [TokenRegistry.refreshTimeframe]
    generalize r.fetchTimeframe combos answers = fetched at hfetch ⊢
    obtain ⟨r', told⟩ := fetched
    rcases hfetch with rfl | rfl <;> rfl

/-- The loop ends with the first attempt that rotates anything. -/
theorem refreshTimeframe_changed (rest : List FetchAnswers)
    (hnew : ∃ c ∈ combos, answers.Rotates r.mapping c) :
    ∃ told, r.refreshTimeframe combos (answers :: rest) =
      ⟨(r.fetchTimeframe combos answers).1, some told, rest⟩ := by
  have hne : (combos.foldl (Fetched.lookUp answers) { registry := r }).localNew ≠ [] :=
    (foldl_changed combos answers { registry := r } rfl).mpr hnew
  have hok : (combos.foldl (Fetched.lookUp answers) { registry := r }).localOk = true :=
    foldl_localOk (f := { registry := r }) (fun h => absurd rfl h) hne
  obtain ⟨token, tokens, htokens⟩ := List.exists_cons_of_ne_nil hne
  refine ⟨token :: tokens, ?_⟩
  unfold TokenRegistry.refreshTimeframe TokenRegistry.fetchTimeframe
  dsimp only
  rw [if_pos hok, htokens]

end

/-! ## The loop -/

/-- The refresh ends before its last attempt only when every combo has a token other than at the
boundary. -/
def RefreshesWhole (combos : List Combo) (r : TokenRegistry) (attempts : List FetchAnswers) :
    Prop :=
  let e := r.refreshTimeframe combos attempts
  e.unused ≠ [] → ∀ c ∈ combos, RotatedFrom r.mapping e.registry.mapping c

/-- The first attempt that rotates a combo rotates all of them, unless it is the last attempt. -/
def RotatesTogether (combos : List Combo) (mapping : Combo → Option String)
    (attempts : List FetchAnswers) :
    Prop :=
  ∀ before answers rest, attempts = before ++ answers :: rest → rest ≠ [] →
    (∀ a ∈ before, ∀ c ∈ combos, ¬ a.Rotates mapping c) →
      (∃ c ∈ combos, answers.Rotates mapping c) →
    ∀ c ∈ combos, answers.Rotates mapping c

section

variable {r : TokenRegistry} {combos : List Combo} {answers : FetchAnswers}
  {mapping : Combo → Option String} {rest : List FetchAnswers}

theorem rotatesTogether_cons_new (hnew : ∃ c ∈ combos, answers.Rotates mapping c) :
    RotatesTogether combos mapping (answers :: rest) ↔
      (rest ≠ [] → ∀ c ∈ combos, answers.Rotates mapping c) := by
  constructor
  · intro h hrest
    exact h [] answers rest rfl hrest (fun a ha => absurd ha List.not_mem_nil) hnew
  · intro h before answers' rest' heq hrest hbefore hnew'
    cases before with
    | nil =>
      cases heq
      exact h hrest
    | cons a before =>
      cases heq
      obtain ⟨c, hc, hrotates⟩ := hnew
      exact absurd hrotates (hbefore answers List.mem_cons_self c hc)

theorem rotatesTogether_cons_same (hsame : ¬ ∃ c ∈ combos, answers.Rotates mapping c) :
    RotatesTogether combos mapping (answers :: rest) ↔ RotatesTogether combos mapping rest := by
  constructor
  · intro h before answers' rest' heq hrest hbefore hnew
    refine h (answers :: before) answers' rest' (by rw [heq]; rfl) hrest ?_ hnew
    intro a ha c hc
    rcases List.mem_cons.mp ha with rfl | ha
    · exact fun hrotates => hsame ⟨c, hc, hrotates⟩
    · exact hbefore a ha c hc
  · intro h before answers' rest' heq hrest hbefore hnew
    cases before with
    | nil =>
      cases heq
      exact absurd hnew hsame
    | cons a before =>
      cases heq
      exact h before answers' rest' rfl hrest
        (fun a ha => hbefore a (List.mem_cons_of_mem _ ha)) hnew

end

/-- **A refresh stops early only with the whole timeframe rotated, exactly when it rotates at
once**: the first attempt that brings a new token for one combo brings one for every combo, unless
it is the last attempt. -/
theorem refresh_whole_iff (symbols : List BOSymbol) (tf : BOTimeframe) (r : TokenRegistry)
    (attempts : List FetchAnswers) :
    RefreshesWhole (timeframeCombos symbols tf) r attempts ↔
      RotatesTogether (timeframeCombos symbols tf) r.mapping attempts := by
  generalize timeframeCombos symbols tf = combos
  induction attempts generalizing r with
  | nil =>
    refine ⟨fun _ before answers rest heq => ?_, fun _ hunused => absurd rfl hunused⟩
    cases before <;> cases heq
  | cons answers rest ih =>
    by_cases hnew : ∃ c ∈ combos, answers.Rotates r.mapping c
    · obtain ⟨told, hend⟩ := refreshTimeframe_changed rest hnew
      rw [rotatesTogether_cons_new hnew]
      unfold RefreshesWhole
      dsimp only
      rw [hend]
      exact imp_congr_right fun _ => forall₂_congr fun c hc => rotatedFrom_fetch_iff hc
    · obtain ⟨r', hmapping, hend⟩ := refreshTimeframe_same rest hnew
      have hwhole : RefreshesWhole combos r (answers :: rest) ↔ RefreshesWhole combos r' rest := by
        unfold RefreshesWhole
        dsimp only
        rw [hend, hmapping]
      rw [hwhole, ih r', hmapping, rotatesTogether_cons_same hnew]

/-! ## A refresh that stops half-way -/

/-- A registry with the tokens of the last candle. -/
def lastCandle : TokenRegistry :=
  { mapping := fun c => if c.direction = .up then some "old-up" else some "old-down" }

/-- Polymarket has the new market of one direction; the other one follows five seconds later. -/
def halfRotated : List FetchAnswers :=
  { current := fun c => if c.direction = .up then some "new-up" else none } ::
    List.replicate (REFRESH_MAX_RETRIES - 1)
      { current := fun c => if c.direction = .up then some "new-up" else some "new-down" }

/-- **The refresh stops half-way**: five attempts are left, and one direction keeps the token of the
last candle. -/
theorem refresh_stops_halfway :
    (lastCandle.refreshTimeframe (timeframeCombos [.btc] .m5) halfRotated).unused.length = 5 ∧
      (lastCandle.refreshTimeframe (timeframeCombos [.btc] .m5) halfRotated).registry.mapping
        ⟨.btc, .m5, .down⟩ =
        some "old-down" ∧
      halfRotated.length = REFRESH_MAX_RETRIES ∧
      ¬ RefreshesWhole (timeframeCombos [.btc] .m5) lastCandle halfRotated := by
  have hunused :
      (lastCandle.refreshTimeframe (timeframeCombos [.btc] .m5) halfRotated).unused.length = 5 := by
    decide +kernel
  have hold :
      (lastCandle.refreshTimeframe (timeframeCombos [.btc] .m5) halfRotated).registry.mapping
      ⟨.btc, .m5, .down⟩ = some "old-down" := by decide +kernel
  refine ⟨hunused, hold, rfl, fun hwhole => ?_⟩
  obtain ⟨token, htoken, hne⟩ := hwhole (fun hnil => by rw [hnil] at hunused; cases hunused)
    ⟨.btc, .m5, .down⟩ (by decide)
  exact hne (hold.symm.trans htoken)

end PolyArena
