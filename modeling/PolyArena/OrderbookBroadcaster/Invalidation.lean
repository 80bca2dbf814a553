import PolyArena.OrderbookBroadcaster.SingleFlight

/-!
# Invalidation of the token discovery cache

`TokenDiscoveryCache.invalidate` removes what is in the cache.  It does not know of a fetch that is
under way: a later caller joins that fetch, and what it brings goes into the cache.

1. `Discovery`: the cache with numbered events; a result carries the number of the event that
   started its fetch.
2. `Effective`: nobody who calls after an invalidation gets what was fetched before it.
3. `effective_of_run`: so it is in every run that invalidates a key only when no fetch for it is
   under way; `invalidate_in_flight` has a run that does not.
-/

namespace PolyArena

/-- A result of `_discover_tokens_sync`, with the instant at which its fetch started. -/
structure Stamped (τ : Type*) where
  start : ℕ
  value : Option τ
  deriving DecidableEq

/-- `TokenDiscoveryCache` with stamped results. -/
def stampedCache {τ : Type*} (ttl : ℚ) : CacheKind (Stamped τ) :=
  let kind : CacheKind (Option τ) := tokenDiscoveryCache ttl
  ⟨kind.ttl, fun r => kind.keeps r.value, kind.invalidates⟩

namespace FlightStage

variable {ρ : Type*}

/-- The fetch of the caller is under way, or its result is on its way into the cache. -/
def fetches : FlightStage ρ → Bool
  | fetching | storing _ => true
  | entered | failing _ | waiting _ | done _ => false

/-- The caller has nothing left that could bring a result. -/
def finished : FlightStage ρ → Bool
  | failing _ | done _ => true
  | entered | fetching | storing _ | waiting _ => false

/-- A caller that once made a future. -/
def flew (stage : FlightStage ρ) : Bool := stage.fetches || stage.finished

end FlightStage

/-- A cache whose events are numbered by `clock`: the callers so far, when each of them called and
looked, and the invalidations of each key. -/
structure Discovery (κ τ : Type*) where
  flights : Flights κ (Stamped τ) := {}
  clock : ℕ := 0
  calls : List ℕ := []
  started : ℕ → ℕ := fun _ => 0
  fetchStart : ℕ → ℕ := fun _ => 0
  invalidations : κ → List ℕ := fun _ => []

namespace Discovery

variable {κ τ : Type*}

/-- A move with its result stamped. -/
def stampMove (s : Discovery κ τ) (c : ℕ) : Move (Option τ) → Move (Stamped τ)
  | .look => .look
  | .fetched value => .fetched ⟨s.fetchStart c, value⟩
  | .raised e => .raised e
  | .store now => .store now
  | .fail => .fail
  | .wake => .wake
  | .cancel => .cancel

section

variable [DecidableEq κ]

/-- One event. -/
def step (ttl : ℚ) (s : Discovery κ τ) : FlightAction κ (Option τ) → Option (Discovery κ τ)
  | .call c key now =>
    (s.flights.step (stampedCache ttl) (.call c key now)).map fun flights =>
      { s with
        flights := flights
        clock := s.clock + 1
        calls := c :: s.calls
        started := Function.update s.started c s.clock }
  | .move c .look =>
    (s.flights.step (stampedCache ttl) (.move c .look)).map fun flights =>
      { s with
        flights := flights, clock := s.clock + 1,
        fetchStart := Function.update s.fetchStart c s.clock }
  | .move c m =>
    (s.flights.step (stampedCache ttl) (.move c (s.stampMove c m))).map fun flights =>
      { s with flights := flights, clock := s.clock + 1 }
  | .invalidate key =>
    (s.flights.step (stampedCache ttl) (.invalidate key)).map fun flights =>
      { s with
        flights := flights
        clock := s.clock + 1
        invalidations := Function.update s.invalidations key (s.clock :: s.invalidations key) }
  | .clear =>
    (s.flights.step (stampedCache ttl) .clear).map fun flights =>
      { s with
        flights := flights, clock := s.clock + 1,
        invalidations := fun k => s.clock :: s.invalidations k }

/-- No fetch for the key is under way when it is invalidated. -/
def landed (s : Discovery κ τ) : FlightAction κ (Option τ) → Bool
  | .invalidate key =>
    s.calls.all fun c => (s.flights.callers c).all fun x => !(x.key = key && x.stage.fetches)
  | .clear => s.calls.all fun c => (s.flights.callers c).all fun x => !x.stage.fetches
  | _ => true

end

/-- A caller that started after an invalidation of its key gets no result whose fetch started before
it. -/
def Effective (s : Discovery κ τ) : Prop :=
  ∀ c x r, s.flights.callers c = some x → x.stage = .done (.result r) →
    ∀ t ∈ s.invalidations x.key, t < s.started c → t ≤ r.start

/-! ## The invariant -/

/-- The instant is after every invalidation of the key. -/
def After (s : Discovery κ τ) (key : κ) (n : ℕ) : Prop := ∀ t ∈ s.invalidations key, t ≤ n

/-- The future of the caller will not bring a result. -/
def Dead (s : Discovery κ τ) (owner : ℕ) : Prop :=
  (∃ y, s.flights.callers owner = some y ∧ y.stage.finished = true) ∧
    ∀ r, s.flights.futures owner ≠ some (some (.result r))

/-- What the caller `c` for `key` waits for was fetched after the invalidations before its call. -/
def Awaits (s : Discovery κ τ) (c : ℕ) (key : κ) (owner : ℕ) : Prop :=
  s.Dead owner ∨ ∀ t ∈ s.invalidations key, t < s.started c → t ≤ s.fetchStart owner

/-- The invariant of runs whose invalidations meet no fetch. -/
structure Current (s : Discovery κ τ) : Prop where
  named : ∀ c x, s.flights.callers c = some x → c ∈ s.calls ∧ s.started c < s.clock
  past : ∀ k, ∀ t ∈ s.invalidations k, t < s.clock
  cache : ∀ k entry, s.flights.cache k = some entry → s.After k entry.2.start
  flying : ∀ c x, s.flights.callers c = some x → x.stage.fetches = true →
    s.After x.key (s.fetchStart c)
  storing : ∀ c x r, s.flights.callers c = some x → x.stage = .storing r → r.start = s.fetchStart c
  futures : ∀ owner r, s.flights.futures owner = some (some (.result r)) →
    r.start = s.fetchStart owner ∧ ∃ y, s.flights.callers owner = some y ∧ y.stage.finished = true
  pending : ∀ k owner, s.flights.pending k = some owner →
    (∃ y, s.flights.callers owner = some y ∧ y.key = k ∧ y.stage.flew = true) ∧
      ∀ r, s.flights.futures owner ≠ some (some (.result r))
  waiting : ∀ c x owner, s.flights.callers c = some x → x.stage = .waiting owner →
    (∃ y, s.flights.callers owner = some y ∧ y.stage.flew = true) ∧ s.Awaits c x.key owner
  effective : s.Effective

section

variable {s s' : Discovery κ τ} {c : ℕ} {x x' : Caller κ (Stamped τ)}

theorem current_empty : Current ({} : Discovery κ τ) :=
  ⟨nofun, nofun, nofun, nofun, nofun, nofun, nofun, nofun, nofun⟩

theorem Current.tick (h : s.Current) : Current { s with clock := s.clock + 1 } where
  named c x hx := ⟨(h.named c x hx).1, Nat.lt_succ_of_lt (h.named c x hx).2⟩
  past k t ht := Nat.lt_succ_of_lt (h.past k t ht)
  cache := h.cache
  flying := h.flying
  storing := h.storing
  futures := h.futures
  pending := h.pending
  waiting := h.waiting
  effective := h.effective

/-- What a move of the caller `c` from `x` to `x'` has to respect. -/
structure Moved (s : Discovery κ τ) (c : ℕ) (x x' : Caller κ (Stamped τ))
    (f : Flights κ (Stamped τ)) : Prop where
  callers : f.callers = Function.update s.flights.callers c (some x')
  key : x'.key = x.key
  flew : x.stage.flew = true → x'.stage.flew = true
  finished : x.stage.finished = true → x'.stage.finished = true
  flying : x'.stage.fetches = true → s.After x.key (s.fetchStart c)
  storing : ∀ r, x'.stage = .storing r → r.start = s.fetchStart c
  cache : ∀ k entry, f.cache k = some entry →
    s.flights.cache k = some entry ∨ s.After k entry.2.start
  futures : ∀ owner r, f.futures owner = some (some (.result r)) →
    s.flights.futures owner = some (some (.result r)) ∨
      owner = c ∧ r.start = s.fetchStart c ∧ x.stage.finished = false ∧ x'.stage.finished = true
  pending : ∀ k owner, f.pending k = some owner →
    (s.flights.pending k = some owner ∨ owner = c ∧ k = x.key ∧ x'.stage.flew = true) ∧
      ∀ r, f.futures owner ≠ some (some (.result r))
  waiting : ∀ owner, x'.stage = .waiting owner →
    (∃ y, s.flights.callers owner = some y ∧ y.stage.flew = true) ∧ s.Awaits c x.key owner
  done : ∀ r, x'.stage = .done (.result r) → ∀ t ∈ s.invalidations x.key,
    t < s.started c → t ≤ r.start

/-- **A move** that respects the invariant keeps it. -/
theorem Current.moved (h : s.Current) (hx : s.flights.callers c = some x)
    {f : Flights κ (Stamped τ)} (hm : s.Moved c x x' f) : Current { s with flights := f } := by
  have hcases : ∀ c' y, f.callers c' = some y →
      c' = c ∧ y = x' ∨ s.flights.callers c' = some y := by
    intro c' y hy
    rw [hm.callers] at hy
    by_cases hc : c' = c
    · subst hc
      rw [Function.update_self] at hy
      exact .inl ⟨rfl, (Option.some.inj hy).symm⟩
    · rw [Function.update_of_ne hc] at hy
      exact .inr hy
  -- a caller that has made a future, or is over, still has or is
  have hkept : ∀ P : Caller κ (Stamped τ) → Prop, (P x → P x') →
      ∀ c' y, s.flights.callers c' = some y → P y →
      ∃ y', f.callers c' = some y' ∧ P y' := by
    intro P hP c' y hy hPy
    by_cases hc : c' = c
    · subst hc
      obtain rfl : x = y := Option.some.inj (hx.symm.trans hy)
      exact ⟨x', by rw [hm.callers, Function.update_self], hP hPy⟩
    · exact ⟨y, by rw [hm.callers, Function.update_of_ne hc]; exact hy, hPy⟩
  have hdead : ∀ owner, s.Dead owner → Dead { s with flights := f } owner := by
    rintro owner ⟨⟨y, hy, hover⟩, hnone⟩
    refine ⟨hkept (fun y => y.stage.finished = true) hm.finished owner y hy hover, fun r hr => ?_⟩
    rcases hm.futures owner r hr with hold | ⟨rfl, -, hlive, -⟩
    · exact hnone r hold
    · obtain rfl : x = y := Option.some.inj (hx.symm.trans hy)
      cases hlive.symm.trans hover
  have hflew : ∀ owner, (∃ y, s.flights.callers owner = some y ∧ y.stage.flew = true) →
      ∃ y, f.callers owner = some y ∧ y.stage.flew = true := by
    rintro owner ⟨y, hy, hyflew⟩
    exact hkept (fun y => y.stage.flew = true) hm.flew owner y hy hyflew
  refine ⟨?_, h.past, ?_, ?_, ?_, ?_, ?_, ?_, ?_⟩
  · intro c' y hy
    rcases hcases c' y hy with ⟨rfl, -⟩ | hy
    · exact h.named c' x hx
    · exact h.named c' y hy
  · intro k entry hentry
    rcases hm.cache k entry hentry with hold | hafter
    · exact h.cache k entry hold
    · exact hafter
  · intro c' y hy hfetches
    rcases hcases c' y hy with ⟨rfl, rfl⟩ | hy
    · exact hm.key ▸ hm.flying hfetches
    · exact h.flying c' y hy hfetches
  · intro c' y r hy hstoring
    rcases hcases c' y hy with ⟨rfl, rfl⟩ | hy
    · exact hm.storing r hstoring
    · exact h.storing c' y r hy hstoring
  · intro owner r hr
    rcases hm.futures owner r hr with hold | ⟨rfl, hstart, -, hover⟩
    · obtain ⟨hstart, y, hy, hover⟩ := h.futures owner r hold
      exact ⟨hstart, hkept (fun y => y.stage.finished = true) hm.finished owner y hy hover⟩
    · exact ⟨hstart, x', by rw [hm.callers, Function.update_self], hover⟩
  · intro k owner hk
    obtain ⟨hk, hnone⟩ := hm.pending k owner hk
    refine ⟨?_, hnone⟩
    rcases hk with hold | ⟨rfl, rfl, hflew'⟩
    · obtain ⟨⟨y, hy, hyk, hyflew⟩, -⟩ := h.pending k owner hold
      exact hkept (fun y => y.key = k ∧ y.stage.flew = true)
        (fun hP => ⟨hm.key.trans hP.1, hm.flew hP.2⟩) owner y hy ⟨hyk, hyflew⟩
    · exact ⟨x', by rw [hm.callers, Function.update_self], hm.key, hflew'⟩
  · intro c' y owner hy hwaits
    have hold : (∃ y, s.flights.callers owner = some y ∧ y.stage.flew = true) ∧
        s.Awaits c' y.key owner := by
      rcases hcases c' y hy with ⟨rfl, rfl⟩ | hy
      · exact hm.key ▸ hm.waiting owner hwaits
      · exact h.waiting c' y owner hy hwaits
    exact ⟨hflew owner hold.1, hold.2.imp_left (hdead owner)⟩
  · intro c' y r hy hdone
    rcases hcases c' y hy with ⟨rfl, rfl⟩ | hy
    · exact hm.key ▸ hm.done r hdone
    · exact h.effective c' y r hy hdone

/-! ## Moves -/

/-- A move that touches neither the cache nor a future. -/
theorem Current.moved_put (h : s.Current) (hkey : x'.key = x.key)
    (hflew : x.stage.flew = true → x'.stage.flew = true)
    (hover : x.stage.finished = true → x'.stage.finished = true)
    (hflying : x'.stage.fetches = true → s.After x.key (s.fetchStart c))
    (hstoring : ∀ r, x'.stage = .storing r → r.start = s.fetchStart c)
    (hwaiting : ∀ owner, x'.stage = .waiting owner →
      (∃ y, s.flights.callers owner = some y ∧ y.stage.flew = true) ∧ s.Awaits c x.key owner)
    (hdone : ∀ r, x'.stage = .done (.result r) → ∀ t ∈ s.invalidations x.key, t < s.started c →
      t ≤ r.start) :
    s.Moved c x x' (s.flights.put c x') where
  callers := rfl
  key := hkey
  flew := hflew
  finished := hover
  flying := hflying
  storing := hstoring
  cache _ _ := .inl
  futures _ _ := .inl
  pending k owner hk := ⟨.inl hk, (h.pending k owner hk).2⟩
  waiting := hwaiting
  done := hdone

/-- The instant of the look: nothing depends on that of a caller that has not looked. -/
theorem Current.looks (h : s.Current) (hx : s.flights.callers c = some x)
    (hstage : x.stage = .entered) (n : ℕ) :
    Current { s with fetchStart := Function.update s.fetchStart c n } := by
  have hne : ∀ c' y, s.flights.callers c' = some y → y.stage.flew = true → c' ≠ c := by
    rintro c' y hy hyflew rfl
    obtain rfl : x = y := Option.some.inj (hx.symm.trans hy)
    rw [hstage] at hyflew
    cases hyflew
  have hsame : ∀ c' y, s.flights.callers c' = some y → y.stage.flew = true →
      Function.update s.fetchStart c n c' = s.fetchStart c' :=
    fun c' y hy hyflew => Function.update_of_ne (hne c' y hy hyflew) ..
  have hfetches : ∀ y : Caller κ (Stamped τ), y.stage.fetches = true →
      y.stage.flew = true := fun y hy => by
    unfold FlightStage.flew
    rw [hy]
    rfl
  refine ⟨h.named, h.past, h.cache, ?_, ?_, ?_, h.pending, ?_, h.effective⟩
  · intro c' y hy hyf
    show s.After y.key (Function.update s.fetchStart c n c')
    rw [hsame c' y hy (hfetches y hyf)]
    exact h.flying c' y hy hyf
  · intro c' y r hy hyr
    show r.start = Function.update s.fetchStart c n c'
    rw [hsame c' y hy (by rw [hyr]; rfl)]
    exact h.storing c' y r hy hyr
  · intro owner r hr
    obtain ⟨hstart, y, hy, hyover⟩ := h.futures owner r hr
    refine ⟨?_, y, hy, hyover⟩
    show r.start = Function.update s.fetchStart c n owner
    rw [hsame owner y hy (by unfold FlightStage.flew; rw [hyover, Bool.or_true])]
    exact hstart
  · intro c' y owner hy hwaits
    obtain ⟨⟨z, hz, hzflew⟩, hawaits⟩ := h.waiting c' y owner hy hwaits
    refine ⟨⟨z, hz, hzflew⟩, hawaits.imp_right fun hle => ?_⟩
    show ∀ t ∈ s.invalidations y.key, t < s.started c' → t ≤ Function.update s.fetchStart c n owner
    rw [hsame owner z hz hzflew]
    exact hle

/-- **A cancellation** brings no result. -/
theorem Current.cancel (h : s.Current) (hx : s.flights.callers c = some x) :
    Current { s with flights := s.flights.cancel c x } := by
  have hends : Current { s with
      flights := s.flights.put c { x with cancelled := true, stage := .done .cancelledError } } :=
    h.moved hx (h.moved_put rfl (fun _ => rfl) (fun _ => rfl) nofun nofun nofun nofun)
  unfold Flights.cancel
  dsimp only
  split
  · exact h
  · next owner hstage =>
    split
    · next hfuture =>
      -- the future that the caller awaits is cancelled
      have hfutures : ∀ owner' r,
          Function.update s.flights.futures owner (some (some .cancelledError)) owner' =
            some (some (.result r)) →
            s.flights.futures owner' = some (some (.result r)) := by
        intro owner' r hr
        by_cases hc : owner' = owner
        · subst hc
          rw [Function.update_self] at hr
          cases hr
        · rwa [Function.update_of_ne hc] at hr
      refine h.moved hx (show s.Moved c x { x with cancelled := true } _
        from ⟨rfl, rfl, id, id, ?_, ?_,
        fun _ _ => .inl, fun owner' r hr => .inl (hfutures owner' r hr), ?_, ?_, ?_⟩)
      · exact h.flying c x hx
      · exact fun r hr => h.storing c x r hx hr
      · intro k owner' hk
        exact ⟨.inl hk, fun r hr => (h.pending k owner' hk).2 r (hfutures owner' r hr)⟩
      · exact fun owner' hwaits => h.waiting c x owner' hx hwaits
      · exact fun r hr => h.effective c x r hx hr
    · exact hends
  · exact hends

/-! ## Calls and invalidations -/

/-- A new caller has not looked at anything. -/
theorem Current.call (h : s.Current) (hnew : s.flights.callers c = none) (key : κ) (now : ℚ) :
    Current { s with
      flights := s.flights.put c { key := key, now := now }
      clock := s.clock + 1
      calls := c :: s.calls
      started := Function.update s.started c s.clock } := by
  have hne : ∀ c' y, s.flights.callers c' = some y → c' ≠ c := by
    rintro c' y hy rfl
    rw [hnew] at hy
    cases hy
  have hold : ∀ c' y, s.flights.callers c' = some y →
      (s.flights.put c { key := key, now := now }).callers c' = some y :=
    fun c' y hy => (Flights.put_ne (hne c' y hy)).trans hy
  refine ⟨?_, fun k t ht => Nat.lt_succ_of_lt (h.past k t ht), h.cache, ?_, ?_, ?_, ?_, ?_, ?_⟩
  · intro c' y hy
    rcases Flights.put_callers hy with ⟨rfl, -⟩ | ⟨hc, hy⟩
    · refine ⟨List.mem_cons_self, ?_⟩
      show Function.update s.started c' s.clock c' < s.clock + 1
      rw [Function.update_self]
      exact Nat.lt_succ_self _
    · refine ⟨List.mem_cons_of_mem c (h.named c' y hy).1, ?_⟩
      show Function.update s.started c s.clock c' < s.clock + 1
      rw [Function.update_of_ne hc]
      exact Nat.lt_succ_of_lt (h.named c' y hy).2
  · intro c' y hy hfetches
    rcases Flights.put_callers hy with ⟨-, rfl⟩ | ⟨-, hy⟩
    · cases hfetches
    · exact h.flying c' y hy hfetches
  · intro c' y r hy hstoring
    rcases Flights.put_callers hy with ⟨-, rfl⟩ | ⟨-, hy⟩
    · cases hstoring
    · exact h.storing c' y r hy hstoring
  · intro owner r hr
    obtain ⟨hstart, y, hy, hover⟩ := h.futures owner r hr
    exact ⟨hstart, y, hold owner y hy, hover⟩
  · intro k owner hk
    obtain ⟨⟨y, hy, hyk⟩, hnone⟩ := h.pending k owner hk
    exact ⟨⟨y, hold owner y hy, hyk⟩, hnone⟩
  · intro c' y owner hy hwaits
    rcases Flights.put_callers hy with ⟨-, rfl⟩ | ⟨hc, hy⟩
    · cases hwaits
    · obtain ⟨⟨z, hz, hzflew⟩, hawaits⟩ := h.waiting c' y owner hy hwaits
      refine ⟨⟨z, hold owner z hz, hzflew⟩, ?_⟩
      rcases hawaits with ⟨⟨z', hz', hover⟩, hnone⟩ | hle
      · exact .inl ⟨⟨z', hold owner z' hz', hover⟩, hnone⟩
      · refine .inr fun t ht hlt => hle t ht ?_
        change t < Function.update s.started c s.clock c' at hlt
        rwa [Function.update_of_ne hc] at hlt
  · intro c' y r hy hdone t ht hlt
    rcases Flights.put_callers hy with ⟨-, rfl⟩ | ⟨hc, hy⟩
    · cases hdone
    · refine h.effective c' y r hy hdone t ht ?_
      change t < Function.update s.started c s.clock c' at hlt
      rwa [Function.update_of_ne hc] at hlt

/-- **An invalidation** of keys for which no fetch is under way: what is in the cache for them goes,
and nobody who calls later can get what was fetched before. -/
theorem Current.invalidated (h : s.Current) (keys : κ → Prop) {entries : κ → Option (ℚ × Stamped τ)}
    {marks : κ → List ℕ} (hgone : ∀ k, keys k → entries k = none)
    (hkept : ∀ k, ¬ keys k → entries k = s.flights.cache k ∧ marks k = s.invalidations k)
    (hmarks : ∀ k, ∀ t ∈ marks k, t = s.clock ∨ t ∈ s.invalidations k)
    (hlanded : ∀ c x, s.flights.callers c = some x → keys x.key → x.stage.fetches = false) :
    Current { s with
      flights := { s.flights with cache := entries }
      clock := s.clock + 1
      invalidations := marks } := by
  -- the new instant is after every call
  have hcalls : ∀ c x, s.flights.callers c = some x → ∀ t ∈ marks x.key, t < s.started c →
      t ∈ s.invalidations x.key := by
    intro c x hx t ht hlt
    rcases hmarks x.key t ht with rfl | ht
    · exact absurd (h.named c x hx).2 (Nat.lt_asymm hlt)
    · exact ht
  refine ⟨fun c x hx => ⟨(h.named c x hx).1, Nat.lt_succ_of_lt (h.named c x hx).2⟩, ?_, ?_,
    ?_, h.storing, h.futures, h.pending, ?_, ?_⟩
  · intro k t ht
    rcases hmarks k t ht with rfl | ht
    · exact Nat.lt_succ_self _
    · exact Nat.lt_succ_of_lt (h.past k t ht)
  · intro k entry hentry
    by_cases hk : keys k
    · cases (hgone k hk).symm.trans hentry
    · obtain ⟨hcache, hinv⟩ := hkept k hk
      intro t ht
      exact h.cache k entry (hcache ▸ hentry) t (hinv ▸ ht)
  · intro c x hx hfetches t ht
    by_cases hk : keys x.key
    · cases (hlanded c x hx hk).symm.trans hfetches
    · exact h.flying c x hx hfetches t ((hkept x.key hk).2 ▸ ht)
  · intro c x owner hx hwaits
    obtain ⟨hflew, hawaits⟩ := h.waiting c x owner hx hwaits
    exact ⟨hflew, hawaits.imp_right fun hle t ht hlt => hle t (hcalls c x hx t ht hlt) hlt⟩
  · intro c x r hx hdone t ht hlt
    exact h.effective c x r hx hdone t (hcalls c x hx t ht hlt) hlt

section

variable [DecidableEq κ] {ttl : ℚ}

/-- **The look**: what is cached is current, and so is a fetch that is under way. -/
theorem Current.look (h : s.Current) (hx : s.flights.callers c = some x)
    (hstage : x.stage = .entered) (hafter : s.After x.key (s.fetchStart c)) :
    Current { s with flights := s.flights.look (stampedCache ttl) c x } := by
  unfold Flights.look
  split
  · next entry hentry =>
    have hcached := (Option.filter_eq_some_iff.mp hentry).1
    refine h.moved hx (h.moved_put rfl ?_ ?_ nofun nofun nofun ?_)
    · rw [hstage]
      exact nofun
    · rw [hstage]
      exact nofun
    · rintro r hr t ht -
      cases hr
      exact h.cache x.key entry hcached t ht
  · split
    · next owner hpending =>
      obtain ⟨⟨y, hy, hykey, hyflew⟩, hnone⟩ := h.pending x.key owner hpending
      refine h.moved hx (h.moved_put rfl ?_ ?_ nofun nofun ?_ nofun)
      · rw [hstage]
        exact nofun
      · rw [hstage]
        exact nofun
      · intro owner' hwaits
        cases hwaits
        refine ⟨⟨y, hy, hyflew⟩, ?_⟩
        rcases Bool.or_eq_true_iff.mp hyflew with hfetches | hover
        · exact .inr fun t ht _ => h.flying owner y hy hfetches t (hykey ▸ ht)
        · exact .inl ⟨⟨y, hy, hover⟩, hnone⟩
    · next hpending =>
      have hfutures : ∀ owner r,
          Function.update s.flights.futures c (some none) owner = some (some (.result r)) →
            s.flights.futures owner = some (some (.result r)) := by
        intro owner r hr
        by_cases hc : owner = c
        · subst hc
          rw [Function.update_self] at hr
          cases hr
        · rwa [Function.update_of_ne hc] at hr
      refine h.moved hx (show s.Moved c x { x with stage := .fetching } _
        from ⟨rfl, rfl, fun _ => rfl, ?_,
        fun _ => hafter, nofun, fun _ _ => .inl, fun owner r hr => .inl (hfutures owner r hr), ?_,
          nofun, nofun⟩)
      · rw [hstage]
        exact nofun
      · intro k owner hk
        change Function.update s.flights.pending x.key (some c) k = some owner at hk
        by_cases hkey : k = x.key
        · subst hkey
          rw [Function.update_self] at hk
          cases hk
          refine ⟨.inr ⟨rfl, rfl, rfl⟩, fun r hr => ?_⟩
          change Function.update s.flights.futures c (some none) c = _ at hr
          rw [Function.update_self] at hr
          cases hr
        · rw [Function.update_of_ne hkey] at hk
          exact ⟨.inl hk, fun r hr => (h.pending k owner hk).2 r (hfutures owner r hr)⟩

/-- The owner removes its key and completes its future. -/
theorem Current.complete (h : s.Current) (hx : s.flights.callers c = some x)
    {o : Outcome (Stamped τ)} {invalid : FlightStage (Stamped τ)}
    {entries : κ → Option (ℚ × Stamped τ)} (hresult : ∀ r, o = .result r →
      r.start = s.fetchStart c ∧ x.stage.finished = false ∧ s.After x.key r.start)
    (hinvalid : invalid.finished = true) (hnone : ∀ r, invalid ≠ .done (.result r))
    (hentries : ∀ k entry, entries k = some entry →
      s.flights.cache k = some entry ∨ s.After k entry.2.start) :
    Current { s with
      flights := { s.flights.pop x.key with cache := entries }.complete c x o invalid } := by
  -- no key is pending with this owner any more
  have hpending : ∀ k owner, (s.flights.pop x.key).pending k = some owner →
      s.flights.pending k = some owner ∧ owner ≠ c := by
    intro k owner hk
    change Function.update s.flights.pending x.key none k = some owner at hk
    by_cases hkey : k = x.key
    · subst hkey
      rw [Function.update_self] at hk
      cases hk
    · rw [Function.update_of_ne hkey] at hk
      refine ⟨hk, ?_⟩
      rintro rfl
      obtain ⟨⟨y, hy, hyk, -⟩, -⟩ := h.pending k owner hk
      obtain rfl : x = y := Option.some.inj (hx.symm.trans hy)
      exact hkey hyk.symm
  have hflewOf : ∀ stage : FlightStage (Stamped τ), stage.finished = true →
      stage.flew = true := fun stage hover => by
    unfold FlightStage.flew
    rw [hover, Bool.or_true]
  have hquiet : ∀ stage : FlightStage (Stamped τ), stage.finished = true →
      stage.fetches = false ∧ (∀ r, stage ≠ .storing r) ∧ ∀ owner, stage ≠ .waiting owner := by
    intro stage hover
    cases stage with
    | failing e => exact ⟨rfl, nofun, nofun⟩
    | done o => exact ⟨rfl, nofun, nofun⟩
    | _ => cases hover
  unfold Flights.complete
  split
  · next hfuture =>
    refine h.moved hx (show s.Moved c x { x with stage := .done o } _ from ⟨rfl, rfl, fun _ => rfl,
      fun _ => rfl, nofun, nofun, hentries, ?_, ?_, nofun, ?_⟩)
    · intro owner r hr
      change Function.update s.flights.futures c (some (some o)) owner = _ at hr
      by_cases hc : owner = c
      · subst hc
        rw [Function.update_self] at hr
        obtain ⟨hstart, hlive, -⟩ := hresult r (Option.some.inj (Option.some.inj hr))
        exact .inr ⟨rfl, hstart, hlive, rfl⟩
      · rw [Function.update_of_ne hc] at hr
        exact .inl hr
    · intro k owner hk
      obtain ⟨hold, hne⟩ := hpending k owner hk
      refine ⟨.inl hold, fun r hr => (h.pending k owner hold).2 r ?_⟩
      change Function.update s.flights.futures c (some (some o)) owner = _ at hr
      rwa [Function.update_of_ne hne] at hr
    · rintro r hr t ht -
      exact (hresult r (FlightStage.done.inj hr)).2.2 t ht
  · obtain ⟨hfetches, hstoring, hwaiting⟩ := hquiet invalid hinvalid
    refine h.moved hx (show s.Moved c x { x with stage := invalid } _ from ⟨rfl, rfl,
      fun _ => hflewOf invalid hinvalid, fun _ => hinvalid, ?_,
        fun r hr => absurd hr (hstoring r), hentries,
      fun _ _ => .inl, ?_, fun owner hwaits => absurd hwaits (hwaiting owner),
        fun r hr => absurd hr (hnone r)⟩)
    · intro hf
      cases hfetches.symm.trans hf
    · intro k owner hk
      obtain ⟨hold, -⟩ := hpending k owner hk
      exact ⟨.inl hold, (h.pending k owner hold).2⟩

/-- **Every move** of a caller that has looked, or is cancelled, keeps the invariant. -/
theorem Current.move (h : s.Current) (hx : s.flights.callers c = some x) {m : Move (Option τ)}
    (hlook : m ≠ .look) {f : Flights κ (Stamped τ)}
    (hmove : s.flights.move (stampedCache ttl) c x (s.stampMove c m) = some f) :
    Current { s with flights := f } := by
  cases m with
  | look => exact absurd rfl hlook
  | fetched value =>
    cases hstage : x.stage with
    | fetching =>
      simp only [stampMove, Flights.move, hstage] at hmove
      cases hmove
      refine h.moved hx (h.moved_put rfl (fun _ => rfl) ?_ ?_ ?_ nofun nofun)
      · rw [hstage]
        exact nofun
      · exact fun _ => h.flying c x hx (by rw [hstage]; rfl)
      · intro r hr
        cases hr
        rfl
    | _ => simp only [stampMove, Flights.move, hstage] at hmove; cases hmove
  | raised e =>
    cases hstage : x.stage with
    | fetching =>
      simp only [stampMove, Flights.move, hstage] at hmove
      cases hmove
      exact h.moved hx (h.moved_put rfl (fun _ => rfl) (fun _ => rfl) nofun nofun nofun nofun)
    | _ => simp only [stampMove, Flights.move, hstage] at hmove; cases hmove
  | store now =>
    cases hstage : x.stage with
    | storing r =>
      simp only [stampMove, Flights.move, hstage] at hmove
      cases hmove
      have hstart := h.storing c x r hx hstage
      have hafter : s.After x.key r.start := by
        rw [hstart]
        exact h.flying c x hx (by rw [hstage]; rfl)
      refine h.complete hx ?_ rfl nofun ?_
      · intro r' hr'
        cases hr'
        exact ⟨hstart, by rw [hstage]; rfl, hafter⟩
      · intro k entry hentry
        split at hentry
        · by_cases hkey : k = x.key
          · subst hkey
            rw [Function.update_self] at hentry
            cases hentry
            exact .inr hafter
          · rw [Function.update_of_ne hkey] at hentry
            exact .inl hentry
        · exact .inl hentry
    | _ => simp only [stampMove, Flights.move, hstage] at hmove; cases hmove
  | fail =>
    cases hstage : x.stage with
    | failing e =>
      simp only [stampMove, Flights.move, hstage] at hmove
      cases hmove
      exact h.complete hx nofun rfl nofun fun _ _ => .inl
    | _ => simp only [stampMove, Flights.move, hstage] at hmove; cases hmove
  | wake =>
    cases hstage : x.stage with
    | waiting owner =>
      simp only [stampMove, Flights.move, hstage] at hmove
      split at hmove
      · next o hfuture =>
        cases hmove
        refine h.moved hx (h.moved_put rfl (fun _ => rfl) (fun _ => rfl) nofun nofun nofun ?_)
        intro r hr t ht hlt
        cases hr
        obtain ⟨-, ⟨-, hnone⟩ | hle⟩ := h.waiting c x owner hx hstage
        · exact absurd hfuture (hnone r)
        · exact (h.futures owner r hfuture).1 ▸ hle t ht hlt
      · cases hmove
    | _ => simp only [stampMove, Flights.move, hstage] at hmove; cases hmove
  | cancel =>
    have hcancel : f = s.flights.cancel c x := by
      cases hstage : x.stage <;> simp only [stampMove, Flights.move, hstage] at hmove <;>
        cases hmove <;> rfl
    exact hcancel ▸ h.cancel hx

/-- **Every event** that the guard allows keeps the invariant. -/
theorem Current.step (h : s.Current) {a : FlightAction κ (Option τ)} (hlanded : s.landed a = true)
    (hstep : s.step ttl a = some s') : s'.Current := by
  cases a with
  | call c key now =>
    obtain ⟨f, hf, rfl⟩ := Option.map_eq_some_iff.mp hstep
    obtain ⟨hnone, hf⟩ := Option.ite_none_right_eq_some.mp hf
    cases hf
    exact h.call (Option.isNone_iff_eq_none.mp hnone) key now
  | move c m =>
    by_cases hlook : m = .look
    · subst hlook
      obtain ⟨f, hf, rfl⟩ := Option.map_eq_some_iff.mp hstep
      obtain ⟨x, hx, hf⟩ := Option.bind_eq_some_iff.mp hf
      cases hstage : x.stage with
      | entered =>
        simp only [Flights.move, hstage] at hf
        cases hf
        have hafter : After { s with fetchStart := Function.update s.fetchStart c s.clock } x.key
            (Function.update s.fetchStart c s.clock c) := by
          rw [Function.update_self]
          exact fun t ht => (h.past x.key t ht).le
        exact ((h.looks hx hstage s.clock).look hx hstage hafter).tick
      | _ => simp only [Flights.move, hstage] at hf; cases hf
    · have hmap : ∃ f, (s.flights.step (stampedCache ttl) (.move c (s.stampMove c m))) = some f ∧
          { s with flights := f, clock := s.clock + 1 } = s' := by
        cases m with
        | look => exact absurd rfl hlook
        | _ => exact Option.map_eq_some_iff.mp hstep
      obtain ⟨f, hf, rfl⟩ := hmap
      obtain ⟨x, hx, hf⟩ := Option.bind_eq_some_iff.mp hf
      exact (h.move hx hlook hf).tick
  | invalidate key =>
    cases hstep
    refine h.invalidated (· = key) ?_ ?_ ?_ ?_
    · rintro k rfl
      exact Function.update_self ..
    · exact fun k hk => ⟨Function.update_of_ne hk .., Function.update_of_ne hk ..⟩
    · intro k t ht
      by_cases hk : k = key
      · subst hk
        rw [Function.update_self] at ht
        exact List.mem_cons.mp ht
      · rw [Function.update_of_ne hk] at ht
        exact .inr ht
    · rintro c x hx rfl
      have hall := List.all_eq_true.mp hlanded c (h.named c x hx).1
      simpa [hx] using hall
  | clear =>
    cases hstep
    refine h.invalidated (fun _ => True) (fun _ _ => rfl) (fun _ hk => absurd trivial hk)
      (fun _ _ => List.mem_cons.mp) ?_
    intro c x hx _
    have hall := List.all_eq_true.mp hlanded c (h.named c x hx).1
    simpa [hx] using hall

/-! ## Runs -/

/-- **Invalidations that meet no fetch are effective.**  In every state of such a run, a caller that
started after an invalidation of its key got no result whose fetch started before it. -/
theorem effective_of_run
    (hrun : Run (fun s a => s.step ttl a) (fun s a => s.landed a = true) ({} : Discovery κ τ) s) :
    s.Effective :=
  (hrun.invariant Current current_empty fun _ _ _ h hlanded hstep => h.step hlanded hstep).effective

end

end

/-- The tokens of a candle, an invalidation after its end, and those of the next candle. -/
def boundary : List (FlightAction String (Option ℕ)) :=
  [.call 0 "BTC:M5" 0, .move 0 .look, .move 0 (.fetched (some 7)), .move 0 (.store 1),
    .invalidate "BTC:M5",
    .call 1 "BTC:M5" 2, .move 1 .look, .move 1 (.fetched (some 8)), .move 1 (.store 3)]

theorem effective_of_run_boundary : ∃ s : Discovery String ℕ,
    (s.flights.callers 1).any (fun x => x.stage = .done (.result ⟨6, some 8⟩)) = true ∧
      s.Effective := by
  have hrun : (exec (fun s a => s.step 30 a) (fun s a => s.landed a = true)
      ({} : Discovery String ℕ)
      boundary).any (fun s => (s.flights.callers 1).any fun x =>
        x.stage = .done (.result ⟨6, some 8⟩)) = true := by
    decide +kernel
  obtain ⟨s, hs, hfresh⟩ := (Option.any_eq_true _ _).mp hrun
  exact ⟨s, hfresh, effective_of_run (run_of_exec hs)⟩

/-- The fetch of the caller `0` is under way when the key is invalidated; the caller `1` comes after
that. -/
def overtaken : List (FlightAction String (Option ℕ)) :=
  [.call 0 "BTC:M5" 0, .move 0 .look, .invalidate "BTC:M5", .call 1 "BTC:M5" 2, .move 1 .look,
    .move 0 (.fetched (some 7)), .move 0 (.store 3), .move 1 .wake]

/-- **An invalidation in flight**: a caller that comes after it joins the fetch that started before
it. -/
theorem invalidate_in_flight : ¬ ∀ s : Discovery String ℕ,
    Run (fun s a => s.step 30 a) (fun _ _ => True) {} s → s.Effective := by
  intro hall
  have hrun :
      (exec (fun s a => s.step 30 a) (fun _ _ => True) ({} : Discovery String ℕ) overtaken).any
      (fun s => (s.flights.callers 1).any (fun x => x.key = "BTC:M5" ∧
        x.stage = .done (.result ⟨1, some 7⟩)) &&
        decide (s.invalidations "BTC:M5" = [2] ∧ s.started 1 = 3)) = true := by decide +kernel
  obtain ⟨s, hs, hstale⟩ := (Option.any_eq_true _ _).mp hrun
  rw [Bool.and_eq_true, decide_eq_true_eq] at hstale
  obtain ⟨hcaller, hmarks, hstarted⟩ := hstale
  obtain ⟨x, hx, hdone⟩ := (Option.any_eq_true _ _).mp hcaller
  obtain ⟨hkey, hdone⟩ := of_decide_eq_true hdone
  have hle := hall s (run_of_exec hs) 1 x _ hx hdone 2
    (by rw [hkey, hmarks]; exact List.mem_cons_self)
    (by rw [hstarted]; decide)
  exact absurd hle (by decide)

end Discovery

end PolyArena
