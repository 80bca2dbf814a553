import Mathlib.Data.Rat.Defs
import Mathlib.Logic.Function.Basic
import PolyArena.Lib.Runs

/-!
# The caches of the orderbook broadcaster

`SnapshotCache.get_snapshot` and `TokenDiscoveryCache.discover` let concurrent callers for a key
share one fetch: the first of them owns it, and the others await its future.  A caller runs from one
await to the next without interruption, and it may be cancelled at each of them.

1. `Flights`: the cache, its `_pending` futures and the callers; `Flights.step` is what may happen
   next.
2. `Safe`: what is pending has a live owner, and nobody gets the cancellation of another caller.
3. `safe_of_run`: every run is safe in which no owner is cancelled, and no caller that waits for a
   fetch; `single_flight_unsafe` has runs with such a cancellation.

The bodies of `async with self._lock` have no await, so each of them is one step.
-/

namespace PolyArena

/-! ## The machine -/

/-- How a task or a future ends. -/
inductive Outcome (ρ : Type*)
  | result (r : ρ)
  | exception (e : String)
  | cancelledError
  deriving DecidableEq

/-- Where a caller stands.  A future is named by the caller that made it. -/
inductive FlightStage (ρ : Type*)
  /-- Before its first `async with self._lock`. -/
  | entered
  /-- The owner awaits the fetch. -/
  | fetching
  /-- The owner awaits the lock, with what it fetched. -/
  | storing (r : ρ)
  /-- The owner awaits the lock in its `except` clause. -/
  | failing (e : String)
  /-- `await pending_fut`. -/
  | waiting (owner : ℕ)
  | done (o : Outcome ρ)
  deriving DecidableEq

/-- The rest of the caller's code removes its key from `_pending`, unless it is cancelled. -/
def FlightStage.owns {ρ : Type*} : FlightStage ρ → Bool
  | fetching | storing _ | failing _ => true
  | entered | waiting _ | done _ => false

/-- A call of `get_snapshot` or `discover`: the cache key, the time of the call, and whether it was
cancelled. -/
structure Caller (κ ρ : Type*) where
  key : κ
  now : ℚ
  stage : FlightStage ρ := .entered
  cancelled : Bool := false

/-- What the two caches differ in. -/
structure CacheKind (ρ : Type*) where
  ttl : ℚ
  /-- A result that goes into the cache. -/
  keeps : ρ → Bool
  /-- The cache has an `invalidate`. -/
  invalidates : Bool

/-- `SnapshotCache`. -/
def snapshotCache {ρ : Type*} (ttl : ℚ) : CacheKind ρ := ⟨ttl, fun _ => true, false⟩

/-- `TokenDiscoveryCache`: only tokens that were found go into the cache. -/
def tokenDiscoveryCache {τ : Type*} (ttl : ℚ) : CacheKind (Option τ) := ⟨ttl, Option.isSome, true⟩

/-- The fields of a cache, the futures that its callers made (`some none` is not done) and the
callers. -/
structure Flights (κ ρ : Type*) where
  cache : κ → Option (ℚ × ρ) := fun _ => none
  pending : κ → Option ℕ := fun _ => none
  futures : ℕ → Option (Option (Outcome ρ)) := fun _ => none
  callers : ℕ → Option (Caller κ ρ) := fun _ => none

/-- What a caller does next, or is done to it. -/
inductive Move (ρ : Type*)
  /-- The body of the first `async with self._lock`. -/
  | look
  /-- The fetch of the owner returns, or raises. -/
  | fetched (r : ρ)
  | raised (e : String)
  /-- The rest of the `try` block, at a time. -/
  | store (now : ℚ)
  /-- The rest of the `except` clause. -/
  | fail
  /-- The future that the caller awaits is done. -/
  | wake
  /-- `task.cancel()`. -/
  | cancel

/-- What may happen next. -/
inductive FlightAction (κ ρ : Type*)
  | call (c : ℕ) (key : κ) (now : ℚ)
  | move (c : ℕ) (m : Move ρ)
  | invalidate (key : κ)
  | clear

namespace Flights

variable {κ ρ : Type*} (kind : CacheKind ρ) (s : Flights κ ρ)

def put (c : ℕ) (x : Caller κ ρ) : Flights κ ρ :=
  { s with callers := Function.update s.callers c (some x) }

def INVALID_STATE : String := "InvalidStateError"

/-- `pending_fut.set_result` or `pending_fut.set_exception`, and what the owner then ends with;
`invalid` is what it does when the future is done already. -/
def complete (c : ℕ) (x : Caller κ ρ) (o : Outcome ρ) (invalid : FlightStage ρ) : Flights κ ρ :=
  match s.futures c with
  | some none => { s with futures := Function.update s.futures c (some (some o)) }.put c { x with
      stage := .done o }
  | _ => s.put c { x with stage := invalid }

/-- `task.cancel()`: the future that a caller awaits is cancelled with it, when it is not done. -/
def cancel (c : ℕ) (x : Caller κ ρ) : Flights κ ρ :=
  let x := { x with cancelled := true }
  match x.stage with
  | .done _ => s
  | .waiting owner =>
    match s.futures owner with
    | some none =>
      { s with futures := Function.update s.futures owner (some (some .cancelledError)) }.put c x
    | _ => s.put c { x with stage := .done .cancelledError }
  | _ => s.put c { x with stage := .done .cancelledError }

section

variable [DecidableEq κ]

/-- The first locked block: the cached data, or the pending future, or a future of its own. -/
def look (c : ℕ) (x : Caller κ ρ) : Flights κ ρ :=
  match (s.cache x.key).filter fun entry => x.now - entry.1 < kind.ttl with
  | some entry => s.put c { x with stage := .done (.result entry.2) }
  | none =>
    match s.pending x.key with
    | some owner => s.put c { x with stage := .waiting owner }
    | none =>
      { s with
        pending := Function.update s.pending x.key (some c)
        futures := Function.update s.futures c (some none) }.put c { x with stage := .fetching }

/-- `self._pending.pop(cache_key, None)`. -/
def pop (key : κ) : Flights κ ρ := { s with pending := Function.update s.pending key none }

/-- The second locked block and `set_result`, whose `InvalidStateError` the `except` clause
catches. -/
def store (c : ℕ) (x : Caller κ ρ) (now : ℚ) (r : ρ) : Flights κ ρ :=
  { s.pop x.key with
    cache := if kind.keeps r then Function.update s.cache x.key (some (now, r))
      else s.cache }.complete c x
    (.result r) (.failing INVALID_STATE)

/-- The locked block of the `except` clause, `set_exception` and `raise`. -/
def fail (c : ℕ) (x : Caller κ ρ) (e : String) : Flights κ ρ :=
  (s.pop x.key).complete c x (.exception e) (.done (.exception INVALID_STATE))

/-- One move of the caller `x` with the name `c`. -/
def move (c : ℕ) (x : Caller κ ρ) (m : Move ρ) : Option (Flights κ ρ) :=
  match m, x.stage with
  | .look, .entered => some (s.look kind c x)
  | .fetched r, .fetching => some (s.put c { x with stage := .storing r })
  | .raised e, .fetching => some (s.put c { x with stage := .failing e })
  | .store now, .storing r => some (s.store kind c x now r)
  | .fail, .failing e => some (s.fail c x e)
  | .wake, .waiting owner =>
    match s.futures owner with
    | some (some o) => some (s.put c { x with stage := .done o })
    | _ => none
  | .cancel, _ => some (s.cancel c x)
  | _, _ => none

def step : FlightAction κ ρ → Option (Flights κ ρ)
  | .call c key now =>
    if (s.callers c).isNone then some (s.put c { key := key, now := now }) else none
  | .move c m => (s.callers c).bind fun x => s.move kind c x m
  | .invalidate key =>
    if kind.invalidates then some { s with cache := Function.update s.cache key none } else none
  | .clear => if kind.invalidates then some { s with cache := fun _ => none } else none

end

/-! ## Safety -/

/-- No caller hangs on a key or gets the cancellation of another. -/
structure Safe : Prop where
  /-- What is pending has a live owner. -/
  owned : ∀ k owner, s.pending k = some owner →
    ∃ x, s.callers owner = some x ∧ x.key = k ∧ x.stage.owns = true
  /-- A future that is no longer pending is done with what its owner ended with. -/
  completed : ∀ owner fut, s.futures owner = some fut → (∀ k, s.pending k ≠ some owner) →
    ∃ x o, s.callers owner = some x ∧ x.stage = .done o ∧ fut = some o ∧ o ≠ .cancelledError
  /-- Somebody will complete what a caller waits for. -/
  attended : ∀ c x owner, s.callers c = some x → x.stage = .waiting owner →
    ∃ fut, s.futures owner = some fut ∧
    (fut = none → ∃ y, s.callers owner = some y ∧ s.pending y.key = some owner ∧
      y.stage.owns = true)
  /-- A caller that ends cancelled was cancelled itself. -/
  unpoisoned : ∀ c x, s.callers c = some x → x.stage = .done .cancelledError → x.cancelled = true

/-- A cancellation that disturbs nobody: not of an owner, and of a waiting caller only when its
future is done. -/
def undisturbed : FlightAction κ ρ → Bool
  | .move c .cancel => (s.callers c).all fun x =>
    match x.stage with
    | .entered | .done _ => true
    | .waiting owner =>
      match s.futures owner with
      | some none => false
      | _ => true
    | .fetching | .storing _ | .failing _ => false
  | _ => true

/-- The invariant of undisturbed runs. -/
structure Orderly : Prop where
  pending : ∀ k owner, s.pending k = some owner →
    ∃ x, s.callers owner = some x ∧ x.key = k ∧ x.stage.owns = true
  owner : ∀ c x, s.callers c = some x → x.stage.owns = true →
    s.pending x.key = some c ∧ s.futures c = some none
  futures : ∀ owner fut, s.futures owner = some fut → ∃ x, s.callers owner = some x ∧
    (x.stage.owns = true ∨ ∃ o, fut = some o ∧ x.stage = .done o ∧ o ≠ .cancelledError)
  waiting : ∀ c x owner, s.callers c = some x → x.stage = .waiting owner →
    ∃ fut, s.futures owner = some fut
  unpoisoned : ∀ c x, s.callers c = some x → x.stage = .done .cancelledError → x.cancelled = true

variable {kind s} {c : ℕ} {x x' : Caller κ ρ}

theorem Orderly.safe (h : s.Orderly) : s.Safe := by
  refine ⟨h.pending, fun owner fut hfut hnone => ?_, fun c x owner hx hwaits => ?_, h.unpoisoned⟩
  · obtain ⟨x, hx, howns | ⟨o, rfl, hdone, hlive⟩⟩ := h.futures owner fut hfut
    · exact absurd (h.owner owner x hx howns).1 (hnone x.key)
    · exact ⟨x, o, hx, hdone, rfl, hlive⟩
  · obtain ⟨fut, hfut⟩ := h.waiting c x owner hx hwaits
    refine ⟨fut, hfut, ?_⟩
    rintro rfl
    obtain ⟨y, hy, howns | ⟨o, hnone, -⟩⟩ := h.futures owner none hfut
    · exact ⟨y, hy, (h.owner owner y hy howns).1, howns⟩
    · cases hnone

@[simp] theorem put_self : (s.put c x).callers c = some x := Function.update_self ..

theorem put_ne {c' : ℕ} (hne : c' ≠ c) : (s.put c x).callers c' = s.callers c' :=
  Function.update_of_ne hne ..

@[simp] theorem put_pending : (s.put c x).pending = s.pending := rfl

@[simp] theorem put_futures : (s.put c x).futures = s.futures := rfl

/-- The callers after one of them moved. -/
theorem put_callers {c' : ℕ} {y : Caller κ ρ} (h : (s.put c x).callers c' = some y) :
    c' = c ∧ y = x ∨ c' ≠ c ∧ s.callers c' = some y := by
  by_cases hc : c' = c
  · subst hc
    rw [put_self] at h
    exact .inl ⟨rfl, (Option.some.inj h).symm⟩
  · rw [put_ne hc] at h
    exact .inr ⟨hc, h⟩

/-- A caller that owns nothing moves on. -/
theorem Orderly.put_guest (h : s.Orderly)
    (hold : ∀ y, s.callers c = some y → y.stage.owns = false ∧ ∀ o, y.stage ≠ .done o)
    (howns : x.stage.owns = false)
    (hwaits : ∀ owner, x.stage = .waiting owner → ∃ fut, s.futures owner = some fut)
    (hcancelled : x.stage = .done .cancelledError → x.cancelled = true) : (s.put c x).Orderly := by
  refine ⟨fun k owner hk => ?_, fun c' y hy hy' => ?_, fun owner fut hfut => ?_,
    fun c' y owner hy hy' => ?_, fun c' y hy hy' => ?_⟩
  · obtain ⟨y, hy, hkey, hyowns⟩ := h.pending k owner hk
    have hne : owner ≠ c := fun heq => by
      rw [(hold y (heq ▸ hy)).1] at hyowns
      cases hyowns
    exact ⟨y, (put_ne hne).trans hy, hkey, hyowns⟩
  · rcases put_callers hy with ⟨rfl, rfl⟩ | ⟨-, hy⟩
    · cases howns.symm.trans hy'
    · exact h.owner c' y hy hy'
  · obtain ⟨y, hy, hends⟩ := h.futures owner fut hfut
    have hne : owner ≠ c := fun heq => by
      obtain ⟨hguest, hlive⟩ := hold y (heq ▸ hy)
      rcases hends with howner | ⟨o, -, hdone, -⟩
      · cases hguest.symm.trans howner
      · exact hlive o hdone
    exact ⟨y, (put_ne hne).trans hy, hends⟩
  · rcases put_callers hy with ⟨rfl, rfl⟩ | ⟨-, hy⟩
    · exact hwaits owner hy'
    · exact h.waiting c' y owner hy hy'
  · rcases put_callers hy with ⟨rfl, rfl⟩ | ⟨-, hy⟩
    · exact hcancelled hy'
    · exact h.unpoisoned c' y hy hy'

/-- An owner moves on and stays the owner. -/
theorem Orderly.put_owner (h : s.Orderly) (hx : s.callers c = some x) (howns : x.stage.owns = true)
    (hkey : x'.key = x.key) (howns' : x'.stage.owns = true) : (s.put c x').Orderly := by
  obtain ⟨hpending, hfuture⟩ := h.owner c x hx howns
  refine ⟨fun k owner hk => ?_, fun c' y hy hy' => ?_, fun owner fut hfut => ?_,
    fun c' y owner hy hy' => ?_, fun c' y hy hy' => ?_⟩
  · obtain ⟨y, hy, hyk, hyowns⟩ := h.pending k owner hk
    by_cases hc : owner = c
    · subst hc
      obtain rfl : x = y := Option.some.inj (hx.symm.trans hy)
      exact ⟨x', put_self, hkey.trans hyk, howns'⟩
    · exact ⟨y, (put_ne hc).trans hy, hyk, hyowns⟩
  · rcases put_callers hy with ⟨rfl, rfl⟩ | ⟨-, hy⟩
    · exact ⟨hkey ▸ hpending, hfuture⟩
    · exact h.owner c' y hy hy'
  · obtain ⟨y, hy, hends⟩ := h.futures owner fut hfut
    by_cases hc : owner = c
    · subst hc
      exact ⟨x', put_self, .inl howns'⟩
    · exact ⟨y, (put_ne hc).trans hy, hends⟩
  · rcases put_callers hy with ⟨rfl, rfl⟩ | ⟨-, hy⟩
    · rw [hy'] at howns'
      cases howns'
    · exact h.waiting c' y owner hy hy'
  · rcases put_callers hy with ⟨rfl, rfl⟩ | ⟨-, hy⟩
    · rw [hy'] at howns'
      cases howns'
    · exact h.unpoisoned c' y hy hy'

section

variable [DecidableEq κ]

/-- A caller that finds its key not pending becomes the owner. -/
theorem Orderly.register (h : s.Orderly) (hx : s.callers c = some x) (hentered : x.stage = .entered)
    (hnone : s.pending x.key = none) : ({ s with
      pending := Function.update s.pending x.key (some c)
      futures := Function.update s.futures c (some none) }.put c { x with
        stage := .fetching }).Orderly := by
  -- nobody waits for a future of the caller yet
  have hfresh : s.futures c = none := by
    rw [Option.eq_none_iff_forall_not_mem]
    intro fut hfut
    obtain ⟨y, hy, hends⟩ := h.futures c fut hfut
    obtain rfl : x = y := Option.some.inj (hx.symm.trans hy)
    rw [hentered] at hends
    rcases hends with howns | ⟨o, -, hdone, -⟩
    · cases howns
    · cases hdone
  refine ⟨fun k owner hk => ?_, fun c' y hy hy' => ?_, fun owner fut hfut => ?_,
    fun c' y owner hy hy' => ?_, fun c' y hy hy' => ?_⟩
  · change Function.update s.pending x.key (some c) k = some owner at hk
    by_cases hkey : k = x.key
    · subst hkey
      rw [Function.update_self] at hk
      obtain rfl : c = owner := Option.some.inj hk
      exact ⟨_, put_self, rfl, rfl⟩
    · rw [Function.update_of_ne hkey] at hk
      obtain ⟨y, hy, hyk, hyowns⟩ := h.pending k owner hk
      have hne : owner ≠ c := fun heq => by
        obtain rfl : x = y := Option.some.inj (hx.symm.trans (heq ▸ hy))
        rw [hentered] at hyowns
        cases hyowns
      exact ⟨y, (put_ne hne).trans hy, hyk, hyowns⟩
  · rw [put_pending, put_futures]
    rcases put_callers hy with ⟨rfl, rfl⟩ | ⟨hne, hy⟩
    · exact ⟨Function.update_self .., Function.update_self ..⟩
    · obtain ⟨hpending, hfuture⟩ := h.owner c' y hy hy'
      have hkey : y.key ≠ x.key := fun heq => by
        rw [heq, hnone] at hpending
        cases hpending
      exact ⟨(Function.update_of_ne hkey ..).trans hpending,
        (Function.update_of_ne hne ..).trans hfuture⟩
  · change Function.update s.futures c (some none) owner = some fut at hfut
    by_cases hc : owner = c
    · subst hc
      exact ⟨_, put_self, .inl rfl⟩
    · rw [Function.update_of_ne hc] at hfut
      obtain ⟨y, hy, hends⟩ := h.futures owner fut hfut
      exact ⟨y, (put_ne hc).trans hy, hends⟩
  · rw [put_futures]
    rcases put_callers hy with ⟨rfl, rfl⟩ | ⟨-, hy⟩
    · cases hy'
    · obtain ⟨fut, hfut⟩ := h.waiting c' y owner hy hy'
      have hne : owner ≠ c := fun heq => by
        rw [heq, hfresh] at hfut
        cases hfut
      exact ⟨fut, (Function.update_of_ne hne ..).trans hfut⟩
  · rcases put_callers hy with ⟨rfl, rfl⟩ | ⟨-, hy⟩
    · cases hy'
    · exact h.unpoisoned c' y hy hy'

/-- An owner removes its key and completes its future. -/
theorem Orderly.complete (h : s.Orderly) (hx : s.callers c = some x) (howns : x.stage.owns = true)
    (o : Outcome ρ) (invalid : FlightStage ρ) (hlive : o ≠ .cancelledError)
    (entries : κ → Option (ℚ × ρ)) :
    ({ s.pop x.key with cache := entries }.complete c x o invalid).Orderly := by
  obtain ⟨hpending, hfuture⟩ := h.owner c x hx howns
  have hends : { s.pop x.key with cache := entries }.complete c x o invalid =
      { s.pop x.key with
        cache := entries
        futures := Function.update s.futures c (some (some o)) }.put c { x with
          stage := .done o } := by
    unfold Flights.complete
    rw [show (s.pop x.key).futures = s.futures from rfl, hfuture]
  rw [hends]
  refine ⟨fun k owner hk => ?_, fun c' y hy hy' => ?_, fun owner fut hfut => ?_,
    fun c' y owner hy hy' => ?_, fun c' y hy hy' => ?_⟩
  · change Function.update s.pending x.key none k = some owner at hk
    by_cases hkey : k = x.key
    · subst hkey
      rw [Function.update_self] at hk
      cases hk
    · rw [Function.update_of_ne hkey] at hk
      obtain ⟨y, hy, hyk, hyowns⟩ := h.pending k owner hk
      have hne : owner ≠ c := fun heq => by
        obtain rfl : x = y := Option.some.inj (hx.symm.trans (heq ▸ hy))
        exact hkey hyk.symm
      exact ⟨y, (put_ne hne).trans hy, hyk, hyowns⟩
  · rcases put_callers hy with ⟨rfl, rfl⟩ | ⟨hne, hy⟩
    · cases hy'
    · obtain ⟨hpending', hfuture'⟩ := h.owner c' y hy hy'
      have hkey : y.key ≠ x.key := fun heq => by
        rw [heq, hpending] at hpending'
        exact hne (Option.some.inj hpending').symm
      exact ⟨(Function.update_of_ne hkey ..).trans hpending',
        (Function.update_of_ne hne ..).trans hfuture'⟩
  · change Function.update s.futures c (some (some o)) owner = some fut at hfut
    by_cases hc : owner = c
    · subst hc
      rw [Function.update_self] at hfut
      exact ⟨_, put_self, .inr ⟨o, (Option.some.inj hfut).symm, rfl, hlive⟩⟩
    · rw [Function.update_of_ne hc] at hfut
      obtain ⟨y, hy, hends⟩ := h.futures owner fut hfut
      exact ⟨y, (put_ne hc).trans hy, hends⟩
  · rw [put_futures]
    rcases put_callers hy with ⟨rfl, rfl⟩ | ⟨-, hy⟩
    · cases hy'
    · obtain ⟨fut, hfut⟩ := h.waiting c' y owner hy hy'
      by_cases hc : owner = c
      · subst hc
        exact ⟨_, Function.update_self ..⟩
      · exact ⟨fut, (Function.update_of_ne hc ..).trans hfut⟩
  · rcases put_callers hy with ⟨rfl, rfl⟩ | ⟨-, hy⟩
    · exact absurd (FlightStage.done.inj hy') hlive
    · exact h.unpoisoned c' y hy hy'

/-- **A move** that disturbs nobody keeps order. -/
theorem Orderly.move (h : s.Orderly) (hx : s.callers c = some x) {m : Move ρ}
    (hcalm : s.undisturbed (.move c m) = true) {s' : Flights κ ρ}
    (hmove : s.move kind c x m = some s') :
    s'.Orderly := by
  have hguest : x.stage.owns = false → (∀ o, x.stage ≠ .done o) →
      ∀ y, s.callers c = some y → y.stage.owns = false ∧ ∀ o, y.stage ≠ .done o := by
    intro howns hlive y hy
    obtain rfl : x = y := Option.some.inj (hx.symm.trans hy)
    exact ⟨howns, hlive⟩
  unfold Flights.move at hmove
  split at hmove
  · next hstage =>
    -- the first look
    obtain rfl := Option.some.inj hmove
    have hguest := hguest (by rw [hstage]; rfl) (by rw [hstage]; exact nofun)
    unfold Flights.look
    cases (s.cache x.key).filter fun entry => x.now - entry.1 < kind.ttl with
    | some entry => exact h.put_guest hguest rfl nofun nofun
    | none =>
      cases hpending : s.pending x.key with
      | none => exact h.register hx hstage hpending
      | some owner =>
        refine h.put_guest hguest rfl (fun owner' hwaits => ?_) nofun
        obtain rfl := FlightStage.waiting.inj hwaits
        obtain ⟨y, hy, -, howns⟩ := h.pending x.key owner hpending
        exact ⟨none, (h.owner owner y hy howns).2⟩
  · next hstage =>
    obtain rfl := Option.some.inj hmove
    exact h.put_owner hx (by rw [hstage]; rfl) rfl rfl
  · next hstage =>
    obtain rfl := Option.some.inj hmove
    exact h.put_owner hx (by rw [hstage]; rfl) rfl rfl
  · next r hstage =>
    obtain rfl := Option.some.inj hmove
    exact h.complete hx (by rw [hstage]; rfl) (.result r) _ nofun _
  · next e hstage =>
    obtain rfl := Option.some.inj hmove
    exact h.complete hx (by rw [hstage]; rfl) (.exception e) _ nofun s.cache
  · next owner hstage =>
    -- the caller gets what the future is done with, which is no cancellation
    split at hmove
    · next o hfuture =>
      obtain rfl := Option.some.inj hmove
      refine h.put_guest (hguest (by rw [hstage]; rfl) (by rw [hstage]; exact nofun)) rfl nofun
        fun hdone => ?_
      obtain rfl := FlightStage.done.inj hdone
      obtain ⟨y, hy, howns | ⟨o, hsome, -, hlive⟩⟩ := h.futures owner _ hfuture
      · cases (h.owner owner y hy howns).2.symm.trans hfuture
      · exact absurd (Option.some.inj hsome).symm hlive
    · cases hmove
  · -- a cancellation that the guard allows
    obtain rfl := Option.some.inj hmove
    simp only [undisturbed, hx, Option.all_some] at hcalm
    unfold Flights.cancel
    dsimp only
    cases hstage : x.stage with
    | entered =>
      exact h.put_guest (hguest (by rw [hstage]; rfl) (by rw [hstage]; exact nofun))
        rfl nofun fun _ => rfl
    | done o => exact h
    | waiting owner =>
      rw [hstage] at hcalm
      dsimp only at hcalm ⊢
      split at hcalm
      · cases hcalm
      · exact h.put_guest (hguest (by rw [hstage]; rfl) (by rw [hstage]; exact nofun))
          rfl nofun fun _ => rfl
    | _ =>
      rw [hstage] at hcalm
      cases hcalm
  · cases hmove

/-- **A step** that disturbs nobody keeps order. -/
theorem Orderly.step (h : s.Orderly) {a : FlightAction κ ρ} (hcalm : s.undisturbed a = true)
    {s' : Flights κ ρ} (hstep : s.step kind a = some s') : s'.Orderly := by
  -- the cache has no say in it
  have hcache : ∀ entries : κ → Option (ℚ × ρ),
      ({ s with cache := entries } : Flights κ ρ).Orderly := fun _ =>
    ⟨h.pending, h.owner, h.futures, h.waiting, h.unpoisoned⟩
  cases a with
  | call c key now =>
    obtain ⟨hnone, hs'⟩ := Option.ite_none_right_eq_some.mp hstep
    obtain rfl := Option.some.inj hs'
    rw [Option.isNone_iff_eq_none] at hnone
    exact h.put_guest (fun y hy => by rw [hnone] at hy; cases hy) rfl nofun nofun
  | move c m =>
    obtain ⟨x, hx, hmove⟩ := Option.bind_eq_some_iff.mp hstep
    exact h.move hx hcalm hmove
  | invalidate key =>
    obtain ⟨-, hs'⟩ := Option.ite_none_right_eq_some.mp hstep
    exact Option.some.inj hs' ▸ hcache _
  | clear =>
    obtain ⟨-, hs'⟩ := Option.ite_none_right_eq_some.mp hstep
    exact Option.some.inj hs' ▸ hcache _

/-- **Single flight is safe**: in a run whose cancellations disturb nobody, no caller hangs on a
key, and none gets the cancellation of another. -/
theorem safe_of_run
    (hrun : Run (fun s a => s.step kind a) (fun s a => s.undisturbed a = true)
      ({} : Flights κ ρ) s) : s.Safe := by
  refine (hrun.invariant Orderly ?_ fun s a s' h hcalm hstep => h.step hcalm hstep).safe
  exact ⟨nofun, nofun, nofun, nofun, nofun⟩

end

/-! ## Runs -/

/-- One of two callers for a key owns the fetch and the other awaits it; a third is cancelled before
it looks. -/
def sharedFlight : List (FlightAction String ℕ) :=
  [.call 0 "BTC:M5" 0, .call 1 "BTC:M5" 0, .call 2 "BTC:M5" 0, .move 0 .look, .move 1 .look,
    .move 2 .cancel, .move 0 (.fetched 7), .move 0 (.store 1), .move 1 .wake]

theorem safe_of_run_sharedFlight : ∃ s : Flights String ℕ,
    exec (fun s a => s.step (snapshotCache 2) a)
      (fun s a => s.undisturbed a = true) {} sharedFlight = some s ∧
      (s.callers 1).any (fun x => x.stage = .done (.result 7)) = true ∧ s.Safe := by
  have hrun : (exec (fun s a => s.step (snapshotCache 2) a) (fun s a => s.undisturbed a = true)
      ({} : Flights String ℕ) sharedFlight).any
        (fun s => (s.callers 1).any fun x => x.stage = .done (.result 7)) = true := by
          decide +kernel
  obtain ⟨s, hs, hshared⟩ := (Option.any_eq_true _ _).mp hrun
  exact ⟨s, hs, hshared, safe_of_run (run_of_exec hs)⟩

/-- The caller `c` is cancelled while `0` fetches and `1` and `2` await it. -/
def cancelledInFlight {ρ : Type*} (c : ℕ) : List (FlightAction String ρ) :=
  [.call 0 "BTC:M5" 0, .call 1 "BTC:M5" 0, .call 2 "BTC:M5" 0, .move 0 .look, .move 1 .look,
    .move 2 .look, .move c .cancel]

/-- **A cancellation in flight**: that of the owner leaves a key of the `SnapshotCache` pending
without an owner, and that of a waiting caller of the `TokenDiscoveryCache` ends another one. -/
theorem single_flight_unsafe :
    (¬ ∀ s : Flights String ℕ, Run (fun s a => s.step (snapshotCache 2) a) (fun _ _ => True) {} s →
        ∀ k owner, s.pending k = some owner →
          ∃ x, s.callers owner = some x ∧ x.key = k ∧ x.stage.owns = true) ∧
      ¬ ∀ s : Flights String (Option ℕ), Run (fun s a => s.step (tokenDiscoveryCache 30) a)
        (fun _ _ => True) {} s →
        ∀ c x, s.callers c = some x → x.stage = .done .cancelledError → x.cancelled = true := by
  constructor
  · intro hall
    have hrun : (exec (fun s a => s.step (snapshotCache 2) a) (fun _ _ => True)
        ({} : Flights String ℕ) (cancelledInFlight 0)).any
          (fun s => s.pending "BTC:M5" == some 0 && (s.callers 0).all fun x =>
            !x.stage.owns) = true := by
      decide +kernel
    obtain ⟨s, hs, hunowned⟩ := (Option.any_eq_true _ _).mp hrun
    rw [Bool.and_eq_true, beq_iff_eq] at hunowned
    obtain ⟨hpending, hgone⟩ := hunowned
    obtain ⟨x, hx, -, howns⟩ := hall s (run_of_exec hs) _ _ hpending
    rw [hx, Option.all_some, howns] at hgone
    cases hgone
  · intro hall
    have hrun : (exec (fun s a => s.step (tokenDiscoveryCache 30) a) (fun _ _ => True)
        ({} : Flights String (Option ℕ)) (cancelledInFlight 1 ++ [.move 2 .wake])).any
          (fun s => (s.callers 2).any fun x =>
            x.stage == .done .cancelledError && !x.cancelled) = true := by
      decide +kernel
    obtain ⟨s, hs, hpoisoned⟩ := (Option.any_eq_true _ _).mp hrun
    obtain ⟨x, hx, hends⟩ := (Option.any_eq_true _ _).mp hpoisoned
    rw [Bool.and_eq_true, beq_iff_eq] at hends
    have hcancelled := hall s (run_of_exec hs) 2 x hx hends.1
    rw [hcancelled] at hends
    cases hends.2

end Flights

end PolyArena
