import PolyArena.Models
import Mathlib.Logic.Function.Basic

/-!
# The token registry

`TokenRegistry` (`token_registry.py`): which token a symbol, a timeframe and a direction have in the
current candle and in the next ones, and the candle that each token was recorded for.  Its
dictionaries are functions of their keys.  The answers of Polymarket are inputs.

1. `recordCurrent` is what a lookup of the current market records, `prefetchFuture` those of the
   next candles.
2. `Recorded` says that the registry's records are the candles of the tokens' own markets, and
   `recorded_recordCurrent`, `recorded_prefetchFuture` and `recorded_cleanupStaleSessions` keep it.
-/

namespace PolyArena

/-- `(sym, tf, dir)`. -/
structure Combo where
  symbol : BOSymbol
  timeframe : BOTimeframe
  direction : Direction
  deriving DecidableEq, Repr

/-- The session of a combo's candle. -/
def Combo.session (c : Combo) (candleOpen : ℤ) : SessionId := ⟨c.symbol, c.timeframe, candleOpen⟩

def TOKEN_PREFETCH_CANDLES : ℕ := 5

/-- `get_current_candle_open`. -/
def currentCandleOpen (tf : BOTimeframe) (now : ℤ) : ℤ := now - now % TF_SECONDS tf

/-- `_future_settlements`: the opens of the next `count` candles. -/
def futureSettlements (tf : BOTimeframe) (now : ℤ) (count : ℕ) : List ℤ :=
  (List.range count).map fun i => currentCandleOpen tf now + TF_SECONDS tf * (i + 1)

structure TokenRegistry where
  mapping : Combo → Option String := fun _ => none
  futureMapping : Combo → List String := fun _ => []
  tokenSessions : String → Option ℤ := fun _ => none

namespace TokenRegistry

/-- `get_token_id`. -/
def getTokenId (r : TokenRegistry) (c : Combo) : Option String := r.mapping c

/-- The current tokens of a symbol and a timeframe, by direction. -/
def currentTokens (r : TokenRegistry) (symbol : BOSymbol) (timeframe : BOTimeframe) :
    Direction → Option String :=
  fun dir => r.mapping ⟨symbol, timeframe, dir⟩

/-- `self._token_sessions[token_id] = ts`. -/
def recordSession (r : TokenRegistry) (token : String) (ts : ℤ) : TokenRegistry :=
  { r with tokenSessions := Function.update r.tokenSessions token (some ts) }

/-- A lookup of the current market, in `discover_all` or `_fetch_timeframe`, answered with a token:
it is recorded for the candle of the wall clock. -/
def recordCurrent (r : TokenRegistry) (c : Combo) (now : ℤ) (token : String) : TokenRegistry :=
  ({ r with mapping := Function.update r.mapping c (some token) } : TokenRegistry).recordSession
    token (currentCandleOpen c.timeframe now)

/-- `_prefetch_future`: `answer ts` is what `get_token_id_at` gives for the candle of `ts`. -/
def prefetchFuture (r : TokenRegistry) (c : Combo) (now : ℤ) (answer : ℤ → Option String) :
    TokenRegistry :=
  let found := (futureSettlements c.timeframe now TOKEN_PREFETCH_CANDLES).filterMap fun ts =>
    (answer ts).map fun token => (token, ts)
  let r := found.foldl (fun r p => r.recordSession p.1 p.2) r
  { r with futureMapping := Function.update r.futureMapping c (found.map (·.1)) }

/-- `_cleanup_stale_sessions`: records older than three candles of the longest timeframe go. -/
def cleanupStaleSessions (r : TokenRegistry) (now : ℤ) : TokenRegistry :=
  { r with
    tokenSessions := fun token => (r.tokenSessions token).filter fun ts => now - 900 * 3 ≤ ts }

/-- `get_all_token_mapping` of one token: a token without a record counts as one of the candle
`0`. -/
def allTokenMapping (r : TokenRegistry) (token : String) : List (Combo × ℤ) :=
  let combos : List Combo := do
    let symbol ← [.btc, .eth]
    let timeframe ← [.m5, .m15]
    let direction ← [.up, .down]
    return ⟨symbol, timeframe, direction⟩
  let ts := (r.tokenSessions token).getD 0
  ((combos.filter fun c => r.mapping c = some token) ++
    combos.flatMap fun c => (r.futureMapping c).filterMap fun t => if t = token then some c
      else none).map
      fun c => (c, ts)

end TokenRegistry

/-! ## Records and markets

`marketOf` says which candle and direction a token pays on.  A token belongs to one market only. -/

section

variable {marketOf : String → Option (SessionId × Direction)} {r : TokenRegistry} {c : Combo}
  {now ts : ℤ} {token : String} {answer : ℤ → Option String}

/-- The token is one of the combo, for some candle. -/
def IsTokenOf (marketOf : String → Option (SessionId × Direction)) (c : Combo) (token : String) :
    Prop :=
  ∃ ts, marketOf token = some (c.session ts, c.direction)

/-- What the registry has of a token is so: its combo and its candle. -/
structure Recorded (marketOf : String → Option (SessionId × Direction)) (r : TokenRegistry) :
    Prop where
  current : ∀ c token, r.mapping c = some token → IsTokenOf marketOf c token
  future : ∀ c, ∀ token ∈ r.futureMapping c, IsTokenOf marketOf c token
  candle : ∀ token ts, r.tokenSessions token = some ts →
    ∃ m, marketOf token = some m ∧ m.1.candleOpen = ts

theorem recorded_empty : Recorded marketOf {} where
  current := fun _ _ h => nomatch h
  future := fun _ _ h => absurd h List.not_mem_nil
  candle := fun _ _ h => nomatch h

/-- A token whose record is right belongs to the candle of the record. -/
theorem Recorded.market (h : Recorded marketOf r) (htoken : IsTokenOf marketOf c token)
    (hts : r.tokenSessions token = some ts) :
    marketOf token = some (c.session ts, c.direction) := by
  obtain ⟨ts', hmarket⟩ := htoken
  obtain ⟨m, hm, rfl⟩ := h.candle token ts hts
  obtain rfl : (c.session ts', c.direction) = m := Option.some.inj (hmarket.symm.trans hm)
  exact hmarket

theorem recorded_recordSession {m : SessionId × Direction} (h : Recorded marketOf r)
    (hm : marketOf token = some m) (hts : m.1.candleOpen = ts) :
    Recorded marketOf (r.recordSession token ts) where
  current := h.current
  future := h.future
  candle := by
    intro token' ts' hrec
    replace hrec : Function.update r.tokenSessions token (some ts) token' = some ts' := hrec
    rw [Function.update_apply] at hrec
    split_ifs at hrec with htok
    · cases hrec
      exact ⟨m, htok ▸ hm, hts⟩
    · exact h.candle token' ts' hrec

/-- A lookup that is answered with the token of the candle of the wall clock. -/
theorem recorded_recordCurrent (h : Recorded marketOf r)
    (hanswer : marketOf token = some (c.session (currentCandleOpen c.timeframe now), c.direction)) :
    Recorded marketOf (r.recordCurrent c now token) := by
  refine recorded_recordSession ⟨fun c' token' hc => ?_, h.future, h.candle⟩ hanswer rfl
  replace hc : Function.update r.mapping c (some token) c' = some token' := hc
  rw [Function.update_apply] at hc
  split_ifs at hc with hcc
  · cases hc
    exact ⟨_, hcc ▸ hanswer⟩
  · exact h.current c' token' hc

/-- Lookups of later candles. -/
theorem recorded_prefetchFuture (h : Recorded marketOf r)
    (hanswer : ∀ ts ∈ futureSettlements c.timeframe now TOKEN_PREFETCH_CANDLES, ∀ token ∈ answer ts,
      marketOf token = some (c.session ts, c.direction)) :
    Recorded marketOf (r.prefetchFuture c now answer) := by
  unfold TokenRegistry.prefetchFuture
  set found := (futureSettlements c.timeframe now TOKEN_PREFETCH_CANDLES).filterMap fun ts =>
    (answer ts).map fun token => (token, ts) with hfound
  have hright : ∀ p ∈ found, marketOf p.1 = some (c.session p.2, c.direction) := by
    intro p hp
    obtain ⟨ts, hts, hp⟩ := List.mem_filterMap.mp hp
    obtain ⟨token, htoken, rfl⟩ := Option.map_eq_some_iff.mp hp
    exact hanswer ts hts token htoken
  have hfold : ∀ (ps : List (String × ℤ)) (r : TokenRegistry), Recorded marketOf r →
      (∀ p ∈ ps, marketOf p.1 = some (c.session p.2, c.direction)) →
      Recorded marketOf (ps.foldl (fun r p => r.recordSession p.1 p.2) r) := by
    intro ps
    induction ps with
    | nil => exact fun _ h _ => h
    | cons p ps ih =>
      intro r h hps
      rw [List.foldl_cons]
      exact ih _ (recorded_recordSession h (hps p List.mem_cons_self) rfl) fun q hq =>
        hps q (List.mem_cons_of_mem _ hq)
  have hrec := hfold found r h hright
  refine ⟨hrec.current, fun c' token htoken => ?_, hrec.candle⟩
  by_cases hcc : c' = c
  · subst hcc
    dsimp only at htoken
    rw [Function.update_self] at htoken
    obtain ⟨p, hp, rfl⟩ := List.mem_map.mp htoken
    exact ⟨p.2, hright p hp⟩
  · dsimp only at htoken
    rw [Function.update_of_ne hcc] at htoken
    exact hrec.future c' token htoken

theorem recorded_cleanupStaleSessions (h : Recorded marketOf r) (now : ℤ) :
    Recorded marketOf (r.cleanupStaleSessions now) where
  current := h.current
  future := h.future
  candle := fun token ts hts => h.candle token ts (Option.filter_eq_some_iff.mp hts).1

end

end PolyArena
