import PolyArena.Api.Snapshot
import PolyArena.WsFeedService.CandleTokens

/-!
# Orderbook snapshots

`RedisWriter` (`redis_writer.py`) writes the depth of a token's book under the keys of the candles
that the token is registered for, `check_orderbook_keys` writes the ones that are missing, and
`create_bo` reads them.  A stored snapshot remembers the token whose book it is.

1. `registerSessionTokens` takes the candles of the tokens from the registry's records.
2. `SnapshotInv` says that the writer's candles and the snapshots are those of the tokens' markets,
   and `snapshotInv_step` is the step lemma under the guard `KeepsSnapshots`.
3. `snapshots_hold_their_candle`: in a run of guarded steps a snapshot under the key of a candle is
   the book of the token of that candle.
-/

namespace PolyArena

def UI_FUTURE_SESSIONS : ℤ := 3
def UI_PAST_SESSIONS : ℤ := 1
def PRICE_CACHE_TTL_S : Time := 120

/-- `orderbook:{SYM}:{TF}:{DIR}:{candle_ts}`, or without a candle the legacy key. -/
structure OrderbookKey where
  combo : Combo
  candleTs : Option ℤ
  deriving DecidableEq

/-- The depth of a book. -/
structure Depth where
  bids : List (ℚ × ℚ)
  asks : List AskLevel

/-- A snapshot, with the token whose book it is. -/
structure StoredBook where
  token : String
  depth : Depth
  updatedAt : Time

/-- `orderbook:*` in Redis. -/
abbrev Orderbooks := OrderbookKey → Option StoredBook

/-! ## The writer -/

/-- `_last_ob_json` and `_last_ob_write_ts` are one function of the token. -/
structure RedisWriter where
  tokenMap : String → List Combo := fun _ => []
  sessionTokenMap : String → List (Combo × ℤ) := fun _ => []
  lastOb : String → Option (List (ℚ × ℚ) × List (ℚ × ℚ) × Time) := fun _ => none

/-- The levels as pairs. -/
def Depth.askPairs (d : Depth) : List (ℚ × ℚ) := d.asks.map fun a => (a.price, a.size)

namespace RedisWriter

/-- `register_token_mapping`, on the maps. -/
def registerTokenMapping (w : RedisWriter) (r : TokenRegistry) : RedisWriter :=
  { w with
    tokenMap := fun token => (do
      let symbol ← [.btc, .eth]
      let timeframe ← [.m5, .m15]
      let direction ← [.up, .down]
      let c : Combo := ⟨symbol, timeframe, direction⟩
      if r.mapping c = some token then [c] else [])
    lastOb := fun _ => none }

/-- `steps`: how many candles after the current one. -/
def steps (c : Combo) (now candleTs : ℤ) : ℤ :=
  let currentTs := currentCandleOpen c.timeframe now
  if currentTs = 0 then 0 else (candleTs - currentTs) / TF_SECONDS c.timeframe

/-- `register_session_tokens`, for the current candles of `now`. -/
def registerSessionTokens (w : RedisWriter) (r : TokenRegistry) (now : ℤ) : RedisWriter :=
  { w with
    sessionTokenMap := fun token => (r.allTokenMapping token).filter fun p =>
      -UI_PAST_SESSIONS ≤ steps p.1 now p.2 ∧ steps p.1 now p.2 ≤ UI_FUTURE_SESSIONS }

/-- The write is skipped when the depth is as it was last and the key is far from its expiry. -/
def skips (w : RedisWriter) (token : String) (depth : Depth) (now : Time) : Bool :=
  match w.lastOb token with
  | none => false
  | some (bids, asks, lastWrite) =>
    bids = depth.bids ∧ asks = depth.askPairs ∧ now - lastWrite < PRICE_CACHE_TTL_S - 30

/-- The keys of a token. -/
def keys (w : RedisWriter) (token : String) : List OrderbookKey :=
  (w.sessionTokenMap token).map (fun p => ⟨p.1, some p.2⟩) ++ (w.tokenMap token).map
    fun c => ⟨c, none⟩

/-- `update_orderbook`. -/
def updateOrderbook (w : RedisWriter) (redis : Orderbooks) (token : String) (depth : Depth)
    (now : Time) :
    RedisWriter × Orderbooks :=
  if w.keys token = [] ∨ w.skips token depth now then (w, redis)
  else
    ({ w with lastOb := Function.update w.lastOb token (some (depth.bids, depth.askPairs, now)) },
      fun key => if key ∈ w.keys token then some ⟨token, depth, now⟩ else redis key)

end RedisWriter

/-- The token that `check_orderbook_keys` asks for: the session's, else the registry's current
one. -/
def repairToken (s : SessionEngine) (r : TokenRegistry) (dir : Direction) : Option String :=
  (s.tokens dir).or (r.getTokenId ⟨s.sessionId.symbol, s.sessionId.timeframe, dir⟩)

/-- `check_orderbook_keys` for one session and direction; `depth` is the book that was fetched. -/
def checkOrderbookKey (s : SessionEngine) (r : TokenRegistry) (redis : Orderbooks) (dir : Direction)
    (depth : Depth) (now : Time) : Orderbooks :=
  let combo : Combo := ⟨s.sessionId.symbol, s.sessionId.timeframe, dir⟩
  let key : OrderbookKey := ⟨combo, some s.sessionId.candleOpen⟩
  if (redis key).isSome ∨ (depth.bids = [] ∧ depth.askPairs = []) then redis
  else
    match repairToken s r dir with
    | none => redis
    | some token =>
      let redis := Function.update redis key (some ⟨token, depth, now⟩)
      if s.sessionId.candleOpen = currentCandleOpen combo.timeframe ⌊now⌋ then
        Function.update redis ⟨combo, none⟩ (some ⟨token, depth, now⟩)
      else redis

/-- What `_snapshot_best_ask` and the fills of `create_bo` read for a session. -/
def readSnapshot (redis : Orderbooks) (id : SessionId) (dir : Direction) : SnapshotRead :=
  match redis ⟨⟨id.symbol, id.timeframe, dir⟩, some id.candleOpen⟩ with
  | none => .missing
  | some b => .asks b.depth.asks

/-! ## The service with its writer -/

structure FeedSnapshots where
  feed : FeedTokens := {}
  writer : RedisWriter := {}
  redis : Orderbooks := fun _ => none

inductive SnapshotAction
  /-- what moves tokens; a restart also loses the writer's maps -/
  | tokens (a : TokenAction)
  /-- the writer is told of the registry's tokens: at the start, on new tokens, by the lifecycle
  tick -/
  | register (now : ℤ)
  /-- the depth of a token's book is published: by the event dispatcher, or the books of the
  lookups -/
  | updateOrderbook (token : String) (depth : Depth) (now : Time)
  /-- the health check finds a session without the snapshot of a direction -/
  | repair (id : SessionId) (dir : Direction) (depth : Depth) (now : Time)
  /-- `clear_price_keys`, `cleanup_expired_sessions` or the expiry deletes a key -/
  | expireKey (key : OrderbookKey)
  /-- `clear_price_keys` forgets the last write of a token -/
  | forget (token : String)

/-- The clock is past the first hour of 1970. -/
def isClock (now : ℤ) : Bool := 3600 ≤ now

namespace FeedSnapshots

def step (marketOf : String → Option (SessionId × Direction)) (s : FeedSnapshots) :
    SnapshotAction → Option FeedSnapshots
  | .tokens .restart => some { s with feed := {}, writer := {} }
  | .tokens a => (s.feed.step marketOf a).map fun feed => { s with feed := feed }
  | .register now =>
    if isClock now then
      some { s with
        writer := (s.writer.registerTokenMapping s.feed.registry).registerSessionTokens
          s.feed.registry now }
    else none
  | .updateOrderbook token depth now =>
    let r := s.writer.updateOrderbook s.redis token depth now
    some { s with writer := r.1, redis := r.2 }
  | .repair id dir depth now =>
    (s.feed.manager.getSession id).map fun session =>
      { s with redis := checkOrderbookKey session s.feed.registry s.redis dir depth now }
  | .expireKey key => some { s with redis := Function.update s.redis key none }
  | .forget token =>
    some { s with writer := { s.writer with lastOb := Function.update s.writer.lastOb token none } }

end FeedSnapshots

/-! ## The guard -/

/-- The registry's current token of a direction that the session lacks is recorded for its
candle. -/
def MayRepair (s : SessionEngine) (r : TokenRegistry) (dir : Direction) : Prop :=
  s.tokens dir = none →
    ∀ token ∈ r.getTokenId ⟨s.sessionId.symbol, s.sessionId.timeframe, dir⟩,
      r.tokenSessions token = some s.sessionId.candleOpen

instance (s : SessionEngine) (r : TokenRegistry) (dir : Direction) :
    Decidable (MayRepair s r dir) := by
  unfold MayRepair
  cases r.getTokenId ⟨s.sessionId.symbol, s.sessionId.timeframe, dir⟩ with
  | none => exact .isTrue fun _ _ h => nomatch h
  | some token =>
    exact decidable_of_iff (s.tokens dir = none →
      r.tokenSessions token = some s.sessionId.candleOpen)
      (by simp)

/-- The guard on tokens, and none is taken for another candle's in a repair. -/
def KeepsSnapshots (marketOf : String → Option (SessionId × Direction)) (s : FeedSnapshots) :
    SnapshotAction → Prop
  | .tokens a => KeepsCandles marketOf s.feed a
  | .repair id dir _ _ =>
    ∀ session ∈ s.feed.manager.getSession id, MayRepair session s.feed.registry dir
  | _ => True

instance (marketOf : String → Option (SessionId × Direction)) (s : FeedSnapshots)
    (a : SnapshotAction) :
    Decidable (KeepsSnapshots marketOf s a) := by
  unfold KeepsSnapshots
  cases a <;> dsimp only <;> infer_instance

/-! ## One step -/

section

variable {marketOf : String → Option (SessionId × Direction)} {s s' : FeedSnapshots}
  {a : SnapshotAction} {r : TokenRegistry} {w : RedisWriter} {redis : Orderbooks} {now : ℤ}
  {token : String} {c : Combo} {ts : ℤ}

/-- The token's market is the one of the candle. -/
def IsMarket (marketOf : String → Option (SessionId × Direction)) (c : Combo) (ts : ℤ)
    (token : String) :
    Prop :=
  marketOf token = some (c.session ts, c.direction)

/-- The candles that the writer writes a token's book under are those of its market. -/
def KeyedRight (marketOf : String → Option (SessionId × Direction)) (w : RedisWriter) : Prop :=
  ∀ token, ∀ p ∈ w.sessionTokenMap token, IsMarket marketOf p.1 p.2 token

/-- A snapshot under the key of a candle is the book of that candle's token. -/
def StoredRight (marketOf : String → Option (SessionId × Direction)) (redis : Orderbooks) : Prop :=
  ∀ c ts, ∀ b ∈ redis ⟨c, some ts⟩, IsMarket marketOf c ts b.token

structure SnapshotInv (marketOf : String → Option (SessionId × Direction)) (s : FeedSnapshots) :
    Prop where
  feed : CandleInv marketOf s.feed
  keyed : KeyedRight marketOf s.writer
  stored : StoredRight marketOf s.redis

theorem snapshotInv_start : SnapshotInv marketOf {} :=
  ⟨candleInv_start, fun _ _ h => absurd h List.not_mem_nil, fun _ _ _ h => nomatch h⟩

/-- A combo of the reverse map has the token, under the token's record. -/
theorem mem_allTokenMapping {p : Combo × ℤ} (h : p ∈ r.allTokenMapping token) :
    (r.mapping p.1 = some token ∨ token ∈ r.futureMapping p.1) ∧
      p.2 = (r.tokenSessions token).getD 0 := by
  unfold TokenRegistry.allTokenMapping at h
  obtain ⟨c, hc, rfl⟩ := List.mem_map.mp h
  refine ⟨?_, rfl⟩
  rcases List.mem_append.mp hc with hc | hc
  · exact .inl (of_decide_eq_true (List.mem_filter.mp hc).2)
  · obtain ⟨c', -, hc⟩ := List.mem_flatMap.mp hc
    obtain ⟨t, ht, hif⟩ := List.mem_filterMap.mp hc
    split_ifs at hif with htoken
    cases hif
    exact .inr (htoken ▸ ht)

/-- The candle of the clock is past the first hour too. -/
theorem le_currentCandleOpen (h : isClock now = true) (tf : BOTimeframe) :
    3600 ≤ currentCandleOpen tf now := by
  have hnow : 3600 ≤ now := of_decide_eq_true h
  unfold currentCandleOpen
  cases tf <;> simp only [TF_SECONDS] <;> omega

/-- The candle `0`, which a token without a record counts for, is too far in the past. -/
theorem steps_zero_lt (h : isClock now = true) : RedisWriter.steps c now 0 < -UI_PAST_SESSIONS := by
  have hcur := le_currentCandleOpen h c.timeframe
  unfold RedisWriter.steps UI_PAST_SESSIONS
  dsimp only
  rw [if_neg (by omega)]
  cases htf : c.timeframe <;> rw [htf] at hcur <;> simp only [TF_SECONDS] <;> omega

theorem keyedRight_register (hr : Recorded marketOf r) (hclock : isClock now = true) :
    KeyedRight marketOf (w.registerSessionTokens r now) := by
  intro token p hp
  obtain ⟨hmem, hkept⟩ := List.mem_filter.mp hp
  obtain ⟨hhas, hts⟩ := mem_allTokenMapping hmem
  have hown : IsTokenOf marketOf p.1 token := by
    rcases hhas with hcur | hfut
    · exact hr.current _ _ hcur
    · exact hr.future _ _ hfut
  cases hrec : r.tokenSessions token with
  | some ts =>
    rw [hrec, Option.getD_some] at hts
    rw [hts]
    exact hr.market hown hrec
  | none =>
    rw [hrec, Option.getD_none] at hts
    rw [hts] at hkept
    have hfar := steps_zero_lt (c := p.1) hclock
    exact absurd (of_decide_eq_true hkept).1 (not_le.mpr hfar)

theorem snapshot_updateOrderbook (token : String) (depth : Depth) (at_ : Time)
    (hw : KeyedRight marketOf w) (hs : StoredRight marketOf redis) :
    KeyedRight marketOf (w.updateOrderbook redis token depth at_).1 ∧
      StoredRight marketOf (w.updateOrderbook redis token depth at_).2 := by
  unfold RedisWriter.updateOrderbook
  split_ifs
  · exact ⟨hw, hs⟩
  · refine ⟨hw, fun c ts b hb => ?_⟩
    dsimp only at hb
    split_ifs at hb with hkey
    · cases hb
      -- a key with a candle is one of the session keys
      rcases List.mem_append.mp hkey with hkey | hkey
      · obtain ⟨p, hp, hpk⟩ := List.mem_map.mp hkey
        cases hpk
        exact hw token p hp
      · obtain ⟨c', -, hck⟩ := List.mem_map.mp hkey
        cases hck
    · exact hs c ts b hb

theorem storedRight_update {key : OrderbookKey} {b : Option StoredBook}
    (hs : StoredRight marketOf redis)
    (hb : ∀ x ∈ b, ∀ ts ∈ key.candleTs, IsMarket marketOf key.combo ts x.token) :
    StoredRight marketOf (Function.update redis key b) := by
  intro c ts x hx
  rw [Option.mem_def, Function.update_apply] at hx
  split_ifs at hx with hkey
  · subst hkey
    exact hb x hx ts rfl
  · exact hs c ts x hx

/-- The token of a repair. -/
theorem market_repairToken {session : SessionEngine} {dir : Direction} (hr : Recorded marketOf r)
    (hown : TokensOf marketOf session.sessionId session.tokens) (hguard : MayRepair session r dir)
    (htoken : repairToken session r dir = some token) :
    marketOf token = some (session.sessionId, dir) := by
  rcases Option.or_eq_some_iff.mp htoken with hsession | ⟨hnone, hcur⟩
  · exact hown dir token hsession
  · exact hr.market (c := ⟨_, _, dir⟩) (hr.current _ _ hcur) (hguard hnone token hcur)

theorem storedRight_repair {session : SessionEngine} {dir : Direction} {depth : Depth} {at_ : Time}
    (hr : Recorded marketOf r) (hown : TokensOf marketOf session.sessionId session.tokens)
    (hguard : MayRepair session r dir) (hs : StoredRight marketOf redis) :
    StoredRight marketOf (checkOrderbookKey session r redis dir depth at_) := by
  unfold checkOrderbookKey
  dsimp only
  split
  · exact hs
  · cases htoken : repairToken session r dir with
    | none => exact hs
    | some token =>
      have hput : StoredRight marketOf (Function.update redis
          ⟨⟨session.sessionId.symbol, session.sessionId.timeframe, dir⟩,
            some session.sessionId.candleOpen⟩
          (some ⟨token, depth, at_⟩)) := by
        refine storedRight_update hs fun x hx ts hts => ?_
        cases hx
        cases hts
        exact market_repairToken hr hown hguard htoken
      dsimp only
      split
      · exact storedRight_update hput fun _ _ ts hts => nomatch hts
      · exact hput

/-- A step of the tokens, other than the start of a new process, leaves the writer and Redis
alone. -/
theorem step_tokens {x : TokenAction} (h : x ≠ .restart) :
    s.step marketOf (.tokens x) = (s.feed.step marketOf x).map fun feed =>
      { s with feed := feed } := by
  cases x with
  | restart => exact absurd rfl h
  | _ => rfl

/-- **One step** under the guard. -/
theorem snapshotInv_step (h : SnapshotInv marketOf s) (hguard : KeepsSnapshots marketOf s a)
    (hstep : s.step marketOf a = some s') : SnapshotInv marketOf s' := by
  cases a with
  | tokens x =>
    by_cases hx : x = .restart
    · subst hx
      cases hstep
      exact ⟨candleInv_start, fun _ _ hp => absurd hp List.not_mem_nil, h.stored⟩
    · rw [step_tokens hx] at hstep
      obtain ⟨feed, hs, rfl⟩ := Option.map_eq_some_iff.mp hstep
      exact ⟨candleInv_step h.feed hguard hs, h.keyed, h.stored⟩
  | register now =>
    simp only [FeedSnapshots.step] at hstep
    split_ifs at hstep with hclock
    cases hstep
    exact ⟨h.feed, keyedRight_register h.feed.recorded hclock, h.stored⟩
  | updateOrderbook token depth now =>
    cases hstep
    have hwritten := snapshot_updateOrderbook token depth now h.keyed h.stored
    exact ⟨h.feed, hwritten.1, hwritten.2⟩
  | repair id dir depth now =>
    obtain ⟨session, hsession, rfl⟩ := Option.map_eq_some_iff.mp hstep
    have hown := h.feed.owned session (Table.mem_of_get hsession)
    exact ⟨h.feed, h.keyed, storedRight_repair h.feed.recorded hown
      (hguard session hsession) h.stored⟩
  | expireKey key =>
    cases hstep
    exact ⟨h.feed, h.keyed, storedRight_update h.stored fun _ hx => nomatch hx⟩
  | forget token =>
    cases hstep
    exact ⟨h.feed, h.keyed, h.stored⟩

/-! ## Runs -/

/-- **A snapshot holds its own candle's book**, and so what `create_bo` reads for a session: in
every run in which the tokens keep their candles and no repair takes the current token for another
candle's. -/
theorem snapshots_hold_their_candle
    (hrun : Run (FeedSnapshots.step marketOf) (KeepsSnapshots marketOf) {} s) (id : SessionId)
    (dir : Direction) :
    (∀ b ∈ s.redis ⟨⟨id.symbol, id.timeframe, dir⟩, some id.candleOpen⟩,
      marketOf b.token = some (id, dir)) ∧
      ∀ asks, readSnapshot s.redis id dir = .asks asks →
        ∃ token depth at_, marketOf token = some (id, dir) ∧ depth.asks = asks ∧
          s.redis ⟨⟨id.symbol, id.timeframe, dir⟩, some id.candleOpen⟩ = some ⟨token,
            depth, at_⟩ := by
  have hinv : SnapshotInv marketOf s :=
    hrun.invariant (SnapshotInv marketOf) snapshotInv_start fun _ _ _ => snapshotInv_step
  have hstored := hinv.stored ⟨id.symbol, id.timeframe, dir⟩ id.candleOpen
  refine ⟨hstored, fun asks hread => ?_⟩
  unfold readSnapshot at hread
  cases hb : s.redis ⟨⟨id.symbol, id.timeframe, dir⟩, some id.candleOpen⟩ with
  | none =>
    rw [hb] at hread
    cases hread
  | some b =>
    rw [hb] at hread
    cases hread
    exact ⟨b.token, b.depth, b.updatedAt, hstored b hb, rfl, rfl⟩

end

/-! ## Samples -/

/-- A depth with one ask. -/
def sampleDepth : Depth := ⟨[], [⟨1 / 2, 10, pos_one_half, nonneg_ten⟩]⟩

/-- The key of BTC's UP market at the candle of `3900`. -/
def nextBtcKey : OrderbookKey := ⟨btcUp, some 3900⟩

/-- A rotation, and the depth of the new token. -/
def freshSnapshot : List SnapshotAction :=
  cleanRotation.map .tokens ++ [.register 3908, .updateOrderbook "btc1" sampleDepth 3909]

/-- BTC's lookup still answers with the token of the candle before, while ETH's market is the new
one. -/
def staleSnapshot : List SnapshotAction :=
  [.tokens (.lookup btcUp 3610 (some "btc0")), .tokens (.lookup ethUp 3611 (some "eth0")),
   .tokens (.createSessions 3612), .tokens (.lookup btcUp 3905 (some "btc0")),
   .tokens (.lookup ethUp 3906 (some "eth1")), .register 3907,
     .updateOrderbook "btc0" sampleDepth 3909]

theorem snapshots_hold_their_candle_fresh : ∃ s : FeedSnapshots,
    (s.redis nextBtcKey).map (·.token) = some "btc1" ∧
      ∀ b ∈ s.redis nextBtcKey, sampleMarkets b.token = some (⟨.btc, .m5, 3900⟩, .up) := by
  have hexec : (exec (FeedSnapshots.step sampleMarkets) (KeepsSnapshots sampleMarkets) {}
      freshSnapshot).any (fun s =>
        decide ((s.redis nextBtcKey).map (·.token) = some "btc1")) = true := by
    decide +kernel
  obtain ⟨s, hs, hstored⟩ := Option.any_eq_true _ _ |>.mp hexec
  exact ⟨s, of_decide_eq_true hstored,
    (snapshots_hold_their_candle (run_of_exec hs) ⟨.btc, .m5, 3900⟩ .up).1⟩

/-- A stale answer puts the old market's book under the new candle, and `create_bo` reads its
asks. -/
theorem old_book_under_new_candle : ∃ s : FeedSnapshots,
    Run (FeedSnapshots.step sampleMarkets) (fun _ _ => True) {} s ∧
      (s.redis nextBtcKey).map (·.token) = some "btc0" ∧
        sampleMarkets "btc0" = some (⟨.btc, .m5, 3600⟩, .up) ∧
          snapshotBestAsk (readSnapshot s.redis ⟨.btc, .m5, 3900⟩ .up) = some (1 / 2) := by
  have hexec :
    (exec (FeedSnapshots.step sampleMarkets) (fun _ _ => True) {} staleSnapshot).any (fun s =>
      decide ((s.redis nextBtcKey).map (·.token) = some "btc0" ∧
        snapshotBestAsk (readSnapshot s.redis ⟨.btc, .m5, 3900⟩ .up) = some (1 / 2))) = true := by
    decide +kernel
  obtain ⟨s, hs, hstored⟩ := Option.any_eq_true _ _ |>.mp hexec
  exact ⟨s, run_of_exec hs, (of_decide_eq_true hstored).1, rfl, (of_decide_eq_true hstored).2⟩

end PolyArena
