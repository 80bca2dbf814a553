import PolyArena.WsFeedService.OrderbookDedup

/-!
# The price history

`update_price` writes the best prices of a token to Redis and, once Redis has answered, adds rows to
the price history: for the current candle one of each key that the token had when the call began,
and for later candles one of each session key, at most one in ten seconds.  The candle of a current
key is the one that is current when the row is added.

1. `PriceRecorder` runs the calls beside everything that moves tokens and books.
2. `prices_tagged`: a row is tagged with the candle of its token's market, as long as the writer is
   told of current tokens only, and the candle of a timeframe does not change while a call waits.
3. `waiting_price_mistagged`: a call that waits over the boundary tags the old price with the new
   candle.
-/

namespace PolyArena

def PRICE_HISTORY_INTERVAL_S : Time := 10

/-- A call of `update_price` that waits for Redis, with the keys that it has read. -/
structure PriceTick where
  token : String
  bestAsk : ℚ
  bestBid : Option ℚ
  combos : List Combo
  sessionCombos : List (Combo × ℤ)

/-- A row of the price history.  The token whose price it is and the token whose book it is are not
columns. -/
structure PriceHistory where
  combo : Combo
  bestAsk : ℚ
  bestBid : Option ℚ
  depth : Option (String × Depth)
  candleTs : Option ℤ
  recordedAt : Time
  token : String

/-- The writer's `_current_sessions`, `_last_price_record_ts` and `_last_ob_by_combo`, the calls
that wait and the table. -/
structure PriceRecorder where
  snapshots : FeedSnapshots := {}
  currentSessions : BOTimeframe → Option ℤ := fun _ => none
  lastPriceRecord : OrderbookKey → Option Time := fun _ => none
  lastObByCombo : OrderbookKey → Option (String × Depth) := fun _ => none
  ticks : List PriceTick := []
  priceHistory : List PriceHistory := []

namespace PriceRecorder

variable (s : PriceRecorder)

/-- `_current_sessions.get(tf, 0)`. -/
def currentTs (tf : BOTimeframe) : ℤ := (s.currentSessions tf).getD 0

/-- One key, at most once in the interval.  `stored` is the time of the row, `none` when its
insertion fails. -/
def recordKey (tick : PriceTick) (key : OrderbookKey) (candleTs : Option ℤ) (mono : Time)
    (stored : OrderbookKey → Option Time) : PriceRecorder :=
  if PRICE_HISTORY_INTERVAL_S ≤ mono - (s.lastPriceRecord key).getD 0 then
    { s with
      lastPriceRecord := Function.update s.lastPriceRecord key (some mono)
      priceHistory := s.priceHistory ++ ((stored key).map fun recordedAt =>
        { combo := key.combo
          bestAsk := tick.bestAsk
          bestBid := tick.bestBid
          depth := s.lastObByCombo key
          candleTs := candleTs
          recordedAt := recordedAt
          token := tick.token }).toList }
  else s

/-- The end of `update_price`. -/
def record (tick : PriceTick) (mono : Time) (stored : OrderbookKey → Option Time) : PriceRecorder :=
  let s := tick.combos.foldl (fun s c =>
    s.recordKey tick ⟨c, none⟩ (s.currentSessions c.timeframe) mono stored) s
  tick.sessionCombos.foldl (fun s p =>
    if p.2 ≤ s.currentTs p.1.timeframe then s
      else s.recordKey tick ⟨p.1, some p.2⟩ (some p.2) mono stored) s

/-- `update_price` until it waits for Redis; without a current key it does not wait. -/
def updatePrice (token : String) (bestAsk bestBid : Option ℚ) (mono : Time)
    (stored : OrderbookKey → Option Time) :
    PriceRecorder :=
  let combos := s.snapshots.writer.tokenMap token
  let sessionCombos := s.snapshots.writer.sessionTokenMap token
  match bestAsk with
  | none => s
  | some bestAsk =>
    let tick : PriceTick := ⟨token, bestAsk, bestBid, combos, sessionCombos⟩
    if combos = [] then s.record tick mono stored else { s with ticks := s.ticks ++ [tick] }

/-- What `update_orderbook` keeps of a depth that it has written. -/
def cacheDepth (token : String) (depth : Depth) (now : Time) :
    OrderbookKey → Option (String × Depth) :=
  let w := s.snapshots.writer
  if w.keys token = [] ∨ w.skips token depth now then s.lastObByCombo
  else fun key =>
    if key ∈ w.keys token ∧ ∀ ts ∈ key.candleTs, s.currentTs key.combo.timeframe < ts then some
      (token, depth)
    else s.lastObByCombo key

/-- The end of `clear_price_keys`. -/
def clearCombos (combos : List Combo) : PriceRecorder :=
  { s with
    lastObByCombo := fun key => if key.candleTs = none ∧ key.combo ∈ combos then none
      else s.lastObByCombo key
    lastPriceRecord := fun key => if key.candleTs = none ∧ key.combo ∈ combos then none
      else s.lastPriceRecord key }

/-- What a step of the books and tokens, which leads to `x`, does to the prices; a new process
forgets them. -/
def after (x : FeedSnapshots) : SnapshotAction → PriceRecorder
  | .tokens .restart => { snapshots := x, priceHistory := s.priceHistory }
  | .register now =>
    { s with snapshots := x, currentSessions := fun tf => some (currentCandleOpen tf now) }
  | .updateOrderbook token depth now =>
    { s with snapshots := x, lastObByCombo := s.cacheDepth token depth now }
  | _ => { s with snapshots := x }

end PriceRecorder

inductive PriceAction
  /-- what moves tokens, and the writer's work on the books -/
  | snapshots (a : SnapshotAction)
  | updatePrice (token : String) (bestAsk bestBid : Option ℚ) (mono : Time)
      (stored : OrderbookKey → Option Time)
  /-- Redis has answered a call, or failed it -/
  | written (i : ℕ) (ok : Bool) (mono : Time) (stored : OrderbookKey → Option Time)
  | clearCombos (combos : List Combo)

namespace PriceAction

def step (marketOf : String → Option (SessionId × Direction)) (s : PriceRecorder) :
    PriceAction → Option PriceRecorder
  | snapshots a => (s.snapshots.step marketOf a).map fun x => s.after x a
  | updatePrice token bestAsk bestBid mono stored =>
    some (s.updatePrice token bestAsk bestBid mono stored)
  | written i ok mono stored =>
    s.ticks[i]?.map fun tick =>
      let s := { s with ticks := s.ticks.eraseIdx i }
      if ok then s.record tick mono stored else s
  | clearCombos combos => some (s.clearCombos combos)

end PriceAction

/-! ## The guard -/

/-- The registry's current tokens are recorded for the current candles. -/
def TokenRegistry.UpToDate (r : TokenRegistry) (now : ℤ) : Prop :=
  ∀ symbol ∈ [BOSymbol.btc, .eth], ∀ timeframe ∈ [BOTimeframe.m5, .m15],
    ∀ direction ∈ [Direction.up, .down],
    ∀ token ∈ r.mapping ⟨symbol, timeframe, direction⟩,
      r.tokenSessions token = some (currentCandleOpen timeframe now)

instance (r : TokenRegistry) (now : ℤ) : Decidable (r.UpToDate now) := by
  unfold TokenRegistry.UpToDate
  infer_instance

/-- The guard on the books, and the writer is told of current tokens. -/
def TellsCurrent (marketOf : String → Option (SessionId × Direction)) (s : PriceRecorder) :
    PriceAction → Prop
  | .snapshots (.register now) => s.snapshots.feed.registry.UpToDate now
  | .snapshots a => KeepsSnapshots marketOf s.snapshots a
  | _ => True

instance (marketOf : String → Option (SessionId × Direction)) (s : PriceRecorder) :
    (a : PriceAction) → Decidable (TellsCurrent marketOf s a)
  | .snapshots (.register now) =>
    inferInstanceAs (Decidable (s.snapshots.feed.registry.UpToDate now))
  | .snapshots (.tokens a) =>
    inferInstanceAs (Decidable (KeepsSnapshots marketOf s.snapshots (.tokens a)))
  | .snapshots (.updateOrderbook token depth now) =>
    inferInstanceAs (Decidable (KeepsSnapshots marketOf s.snapshots
      (.updateOrderbook token depth now)))
  | .snapshots (.repair id dir depth now) =>
    inferInstanceAs (Decidable (KeepsSnapshots marketOf s.snapshots (.repair id dir depth now)))
  | .snapshots (.expireKey key) =>
    inferInstanceAs (Decidable (KeepsSnapshots marketOf s.snapshots (.expireKey key)))
  | .snapshots (.forget token) =>
    inferInstanceAs (Decidable (KeepsSnapshots marketOf s.snapshots (.forget token)))
  | .updatePrice .. | .written .. | .clearCombos _ => inferInstanceAs (Decidable True)

/-- The writer is told of no other candle while a call waits that would be tagged with it. -/
def NoneWaits (s : PriceRecorder) : PriceAction → Prop
  | .snapshots (.register now) =>
    ∀ tick ∈ s.ticks, ∀ c ∈ tick.combos, s.currentSessions c.timeframe =
      some (currentCandleOpen c.timeframe now)
  | _ => True

instance (s : PriceRecorder) : (a : PriceAction) → Decidable (NoneWaits s a)
  | .snapshots (.register now) =>
    inferInstanceAs (Decidable (∀ tick ∈ s.ticks, ∀ c ∈ tick.combos,
      s.currentSessions c.timeframe = some (currentCandleOpen c.timeframe now)))
  | .snapshots (.tokens _) | .snapshots (.updateOrderbook ..) | .snapshots (.repair ..)
  | .snapshots (.expireKey _)
  | .snapshots (.forget _) | .updatePrice .. | .written .. | .clearCombos _ =>
    inferInstanceAs (Decidable True)

def KeepsPrices (marketOf : String → Option (SessionId × Direction)) (s : PriceRecorder)
    (a : PriceAction) : Prop :=
  TellsCurrent marketOf s a ∧ NoneWaits s a

instance (marketOf : String → Option (SessionId × Direction)) (s : PriceRecorder)
    (a : PriceAction) :
    Decidable (KeepsPrices marketOf s a) :=
  inferInstanceAs (Decidable (_ ∧ _))

/-! ## One step -/

section

variable {marketOf : String → Option (SessionId × Direction)} {s s' : PriceRecorder}
  {a : PriceAction} {r : TokenRegistry} {tick : PriceTick} {c : Combo} {ts now : ℤ} {token : String}
  {key : OrderbookKey} {mono : Time} {stored : OrderbookKey → Option Time}

/-- The keys of a call are of its token's markets, the current ones by the current candles. -/
structure PriceTick.Right (marketOf : String → Option (SessionId × Direction))
    (currentSessions : BOTimeframe → Option ℤ) (tick : PriceTick) : Prop where
  current : ∀ c ∈ tick.combos, ∃ ts, currentSessions c.timeframe = some ts ∧
    IsMarket marketOf c ts tick.token
  session : ∀ p ∈ tick.sessionCombos, IsMarket marketOf p.1 p.2 tick.token

/-- The candle of a row is that of the market of its token; its book is of the same symbol,
timeframe and direction. -/
structure PriceHistory.Right (marketOf : String → Option (SessionId × Direction))
    (row : PriceHistory) : Prop where
  tag : ∃ ts, row.candleTs = some ts ∧ IsMarket marketOf row.combo ts row.token
  depth : ∀ b ∈ row.depth, IsTokenOf marketOf row.combo b.1

structure PriceInv (marketOf : String → Option (SessionId × Direction)) (s : PriceRecorder) :
    Prop where
  snapshots : SnapshotInv marketOf s.snapshots
  mapped : ∀ token, ∀ c ∈ s.snapshots.writer.tokenMap token,
    ∃ ts, s.currentSessions c.timeframe = some ts ∧ IsMarket marketOf c ts token
  ticks : ∀ tick ∈ s.ticks, tick.Right marketOf s.currentSessions
  depths : ∀ key, ∀ b ∈ s.lastObByCombo key, IsTokenOf marketOf key.combo b.1
  rows : ∀ row ∈ s.priceHistory, row.Right marketOf

theorem priceInv_start : PriceInv marketOf {} where
  snapshots := snapshotInv_start
  mapped := fun _ _ h => absurd h List.not_mem_nil
  ticks := fun _ h => absurd h List.not_mem_nil
  depths := fun _ _ h => absurd h (Option.not_mem_none _)
  rows := fun _ h => absurd h List.not_mem_nil

theorem isTokenOf_of_market (h : IsMarket marketOf c ts token) :
    IsTokenOf marketOf c token := ⟨ts, h⟩

theorem UpToDate.tokenSessions (h : r.UpToDate now) (hmap : r.mapping c = some token) :
    r.tokenSessions token = some (currentCandleOpen c.timeframe now) := by
  obtain ⟨symbol, timeframe, direction⟩ := c
  refine h symbol ?_ timeframe ?_ direction ?_ token hmap
  · cases symbol <;> simp
  · cases timeframe <;> simp
  · cases direction <;> simp

/-- The writer's current keys after it was told of current tokens. -/
theorem mapped_register {w : RedisWriter} (hr : Recorded marketOf r) (hcurrent : r.UpToDate now)
    (h : c ∈ ((w.registerTokenMapping r).registerSessionTokens r now).tokenMap token) :
    IsMarket marketOf c (currentCandleOpen c.timeframe now) token := by
  have hmap : r.mapping c = some token := mem_registerTokenMapping (w := w) h
  exact hr.market (hr.current c token hmap) (UpToDate.tokenSessions hcurrent hmap)

/-! ### Rows -/

/-- What recording a call keeps. -/
structure RecordsFor (marketOf : String → Option (SessionId × Direction)) (s s' : PriceRecorder) :
    Prop where
  inv : PriceInv marketOf s'
  currentSessions : s'.currentSessions = s.currentSessions

theorem priceInv_recordKey (h : PriceInv marketOf s)
    (hmarket : IsMarket marketOf key.combo ts tick.token) :
    RecordsFor marketOf s (s.recordKey tick key (some ts) mono stored) := by
  unfold PriceRecorder.recordKey
  split_ifs
  · refine ⟨⟨h.snapshots, h.mapped, h.ticks, h.depths, fun row hrow => ?_⟩, rfl⟩
    rcases List.mem_append.mp hrow with hold | hnew
    · exact h.rows row hold
    · obtain ⟨recordedAt, -, rfl⟩ := Option.map_eq_some_iff.mp (Option.mem_toList.mp hnew)
      exact ⟨⟨ts, rfl, hmarket⟩, fun b hb => h.depths key b hb⟩
  · exact ⟨h, rfl⟩

theorem priceInv_record (h : PriceInv marketOf s) (htick : tick.Right marketOf s.currentSessions) :
    PriceInv marketOf (s.record tick mono stored) := by
  unfold PriceRecorder.record
  have hcurrent : RecordsFor marketOf s (tick.combos.foldl (fun s c =>
      s.recordKey tick ⟨c, none⟩ (s.currentSessions c.timeframe) mono stored) s) := by
    refine List.foldlRecOn (motive := RecordsFor marketOf s) _ _ ⟨h, rfl⟩ fun x hx c hc => ?_
    obtain ⟨ts, hts, hmarket⟩ := htick.current c hc
    rw [hx.currentSessions, hts]
    have hnext : RecordsFor marketOf x (x.recordKey tick ⟨c, none⟩ (some ts) mono stored) :=
      priceInv_recordKey hx.inv hmarket
    exact ⟨hnext.inv, hnext.currentSessions.trans hx.currentSessions⟩
  refine List.foldlRecOn (motive := PriceInv marketOf) _ _ hcurrent.inv fun x hx p hp => ?_
  split_ifs
  · exact hx
  · exact (priceInv_recordKey hx (htick.session p hp)).inv

theorem priceInv_updatePrice {bestAsk bestBid : Option ℚ} (h : PriceInv marketOf s) :
    PriceInv marketOf (s.updatePrice token bestAsk bestBid mono stored) := by
  unfold PriceRecorder.updatePrice
  cases bestAsk with
  | none => exact h
  | some bestAsk =>
    have htick : PriceTick.Right marketOf s.currentSessions ⟨token, bestAsk, bestBid,
        s.snapshots.writer.tokenMap token,
        s.snapshots.writer.sessionTokenMap token⟩ := ⟨h.mapped token, h.snapshots.keyed token⟩
    dsimp only
    split_ifs
    · exact priceInv_record h htick
    · refine ⟨h.snapshots, h.mapped, fun tick hmem => ?_, h.depths, h.rows⟩
      rcases List.mem_append.mp hmem with hold | hnew
      · exact h.ticks tick hold
      · rw [List.mem_singleton.mp hnew]
        exact htick

theorem depths_cache {depth : Depth} {at_ : Time} (h : PriceInv marketOf s) :
    ∀ key, ∀ b ∈ s.cacheDepth token depth at_ key, IsTokenOf marketOf key.combo b.1 := by
  intro key b hb
  unfold PriceRecorder.cacheDepth at hb
  split_ifs at hb with hskip
  · exact h.depths key b hb
  · dsimp only at hb
    split_ifs at hb with hkey
    · obtain rfl := Option.some.inj hb
      rcases List.mem_append.mp hkey.1 with hsession | hlegacy
      · obtain ⟨p, hp, rfl⟩ := List.mem_map.mp hsession
        exact isTokenOf_of_market (h.snapshots.keyed token p hp)
      · obtain ⟨c, hc, rfl⟩ := List.mem_map.mp hlegacy
        obtain ⟨ts, -, hmarket⟩ := h.mapped token c hc
        exact isTokenOf_of_market hmarket
    · exact h.depths key b hb

/-- What the writer does to the books leaves its keys. -/
theorem tokenMap_updateOrderbook (w : RedisWriter) (redis : Orderbooks) (token : String)
    (depth : Depth) (at_ : Time) :
    (w.updateOrderbook redis token depth at_).1.tokenMap = w.tokenMap := by
  unfold RedisWriter.updateOrderbook
  split_ifs <;> rfl

/-- A step that leaves the writer's keys. -/
theorem PriceInv.moved {x : FeedSnapshots} (h : PriceInv marketOf s) (hx : SnapshotInv marketOf x)
    (hmap : x.writer.tokenMap = s.snapshots.writer.tokenMap) :
    PriceInv marketOf { s with snapshots := x } where
  snapshots := hx
  mapped := fun token c hc => h.mapped token c (hmap ▸ hc)
  ticks := h.ticks
  depths := h.depths
  rows := h.rows

theorem keepsSnapshots_of_current {b : SnapshotAction}
    (h : TellsCurrent marketOf s (.snapshots b)) :
    KeepsSnapshots marketOf s.snapshots b := by
  cases b with
  | register now => exact trivial
  | _ => exact h

/-- The books and the tokens move. -/
theorem priceInv_after {b : SnapshotAction} {x : FeedSnapshots} (h : PriceInv marketOf s)
    (hguard : KeepsPrices marketOf s (.snapshots b))
    (hstep : s.snapshots.step marketOf b = some x) :
    PriceInv marketOf (s.after x b) := by
  have hinv := snapshotInv_step h.snapshots (keepsSnapshots_of_current hguard.1) hstep
  cases b with
  | tokens t =>
    by_cases ht : t = .restart
    · subst ht
      cases hstep
      exact ⟨hinv, fun _ _ hc => absurd hc List.not_mem_nil,
        fun _ htick => absurd htick List.not_mem_nil,
        fun _ _ hb => absurd hb (Option.not_mem_none _), h.rows⟩
    · have hafter : s.after x (.tokens t) = { s with snapshots := x } := by
        cases t with
        | restart => exact absurd rfl ht
        | _ => rfl
      rw [step_tokens ht] at hstep
      obtain ⟨feed, -, rfl⟩ := Option.map_eq_some_iff.mp hstep
      rw [hafter]
      exact h.moved hinv rfl
  | register now =>
    simp only [FeedSnapshots.step] at hstep
    split_ifs at hstep
    cases hstep
    refine ⟨hinv, fun token c hc => ⟨_, rfl, ?_⟩,
      fun tick htick => ⟨fun c hc => ?_, (h.ticks tick htick).session⟩, h.depths, h.rows⟩
    · exact mapped_register h.snapshots.feed.recorded hguard.1 hc
    · obtain ⟨ts, hts, hmarket⟩ := (h.ticks tick htick).current c hc
      obtain rfl : ts = currentCandleOpen c.timeframe now :=
        Option.some.inj (hts.symm.trans (hguard.2 tick htick c hc))
      exact ⟨_, rfl, hmarket⟩
  | updateOrderbook token depth now =>
    cases hstep
    have hmoved := h.moved hinv (tokenMap_updateOrderbook _ _ _ _ _)
    exact ⟨hinv, hmoved.mapped, h.ticks, depths_cache h, h.rows⟩
  | repair id dir depth now =>
    obtain ⟨session, -, rfl⟩ := Option.map_eq_some_iff.mp hstep
    exact h.moved hinv rfl
  | expireKey key =>
    cases hstep
    exact h.moved hinv rfl
  | forget token =>
    cases hstep
    exact h.moved hinv rfl

/-- **One step** under the guard. -/
theorem priceInv_step (h : PriceInv marketOf s) (hguard : KeepsPrices marketOf s a)
    (hstep : a.step marketOf s = some s') : PriceInv marketOf s' := by
  cases a with
  | snapshots b =>
    obtain ⟨x, hbase, rfl⟩ := Option.map_eq_some_iff.mp hstep
    exact priceInv_after h hguard hbase
  | updatePrice token bestAsk bestBid mono stored =>
    cases hstep
    exact priceInv_updatePrice h
  | written i ok mono stored =>
    obtain ⟨tick, htick, rfl⟩ := Option.map_eq_some_iff.mp hstep
    have hrest : PriceInv marketOf { s with ticks := s.ticks.eraseIdx i } :=
      ⟨h.snapshots, h.mapped, fun t ht => h.ticks t (List.mem_of_mem_eraseIdx ht), h.depths, h.rows⟩
    dsimp only
    split_ifs
    · exact priceInv_record hrest (h.ticks tick (List.mem_of_getElem? htick))
    · exact hrest
  | clearCombos combos =>
    cases hstep
    refine ⟨h.snapshots, h.mapped, h.ticks, fun key b hb => ?_, h.rows⟩
    unfold PriceRecorder.clearCombos at hb
    dsimp only at hb
    split_ifs at hb
    · cases hb
    · exact h.depths key b hb

/-! ## Runs -/

/-- **Every run** under the guard. -/
theorem priceInv_run (hrun : Run (PriceAction.step marketOf) (KeepsPrices marketOf) {} s) :
    PriceInv marketOf s :=
  hrun.invariant (PriceInv marketOf) priceInv_start fun _ _ _ => priceInv_step

/-- **Prices are tagged with their candle.**  In every run in which the tokens keep their candles,
the writer is told of current tokens only and no call waits while the candle changes, the candle of
a row is that of the market whose price it is, and its book is of the same symbol, timeframe and
direction. -/
theorem prices_tagged (hrun : Run (PriceAction.step marketOf) (KeepsPrices marketOf) {} s) :
    ∀ row ∈ s.priceHistory, row.Right marketOf :=
  (priceInv_run hrun).rows

end

/-! ## Samples -/

/-- Redis answers the oldest call, and its rows are stored. -/
def answered (mono : Time) : PriceAction := .written 0 true mono fun _ => some mono

/-- A price of each of two candles. -/
def twoPrices : List PriceAction :=
  [.snapshots (.tokens (.lookup btcUp 3610 (some "btc0"))), .snapshots (.register 3612),
    .updatePrice "btc0" (some (1 / 2)) none 3613 fun _ => none, answered 3614,
    .snapshots (.tokens (.lookup btcUp 3905 (some "btc1"))), .snapshots (.register 3908),
    .updatePrice "btc1" (some (3 / 5)) none 3909 fun _ => none, answered 3910]

theorem prices_tagged_rotation :
    ∃ s, Run (PriceAction.step sampleMarkets) (KeepsPrices sampleMarkets) {} s ∧
    s.priceHistory.map PriceHistory.candleTs = [some 3600, some 3900] ∧
      ∀ row ∈ s.priceHistory, row.Right sampleMarkets := by
  have hexec :
    (exec (PriceAction.step sampleMarkets) (KeepsPrices sampleMarkets) {} twoPrices).any (fun s =>
      decide (s.priceHistory.map PriceHistory.candleTs = [some 3600, some 3900])) = true := by
    decide +kernel
  obtain ⟨s, hs, htags⟩ := Option.any_eq_true _ _ |>.mp hexec
  exact ⟨s, run_of_exec hs, of_decide_eq_true htags, prices_tagged (run_of_exec hs)⟩

/-- The call for the old token is answered after the writer was told of the new candle. -/
def waitingPrice : List PriceAction :=
  [.snapshots (.tokens (.lookup btcUp 3610 (some "btc0"))), .snapshots (.register 3612),
    .updatePrice "btc0" (some (1 / 2)) none 3899 fun _ => none,
    .snapshots (.tokens (.lookup btcUp 3905 (some "btc1"))), .snapshots (.register 3908),
      answered 3909]

/-- **A price that waits over the boundary** is tagged with the new candle. -/
theorem waiting_price_mistagged :
    ∃ s, Run (PriceAction.step sampleMarkets) (TellsCurrent sampleMarkets) {} s ∧
    ∃ row ∈ s.priceHistory, row.candleTs = some 3900 ∧
      sampleMarkets row.token = some (⟨.btc, .m5, 3600⟩, .up) := by
  have hexec : (exec (PriceAction.step sampleMarkets)
    (TellsCurrent sampleMarkets) {} waitingPrice).any (fun s =>
      s.priceHistory.any fun row =>
        decide (row.candleTs = some 3900 ∧ row.token = "btc0")) = true := by
    decide +kernel
  obtain ⟨s, hs, hany⟩ := Option.any_eq_true _ _ |>.mp hexec
  obtain ⟨row, hrow, htag⟩ := List.any_eq_true.mp hany
  obtain ⟨htag, htoken⟩ := of_decide_eq_true htag
  exact ⟨s, run_of_exec hs, row, hrow, htag, htoken.symm ▸ rfl⟩

end PolyArena
