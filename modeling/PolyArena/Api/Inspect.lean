import PolyArena.Api.BalanceSnapshots
import PolyArena.CandleGrid
import PolyArena.WsFeedService.PriceHistory

/-!
# The trade inspectors

`inspect_trade_public` (`routers/binary_options.py`) and `inspect_trade` (`routers/admin.py`) show a
trade with the prices of its session.  The public one takes the session from the settlement time,
the admin's from the time of creation.

1. `inspect_window`: in every run of the API the public window of an order is its candle, which is
   the candle that it is settled by; the admin's window is the same exactly when the order was
   created within it.
2. `inspected_prices`: where the price history has a price of the order's own market, the public
   inspector shows all of them and nothing else.
3. `inspected_other_candle`: where it has none, the inspector falls back on the time of the rows,
   and shows the prices of the next candle's token.
-/

namespace PolyArena

namespace BinaryOption

variable (bo : BinaryOption)

/-- The start of the candle that contains `t`. -/
def candleAt (t : Time) : ℤ := ⌊t⌋ / TF_SECONDS bo.timeframe * TF_SECONDS bo.timeframe

/-- `session_start` and `session_end` of `inspect_trade_public`. -/
def publicWindow : ℤ × ℤ :=
  match bo.settlementAt, bo.createdAt with
  | some settle, _ => (⌊settle⌋ - TF_SECONDS bo.timeframe, ⌊settle⌋)
  | none, some created => (bo.candleAt created, bo.candleAt created + TF_SECONDS bo.timeframe)
  | none, none => (0, TF_SECONDS bo.timeframe)

/-- `session_start` and `session_end` of `inspect_trade`. -/
def adminWindow : ℤ × ℤ :=
  let sessionStart := (bo.createdAt.map bo.candleAt).getD 0
  (sessionStart, sessionStart + TF_SECONDS bo.timeframe)

end BinaryOption

/-- `startTime` of the kline that `fetch_binance_candle` asks for, in milliseconds. -/
def klineStart (timeframe : BOTimeframe) (settlementAt : Time) : ℤ :=
  ⌊settlementAt * 1000⌋ - TF_MS timeframe

/-- The rows with a property, by their time. -/
def pricesWhere (rows : List PriceHistory) (p : PriceHistory → Bool) : List PriceHistory :=
  (rows.filter p).insertionSort fun a b => a.recordedAt ≤ b.recordedAt

/-- The session and the prices of the answer; the traces and the fills of the timeline are those of
the order. -/
structure TradeInspect where
  direction : Direction
  sessionStart : ℤ
  sessionEnd : ℤ
  sessionOffset : ℕ
  prices : List PriceHistory

/-- `inspect_trade_public`. -/
def inspectTradePublic (rows : List PriceHistory) (bo : BinaryOption) : TradeInspect :=
  let window := bo.publicWindow
  let tagged := pricesWhere rows fun row => row.combo = bo.combo ∧ row.candleTs = some window.1
  -- An order on a later candle was shown prices before its candle opened.
  let fallbackStart := if 1 ≤ bo.sessionOffset then bo.createdAt.getD window.1 else window.1
  let prices :=
    if tagged = [] then
      pricesWhere rows fun row => row.combo = bo.combo ∧ fallbackStart ≤ row.recordedAt ∧
        row.recordedAt ≤ window.2
    else tagged
  ⟨bo.combo.direction, window.1, window.2, bo.sessionOffset, prices⟩

/-- `inspect_trade`. -/
def inspectTrade (rows : List PriceHistory) (bo : BinaryOption) : TradeInspect :=
  let window := bo.adminWindow
  let prices := pricesWhere rows fun row =>
    row.combo = bo.combo ∧ (window.1 : ℚ) ≤ row.recordedAt ∧ row.recordedAt ≤ window.2
  ⟨bo.combo.direction, window.1, window.2, 0, prices⟩

/-! ## The window -/

/-- The order was placed for a candle, and is settled when that closes. -/
structure BinaryOption.OnSession (bo : BinaryOption) (c : ℤ) : Prop where
  aligned : (TF_SECONDS bo.timeframe : ℤ) ∣ c
  settlementAt : bo.settlementAt = some ((c + TF_SECONDS bo.timeframe : ℤ) : ℚ)
  created : bo.createdAt.isSome = true

/-- Every order on a candle is. -/
def Database.OnSessions (db : Database) : Prop :=
  ∀ bo ∈ db.orders.rows, ∀ c ∈ bo.candleOpen, bo.OnSession c

section Window

variable {db db' db₀ : Database} {bo row : BinaryOption} {a : ApiAction} {t : BalanceTransaction}
  {c : ℤ}

theorem resolveSession_aligned {now : Time} {tf : BOTimeframe} {timestamp : Option ℤ} {offset : ℕ}
    {s : SessionInfo} (h : resolveSession now tf timestamp offset = .ok s) :
    (TF_SECONDS tf : ℤ) ∣ s.candleOpen := by
  unfold resolveSession at h
  dsimp only at h
  split at h
  · split_ifs at h
    cases h
    exact Int.dvd_self_sub_emod
  · cases h
    exact dvd_add Int.dvd_self_sub_emod (dvd_mul_right _ _)

theorem admitRequest_aligned {now : Time} {apiKey : String} {p : BOCreate} {first : SnapshotRead}
    {r : Admitted} (h : admitRequest now db apiKey p first = .ok r) :
    (TF_SECONDS p.timeframe : ℤ) ∣ r.session.candleOpen := by
  unfold admitRequest at h
  obtain ⟨bot, -, h⟩ := ok_of_bind h
  obtain ⟨session, hsession, h⟩ := ok_of_bind h
  obtain ⟨bestAsk, -, h⟩ := ok_of_bind h
  obtain ⟨-, -, h⟩ := ok_of_bind h
  cases h
  exact resolveSession_aligned hsession

/-- The timeframe and the time of a draft. -/
theorem choosePath_terms {now : Time} {r : Admitted} {p : BOCreate} {second : SnapshotRead} {id : ℕ}
    {d : Draft id} (h : choosePath now r p second id = .ok d) :
    d.row.timeframe = p.timeframe ∧ d.row.createdAt = some now := by
  unfold choosePath at h
  split at h
  · split at h
    · obtain ⟨f, -, rfl⟩ := aggressiveLimit_ok h
      exact ⟨rfl, rfl⟩
    · cases h
      exact ⟨rfl, rfl⟩
  · obtain ⟨avg, shares, levels, -, rfl⟩ := marketOrder_ok h
    exact ⟨rfl, rfl⟩

/-- **Where the terms of an order come from**: from before, or from a request for a candle. -/
theorem terms_apply (h : row ∈ (t.apply db).orders.rows) :
    (∃ bo ∈ db.orders.rows, row.terms = bo.terms) ∨ ∀ c ∈ row.candleOpen, row.OnSession c := by
  have hphases : row ∈ (t.txn.run db.accounts).orders.rows := by
    rw [← accounts_apply]
    exact h
  cases t with
  | createBo now apiKey p first second id =>
    change row ∈ (insertBo now apiKey p first second id db).orders.rows at h
    unfold insertBo at h
    split at h
    · next hfresh =>
      cases hc : createBo now db apiKey p first second false ⟨id, hfresh⟩ with
      | error e =>
        rw [hc] at h
        exact .inl ⟨row, h, rfl⟩
      | ok created =>
        rw [hc] at h
        obtain ⟨r, d, hadmit, hpath, rfl⟩ := createBo_ok hc
        rcases List.mem_append.mp h with hold | hnew
        · exact .inl ⟨row, hold, rfl⟩
        · obtain rfl := List.mem_singleton.mp hnew
          obtain ⟨-, hopen, hclose⟩ := choosePath_session hpath
          obtain ⟨htimeframe, hcreated⟩ := choosePath_terms hpath
          rw [queuedRow_false]
          refine .inr fun c hc' => ?_
          obtain rfl : r.session.candleOpen = c := Option.some.inj (hopen.symm.trans hc')
          refine ⟨htimeframe.symm ▸ admitRequest_aligned hadmit, ?_, by rw [hcreated]; rfl⟩
          rw [htimeframe, ← admitRequest_settlementAt hadmit]
          exact hclose
    · exact .inl ⟨row, h, rfl⟩
  | _ =>
    obtain ⟨bo, hbo, hterms, -⟩ := settled_phases hphases
    exact .inl ⟨bo, hbo, hterms⟩

theorem onSession_congr (h : row.terms = bo.terms) (hbo : bo.OnSession c) : row.OnSession c := by
  have htimeframe : row.timeframe = bo.timeframe := congrArg OrderTerms.timeframe h
  have hcreated : row.createdAt = bo.createdAt := congrArg OrderTerms.createdAt h
  refine ⟨htimeframe ▸ hbo.aligned, ?_, hcreated ▸ hbo.created⟩
  rw [settlementAt_of_terms h, htimeframe]
  exact hbo.settlementAt

theorem onSessions_step (h : db.OnSessions) (hstep : a.step db = some db') : db'.OnSessions := by
  intro row hrow c hc
  have hold : ∀ bo ∈ db.orders.rows, row.terms = bo.terms → row.OnSession c := fun bo hbo hterms =>
    onSession_congr hterms (h bo hbo c (candleOpen_of_terms hterms ▸ hc))
  rcases api_origin hstep hrow with ⟨bo, hbo, hterms, -⟩ | ⟨t, rfl, hrow⟩
  · exact hold bo hbo hterms
  · rcases terms_apply hrow with ⟨bo, hbo, hterms⟩ | hnew
    · exact hold bo hbo hterms
    · exact hnew c hc

theorem publicWindow_eq (h : bo.OnSession c) :
    bo.publicWindow = (c, c + TF_SECONDS bo.timeframe) := by
  unfold BinaryOption.publicWindow
  rw [h.settlementAt]
  show (_ - _, _) = _
  rw [Int.floor_intCast, add_sub_cancel_right]

theorem klineStart_eq (c : ℤ) (tf : BOTimeframe) :
    klineStart tf (c + TF_SECONDS tf : ℤ) = c * 1000 := by
  unfold klineStart
  rw [TF_MS_eq]
  have hms : (((c + TF_SECONDS tf : ℤ) : ℚ)) * 1000 = ((c + TF_SECONDS tf) * 1000 : ℤ) := by
    push_cast; ring
  rw [hms, Int.floor_intCast]
  push_cast
  ring

/-- The candle of an instant is the one that contains it. -/
theorem candleAt_eq_iff (h : (TF_SECONDS bo.timeframe : ℤ) ∣ c) (t : Time) :
    bo.candleAt t = c ↔ (c : ℚ) ≤ t ∧ t < (c + TF_SECONDS bo.timeframe : ℤ) := by
  have hpos : (0 : ℤ) < TF_SECONDS bo.timeframe := by exact_mod_cast period_pos bo.timeframe
  obtain ⟨k, rfl⟩ := h
  unfold BinaryOption.candleAt
  rw [mul_comm (TF_SECONDS bo.timeframe : ℤ) k, mul_left_inj' hpos.ne', Int.ediv_eq_iff_of_pos hpos,
    ← Int.le_floor, ← Int.floor_lt]

/-- **Every run.** -/
theorem onSessions_run {guard : Database → ApiAction → Prop} (h₀ : db₀.OnSessions)
    (hrun : Run ApiAction.step guard db₀ db) : db.OnSessions :=
  hrun.invariant Database.OnSessions h₀ fun _ _ _ h _ hstep => onSessions_step h hstep

/-- **The windows of the inspectors.**  In every run of the API, for an order on a candle: the
public window is the candle, and the order is settled by the kline that opens with it; the admin's
window is the same exactly when the order was created within it. -/
theorem inspect_window {guard : Database → ApiAction → Prop} (h₀ : db₀.OnSessions)
    (hrun : Run ApiAction.step guard db₀ db) (hbo : bo ∈ db.orders.rows) (hc : c ∈ bo.candleOpen) :
    bo.publicWindow = (c, c + TF_SECONDS bo.timeframe) ∧
      bo.settlementAt.map (klineStart bo.timeframe) = some (c * 1000) ∧
      (bo.adminWindow = bo.publicWindow ↔ ∃ t ∈ bo.createdAt, (c : ℚ) ≤ t ∧
        t < (c + TF_SECONDS bo.timeframe : ℤ)) := by
  have hsession : bo.OnSession c := onSessions_run h₀ hrun bo hbo c hc
  refine ⟨publicWindow_eq hsession, ?_, ?_⟩
  · rw [hsession.settlementAt, Option.map_some, klineStart_eq]
  · obtain ⟨t, ht⟩ := Option.isSome_iff_exists.mp hsession.created
    rw [publicWindow_eq hsession, BinaryOption.adminWindow, ht, Option.map_some, Option.getD_some,
      Prod.mk.injEq, add_left_inj, and_self, candleAt_eq_iff hsession.aligned]
    simp

end Window

/-! ## The prices -/

section Prices

variable {marketOf : String → Option (SessionId × Direction)} {db db₀ : Database}
  {bo : BinaryOption} {c : ℤ} {s : PriceRecorder} {rows : List PriceHistory} {row : PriceHistory}

/-- The price is one of the order's own market. -/
def OfOrder (marketOf : String → Option (SessionId × Direction)) (bo : BinaryOption) (c : ℤ)
    (row : PriceHistory) : Prop :=
  IsMarket marketOf bo.combo c row.token

instance : DecidablePred (OfOrder marketOf bo c) := fun row =>
  inferInstanceAs (Decidable (marketOf row.token = some (bo.combo.session c, bo.combo.direction)))

/-- On rows with the right candles the tag tells the market. -/
theorem tagged_iff (h : row.Right marketOf) :
    row.combo = bo.combo ∧ row.candleTs = some c ↔ OfOrder marketOf bo c row := by
  obtain ⟨ts, hts, hmarket⟩ := h.tag
  constructor
  · rintro ⟨hcombo, htag⟩
    obtain rfl : ts = c := Option.some.inj (hts.symm.trans htag)
    show IsMarket marketOf bo.combo ts row.token
    rw [← hcombo]
    exact hmarket
  · intro hown
    obtain ⟨hsession, hdirection⟩ := Prod.mk.inj (Option.some.inj (hmarket.symm.trans hown))
    obtain ⟨hsymbol, htimeframe, hopen⟩ := SessionId.mk.inj hsession
    refine ⟨?_, hts.trans (congrArg some hopen)⟩
    calc row.combo = ⟨row.combo.symbol, row.combo.timeframe, row.combo.direction⟩ := rfl
      _ = ⟨bo.combo.symbol, bo.combo.timeframe, bo.combo.direction⟩ := by
          rw [hsymbol, htimeframe, hdirection]
      _ = bo.combo := rfl

theorem pricesWhere_congr {p q : PriceHistory → Bool} (h : ∀ row ∈ rows, p row = q row) :
    pricesWhere rows p = pricesWhere rows q := by
  unfold pricesWhere
  rw [List.filter_congr h]

theorem pricesWhere_ne_nil {p : PriceHistory → Bool} (hrow : row ∈ rows) (hp : p row = true) :
    pricesWhere rows p ≠ [] := by
  refine List.ne_nil_of_mem (a := row) ?_
  exact (List.perm_insertionSort _ _).mem_iff.mpr (List.mem_filter.mpr ⟨hrow, hp⟩)

/-- **The prices of an order.**  In every run of the price recorder and of the API: where the
history has a price of the order's own market, the public inspector shows all of them, and nothing
else. -/
theorem inspected_prices {guard : Database → ApiAction → Prop}
    (hprices : Run (PriceAction.step marketOf) (KeepsPrices marketOf) {} s) (h₀ : db₀.OnSessions)
    (hrun : Run ApiAction.step guard db₀ db) (hbo : bo ∈ db.orders.rows) (hc : c ∈ bo.candleOpen)
    (hown : ∃ row ∈ s.priceHistory, OfOrder marketOf bo c row) :
    (inspectTradePublic s.priceHistory bo).prices =
      pricesWhere s.priceHistory fun row => OfOrder marketOf bo c row := by
  have hsession : bo.OnSession c := onSessions_run h₀ hrun bo hbo c hc
  have hright := (priceInv_run hprices).rows
  have htagged : pricesWhere s.priceHistory (fun row => row.combo = bo.combo ∧
      row.candleTs = some bo.publicWindow.1) =
      pricesWhere s.priceHistory fun row => OfOrder marketOf bo c row := by
    refine pricesWhere_congr fun row hrow => ?_
    rw [publicWindow_eq hsession, decide_eq_decide]
    exact tagged_iff (hright row hrow)
  obtain ⟨row, hrow, hmarket⟩ := hown
  unfold inspectTradePublic
  dsimp only
  rw [htagged, if_neg (pricesWhere_ne_nil hrow (decide_eq_true hmarket))]

end Prices

/-! ## Samples -/

/-- An order on BTC's first candle of five minutes. -/
def firstCandleOrder : BinaryOption :=
  { id := 1, botName := "alpha", symbol := .btc, timeframe := .m5, forecast := .green, amount := 10,
    settlementAt := some 3900, createdAt := some 3620, candleOpen := some 3600 }

def firstCandleDb : Database :=
  { twoUsersDb with orders := ⟨[firstCandleOrder], nodup_one firstCandleOrder⟩ }

theorem onSession_firstCandleOrder : firstCandleOrder.OnSession 3600 where
  aligned := by decide
  settlementAt := by decide
  created := rfl

theorem onSessions_firstCandleDb : firstCandleDb.OnSessions := by
  intro bo hbo c hc
  obtain rfl := List.mem_singleton.mp hbo
  obtain rfl : (3600 : ℤ) = c := Option.some.inj hc
  exact onSession_firstCandleOrder

theorem mem_firstCandleDb : firstCandleOrder ∈ firstCandleDb.orders.rows := List.mem_cons_self

theorem onSessions_twoUsersDb : twoUsersDb.OnSessions := by
  intro bo hbo c hc
  obtain rfl := List.mem_singleton.mp hbo
  cases hc

/-- An order that is placed within its candle. -/
theorem inspect_window_placed : ∃ db, Run ApiAction.step (fun _ _ => True) twoUsersDb db ∧
    ∃ bo ∈ db.orders.rows, bo.publicWindow = (900, 1200) ∧ bo.adminWindow = bo.publicWindow := by
  have hplaced : ∃ bo ∈ (lowLimit.apply twoUsersDb).orders.rows,
      bo.timeframe = .m5 ∧ bo.candleOpen = some 900 ∧ bo.createdAt = some 1000 := by decide +kernel
  obtain ⟨bo, hbo, htimeframe, hopen, hcreated⟩ := hplaced
  have hrun : Run ApiAction.step (fun _ _ => True) twoUsersDb (lowLimit.apply twoUsersDb) :=
    .next .start (a := .trade lowLimit) trivial rfl
  obtain ⟨hpublic, -, hadmin⟩ := inspect_window onSessions_twoUsersDb hrun hbo hopen
  rw [htimeframe] at hpublic hadmin
  exact ⟨_, hrun, bo, hbo, hpublic,
    hadmin.mpr ⟨1000, hcreated, by norm_num, by norm_num [TF_SECONDS]⟩⟩

/-- Prices of both candles, of which the order's own is shown. -/
theorem inspected_prices_rotation :
    ∃ s, Run (PriceAction.step sampleMarkets) (KeepsPrices sampleMarkets) {} s ∧
    s.priceHistory.length = 2 ∧ (inspectTradePublic s.priceHistory firstCandleOrder).prices =
      pricesWhere s.priceHistory fun row => OfOrder sampleMarkets firstCandleOrder 3600 row := by
  have hexec :
    (exec (PriceAction.step sampleMarkets) (KeepsPrices sampleMarkets) {} twoPrices).any (fun s =>
      decide (s.priceHistory.length = 2 ∧ ∃ row ∈ s.priceHistory,
        OfOrder sampleMarkets firstCandleOrder 3600 row)) =
        true := by
    decide +kernel
  obtain ⟨s, hs, hshown⟩ := Option.any_eq_true _ _ |>.mp hexec
  obtain ⟨hlength, hown⟩ := of_decide_eq_true hshown
  have hrun : Run ApiAction.step (fun _ _ => True) firstCandleDb firstCandleDb := .start
  exact ⟨s, run_of_exec hs, hlength, inspected_prices (run_of_exec hs) onSessions_firstCandleDb hrun
    mem_firstCandleDb rfl hown⟩

/-- A price of the next candle's token, and none of the current one's. -/
def nextPrice : List PriceAction :=
  [.snapshots (.tokens (.prefetch btcUp 3610 fun ts => if ts = 3900 then some "btc1" else none)),
    .snapshots (.register 3612), .updatePrice "btc1" (some (3 / 5)) none 3700 fun _ => some 3700]

/-- **The fallback** shows the price of another candle's token. -/
theorem inspected_other_candle :
    ∃ s, Run (PriceAction.step sampleMarkets) (KeepsPrices sampleMarkets) {} s ∧
    ∃ row ∈ (inspectTradePublic s.priceHistory firstCandleOrder).prices,
      sampleMarkets row.token = some (⟨.btc, .m5, 3900⟩, .up) := by
  have hexec :
    (exec (PriceAction.step sampleMarkets) (KeepsPrices sampleMarkets) {} nextPrice).any (fun s =>
      (inspectTradePublic s.priceHistory firstCandleOrder).prices.any fun row =>
        decide (sampleMarkets row.token = some (⟨.btc, .m5, 3900⟩, .up))) = true := by
    decide +kernel
  obtain ⟨s, hs, hshown⟩ := Option.any_eq_true _ _ |>.mp hexec
  obtain ⟨row, hrow, hmarket⟩ := List.any_eq_true.mp hshown
  exact ⟨s, run_of_exec hs, row, hrow, of_decide_eq_true hmarket⟩

end PolyArena
