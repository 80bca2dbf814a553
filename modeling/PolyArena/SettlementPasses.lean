import PolyArena.Ledger

/-!
# What a settlement pass makes of each order

A pass selects pending orders and works through them in one transaction.  The body of its loop reads
and writes the order it is given and nothing of the others, so a pass that reaches its commit leaves
each order what the body makes of it alone.

1. `foldlM_rows` is the loop, for any body; `settlePending_rows` and `sweepStuck_rows` are the
   passes.
2. `settlePending_result` and `sweepStuck_result` say which result a pass leaves each order with.
3. `resolved_iff_not_closed`: a pass resolves a due order it could resolve, unless the order is
   marked `position_closed`.
-/

namespace PolyArena

/-! ## The result of one order -/

/-- The result that is written; an exception writes none. -/
def Verdict.result : Verdict → BOResult
  | .raises => .pending
  | .missingFill => .cancelled
  | .settled result _ => result

/-- `WIN`, `LOSS` or `CANCELLED`. -/
def BOResult.resolved (r : BOResult) : Prop := r = .win ∨ r = .loss ∨ r = .cancelled

/-- The result `settle_pending_trades` leaves a due order with. -/
def BinaryOption.resultAtSettlement (bo : BinaryOption) (fetch : CandleFetch) : BOResult :=
  if bo.positionClosed then .pending
  else if bo.meOrderStatus = some .pending then .cancelled
  else
    match fetch bo.candleRequest with
    | none => .pending
    | some c => (verdict bo c).result

/-- The result `sweep_stuck_orders` leaves a stuck order with. -/
def BinaryOption.resultOfSweep (bo : BinaryOption) (fetch : CandleFetch) : BOResult :=
  match fetch bo.candleRequest with
  | none => .cancelled
  | some c => (verdict bo c).result

section

variable {base db db' : Database} {bo : BinaryOption} {c : Candle} {fetch : CandleFetch} {k : ℕ}
  {now : Time} {R R' : BinaryOption → BinaryOption → Prop}

theorem verdict_result_cancelled : (verdict bo c).result = .cancelled ↔
    verdict bo c = .missingFill := by
  cases hv : verdict bo c with
  | raises => simp [Verdict.result]
  | missingFill => simp [Verdict.result]
  | settled r p => rcases (verdict_settled hv).1 with rfl | rfl <;> simp [Verdict.result]

/-- A TP or SL exit is on record, and no fill that says at what price the shares were bought. -/
def BinaryOption.exitedUnfilled (bo : BinaryOption) : Prop :=
  bo.shadowExit.isSome = true ∧ bo.avgPrice = none

instance (bo : BinaryOption) : Decidable bo.exitedUnfilled := by
  unfold BinaryOption.exitedUnfilled
  infer_instance

theorem verdict_raises : verdict bo c = .raises ↔ bo.exitedUnfilled := by
  unfold verdict BinaryOption.exitedUnfilled
  cases bo.shadowExit with
  | some xe => cases bo.avgPrice <;> simp
  | none => cases bo.avgPrice <;> cases bo.numShares <;> simp

theorem verdict_result_resolved : (verdict bo c).result.resolved ↔ ¬ bo.exitedUnfilled := by
  rw [← verdict_raises (c := c)]
  unfold BOResult.resolved
  cases hv : verdict bo c with
  | raises => simp [Verdict.result]
  | missingFill => simp [Verdict.result]
  | settled r p => rcases (verdict_settled hv).1 with rfl | rfl <;> simp [Verdict.result]

/-- A settlement pass resolves a due order that it neither skips nor raises on. -/
theorem resultAtSettlement_resolved : (bo.resultAtSettlement fetch).resolved ↔
    bo.positionClosed = false ∧
      (bo.meOrderStatus = some .pending ∨ (fetch bo.candleRequest).isSome = true ∧
        ¬ bo.exitedUnfilled) := by
  unfold BinaryOption.resultAtSettlement
  by_cases hc : bo.positionClosed = true
  · simp [hc, BOResult.resolved]
  rw [if_neg hc]
  by_cases hu : bo.meOrderStatus = some .pending
  · simp [hc, hu, BOResult.resolved]
  rw [if_neg hu]
  cases fetch bo.candleRequest with
  | none => simp [hu, BOResult.resolved]
  | some c => simp [hc, hu, verdict_result_resolved]

theorem resultOfSweep_resolved : (bo.resultOfSweep fetch).resolved ↔
    ((fetch bo.candleRequest).isSome = true → ¬ bo.exitedUnfilled) := by
  unfold BinaryOption.resultOfSweep
  cases fetch bo.candleRequest with
  | none => simp [BOResult.resolved]
  | some c => simp [verdict_result_resolved]

/-- **The settlement of one order raises** exactly when an exit came before any fill. -/
theorem settleSingleTrade_eq_none : settleSingleTrade base db bo c = none ↔ bo.exitedUnfilled := by
  rw [← verdict_raises (c := c)]
  unfold settleSingleTrade
  cases verdict bo c <;> simp

/-- `settle_pending_trades` raises on the order. -/
def BinaryOption.raisesAtSettlement (bo : BinaryOption) (fetch : CandleFetch) : Prop :=
  bo.positionClosed = false ∧ bo.meOrderStatus ≠ some .pending ∧
    (fetch bo.candleRequest).isSome = true ∧
    bo.exitedUnfilled

theorem settlePendingOne_eq_none : settlePendingOne fetch base db bo = none ↔
    bo.result = .pending ∧ bo.raisesAtSettlement fetch := by
  unfold settlePendingOne BinaryOption.raisesAtSettlement
  by_cases hp : bo.result = .pending
  swap
  · simp [hp]
  rw [if_neg (not_not.mpr hp)]
  by_cases hc : bo.positionClosed = true
  · simp [hc]
  rw [if_neg hc]
  by_cases hu : bo.meOrderStatus = some .pending
  · simp [hu]
  rw [if_neg hu]
  cases fetch bo.candleRequest with
  | none => simp
  | some c => simp [settleSingleTrade_eq_none, hp, hc, hu]

theorem sweepStuckOne_eq_none : sweepStuckOne fetch base db bo = none ↔
    bo.result = .pending ∧ (fetch bo.candleRequest).isSome = true ∧ bo.exitedUnfilled := by
  unfold sweepStuckOne
  by_cases hp : bo.result = .pending
  swap
  · simp [hp]
  rw [if_neg (not_not.mpr hp)]
  cases fetch bo.candleRequest with
  | none => simp
  | some c => simp [settleSingleTrade_eq_none, hp]

theorem sweepOrphanOne_ne_none : sweepOrphanOne base db bo ≠ none := by
  unfold sweepOrphanOne
  split <;> nofun

/-! ## One order of a pass -/

/-- A loop body works on the order it is given alone, and leaves it as `R` says. -/
def WritesRow (f : Database → BinaryOption → Option Database)
    (R : BinaryOption → BinaryOption → Prop) :
    Prop :=
  ∀ db bo db', db.orders.get bo.id = some bo → bo.result = .pending → f db bo = some db' →
    OnlyOrder bo.id db db' ∧ ∃ bo', db'.orders.get bo.id = some bo' ∧ R bo bo'

/-- The order keeps its settlement time and ends with the result `r` names. -/
def EndsWith (r : BinaryOption → BOResult) (bo bo' : BinaryOption) : Prop :=
  bo'.settlementAt = bo.settlementAt ∧ bo'.result = r bo

theorem settleSingleTrade_row (hget : db.orders.get bo.id = some bo)
    (hs : settleSingleTrade base db bo c = some db') :
    ∃ p a, db'.orders.get bo.id = some (settledRow bo c (verdict bo c).result p a) := by
  have hput : ∀ result profit a, (db.orders.put (settledRow bo c result profit a)).get bo.id =
      some (settledRow bo c result profit a) := fun result profit a =>
    Table.get_put_self (a := settledRow bo c result profit a) hget
  cases settles_of_some hs with
  | missingFill hv =>
    refine ⟨0, .missingFillCancel, ?_⟩
    simpa [hv, Verdict.result] using hput .cancelled 0 .missingFillCancel
  | settled r p hv =>
    refine ⟨p, .candleSettled, ?_⟩
    simpa [hv, Verdict.result] using hput r p .candleSettled

theorem cancelWithRefund_row {row : BinaryOption} (hget : db.orders.get row.id = some bo) :
    (cancelWithRefund base db row).orders.get row.id = some (cancelledRow row) := by
  have hput : (db.orders.put (cancelledRow row)).get row.id = some (cancelledRow row) :=
    Table.get_put_self (a := cancelledRow row) hget
  simpa [cancelWithRefund] using hput

theorem settlePendingOne_row (fetch : CandleFetch) (base : Database) :
    WritesRow (settlePendingOne fetch base) (EndsWith (·.resultAtSettlement fetch)) := by
  intro db bo db' hget hp hf
  unfold settlePendingOne at hf
  rw [if_neg (not_not.mpr hp)] at hf
  show OnlyOrder bo.id db db' ∧ ∃ bo', db'.orders.get bo.id = some bo' ∧
    bo'.settlementAt = bo.settlementAt ∧ bo'.result = bo.resultAtSettlement fetch
  unfold BinaryOption.resultAtSettlement
  by_cases hc : bo.positionClosed = true
  · rw [if_pos hc, Option.some.injEq] at hf
    subst hf
    rw [if_pos hc]
    exact ⟨fun _ _ => rfl, bo, hget, rfl, hp⟩
  rw [if_neg hc] at hf ⊢
  by_cases hu : bo.meOrderStatus = some .pending
  · rw [if_pos hu, Option.some.injEq] at hf
    subst hf
    rw [if_pos hu]
    exact ⟨onlyOrder_cancelWithRefund (unfilledRow bo), cancelledRow (unfilledRow bo),
      cancelWithRefund_row hget, rfl, rfl⟩
  rw [if_neg hu] at hf ⊢
  cases hfe : fetch bo.candleRequest with
  | none =>
    rw [hfe, Option.some.injEq] at hf
    subst hf
    exact ⟨fun _ _ => rfl, bo, hget, rfl, hp⟩
  | some c =>
    rw [hfe] at hf
    obtain ⟨p, a, hget'⟩ := settleSingleTrade_row hget hf
    exact ⟨onlyOrder_settleSingleTrade hf, _, hget', rfl, rfl⟩

theorem sweepStuckOne_row (fetch : CandleFetch) (base : Database) :
    WritesRow (sweepStuckOne fetch base) (EndsWith (·.resultOfSweep fetch)) := by
  intro db bo db' hget hp hf
  unfold sweepStuckOne at hf
  rw [if_neg (not_not.mpr hp)] at hf
  show OnlyOrder bo.id db db' ∧ ∃ bo', db'.orders.get bo.id = some bo' ∧
    bo'.settlementAt = bo.settlementAt ∧ bo'.result = bo.resultOfSweep fetch
  unfold BinaryOption.resultOfSweep
  cases hfe : fetch bo.candleRequest with
  | none =>
    rw [hfe, Option.some.injEq] at hf
    subst hf
    exact ⟨onlyOrder_cancelWithRefund _, cancelledRow bo, cancelWithRefund_row hget, rfl, rfl⟩
  | some c =>
    rw [hfe] at hf
    obtain ⟨p, a, hget'⟩ := settleSingleTrade_row hget hf
    exact ⟨onlyOrder_settleSingleTrade hf, _, hget', rfl, rfl⟩

theorem sweepOrphanOne_row (base : Database) :
    WritesRow (sweepOrphanOne base) (EndsWith fun _ => .cancelled) := by
  intro db bo db' hget hp hf
  unfold sweepOrphanOne at hf
  rw [if_neg (not_not.mpr hp), Option.some.injEq] at hf
  subst hf
  exact ⟨onlyOrder_cancelWithRefund _, cancelledRow bo, cancelWithRefund_row hget, rfl, rfl⟩

/-! ## A pass -/

/-- **The loop of a pass** leaves the listed orders as the body leaves each, and the others
alone. -/
theorem foldlM_rows {f : Database → BinaryOption → Option Database} (hf : WritesRow f R) :
    ∀ (rows : List BinaryOption) (db db' : Database), (rows.map BinaryOption.id).Nodup →
      (∀ r ∈ rows, db.orders.get r.id = some r ∧ r.result = .pending) →
        rows.foldlM f db = some db' →
        ∀ k bo, db.orders.get k = some bo → ∃ bo', db'.orders.get k = some bo' ∧
          if bo ∈ rows then R bo bo' else bo' = bo := by
  intro rows
  induction rows with
  | nil =>
    intro db db' _ _ hrun k bo hget
    rw [List.foldlM_nil] at hrun
    cases hrun
    exact ⟨bo, hget, rfl⟩
  | cons r rs ih =>
    intro db db' hnd hrows hrun k bo hget
    rw [List.map_cons, List.nodup_cons] at hnd
    rw [List.foldlM_cons] at hrun
    obtain ⟨mid, hmid, hrest⟩ := Option.bind_eq_some_iff.mp hrun
    obtain ⟨hr, hp⟩ := hrows r List.mem_cons_self
    obtain ⟨honly, r', hr', hR⟩ := hf db r mid hr hp hmid
    have hne : ∀ x ∈ rs, x.id ≠ r.id := fun x hx e => hnd.1 (e ▸ List.mem_map_of_mem hx)
    have hrows' : ∀ x ∈ rs, mid.orders.get x.id = some x ∧ x.result = .pending := by
      intro x hx
      rw [honly _ (hne x hx)]
      exact hrows x (List.mem_cons_of_mem _ hx)
    have hkey := Table.key_of_get hget
    by_cases hk : k = r.id
    · -- the rest of the loop leaves the order alone
      have hbo : bo = r := by
        rw [hk, hr, Option.some.injEq] at hget
        exact hget.symm
      subst hbo
      obtain ⟨bo', hget', hrow⟩ := ih mid db' hnd.2 hrows' hrest bo.id r' hr'
      have hmem : r' ∉ rs := fun h => hne r' h (Table.key_of_get hr')
      rw [if_neg hmem] at hrow
      subst hrow
      refine ⟨bo', hk ▸ hget', ?_⟩
      rw [if_pos List.mem_cons_self]
      exact hR
    · obtain ⟨bo', hget', hrow⟩ := ih mid db' hnd.2 hrows' hrest k bo ((honly k hk).trans hget)
      refine ⟨bo', hget', ?_⟩
      have hbo : bo ≠ r := fun e => hk (by rw [← hkey, e])
      simpa [hbo] using hrow

/-- **One order that raises ends the loop**, wherever it stands. -/
theorem foldlM_eq_none {f : Database → BinaryOption → Option Database} {P : BinaryOption → Prop}
    (hf : ∀ db bo, f db bo = none ↔ P bo) (rows : List BinaryOption) (db : Database) :
    rows.foldlM f db = none ↔ ∃ r ∈ rows, P r := by
  induction rows generalizing db with
  | nil => simp
  | cons r rs ih =>
    rw [List.foldlM_cons]
    cases hr : f db r with
    | none => simp [(hf db r).mp hr]
    | some mid =>
      have hnot : ¬ P r := fun h => by
        rw [(hf db r).mpr h] at hr
        cases hr
      simp [ih mid, hnot]

theorem pending_of_mem_filter {p : BinaryOption → Bool} {r : BinaryOption}
    (hp : ∀ r, p r = true → r.result = .pending) (hr : r ∈ db.orders.rows.filter p) :
    db.orders.get r.id = some r ∧ r.result = .pending :=
  ⟨get_of_mem_filter hr, hp r (List.mem_filter.mp hr).2⟩

theorem isDue_pending (h : isDue now bo = true) : bo.result = .pending :=
  (of_decide_eq_true h).1

theorem isStuck_pending (h : isStuck now bo = true) : bo.result = .pending :=
  (of_decide_eq_true h).1

theorem isOrphaned_pending (h : isOrphaned now bo = true) : bo.result = .pending :=
  (of_decide_eq_true h).1

/-- A stuck order has a settlement time, an orphaned one has none. -/
theorem isStuck_not_isOrphaned (h : isStuck now bo = true) : isOrphaned now bo = false := by
  obtain ⟨-, t, ht, -⟩ := of_decide_eq_true h
  refine decide_eq_false fun horphaned => ?_
  rw [horphaned.2.1] at ht
  cases ht

/-- An order of the table is in the selection exactly when it has the property. -/
theorem mem_filter_iff {p : BinaryOption → Bool} (h : db.orders.get k = some bo) :
    bo ∈ db.orders.rows.filter p ↔ p bo = true :=
  ⟨fun h => (List.mem_filter.mp h).2, fun hp => List.mem_filter.mpr ⟨Table.mem_of_get h, hp⟩⟩

theorem settlePending_rows (hf : WritesRow (settlePendingOne fetch db) R)
    (hs : settlePendingTrades now fetch db = some db') (hget : db.orders.get k = some bo) :
    ∃ bo', db'.orders.get k = some bo' ∧ if isDue now bo then R bo bo' else bo' = bo := by
  obtain ⟨bo', hget', hrow⟩ := foldlM_rows hf _ db db' (nodup_filter_ids db _)
    (fun _ hr => pending_of_mem_filter (fun _ => isDue_pending) hr) hs k bo hget
  refine ⟨bo', hget', ?_⟩
  simpa only [mem_filter_iff hget] using hrow

theorem sweepStuck_rows (hf : WritesRow (sweepStuckOne fetch db) R)
    (hf' : WritesRow (sweepOrphanOne db) R') (hs : sweepStuckOrders now fetch db = some db')
    (hget : db.orders.get k = some bo) :
    ∃ bo', db'.orders.get k = some bo' ∧
      if isStuck now bo then R bo bo' else if isOrphaned now bo then R' bo bo' else bo' = bo := by
  obtain ⟨mid, hmid, hrest⟩ := Option.bind_eq_some_iff.mp hs
  have hfirst := foldlM_rows hf _ db mid (nodup_filter_ids db _)
    (fun _ hr => pending_of_mem_filter (fun _ => isStuck_pending) hr) hmid
  -- the first loop leaves the rows of the second alone
  have horphans : ∀ r ∈ db.orders.rows.filter (isOrphaned now),
      mid.orders.get r.id = some r ∧ r.result = .pending := by
    intro r hr
    obtain ⟨hgetr, hp⟩ := pending_of_mem_filter (fun _ => isOrphaned_pending) hr
    obtain ⟨r', hr', hrow⟩ := hfirst r.id r hgetr
    have hnot : r ∉ db.orders.rows.filter (isStuck now) := by
      intro hstuck
      have horphan := (List.mem_filter.mp hr).2
      rw [isStuck_not_isOrphaned ((mem_filter_iff hgetr).mp hstuck)] at horphan
      cases horphan
    rw [if_neg hnot] at hrow
    exact ⟨hrow ▸ hr', hp⟩
  have hsecond := foldlM_rows hf' _ mid db' (nodup_filter_ids db _) horphans hrest
  obtain ⟨x, hx, hrowx⟩ := hfirst k bo hget
  obtain ⟨bo', hget', hrow⟩ := hsecond k x hx
  refine ⟨bo', hget', ?_⟩
  simp only [mem_filter_iff hget] at hrowx
  by_cases hstuck : isStuck now bo = true
  · rw [if_pos hstuck] at hrowx ⊢
    -- the second loop does not come back to it
    have hnot : x ∉ db.orders.rows.filter (isOrphaned now) := by
      intro h
      have hgetx : db.orders.get x.id = some x := get_of_mem_filter h
      rw [Table.key_of_get hx, hget, Option.some.injEq] at hgetx
      have horphan := (List.mem_filter.mp h).2
      rw [← hgetx, isStuck_not_isOrphaned hstuck] at horphan
      cases horphan
    rw [if_neg hnot] at hrow
    rwa [hrow]
  · rw [if_neg hstuck] at hrowx ⊢
    subst hrowx
    simpa only [mem_filter_iff hget] using hrow

/-- A settlement pass raises on one due order, and is rolled back. -/
theorem settlePending_eq_none : settlePendingTrades now fetch db = none ↔
    ∃ bo ∈ db.orders.rows, isDue now bo = true ∧ bo.raisesAtSettlement fetch := by
  unfold settlePendingTrades
  rw [foldlM_eq_none (f := settlePendingOne fetch db) fun _ _ => settlePendingOne_eq_none]
  constructor
  · rintro ⟨bo, hbo, -, hraises⟩
    exact ⟨bo, (List.mem_filter.mp hbo).1, (List.mem_filter.mp hbo).2, hraises⟩
  · rintro ⟨bo, hbo, hdue, hraises⟩
    exact ⟨bo, List.mem_filter.mpr ⟨hbo, hdue⟩, isDue_pending hdue, hraises⟩

/-- So does a sweep on a stuck order. -/
theorem sweepStuck_eq_none : sweepStuckOrders now fetch db = none ↔
    ∃ bo ∈ db.orders.rows, isStuck now bo = true ∧ (fetch bo.candleRequest).isSome = true ∧
      bo.exitedUnfilled := by
  have horphans : ∀ mid, (db.orders.rows.filter (isOrphaned now)).foldlM
      (sweepOrphanOne db) mid ≠ none := by
    intro mid h
    obtain ⟨-, -, hfalse⟩ := (foldlM_eq_none (P := fun _ => False)
      (fun _ _ => iff_of_false sweepOrphanOne_ne_none not_false) _ mid).mp h
    exact hfalse
  have hfirst : sweepStuckOrders now fetch db = none ↔
      (db.orders.rows.filter (isStuck now)).foldlM (sweepStuckOne fetch db) db = none := by
    show Option.bind _ _ = none ↔ _
    rw [Option.bind_eq_none_iff]
    refine ⟨fun h => ?_, fun h mid hmid => ?_⟩
    · exact Option.eq_none_iff_forall_not_mem.mpr fun mid hmid => horphans mid (h mid hmid)
    · rw [h] at hmid
      cases hmid
  rw [hfirst, foldlM_eq_none (f := sweepStuckOne fetch db) fun _ _ => sweepStuckOne_eq_none]
  constructor
  · rintro ⟨bo, hbo, -, hraises⟩
    exact ⟨bo, (List.mem_filter.mp hbo).1, (List.mem_filter.mp hbo).2, hraises⟩
  · rintro ⟨bo, hbo, hstuck, hraises⟩
    exact ⟨bo, List.mem_filter.mpr ⟨hbo, hstuck⟩, isStuck_pending hstuck, hraises⟩

/-- **What a settlement pass leaves.** -/
theorem settlePending_result (hs : settlePendingTrades now fetch db = some db')
    (hget : db.orders.get k = some bo) : ∃ bo', db'.orders.get k = some bo' ∧
      if isDue now bo then EndsWith (·.resultAtSettlement fetch) bo bo' else bo' = bo :=
  settlePending_rows (settlePendingOne_row fetch db) hs hget

/-- **What a sweep leaves.** -/
theorem sweepStuck_result (hs : sweepStuckOrders now fetch db = some db')
    (hget : db.orders.get k = some bo) : ∃ bo', db'.orders.get k = some bo' ∧
      if isStuck now bo then EndsWith (·.resultOfSweep fetch) bo bo'
      else if isOrphaned now bo then EndsWith (fun _ => .cancelled) bo bo' else bo' = bo :=
  sweepStuck_rows (sweepStuckOne_row fetch db) (sweepOrphanOne_row db) hs hget

/-! ## Due orders -/

/-- **A settlement pass resolves a due order** whose candle can be fetched, or that was never
filled, exactly when it is not marked `position_closed`. -/
theorem resolved_iff_not_closed (hs : settlePendingTrades now fetch db = some db')
    (hget : db.orders.get k = some bo) (hdue : isDue now bo = true)
    (hable : (fetch bo.candleRequest).isSome = true ∨ bo.meOrderStatus = some .pending) :
    (∃ bo', db'.orders.get k = some bo' ∧ bo'.result.resolved) ↔ bo.positionClosed = false := by
  obtain ⟨bo', hget', hrow⟩ := settlePending_result hs hget
  rw [if_pos hdue] at hrow
  have hresult : bo'.result = bo.resultAtSettlement fetch := hrow.2
  have hresolved : (∃ x, db'.orders.get k = some x ∧ x.result.resolved) ↔
      (bo.resultAtSettlement fetch).resolved := by
    rw [hget', ← hresult]
    simp
  have hraises : ¬ bo.raisesAtSettlement fetch := fun h => by
    rw [settlePending_eq_none.mpr ⟨bo, Table.mem_of_get hget, hdue, h⟩] at hs
    cases hs
  rw [hresolved, resultAtSettlement_resolved]
  refine ⟨And.left, fun hopen => ⟨hopen, ?_⟩⟩
  by_cases hu : bo.meOrderStatus = some .pending
  · exact .inl hu
  · have hcandle := hable.resolve_right hu
    exact .inr ⟨hcandle, fun h => hraises ⟨hopen, hu, hcandle, h⟩⟩

end

/-- `alpha` holds an order of `10` that is due and was filled: twenty shares at `0.50`. -/
def filledDueDb : Database where
  bots := ⟨[{ botName := "alpha", apiKey := "k", initialBalance := 100, balance := 90 }],
    nodup_sampleBot⟩
  orders := ⟨[{ id := 1, botName := "alpha", symbol := .btc, timeframe := .m5, forecast := .green,
                amount := 10, avgPrice := some (1 / 2), numShares := some 20,
                  settlementAt := some 900,
                meOrderStatus := some .filled }], by simp⟩
  users := ⟨[], List.nodup_nil⟩

/-- A green candle for every request. -/
def greenCandles : CandleFetch := fun _ => some ⟨100, 101⟩

theorem resolved_iff_not_closed_filledDue : ∃ db' bo,
    settlePendingTrades 1000 greenCandles filledDueDb = some db' ∧
      filledDueDb.orders.get 1 = some bo ∧
      ((∃ bo', db'.orders.get 1 = some bo' ∧ bo'.result.resolved) ↔ bo.positionClosed = false) := by
  have hpass : (settlePendingTrades 1000 greenCandles filledDueDb).isSome = true := by
    decide +kernel
  obtain ⟨db', hs⟩ := Option.isSome_iff_exists.mp hpass
  exact ⟨db', _, hs, rfl, resolved_iff_not_closed hs rfl (by decide +kernel) (.inl rfl)⟩

/-- **The market resolves before the pass**: the due order, whose candle is there, stays pending. It
is won when the message does not come. -/
theorem resolved_market_stays_pending :
    (settlePendingTrades 1000 greenCandles (handleMarketResolved filledDueDb [1]).1).map
        (fun db => db.orders.rows.map BinaryOption.result) = some [.pending] ∧
      (settlePendingTrades 1000 greenCandles filledDueDb).map
        (fun db => db.orders.rows.map BinaryOption.result) = some [.win] := by
  decide +kernel

end PolyArena
