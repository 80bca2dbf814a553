import PolyArena.Recorded

/-!
# One order that raises blocks a pass

A settlement pass has one loop and one commit.  `_settle_single_trade` subtracts the average price,
so it raises on an order whose exit was recorded before any fill; the exception leaves the loop and
nothing of the pass is committed.

1. `fillBeforeExit` is the step that never makes such an order, and `exits_filled` the invariant of
   the runs made of such steps.
2. `batches_isolated`: in every state of such a run a settlement pass and a sweep commit, and
   resolve every order that they can resolve.
3. `exit_before_fill_blocks`: a bracket exit that is handled before the fill of its order keeps a
   pass from settling any order.
-/

namespace PolyArena

/-! ## Rows that can be settled -/

/-- The exit on record stays, and so does the average price once there is one. -/
structure KeepsFill (bo row : BinaryOption) : Prop where
  exit : row.shadowExit = bo.shadowExit
  price : bo.avgPrice ≠ none → row.avgPrice ≠ none

theorem KeepsRecord.keepsFill {bo row : BinaryOption} (h : KeepsRecord bo row) : KeepsFill bo row :=
  ⟨h.exit, h.price⟩

theorem KeepsFill.not_exitedUnfilled {bo row : BinaryOption} (h : KeepsFill bo row)
    (hbo : ¬ bo.exitedUnfilled) : ¬ row.exitedUnfilled := by
  rintro ⟨hexit, hprice⟩
  rw [h.exit] at hexit
  exact hbo ⟨hexit, by_contra fun hne => h.price hne hprice⟩

/-- A bracket exit leaves a row that can be settled when a fill came first, and when it is a forced
close, which a settlement does not look at. -/
theorem exitRow_settles {now : Time} {bo : BinaryOption} {m : ExitMessage}
    (hfilled : m.trigger ≠ .forceClose → bo.avgPrice ≠ none) :
    ¬ (exitRow now bo m).exitedUnfilled := by
  rintro ⟨hexit, hprice⟩
  by_cases hforced : m.trigger = .forceClose
  · have htrigger : (exitRow now bo m).exitTrigger = some .forceClose := congrArg some hforced
    rw [BinaryOption.shadowExit_of_forceClose htrigger] at hexit
    cases hexit
  · exact hfilled hforced hprice

/-! ## Runs -/

namespace BalanceTransaction

/-- One transaction after the other. -/
def step (db : Database) (t : BalanceTransaction) : Option Database := some (t.apply db)

/-- A TP or SL exit is not handled on an open order before a fill of it was. -/
def fillBeforeExit (db : Database) : BalanceTransaction → Bool
  | exit _ m => m.trigger = .forceClose ∨
      (db.orders.get m.boId).all fun bo =>
        bo.exitTrigger ≠ none ∨ bo.result ≠ .pending ∨ bo.avgPrice ≠ none
  | _ => true

end BalanceTransaction

/-- No order was exited before it was filled. -/
def ExitsFilled (db : Database) : Prop := ∀ bo ∈ db.orders.rows, ¬ bo.exitedUnfilled

section Runs

variable {db db₀ : Database} {t : BalanceTransaction}

/-- **One transaction** that does not handle an exit before the fill. -/
theorem exitsFilled_apply (h : ExitsFilled db) (hguard : t.fillBeforeExit db = true) :
    ExitsFilled (t.apply db) := by
  intro row hrow
  replace hrow : row ∈ (t.txn.run db.accounts).orders.rows := accounts_apply db t ▸ hrow
  cases run_txn_origin t hrow with
  | kept hold => exact h row hold
  | created hpath hd =>
    rw [hd]
    rintro ⟨hexit, -⟩
    rw [BinaryOption.shadowExit, choosePath_exit hpath] at hexit
    cases hexit
  | @booked phase bo b hphase hmem hselect hdecide hb =>
    rw [hb]
    rcases booked_record hphase hselect hdecide with hkeeps | ⟨now, m, rfl, hget, hopen,
      hpending, hexit⟩
    · exact hkeeps.keepsFill.not_exitedUnfilled (h bo hmem)
    · rw [hexit]
      refine exitRow_settles fun htrigger => ?_
      have hrow := (of_decide_eq_true hguard).resolve_left htrigger
      rw [show db.orders.get m.boId = some bo from hget] at hrow
      exact ((of_decide_eq_true hrow).resolve_left (not_not.mpr hopen)).resolve_left
        (not_not.mpr hpending)

/-- **A run** in which every exit is handled after a fill. -/
theorem exits_filled
    (h : Run BalanceTransaction.step (fun db t => t.fillBeforeExit db = true) db₀ db)
    (hnew : db₀.orders.rows = []) : ExitsFilled db := by
  refine h.invariant ExitsFilled ?_ fun s t s' hs hguard hstep => ?_
  · intro bo hbo
    rw [hnew] at hbo
    cases hbo
  · cases hstep
    exact exitsFilled_apply hs hguard

/-- What a settlement pass and a sweep owe to the orders they can resolve, whatever else is in the
batch. -/
structure Isolated (db : Database) : Prop where
  settles : ∀ bo ∈ db.orders.rows, ∀ base session c, settleSingleTrade base session bo c ≠ none
  pass : ∀ now fetch, ∃ db', settlePendingTrades now fetch db = some db' ∧
    ∀ k bo, db.orders.get k = some bo → isDue now bo = true → bo.positionClosed = false →
      (bo.meOrderStatus = some .pending ∨ (fetch bo.candleRequest).isSome = true) →
        ∃ bo', db'.orders.get k = some bo' ∧ bo'.result.resolved
  sweep : ∀ now fetch, ∃ db', sweepStuckOrders now fetch db = some db' ∧
    ∀ k bo, db.orders.get k = some bo → isStuck now bo = true ∨ isOrphaned now bo = true →
      ∃ bo', db'.orders.get k = some bo' ∧ bo'.result.resolved

theorem Isolated.of_exitsFilled (h : ExitsFilled db) : Isolated db := by
  constructor
  · intro bo hbo base session c hraises
    exact h bo hbo (settleSingleTrade_eq_none.mp hraises)
  · intro now fetch
    have hcommits : settlePendingTrades now fetch db ≠ none := by
      intro hnone
      obtain ⟨bo, hbo, -, hraises⟩ := settlePending_eq_none.mp hnone
      exact h bo hbo hraises.2.2.2
    obtain ⟨db', hs⟩ := Option.ne_none_iff_exists'.mp hcommits
    refine ⟨db', hs, fun k bo hget hdue hopen hable => ?_⟩
    obtain ⟨bo', hget', hrow⟩ := settlePending_result hs hget
    rw [if_pos hdue] at hrow
    have hresult : bo'.result = bo.resultAtSettlement fetch := hrow.2
    refine ⟨bo', hget', ?_⟩
    rw [hresult, resultAtSettlement_resolved]
    exact ⟨hopen, hable.imp_right fun hcandle => ⟨hcandle, h bo (Table.mem_of_get hget)⟩⟩
  · intro now fetch
    have hcommits : sweepStuckOrders now fetch db ≠ none := by
      intro hnone
      obtain ⟨bo, hbo, -, -, hraises⟩ := sweepStuck_eq_none.mp hnone
      exact h bo hbo hraises
    obtain ⟨db', hs⟩ := Option.ne_none_iff_exists'.mp hcommits
    refine ⟨db', hs, fun k bo hget hselected => ?_⟩
    obtain ⟨bo', hget', hrow⟩ := sweepStuck_result hs hget
    refine ⟨bo', hget', ?_⟩
    by_cases hstuck : isStuck now bo = true
    · rw [if_pos hstuck] at hrow
      have hresult : bo'.result = bo.resultOfSweep fetch := hrow.2
      rw [hresult, resultOfSweep_resolved]
      exact fun _ => h bo (Table.mem_of_get hget)
    · rw [if_neg hstuck, if_pos (hselected.resolve_left hstuck)] at hrow
      exact .inr (.inr hrow.2)

/-- **Batches are isolated** in every run in which no TP or SL exit is handled on an open order
before a fill of it: `_settle_single_trade` raises on no order, and a settlement pass and a sweep
resolve every order they can resolve. -/
theorem batches_isolated
    (h : Run BalanceTransaction.step (fun db t => t.fillBeforeExit db = true) db₀ db)
    (hnew : db₀.orders.rows = []) : Isolated db :=
  .of_exitsFilled (exits_filled h hnew)

end Runs

/-! ## Two samples -/

/-- A LIMIT order of `10` at `0.50` with a take profit at `0.75`. -/
def bracketRequest : BOCreate :=
  { limitRequest with
    tpPrice := some (3 / 4)
    tpPrice_in_range := by intro p hp; cases hp; norm_num }

/-- `alpha` queues the order `1`, which has a take profit. -/
def queueBracket : BalanceTransaction :=
  .createBo 1000 "k" bracketRequest asksAboveLimit asksAboveLimit 1

/-- `alpha` buys ten shares for the order `2`. -/
def buyAtOnce : BalanceTransaction := .createBo 1000 "k" limitRequest thinAsks thinAsks 2

/-- The twenty shares of the order `1` are bought at `0.50`. -/
def bracketFill : BalanceTransaction := .fill ⟨1, some 7, 20, 1 / 2, .filled, none⟩

/-- They are sold at the take profit. -/
def bracketExit : BalanceTransaction := .exit 1100 ⟨1, .tp, 4 / 5, 20, some 7, some 1100, none⟩

theorem batches_isolated_fill_exit : ∃ db, Isolated db ∧
    (settlePendingTrades 2000 greenCandles db).map
      (fun db => db.orders.rows.map BinaryOption.result) =
      some [.win, .win] := by
  have hexec : (exec BalanceTransaction.step (fun db t => t.fillBeforeExit db = true) oneBotDb
      [queueBracket, buyAtOnce, bracketFill, bracketExit]).map (fun db =>
        (settlePendingTrades 2000 greenCandles db).map
          (fun db => db.orders.rows.map BinaryOption.result)) =
      some (some [.win, .win]) := by
    decide +kernel
  obtain ⟨db, hdb, hpass⟩ := Option.map_eq_some_iff.mp hexec
  exact ⟨db, batches_isolated (run_of_exec hdb) rfl, hpass⟩

/-- **The exit is handled before the fill**: the order `1` cannot be settled any more, and the pass
raises and commits nothing, although the order `2` alone would be won. -/
theorem exit_before_fill_blocks : ∃ db,
    Run BalanceTransaction.step (fun _ _ => True) oneBotDb db ∧
      settlePendingTrades 2000 greenCandles db = none ∧
      db.orders.rows.map (fun bo => (isDue 2000 bo,
        (settleSingleTrade db db bo ⟨100, 101⟩).isSome)) =
        [(true, false), (true, true)] := by
  have hexec : (exec BalanceTransaction.step (fun _ _ => True) oneBotDb
      [queueBracket, buyAtOnce, bracketExit]).map (fun db =>
        ((settlePendingTrades 2000 greenCandles db).isNone,
          db.orders.rows.map fun bo =>
            (isDue 2000 bo, (settleSingleTrade db db bo ⟨100, 101⟩).isSome))) =
      some (true, [(true, false), (true, true)]) := by
    decide +kernel
  obtain ⟨db, hdb, hpair⟩ := Option.map_eq_some_iff.mp hexec
  rw [Prod.mk.injEq] at hpair
  exact ⟨db, run_of_exec hdb, Option.isNone_iff_eq_none.mp hpair.1, hpair.2⟩

end PolyArena
