import PolyArena.Sessions

/-!
# The functions and their transactions

Alone, the reads and the commit of a transaction do to the bots and the orders what its function
does to the database (`accounts_apply`).  Each function is read as bookings: a loop body of a pass
`Follows` its decision, and so does the whole pass (`Follows.foldlM`).
-/

namespace PolyArena

open Rounding

/-! ## The functions book what their transactions book -/

/-- The accounts after a decision that does not raise. -/
def outcome (x : Accounts) {bo : BinaryOption} : Option (Booking bo) → Accounts
  | none => x
  | some b => Booked.book x ⟨bo, b⟩

section Functions

variable {base db db' : Database} {bo row : BinaryOption} {name : BotName} {x : ℚ} {now : Time}
  {fetch : CandleFetch}

theorem creditBot_rows : (db.creditBot name x).bots.rows = db.bots.rows.map fun bot =>
    if bot.botName = name then { bot with balance := round8 (bot.balance + x) } else bot := by
  rw [← Table.modify_rows name (t := db.bots)
    (f := fun bot => { bot with balance := round8 (bot.balance + x) }) fun _ => rfl]
  unfold Database.creditBot
  cases db.bots.get name <;> rfl

theorem pauseIfBroke_rows : (db.pauseIfBroke name).bots.rows = db.bots.rows.map fun bot =>
    if bot.botName = name then if bot.balance ≤ 0 then { bot with status := .paused } else bot
    else bot := by
  rw [← Table.modify_rows name (t := db.bots)
    (f := fun bot => if bot.balance ≤ 0 then { bot with status := .paused } else bot)
    fun bot => by split <;> rfl]
  unfold Database.pauseIfBroke
  cases hget : db.bots.get name with
  | none => rfl
  | some bot =>
    dsimp only
    split
    · rfl
    · rw [Table.put_of_get (Table.get_key_of_get hget)]

theorem pauseIfBroke_bots (name : BotName) (h : db'.bots = db.bots) :
    (db'.pauseIfBroke name).bots = (db.pauseIfBroke name).bots :=
  Table.ext_rows (by rw [pauseIfBroke_rows, pauseIfBroke_rows, h])

/-- A row is overwritten and its bot is credited. -/
theorem accounts_eq_book (b : Booking bo) (horders : db'.orders = db.orders.put b.row)
    (hbots : db'.bots.rows = db.bots.rows.map fun bot => Booked.onBot ⟨bo, b⟩ bot) :
    db'.accounts = Booked.book db.accounts ⟨bo, b⟩ := by
  refine Accounts.ext_rows hbots ?_
  show db'.orders.rows = _
  rw [horders]
  rfl

/-- A row is overwritten and nothing is credited. -/
theorem accounts_setOrder (b : Booking bo) (hrow : row = b.row) (hcredit : b.credit = none) :
    (db.setOrder row).accounts = Booked.book db.accounts ⟨bo, b⟩ := by
  subst hrow
  refine accounts_eq_book b rfl ?_
  have hsame : ∀ bot, Booked.onBot ⟨bo, b⟩ bot = bot := by
    intro bot
    unfold Booked.onBot Booking.onBot
    rw [hcredit]
    split <;> rfl
  simp [hsame]

/-- A row is overwritten and its bot is credited, without a check for bankruptcy. -/
theorem accounts_creditBot (b : Booking bo) (hrow : row = b.row) (hcredit : b.credit = some x)
    (hpausing : b.pausing = false) :
    ((db.setOrder row).creditBot bo.botName x).accounts = Booked.book db.accounts ⟨bo, b⟩ := by
  subst hrow
  refine accounts_eq_book b (by simp) ?_
  rw [creditBot_rows]
  refine List.map_congr_left fun bot _ => ?_
  simp [Booked.onBot, Booking.onBot, hcredit, hpausing]

/-- A row is overwritten, its bot is credited and paused when that leaves it broke. -/
theorem accounts_pauseIfBroke (b : Booking bo) (hrow : row = b.row) (hcredit : b.credit = some x)
    (hpausing : b.pausing = true) :
    (((db.setOrder row).creditBot bo.botName x).pauseIfBroke bo.botName).accounts =
      Booked.book db.accounts ⟨bo, b⟩ := by
  subst hrow
  refine accounts_eq_book b (by simp) ?_
  rw [pauseIfBroke_rows, creditBot_rows, List.map_map]
  refine List.map_congr_left fun bot _ => ?_
  by_cases hname : bot.botName = bo.botName
  · simp [Booked.onBot, Booking.onBot, hcredit, hpausing, hname]
  · simp [Booked.onBot, hname]

/-- The histories are not part of the accounts. -/
theorem accounts_congr (hbots : db'.bots = db.bots) (horders : db'.orders = db.orders) :
    db'.accounts = db.accounts := by
  unfold Database.accounts
  rw [hbots, horders]

theorem accounts_settleSingleTrade (c : Candle) (h : bo.result = .pending) :
    (settleSingleTrade base db bo c).map Database.accounts =
      (decideSettlement bo c h).map (outcome db.accounts) := by
  unfold settleSingleTrade decideSettlement
  cases verdict bo c with
  | raises => rfl
  | missingFill =>
    refine congrArg some ?_
    exact (accounts_congr (by simp) (by simp)).trans (accounts_creditBot _ rfl rfl rfl)
  | settled result profit =>
    refine congrArg some ?_
    refine (accounts_congr ?_ (by simp)).trans (accounts_pauseIfBroke _ rfl rfl rfl)
    rw [recordUserBalance_bots]
    exact pauseIfBroke_bots _ (by simp)

theorem accounts_cancelWithRefund (row : BinaryOption) (hid : row.id = bo.id)
    (hname : row.botName = bo.botName) (hamount : row.amount = bo.amount)
    (h : bo.result = .pending) :
    some (cancelWithRefund base db row).accounts =
      (decideRefund bo row hid h).map (outcome db.accounts) := by
  refine congrArg some ?_
  unfold cancelWithRefund
  rw [hname, hamount]
  exact (accounts_congr (by simp) (by simp)).trans (accounts_creditBot _ rfl rfl rfl)

/-! ### The passes -/

/-- A loop body does to the accounts what `decide` books. -/
def Follows (f : Database → BinaryOption → Option Database) (decide : ∀ bo, Decision bo) : Prop :=
  ∀ db bo, (f db bo).map Database.accounts = (decide bo).map (outcome db.accounts)

theorem follows_settlePendingOne (fetch : CandleFetch) (base : Database) :
    Follows (settlePendingOne fetch base) (decidePending fetch) := by
  intro db bo
  unfold settlePendingOne decidePending
  by_cases hp : bo.result = .pending
  · rw [if_neg (not_not.mpr hp), dif_pos hp]
    by_cases hclosed : bo.positionClosed = true
    · rw [if_pos hclosed, if_pos hclosed]
      rfl
    rw [if_neg hclosed, if_neg hclosed]
    by_cases hunfilled : bo.meOrderStatus = some .pending
    · rw [if_pos hunfilled, if_pos hunfilled]
      exact accounts_cancelWithRefund (unfilledRow bo) rfl rfl rfl hp
    rw [if_neg hunfilled, if_neg hunfilled]
    cases fetch bo.candleRequest with
    | none => rfl
    | some c => exact accounts_settleSingleTrade c hp
  · rw [if_pos hp, dif_neg hp]
    rfl

theorem follows_sweepStuckOne (fetch : CandleFetch) (base : Database) :
    Follows (sweepStuckOne fetch base) (decideStuck fetch) := by
  intro db bo
  unfold sweepStuckOne decideStuck
  by_cases hp : bo.result = .pending
  · rw [if_neg (not_not.mpr hp), dif_pos hp]
    cases fetch bo.candleRequest with
    | none => exact accounts_cancelWithRefund bo rfl rfl rfl hp
    | some c => exact accounts_settleSingleTrade c hp
  · rw [if_pos hp, dif_neg hp]
    rfl

theorem follows_sweepOrphanOne (base : Database) : Follows (sweepOrphanOne base) decideOrphan := by
  intro db bo
  unfold sweepOrphanOne decideOrphan
  by_cases hp : bo.result = .pending
  · rw [if_neg (not_not.mpr hp), dif_pos hp]
    exact accounts_cancelWithRefund bo rfl rfl rfl hp
  · rw [if_pos hp, dif_neg hp]
    rfl

theorem follows_setOrder {f : BinaryOption → BinaryOption} {decide : ∀ bo, Decision bo}
    (h : ∀ bo, ∃ b : Booking bo, decide bo = some (some b) ∧ b.row = f bo ∧ b.credit = none) :
    Follows (fun db bo => some (db.setOrder (f bo))) decide := by
  intro db bo
  obtain ⟨b, hdecide, hrow, hcredit⟩ := h bo
  rw [hdecide]
  show some (db.setOrder (f bo)).accounts = some (Booked.book db.accounts ⟨bo, b⟩)
  rw [accounts_setOrder b hrow.symm hcredit]

/-- **A pass** does to the accounts what its decisions book, one after the other. -/
theorem Follows.foldlM {f : Database → BinaryOption → Option Database} {decide : ∀ bo, Decision bo}
    (hf : Follows f decide) (rows : List BinaryOption) (db : Database) :
    (rows.foldlM f db).map Database.accounts =
      (decideAll decide rows).map fun new => new.foldl Booked.book db.accounts := by
  induction rows generalizing db with
  | nil => rfl
  | cons bo rest ih =>
    have hbo := hf db bo
    rw [List.foldlM_cons, decideAll]
    cases hdecide : decide bo with
    | none =>
      rw [hdecide] at hbo
      rw [Option.map_eq_none_iff.mp hbo]
      rfl
    | some decision =>
      rw [hdecide] at hbo
      obtain ⟨db', hdb', haccounts⟩ := Option.map_eq_some_iff.mp hbo
      rw [hdb', Option.bind_eq_bind, Option.bind_some, ih db', haccounts]
      cases decideAll decide rest with
      | none => rfl
      | some more =>
        cases decision with
        | none => rfl
        | some b => rfl

theorem bookings_one (x : Accounts) (phase : LoadPhase) :
    bookings x [phase] = decideAll phase.decide (phase.select x) := by
  unfold bookings bookings
  cases decideAll phase.decide (phase.select x) with
  | none => rfl
  | some new => simp

theorem bookings_two (x : Accounts) (first second : LoadPhase) :
    bookings x [first, second] = (decideAll first.decide (first.select x)).bind fun new =>
      (decideAll second.decide (second.select x)).map (new ++ ·) := by
  rw [bookings, bookings_one, Option.bind_eq_bind]
  refine congrArg _ (funext fun new => ?_)
  cases decideAll second.decide (second.select x) <;> rfl

/-! ### The handlers -/

/-- **A session on one order** alone. -/
theorem run_onOrder (x : Accounts) (k : ℕ) (decide : ∀ bo, Decision bo) :
    (runPhases [onOrder k decide] [] []).run x =
      match x.orders.get k with
      | none => x
      | some bo => ((decide bo).map (outcome x)).getD x := by
  rw [run_phases (selects_onOrder k decide), bookings_one]
  show ((decideAll decide (x.orders.get k).toList).map _).getD x = _
  cases x.orders.get k with
  | none => rfl
  | some bo =>
    show ((decideAll decide [bo]).map _).getD x = ((decide bo).map (outcome x)).getD x
    unfold decideAll decideAll
    cases decide bo with
    | none => rfl
    | some decision =>
      cases decision with
      | none => rfl
      | some b => rfl

/-- A function that loads the order `k` and does what `decide` books. -/
theorem accounts_onOrder {k : ℕ} {decide : ∀ bo, Decision bo}
    (hnone : db.orders.get k = none → db' = db) (hsome : ∀ bo, db.orders.get k = some bo →
      db'.accounts = ((decide bo).map (outcome db.accounts)).getD db.accounts) :
    db'.accounts = (runPhases [onOrder k decide] [] []).run db.accounts := by
  rw [run_onOrder]
  show _ = match db.orders.get k with
    | none => db.accounts
    | some bo => ((decide bo).map (outcome db.accounts)).getD db.accounts
  cases hget : db.orders.get k with
  | none => rw [hnone hget]
  | some bo => exact hsome bo hget

theorem run_onOrders (x : Accounts) (p : BinaryOption → Bool) (decide : ∀ bo, Decision bo) :
    (runPhases [onOrders p decide] [] []).run x =
      ((decideAll decide (x.orders.rows.filter p)).map fun new =>
        new.foldl Booked.book x).getD x := by
  rw [run_phases (selects_onOrders p decide), bookings_one]
  rfl

/-- A transaction that is rolled back when it raises. -/
theorem accounts_getD {result : Option Database} {new : Option Accounts}
    (h : result.map Database.accounts = new) :
    (result.getD db).accounts = new.getD db.accounts := by
  subst h
  cases result <;> rfl

theorem accounts_recordFill (m : FillMessage) (hp : bo.result = .pending) :
    (recordFill db bo m).accounts =
      ((decideFill bo m).map (outcome db.accounts)).getD db.accounts := by
  unfold recordFill decideFill
  rw [if_neg (not_not.mpr hp)]
  show _ = Booked.book db.accounts ⟨bo, _⟩
  dsimp only
  by_cases hrebate : 0 < fillRebate bo m
  · rw [if_pos hrebate]
    refine accounts_creditBot _ ?_ ?_ ?_
    · rfl
    · exact if_pos hrebate
    · rfl
  · rw [if_neg hrebate]
    refine accounts_setOrder _ ?_ ?_
    · rfl
    · exact if_neg hrebate

theorem accounts_cancel (m : CancelMessage) : (handleOrderCancel db m).1.accounts =
    (BalanceTransaction.cancel m).txn.run db.accounts := by
  unfold handleOrderCancel
  refine accounts_onOrder (fun hget => by rw [hget]) fun bo hget => ?_
  rw [hget]
  dsimp only
  unfold decideCancel
  by_cases hp : bo.result = .pending
  · rw [if_neg (not_not.mpr hp), dif_pos hp]
    by_cases hfill : 0 < m.filled ∧ 0 < m.avgEntryPrice
    · rw [if_pos hfill, if_pos hfill]
      show _ = Booked.book db.accounts ⟨bo, _⟩
      dsimp only
      by_cases hrefund : 0 < unfilledRefund bo m
      · rw [if_pos hrefund]
        exact (accounts_congr (by simp) (by simp)).trans
          (accounts_creditBot _ rfl (if_pos hrefund) rfl)
      · rw [if_neg hrefund]
        refine accounts_setOrder _ ?_ ?_
        · rfl
        · exact if_neg hrefund
    · rw [if_neg hfill, if_neg hfill]
      show _ = Booked.book db.accounts ⟨bo, _⟩
      exact (accounts_congr (by simp) (by simp)).trans (accounts_creditBot _ rfl rfl rfl)
  · rw [if_pos hp, dif_neg hp]
    rfl

theorem accounts_exit (m : ExitMessage) : (handleBracketExit now db m).1.accounts =
    (BalanceTransaction.exit now m).txn.run db.accounts := by
  unfold handleBracketExit
  refine accounts_onOrder (fun hget => by rw [hget]) fun bo hget => ?_
  rw [hget]
  dsimp only
  unfold decideExit
  split
  · split
    · rfl
    · show _ = Booked.book db.accounts ⟨bo, _⟩
      refine accounts_setOrder _ ?_ ?_
      · rfl
      · rfl
  · rfl

theorem accounts_fill (m : FillMessage) : (recordFillOf db m).accounts =
    (BalanceTransaction.fill m).txn.run db.accounts := by
  unfold recordFillOf
  refine accounts_onOrder (fun hget => by rw [hget]) fun bo hget => ?_
  rw [hget]
  dsimp only
  by_cases hp : bo.result = .pending
  · rw [if_neg (not_not.mpr hp)]
    exact accounts_recordFill m hp
  · unfold decideFill
    rw [if_pos hp, if_pos hp]
    rfl

theorem accounts_lateFill (m : FillMessage) : (settleLateFill now fetch db m).accounts =
    (BalanceTransaction.lateFill now fetch m).txn.run db.accounts := by
  unfold settleLateFill
  refine accounts_onOrder (fun hget => by rw [hget]) fun bo hget => ?_
  rw [hget]
  dsimp only
  unfold decideLateFill
  by_cases hlate : isLateFill now bo m = true
  · rw [if_pos hlate, dif_pos hlate]
    cases fetch bo.candleRequest with
    | none => rfl
    | some c => exact accounts_getD (accounts_settleSingleTrade c (of_decide_eq_true hlate).2.1)
  · rw [if_neg hlate, dif_neg hlate]
    rfl

theorem accounts_traceQueued (k : ℕ) (a : TraceAction) : (recordQueued db k a).accounts =
    (BalanceTransaction.traceQueued k a).txn.run db.accounts := by
  unfold recordQueued
  refine accounts_onOrder (fun hget => by rw [hget]) fun bo hget => ?_
  rw [hget]
  show _ = Booked.book db.accounts ⟨bo, _⟩
  refine accounts_setOrder _ ?_ ?_
  · rfl
  · rfl

theorem accounts_resolved (boIds : List ℕ) : (handleMarketResolved db boIds).1.accounts =
    (BalanceTransaction.resolved boIds).txn.run db.accounts := by
  refine Eq.trans ?_ (run_onOrders _ _ _).symm
  have hfollows : Follows (fun db bo => some (db.setOrder (resolvedRow bo))) decideResolved :=
    follows_setOrder fun bo => ⟨_, rfl, rfl, rfl⟩
  have hpass := hfollows.foldlM (db.orders.rows.filter fun bo =>
    bo.id ∈ boIds ∧ bo.result = .pending ∧ ¬ bo.positionClosed) db
  exact accounts_getD ((congrArg (Option.map Database.accounts) List.foldlM_pure.symm).trans hpass)

theorem accounts_settle : ((settlePendingTrades now fetch db).getD db).accounts =
    (BalanceTransaction.settle now fetch).txn.run db.accounts := by
  refine Eq.trans ?_ (run_onOrders _ _ _).symm
  exact accounts_getD ((follows_settlePendingOne fetch db).foldlM _ db)

theorem accounts_sweep : ((sweepStuckOrders now fetch db).getD db).accounts =
    (BalanceTransaction.sweep now fetch).txn.run db.accounts := by
  refine Eq.trans ?_ (run_phases (selects_phases (.sweep now fetch))).symm
  refine accounts_getD ?_
  have hstuck := (follows_sweepStuckOne fetch db).foldlM (db.orders.rows.filter (isStuck now)) db
  show (Option.bind _ fun swept => _).map Database.accounts = (bookings db.accounts
    [onOrders (isStuck now) (decideStuck fetch), onOrders (isOrphaned now) decideOrphan]).map _
  rw [bookings_two]
  show _ = ((decideAll (decideStuck fetch) (db.orders.rows.filter (isStuck now))).bind fun first =>
    (decideAll decideOrphan (db.orders.rows.filter (isOrphaned now))).map (first ++ ·)).map _
  cases hfirst : decideAll (decideStuck fetch) (db.orders.rows.filter (isStuck now)) with
  | none =>
    rw [hfirst] at hstuck
    rw [Option.map_eq_none_iff.mp hstuck]
    rfl
  | some first =>
    rw [hfirst] at hstuck
    obtain ⟨swept, hswept, haccounts⟩ := Option.map_eq_some_iff.mp hstuck
    -- the second loop works on what the first one left
    have horphan := (follows_sweepOrphanOne db).foldlM
      (db.orders.rows.filter (isOrphaned now)) swept
    rw [hswept, Option.bind_some, Option.bind_some, horphan, haccounts, Option.map_map]
    refine congrArg (Option.map · _) (funext fun more => ?_)
    exact List.foldl_append.symm

/-! ### `create_bo` -/

theorem botByKey_sessionWith (db : Database) (apiKey : String) :
    (sessionWith (db.botByKey apiKey)).botByKey apiKey = db.botByKey apiKey := by
  cases hfind : db.botByKey apiKey with
  | none => rfl
  | some bot =>
    have hbot := List.find?_some hfind
    exact List.find?_cons_of_pos hbot

/-- The admission reads the bot with the key and no other row. -/
theorem admitRequest_congr {apiKey : String} (p : BOCreate) (first : SnapshotRead)
    (h : db'.botByKey apiKey = db.botByKey apiKey) :
    admitRequest now db' apiKey p first = admitRequest now db apiKey p first := by
  unfold admitRequest admitBot
  rw [h]

theorem queuedRow_false (bo : BinaryOption) (queue : Option (QueuePayload × Option TraceAction)) :
    queuedRow bo false queue = bo := by
  unfold queuedRow
  split
  · next h => cases h
  · rfl

theorem queuedRow_cases (bo : BinaryOption) (queueUp : Bool)
    (queue : Option (QueuePayload × Option TraceAction)) :
    queuedRow bo queueUp queue = bo ∨ ∃ a, queuedRow bo queueUp queue = bo.appendTrace a := by
  unfold queuedRow
  split
  · exact .inr ⟨_, rfl⟩
  · exact .inl rfl

theorem accounts_commitDraft {apiKey : String} {bot : Bot} (hbot : db.botByKey apiKey = some bot)
    (id : db.FreshId) (d : Draft id.val) :
    (commitDraft db bot false id d).db.accounts = commitBo bot d db.accounts := by
  have hfresh : d.row.id ∉ db.accounts.orders.rows.map BinaryOption.id := by
    rw [d.row_id]
    exact id.property
  have hqueued := queuedRow_false d.row d.queue
  have hget : db.bots.get bot.botName = some bot :=
    Table.get_of_mem (List.mem_of_find?_eq_some hbot)
  unfold commitBo
  rw [dif_pos hfresh]
  refine Accounts.ext_rows ?_ ?_
  · refine List.map_congr_left fun current hcurrent => ?_
    by_cases hname : current.botName = bot.botName
    · have hsame := Table.get_of_mem hcurrent
      rw [hname, hget, Option.some.injEq] at hsame
      subst hsame
      rw [if_pos rfl, if_pos rfl]
      refine (Bot.update_self ?_).symm
      rfl
    · rw [if_neg hname, if_neg hname]
  · show db.orders.rows ++ [queuedRow d.row false d.queue] = db.orders.rows ++ [d.row]
    rw [hqueued]

theorem accounts_insertBo (apiKey : String) (p : BOCreate) (first second : SnapshotRead) (id : ℕ) :
    (insertBo now apiKey p first second id db).accounts =
      (BalanceTransaction.createBo now apiKey p first second id).txn.run db.accounts := by
  have hloaded : admitRequest now (sessionWith (db.botByKey apiKey)) apiKey p first =
      admitRequest now db apiKey p first :=
        admitRequest_congr p first (botByKey_sessionWith db apiKey)
  unfold insertBo createBo
  cases hadmit : admitRequest now db apiKey p first with
  | error e =>
    have hdraft : draftBo now apiKey p first second id (db.botByKey apiKey) = .error e := by
      unfold draftBo
      rw [hloaded, hadmit]
      rfl
    rw [BalanceTransaction.run_createBo_error hdraft]
    split
    · rfl
    · rfl
  | ok r =>
    obtain ⟨hbot, -⟩ := admitRequest_ok hadmit
    cases hpath : choosePath now r p second id with
    | error e =>
      have hdraft : draftBo now apiKey p first second id (db.botByKey apiKey) = .error e := by
        unfold draftBo
        rw [hloaded, hadmit]
        simp only [bind, Except.bind, hpath]
      rw [BalanceTransaction.run_createBo_error hdraft]
      simp only [bind, Except.bind, hpath]
      split
      · rfl
      · rfl
    | ok d =>
      have hdraft : draftBo now apiKey p first second id (db.botByKey apiKey) = .ok (r.bot, d) := by
        unfold draftBo
        rw [hloaded, hadmit]
        simp only [bind, Except.bind, hpath]
        rfl
      rw [BalanceTransaction.run_createBo_ok hdraft]
      simp only [bind, Except.bind, hpath]
      by_cases hfresh : id ∉ db.orders.rows.map BinaryOption.id
      · rw [dif_pos hfresh]
        exact accounts_commitDraft hbot ⟨id, hfresh⟩ d
      · rw [dif_neg hfresh]
        have hrow : ¬ d.row.id ∉ db.accounts.orders.rows.map BinaryOption.id := by
          rw [d.row_id]
          exact hfresh
        unfold commitBo
        rw [dif_neg hrow]

/-- **A transaction alone**: its reads and its commit do to the accounts what its function does. -/
theorem accounts_apply (db : Database) (t : BalanceTransaction) :
    (t.apply db).accounts = t.txn.run db.accounts := by
  cases t with
  | createBo now apiKey p first second id => exact accounts_insertBo apiKey p first second id
  | traceQueued k a => exact accounts_traceQueued k a
  | fill m => exact accounts_fill m
  | lateFill now fetch m => exact accounts_lateFill m
  | cancel m => exact accounts_cancel m
  | exit now m => exact accounts_exit m
  | resolved boIds => exact accounts_resolved boIds
  | settle now fetch => exact accounts_settle
  | sweep now fetch => exact accounts_sweep

theorem accounts_serially (db : Database) (ts : List BalanceTransaction) :
    (serially db ts).accounts = ts.foldl (fun x t => t.txn.run x) db.accounts := by
  unfold serially
  induction ts generalizing db with
  | nil => rfl
  | cons t rest ih => rw [List.foldl_cons, ih, accounts_apply, List.foldl_cons]

/-! ### The functions of the stream handlers and of the API -/

/-- `_handle_order_fill` is its two transactions. -/
theorem handleOrderFill_eq (db : Database) (m : FillMessage) :
    (handleOrderFill now fetch db m).1 = serially db [.fill m, .lateFill now fetch m] := by
  show _ = settleLateFill now fetch (recordFillOf db m) m
  unfold handleOrderFill recordFillOf
  cases hget : db.orders.get m.boId with
  | none =>
    unfold settleLateFill
    rw [hget]
  | some bo =>
    dsimp only
    by_cases hp : bo.result = .pending
    · have hget' : (recordFill db bo m).orders.get m.boId = some (filledRow bo m) := by
        have hid : (filledRow bo m).id = m.boId := (filledRow_id bo m).trans (Table.key_of_get hget)
        rw [recordFill_orders, ← hid]
        exact Table.get_put_self (hid ▸ hget)
      rw [if_neg (not_not.mpr hp), if_neg (not_not.mpr hp)]
      unfold settleLateFill
      rw [hget']
      dsimp only
      split
      · cases fetch (filledRow bo m).candleRequest with
        | none => rfl
        | some c =>
          dsimp only
          cases settleSingleTrade (recordFill db bo m) (recordFill db bo m)
            (filledRow bo m) c <;> rfl
      · rfl
    · rw [if_pos hp, if_pos hp]
      unfold settleLateFill
      rw [hget]
      dsimp only
      rw [if_neg]
      exact fun hlate => hp (of_decide_eq_true hlate).2.1

theorem withOrders_ext {t t' : Table BinaryOption.id} (h : t.rows = t'.rows) :
    { db with orders := t } = { db with orders := t' } := by
  rw [Table.ext_rows h]

/-- `create_bo` is its first transaction, and the one that records the push when there is a
trace. -/
theorem createBo_eq {apiKey : String} {p : BOCreate} {first second : SnapshotRead} {queueUp : Bool}
    {id : db.FreshId} {created : Created}
    (h : createBo now db apiKey p first second queueUp id = .ok created) :
    ∃ trace : Option TraceAction, created.db = serially db
      (.createBo now apiKey p first second id :: (trace.map (.traceQueued id)).toList) := by
  obtain ⟨r, d, hr, hd, rfl⟩ := createBo_ok h
  have hfirst : insertBo now apiKey p first second id db =
      (commitDraft db r.bot false id d).db := by
    unfold insertBo createBo
    rw [dif_pos id.property, hr]
    simp only [bind, Except.bind, hd]
    rfl
  rcases queuedRow_cases d.row queueUp d.queue with hrow | ⟨a, hrow⟩
  · refine ⟨none, Eq.trans ?_ hfirst.symm⟩
    refine withOrders_ext ?_
    show db.orders.rows ++ [queuedRow d.row queueUp d.queue] =
      db.orders.rows ++ [queuedRow d.row false d.queue]
    rw [hrow, queuedRow_false]
  · refine ⟨some a, ?_⟩
    have hget : (commitDraft db r.bot false id d).db.orders.get id =
        some (queuedRow d.row false d.queue) := by
      have hid : (queuedRow d.row false d.queue).id = id := (queuedRow_id _ _ _).trans d.row_id
      have hstored := (commitDraft db r.bot false id d).stored
      rwa [show (commitDraft db r.bot false id d).bo.id = id from hid] at hstored
    show _ = recordQueued (insertBo now apiKey p first second id db) id a
    unfold recordQueued
    rw [hfirst, hget, queuedRow_false]
    refine withOrders_ext ?_
    show db.orders.rows ++ [queuedRow d.row queueUp d.queue] = _
    have hnew : (queuedRow d.row false d.queue).id ∉ db.orders.rows.map BinaryOption.id := by
      rw [queuedRow_id, d.row_id]
      exact id.property
    have hid : (d.row.appendTrace a).id = (queuedRow d.row false d.queue).id := by
      rw [queuedRow_id]
      rfl
    rw [hrow]
    exact (Table.put_insert hnew hid).symm

end Functions

end PolyArena
