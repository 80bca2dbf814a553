import PolyArena.TransactionsAlone

/-!
# What transactions leave of rows

1. `Continues`: the terms of an order and the engine's number stay, its trace grows, and once it is
   decided nothing but the trace changes.  Every booking keeps it (`booked_continues`), and so does
   every transaction (`orders_apply`).
2. `order_origin`: an order was there before, or one of the bots places it.
3. `bots_apply`: a bot gets another balance and status, and only when one of its orders is pending
   or it places one.
4. `history_apply`: the balance history is only added to.
5. `settled_apply`: an order is settled by a transaction that finds its settlement time passed.
-/

namespace PolyArena

/-- What an order was placed for, without what changes later: `amount`, which a cancel rewrites, and
`tp_price` and `sl_price`, which `_handle_market_resolved` clears. -/
structure OrderTerms where
  symbol : BOSymbol
  timeframe : BOTimeframe
  forecast : BOForecast
  settlementAt : Option Time
  createdAt : Option Time
  limitPrice : Option ℚ
  orderType : Option TimeInForce
  ceilingPrice : Option ℚ
  ttl : Option ℕ
  sessionOffset : ℕ
  sessionId : Option SessionId
  candleOpen : Option ℤ

def BinaryOption.terms (bo : BinaryOption) : OrderTerms where
  symbol := bo.symbol
  timeframe := bo.timeframe
  forecast := bo.forecast
  settlementAt := bo.settlementAt
  createdAt := bo.createdAt
  limitPrice := bo.limitPrice
  orderType := bo.orderType
  ceilingPrice := bo.ceilingPrice
  ttl := bo.ttl
  sessionOffset := bo.sessionOffset
  sessionId := bo.sessionId
  candleOpen := bo.candleOpen

/-- The row `row` is the order `bo` later on, under the name `name`. -/
structure Continues (name : BotName) (bo row : BinaryOption) : Prop where
  id : row.id = bo.id
  botName : row.botName = name
  terms : row.terms = bo.terms
  traces : bo.traces <+: row.traces
  orderId : bo.meOrderId ≠ none → row.meOrderId = bo.meOrderId
  decided : bo.result ≠ .pending → row = { bo with botName := name, traces := row.traces }

theorem Continues.refl (bo : BinaryOption) : Continues bo.botName bo bo where
  id := rfl
  botName := rfl
  terms := rfl
  traces := List.prefix_rfl
  orderId := fun _ => rfl
  decided := fun _ => rfl

theorem Continues.result {name : BotName} {bo row : BinaryOption} (h : Continues name bo row)
    (hdecided : bo.result ≠ .pending) : row.result = bo.result := by
  rw [h.decided hdecided]

theorem Continues.trans {name name' : BotName} {bo row row' : BinaryOption}
    (h : Continues name bo row) (h' : Continues name' row row') : Continues name' bo row' where
  id := h'.id.trans h.id
  botName := h'.botName
  terms := h'.terms.trans h.terms
  traces := h.traces.trans h'.traces
  orderId := fun hne => (h'.orderId fun hnone => hne ((h.orderId hne).symm.trans hnone)).trans
    (h.orderId hne)
  decided := by
    intro hdecided
    have hrow := h'.decided fun hpending => hdecided ((h.result hdecided).symm.trans hpending)
    rw [h.decided hdecided] at hrow
    exact hrow

/-! ## Bookings -/

section Bookings

variable {now : Time} {fetch : CandleFetch} {bo row : BinaryOption} {b : Booking bo}
  {name : BotName}

/-- What a booking is: the order goes on, and only a pending one brings its bot money. -/
structure BooksOn (bo : BinaryOption) (b : Booking bo) : Prop where
  continues : Continues bo.botName bo b.row
  credit : b.credit ≠ none → bo.result = .pending

theorem recordOrderId_keeps (orderId : Option OrderId) (h : bo.meOrderId ≠ none) :
    (bo.recordOrderId orderId).meOrderId = bo.meOrderId := by
  obtain ⟨known, hknown⟩ := Option.ne_none_iff_exists'.mp h
  unfold BinaryOption.recordOrderId
  rw [hknown]
  rfl

/-- The booking of a pending order. -/
theorem booksOn_pending (hpending : bo.result = .pending) (hname : b.row.botName = bo.botName)
    (hterms : b.row.terms = bo.terms) (htraces : bo.traces <+: b.row.traces)
    (horder : bo.meOrderId ≠ none → b.row.meOrderId = bo.meOrderId) : BooksOn bo b :=
  ⟨⟨b.row_id, hname, hterms, htraces, horder, fun h => absurd hpending h⟩, fun _ => hpending⟩

theorem booksOn_settlement {c : Candle} {h : bo.result = .pending}
    (hb : decideSettlement bo c h = .book b) :
    BooksOn bo b := by
  unfold decideSettlement at hb
  split at hb
  · cases hb
  · cases hb
    exact booksOn_pending h rfl rfl (List.prefix_append _ _) fun _ => rfl
  · cases hb
    exact booksOn_pending h rfl rfl (List.prefix_append _ _) fun _ => rfl

theorem booksOn_due (hb : decidePending fetch bo = .book b) : BooksOn bo b := by
  unfold decidePending at hb
  split_ifs at hb with hpending
  · cases hb
  · cases hb
    exact booksOn_pending hpending rfl rfl (List.prefix_append _ _) fun _ => rfl
  · split at hb
    · cases hb
    · exact booksOn_settlement hb
  · cases hb

theorem booksOn_orphan (hb : decideOrphan bo = .book b) : BooksOn bo b := by
  unfold decideOrphan at hb
  split_ifs at hb with hpending
  · cases hb
    exact booksOn_pending hpending rfl rfl List.prefix_rfl fun _ => rfl
  · cases hb

theorem booksOn_stuck (hb : decideStuck fetch bo = .book b) : BooksOn bo b := by
  unfold decideStuck at hb
  split_ifs at hb with hpending
  · split at hb
    · exact booksOn_settlement hb
    · cases hb
      exact booksOn_pending hpending rfl rfl List.prefix_rfl fun _ => rfl
  · cases hb

theorem booksOn_lateFill {m : FillMessage} (hb : decideLateFill now fetch bo m = .book b) :
    BooksOn bo b := by
  unfold decideLateFill at hb
  split_ifs at hb
  · split at hb
    · cases hb
    · exact booksOn_settlement hb
  · cases hb

theorem booksOn_fill {m : FillMessage} (hb : decideFill bo m = .book b) : BooksOn bo b := by
  unfold decideFill at hb
  split at hb
  · cases hb
  · next hpending =>
    cases hb
    refine booksOn_pending (not_not.mp hpending) ?_ ?_ ?_ fun horder => ?_
    · show (filledRow bo m).botName = bo.botName
      unfold filledRow
      cases m.status <;> rfl
    · show (filledRow bo m).terms = bo.terms
      unfold filledRow
      cases m.status <;> rfl
    · show bo.traces <+: (filledRow bo m).traces
      unfold filledRow
      cases m.status with
      | filled => exact List.prefix_append _ _
      | partial_ => exact List.prefix_append _ _
      | _ => exact List.prefix_rfl
    · refine Eq.trans ?_ (recordOrderId_keeps m.orderId horder)
      show (filledRow bo m).meOrderId = _
      unfold filledRow
      cases m.status <;> rfl

theorem booksOn_cancel {m : CancelMessage} (hb : decideCancel bo m = .book b) : BooksOn bo b := by
  unfold decideCancel at hb
  split at hb
  · next hpending =>
    split at hb
    · cases hb
      exact booksOn_pending hpending rfl rfl (List.prefix_append _ _)
        (recordOrderId_keeps m.orderId)
    · cases hb
      exact booksOn_pending hpending rfl rfl (List.prefix_append _ _)
        (recordOrderId_keeps m.orderId)
  · cases hb

theorem booksOn_exit {m : ExitMessage} (hb : decideExit now bo m = .book b) : BooksOn bo b := by
  unfold decideExit at hb
  split_ifs at hb with hopen
  · cases hb
  · cases hb
    refine booksOn_pending hopen.2 rfl rfl ?_ (recordOrderId_keeps m.orderId)
    show bo.traces <+: bo.traces ++ [_] ++ [_]
    rw [List.append_assoc]
    exact List.prefix_append _ _
  · cases hb

theorem booksOn_trace {a : TraceAction} (hb : decideTrace bo a = .book b) : BooksOn bo b := by
  cases hb
  exact ⟨⟨rfl, rfl, rfl, List.prefix_append _ _, fun _ => rfl, fun _ => rfl⟩, fun h => absurd rfl h⟩

/-- **Every booking** of every transaction. -/
theorem booked_continues {t : BalanceTransaction} {x : Accounts} {phase : LoadPhase}
    (hphase : phase ∈ t.phases) (hselect : bo ∈ phase.select x)
    (hdecide : phase.decide bo = .book b) : BooksOn bo b := by
  cases t with
  | createBo => cases hphase
  | traceQueued k a =>
    obtain rfl := List.mem_singleton.mp hphase
    exact booksOn_trace hdecide
  | fill m =>
    obtain rfl := List.mem_singleton.mp hphase
    exact booksOn_fill hdecide
  | lateFill now fetch m =>
    obtain rfl := List.mem_singleton.mp hphase
    exact booksOn_lateFill hdecide
  | cancel m =>
    obtain rfl := List.mem_singleton.mp hphase
    exact booksOn_cancel hdecide
  | exit now m =>
    obtain rfl := List.mem_singleton.mp hphase
    exact booksOn_exit hdecide
  | resolved boIds =>
    obtain rfl := List.mem_singleton.mp hphase
    have hpending : bo.result = .pending := (of_decide_eq_true (List.mem_filter.mp hselect).2).2.1
    cases hdecide
    exact booksOn_pending hpending rfl rfl (List.prefix_append _ _) fun _ => rfl
  | settle now fetch =>
    obtain rfl := List.mem_singleton.mp hphase
    exact booksOn_due hdecide
  | sweep now fetch =>
    rcases List.mem_cons.mp hphase with rfl | hsecond
    · exact booksOn_stuck hdecide
    · obtain rfl := List.mem_singleton.mp hsecond
      exact booksOn_orphan hdecide

end Bookings

/-! ## Transactions -/

section Transactions

variable {db : Database} {bo : BinaryOption} {bot : Bot}

/-- **What becomes of an order**, whatever the transaction. -/
theorem orders_apply (t : BalanceTransaction) (h : bo ∈ db.orders.rows) :
    ∃ row ∈ (t.apply db).orders.rows, Continues bo.botName bo row := by
  obtain ⟨row, hmem, hfate⟩ := run_txn_fate t (x := db.accounts) h
  rw [← accounts_apply] at hmem
  rcases hfate with rfl | ⟨phase, hphase, b, hselect, hdecide, rfl⟩
  · exact ⟨row, hmem, .refl row⟩
  · exact ⟨b.row, hmem, (booked_continues hphase hselect hdecide).continues⟩

/-- The bot `bot'` is `bot` under another balance and status. -/
def Bot.Trades (bot bot' : Bot) : Prop := ∃ x s, bot' = { bot with balance := x, status := s }

theorem Bot.Trades.refl (bot : Bot) : bot.Trades bot := ⟨bot.balance, bot.status, rfl⟩

/-- The bot may trade, and the transaction is a request with its key. -/
def Bot.Places (t : BalanceTransaction) (bot : Bot) : Prop :=
  ∃ now p first second id, t = .createBo now bot.apiKey p first second id ∧ bot.isActive = true ∧
    bot.status = .active

/-- The transaction loads a pending order of the bot, or the bot places one. -/
def Database.MayMove (db : Database) (t : BalanceTransaction) (bot : Bot) : Prop :=
  (∃ bo ∈ db.orders.rows, bo.botName = bot.botName ∧ bo.result = .pending ∧
    ∃ phase ∈ t.phases, bo ∈ phase.select db.accounts) ∨ bot.Places t

theorem onBot_trades (b : Booked) (bot : Bot) : bot.Trades (b.onBot bot) := by
  unfold Booked.onBot Booking.onBot
  split
  · split
    · exact .refl bot
    · dsimp only
      split
      · exact ⟨_, _, rfl⟩
      · exact ⟨_, _, rfl⟩
  · exact .refl bot

theorem foldl_onBot_trades (booked : List Booked) (bot : Bot) :
    bot.Trades (booked.foldl (fun bot b => b.onBot bot) bot) := by
  induction booked generalizing bot with
  | nil => exact .refl bot
  | cons b rest ih =>
    obtain ⟨x, s, hx⟩ := onBot_trades b bot
    obtain ⟨x', s', hx'⟩ := ih (b.onBot bot)
    rw [hx] at hx'
    rw [List.foldl_cons, hx]
    exact ⟨x', s', hx'⟩

/-- A session that credits a bot has loaded a pending order of it. -/
theorem credited_pending {t : BalanceTransaction} {new : List Booked}
    (hnew : bookings db.accounts t.phases = some new) (h : bot.botName ∈ Booked.creditedBots new) :
    ∃ bo ∈ db.orders.rows, bo.botName = bot.botName ∧ bo.result = .pending ∧
      ∃ phase ∈ t.phases, bo ∈ phase.select db.accounts := by
  obtain ⟨b, hb, hname⟩ := List.mem_map.mp h
  obtain ⟨hmem, hcredit⟩ := List.mem_filter.mp hb
  obtain ⟨phase, hphase, hselect, hdecide⟩ := bookings_decided hnew hmem
  have hselects := selects_phases (x := db.accounts) t
  exact ⟨b.1, (hselects.known hnew).mem b hmem, hname,
    (booked_continues hphase hselect hdecide).credit (Option.isSome_iff_ne_none.mp hcredit), phase,
      hphase, hselect⟩

/-- An admitted request is for a bot that may trade. -/
theorem admitRequest_active {now : Time} {apiKey : String} {p : BOCreate} {first : SnapshotRead}
    {r : Admitted} (h : admitRequest now db apiKey p first = .ok r) : r.bot.status = .active := by
  unfold admitRequest at h
  obtain ⟨bot, hbot, h⟩ := ok_of_bind h
  obtain ⟨session, -, h⟩ := ok_of_bind h
  obtain ⟨bestAsk, -, h⟩ := ok_of_bind h
  obtain ⟨-, -, h⟩ := ok_of_bind h
  cases h
  unfold admitBot at hbot
  cases hfind : db.botByKey apiKey with
  | none => rw [hfind] at hbot; cases hbot
  | some found =>
    simp only [hfind] at hbot
    by_cases hstatus : found.status = .active
    · split_ifs at hbot <;> cases hbot <;> exact hstatus
    · rw [if_pos hstatus] at hbot
      cases hbot

/-- A draft is an order of the bot that was admitted. -/
theorem choosePath_botName {now : Time} {r : Admitted} {p : BOCreate} {second : SnapshotRead}
    {id : ℕ} {d : Draft id} (h : choosePath now r p second id = .ok d) :
    d.row.botName = r.bot.botName := by
  unfold choosePath at h
  split at h
  · split at h
    · obtain ⟨f, -, rfl⟩ := aggressiveLimit_ok h
      rfl
    · cases h
      rfl
  · obtain ⟨avg, shares, levels, -, rfl⟩ := marketOrder_ok h
    rfl

/-- **What `create_bo` commits**: nothing, or an order of the bot that places it and the bot's new
balance. -/
theorem createBo_cases {t : BalanceTransaction} (now : Time) (apiKey : String) (p : BOCreate)
    (first second : SnapshotRead) (id : ℕ) (ht : t = .createBo now apiKey p first second id) :
    t.apply db = db ∨ ∃ placed x row, ∃ hnew : row.id ∉ db.orders.rows.map BinaryOption.id,
      placed ∈ db.bots.rows ∧
      placed.Places t ∧ row.botName = placed.botName ∧
      t.apply db = { db.setBot { placed with balance := x } with
        orders := db.orders.insert row hnew } := by
  subst ht
  show insertBo now apiKey p first second id db = db ∨ ∃ placed x row, ∃ hnew, _ ∧ _ ∧ _ ∧
    insertBo now apiKey p first second id db = _
  unfold insertBo
  split
  · next hfresh =>
    cases hc : createBo now db apiKey p first second false ⟨id, hfresh⟩ with
    | error e => exact .inl rfl
    | ok c =>
      obtain ⟨r, d, hadmit, hpath, rfl⟩ := createBo_ok hc
      have hbot := (admitRequest_ok hadmit).1
      have hfound := List.find?_some hbot
      obtain ⟨rfl, hactive⟩ : r.bot.apiKey = apiKey ∧ r.bot.isActive = true :=
        of_decide_eq_true hfound
      have hname : (queuedRow d.row false d.queue).botName = r.bot.botName := by
        rw [queuedRow_false]
        exact choosePath_botName hpath
      have hnew : (queuedRow d.row false d.queue).id ∉ db.orders.rows.map BinaryOption.id := by
        rw [queuedRow_id, d.row_id]
        exact hfresh
      exact .inr ⟨r.bot, d.balance, _, hnew, List.mem_of_find?_eq_some hbot,
        ⟨now, p, first, second, id, rfl, hactive, admitRequest_active hadmit⟩, hname, rfl⟩
  · exact .inl rfl

/-- The orders after the phases of a transaction were there before. -/
theorem phases_origin {t : BalanceTransaction} {row : BinaryOption}
    (h : row ∈ ((runPhases t.phases [] []).run db.accounts).orders.rows) :
    ∃ bo ∈ db.orders.rows, Continues bo.botName bo row := by
  have hselects := selects_phases (x := db.accounts) t
  rw [run_phases hselects] at h
  cases hnew : bookings db.accounts t.phases with
  | none =>
    rw [hnew] at h
    exact ⟨row, h, .refl row⟩
  | some new =>
    rw [hnew, Option.map_some, Option.getD_some, Booked.book_orders] at h
    obtain ⟨old, hold, rfl⟩ := List.mem_map.mp h
    rcases foldl_onOrder_cases new old with hsame | ⟨b, hb, hrow⟩
    · rw [hsame]
      exact ⟨old, hold, .refl old⟩
    · obtain ⟨phase, hphase, hselect, hdecide⟩ := bookings_decided hnew hb
      rw [hrow]
      exact ⟨b.1, (hselects.known hnew).mem b hb,
        (booked_continues hphase hselect hdecide).continues⟩

/-- **Where an order comes from**, whatever the transaction: it was there, or one of the bots places
it. -/
theorem order_origin (t : BalanceTransaction) {row : BinaryOption}
    (h : row ∈ (t.apply db).orders.rows) :
    (∃ bo ∈ db.orders.rows, Continues bo.botName bo row) ∨
      ∃ bot ∈ db.bots.rows, row.botName = bot.botName ∧ bot.Places t := by
  have hphases : row ∈ (t.txn.run db.accounts).orders.rows := by
    rw [← accounts_apply]
    exact h
  cases t with
  | createBo now apiKey p first second id =>
    rcases createBo_cases now apiKey p first second id rfl with
      hsame | ⟨placed, x, new, hnew, hmem, hplaces, hname, hdb⟩
    · rw [hsame] at h
      exact .inl ⟨row, h, .refl row⟩
    · rw [hdb] at h
      rcases List.mem_append.mp h with hold | hrow
      · exact .inl ⟨row, hold, .refl row⟩
      · obtain rfl := List.mem_singleton.mp hrow
        exact .inr ⟨placed, hmem, hname, hplaces⟩
  | _ => exact .inl (phases_origin hphases)

/-- **What becomes of the bots**, whatever the transaction. -/
theorem bots_apply (t : BalanceTransaction) (db : Database) : ∃ f : Bot → Bot,
    (t.apply db).bots.rows = db.bots.rows.map f ∧
      ∀ bot ∈ db.bots.rows, bot.Trades (f bot) ∧ (f bot ≠ bot → db.MayMove t bot) := by
  have hrows : (t.apply db).bots.rows = (t.txn.run db.accounts).bots.rows :=
    congrArg (fun x : Accounts => x.bots.rows) (accounts_apply db t)
  have hphases : ∃ f : Bot → Bot, ((runPhases t.phases [] []).run db.accounts).bots.rows =
      db.bots.rows.map f ∧
      ∀ bot ∈ db.bots.rows, bot.Trades (f bot) ∧ (f bot ≠ bot → db.MayMove t bot) := by
    rw [run_phases (selects_phases t)]
    cases hnew : bookings db.accounts t.phases with
    | none =>
      exact ⟨fun bot => bot, (List.map_id _).symm, fun bot _ => ⟨.refl bot, fun h => absurd rfl h⟩⟩
    | some new =>
      refine ⟨_, Booked.book_bots new _, fun bot _ =>
        ⟨foldl_onBot_trades new bot, fun hmoved => .inl ?_⟩⟩
      refine credited_pending hnew (Classical.byContradiction fun h => hmoved ?_)
      exact foldl_onBot_of_not_credited h
  cases t with
  | createBo now apiKey p first second id =>
    rcases createBo_cases now apiKey p first second id rfl with
      hsame | ⟨placed, x, new, hnew, hmem, hplaces, -, hdb⟩
    · rw [hsame]
      exact ⟨fun bot => bot, (List.map_id _).symm, fun bot _ => ⟨.refl bot, fun h => absurd rfl h⟩⟩
    · rw [hdb]
      refine ⟨_, rfl, fun bot hrow => ?_⟩
      split
      · next hname =>
        obtain rfl : bot = placed := List.inj_on_of_nodup_map db.bots.nodup hrow hmem hname
        exact ⟨⟨x, bot.status, rfl⟩, fun _ => .inr hplaces⟩
      · exact ⟨.refl bot, fun h => absurd rfl h⟩
  | _ => exact hrows ▸ hphases

end Transactions

/-! ## The balance history -/

section History

variable {base db db' : Database} {bo : BinaryOption} {c : Candle} {fetch : CandleFetch}
  {name : BotName} {x : ℚ} {k : ℕ}

theorem creditBot_balanceHistory : (db.creditBot name x).balanceHistory = db.balanceHistory := by
  unfold Database.creditBot
  split <;> rfl

theorem pauseIfBroke_balanceHistory :
    (db.pauseIfBroke name).balanceHistory = db.balanceHistory := by
  unfold Database.pauseIfBroke
  split
  · rfl
  · split <;> rfl

theorem recordUserBalance_balanceHistory {t : Option ℕ} {pnl : Option ℚ} :
    (db.recordUserBalance base name t pnl).balanceHistory = db.balanceHistory := by
  unfold Database.recordUserBalance
  split
  · rfl
  · split
    · rfl
    · dsimp only
      split <;> rfl

theorem refundBot_history_prefix (db : Database) :
    db.balanceHistory <+: (db.refundBot name x k).balanceHistory := by
  unfold Database.refundBot Database.addBalanceHistory
  split
  · rw [creditBot_balanceHistory]
  · rw [creditBot_balanceHistory]
    exact List.prefix_append _ _

theorem settles_history_prefix (h : settleSingleTrade base db bo c = some db') :
    db.balanceHistory <+: db'.balanceHistory := by
  cases settles_of_some h with
  | missingFill =>
    rw [recordUserBalance_balanceHistory]
    exact refundBot_history_prefix (db.setOrder _)
  | settled =>
    rw [recordUserBalance_balanceHistory, pauseIfBroke_balanceHistory]
    exact refundBot_history_prefix (db.setOrder _)

theorem cancelWithRefund_history_prefix :
    db.balanceHistory <+: (cancelWithRefund base db bo).balanceHistory := by
  unfold cancelWithRefund
  rw [recordUserBalance_balanceHistory]
  exact refundBot_history_prefix (db.setOrder _)

theorem settlePendingOne_history_prefix (h : settlePendingOne fetch base db bo = some db') :
    db.balanceHistory <+: db'.balanceHistory := by
  unfold settlePendingOne at h
  split_ifs at h
  · cases h
    exact List.prefix_rfl
  · cases h
    exact List.prefix_rfl
  · cases h
    exact cancelWithRefund_history_prefix
  · split at h
    · cases h
      exact List.prefix_rfl
    · exact settles_history_prefix h

theorem sweepStuckOne_history_prefix (h : sweepStuckOne fetch base db bo = some db') :
    db.balanceHistory <+: db'.balanceHistory := by
  unfold sweepStuckOne at h
  split_ifs at h
  · cases h
    exact List.prefix_rfl
  · split at h
    · exact settles_history_prefix h
    · cases h
      exact cancelWithRefund_history_prefix

theorem sweepOrphanOne_history_prefix (h : sweepOrphanOne base db bo = some db') :
    db.balanceHistory <+: db'.balanceHistory := by
  unfold sweepOrphanOne at h
  split_ifs at h
  · cases h
    exact List.prefix_rfl
  · cases h
    exact cancelWithRefund_history_prefix

/-- A pass adds to the history when the work on each order does. -/
theorem foldlM_history_grows {one : Database → BinaryOption → Option Database}
    (hone : ∀ db bo db', one db bo = some db' → db.balanceHistory <+: db'.balanceHistory)
    {rows : List BinaryOption} (h : rows.foldlM one db = some db') :
    db.balanceHistory <+: db'.balanceHistory := by
  induction rows generalizing db with
  | nil =>
    cases h
    exact List.prefix_rfl
  | cons bo rows ih =>
    rw [List.foldlM_cons] at h
    obtain ⟨mid, hmid, hrest⟩ := Option.bind_eq_some_iff.mp h
    exact (hone db bo mid hmid).trans (ih hrest)

/-- **The balance history** after a transaction. -/
theorem history_apply (t : BalanceTransaction) (db : Database) :
    db.balanceHistory <+: (t.apply db).balanceHistory := by
  cases t with
  | createBo now apiKey p first second id =>
    rcases createBo_cases now apiKey p first second id rfl with hsame | ⟨placed, x, new,
      hnew, -, -, -, hdb⟩
    · rw [hsame]
    · rw [hdb]
      exact List.prefix_rfl
  | traceQueued k a =>
    show _ <+: (recordQueued db k a).balanceHistory
    unfold recordQueued
    split <;> exact List.prefix_rfl
  | fill m =>
    show _ <+: (recordFillOf db m).balanceHistory
    unfold recordFillOf recordFill
    split
    · exact List.prefix_rfl
    · split_ifs
      · exact List.prefix_rfl
      · dsimp only
        split
        · rw [creditBot_balanceHistory]
          exact List.prefix_rfl
        · exact List.prefix_rfl
  | lateFill now fetch m =>
    show _ <+: (settleLateFill now fetch db m).balanceHistory
    unfold settleLateFill
    split
    · exact List.prefix_rfl
    · next bo _ =>
      split_ifs
      · split
        · exact List.prefix_rfl
        · next c _ =>
          cases hs : settleSingleTrade db db bo c with
          | none => exact List.prefix_rfl
          | some db' => exact settles_history_prefix hs
      · exact List.prefix_rfl
  | cancel m =>
    show _ <+: (handleOrderCancel db m).1.balanceHistory
    unfold handleOrderCancel
    split
    · exact List.prefix_rfl
    · split_ifs
      · exact List.prefix_rfl
      · dsimp only
        split
        · exact refundBot_history_prefix (db.setOrder _)
        · exact List.prefix_rfl
      · dsimp only
        rw [recordUserBalance_balanceHistory]
        exact refundBot_history_prefix (db.setOrder _)
  | exit now m =>
    show _ <+: (handleBracketExit now db m).1.balanceHistory
    unfold handleBracketExit
    split
    · exact List.prefix_rfl
    · split_ifs <;> exact List.prefix_rfl
  | resolved boIds =>
    show _ <+: (List.foldl _ db _).balanceHistory
    refine List.foldlRecOn (motive := fun x : Database =>
      db.balanceHistory <+: x.balanceHistory) _ _
      List.prefix_rfl ?_
    exact fun x hx bo _ => hx
  | settle now fetch =>
    show _ <+: ((settlePendingTrades now fetch db).getD db).balanceHistory
    cases h : settlePendingTrades now fetch db with
    | none => exact List.prefix_rfl
    | some db' => exact foldlM_history_grows (fun _ _ _ => settlePendingOne_history_prefix) h
  | sweep now fetch =>
    show _ <+: ((sweepStuckOrders now fetch db).getD db).balanceHistory
    cases h : sweepStuckOrders now fetch db with
    | none => exact List.prefix_rfl
    | some db' =>
      obtain ⟨mid, hmid, hrest⟩ := Option.bind_eq_some_iff.mp h
      exact (foldlM_history_grows (fun _ _ _ => sweepStuckOne_history_prefix) hmid).trans
        (foldlM_history_grows (fun _ _ _ => sweepOrphanOne_history_prefix) hrest)

end History

/-! ## Settled orders -/

def BinaryOption.isSettled (bo : BinaryOption) : Bool := bo.result = .win ∨ bo.result = .loss

/-- The time that the transaction reads. -/
def BalanceTransaction.now : BalanceTransaction → Option Time
  | .createBo now .. => some now
  | .lateFill now .. => some now
  | .exit now _ => some now
  | .settle now _ => some now
  | .sweep now _ => some now
  | _ => none

/-- The settlement time of the order has passed when the transaction runs. -/
def BalanceTransaction.FindsDue (t : BalanceTransaction) (bo : BinaryOption) : Prop :=
  ∃ now ∈ t.now, ∃ τ ∈ bo.settlementAt, τ ≤ now

section Settled

variable {db : Database} {t : BalanceTransaction} {bo row : BinaryOption}

theorem isSettled_of_loss (h : bo.result = .loss) : bo.isSettled = true := by
  simp [BinaryOption.isSettled, h]

theorem isSettled_of_win (h : bo.result = .win) : bo.isSettled = true := by
  simp [BinaryOption.isSettled, h]

theorem not_settled_of_pending (h : bo.result = .pending) : bo.isSettled = false := by
  simp [BinaryOption.isSettled, h]

theorem not_settled_of_cancelled (h : bo.result = .cancelled) : bo.isSettled = false := by
  simp [BinaryOption.isSettled, h]

theorem isSettled_congr (h : row.result = bo.result) : row.isSettled = bo.isSettled := by
  unfold BinaryOption.isSettled
  rw [h]

/-- **A booking that settles** finds the order due. -/
theorem booked_due {x : Accounts} {phase : LoadPhase} {b : Booking bo} (hphase : phase ∈ t.phases)
    (hselect : bo ∈ phase.select x) (hdecide : phase.decide bo = .book b)
    (hs : b.row.isSettled = true) :
    bo.isSettled = true ∨ t.FindsDue bo := by
  have hsame : b.row.result = bo.result → bo.isSettled = true ∨ t.FindsDue bo :=
    fun h => .inl ((isSettled_congr h).symm.trans hs)
  have hcancelled : b.row.result = .cancelled → bo.isSettled = true ∨ t.FindsDue bo := fun h => by
    rw [not_settled_of_cancelled h] at hs
    cases hs
  cases t with
  | createBo => cases hphase
  | traceQueued k a =>
    obtain rfl := List.mem_singleton.mp hphase
    cases hdecide
    exact hsame rfl
  | fill m =>
    obtain rfl := List.mem_singleton.mp hphase
    dsimp only [onOrder] at hdecide
    unfold decideFill at hdecide
    split at hdecide
    · cases hdecide
    · cases hdecide
      exact hsame (filledRow_result bo m)
  | lateFill now fetch m =>
    obtain rfl := List.mem_singleton.mp hphase
    dsimp only [onOrder] at hdecide
    unfold decideLateFill at hdecide
    split_ifs at hdecide with hlate
    · obtain ⟨τ, hτ, hle⟩ := (of_decide_eq_true hlate).2.2
      exact .inr ⟨now, rfl, τ, hτ, hle⟩
    · cases hdecide
  | cancel m =>
    obtain rfl := List.mem_singleton.mp hphase
    dsimp only [onOrder] at hdecide
    unfold decideCancel at hdecide
    split at hdecide
    · split at hdecide
      · cases hdecide
        exact hsame rfl
      · cases hdecide
        exact hcancelled rfl
    · cases hdecide
  | exit now m =>
    obtain rfl := List.mem_singleton.mp hphase
    dsimp only [onOrder] at hdecide
    unfold decideExit at hdecide
    split_ifs at hdecide
    · cases hdecide
    · cases hdecide
      exact hsame rfl
    · cases hdecide
  | resolved boIds =>
    obtain rfl := List.mem_singleton.mp hphase
    cases hdecide
    exact hsame rfl
  | settle now fetch =>
    obtain rfl := List.mem_singleton.mp hphase
    obtain ⟨-, τ, hτ, hle⟩ := of_decide_eq_true (List.mem_filter.mp hselect).2
    exact .inr ⟨now, rfl, τ, hτ, hle⟩
  | sweep now fetch =>
    rcases List.mem_cons.mp hphase with rfl | hsecond
    · obtain ⟨-, τ, hτ, hle⟩ := of_decide_eq_true (List.mem_filter.mp hselect).2
      refine .inr ⟨now, rfl, τ, hτ, hle.trans ?_⟩
      unfold STUCK_THRESHOLD
      linarith
    · obtain rfl := List.mem_singleton.mp hsecond
      dsimp only [onOrders] at hdecide
      unfold decideOrphan decideRefund at hdecide
      split_ifs at hdecide
      · cases hdecide
        exact hcancelled rfl
      · cases hdecide

/-- **Where a settled order comes from**, for a transaction on placed orders: it was settled, or
due. -/
theorem settled_phases (h : row ∈ ((runPhases t.phases [] []).run db.accounts).orders.rows) :
    ∃ bo ∈ db.orders.rows, row.terms = bo.terms ∧
      (row.isSettled = true → bo.isSettled = true ∨ t.FindsDue bo) := by
  have hselects := selects_phases (x := db.accounts) t
  rw [run_phases hselects] at h
  cases hnew : bookings db.accounts t.phases with
  | none =>
    rw [hnew] at h
    exact ⟨row, h, rfl, .inl⟩
  | some new =>
    rw [hnew, Option.map_some, Option.getD_some, Booked.book_orders] at h
    obtain ⟨old, hold, rfl⟩ := List.mem_map.mp h
    rcases foldl_onOrder_cases new old with hsame | ⟨b, hb, hrow⟩
    · rw [hsame]
      exact ⟨old, hold, rfl, .inl⟩
    · obtain ⟨phase, hphase, hselect, hdecide⟩ := bookings_decided hnew hb
      rw [hrow]
      exact ⟨b.1, (hselects.known hnew).mem b hb,
        (booked_continues hphase hselect hdecide).continues.terms,
        booked_due hphase hselect hdecide⟩

/-- A draft is pending, and settled when its session closes. -/
theorem choosePath_session {now : Time} {r : Admitted} {p : BOCreate} {second : SnapshotRead}
    {id : ℕ} {d : Draft id} (h : choosePath now r p second id = .ok d) : d.row.result = .pending ∧
      d.row.candleOpen = some r.session.candleOpen ∧
        d.row.settlementAt = some r.session.settlementAt := by
  unfold choosePath at h
  split at h
  · split at h
    · obtain ⟨f, -, rfl⟩ := aggressiveLimit_ok h
      exact ⟨rfl, rfl, rfl⟩
    · cases h
      exact ⟨rfl, rfl, rfl⟩
  · obtain ⟨avg, shares, levels, -, rfl⟩ := marketOrder_ok h
    exact ⟨rfl, rfl, rfl⟩

theorem resolveSession_settlementAt {now : Time} {tf : BOTimeframe} {timestamp : Option ℤ}
    {offset : ℕ} {s : SessionInfo} (h : resolveSession now tf timestamp offset = .ok s) :
    s.settlementAt = (s.candleOpen + TF_SECONDS tf : ℤ) := by
  unfold resolveSession at h
  dsimp only at h
  split at h
  · split_ifs at h
    cases h
    rfl
  · cases h
    rfl

/-- The session of an admitted request is settled at its close. -/
theorem admitRequest_settlementAt {now : Time} {apiKey : String} {p : BOCreate}
    {first : SnapshotRead} {r : Admitted} (h : admitRequest now db apiKey p first = .ok r) :
    r.session.settlementAt = (r.session.candleOpen + TF_SECONDS p.timeframe : ℤ) := by
  unfold admitRequest at h
  obtain ⟨bot, -, h⟩ := ok_of_bind h
  obtain ⟨session, hsession, h⟩ := ok_of_bind h
  obtain ⟨bestAsk, -, h⟩ := ok_of_bind h
  obtain ⟨-, -, h⟩ := ok_of_bind h
  cases h
  exact resolveSession_settlementAt hsession

theorem le_period (tf : BOTimeframe) : 300 ≤ TF_SECONDS tf := by cases tf <;> decide

/-- The candle of the order has closed when it is settled. -/
def BinaryOption.OnCandle (bo : BinaryOption) : Prop :=
  ∀ c ∈ bo.candleOpen, ∃ τ ∈ bo.settlementAt, (c + 300 : ℤ) ≤ τ

/-- **Where a settled order comes from**: it was settled, or due when the transaction ran. -/
theorem settled_apply (h : row ∈ (t.apply db).orders.rows) :
    (∃ bo ∈ db.orders.rows, row.terms = bo.terms ∧
      (row.isSettled = true → bo.isSettled = true ∨ t.FindsDue bo)) ∨
      row.isSettled = false ∧ row.OnCandle := by
  have hphases : row ∈ (t.txn.run db.accounts).orders.rows := by
    rw [← accounts_apply]
    exact h
  cases t with
  | createBo now apiKey p first second id =>
    change row ∈ (insertBo now apiKey p first second id db).orders.rows at h
    unfold insertBo at h
    split at h
    · next hfresh =>
      cases hc : createBo now db apiKey p first second false ⟨id, hfresh⟩ with
      | error e =>
        rw [hc] at h
        exact .inl ⟨row, h, rfl, .inl⟩
      | ok c =>
        rw [hc] at h
        obtain ⟨r, d, hadmit, hpath, rfl⟩ := createBo_ok hc
        rcases List.mem_append.mp h with hold | hnew
        · exact .inl ⟨row, hold, rfl, .inl⟩
        · obtain rfl := List.mem_singleton.mp hnew
          obtain ⟨hpending, hopen, hclose⟩ := choosePath_session hpath
          rw [queuedRow_false]
          refine .inr ⟨not_settled_of_pending hpending, fun c hc' => ⟨_, hclose, ?_⟩⟩
          obtain rfl : r.session.candleOpen = c := Option.some.inj (hopen.symm.trans hc')
          rw [admitRequest_settlementAt hadmit]
          have hperiod := le_period p.timeframe
          exact_mod_cast
            (by omega : r.session.candleOpen + 300 ≤ r.session.candleOpen + TF_SECONDS p.timeframe)
    · exact .inl ⟨row, h, rfl, .inl⟩
  | _ => exact .inl (settled_phases hphases)

end Settled

end PolyArena
