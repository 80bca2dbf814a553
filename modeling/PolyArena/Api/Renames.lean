import PolyArena.Api.Bots
import PolyArena.Api.Traded
import PolyArena.Continued
import Mathlib.Data.Fintype.EquivFin
import Mathlib.Logic.Equiv.Basic

/-!
# Renaming a bot

`rename_bot` of `routers/bots.py`.  Orders and balance histories name their bot, so the request
rewrites the name in three tables.  The user histories refer to the bot by its number; here, where
the name stands for the number, they follow the bot.

1. `relabel` moves all names of a database along a permutation.  Every transaction on orders
   commutes with it (`relabel_apply`).
2. `rename_commutes`: a rename in the middle of any transactions leaves what the same rename leaves
   after them.
-/

namespace PolyArena

open Rounding

/-! ## The request -/

structure BotRename where
  newBotName : String
  apiKey : Option String := none
  deriving DecidableEq, Repr

/-- The `detail` of the errors; those of the other requests on bots are shared. -/
inductive RenameDetail
  | request (detail : BotDetail)
  | invalidApiKey
  | emptyNewName
  | sameName
  deriving DecidableEq, Repr

def RenameDetail.statusCode : RenameDetail → ℕ
  | .request detail => detail.statusCode
  | .invalidApiKey => 401
  | .emptyNewName => 422
  | .sameName => 422

/-- The name of a row after the rename of `old`. -/
def newName (old new name : BotName) : BotName := if name = old then new else name

def Bot.renamed (old new : BotName) (bot : Bot) : Bot :=
  { bot with botName := newName old new bot.botName }

def BinaryOption.renamed (old new : BotName) (bo : BinaryOption) : BinaryOption :=
  { bo with botName := newName old new bo.botName }

def BalanceHistory.renamed (old new : BotName) (row : BalanceHistory) : BalanceHistory :=
  { row with botName := newName old new row.botName }

def UserBalanceHistory.renamed (old new : BotName) (row : UserBalanceHistory) :
    UserBalanceHistory :=
  { row with botName := newName old new row.botName }

theorem newName_injOn {old new : BotName} {names : List BotName} (h : new ∉ names) :
    ∀ a ∈ names, ∀ b ∈ names, newName old new a = newName old new b → a = b := by
  intro a ha b hb heq
  unfold newName at heq
  split_ifs at heq with hold hold' hold'
  · rw [hold, hold']
  · exact absurd (heq ▸ hb) h
  · exact absurd (heq ▸ ha) h
  · exact heq

theorem nodup_renamed {old new : BotName} {rows : List Bot} (hnodup : (rows.map Bot.botName).Nodup)
    (h : new ∉ rows.map Bot.botName) :
    ((rows.map (Bot.renamed old new)).map Bot.botName).Nodup := by
  have hnames : (rows.map (Bot.renamed old new)).map Bot.botName = (rows.map Bot.botName).map
      (newName old new) := by
    rw [List.map_map, List.map_map]
    rfl
  rw [hnames]
  exact hnodup.map_on fun a ha b hb => newName_injOn h a ha b hb

namespace Database

/-- The three updates of `rename_bot`. -/
def renamed (db : Database) (old new : BotName) (h : new ∉ db.bots.rows.map Bot.botName) :
    Database where
  bots := ⟨db.bots.rows.map (Bot.renamed old new), nodup_renamed db.bots.nodup h⟩
  orders := db.orders.mapRows (BinaryOption.renamed old new) fun _ => rfl
  users := db.users
  balanceHistory := db.balanceHistory.map (BalanceHistory.renamed old new)
  userBalanceHistory := db.userBalanceHistory.map (UserBalanceHistory.renamed old new)

/-- The checks on the bot of a request that an inactive bot may be the subject of. -/
def anyOwnBot (db : Database) (user : User) (name : BotName) : Except BotDetail Bot :=
  match db.bots.get name with
  | none => .error .botNotFound
  | some bot => if bot.userId ≠ some user.id then .error .notYourBot else .ok bot

/-- `rename_bot`.  A key is checked when the request carries one that is not empty. -/
def renameBot (db : Database) (userId : ℕ) (name : BotName) (payload : BotRename) :
    Except RenameDetail Database := do
  let user ← (db.currentUser userId).mapError .request
  let bot ← (db.anyOwnBot user name).mapError .request
  if payload.apiKey.any fun key => key ≠ "" ∧ key ≠ bot.apiKey then .error .invalidApiKey
  else
    let new := strip payload.newBotName
    if new = "" then .error .emptyNewName
    else if new = bot.botName then .error .sameName
    else if h : new ∈ db.bots.rows.map Bot.botName then .error (.request (.nameExists new))
    else .ok (db.renamed bot.botName new h)

end Database

/-! ## Relabelling -/

section Relabel

variable (σ : Equiv.Perm BotName)

def Bot.relabel (bot : Bot) : Bot := { bot with botName := σ bot.botName }

def BinaryOption.relabel (bo : BinaryOption) : BinaryOption := { bo with botName := σ bo.botName }

def BalanceHistory.relabel (row : BalanceHistory) : BalanceHistory :=
  { row with botName := σ row.botName }

def UserBalanceHistory.relabel (row : UserBalanceHistory) : UserBalanceHistory :=
  { row with botName := σ row.botName }

theorem relabel_botName (bot : Bot) : (bot.relabel σ).botName = σ bot.botName := rfl

theorem relabel_id (bo : BinaryOption) : (bo.relabel σ).id = Equiv.refl ℕ bo.id := rfl

/-- All names moved along `σ`. -/
def Database.relabel (db : Database) : Database where
  bots := db.bots.rekey σ (Bot.relabel σ) (relabel_botName σ)
  orders := db.orders.rekey (Equiv.refl ℕ) (BinaryOption.relabel σ) (relabel_id σ)
  users := db.users
  balanceHistory := db.balanceHistory.map (BalanceHistory.relabel σ)
  userBalanceHistory := db.userBalanceHistory.map (UserBalanceHistory.relabel σ)

end Relabel

theorem Database.ext_rows {db db' : Database} (hbots : db.bots.rows = db'.bots.rows)
    (horders : db.orders.rows = db'.orders.rows) (husers : db.users = db'.users)
    (hhistory : db.balanceHistory = db'.balanceHistory)
    (huserHistory : db.userBalanceHistory = db'.userBalanceHistory) : db = db' := by
  obtain ⟨bots, orders, users, history, userHistory⟩ := db
  obtain ⟨bots', orders', users', history', userHistory'⟩ := db'
  obtain rfl : bots = bots' := Table.ext_rows hbots
  obtain rfl : orders = orders' := Table.ext_rows horders
  cases husers
  cases hhistory
  cases huserHistory
  rfl

section

variable {σ : Equiv.Perm BotName} {base db db' : Database} {bo : BinaryOption} {name : BotName}
  {x : ℚ} {k : ℕ} {now : Time} {fetch : CandleFetch}

/-! ### The row updates -/

theorem get_relabel_bots (name : BotName) :
    (db.relabel σ).bots.get (σ name) = (db.bots.get name).map (Bot.relabel σ) :=
  Table.get_rekey (relabel_botName σ) name

theorem get_relabel_orders (k : ℕ) :
    (db.relabel σ).orders.get k = (db.orders.get k).map (BinaryOption.relabel σ) :=
  Table.get_rekey (relabel_id σ) k

theorem relabel_setOrder : (db.setOrder bo).relabel σ = (db.relabel σ).setOrder (bo.relabel σ) :=
  Database.ext_rows rfl (congrArg Table.rows (Table.put_rekey (relabel_id σ))) rfl rfl rfl

theorem relabel_setBot (bot : Bot) :
    (db.setBot bot).relabel σ = (db.relabel σ).setBot (bot.relabel σ) :=
  Database.ext_rows (congrArg Table.rows (Table.put_rekey (relabel_botName σ))) rfl rfl rfl rfl

theorem relabel_creditBot : (db.creditBot name x).relabel σ = (db.relabel σ).creditBot
    (σ name) x := by
  unfold Database.creditBot
  rw [get_relabel_bots]
  cases db.bots.get name with
  | none => rfl
  | some bot => exact relabel_setBot _

theorem relabel_addBalanceHistory :
    (db.addBalanceHistory name k).relabel σ = (db.relabel σ).addBalanceHistory (σ name) k := by
  unfold Database.addBalanceHistory
  rw [get_relabel_bots]
  cases db.bots.get name with
  | none => rfl
  | some bot => exact Database.ext_rows rfl rfl rfl List.map_append rfl

theorem relabel_refundBot : (db.refundBot name x k).relabel σ = (db.relabel σ).refundBot
    (σ name) x k := by
  unfold Database.refundBot
  rw [relabel_addBalanceHistory, relabel_creditBot]

theorem relabel_pauseIfBroke :
    (db.pauseIfBroke name).relabel σ = (db.relabel σ).pauseIfBroke (σ name) := by
  unfold Database.pauseIfBroke
  rw [get_relabel_bots]
  cases db.bots.get name with
  | none => rfl
  | some bot =>
    simp only [Option.map_some]
    rw [show (bot.relabel σ).balance = bot.balance from rfl]
    split
    · exact relabel_setBot _
    · rfl

theorem settledProfit_relabel (names : List BotName) :
    (db.relabel σ).settledProfit (names.map σ) = db.settledProfit names := by
  unfold Database.settledProfit Table.total
  show ((db.orders.rows.map _).map _).sum = _
  rw [List.map_map]
  congr 1
  refine List.map_congr_left fun o _ => ?_
  have hname : σ o.botName ∈ names.map σ ↔ o.botName ∈ names :=
    List.mem_map_of_injective σ.injective
  simp only [Function.comp_apply, BinaryOption.relabel, hname]

theorem relabel_recordUserBalance {tradeId : Option ℕ} {pnl : Option ℚ} :
    (db.recordUserBalance base name tradeId pnl).relabel σ =
      (db.relabel σ).recordUserBalance (base.relabel σ) (σ name) tradeId pnl := by
  unfold Database.recordUserBalance
  rw [get_relabel_bots]
  cases base.bots.get name with
  | none => rfl
  | some bot =>
    simp only [Option.map_some]
    rw [show (bot.relabel σ).userId = bot.userId
      from rfl, show (base.relabel σ).users = base.users from rfl]
    cases bot.userId.bind base.users.get with
    | none => rfl
    | some user =>
      dsimp only
      have hnames :
          ((base.relabel σ).bots.rows.filter fun b => b.userId = some user.id ∧ b.isActive).map
          Bot.botName =
          ((base.bots.rows.filter fun b => b.userId = some user.id ∧
            b.isActive).map Bot.botName).map σ := by
        show ((base.bots.rows.map _).filter _).map _ = _
        rw [List.filter_map, List.map_map, List.map_map]
        rfl
      rw [hnames, settledProfit_relabel]
      by_cases hempty : (base.bots.rows.filter fun b => b.userId = some user.id ∧
        b.isActive).map Bot.botName = []
      · rw [if_pos hempty, if_pos (List.map_eq_nil_iff.mpr hempty)]
      · rw [if_neg hempty, if_neg (mt List.map_eq_nil_iff.mp hempty)]
        exact Database.ext_rows rfl rfl rfl rfl List.map_append

/-! ### Settlement -/

theorem verdict_relabel (c : Candle) : verdict (bo.relabel σ) c = verdict bo c := rfl

theorem relabel_settleSingleTrade (c : Candle) :
    (settleSingleTrade base db bo c).map (Database.relabel σ) =
      settleSingleTrade (base.relabel σ) (db.relabel σ) (bo.relabel σ) c := by
  unfold settleSingleTrade
  rw [verdict_relabel]
  cases verdict bo c with
  | raises => rfl
  | missingFill =>
    refine congrArg some ?_
    rw [relabel_recordUserBalance, relabel_refundBot, relabel_setOrder]
    rfl
  | settled result profit =>
    refine congrArg some ?_
    rw [relabel_recordUserBalance, relabel_pauseIfBroke, relabel_refundBot, relabel_setOrder]
    rfl

theorem relabel_cancelWithRefund :
    (cancelWithRefund base db bo).relabel σ = cancelWithRefund (base.relabel σ) (db.relabel σ)
      (bo.relabel σ) := by
  unfold cancelWithRefund
  rw [relabel_recordUserBalance, relabel_refundBot, relabel_setOrder]
  rfl

theorem relabel_settlePendingOne : (settlePendingOne fetch base db bo).map (Database.relabel σ) =
    settlePendingOne fetch (base.relabel σ) (db.relabel σ) (bo.relabel σ) := by
  unfold settlePendingOne
  rw [show (bo.relabel σ).result = bo.result from rfl,
    show (bo.relabel σ).positionClosed = bo.positionClosed from rfl,
    show (bo.relabel σ).meOrderStatus = bo.meOrderStatus from rfl,
    show (bo.relabel σ).candleRequest = bo.candleRequest from rfl]
  split_ifs
  · rfl
  · rfl
  · exact congrArg some relabel_cancelWithRefund
  · cases fetch bo.candleRequest with
    | none => rfl
    | some c => exact relabel_settleSingleTrade c

theorem relabel_sweepStuckOne : (sweepStuckOne fetch base db bo).map (Database.relabel σ) =
    sweepStuckOne fetch (base.relabel σ) (db.relabel σ) (bo.relabel σ) := by
  unfold sweepStuckOne
  rw [show (bo.relabel σ).result = bo.result from rfl,
    show (bo.relabel σ).candleRequest = bo.candleRequest from rfl]
  split_ifs
  · rfl
  · cases fetch bo.candleRequest with
    | none => exact congrArg some relabel_cancelWithRefund
    | some c => exact relabel_settleSingleTrade c

theorem relabel_sweepOrphanOne : (sweepOrphanOne base db bo).map (Database.relabel σ) =
    sweepOrphanOne (base.relabel σ) (db.relabel σ) (bo.relabel σ) := by
  unfold sweepOrphanOne
  rw [show (bo.relabel σ).result = bo.result from rfl]
  split_ifs
  · rfl
  · exact congrArg some relabel_cancelWithRefund

/-- A pass whose loop body commutes with the relabelling does so itself. -/
theorem relabel_foldlM {f f' : Database → BinaryOption → Option Database}
    (hf : ∀ db bo, (f db bo).map (Database.relabel σ) = f' (db.relabel σ) (bo.relabel σ))
    (rows : List BinaryOption) (db : Database) : (rows.foldlM f db).map (Database.relabel σ) =
      (rows.map (BinaryOption.relabel σ)).foldlM f' (db.relabel σ) := by
  induction rows generalizing db with
  | nil => rfl
  | cons bo rows ih =>
    rw [List.map_cons, List.foldlM_cons, List.foldlM_cons, ← hf]
    cases f db bo with
    | none => rfl
    | some mid => exact ih mid

/-- A query that does not look at names. -/
theorem filter_relabel (p : BinaryOption → Bool) (hp : ∀ bo, p (BinaryOption.relabel σ bo) = p bo) :
    (db.relabel σ).orders.rows.filter p = (db.orders.rows.filter p).map
      (BinaryOption.relabel σ) := by
  show (db.orders.rows.map _).filter p = _
  rw [List.filter_map, show p ∘ BinaryOption.relabel σ = p from funext hp]

theorem relabel_settlePendingTrades : (settlePendingTrades now fetch db).map (Database.relabel σ) =
    settlePendingTrades now fetch (db.relabel σ) := by
  unfold settlePendingTrades
  rw [filter_relabel (isDue now) fun _ => rfl]
  exact relabel_foldlM (fun _ _ => relabel_settlePendingOne) _ _

theorem relabel_sweepStuckOrders : (sweepStuckOrders now fetch db).map (Database.relabel σ) =
    sweepStuckOrders now fetch (db.relabel σ) := by
  unfold sweepStuckOrders
  rw [filter_relabel (isStuck now) fun _ => rfl, filter_relabel (isOrphaned now) fun _ => rfl,
    ← relabel_foldlM (f := sweepStuckOne fetch db) (fun _ _ => relabel_sweepStuckOne)]
  cases (db.orders.rows.filter (isStuck now)).foldlM (sweepStuckOne fetch db) db with
  | none => rfl
  | some mid => exact relabel_foldlM (fun _ _ => relabel_sweepOrphanOne) _ _

/-- A transaction that is rolled back when it raises. -/
theorem relabel_getD {result result' : Option Database}
    (h : result.map (Database.relabel σ) = result') :
    (result.getD db).relabel σ = result'.getD (db.relabel σ) := by
  subst h
  cases result <;> rfl

/-! ### The stream handlers -/

theorem filledRow_relabel (m : FillMessage) :
    filledRow (bo.relabel σ) m = (filledRow bo m).relabel σ := by
  unfold filledRow
  cases m.status <;> rfl

theorem relabel_recordFillOf (m : FillMessage) :
    (recordFillOf db m).relabel σ = recordFillOf (db.relabel σ) m := by
  unfold recordFillOf
  rw [get_relabel_orders]
  cases db.orders.get m.boId with
  | none => rfl
  | some bo =>
    simp only [Option.map_some]
    rw [show (bo.relabel σ).result = bo.result from rfl]
    split
    · rfl
    · unfold recordFill
      rw [filledRow_relabel, show fillRebate (bo.relabel σ) m = fillRebate bo m from rfl]
      dsimp only
      split
      · rw [relabel_creditBot, relabel_setOrder]
        rfl
      · exact relabel_setOrder

theorem relabel_settleLateFill (m : FillMessage) :
    (settleLateFill now fetch db m).relabel σ = settleLateFill now fetch (db.relabel σ) m := by
  unfold settleLateFill
  rw [get_relabel_orders]
  cases db.orders.get m.boId with
  | none => rfl
  | some bo =>
    simp only [Option.map_some]
    rw [show isLateFill now (bo.relabel σ) m = isLateFill now bo m from rfl,
      show (bo.relabel σ).candleRequest = bo.candleRequest from rfl]
    split
    · cases fetch bo.candleRequest with
      | none => rfl
      | some c => exact relabel_getD (relabel_settleSingleTrade c)
    · rfl

theorem relabel_handleOrderCancel (m : CancelMessage) :
    (handleOrderCancel db m).1.relabel σ = (handleOrderCancel (db.relabel σ) m).1 := by
  unfold handleOrderCancel
  rw [get_relabel_orders]
  cases db.orders.get m.boId with
  | none => rfl
  | some bo =>
    simp only [Option.map_some]
    rw [show (bo.relabel σ).result = bo.result from rfl,
      show unfilledRefund (bo.relabel σ) m = unfilledRefund bo m from rfl]
    split_ifs
    · rfl
    · rw [relabel_refundBot, relabel_setOrder]
      rfl
    · exact relabel_setOrder
    · rw [relabel_recordUserBalance, relabel_refundBot, relabel_setOrder]
      rfl

theorem relabel_handleBracketExit (m : ExitMessage) :
    (handleBracketExit now db m).1.relabel σ = (handleBracketExit now (db.relabel σ) m).1 := by
  unfold handleBracketExit
  rw [get_relabel_orders]
  cases db.orders.get m.boId with
  | none => rfl
  | some bo =>
    simp only [Option.map_some]
    rw [show (bo.relabel σ).exitTrigger = bo.exitTrigger from rfl,
      show (bo.relabel σ).result = bo.result from rfl,
        show isFullExit (bo.relabel σ) m = isFullExit bo m from rfl,
      show (bo.relabel σ).avgPrice = bo.avgPrice from rfl]
    split_ifs
    · rfl
    · exact relabel_setOrder
    · rfl

theorem relabel_handleMarketResolved (boIds : List ℕ) :
    (handleMarketResolved db boIds).1.relabel σ =
      (handleMarketResolved (db.relabel σ) boIds).1 := by
  have hfold : ∀ (rows : List BinaryOption) (db : Database),
      (rows.foldl (fun db bo => db.setOrder (resolvedRow bo)) db).relabel σ =
        (rows.map (BinaryOption.relabel σ)).foldl (fun db bo => db.setOrder (resolvedRow bo))
          (db.relabel σ) := by
    intro rows
    induction rows with
    | nil => exact fun _ => rfl
    | cons bo rows ih =>
      intro db
      rw [List.foldl_cons, ih, relabel_setOrder]
      rfl
  unfold handleMarketResolved
  dsimp only
  rw [hfold, filter_relabel _ fun _ => rfl]

theorem relabel_recordQueued (k : ℕ) (a : TraceAction) :
    (recordQueued db k a).relabel σ = recordQueued (db.relabel σ) k a := by
  unfold recordQueued
  rw [get_relabel_orders]
  cases db.orders.get k with
  | none => rfl
  | some bo => exact relabel_setOrder

/-! ### Creating an order -/

def Admitted.relabel (σ : Equiv.Perm BotName) (r : Admitted) : Admitted :=
  { r with bot := r.bot.relabel σ }

def Draft.relabel (σ : Equiv.Perm BotName) (d : Draft k) : Draft k where
  balance := d.balance
  row := d.row.relabel σ
  queue := d.queue
  row_id := d.row_id

theorem botByKey_relabel (apiKey : String) :
    (db.relabel σ).botByKey apiKey = (db.botByKey apiKey).map (Bot.relabel σ) := by
  show (db.bots.rows.map _).find? _ = _
  rw [List.find?_map]
  rfl

section Create

variable {apiKey : String} {p : BOCreate} {first second : SnapshotRead} {r : Admitted}

theorem admitBot_relabel : admitBot (db.relabel σ) apiKey p = (admitBot db apiKey p).map
    (Bot.relabel σ) := by
  unfold admitBot
  rw [botByKey_relabel]
  cases db.botByKey apiKey with
  | none => rfl
  | some bot =>
    simp only [Option.map_some]
    rw [show (bot.relabel σ).status = bot.status
      from rfl, show (bot.relabel σ).balance = bot.balance from rfl]
    split_ifs <;> rfl

theorem admitRequest_relabel : admitRequest now (db.relabel σ) apiKey p first =
    (admitRequest now db apiKey p first).map (Admitted.relabel σ) := by
  unfold admitRequest
  rw [admitBot_relabel]
  cases admitBot db apiKey p with
  | error e => rfl
  | ok bot =>
    cases hsession : resolveSession now p.timeframe p.timestamp (p.sessionOffset.getD 0) with
    | error e => simp only [Except.map, bind, Except.bind]
    | ok session =>
      cases hask : sessionBestAsk session first with
      | error e => simp only [Except.map, bind, Except.bind, hask]
      | ok bestAsk =>
        cases hcheck : preValidate p bestAsk with
        | error e => simp only [Except.map, bind, Except.bind, hask, hcheck]
        | ok u =>
          simp only [Except.map, bind, Except.bind, hask, hcheck]
          rfl

theorem choosePath_relabel :
    choosePath now (r.relabel σ) p second k = (choosePath now r p second k).map
      (Draft.relabel σ) := by
  unfold choosePath
  cases p.limitPrice with
  | some limit =>
    dsimp only
    rw [show (r.relabel σ).bestAsk = r.bestAsk from rfl]
    split
    · unfold aggressiveLimit
      rw [show (r.relabel σ).balance = r.balance from rfl]
      split
      · rfl
      · cases fillLimitFromSnapshot second p.amount limit <;> rfl
    · rfl
  | none =>
    unfold marketOrder
    cases fillMarketFromSnapshot second p.amount p.slippageTolerance
      (p.orderType.getD .fak) p.ceilingPrice <;> rfl

theorem ids_relabel : (db.relabel σ).orders.rows.map BinaryOption.id =
    db.orders.rows.map BinaryOption.id := by
  show (db.orders.rows.map _).map _ = _
  rw [List.map_map]
  rfl

/-- What `insertBo` leaves, once the request is admitted and the path is chosen. -/
theorem insertBo_ok {d : Draft k} (hfresh : k ∉ db.orders.rows.map BinaryOption.id)
    (hrequest : admitRequest now db apiKey p first = .ok r)
    (hpath : choosePath now r p second k = .ok d) :
    insertBo now apiKey p first second k db = (commitDraft db r.bot false ⟨k, hfresh⟩ d).db := by
  unfold insertBo createBo
  rw [dif_pos hfresh, hrequest]
  simp only [bind, Except.bind, hpath]
  rfl

theorem relabel_insertBo : (insertBo now apiKey p first second k db).relabel σ =
    insertBo now apiKey p first second k (db.relabel σ) := by
  by_cases hfresh : k ∉ db.orders.rows.map BinaryOption.id
  · have hfresh' : k ∉ (db.relabel σ).orders.rows.map BinaryOption.id := by rwa [ids_relabel]
    cases hadmit : admitRequest now db apiKey p first with
    | error e =>
      unfold insertBo createBo
      rw [dif_pos hfresh, dif_pos hfresh', admitRequest_relabel, hadmit]
      rfl
    | ok r =>
      have hadmit' : admitRequest now (db.relabel σ) apiKey p first = .ok (r.relabel σ) := by
        rw [admitRequest_relabel, hadmit]
        rfl
      cases hpath : choosePath now r p second k with
      | error e =>
        have hpath' : choosePath now (r.relabel σ) p second k = .error e := by
          rw [choosePath_relabel, hpath]
          rfl
        unfold insertBo createBo
        rw [dif_pos hfresh, dif_pos hfresh', hadmit, hadmit']
        simp only [bind, Except.bind, hpath, hpath']
      | ok d =>
        have hpath' : choosePath now (r.relabel σ) p second k = .ok (d.relabel σ) := by
          rw [choosePath_relabel, hpath]
          rfl
        rw [insertBo_ok hfresh hadmit hpath, insertBo_ok hfresh' hadmit' hpath']
        refine Database.ext_rows ?_ ?_ rfl rfl rfl
        · exact congrArg Table.rows (Table.put_rekey (relabel_botName σ))
        · show (db.orders.rows ++ [queuedRow d.row false d.queue]).map _ =
            db.orders.rows.map _ ++ [queuedRow (d.relabel σ).row false (d.relabel σ).queue]
          rw [queuedRow_false, queuedRow_false, List.map_append]
          rfl
  · have hfresh' : ¬ k ∉ (db.relabel σ).orders.rows.map BinaryOption.id := by rwa [ids_relabel]
    unfold insertBo
    rw [dif_neg hfresh, dif_neg hfresh']

end Create

/-- **Every transaction** commutes with a relabelling. -/
theorem relabel_apply (t : BalanceTransaction) :
    (t.apply db).relabel σ = t.apply (db.relabel σ) := by
  cases t with
  | createBo now apiKey p first second id => exact relabel_insertBo
  | traceQueued k a => exact relabel_recordQueued k a
  | fill m => exact relabel_recordFillOf m
  | lateFill now fetch m => exact relabel_settleLateFill m
  | cancel m => exact relabel_handleOrderCancel m
  | exit now m => exact relabel_handleBracketExit m
  | resolved boIds => exact relabel_handleMarketResolved boIds
  | settle now fetch => exact relabel_getD relabel_settlePendingTrades
  | sweep now fetch => exact relabel_getD relabel_sweepStuckOrders

end

/-! ## The names of a database -/

namespace Database

/-- All names that rows carry. -/
def mentioned (db : Database) : List BotName :=
  db.bots.rows.map Bot.botName ++ db.orders.rows.map BinaryOption.botName ++
    db.balanceHistory.map BalanceHistory.botName ++
      db.userBalanceHistory.map UserBalanceHistory.botName

/-- The orders and the histories name bots that are there. -/
def NamesBots (db : Database) : Prop := ∀ name ∈ db.mentioned, name ∈ db.bots.rows.map Bot.botName

instance (db : Database) : Decidable db.NamesBots :=
  inferInstanceAs (Decidable (∀ name ∈ db.mentioned, name ∈ db.bots.rows.map Bot.botName))

end Database

section

variable {σ : Equiv.Perm BotName} {db db' : Database} {old new name : BotName} {userId : ℕ}
  {payload : BotRename}

theorem mem_mentioned : name ∈ db.mentioned ↔ (∃ bot ∈ db.bots.rows, bot.botName = name) ∨
    (∃ bo ∈ db.orders.rows, bo.botName = name) ∨ (∃ row ∈ db.balanceHistory, row.botName = name) ∨
      ∃ row ∈ db.userBalanceHistory, row.botName = name := by
  unfold Database.mentioned
  simp only [List.mem_append, List.mem_map, or_assoc]

theorem mentioned_relabel : (db.relabel σ).mentioned = db.mentioned.map σ := by
  unfold Database.mentioned Database.relabel Table.rekey
  simp only [List.map_append, List.map_map]
  rfl

/-- A relabelling of the rows that agrees with a renaming of what they carry. -/
theorem relabel_eq_self (h : ∀ name ∈ db.mentioned, σ name = name) : db.relabel σ = db := by
  have hmap : ∀ {α : Type} (rows : List α) (f : α → α), (∀ row ∈ rows, f row = row) →
      rows.map f = rows :=
    fun rows f hf => (List.map_congr_left hf).trans (List.map_id _)
  have hbots : ∀ bot ∈ db.bots.rows, bot.relabel σ = bot := by
    intro bot hbot
    unfold Bot.relabel
    rw [h _ (mem_mentioned.mpr (.inl ⟨bot, hbot, rfl⟩))]
  have horders : ∀ bo ∈ db.orders.rows, bo.relabel σ = bo := by
    intro bo hbo
    unfold BinaryOption.relabel
    rw [h _ (mem_mentioned.mpr (.inr (.inl ⟨bo, hbo, rfl⟩)))]
  have hhistory : ∀ row ∈ db.balanceHistory, row.relabel σ = row := by
    intro row hrow
    unfold BalanceHistory.relabel
    rw [h _ (mem_mentioned.mpr (.inr (.inr (.inl ⟨row, hrow, rfl⟩))))]
  have huserHistory : ∀ row ∈ db.userBalanceHistory, row.relabel σ = row := by
    intro row hrow
    unfold UserBalanceHistory.relabel
    rw [h _ (mem_mentioned.mpr (.inr (.inr (.inr ⟨row, hrow, rfl⟩))))]
  exact Database.ext_rows (hmap _ _ hbots) (hmap _ _ horders) rfl (hmap _ _ hhistory)
    (hmap _ _ huserHistory)

/-- **A transaction brings no name in.**  A name that it brought in could be swapped with one that
is not used before or after it; the swap does not move the database before, so it does not move the
one after. -/
theorem mentioned_apply (t : BalanceTransaction) (h : name ∈ (t.apply db).mentioned) :
    name ∈ db.mentioned := by
  refine Classical.byContradiction fun hnew => ?_
  obtain ⟨unused, hunused⟩ := Infinite.exists_notMem_finset
    (db.mentioned ++ (t.apply db).mentioned).toFinset
  rw [List.mem_toFinset, List.mem_append, not_or] at hunused
  have hbefore : db.relabel (Equiv.swap name unused) = db := by
    refine relabel_eq_self fun n hn => Equiv.swap_apply_of_ne_of_ne ?_ ?_
    · rintro rfl
      exact hnew hn
    · rintro rfl
      exact hunused.1 hn
  have hafter : (t.apply db).relabel (Equiv.swap name unused) = t.apply db := by
    rw [relabel_apply, hbefore]
  refine hunused.2 ?_
  rw [← hafter, mentioned_relabel]
  exact List.mem_map.mpr ⟨name, h, Equiv.swap_apply_left name unused⟩

theorem botNames_apply (t : BalanceTransaction) :
    (t.apply db).bots.rows.map Bot.botName = db.bots.rows.map Bot.botName := by
  obtain ⟨f, hf, hkeeps⟩ := bots_apply t db
  rw [hf, List.map_map]
  refine List.map_congr_left fun bot hbot => ?_
  obtain ⟨⟨x, s, hx⟩, -⟩ := hkeeps bot hbot
  rw [Function.comp_apply, hx]

theorem namesBots_apply (t : BalanceTransaction) (h : db.NamesBots) : (t.apply db).NamesBots := by
  intro name hname
  rw [botNames_apply]
  exact h name (mentioned_apply t hname)

/-! ## The request and the transactions -/

theorem newName_eq_swap (hnames : db.NamesBots) (h : new ∉ db.bots.rows.map Bot.botName)
    (hname : name ∈ db.mentioned) : newName old new name = Equiv.swap old new name := by
  unfold newName
  rw [Equiv.swap_apply_def]
  by_cases hold : name = old
  · rw [if_pos hold, if_pos hold]
  · have hnew : name ≠ new := fun e => h (e ▸ hnames name hname)
    rw [if_neg hold, if_neg hold, if_neg hnew]

/-- A rename to a name that no row carries is a swap of the two. -/
theorem renamed_eq_relabel (hnames : db.NamesBots) (h : new ∉ db.bots.rows.map Bot.botName) :
    db.renamed old new h = db.relabel (Equiv.swap old new) := by
  refine Database.ext_rows ?_ ?_ rfl ?_ ?_
  · refine List.map_congr_left fun bot hbot => ?_
    unfold Bot.renamed Bot.relabel
    rw [newName_eq_swap hnames h (mem_mentioned.mpr (.inl ⟨bot, hbot, rfl⟩))]
  · refine List.map_congr_left fun bo hbo => ?_
    unfold BinaryOption.renamed BinaryOption.relabel
    rw [newName_eq_swap hnames h (mem_mentioned.mpr (.inr (.inl ⟨bo, hbo, rfl⟩)))]
  · refine List.map_congr_left fun row hrow => ?_
    unfold BalanceHistory.renamed BalanceHistory.relabel
    rw [newName_eq_swap hnames h (mem_mentioned.mpr (.inr (.inr (.inl ⟨row, hrow, rfl⟩))))]
  · refine List.map_congr_left fun row hrow => ?_
    unfold UserBalanceHistory.renamed UserBalanceHistory.relabel
    rw [newName_eq_swap hnames h (mem_mentioned.mpr (.inr (.inr (.inr ⟨row, hrow, rfl⟩))))]

/-- The relabelled database names its bots. -/
theorem namesBots_relabel (h : db.NamesBots) : (db.relabel σ).NamesBots := by
  intro name hname
  rw [mentioned_relabel] at hname
  obtain ⟨n, hn, rfl⟩ := List.mem_map.mp hname
  obtain ⟨bot, hbot, rfl⟩ := List.mem_map.mp (h n hn)
  exact List.mem_map.mpr ⟨bot.relabel σ, List.mem_map_of_mem hbot, rfl⟩

/-- The bot of a name is the same under another balance and status. -/
theorem get_apply_bots (db : Database) (t : BalanceTransaction) (name : BotName) :
    ∃ x s, (t.apply db).bots.get name =
    (db.bots.get name).map fun bot => { bot with balance := x, status := s } := by
  cases hget : db.bots.get name with
  | none =>
    refine ⟨0, .active, ?_⟩
    cases hafter : (t.apply db).bots.get name with
    | none => rfl
    | some bot =>
      have hmem : name ∈ (t.apply db).bots.rows.map Bot.botName :=
        List.mem_map.mpr ⟨bot, Table.mem_of_get hafter, Table.key_of_get hafter⟩
      rw [botNames_apply] at hmem
      obtain ⟨old, hold, rfl⟩ := List.mem_map.mp hmem
      rw [Table.get_of_mem hold] at hget
      cases hget
  | some bot =>
    obtain ⟨f, hf, hkeeps⟩ := bots_apply t db
    obtain ⟨⟨x, s, hx⟩, -⟩ := hkeeps bot (Table.mem_of_get hget)
    have hname : (f bot).botName = name := by
      have hkey : bot.botName = name := Table.key_of_get hget
      rw [hx]
      exact hkey
    have hmem : f bot ∈ (t.apply db).bots.rows := hf ▸ List.mem_map_of_mem (Table.mem_of_get hget)
    refine ⟨x, s, ?_⟩
    rw [← hname, Table.get_of_mem hmem, hx]
    rfl

theorem currentUser_apply (t : BalanceTransaction) (userId : ℕ) :
    (t.apply db).currentUser userId = db.currentUser userId := by
  unfold Database.currentUser
  rw [(trades_apply t).users]

theorem anyOwnBot_apply (db : Database) (t : BalanceTransaction) (user : User) (name : BotName) :
    ∃ x s, (t.apply db).anyOwnBot user name =
      (db.anyOwnBot user name).map fun bot => { bot with balance := x, status := s } := by
  obtain ⟨x, s, hget⟩ := get_apply_bots db t name
  refine ⟨x, s, ?_⟩
  unfold Database.anyOwnBot
  rw [hget]
  cases db.bots.get name with
  | none => rfl
  | some bot =>
    show (if bot.userId ≠ some user.id then Except.error _ else Except.ok _) =
      Except.map _ (if bot.userId ≠ some user.id then Except.error _ else Except.ok _)
    split_ifs <;> rfl

/-- A rename after a transaction is a transaction after the rename. -/
theorem renameBot_apply (hnames : db.NamesBots) (t : BalanceTransaction) :
    (t.apply db).renameBot userId name payload = (db.renameBot userId name payload).map
      (t.apply ·) := by
  unfold Database.renameBot
  rw [currentUser_apply]
  cases db.currentUser userId with
  | error e => rfl
  | ok user =>
    obtain ⟨x, s, hown⟩ := anyOwnBot_apply db t user name
    simp only [hown, Except.mapError, bind, Except.bind]
    cases db.anyOwnBot user name with
    | error e => rfl
    | ok bot =>
      simp only [Except.map]
      split_ifs with hkey hempty hsame htaken' htaken htaken
      · rfl
      · rfl
      · rfl
      · rfl
      · rw [botNames_apply] at htaken'
        exact absurd htaken' htaken
      · rw [botNames_apply] at htaken'
        exact absurd htaken htaken'
      · refine congrArg Except.ok ?_
        rw [renamed_eq_relabel hnames htaken, renamed_eq_relabel (namesBots_apply t hnames) htaken',
          relabel_apply]

/-- **A rename** at any point of the transactions leaves what the same rename leaves after them, and
it is refused at one point when it is refused at the other. -/
theorem renameBot_serially (hnames : db.NamesBots) (ts : List BalanceTransaction) :
    (serially db ts).renameBot userId name payload =
      (db.renameBot userId name payload).map fun db' => serially db' ts := by
  induction ts generalizing db with
  | nil => exact (congrFun Except.map_id _).symm
  | cons t ts ih =>
    show (serially (t.apply db) ts).renameBot userId name payload = _
    rw [ih (namesBots_apply t hnames), renameBot_apply hnames t]
    show ((db.renameBot userId name payload).map _).map _ = _
    cases db.renameBot userId name payload with
    | error e => rfl
    | ok db' => rfl

end

end PolyArena
