import PolyArena.TransactionsAlone

/-!
# What trading leaves of the bots

No transaction on orders touches a user, and of a bot it writes the balance and the status.

1. `Trades R db db'`: the users are the same, and every bot became one that `R` relates it to.
2. `BotRelation`: a relation that the credits of a transaction keep, when each of them is one that
   the relation `Allows`.
3. `trades_apply`: every transaction keeps the name, the owner, the initial balance and the grid
   (`KeepsBot`).
4. `PaysBot own`: a transaction that credits takes nothing off the bots of the list, when none of
   the orders that it settles or cancels for them can lose more than it holds
   (`BinaryOption.Covered`).
-/

namespace PolyArena

open Rounding

/-- A bot under another balance and status. -/
structure KeepsBot (bot bot' : Bot) : Prop where
  botName : bot'.botName = bot.botName
  isActive : bot'.isActive = bot.isActive
  initialBalance : bot'.initialBalance = bot.initialBalance
  userId : bot'.userId = bot.userId
  onGrid : bot.balance ∈ grid 8 → bot'.balance ∈ grid 8

/-- Nothing was taken off it, if it is one of the bots `own`. -/
structure PaysBot (own : List BotName) (bot bot' : Bot) : Prop extends KeepsBot bot bot' where
  le : bot.botName ∈ own → bot.balance ∈ grid 8 → bot.balance ≤ bot'.balance

/-- The credit is one that `R` allows for the bot. -/
def Allows (R : Bot → Bot → Prop) (name : BotName) (x : ℚ) : Prop :=
  ∀ bot : Bot, bot.botName = name → R bot { bot with balance := round8 (bot.balance + x) }

/-- A relation between a bot and what becomes of it, which a gain keeps. -/
structure BotRelation (R : Bot → Bot → Prop) : Prop where
  refl : ∀ bot, R bot bot
  trans : ∀ {bot bot' bot''}, R bot bot' → R bot' bot'' → R bot bot''
  pause : ∀ bot, R bot { bot with status := .paused }
  gain : ∀ name x, 0 ≤ x → Allows R name x

/-- The users stay, and every bot becomes one that `R` relates it to. -/
structure Trades (R : Bot → Bot → Prop) (db db' : Database) : Prop where
  users : db'.users = db.users
  bots : ∃ f, db'.bots.rows = db.bots.rows.map f ∧ ∀ bot ∈ db.bots.rows, R bot (f bot)

/-- What a verdict credits: the payout, or the amount when the fill is missing. -/
def Verdict.credit (amount : ℚ) : Verdict → ℚ
  | .settled _ profit => round8 (amount + profit)
  | _ => amount

/-- What a pass may credit for the order: its amount, or what the verdict on its candle says. -/
def BinaryOption.credits (bo : BinaryOption) (fetch : CandleFetch) : List ℚ :=
  bo.amount :: (fetch bo.candleRequest).toList.map fun c => (verdict bo c).credit bo.amount

/-- The order does not lose more than it holds. -/
def BinaryOption.Covered (bo : BinaryOption) (fetch : CandleFetch) : Prop :=
  ∀ x ∈ bo.credits fetch, 0 ≤ x

instance (bo : BinaryOption) (fetch : CandleFetch) : Decidable (bo.Covered fetch) :=
  inferInstanceAs (Decidable (∀ x ∈ bo.credits fetch, 0 ≤ x))

section

variable {R : Bot → Bot → Prop} {base db db' db'' : Database} {bo row : BinaryOption}
  {name : BotName} {x : ℚ} {now : Time} {fetch : CandleFetch} {bot bot' bot'' : Bot} {k : ℕ}
  {own : List BotName}

theorem KeepsBot.refl (bot : Bot) : KeepsBot bot bot := ⟨rfl, rfl, rfl, rfl, id⟩

theorem KeepsBot.trans (h : KeepsBot bot bot') (h' : KeepsBot bot' bot'') : KeepsBot bot bot'' where
  botName := h'.botName.trans h.botName
  isActive := h'.isActive.trans h.isActive
  initialBalance := h'.initialBalance.trans h.initialBalance
  userId := h'.userId.trans h.userId
  onGrid := fun hg => h'.onGrid (h.onGrid hg)

theorem keepsBot_allows (name : BotName) (x : ℚ) : Allows KeepsBot name x :=
  fun _ _ => ⟨rfl, rfl, rfl, rfl, fun _ => roundTo_mem_grid _ _⟩

theorem keepsBot_relation : BotRelation KeepsBot where
  refl := .refl
  trans := .trans
  pause := fun _ => ⟨rfl, rfl, rfl, rfl, id⟩
  gain := fun name x _ => keepsBot_allows name x

theorem paysBot_allows (hx : name ∈ own → 0 ≤ x) : Allows (PaysBot own) name x :=
  fun bot hname => ⟨keepsBot_allows name x bot hname, fun hown hg =>
    le_roundTo_of_mem hg (le_add_of_nonneg_right (hx (hname ▸ hown)))⟩

/-- What a pass credits for a covered order. -/
theorem paysBot_allows_credits (hbo : bo.botName ∈ own → bo.Covered fetch) :
    ∀ x ∈ bo.credits fetch, Allows (PaysBot own) bo.botName x :=
  fun x hx => paysBot_allows fun hown => hbo hown x hx

theorem paysBot_relation : BotRelation (PaysBot own) where
  refl := fun bot => ⟨.refl bot, fun _ _ => le_rfl⟩
  trans := fun h h' => ⟨h.toKeepsBot.trans h'.toKeepsBot, fun hown hg =>
    (h.le hown hg).trans (h'.le (h.botName.symm ▸ hown) (h.onGrid hg))⟩
  pause := fun bot => ⟨keepsBot_relation.pause bot, fun _ _ => le_rfl⟩
  gain := fun _ _ hx => paysBot_allows fun _ => hx

/-! ## The row updates -/

@[simp] theorem setOrder_users : (db.setOrder bo).users = db.users := rfl

@[simp] theorem creditBot_users : (db.creditBot name x).users = db.users := by
  unfold Database.creditBot
  split <;> rfl

@[simp] theorem addBalanceHistory_users : (db.addBalanceHistory name k).users = db.users := by
  unfold Database.addBalanceHistory
  split <;> rfl

@[simp] theorem refundBot_users : (db.refundBot name x k).users = db.users := by
  simp [Database.refundBot]

@[simp] theorem pauseIfBroke_users : (db.pauseIfBroke name).users = db.users := by
  unfold Database.pauseIfBroke
  split
  · rfl
  · split <;> rfl

@[simp] theorem recordUserBalance_users {t : Option ℕ} {p : Option ℚ} :
    (db.recordUserBalance base name t p).users = db.users := by
  unfold Database.recordUserBalance
  split
  · rfl
  · split
    · rfl
    · dsimp only; split <;> rfl

/-- The orders and the histories are not looked at. -/
theorem Trades.congr (h : Trades R db db') (husers : db''.users = db'.users)
    (hbots : db''.bots = db'.bots) :
    Trades R db db'' :=
  ⟨husers.trans h.users, by rw [hbots]; exact h.bots⟩

namespace BotRelation

variable (hR : BotRelation R)

include hR

theorem none (db : Database) : Trades R db db :=
  ⟨rfl, id, (List.map_id _).symm, fun bot _ => hR.refl bot⟩

theorem comp (h : Trades R db db') (h' : Trades R db' db'') : Trades R db db'' := by
  obtain ⟨f, hf, hfR⟩ := h.bots
  obtain ⟨g, hg, hgR⟩ := h'.bots
  refine ⟨h'.users.trans h.users, g ∘ f, ?_, fun bot hbot => hR.trans (hfR bot hbot) (hgR _ ?_)⟩
  · rw [hg, hf, List.map_map]
  · rw [hf]
    exact List.mem_map_of_mem hbot

/-- An order row is overwritten and its bot is credited. -/
theorem credit (row : BinaryOption) (name : BotName) (hx : Allows R name x) :
    Trades R db ((db.setOrder row).creditBot name x) := by
  refine ⟨creditBot_users, _, creditBot_rows, fun bot _ => ?_⟩
  split
  · next hname => exact hx bot hname
  · exact hR.refl bot

theorem refund (row : BinaryOption) (name : BotName) (k : ℕ) (hx : Allows R name x) :
    Trades R db ((db.setOrder row).refundBot name x k) :=
  (hR.credit row name hx).congr (by simp) (by simp)

theorem pauseIfBroke (name : BotName) : Trades R db (db.pauseIfBroke name) := by
  refine ⟨pauseIfBroke_users, _, pauseIfBroke_rows, fun bot _ => ?_⟩
  split
  · split
    · exact hR.pause bot
    · exact hR.refl bot
  · exact hR.refl bot

/-! ## Settlement -/

theorem settleSingleTrade {c : Candle} (hcredit : ∀ x ∈ bo.credits fetch, Allows R bo.botName x)
    (hc : fetch bo.candleRequest = some c) (h : settleSingleTrade base db bo c = some db') :
    Trades R db db' := by
  unfold PolyArena.settleSingleTrade at h
  cases hv : verdict bo c with
  | raises => simp [hv] at h
  | missingFill =>
    simp only [hv, Option.some.injEq] at h
    subst h
    exact (hR.refund _ _ _ (hcredit _ List.mem_cons_self)).congr recordUserBalance_users
      recordUserBalance_bots
  | settled result profit =>
    simp only [hv, Option.some.injEq] at h
    subst h
    have hpayout : round8 (bo.amount + profit) ∈ bo.credits fetch := by
      simp [BinaryOption.credits, hc, hv, Verdict.credit]
    exact (hR.comp (hR.refund _ _ _ (hcredit _ hpayout)) (hR.pauseIfBroke _)).congr
      recordUserBalance_users recordUserBalance_bots

theorem cancelWithRefund (hcredit : Allows R bo.botName bo.amount) :
    Trades R db (cancelWithRefund base db bo) :=
  (hR.refund _ _ _ hcredit).congr recordUserBalance_users recordUserBalance_bots

/-- **A pass** over orders whose loop body only trades. -/
theorem foldlM {f : Database → BinaryOption → Option Database} {rows : List BinaryOption}
    (hf : ∀ bo ∈ rows, ∀ db db', f db bo = some db' → Trades R db db')
    (h : rows.foldlM f db = some db') : Trades R db db' := by
  induction rows generalizing db with
  | nil =>
    cases h
    exact hR.none _
  | cons bo rows ih =>
    rw [List.foldlM_cons] at h
    obtain ⟨mid, hmid, hrest⟩ := Option.bind_eq_some_iff.mp h
    exact hR.comp (hf bo List.mem_cons_self db mid hmid)
      (ih (fun bo' hbo' => hf bo' (List.mem_cons_of_mem bo hbo')) hrest)

theorem settlePendingOne
    (hcredit : bo.result = .pending → ∀ x ∈ bo.credits fetch, Allows R bo.botName x)
    (h : settlePendingOne fetch base db bo = some db') : Trades R db db' := by
  unfold PolyArena.settlePendingOne at h
  split_ifs at h with hpending hclosed hunfilled
  · cases h
    exact hR.none db
  · cases h
    exact hR.none db
  · cases h
    exact hR.cancelWithRefund (hcredit (not_not.mp hpending) bo.amount List.mem_cons_self)
  · cases hc : fetch bo.candleRequest with
    | none =>
      rw [hc] at h
      cases h
      exact hR.none db
    | some c =>
      rw [hc] at h
      exact hR.settleSingleTrade (hcredit (not_not.mp hpending)) hc h

theorem sweepStuckOne
    (hcredit : bo.result = .pending → ∀ x ∈ bo.credits fetch, Allows R bo.botName x)
    (h : sweepStuckOne fetch base db bo = some db') : Trades R db db' := by
  unfold PolyArena.sweepStuckOne at h
  split_ifs at h with hpending
  · cases h
    exact hR.none db
  · cases hc : fetch bo.candleRequest with
    | none =>
      rw [hc] at h
      cases h
      exact hR.cancelWithRefund (hcredit (not_not.mp hpending) bo.amount List.mem_cons_self)
    | some c =>
      rw [hc] at h
      exact hR.settleSingleTrade (hcredit (not_not.mp hpending)) hc h

theorem sweepOrphanOne (hcredit : bo.result = .pending → Allows R bo.botName bo.amount)
    (h : sweepOrphanOne base db bo = some db') : Trades R db db' := by
  unfold PolyArena.sweepOrphanOne at h
  split_ifs at h with hpending
  · cases h
    exact hR.none db
  · cases h
    exact hR.cancelWithRefund (hcredit (not_not.mp hpending))

end BotRelation

/-- **`settle_pending_trades`.** -/
theorem trades_settle (hR : BotRelation R) (hcredit : ∀ bo ∈ db.orders.rows, isDue now bo = true →
      ∀ x ∈ bo.credits fetch, Allows R bo.botName x) :
    Trades R db ((settlePendingTrades now fetch db).getD db) := by
  cases h : settlePendingTrades now fetch db with
  | none => exact hR.none db
  | some db' =>
    refine hR.foldlM (fun bo hbo _ _ => hR.settlePendingOne fun _ => ?_) h
    obtain ⟨hrow, hdue⟩ := List.mem_filter.mp hbo
    exact hcredit bo hrow hdue

/-- **`sweep_stuck_orders`.** -/
theorem trades_sweep (hR : BotRelation R) (hcredit : ∀ bo ∈ db.orders.rows,
      isStuck now bo = true ∨ isOrphaned now bo = true →
        ∀ x ∈ bo.credits fetch, Allows R bo.botName x) :
    Trades R db ((sweepStuckOrders now fetch db).getD db) := by
  cases h : sweepStuckOrders now fetch db with
  | none => exact hR.none db
  | some db' =>
    obtain ⟨mid, hstuck, horphan⟩ := Option.bind_eq_some_iff.mp h
    refine hR.comp (hR.foldlM (fun bo hbo _ _ => hR.sweepStuckOne fun _ => ?_) hstuck)
      (hR.foldlM (fun bo hbo _ _ => hR.sweepOrphanOne fun _ => ?_) horphan)
    · obtain ⟨hrow, hstuck⟩ := List.mem_filter.mp hbo
      exact hcredit bo hrow (.inl hstuck)
    · obtain ⟨hrow, horphan⟩ := List.mem_filter.mp hbo
      exact hcredit bo hrow (.inr horphan) bo.amount List.mem_cons_self

/-! ## Every transaction -/

theorem keepsBot_balance {b : ℚ} (bot : Bot) (hb : b ∈ grid 8) :
    KeepsBot bot { bot with balance := b } :=
  ⟨rfl, rfl, rfl, rfl, fun _ => hb⟩

theorem chargeFee_mem_grid {balance fee : ℚ} (h : balance ∈ grid 8) :
    chargeFee balance fee ∈ grid 8 := by
  unfold chargeFee
  split
  · exact roundTo_mem_grid _ _
  · exact h

/-- A path leaves a balance on the grid. -/
theorem choosePath_balance {r : Admitted} {p : BOCreate} {second : SnapshotRead} {d : Draft k}
    (hr : r.balance ∈ grid 8) (h : choosePath now r p second k = .ok d) : d.balance ∈ grid 8 := by
  unfold choosePath at h
  split at h
  · split at h
    · obtain ⟨f, -, rfl⟩ := aggressiveLimit_ok h
      exact chargeFee_mem_grid hr
    · cases h
      exact hr
  · obtain ⟨avg, shares, levels, -, rfl⟩ := marketOrder_ok h
    refine chargeFee_mem_grid ?_
    split
    · exact roundTo_mem_grid _ _
    · exact hr

theorem trades_insertBo {apiKey : String} {p : BOCreate} {first second : SnapshotRead} :
    Trades KeepsBot db (insertBo now apiKey p first second k db) := by
  unfold insertBo
  split
  · next hfresh =>
    cases hc : createBo now db apiKey p first second false ⟨k, hfresh⟩ with
    | error e => exact keepsBot_relation.none db
    | ok c =>
      obtain ⟨r, d, hadmit, hpath, rfl⟩ := createBo_ok hc
      obtain ⟨hbot, hbalance, -⟩ := admitRequest_ok hadmit
      have hgrid : d.balance ∈ grid 8 :=
        choosePath_balance (by rw [hbalance]; exact roundTo_mem_grid _ _) hpath
      have hmem : r.bot ∈ db.bots.rows := List.mem_of_find?_eq_some hbot
      refine ⟨rfl, _, rfl, fun bot hrow => ?_⟩
      split
      · next hname =>
        have hsame := Table.get_of_mem hrow
        rw [hname] at hsame
        obtain rfl : r.bot = bot := Option.some.inj ((Table.get_of_mem hmem).symm.trans hsame)
        exact keepsBot_balance r.bot hgrid
      · exact .refl bot
  · exact keepsBot_relation.none db

theorem trades_recordFillOf (hR : BotRelation R) (m : FillMessage) :
    Trades R db (recordFillOf db m) := by
  unfold recordFillOf
  split
  · exact hR.none db
  · next bo _ =>
    split
    · exact hR.none db
    · unfold recordFill
      dsimp only
      split
      · next hrebate => exact hR.credit _ _ (hR.gain _ _ hrebate.le)
      · exact (hR.none db).congr rfl rfl

theorem trades_settleLateFill (hR : BotRelation R) (m : FillMessage)
    (hcredit : ∀ bo ∈ db.orders.get m.boId, isLateFill now bo m = true →
      ∀ x ∈ bo.credits fetch, Allows R bo.botName x) :
    Trades R db (settleLateFill now fetch db m) := by
  unfold settleLateFill
  split
  · exact hR.none db
  · next bo hbo =>
    split
    · next hlate =>
      split
      · exact hR.none db
      · next c hc =>
        cases h : settleSingleTrade db db bo c with
        | none => exact hR.none db
        | some db' => exact hR.settleSingleTrade (hcredit bo hbo hlate) hc h
    · exact hR.none db

theorem trades_cancel (hR : BotRelation R) (m : CancelMessage)
    (hrefund : ∀ bo ∈ db.orders.get m.boId, bo.result = .pending → Allows R bo.botName bo.amount) :
    Trades R db (handleOrderCancel db m).1 := by
  unfold handleOrderCancel
  split
  · exact hR.none db
  · next bo hbo =>
    split
    · exact hR.none db
    · next hpending =>
      split
      · dsimp only
        split
        · next hback => exact hR.refund _ _ _ (hR.gain _ _ hback.le)
        · exact (hR.none db).congr rfl rfl
      · exact (hR.refund _ _ _ (hrefund bo hbo (not_not.mp hpending))).congr recordUserBalance_users
          recordUserBalance_bots

theorem trades_exit (hR : BotRelation R) (m : ExitMessage) :
    Trades R db (handleBracketExit now db m).1 := by
  unfold handleBracketExit
  split
  · exact hR.none db
  · split
    · split
      · exact hR.none db
      · exact (hR.none db).congr rfl rfl
    · exact hR.none db

theorem trades_resolved (hR : BotRelation R) (boIds : List ℕ) :
    Trades R db (handleMarketResolved db boIds).1 :=
  List.foldlRecOn (motive := fun db' => Trades R db db') _ _ (hR.none db)
    fun _ h _ _ => h.congr rfl rfl

theorem trades_recordQueued (hR : BotRelation R) (k : ℕ) (a : TraceAction) :
    Trades R db (recordQueued db k a) := by
  unfold recordQueued
  split
  · exact hR.none db
  · exact (hR.none db).congr rfl rfl

/-- **Every transaction** on orders. -/
theorem trades_apply (t : BalanceTransaction) : Trades KeepsBot db (t.apply db) := by
  have hR := keepsBot_relation
  cases t with
  | createBo now apiKey p first second id => exact trades_insertBo
  | traceQueued k a => exact trades_recordQueued hR k a
  | fill m => exact trades_recordFillOf hR m
  | lateFill now fetch m => exact trades_settleLateFill hR m fun _ _ _ x _ => keepsBot_allows _ x
  | cancel m => exact trades_cancel hR m fun bo _ _ => keepsBot_allows _ bo.amount
  | exit now m => exact trades_exit hR m
  | resolved boIds => exact trades_resolved hR boIds
  | settle now fetch => exact trades_settle hR fun _ _ _ x _ => keepsBot_allows _ x
  | sweep now fetch => exact trades_sweep hR fun _ _ _ x _ => keepsBot_allows _ x

end

end PolyArena
