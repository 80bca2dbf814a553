import PolyArena.Handlers
import Mathlib.Logic.Relation

/-!
# The ledger

A bot's balance is its initial balance plus the profits it settled, less its entry fees, less what
its pending orders hold (`Balanced`).  Every transaction of the stream handlers and of the two
settlement passes moves money and rewrites an order row at once, and the two changes cancel:

1. `LedgerInv` is `Balanced` together with the amounts being on the grid, which makes the roundings
   of the handlers exact.
2. `LedgerInv.move`: overwriting one row and crediting its bot by the change of the row's entry
   keeps it.  Each handler is an instance.
3. `ledgerInv_foldlM`: a pass over rows of distinct orders keeps it.
4. `balanced_of_run`: so does any finite sequence of transactions.
-/

namespace PolyArena

open Rounding

/-! ## Entries -/

/-- Settled profit of `o`, when it is an order of `name`. -/
def realizedOf (name : BotName) (o : BinaryOption) : ℚ :=
  if o.botName = name ∧ (o.result = .win ∨ o.result = .loss) then o.profit.getD 0 else 0

/-- Entry fee of `o`, when it is an order of `name`. -/
def feeOf (name : BotName) (o : BinaryOption) : ℚ := if o.botName = name then o.fee else 0

/-- Amount that `o` holds, when it is a pending order of `name`. -/
def stakeOf (name : BotName) (o : BinaryOption) : ℚ :=
  if o.botName = name ∧ o.result = .pending then o.amount else 0

/-- For every bot, balance = initial balance + settled profits - fees - pending amounts. -/
def Balanced (db : Database) : Prop :=
  ∀ bot ∈ db.bots.rows, bot.balance = bot.initialBalance + db.orders.total (realizedOf bot.botName)
    - db.orders.total (feeOf bot.botName) - db.orders.total (stakeOf bot.botName)

/-- Every stored balance, amount and entry fee is a multiple of `10⁻⁸`. -/
structure OnGrid (db : Database) : Prop where
  balance : ∀ bot ∈ db.bots.rows, bot.balance ∈ grid 8
  amount : ∀ o ∈ db.orders.rows, o.amount ∈ grid 8
  fee : ∀ o ∈ db.orders.rows, o.fee ∈ grid 8

/-- The ledger invariant. -/
structure LedgerInv (db : Database) : Prop where
  balanced : Balanced db
  onGrid : OnGrid db

/-- The entry of an order in its own bot's account. -/
def entry (o : BinaryOption) : ℚ :=
  realizedOf o.botName o - feeOf o.botName o - stakeOf o.botName o

theorem realizedOf_ne {name : BotName} {o : BinaryOption} (h : o.botName ≠ name) :
    realizedOf name o = 0 := if_neg fun h' => h h'.1

theorem feeOf_ne {name : BotName} {o : BinaryOption} (h : o.botName ≠ name) : feeOf name o = 0 :=
  if_neg h

theorem stakeOf_ne {name : BotName} {o : BinaryOption} (h : o.botName ≠ name) :
    stakeOf name o = 0 := if_neg fun h' => h h'.1

theorem entry_pending {o : BinaryOption} (h : o.result = .pending) :
    entry o = -o.fee - o.amount := by
  simp [entry, realizedOf, feeOf, stakeOf, h]

theorem entry_cancelled {o : BinaryOption} (h : o.result = .cancelled) : entry o = -o.fee := by
  simp [entry, realizedOf, feeOf, stakeOf, h]

theorem entry_settled {o : BinaryOption} {p : ℚ} (h : o.result = .win ∨ o.result = .loss)
    (hp : o.profit = some p) : entry o = p - o.fee := by
  rcases h with h | h <;> simp [entry, realizedOf, feeOf, stakeOf, h, hp]

/-- Only the bots and the orders count. -/
theorem LedgerInv.congr {db db' : Database} (h : LedgerInv db) (hb : db'.bots = db.bots)
    (ho : db'.orders = db.orders) :
    LedgerInv db' := by
  obtain ⟨hbal, hg⟩ := h
  refine ⟨?_, ?_, ?_, ?_⟩
  · intro bot hbot
    rw [hb] at hbot
    rw [ho]
    exact hbal bot hbot
  · rw [hb]; exact hg.balance
  · rw [ho]; exact hg.amount
  · rw [ho]; exact hg.fee

/-! ## Moves -/

/-- A bot row put back with the same name, money and initial balance changes nothing here. -/
theorem LedgerInv.setBot {db : Database} {bot bot' : Bot} (h : LedgerInv db)
    (hget : db.bots.get bot.botName = some bot) (hn : bot'.botName = bot.botName)
    (hb : bot'.balance = bot.balance) (hi : bot'.initialBalance = bot.initialBalance) :
    LedgerInv (db.setBot bot') := by
  have hmem := Table.mem_of_get hget
  refine ⟨fun b hbm => ?_, fun b hbm => ?_, h.onGrid.amount, h.onGrid.fee⟩
  · rcases Table.mem_put hbm with rfl | ⟨hbm, -⟩
    · have := h.balanced bot hmem
      rwa [← hn, ← hb, ← hi] at this
    · exact h.balanced b hbm
  · rcases Table.mem_put hbm with rfl | ⟨hbm, -⟩
    · rw [hb]; exact h.onGrid.balance bot hmem
    · exact h.onGrid.balance b hbm

theorem LedgerInv.pauseIfBroke {db : Database} (h : LedgerInv db) (name : BotName) :
    LedgerInv (db.pauseIfBroke name) := by
  unfold Database.pauseIfBroke
  cases hget : db.bots.get name with
  | none => exact h
  | some bot =>
    dsimp only
    split
    · exact h.setBot (Table.get_key_of_get hget) rfl rfl rfl
    · exact h

/-- **One move.** Overwriting the row `o` by `o'` and crediting its bot by the change of the entry
keeps the invariant. -/
theorem LedgerInv.move {db : Database} {o o' : BinaryOption} {x : ℚ} (h : LedgerInv db)
    (hget : db.orders.get o.id = some o) (hid : o'.id = o.id) (hname : o'.botName = o.botName)
    (ha : o'.amount ∈ grid 8) (hf : o'.fee ∈ grid 8) (hx : x ∈ grid 8)
    (hentry : entry o' = entry o + x) :
    LedgerInv ((db.setOrder o').creditBot o.botName x) := by
  have hget' : db.orders.get o'.id = some o := by rw [hid, hget]
  -- the accounts of the other bots do not see the row
  have hother : ∀ bot ∈ db.bots.rows, bot.botName ≠ o.botName →
      bot.balance = bot.initialBalance + (db.orders.put o').total (realizedOf bot.botName)
        - (db.orders.put o').total (feeOf bot.botName)
        - (db.orders.put o').total (stakeOf bot.botName) := by
    intro bot hbot hne
    have hne' : o'.botName ≠ bot.botName := fun e => hne (e ▸ hname)
    rw [Table.total_put _ hget', Table.total_put _ hget', Table.total_put _ hget',
      realizedOf_ne hne', feeOf_ne hne', stakeOf_ne hne', realizedOf_ne hne.symm, feeOf_ne hne.symm,
      stakeOf_ne hne.symm]
    linarith [h.balanced bot hbot]
  -- its own bot's account moves by `x`
  have hown : ∀ bot ∈ db.bots.rows, bot.botName = o.botName →
      bot.balance + x = bot.initialBalance + (db.orders.put o').total (realizedOf bot.botName)
        - (db.orders.put o').total (feeOf bot.botName)
        - (db.orders.put o').total (stakeOf bot.botName) := by
    intro bot hbot heq
    rw [Table.total_put _ hget', Table.total_put _ hget', Table.total_put _ hget']
    unfold entry at hentry
    rw [hname, ← heq] at hentry
    linarith [h.balanced bot hbot]
  have hamount : ∀ r ∈ (db.orders.put o').rows, r.amount ∈ grid 8 := by
    intro r hr
    rcases Table.mem_put hr with rfl | ⟨hr, -⟩
    · exact ha
    · exact h.onGrid.amount r hr
  have hfee : ∀ r ∈ (db.orders.put o').rows, r.fee ∈ grid 8 := by
    intro r hr
    rcases Table.mem_put hr with rfl | ⟨hr, -⟩
    · exact hf
    · exact h.onGrid.fee r hr
  cases hbot : db.bots.get o.botName with
  | none =>
    have hno : ∀ bot ∈ db.bots.rows, bot.botName ≠ o.botName := by
      intro bot hb e
      have := Table.get_of_mem hb
      rw [e, hbot] at this
      cases this
    have hcredit : (db.setOrder o').creditBot o.botName x = db.setOrder o' := by
      unfold Database.creditBot
      rw [setOrder_bots, hbot]
    rw [hcredit]
    exact ⟨fun bot hb => hother bot hb (hno bot hb), h.onGrid.balance, hamount, hfee⟩
  | some b₀ =>
    have hb₀ := Table.mem_of_get hbot
    have hn₀ := Table.key_of_get hbot
    have hsum : b₀.balance + x ∈ grid 8 := add_mem (h.onGrid.balance b₀ hb₀) hx
    have hcredit : (db.setOrder o').creditBot o.botName x =
        (db.setOrder o').setBot { b₀ with balance := b₀.balance + x } := by
      unfold Database.creditBot
      rw [setOrder_bots, hbot]
      dsimp only
      rw [round8, roundTo_of_mem hsum]
    rw [hcredit]
    refine ⟨fun bot hb => ?_, fun bot hb => ?_, hamount, hfee⟩
    · rcases Table.mem_put hb with rfl | ⟨hb, hne⟩
      · exact hown b₀ hb₀ hn₀
      · exact hother bot hb (fun e => hne (e.trans hn₀.symm))
    · rcases Table.mem_put hb with rfl | ⟨hb, -⟩
      · exact hsum
      · exact h.onGrid.balance bot hb

/-- Overwriting a row without changing its entry keeps the invariant. -/
theorem LedgerInv.rewrite {db : Database} {o : BinaryOption} (h : LedgerInv db) (o' : BinaryOption)
    (hget : db.orders.get o.id = some o) (hid : o'.id = o.id) (hname : o'.botName = o.botName)
    (ha : o'.amount ∈ grid 8) (hf : o'.fee ∈ grid 8) (hentry : entry o' = entry o) :
    LedgerInv (db.setOrder o') := by
  have hmove := h.move hget hid hname ha hf (zero_mem _) (by rw [hentry, add_zero])
  refine hmove.congr ?_ (by simp)
  unfold Database.creditBot
  cases hbot : (db.setOrder o').bots.get o.botName with
  | none => rfl
  | some bot =>
    have hgrid : bot.balance ∈ grid 8 := h.onGrid.balance bot (Table.mem_of_get hbot)
    have hput := Table.put_of_get (Table.get_key_of_get hbot)
    simp only [Database.setBot, round8, add_zero, roundTo_of_mem hgrid]
    exact hput.symm

/-! ## The settlement passes -/

section Settlement

variable {base db db' : Database} {o bo : BinaryOption} {c : Candle}

/-- A pending order cancelled with its amount given back. -/
theorem LedgerInv.cancel (h : LedgerInv db) (o' : BinaryOption) (hget : db.orders.get o.id = some o)
    (hp : o.result = .pending) (hid : o'.id = o.id) (hname : o'.botName = o.botName)
    (ha : o'.amount = o.amount) (hf : o'.fee = o.fee) (hc : o'.result = .cancelled) :
    LedgerInv ((db.setOrder o').creditBot o.botName o.amount) := by
  have hmem := Table.mem_of_get hget
  refine h.move hget hid hname ?_ ?_ (h.onGrid.amount o hmem) ?_
  · rw [ha]; exact h.onGrid.amount o hmem
  · rw [hf]; exact h.onGrid.fee o hmem
  · rw [entry_cancelled hc, entry_pending hp, hf]; ring

theorem binaryProfit_mem_grid (avg shares : ℚ) (won : Bool) :
    binaryProfit avg shares won ∈ grid 8 := by
  unfold binaryProfit
  split <;> exact roundTo_mem_grid _ _

theorem ite_win_loss (p : Prop) [Decidable p] :
    (if p then BOResult.win else .loss) = .win ∨ (if p then BOResult.win else .loss) = .loss := by
  by_cases h : p <;> simp [h]

/-- A settled order is won or lost with a profit on the grid. -/
theorem verdict_settled {r : BOResult} {p : ℚ} (h : verdict bo c = .settled r p) :
    (r = .win ∨ r = .loss) ∧ p ∈ grid 8 := by
  unfold verdict at h
  cases hx : bo.shadowExit with
  | some xe =>
    cases ha : bo.avgPrice with
    | none => simp [hx, ha] at h
    | some avg =>
      simp only [hx, ha, Verdict.settled.injEq] at h
      obtain ⟨hr, hp⟩ := h
      refine ⟨hr ▸ ite_win_loss _, ?_⟩
      rw [← hp]
      refine add_mem (roundTo_mem_grid _ _) ?_
      cases bo.numShares with
      | none => exact zero_mem _
      | some n =>
        dsimp only
        split
        · exact binaryProfit_mem_grid _ _ _
        · exact zero_mem _
  | none =>
    cases ha : bo.avgPrice with
    | none => simp [hx, ha] at h
    | some avg =>
      cases hn : bo.numShares with
      | none => simp [hx, ha, hn] at h
      | some n =>
        simp only [hx, ha, hn, Verdict.settled.injEq] at h
        obtain ⟨hr, hp⟩ := h
        exact ⟨hr ▸ ite_win_loss _, hp ▸ binaryProfit_mem_grid _ _ _⟩

theorem ledgerInv_settleSingleTrade (h : LedgerInv db) (hget : db.orders.get bo.id = some bo)
    (hp : bo.result = .pending) (hs : settleSingleTrade base db bo c = some db') :
    LedgerInv db' := by
  have hmem := Table.mem_of_get hget
  cases settles_of_some hs with
  | missingFill hv =>
    have := h.cancel (settledRow bo c .cancelled 0 .missingFillCancel) hget hp rfl rfl rfl rfl rfl
    exact this.congr (by simp) (by simp)
  | settled r p hv =>
    obtain ⟨hr, hpg⟩ := verdict_settled hv
    have hpay : bo.amount + p ∈ grid 8 := add_mem (h.onGrid.amount bo hmem) hpg
    have hentry : entry (settledRow bo c r p .candleSettled) = entry bo + (bo.amount + p) := by
      have hfee : (settledRow bo c r p .candleSettled).fee = bo.fee := rfl
      rw [entry_settled hr rfl, entry_pending hp, hfee]
      ring
    have hmove : LedgerInv ((db.setOrder (settledRow bo c r p .candleSettled)).creditBot bo.botName
        (bo.amount + p)) :=
      h.move hget rfl rfl (h.onGrid.amount bo hmem) (h.onGrid.fee bo hmem) hpay hentry
    rw [round8, roundTo_of_mem hpay]
    have hrefund :
        LedgerInv ((db.setOrder (settledRow bo c r p .candleSettled)).refundBot bo.botName
        (bo.amount + p) bo.id) := hmove.congr (by simp) (by simp)
    exact (hrefund.pauseIfBroke bo.botName).congr (by simp) (by simp)

theorem ledgerInv_cancelWithRefund (h : LedgerInv db) (hget : db.orders.get o.id = some o)
    (hp : o.result = .pending) (hid : bo.id = o.id) (hname : bo.botName = o.botName)
    (ha : bo.amount = o.amount) (hf : bo.fee = o.fee) :
    LedgerInv (cancelWithRefund base db bo) := by
  have := h.cancel (cancelledRow bo) hget hp hid hname ha hf rfl
  rw [← hname, ← ha] at this
  exact this.congr (by simp [cancelWithRefund]) (by simp [cancelWithRefund])

/-- The orders other than `k` are as they were. -/
def OnlyOrder (k : ℕ) (db db' : Database) : Prop :=
  ∀ j, j ≠ k → db'.orders.get j = db.orders.get j

theorem onlyOrder_of_put (row : BinaryOption) (h : db'.orders = db.orders.put row) :
    OnlyOrder row.id db db' := by
  intro j hj
  rw [h, Table.get_put_ne hj]

theorem onlyOrder_settleSingleTrade (hs : settleSingleTrade base db bo c = some db') :
    OnlyOrder bo.id db db' := by
  cases settles_of_some hs with
  | missingFill hv =>
    exact onlyOrder_of_put (settledRow bo c .cancelled 0 .missingFillCancel) (by simp)
  | settled r p hv => exact onlyOrder_of_put (settledRow bo c r p .candleSettled) (by simp)

theorem onlyOrder_cancelWithRefund (bo : BinaryOption) :
    OnlyOrder bo.id db (cancelWithRefund base db bo) :=
  onlyOrder_of_put (cancelledRow bo) (by simp [cancelWithRefund])

/-- What a loop body of a settlement pass does with the row `bo` of the session. -/
def KeepsLedger (f : Database → BinaryOption → Option Database) : Prop :=
  ∀ db bo db', LedgerInv db → db.orders.get bo.id = some bo → f db bo = some db' →
    LedgerInv db' ∧ OnlyOrder bo.id db db'

theorem keepsLedger_settlePendingOne (fetch : CandleFetch) (base : Database) :
    KeepsLedger (settlePendingOne fetch base) := by
  intro db bo db' h hget hf
  unfold settlePendingOne at hf
  by_cases hp : bo.result ≠ .pending
  · rw [if_pos hp, Option.some.injEq] at hf
    exact hf ▸ ⟨h, fun _ _ => rfl⟩
  rw [if_neg hp] at hf
  have hp := not_not.mp hp
  by_cases hc : bo.positionClosed = true
  · rw [if_pos hc, Option.some.injEq] at hf
    exact hf ▸ ⟨h, fun _ _ => rfl⟩
  rw [if_neg hc] at hf
  by_cases hu : bo.meOrderStatus = some .pending
  · rw [if_pos hu, Option.some.injEq] at hf
    subst hf
    exact ⟨ledgerInv_cancelWithRefund h hget hp rfl rfl rfl rfl,
      onlyOrder_cancelWithRefund (unfilledRow bo)⟩
  rw [if_neg hu] at hf
  cases hfe : fetch bo.candleRequest with
  | none =>
    rw [hfe, Option.some.injEq] at hf
    exact hf ▸ ⟨h, fun _ _ => rfl⟩
  | some c =>
    rw [hfe] at hf
    exact ⟨ledgerInv_settleSingleTrade h hget hp hf, onlyOrder_settleSingleTrade hf⟩

theorem keepsLedger_sweepStuckOne (fetch : CandleFetch) (base : Database) :
    KeepsLedger (sweepStuckOne fetch base) := by
  intro db bo db' h hget hf
  unfold sweepStuckOne at hf
  by_cases hp : bo.result ≠ .pending
  · rw [if_pos hp, Option.some.injEq] at hf
    exact hf ▸ ⟨h, fun _ _ => rfl⟩
  rw [if_neg hp] at hf
  have hp := not_not.mp hp
  cases hfe : fetch bo.candleRequest with
  | none =>
    rw [hfe, Option.some.injEq] at hf
    subst hf
    exact ⟨ledgerInv_cancelWithRefund h hget hp rfl rfl rfl rfl, onlyOrder_cancelWithRefund _⟩
  | some c =>
    rw [hfe] at hf
    exact ⟨ledgerInv_settleSingleTrade h hget hp hf, onlyOrder_settleSingleTrade hf⟩

theorem keepsLedger_sweepOrphanOne (base : Database) : KeepsLedger (sweepOrphanOne base) := by
  intro db bo db' h hget hf
  unfold sweepOrphanOne at hf
  by_cases hp : bo.result ≠ .pending
  · rw [if_pos hp, Option.some.injEq] at hf
    exact hf ▸ ⟨h, fun _ _ => rfl⟩
  rw [if_neg hp, Option.some.injEq] at hf
  subst hf
  exact ⟨ledgerInv_cancelWithRefund h hget (not_not.mp hp) rfl rfl rfl rfl,
    onlyOrder_cancelWithRefund _⟩

/-- **A pass.** The loop over rows of distinct orders, each still as it was read when its turn
comes, keeps the invariant and touches no other order. -/
theorem ledgerInv_foldlM {f : Database → BinaryOption → Option Database} (hf : KeepsLedger f) :
    ∀ (rows : List BinaryOption) (db db' : Database), (rows.map BinaryOption.id).Nodup →
      (∀ r ∈ rows, db.orders.get r.id = some r) → LedgerInv db → rows.foldlM f db = some db' →
        LedgerInv db' ∧ ∀ k, k ∉ rows.map BinaryOption.id → db'.orders.get k = db.orders.get k := by
  intro rows
  induction rows with
  | nil =>
    intro db db' _ _ h hrun
    rw [List.foldlM_nil] at hrun
    cases hrun
    exact ⟨h, fun _ _ => rfl⟩
  | cons r rs ih =>
    intro db db' hnd hrows h hrun
    rw [List.map_cons, List.nodup_cons] at hnd
    rw [List.foldlM_cons] at hrun
    obtain ⟨mid, hmid, hrest⟩ := Option.bind_eq_some_iff.mp hrun
    obtain ⟨hinv, honly⟩ := hf db r mid h (hrows r (by simp)) hmid
    have hrows' : ∀ x ∈ rs, mid.orders.get x.id = some x := by
      intro x hx
      have hne : x.id ≠ r.id := fun e => hnd.1 (e ▸ List.mem_map_of_mem hx)
      rw [honly _ hne]
      exact hrows x (List.mem_cons_of_mem _ hx)
    obtain ⟨hinv', hframe⟩ := ih mid db' hnd.2 hrows' hinv hrest
    refine ⟨hinv', fun k hk => ?_⟩
    rw [List.map_cons, List.mem_cons, not_or] at hk
    rw [hframe k hk.2, honly k hk.1]

theorem nodup_filter_ids (db : Database) (p : BinaryOption → Bool) :
    ((db.orders.rows.filter p).map BinaryOption.id).Nodup :=
  db.orders.nodup.sublist (List.filter_sublist.map _)

theorem get_of_mem_filter {p : BinaryOption → Bool} {r : BinaryOption}
    (hr : r ∈ db.orders.rows.filter p) : db.orders.get r.id = some r :=
  Table.get_of_mem (List.mem_of_mem_filter hr)

theorem ledgerInv_settlePendingTrades {now : Time} {fetch : CandleFetch} (h : LedgerInv db)
    (hs : settlePendingTrades now fetch db = some db') : LedgerInv db' :=
  (ledgerInv_foldlM (keepsLedger_settlePendingOne fetch db) _ db db' (nodup_filter_ids db _)
    (fun _ hr => get_of_mem_filter hr) h hs).1

/-- The two loops of the sweeper are over disjoint rows: the first needs a settlement time, the
second needs none. -/
theorem ledgerInv_sweepStuckOrders {now : Time} {fetch : CandleFetch} (h : LedgerInv db)
    (hs : sweepStuckOrders now fetch db = some db') : LedgerInv db' := by
  obtain ⟨mid, hmid, hrest⟩ := Option.bind_eq_some_iff.mp hs
  obtain ⟨hinv, hframe⟩ := ledgerInv_foldlM (keepsLedger_sweepStuckOne fetch db) _ db mid
    (nodup_filter_ids db _) (fun _ hr => get_of_mem_filter hr) h hmid
  refine (ledgerInv_foldlM (keepsLedger_sweepOrphanOne db) _ mid db' (nodup_filter_ids db _)
    (fun r hr => ?_) hinv hrest).1
  have hget : db.orders.get r.id = some r := get_of_mem_filter hr
  rw [hframe r.id ?_, hget]
  intro hk
  obtain ⟨x, hx, hxr⟩ := List.mem_map.mp hk
  have hget' : db.orders.get x.id = some x := get_of_mem_filter hx
  rw [hxr, hget, Option.some.injEq] at hget'
  subst hget'
  have hstuck := (List.mem_filter.mp hx).2
  have horphan := (List.mem_filter.mp hr).2
  simp only [isStuck, decide_eq_true_eq] at hstuck
  simp only [isOrphaned, decide_eq_true_eq] at horphan
  obtain ⟨-, t, ht, -⟩ := hstuck
  rw [horphan.2.1] at ht
  simp at ht

end Settlement

/-! ## The stream handlers -/

section Handlers

variable {db db' : Database} {bo : BinaryOption}

/-- The rebate is credited to the bot and taken off the order's fee. -/
theorem ledgerInv_recordFill {m : FillMessage} (h : LedgerInv db)
    (hget : db.orders.get bo.id = some bo) (hp : bo.result = .pending) :
    LedgerInv (recordFill db bo m) := by
  have hmem := Table.mem_of_get hget
  have ha : (filledRow bo m).amount ∈ grid 8 := by
    rw [filledRow_amount]; exact h.onGrid.amount bo hmem
  have hrebate := fillRebate_mem_grid bo m
  have hdiff : bo.fee - fillRebate bo m ∈ grid 8 := sub_mem (h.onGrid.fee bo hmem) hrebate
  have hentry : ∀ f, (filledRow bo m).fee = f →
      entry (filledRow bo m) = entry bo + (bo.fee - f) := by
    rintro f rfl
    rw [entry_pending hp, entry_pending ((filledRow_result bo m).trans hp), filledRow_amount]
    ring
  have hfee := filledRow_fee bo m
  unfold recordFill
  dsimp only
  by_cases hr : 0 < fillRebate bo m
  · rw [if_pos hr, round8, roundTo_of_mem hdiff] at hfee
    rw [if_pos hr]
    refine h.move hget (filledRow_id bo m) (filledRow_botName bo m) ha (hfee ▸ hdiff) hrebate ?_
    rw [hentry _ hfee]; ring
  · rw [if_neg hr] at hfee
    rw [if_neg hr]
    refine h.rewrite _ hget (filledRow_id bo m) (filledRow_botName bo m) ha
      (hfee ▸ h.onGrid.fee bo hmem) ?_
    rw [hentry _ hfee]; ring

theorem ledgerInv_handleOrderFill {now : Time} {fetch : CandleFetch} {m : FillMessage}
    (h : LedgerInv db) : LedgerInv (handleOrderFill now fetch db m).1 := by
  have hh := fillHandled now fetch db m
  generalize (handleOrderFill now fetch db m).1 = db' at hh ⊢
  cases hh with
  | unknown hget => exact h
  | decided bo hget hp => exact h
  | recorded bo hget hp => exact ledgerInv_recordFill h (Table.get_key_of_get hget) hp
  | settled bo c db' hget hp hs =>
    have hself := Table.get_key_of_get hget
    refine ledgerInv_settleSingleTrade (ledgerInv_recordFill h hself hp) ?_
      ((filledRow_result bo m).trans hp) hs
    rw [filledRow_id]
    exact get_recordFill hself

/-- The cancel message reports no more cost than the order holds, as the engine produces it. -/
def CancelWithin (db : Database) (m : CancelMessage) : Prop :=
  ∀ bo, db.orders.get m.boId = some bo → m.filled * m.avgEntryPrice ≤ bo.amount

/-- What a partial cancel gives back is what it takes off the amount. -/
theorem unfilledRefund_eq {m : CancelMessage} (ha : bo.amount ∈ grid 8)
    (hle : m.filled * m.avgEntryPrice ≤ bo.amount) :
    unfilledRefund bo m = bo.amount - (partialCancelRow bo m).amount := by
  have hcost : round8 (m.filled * m.avgEntryPrice) ≤ bo.amount := roundTo_le_of_mem ha hle
  have hdiff : bo.amount - round8 (m.filled * m.avgEntryPrice) ∈ grid 8 :=
    sub_mem ha (roundTo_mem_grid _ _)
  unfold unfilledRefund
  rw [max_eq_right (by linarith), round8, roundTo_of_mem hdiff]
  rfl

theorem ledgerInv_handleOrderCancel {m : CancelMessage} (h : LedgerInv db)
    (hm : CancelWithin db m) : LedgerInv (handleOrderCancel db m).1 := by
  unfold handleOrderCancel
  cases hfind : db.orders.get m.boId with
  | none => exact h
  | some bo =>
    dsimp only
    have hle := hm bo hfind
    have hget := Table.get_key_of_get hfind
    have hmem := Table.mem_of_get hget
    have ha := h.onGrid.amount bo hmem
    have hf := h.onGrid.fee bo hmem
    by_cases hp : bo.result ≠ .pending
    · rw [if_pos hp]; exact h
    rw [if_neg hp]
    have hp := not_not.mp hp
    by_cases hfill : 0 < m.filled ∧ 0 < m.avgEntryPrice
    · rw [if_pos hfill]
      have hrefund := unfilledRefund_eq ha hle
      have hamount : (partialCancelRow bo m).amount ∈ grid 8 := roundTo_mem_grid _ _
      have hx : unfilledRefund bo m ∈ grid 8 := roundTo_mem_grid _ _
      have hentry : entry (partialCancelRow bo m) = entry bo + unfilledRefund bo m := by
        have hfee : (partialCancelRow bo m).fee = bo.fee := rfl
        rw [entry_pending hp, entry_pending (o := partialCancelRow bo m) hp, hrefund, hfee]
        ring
      dsimp only
      by_cases hpos : 0 < unfilledRefund bo m
      · rw [if_pos hpos]
        have hmove : LedgerInv ((db.setOrder (partialCancelRow bo m)).creditBot bo.botName
            (unfilledRefund bo m)) := h.move hget rfl rfl hamount hf hx hentry
        exact hmove.congr (by simp) (by simp)
      · rw [if_neg hpos]
        have hzero : unfilledRefund bo m = 0 :=
          le_antisymm (not_lt.mp hpos) (roundTo_nonneg (le_max_left _ _))
        exact h.rewrite _ hget rfl rfl hamount hf (by rw [hentry, hzero, add_zero])
    · rw [if_neg hfill]
      exact (h.cancel (zeroFillCancelRow bo m) hget hp rfl rfl rfl rfl rfl).congr
        (by simp) (by simp)

theorem ledgerInv_handleBracketExit {now : Time} {m : ExitMessage} (h : LedgerInv db) :
    LedgerInv (handleBracketExit now db m).1 := by
  unfold handleBracketExit
  cases hfind : db.orders.get m.boId with
  | none => exact h
  | some bo =>
    dsimp only
    have hget := Table.get_key_of_get hfind
    have hmem := Table.mem_of_get hget
    by_cases hopen : bo.exitTrigger = none ∧ bo.result = .pending
    · rw [if_pos hopen]
      split
      · exact h
      · exact h.rewrite _ hget rfl rfl (h.onGrid.amount bo hmem) (h.onGrid.fee bo hmem) rfl
    · rw [if_neg hopen]; exact h

theorem keepsLedger_resolve :
    KeepsLedger fun db bo => some (db.setOrder (resolvedRow bo)) := by
  intro db bo db' h hget hs
  cases hs
  have hmem := Table.mem_of_get hget
  exact ⟨h.rewrite _ hget rfl rfl (h.onGrid.amount bo hmem) (h.onGrid.fee bo hmem) rfl,
    onlyOrder_of_put (resolvedRow bo) rfl⟩

theorem ledgerInv_handleMarketResolved {boIds : List ℕ} (h : LedgerInv db) :
    LedgerInv (handleMarketResolved db boIds).1 := by
  unfold handleMarketResolved
  exact (ledgerInv_foldlM keepsLedger_resolve _ db _ (nodup_filter_ids db _)
    (fun _ hr => get_of_mem_filter hr) h (List.foldlM_pure ..)).1

end Handlers

/-! ## Runs -/

/-- One transaction of order processing, run to its commit or rolled back.  A late fill has two, and
the second can fail alone. -/
inductive LedgerStep : Database → Database → Prop
  | fill (db : Database) (now : Time) (fetch : CandleFetch) (m : FillMessage) :
      LedgerStep db (handleOrderFill now fetch db m).1
  | fillUnsettled (db : Database) (bo : BinaryOption) (m : FillMessage)
      (hget : db.orders.get bo.id = some bo) (hp : bo.result = .pending) :
      LedgerStep db (recordFill db bo m)
  | cancel (db : Database) (m : CancelMessage) (hm : CancelWithin db m) :
      LedgerStep db (handleOrderCancel db m).1
  | bracketExit (db : Database) (now : Time) (m : ExitMessage) :
      LedgerStep db (handleBracketExit now db m).1
  | marketResolved (db : Database) (boIds : List ℕ) :
      LedgerStep db (handleMarketResolved db boIds).1
  | settle {db db' : Database} (now : Time) (fetch : CandleFetch)
      (hs : settlePendingTrades now fetch db = some db') : LedgerStep db db'
  | sweep {db db' : Database} (now : Time) (fetch : CandleFetch)
      (hs : sweepStuckOrders now fetch db = some db') : LedgerStep db db'
  | rolledBack (db : Database) : LedgerStep db db

theorem ledgerInv_step {db db' : Database} (h : LedgerInv db) (hs : LedgerStep db db') :
    LedgerInv db' := by
  cases hs with
  | fill now fetch m => exact ledgerInv_handleOrderFill h
  | fillUnsettled bo m hget hp => exact ledgerInv_recordFill h hget hp
  | cancel m hm => exact ledgerInv_handleOrderCancel h hm
  | bracketExit now m => exact ledgerInv_handleBracketExit h
  | marketResolved boIds => exact ledgerInv_handleMarketResolved h
  | settle now fetch hs => exact ledgerInv_settlePendingTrades h hs
  | sweep now fetch hs => exact ledgerInv_sweepStuckOrders h hs
  | rolledBack => exact h

theorem ledgerInv_run {db db' : Database} (h : LedgerInv db)
    (hrun : Relation.ReflTransGen LedgerStep db db') : LedgerInv db' := by
  induction hrun with
  | refl => exact h
  | tail _ hs ih => exact ledgerInv_step ih hs

/-- **The ledger stays balanced.** Any finite sequence of transactions takes a balanced state on the
grid to a balanced state. -/
theorem balanced_of_run {db db' : Database} (hb : Balanced db) (hg : OnGrid db)
    (hrun : Relation.ReflTransGen LedgerStep db db') : Balanced db' :=
  (ledgerInv_run ⟨hb, hg⟩ hrun).balanced

/-- A partial fill with its rebate, then the cancel of the rest. -/
theorem balanced_of_run_fill_cancel :
    Balanced (handleOrderCancel (handleOrderFill 0 (fun _ => none) oneOrderDb halfFill).1
      halfCancel).1 := by
  have hbal : Balanced oneOrderDb := by unfold Balanced; decide +kernel
  have hgrid : OnGrid oneOrderDb := ⟨by decide +kernel, by decide +kernel, by decide +kernel⟩
  have hwithin : ∀ bo ∈ (handleOrderFill 0 (fun _ => none) oneOrderDb halfFill).1.orders.get 1,
      halfCancel.filled * halfCancel.avgEntryPrice ≤ bo.amount := by decide +kernel
  exact balanced_of_run hbal hgrid
    (.tail (.tail .refl (.fill _ 0 (fun _ => none) halfFill)) (.cancel _ halfCancel hwithin))

end PolyArena
