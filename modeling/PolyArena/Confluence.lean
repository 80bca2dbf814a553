import PolyArena.Account
import PolyArena.Duplicates
import PolyArena.OrderConsumer.Delivery

/-!
# The fill and the cancel stream of an order

An order that a book gives up has a stream of fill messages and one cancel message, and the streams
have no mutual order.

1. Recorded shares and entry price apart (`forgetEntry`), a cancel commutes with every fill: it
   changes the amount and pays the refund, the fill changes the fee and pays the rebate.
2. The shares and the entry price are those of the last message.  So all interleavings agree exactly
   when the last fill message says what the cancel says (`confluent_iff`).
3. A fill that is never published (`Desk.drops_fill_in_between`) makes them differ.
-/

namespace PolyArena

open Rounding

namespace OrderAccount

variable {s : OrderAccount} {m : CancelMessage} {f : FillMessage} {x y : ℚ}

/-- The account without what was recorded of the entry. -/
def forgetEntry (s : OrderAccount) : OrderAccount := { s with numShares := none, avgPrice := none }

/-- The balance has at most eight decimals, as its column does. -/
def OnGrid (s : OrderAccount) : Prop := ∀ b ∈ s.balance, b ∈ grid 8

/-! ## Credits -/

theorem OnGrid.credit (x : ℚ) : (s.credit x).OnGrid := by
  intro b hb
  obtain ⟨b₀, -, rfl⟩ := Option.map_eq_some_iff.mp hb
  exact roundTo_mem_grid _ _

theorem credit_zero (hs : s.OnGrid) : s.credit 0 = s := by
  ext1 <;> try rfl
  unfold OrderAccount.credit
  cases hb : s.balance with
  | none => simp
  | some b => simp [show round8 b = b from roundTo_of_mem (hs b hb)]

theorem credit_comm (hs : s.OnGrid) (hx : x ∈ grid 8) (hy : y ∈ grid 8) :
    (s.credit x).credit y = (s.credit y).credit x := by
  unfold OrderAccount.credit
  cases hb : s.balance with
  | none => simp
  | some b =>
    have hround : ∀ {z}, z ∈ grid 8 → round8 z = z := fun hz => roundTo_of_mem hz
    simp [hround (add_mem (hs b hb) hx), hround (add_mem (hs b hb) hy),
      hround (add_mem (add_mem (hs b hb) hx) hy), hround (add_mem (add_mem (hs b hb) hy) hx)]
    ring

/-! ## One fill and the cancel -/

/-- What a fill pays. -/
def paid (s : OrderAccount) (f : FillMessage) : ℚ := if 0 < s.rebate f then s.rebate f else 0

/-- What a cancel with fills pays. -/
def refunded (s : OrderAccount) (m : CancelMessage) : ℚ :=
  if 0 < s.unfilled m then s.unfilled m else 0

/-- What a fill records. -/
def recorded (s : OrderAccount) (f : FillMessage) : OrderAccount :=
  { s with
    numShares := some f.filled
    avgPrice := some f.avgEntryPrice
    entryFee := if 0 < s.rebate f then some (round8 (s.entryFee.getD 0 - s.rebate f))
      else s.entryFee }

theorem fill_eq (hs : s.OnGrid) (hp : s.result = .pending) :
    s.fill f = (s.recorded f).credit (s.paid f) := by
  unfold fill paid recorded
  rw [if_neg (not_not.mpr hp)]
  by_cases hr : 0 < s.rebate f
  · rw [if_pos hr, if_pos hr, if_pos hr]
  · rw [if_neg hr, if_neg hr, if_neg hr]
    exact (credit_zero (s := { s with
      numShares := some f.filled, avgPrice := some f.avgEntryPrice })
      hs).symm

theorem cancel_eq (hs : s.OnGrid) (hp : s.result = .pending)
    (hm : 0 < m.filled ∧ 0 < m.avgEntryPrice) :
    s.cancel m = (s.keepFilled m).credit (s.refunded m) := by
  rw [cancel_partFilled hp hm]
  unfold refunded
  by_cases hr : 0 < s.unfilled m
  · rw [if_pos hr, if_pos hr]
  · rw [if_neg hr, if_neg hr]
    exact (credit_zero (s := s.keepFilled m) hs).symm

theorem rebate_mem_grid : s.rebate f ∈ grid 8 := by
  unfold rebate
  cases f.walkPrices with
  | none => exact zero_mem _
  | some levels =>
    dsimp only
    split
    · exact makerRebateFromLevels_mem_grid _
    · exact zero_mem _

theorem paid_mem_grid : s.paid f ∈ grid 8 := by
  unfold paid
  split
  · exact rebate_mem_grid
  · exact zero_mem _

theorem refunded_mem_grid : s.refunded m ∈ grid 8 := by
  unfold refunded
  split
  · exact roundTo_mem_grid _ _
  · exact zero_mem _

/-- **A fill and the cancel commute**, the entry apart. -/
theorem cancel_fill_comm (hs : s.OnGrid) (hp : s.result = .pending)
    (hm : 0 < m.filled ∧ 0 < m.avgEntryPrice) :
    ((s.cancel m).fill f).forgetEntry = ((s.fill f).cancel m).forgetEntry := by
  rw [cancel_eq hs hp hm, fill_eq hs hp, fill_eq (s := (s.keepFilled m).credit _) (.credit _) hp,
    cancel_eq (s := (s.recorded f).credit _) (.credit _) hp hm]
  have hcomm := credit_comm (s := s) (x := s.refunded m) (y := s.paid f) hs refunded_mem_grid
    paid_mem_grid
  have hbalance := congrArg balance hcomm
  ext1 <;> first | rfl | exact hbalance

/-! ## What a message leaves -/

theorem fill_result : (s.fill f).result = s.result := by
  unfold fill
  split
  · rfl
  · dsimp only
    split <;> rfl

theorem OnGrid.fill (hs : s.OnGrid) (f : FillMessage) : (s.fill f).OnGrid := by
  unfold OrderAccount.fill
  split
  · exact hs
  · dsimp only
    split
    · exact .credit _
    · exact hs

/-- The entry that a message records. -/
def entry (s : OrderAccount) : Option ℚ × Option ℚ := (s.numShares, s.avgPrice)

theorem entry_fill (hp : s.result = .pending) :
    (s.fill f).entry = (some f.filled, some f.avgEntryPrice) := by
  unfold fill
  rw [if_neg (not_not.mpr hp)]
  dsimp only
  split <;> rfl

theorem entry_cancel (hp : s.result = .pending) (hm : 0 < m.filled ∧ 0 < m.avgEntryPrice) :
    (s.cancel m).entry = (some m.filled, some m.avgEntryPrice) := by
  rw [cancel_partFilled hp hm]
  split <;> rfl

theorem cancel_pending (hp : s.result = .pending) (hm : 0 < m.filled ∧ 0 < m.avgEntryPrice) :
    (s.cancel m).result = .pending := by
  rw [cancel_partFilled hp hm]
  split <;> exact hp

/-- Two accounts that agree, the entry apart, agree when their entries do. -/
theorem eq_of_forgetEntry {s' : OrderAccount} (h : s.forgetEntry = s'.forgetEntry)
    (he : s.entry = s'.entry) : s = s' := by
  rw [OrderAccount.ext_iff] at h ⊢
  have hn : s.numShares = s'.numShares := congrArg Prod.fst he
  have ha : s.avgPrice = s'.avgPrice := congrArg Prod.snd he
  exact ⟨h.1, h.2.1, hn, ha, h.2.2.2.2⟩

/-! ## Streams of fills -/

/-- The account after some fills. -/
def fills (s : OrderAccount) (fs : List FillMessage) : OrderAccount := fs.foldl fill s

theorem fills_pending {fs : List FillMessage} (hp : s.result = .pending) :
    (s.fills fs).result = .pending := by
  induction fs generalizing s with
  | nil => exact hp
  | cons f fs ih => exact ih (fill_result.trans hp)

theorem OnGrid.fills {fs : List FillMessage} (hs : s.OnGrid) : (s.fills fs).OnGrid := by
  induction fs generalizing s with
  | nil => exact hs
  | cons f fs ih => exact ih (hs.fill f)

theorem entry_fills {fs : List FillMessage} (hp : s.result = .pending)
    (hf : fs.getLast? = some f) : (s.fills fs).entry = (some f.filled, some f.avgEntryPrice) := by
  obtain ⟨pre, rfl⟩ := List.getLast?_eq_some_iff.mp hf
  unfold fills
  rw [List.foldl_append]
  exact entry_fill (fills_pending hp)

/-- A fill reads nothing of the entry. -/
theorem forgetEntry_fill : (s.forgetEntry.fill f).forgetEntry = (s.fill f).forgetEntry := by
  unfold fill
  rw [show s.forgetEntry.rebate f = s.rebate f from rfl]
  by_cases hp : s.result ≠ .pending
  · rw [if_pos hp, if_pos (show s.forgetEntry.result ≠ .pending from hp)]
    rfl
  · rw [if_neg hp, if_neg (show ¬ s.forgetEntry.result ≠ .pending from hp)]
    dsimp only
    split <;> rfl

theorem forgetEntry_fills {fs : List FillMessage} {s' : OrderAccount}
    (h : s.forgetEntry = s'.forgetEntry) :
    (s.fills fs).forgetEntry = (s'.fills fs).forgetEntry := by
  induction fs generalizing s s' with
  | nil => exact h
  | cons f fs ih =>
    refine ih ?_
    rw [← forgetEntry_fill, h, forgetEntry_fill]

/-- **The cancel commutes with the fills**, the entry apart. -/
theorem cancel_fills_comm {fs : List FillMessage} (hs : s.OnGrid) (hp : s.result = .pending)
    (hm : 0 < m.filled ∧ 0 < m.avgEntryPrice) :
    ((s.cancel m).fills fs).forgetEntry = ((s.fills fs).cancel m).forgetEntry := by
  induction fs generalizing s with
  | nil => rfl
  | cons f fs ih =>
    calc (((s.cancel m).fill f).fills fs).forgetEntry
        = (((s.fill f).cancel m).fills fs).forgetEntry :=
          forgetEntry_fills (cancel_fill_comm hs hp hm)
      _ = (((s.fill f).fills fs).cancel m).forgetEntry := ih (hs.fill f) (fill_result.trans hp)

end OrderAccount

/-! ## Interleavings -/

/-- What the two streams decide: the balance, the amount, the shares, the entry price, the fee and
the result. -/
def OrderAccount.outcome (s : OrderAccount) :
    Option ℚ × ℚ × Option ℚ × Option ℚ × Option ℚ × BOResult :=
  (s.balance, s.amount, s.numShares, s.avgPrice, s.entryFee, s.result)

/-- The deliveries of `fs` in order, with `m` before, between or after them, at any times. -/
def Interleaves (fs : List FillMessage) (m : CancelMessage) (ds : List Delivery) : Prop :=
  ∃ pre post, fs = pre ++ post ∧
    ds.map Delivery.message = pre.map .fill ++ .cancel m :: post.map .fill

/-- All interleavings end alike. -/
def Confluent (db : Database) (id : ℕ) (fs : List FillMessage) (m : CancelMessage) : Prop :=
  ∀ ds ds', Interleaves fs m ds → Interleaves fs m ds' →
    ((ds.foldl Database.handle db).account id).map OrderAccount.outcome =
      ((ds'.foldl Database.handle db).account id).map OrderAccount.outcome

/-- The streams of an order that a book gave up.  An order that was filled in full is not cancelled,
and the cancel of one that was filled in part says so. -/
structure GivenUp (id : ℕ) (fs : List FillMessage) (m : CancelMessage) : Prop where
  fillsOf : ∀ f ∈ fs, f.boId = id
  notFilled : ∀ f ∈ fs, f.status ≠ .filled
  cancelOf : m.boId = id
  covers : fs ≠ [] → 0 < m.filled ∧ 0 < m.avgEntryPrice

section

variable {db : Database} {bo : BinaryOption} {id : ℕ} {fs pre post : List FillMessage}
  {m : CancelMessage} {ds : List Delivery} {s : OrderAccount}

theorem foldl_step_fills : (fs.map OrderMessage.fill).foldl OrderAccount.step s = s.fills fs := by
  rw [List.foldl_map]
  rfl

/-- The messages of an interleaving. -/
theorem mem_interleaved {x : OrderMessage}
    (hx : x ∈ pre.map OrderMessage.fill ++ OrderMessage.cancel m :: post.map OrderMessage.fill) :
    x = .cancel m ∨ ∃ f ∈ pre ++ post, x = .fill f := by
  simp only [List.mem_append, List.mem_map, List.mem_cons] at hx ⊢
  rcases hx with ⟨f, hf, rfl⟩ | rfl | ⟨f, hf, rfl⟩
  · exact .inr ⟨f, .inl hf, rfl⟩
  · exact .inl rfl
  · exact .inr ⟨f, .inr hf, rfl⟩

/-- The account after an interleaving. -/
theorem account_interleaved (pre post : List FillMessage) (hg : GivenUp id (pre ++ post) m)
    (hds : ds.map Delivery.message =
      pre.map OrderMessage.fill ++ OrderMessage.cancel m :: post.map OrderMessage.fill) :
    (ds.foldl Database.handle db).account id =
      (db.account id).map fun s => ((s.fills pre).cancel m).fills post := by
  have hmem : ∀ d ∈ ds, d.message = .cancel m ∨ ∃ f ∈ pre ++ post, d.message = .fill f :=
    fun d hd => mem_interleaved (hds ▸ List.mem_map_of_mem hd)
  rw [account_foldl (fun d hd => ?_) (fun d hd f hf => ?_)]
  · refine Option.map_congr fun s _ => ?_
    rw [← List.foldl_map, hds, List.foldl_append, List.foldl_cons, foldl_step_fills,
      foldl_step_fills]
    rfl
  · rcases hmem d hd with hd | ⟨f, hf, hd⟩
    · exact hd ▸ hg.cancelOf
    · exact hd ▸ hg.fillsOf f hf
  · rcases hmem d hd with hd | ⟨f', hf', hd⟩
    · rw [hd] at hf
      cases hf
    · rw [hd] at hf
      cases hf
      exact hg.notFilled _ hf'

/-- When the last fill message says what the cancel says, an interleaving ends like the cancel alone
after all fills. -/
theorem interleaved_eq (hs : s.OnGrid) (hp : s.result = .pending)
    (hm : pre ++ post ≠ [] → 0 < m.filled ∧ 0 < m.avgEntryPrice)
    (hlast : ∀ f ∈ (pre ++ post).getLast?, f.filled = m.filled ∧
      f.avgEntryPrice = m.avgEntryPrice) :
    ((s.fills pre).cancel m).fills post = (s.fills (pre ++ post)).cancel m := by
  cases hf : post.getLast? with
  | none =>
    rw [List.getLast?_eq_none_iff.mp hf, List.append_nil]
    rfl
  | some f =>
    have hne : pre ++ post ≠ [] := by
      rintro h
      rw [(List.append_eq_nil_iff.mp h).2] at hf
      cases hf
    have hlastf : (pre ++ post).getLast? = some f := by rw [List.getLast?_append, hf]; rfl
    obtain ⟨hfilled, havg⟩ := hlast f hlastf
    have hpre : (s.fills pre).result = .pending := OrderAccount.fills_pending hp
    have hall : s.fills (pre ++ post) = (s.fills pre).fills post := List.foldl_append
    refine OrderAccount.eq_of_forgetEntry ?_ ?_
    · rw [hall]
      exact OrderAccount.cancel_fills_comm hs.fills hpre (hm hne)
    · rw [OrderAccount.entry_fills (OrderAccount.cancel_pending hpre (hm hne)) hf,
        OrderAccount.entry_cancel (OrderAccount.fills_pending hp) (hm hne), hfilled, havg]

/-- **Fills and the cancel commute** exactly when the last fill message reports all that the cancel
reports. -/
theorem confluent_iff (hget : db.orders.get id = some bo) (hp : bo.result = .pending)
    (hgrid : ∀ b ∈ db.balanceOf bo.botName, b ∈ grid 8) (hg : GivenUp id fs m) :
    Confluent db id fs m ↔
      ∀ f ∈ fs.getLast?, f.filled = m.filled ∧ f.avgEntryPrice = m.avgEntryPrice := by
  constructor
  · intro hconf f hf
    have hm := hg.covers (by rintro rfl; cases hf)
    -- the cancel before all fills, and after them
    have hfirst : Interleaves fs m ((.cancel m :: fs.map .fill).map fun x => ⟨0, 0, x⟩) :=
      ⟨[], fs, rfl, by simp [Function.comp_def]⟩
    have hlast : Interleaves fs m
        ((fs.map OrderMessage.fill ++ [OrderMessage.cancel m]).map fun x => ⟨0, 0, x⟩) :=
      ⟨fs, [], by simp, by simp [Function.comp_def]⟩
    have hsame := hconf _ _ hfirst hlast
    rw [account_interleaved [] fs hg (by simp [Function.comp_def]),
      account_interleaved fs [] (by simpa using hg)
        (by simp [Function.comp_def]), account_some hget] at hsame
    simp only [Option.map_some, Option.some.injEq] at hsame
    have hpend : (bo.account (db.balanceOf bo.botName)).result = .pending := hp
    have hentry : (((bo.account (db.balanceOf bo.botName)).cancel m).fills fs).entry =
        (((bo.account (db.balanceOf bo.botName)).fills fs).cancel m).entry := by
      simp only [OrderAccount.outcome, Prod.mk.injEq] at hsame
      exact Prod.ext hsame.2.2.1 hsame.2.2.2.1
    rw [OrderAccount.entry_fills (OrderAccount.cancel_pending hpend hm) hf,
      OrderAccount.entry_cancel (OrderAccount.fills_pending hpend) hm] at hentry
    simpa using hentry
  · rintro hlast ds ds' ⟨pre, post, rfl, hds⟩ ⟨pre', post', hsplit, hds'⟩
    have hs : (bo.account (db.balanceOf bo.botName)).OnGrid := hgrid
    rw [account_interleaved pre post hg hds, account_interleaved pre' post' (hsplit ▸ hg) hds',
      account_some hget]
    simp only [Option.map_some]
    rw [interleaved_eq hs hp hg.covers hlast,
      interleaved_eq hs hp (hsplit ▸ hg.covers) (hsplit ▸ hlast), hsplit]

end

/-! ## On samples -/

/-- The streams of an order that was half filled and given up. -/
theorem confluent_halfFill : Confluent oneOrderDb 1 [halfFill] halfCancel := by
  refine (confluent_iff (Table.get_of_mem (t := oneOrderDb.orders) (List.mem_singleton_self _)) rfl
    (by decide +kernel) ⟨?_, ?_, rfl, fun _ => by decide +kernel⟩).mpr (by decide +kernel)
  · simp [halfFill]
  · simp [halfFill]

open Desk in
/-- The order of `fillInBetween`, given up after it was registered: the second fill was never
published. -/
def givenUpAfterwards : List DeskAction :=
  fillInBetween ++ [.feedOp 3 .expireBook, .deliver, .deliver]

/-- The only fill message of `givenUpAfterwards`. -/
def firstFillOnly : FillMessage := ⟨1, some 7, 10, 2 / 5, .partial_, none⟩

/-- Its cancel: ten shares at `0.40` and five at `0.45`. -/
def cancelOfBoth : CancelMessage := ⟨1, some 7, .ttlExpired, 15, 5 / 12⟩

/-- **The streams of an order whose second fill is not published differ**: processed last, the fill
message takes the row back to ten of its fifteen shares. -/
theorem confluent_loses_fill : (∃ d, Run Desk.step (fun _ _ => True) (Desk.new "T") d ∧
      d.consumer.published = [.fill firstFillOnly, .cancel cancelOfBoth]) ∧
    ¬ Confluent oneOrderDb 1 [firstFillOnly] cancelOfBoth := by
  constructor
  · have hrun : (exec Desk.step (fun _ _ => True) (Desk.new "T") givenUpAfterwards).any
        (fun d => d.consumer.published = [.fill firstFillOnly, .cancel cancelOfBoth]) = true := by
      decide +kernel
    obtain ⟨d, hd, hpub⟩ := Option.any_eq_true _ _ |>.mp hrun
    exact ⟨d, run_of_exec hd, of_decide_eq_true hpub⟩
  · intro hconf
    have hsame := hconf [⟨1, 4, .fill firstFillOnly⟩, ⟨2, 4, .cancel cancelOfBoth⟩]
      [⟨2, 4, .cancel cancelOfBoth⟩, ⟨1, 4, .fill firstFillOnly⟩]
      ⟨[firstFillOnly], [], rfl, rfl⟩ ⟨[], [firstFillOnly], rfl, rfl⟩
    have hshares := congrArg (Option.map fun o => o.2.2.1) hsame
    revert hshares
    decide +kernel

end PolyArena
