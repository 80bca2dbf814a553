import PolyArena.Duplicates
import PolyArena.MatchingEngine.ExitAccounts
import PolyArena.OrderConsumer.Consumer

/-!
# Partial bracket exits

A bracket exit that meets too few bids sells a part of the position, and the condition can fire
again later.  When the orders before it took all bids, it sells nothing at all, and is reported all
the same.  The engine accumulates what the exits sold (`ExitSequence.totals`).  Each message reports
its own exit only, and the row keeps the first: it agrees with the engine exactly when no later exit
sold anything (`exits_agree_iff`).
-/

namespace PolyArena

open ShadowOrderbook

/-! ## The engine -/

/-- The exits of an order, oldest first, with whatever else happens to it in between. -/
inductive ExitSequence (o : SimulatedOrder) : List BracketFillResult → SimulatedOrder → Prop
  | start : ExitSequence o [] o
  /-- an exit, with whatever bids there are then -/
  | exit {rs : List BracketFillResult} {x : ExitCall} (h : ExitSequence o rs x.order)
      (hopen : x.order.exited < x.order.filled) : ExitSequence o (rs ++ [x.result]) x.run.2.1
  /-- a fill, an expiry, a cancel: anything that leaves the exit state alone -/
  | other {rs : List BracketFillResult} {o₁ o₂ : SimulatedOrder} (h : ExitSequence o rs o₁)
      (hfilled : o₂.exitFilled = o₁.exitFilled) (hprice : o₂.exitPrice = o₁.exitPrice) :
      ExitSequence o rs o₂

/-- The quantity of some exits. -/
def totalExited (rs : List BracketFillResult) : ℚ := (rs.map BracketFillResult.qtyExited).sum

/-- What some exits brought in. -/
def totalProceeds (rs : List BracketFillResult) : ℚ :=
  (rs.map fun r => r.qtyExited * r.avgExitPrice).sum

section

variable {o o' : SimulatedOrder} {r : BracketFillResult} {rs : List BracketFillResult}

theorem totalExited_append : totalExited (rs ++ [r]) = totalExited rs + r.qtyExited := by
  simp [totalExited]

theorem totalExited_cons : totalExited (r :: rs) = r.qtyExited + totalExited rs := by
  simp [totalExited]

theorem totalProceeds_append :
    totalProceeds (rs ++ [r]) = totalProceeds rs + r.qtyExited * r.avgExitPrice := by
  simp [totalProceeds]

theorem totalProceeds_cons :
    totalProceeds (r :: rs) = r.qtyExited * r.avgExitPrice + totalProceeds rs := by
  simp [totalProceeds]

theorem totalExited_nonneg (h : ∀ r ∈ rs, 0 ≤ r.qtyExited) : 0 ≤ totalExited rs := by
  refine List.sum_nonneg fun y hy => ?_
  obtain ⟨r, hr, rfl⟩ := List.mem_map.mp hy
  exact h r hr

/-- Exits sold nothing together when none of them did. -/
theorem totalExited_eq_zero_iff (h : ∀ r ∈ rs, 0 ≤ r.qtyExited) :
    totalExited rs = 0 ↔ ∀ r ∈ rs, r.qtyExited = 0 := by
  induction rs with
  | nil => simp [totalExited]
  | cons r rs ih =>
    have hr : 0 ≤ r.qtyExited := h r List.mem_cons_self
    have hrs : ∀ x ∈ rs, 0 ≤ x.qtyExited := fun x hx => h x (List.mem_cons_of_mem _ hx)
    rw [totalExited_cons, add_eq_zero_iff_of_nonneg hr (totalExited_nonneg hrs), ih hrs,
      List.forall_mem_cons]

theorem totalProceeds_eq_zero (h : ∀ r ∈ rs, r.qtyExited = 0) : totalProceeds rs = 0 := by
  refine List.sum_eq_zero fun y hy => ?_
  obtain ⟨r, hr, rfl⟩ := List.mem_map.mp hy
  rw [h r hr, zero_mul]

/-- A bracket check that fires is an exit. -/
theorem ExitSequence.checkBracket {now : Time} {b : ShadowOrderbook} {bid : ℚ} {o₁ : SimulatedOrder}
    (h : ExitSequence o rs o₁) (hok : OrderOk o₁) :
    ExitSequence o (rs ++ (checkBracket now bid b o₁).2.2) (checkBracket now bid b o₁).2.1 := by
  unfold ShadowOrderbook.checkBracket
  by_cases heligible : o₁.isEligibleForBracket = true
  · rw [if_pos heligible]
    cases bracketTrigger o₁ bid with
    | none => simpa using h
    | some trigger =>
      exact .exit (x := ⟨now, b, o₁, bid, trigger⟩) h (exited_lt_of_eligible hok heligible)
  · rw [if_neg heligible]
    simpa using h

/-- The exit state of an order after the exits `rs`. -/
structure ExitState (rs : List BracketFillResult) (o : SimulatedOrder) : Prop where
  sold : ∀ r ∈ rs, 0 ≤ r.qtyExited
  exitFilled : o.exitFilled = if rs = [] then none else some (totalExited rs)
  exitPrice : 0 < totalExited rs → o.exitPrice = some (totalProceeds rs / totalExited rs)

theorem ExitState.exited (h : ExitState rs o) : o.exited = totalExited rs := by
  rw [SimulatedOrder.exited, h.exitFilled]
  split
  · next hnil => rw [hnil]; rfl
  · rfl

/-- One exit more. -/
theorem ExitState.exit {x : ExitCall} (h : ExitState rs x.order)
    (hopen : x.order.exited < x.order.filled) : ExitState (rs ++ [x.result]) x.run.2.1 := by
  have hqty := x.qtyExited_nonneg hopen
  refine ⟨?_, ?_, fun htotal => ?_⟩
  · exact List.forall_mem_append.mpr ⟨h.sold, List.forall_mem_singleton.mpr hqty⟩
  · rw [if_neg (by simp), totalExited_append, ← h.exited]
    rfl
  rw [totalExited_append] at htotal
  rw [x.exitPrice_eq hopen, h.exited, totalExited_append, totalProceeds_append,
    ← (x.sound hopen).average, mul_comm x.result.avgExitPrice]
  by_cases hbefore : 0 < totalExited rs
  · rw [h.exitPrice hbefore]
    dsimp only
    rw [if_pos hbefore, if_pos htotal, div_mul_cancel₀ _ hbefore.ne']
  · -- the first exit that sells
    have hzero : totalExited rs = 0 := le_antisymm (not_lt.mp hbefore) (totalExited_nonneg h.sold)
    have hnothing := totalProceeds_eq_zero ((totalExited_eq_zero_iff h.sold).mp hzero)
    rw [hzero, zero_add] at htotal ⊢
    rw [hnothing, zero_add, mul_div_cancel_left₀ _ htotal.ne']
    cases x.order.exitPrice with
    | none => rfl
    | some prev => rfl

/-- **The engine accumulates its exits.** -/
theorem ExitSequence.totals (h : ExitSequence o rs o') (hfilled : o.exitFilled = none) :
    ExitState rs o' := by
  induction h with
  | start => exact ⟨nofun, hfilled, fun h => absurd h (lt_irrefl _)⟩
  | exit _ hopen ih => exact ih.exit hopen
  | other _ hf hp ih => exact ⟨ih.sold, hf.trans ih.exitFilled, fun h => hp.trans (ih.exitPrice h)⟩

/-! ## The row -/

/-- The deliveries of the messages that the consumer publishes for the exits: in order, each once,
at any times. -/
def Delivers (id : ℕ) (rs : List BracketFillResult) (ds : List Delivery) : Prop :=
  ∃ publishedAt : BracketFillResult → Time,
    ds.map Delivery.message = rs.map fun r => .exit (r.exitMessage (publishedAt r) id)

/-- The row says what the exits sold and, when they sold something, at which average price. -/
def AgreesWithExits (s : OrderAccount) (rs : List BracketFillResult) : Prop :=
  s.exitFilled = some (totalExited rs) ∧
    (0 < totalExited rs → s.exitPrice = some (totalProceeds rs / totalExited rs))

namespace OrderAccount

variable {s : OrderAccount}

/-- The row keeps the first exit. -/
theorem foldl_exit (hs : s.ExitDone) (ms : List OrderMessage) (hms : ∀ m ∈ ms, ∃ x, m = .exit x) :
    ms.foldl step s = s := by
  induction ms with
  | nil => rfl
  | cons m ms ih =>
    obtain ⟨x, rfl⟩ := hms m (List.mem_cons_self ..)
    rw [List.foldl_cons, show s.step (.exit x) = s.exit x from rfl, hs.exit]
    exact ih fun y hy => hms y (List.mem_cons_of_mem _ hy)

end OrderAccount

variable {db : Database} {bo : BinaryOption} {id : ℕ} {ds : List Delivery}

/-- The row after the exits of an order. -/
theorem account_delivers {r : BracketFillResult} (hget : db.orders.get id = some bo)
    (hp : bo.result = .pending) (hopen : bo.exitTrigger = none)
    (hrow : bo.avgPrice = none ↔ bo.numShares = none) (hds : Delivers id (r :: rs) ds) :
    (ds.foldl Database.handle db).account id = some { bo.account (db.balanceOf bo.botName) with
      exitTrigger := some r.trigger
      exitPrice := some r.avgExitPrice
      exitFilled := some r.qtyExited } := by
  obtain ⟨publishedAt, hds⟩ := hds
  have hmem : ∀ d ∈ ds, ∃ r : BracketFillResult,
      d.message = .exit (r.exitMessage (publishedAt r) id) := by
    intro d hd
    have h := List.mem_map_of_mem (f := Delivery.message) hd
    rw [hds] at h
    obtain ⟨r, -, hr⟩ := List.mem_map.mp h
    exact ⟨r, hr.symm⟩
  rw [account_foldl (fun d hd => by obtain ⟨r, hr⟩ := hmem d hd; rw [hr]; rfl)
    (fun d hd f hf => by obtain ⟨r, hr⟩ := hmem d hd; rw [hr] at hf; cases hf),
    account_some hget, Option.map_some, ← List.foldl_map, hds, List.map_cons, List.foldl_cons]
  have hpaired : (bo.account (db.balanceOf bo.botName)).Paired := hrow
  have hfirst := OrderAccount.exit_open (s := bo.account (db.balanceOf bo.botName))
    (m := r.exitMessage (publishedAt r) id) hopen hp hpaired.not_raises
  rw [show (bo.account (db.balanceOf bo.botName)).step (.exit (r.exitMessage (publishedAt r) id)) =
    (bo.account (db.balanceOf bo.botName)).exit (r.exitMessage (publishedAt r) id) from rfl, hfirst,
    OrderAccount.foldl_exit (.inl (Option.some_ne_none _))]
  · rfl
  · intro m hm
    obtain ⟨x, -, rfl⟩ := List.mem_map.mp hm
    exact ⟨_, rfl⟩

/-- **The row agrees with the engine** exactly when the first exit sold all that was sold. -/
theorem exits_agree_iff (hget : db.orders.get id = some bo) (hp : bo.result = .pending)
    (hopen : bo.exitTrigger = none) (hrow : bo.avgPrice = none ↔ bo.numShares = none)
    (h : ExitSequence o rs o') (hfilled : o.exitFilled = none) (hexits : rs ≠ [])
    (hds : Delivers id rs ds) :
    (∃ s, (ds.foldl Database.handle db).account id = some s ∧ s.exitFilled = o'.exitFilled ∧
      (0 < totalExited rs → s.exitPrice = o'.exitPrice) ∧ AgreesWithExits s rs) ↔
      ∀ r ∈ rs.tail, r.qtyExited = 0 := by
  have hstate := h.totals hfilled
  have hsome := hstate.exitFilled
  rw [if_neg hexits] at hsome
  obtain ⟨r, rest, rfl⟩ := List.exists_cons_of_ne_nil hexits
  have hrest : ∀ x ∈ rest, 0 ≤ x.qtyExited := fun x hx => hstate.sold x (List.mem_cons_of_mem _ hx)
  rw [account_delivers hget hp hopen hrow hds, List.tail_cons, ← totalExited_eq_zero_iff hrest]
  simp only [Option.some.injEq, exists_eq_left', hsome, AgreesWithExits]
  constructor
  · rintro ⟨htotal, -⟩
    rw [totalExited_cons] at htotal
    linarith
  · intro hnothing
    have htotal : totalExited (r :: rest) = r.qtyExited := by
      rw [totalExited_cons, hnothing, add_zero]
    have hproceeds : totalProceeds (r :: rest) = r.qtyExited * r.avgExitPrice := by
      rw [totalProceeds_cons, totalProceeds_eq_zero ((totalExited_eq_zero_iff hrest).mp hnothing),
        add_zero]
    have haverage : 0 < totalExited (r :: rest) →
        r.avgExitPrice = totalProceeds (r :: rest) / totalExited (r :: rest) := by
      intro hpos
      rw [htotal] at hpos
      rw [hproceeds, htotal, mul_div_cancel_left₀ _ hpos.ne']
    refine ⟨htotal.symm, fun hpos => ?_, htotal.symm, haverage⟩
    rw [haverage hpos, hstate.exitPrice hpos]

end

/-! ## On samples -/

/-- Ten shares bought at `0.50`, with a take-profit at `0.75`. -/
def tenShares : SimulatedOrder :=
  { orderId := 7, side := .buy, price := 1 / 2, quantity := 10, filled := 10, status := .filled,
    entryCost := 5, createdAt := 0, tpPrice := some (3 / 4) }

/-- A book with a bid of `size` at `price`. -/
def bidBook (price size : ℚ) (h : 0 < price) : ShadowOrderbook :=
  ({ tokenId := "up" } : ShadowOrderbook).applySnapshot 0 [⟨price, size, h⟩] []

/-- Four shares leave at `0.80`. -/
def firstExit : ExitCall := ⟨1, bidBook (4 / 5) 4 pos_four_fifths, tenShares, 4 / 5, .tp⟩

/-- The other six leave at `0.75`. -/
def secondExit : ExitCall := ⟨2, bidBook (3 / 4) 6 pos_three_quarters,
    firstExit.run.2.1, 3 / 4, .tp⟩

/-- The bids are gone when it is the turn of the order. -/
def emptyExit : ExitCall := ⟨2, { tokenId := "up" }, firstExit.run.2.1, 4 / 5, .tp⟩

theorem exitSequence_first : ExitSequence tenShares [firstExit.result] firstExit.run.2.1 :=
  .exit (x := firstExit) .start (by decide +kernel)

theorem exitSequence_second :
    ExitSequence tenShares [firstExit.result, secondExit.result] secondExit.run.2.1 :=
  .exit (x := secondExit) exitSequence_first (by decide +kernel)

theorem exitSequence_empty :
    ExitSequence tenShares [firstExit.result, emptyExit.result] emptyExit.run.2.1 :=
  .exit (x := emptyExit) exitSequence_first (by decide +kernel)

/-- The deliveries of exit messages, at time `9`. -/
def exitDeliveries (id : ℕ) (rs : List BracketFillResult) : List Delivery :=
  rs.map fun r => ⟨0, 9, .exit (r.exitMessage 9 id)⟩

theorem delivers_exitDeliveries (id : ℕ) (rs : List BracketFillResult) :
    Delivers id rs (exitDeliveries id rs) :=
  ⟨fun _ => 9, by simp [exitDeliveries, Function.comp_def]⟩

/-- What the first exit sold is recorded, and the second finds no bids. -/
theorem exits_agree_first : ∃ s, ((exitDeliveries 1 [firstExit.result, emptyExit.result]).foldl
      Database.handle halfFilledDb).account 1 = some s ∧
    s.exitFilled = emptyExit.run.2.1.exitFilled ∧
    (0 < totalExited [firstExit.result, emptyExit.result] →
      s.exitPrice = emptyExit.run.2.1.exitPrice) ∧
    AgreesWithExits s [firstExit.result, emptyExit.result] := by
  have hrun : (halfFilledDb.orders.get 1).any (fun bo => decide (bo.result = .pending ∧
      bo.exitTrigger = none ∧ bo.avgPrice ≠ none ∧ bo.numShares ≠ none)) = true := by
    decide +kernel
  obtain ⟨bo, hbo, hrun⟩ := Option.any_eq_true _ _ |>.mp hrun
  obtain ⟨hp, hopen, havg, hshares⟩ := of_decide_eq_true hrun
  have hnothing : ∀ r ∈ [emptyExit.result], r.qtyExited = 0 :=
    List.forall_mem_singleton.mpr (by decide +kernel)
  exact (exits_agree_iff hbo hp hopen (iff_of_false havg hshares) exitSequence_empty rfl (by simp)
    (delivers_exitDeliveries 1 _)).mpr hnothing

/-- **The second exit is lost**: ten shares were sold, and the row says four. -/
theorem exits_lose_second :
    ExitSequence tenShares [firstExit.result, secondExit.result] secondExit.run.2.1 ∧
    secondExit.run.2.1.exitFilled = some 10 ∧
    ∃ s, ((exitDeliveries 1 [firstExit.result, secondExit.result]).foldl Database.handle
      halfFilledDb).account 1 = some s ∧ s.exitFilled = some 4 ∧
      ¬ AgreesWithExits s [firstExit.result, secondExit.result] := by
  refine ⟨exitSequence_second, by decide +kernel, ?_⟩
  have hrun : (((exitDeliveries 1 [firstExit.result, secondExit.result]).foldl Database.handle
      halfFilledDb).account 1).any (fun s => decide (s.exitFilled = some 4 ∧
        s.exitFilled ≠ some (totalExited [firstExit.result, secondExit.result]))) = true := by
    decide +kernel
  obtain ⟨s, hs, hrun⟩ := Option.any_eq_true _ _ |>.mp hrun
  obtain ⟨hfour, hne⟩ := of_decide_eq_true hrun
  exact ⟨s, hs, hfour, fun h => hne h.1⟩

end PolyArena
