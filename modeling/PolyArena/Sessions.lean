import PolyArena.SettlementPasses
import PolyArena.Transactions

/-!
# Sessions that load the present rows

1. `Booked.book` is a booking on the accounts, and `commitSession_eq` says that a session that
   loaded the present rows commits its bookings one after the other.
2. `run_phases`: alone, a session whose phases select different orders makes its bookings one after
   the other, or none when it raises.
3. `selects_phases`: the phases of every transaction do.
4. `run_txn_origin` and `run_txn_fate`: where a row comes from, and what becomes of it.
5. `run_txn_keepsRow`: an order row stays, and a decided one stays decided.
-/

namespace PolyArena

open Rounding

/-! ## Bookings on the accounts -/

theorem Accounts.ext_rows {x y : Accounts} (hbots : x.bots.rows = y.bots.rows)
    (horders : x.orders.rows = y.orders.rows) : x = y := by
  obtain ⟨bots, orders⟩ := x
  obtain ⟨bots', orders'⟩ := y
  obtain rfl : bots = bots' := Table.ext_rows hbots
  obtain rfl : orders = orders' := Table.ext_rows horders
  rfl

namespace Booked

/-- The row of an order after the booking. -/
def onOrder (b : Booked) (row : BinaryOption) : BinaryOption :=
  if row.id = b.2.row.id then b.2.row else row

/-- The booking on the present rows. -/
def book (x : Accounts) (b : Booked) : Accounts where
  bots := x.bots.mapRows b.onBot b.onBot_botName
  orders := x.orders.put b.2.row

theorem book_bots (bs : List Booked) (x : Accounts) :
    (bs.foldl book x).bots.rows = x.bots.rows.map (bs.foldl fun bot b => b.onBot bot) := by
  induction bs generalizing x with
  | nil => exact (List.map_id _).symm
  | cons b rest ih =>
    rw [List.foldl_cons, ih]
    exact List.map_map

theorem book_orders (bs : List Booked) (x : Accounts) :
    (bs.foldl book x).orders.rows = x.orders.rows.map (bs.foldl fun row b => b.onOrder row) := by
  induction bs generalizing x with
  | nil => exact (List.map_id _).symm
  | cons b rest ih =>
    rw [List.foldl_cons, ih]
    exact List.map_map

end Booked

/-! ## The commit of a session -/

/-- The bookings are for different orders, loaded as they are in `x`. -/
structure Known (x : Accounts) (booked : List Booked) : Prop where
  mem : ∀ b ∈ booked, b.1 ∈ x.orders.rows
  nodup : (booked.map fun b => b.1.id).Nodup

/-- The loaded bots are as in `x`, and every bot that the bookings credit is loaded. -/
structure Loads (x : Accounts) (loaded : List Bot) (booked : List Booked) : Prop where
  present : ∀ bot ∈ loaded, x.bots.get bot.botName = some bot
  credited : ∀ name ∈ Booked.creditedBots booked, ∀ bot, x.bots.get name = some bot → bot ∈ loaded

section Commit

variable {x : Accounts} {loaded : List Bot} {booked : List Booked}

theorem foldl_onBot_botName (booked : List Booked) (bot : Bot) :
    (booked.foldl (fun bot b => b.onBot bot) bot).botName = bot.botName := by
  induction booked generalizing bot with
  | nil => rfl
  | cons b rest ih => rw [List.foldl_cons, ih, Booked.onBot_botName]

/-- A bot that no booking credits stays as it is. -/
theorem foldl_onBot_of_not_credited {bot : Bot} (h : bot.botName ∉ Booked.creditedBots booked) :
    booked.foldl (fun bot b => b.onBot bot) bot = bot := by
  induction booked with
  | nil => rfl
  | cons b rest ih =>
    have hb : b.onBot bot = bot := by
      unfold Booked.onBot
      split
      · next hname =>
        unfold Booking.onBot
        cases hc : b.2.credit with
        | none => rfl
        | some y =>
          refine absurd ?_ h
          simp [Booked.creditedBots, hc, hname]
      · rfl
    have hrest : bot.botName ∉ Booked.creditedBots rest := by
      intro hmem
      refine h ?_
      simp only [Booked.creditedBots, List.filter_cons]
      split
      · exact List.mem_cons_of_mem _ hmem
      · exact hmem
    rw [List.foldl_cons, hb, ih hrest]

theorem commitBot_eq (h : Loads x loaded booked) {bot : Bot} (hmem : bot ∈ x.bots.rows) :
    commitBot loaded booked bot = booked.foldl (fun bot b => b.onBot bot) bot := by
  unfold commitBot
  have hget : x.bots.get bot.botName = some bot := Table.get_of_mem hmem
  cases hfind : loaded.find? fun b => b.botName = bot.botName with
  | none =>
    refine (foldl_onBot_of_not_credited fun hcredited => ?_).symm
    have hloaded := h.credited _ hcredited bot hget
    simpa using List.find?_eq_none.mp hfind bot hloaded
  | some found =>
    have hname : found.botName = bot.botName := by simpa using List.find?_some hfind
    have hfound := h.present found (List.mem_of_find?_eq_some hfind)
    rw [hname, hget] at hfound
    cases hfound
    exact Bot.update_self (foldl_onBot_botName booked bot)

/-- An order without a booking stays as it is. -/
theorem foldl_order_of_not_booked {row : BinaryOption} (h : row.id ∉ booked.map fun b => b.1.id) :
    commitOrder booked row = row ∧ booked.foldl (fun row b => b.onOrder row) row = row := by
  induction booked with
  | nil => exact ⟨rfl, rfl⟩
  | cons b rest ih =>
    rw [List.map_cons, List.mem_cons, not_or] at h
    obtain ⟨hcommit, hbook⟩ := ih h.2
    have hb : b.onOrder row = row := if_neg (b.2.row_id ▸ h.1)
    unfold commitOrder at hcommit ⊢
    rw [List.foldl_cons, List.foldl_cons, if_neg h.1, hb]
    exact ⟨hcommit, hbook⟩

/-- The booking for an order loaded it. -/
theorem Known.order_eq (h : Known x booked) {b : Booked} (hb : b ∈ booked) {row : BinaryOption}
    (hmem : row ∈ x.orders.rows) (hid : row.id = b.1.id) : row = b.1 := by
  have hget := Table.get_of_mem (h.mem b hb)
  rw [← hid, Table.get_of_mem hmem, Option.some.injEq] at hget
  exact hget

theorem commitOrder_eq (h : Known x booked) {row : BinaryOption} (hmem : row ∈ x.orders.rows) :
    commitOrder booked row = booked.foldl (fun row b => b.onOrder row) row := by
  induction booked with
  | nil => rfl
  | cons b rest ih =>
    have hnodup := List.nodup_cons.mp h.nodup
    by_cases hid : row.id = b.1.id
    · -- the order is the one that was loaded, and no other booking is for it
      obtain rfl := h.order_eq List.mem_cons_self hmem hid
      have hrest : b.2.row.id ∉ rest.map fun b => b.1.id := b.2.row_id ▸ hnodup.1
      obtain ⟨hcommit, hbook⟩ := foldl_order_of_not_booked hrest
      unfold commitOrder at hcommit ⊢
      rw [List.foldl_cons, List.foldl_cons, if_pos rfl,
        BinaryOption.update_self b.2.row_id, hcommit,
        show b.onOrder b.1 = b.2.row from if_pos b.2.row_id.symm, hbook]
    · have hrest := ih ⟨fun b hb => h.mem b (List.mem_cons_of_mem _ hb), hnodup.2⟩
      unfold commitOrder at hrest ⊢
      rw [List.foldl_cons, List.foldl_cons, if_neg hid,
        show b.onOrder row = row from if_neg (b.2.row_id ▸ hid), hrest]

/-- **A session that loaded the present rows** commits its bookings one after the other. -/
theorem commitSession_eq (hloads : Loads x loaded booked) (hknown : Known x booked) :
    commitSession loaded booked x = booked.foldl Booked.book x := by
  refine Accounts.ext_rows ?_ ?_
  · rw [Booked.book_bots]
    exact List.map_congr_left fun bot hbot => commitBot_eq hloads hbot
  · rw [Booked.book_orders]
    exact List.map_congr_left fun row hrow => commitOrder_eq hknown hrow

end Commit

/-! ## A session alone -/

/-- The bookings of all phases when every query sees `x`. -/
def bookings (x : Accounts) : List LoadPhase → Option (List Booked)
  | [] => some []
  | phase :: rest => do
    let new ← decideAll phase.decide (phase.select x)
    let more ← bookings x rest
    return new ++ more

section Alone

variable {x : Accounts} {loaded : List Bot} {booked : List Booked} {phases : List LoadPhase}

theorem run_readBots (names : List BotName) (next : List Bot → Txn Accounts)
    (h : ∀ bot ∈ loaded, x.bots.get bot.botName = some bot) :
    ∃ loaded', (readBots names loaded next).run x = (next loaded').run x ∧
      (∀ bot ∈ loaded', x.bots.get bot.botName = some bot) ∧ (∀ bot ∈ loaded, bot ∈ loaded') ∧
      ∀ name ∈ names, ∀ bot, x.bots.get name = some bot → bot ∈ loaded' := by
  induction names generalizing loaded with
  | nil => exact ⟨loaded, rfl, h, fun _ hb => hb, nofun⟩
  | cons name names ih =>
    unfold readBots
    by_cases hname : name ∈ loaded.map Bot.botName
    · rw [if_pos hname]
      obtain ⟨loaded', hrun, hpresent, hkeep, hread⟩ := ih h
      refine ⟨loaded', hrun, hpresent, hkeep, fun n hn bot hget => ?_⟩
      rcases List.mem_cons.mp hn with rfl | hn
      · obtain ⟨bot', hbot', hbotName⟩ := List.mem_map.mp hname
        have hget' := h bot' hbot'
        rw [hbotName, hget, Option.some.injEq] at hget'
        exact hkeep bot (hget' ▸ hbot')
      · exact hread n hn bot hget
    · rw [if_neg hname, Txn.run]
      have hfound : ∀ bot ∈ loaded ++ (x.bots.get name).toList,
          x.bots.get bot.botName = some bot := by
        intro bot hbot
        rcases List.mem_append.mp hbot with hbot | hbot
        · exact h bot hbot
        · exact Table.get_key_of_get (Option.mem_toList.mp hbot)
      obtain ⟨loaded', hrun, hpresent, hkeep, hread⟩ := ih hfound
      refine ⟨loaded', hrun, hpresent, fun bot hb => hkeep bot (List.mem_append_left _ hb),
        fun n hn bot hget => ?_⟩
      rcases List.mem_cons.mp hn with rfl | hn
      · exact hkeep bot (List.mem_append_right _ (Option.mem_toList.mpr hget))
      · exact hread n hn bot hget

theorem creditedBots_append (bs bs' : List Booked) :
    Booked.creditedBots (bs ++ bs') = Booked.creditedBots bs ++ Booked.creditedBots bs' := by
  unfold Booked.creditedBots
  rw [List.filter_append, List.map_append]

/-- Reading the bots that `new` credits. -/
theorem Loads.readBots (h : Loads x loaded booked) (new : List Booked)
    (next : List Bot → Txn Accounts) :
    ∃ loaded', (readBots (Booked.creditedBots new) loaded next).run x = (next loaded').run x ∧
      Loads x loaded' (booked ++ new) := by
  obtain ⟨loaded', hrun, hpresent, hkeep, hread⟩ :=
    run_readBots (Booked.creditedBots new) next h.present
  refine ⟨loaded', hrun, hpresent, fun name hname bot hget => ?_⟩
  rw [creditedBots_append] at hname
  rcases List.mem_append.mp hname with hname | hname
  · exact hkeep bot (h.credited name hname bot hget)
  · exact hread name hname bot hget

theorem run_runPhases {new : List Booked} (hloads : Loads x loaded booked)
    (hnew : bookings x phases = some new) (hknown : Known x (booked ++ new)) :
    (runPhases phases loaded booked).run x = (booked ++ new).foldl Booked.book x := by
  induction phases generalizing loaded booked new with
  | nil =>
    cases hnew
    rw [List.append_nil] at hknown ⊢
    exact commitSession_eq hloads hknown
  | cons phase rest ih =>
    obtain ⟨first, hfirst, hrest⟩ := Option.bind_eq_some_iff.mp hnew
    obtain ⟨more, hmore, hsum⟩ := Option.bind_eq_some_iff.mp hrest
    cases hsum
    rw [runPhases, Txn.run, hfirst]
    obtain ⟨loaded', hrun, hloads'⟩ := hloads.readBots first
      fun loaded => runPhases rest loaded (booked ++ first)
    rw [← List.append_assoc] at hknown
    rw [hrun, ih hloads' hmore hknown, List.append_assoc]

theorem run_runPhases_raise (hloads : Loads x loaded booked) (hnew : bookings x phases = none) :
    (runPhases phases loaded booked).run x = x := by
  induction phases generalizing loaded booked with
  | nil => cases hnew
  | cons phase rest ih =>
    rw [runPhases, Txn.run]
    cases hfirst : decideAll phase.decide (phase.select x) with
    | none => rfl
    | some first =>
      obtain ⟨loaded', hrun, hloads'⟩ := hloads.readBots first
        fun loaded => runPhases rest loaded (booked ++ first)
      rw [hrun]
      refine ih hloads' ?_
      cases hmore : bookings x rest with
      | none => rfl
      | some more =>
        rw [bookings, hfirst, Option.bind_eq_bind, Option.bind_some, hmore] at hnew
        cases hnew

/-- The phases select different orders of `x`. -/
structure Selects (x : Accounts) (phases : List LoadPhase) : Prop where
  mem : ∀ bo ∈ phases.flatMap (·.select x), bo ∈ x.orders.rows
  nodup : ((phases.flatMap (·.select x)).map BinaryOption.id).Nodup

theorem decideAll_sublist {decide : ∀ bo, Decision bo} {rows : List BinaryOption}
    {new : List Booked} (h : decideAll decide rows = some new) :
    (new.map Sigma.fst).Sublist rows := by
  induction rows generalizing new with
  | nil =>
    cases h
    exact .slnil
  | cons bo rest ih =>
    obtain ⟨decision, -, hrest⟩ := Option.bind_eq_some_iff.mp h
    obtain ⟨more, hmore, hsum⟩ := Option.bind_eq_some_iff.mp hrest
    cases hsum
    cases decision with
    | none => exact (ih hmore).cons bo
    | some b => exact (ih hmore).cons_cons bo

theorem bookings_sublist {new : List Booked} (h : bookings x phases = some new) :
    (new.map Sigma.fst).Sublist (phases.flatMap (·.select x)) := by
  induction phases generalizing new with
  | nil =>
    cases h
    exact .slnil
  | cons phase rest ih =>
    obtain ⟨first, hfirst, hrest⟩ := Option.bind_eq_some_iff.mp h
    obtain ⟨more, hmore, hsum⟩ := Option.bind_eq_some_iff.mp hrest
    cases hsum
    rw [List.map_append, List.flatMap_cons]
    exact (decideAll_sublist hfirst).append (ih hmore)

theorem Selects.known {new : List Booked} (h : Selects x phases)
    (hnew : bookings x phases = some new) :
    Known x new := by
  have hsub := bookings_sublist hnew
  refine ⟨fun b hb => h.mem _ (hsub.subset (List.mem_map_of_mem hb)), ?_⟩
  have hids := h.nodup.sublist (hsub.map BinaryOption.id)
  rwa [List.map_map] at hids

/-- **A session alone** makes its bookings one after the other, or nothing when it raises. -/
theorem run_phases (h : Selects x phases) : (runPhases phases [] []).run x =
    ((bookings x phases).map fun new => new.foldl Booked.book x).getD x := by
  have hloads : Loads x [] [] := ⟨nofun, nofun⟩
  cases hnew : bookings x phases with
  | none => exact run_runPhases_raise hloads hnew
  | some new => exact run_runPhases hloads hnew (h.known hnew)

end Alone

/-! ## What the phases select -/

section Selecting

variable {x : Accounts}

theorem selects_onOrder (k : ℕ) (decide : ∀ bo, Decision bo) : Selects x [onOrder k decide] := by
  constructor
  · intro bo hbo
    rw [List.flatMap_singleton] at hbo
    exact Table.mem_of_get (Option.mem_toList.mp hbo)
  · rw [List.flatMap_singleton]
    show ((x.orders.get k).toList.map BinaryOption.id).Nodup
    cases x.orders.get k with
    | none => exact List.nodup_nil
    | some bo => exact List.nodup_singleton _

theorem selects_onOrders (p : BinaryOption → Bool) (decide : ∀ bo, Decision bo) :
    Selects x [onOrders p decide] := by
  constructor
  · intro bo hbo
    rw [List.flatMap_singleton] at hbo
    exact List.mem_of_mem_filter hbo
  · rw [List.flatMap_singleton]
    exact x.orders.nodup.sublist (List.filter_sublist.map _)

/-- Two queries that no order meets together. -/
theorem selects_two {p q : BinaryOption → Bool} (decide decide' : ∀ bo, Decision bo)
    (hdisjoint : ∀ bo, p bo = true → q bo = false) :
    Selects x [onOrders p decide, onOrders q decide'] := by
  have hp : Selects x [onOrders p decide] := selects_onOrders p decide
  have hq : Selects x [onOrders q decide'] := selects_onOrders q decide'
  have hsum : [onOrders p decide, onOrders q decide'].flatMap (·.select x) =
      [onOrders p decide].flatMap (·.select x) ++ [onOrders q decide'].flatMap (·.select x) := by
    simp only [List.flatMap_cons, List.flatMap_nil, List.append_nil]
  constructor
  · intro bo hbo
    rw [hsum] at hbo
    rcases List.mem_append.mp hbo with hbo | hbo
    · exact hp.mem bo hbo
    · exact hq.mem bo hbo
  · rw [hsum, List.map_append]
    refine hp.nodup.append hq.nodup fun k hk hk' => ?_
    obtain ⟨bo, hbo, rfl⟩ := List.mem_map.mp hk
    obtain ⟨bo', hbo', hid⟩ := List.mem_map.mp hk'
    have hget := Table.get_of_mem (hq.mem bo' hbo')
    rw [hid, Table.get_of_mem (hp.mem bo hbo), Option.some.injEq] at hget
    subst hget
    rw [List.flatMap_singleton] at hbo hbo'
    have hqbo : q bo = true := (List.mem_filter.mp hbo').2
    rw [hdisjoint bo (List.mem_filter.mp hbo).2] at hqbo
    cases hqbo

theorem selects_phases (t : BalanceTransaction) : Selects x t.phases := by
  cases t with
  | createBo => exact ⟨fun _ h => (List.not_mem_nil h).elim, List.nodup_nil⟩
  | resolved boIds => exact selects_onOrders _ _
  | settle now fetch => exact selects_onOrders _ _
  | sweep now fetch => exact selects_two _ _ fun _ => isStuck_not_isOrphaned
  | _ => exact selects_onOrder _ _

end Selecting

/-! ## Where a row comes from, and what becomes of it -/

/-- Where the row `row` comes from after the transaction `t` on `x`: it was there, it is the booking
of an order that was selected, or it is new. -/
inductive RowOrigin (t : BalanceTransaction) (x : Accounts) (row : BinaryOption) : Prop
  | kept (h : row ∈ x.orders.rows)
  | booked {phase : LoadPhase} {bo : BinaryOption} {b : Booking bo} (hphase : phase ∈ t.phases)
      (hmem : bo ∈ x.orders.rows) (hselect : bo ∈ phase.select x)
      (hdecide : phase.decide bo = .book b) (hrow : row = b.row)
  | created {now : Time} {r : Admitted} {p : BOCreate} {second : SnapshotRead} {id : ℕ}
      {d : Draft id} (hpath : choosePath now r p second id = .ok d) (hrow : row = d.row)

section Origin

variable {x : Accounts} {row : BinaryOption}

theorem decideAll_decided {decide : ∀ bo, Decision bo} {rows : List BinaryOption}
    {new : List Booked} (h : decideAll decide rows = some new) {b : Booked} (hb : b ∈ new) :
    b.1 ∈ rows ∧ decide b.1 = .book b.2 := by
  induction rows generalizing new with
  | nil =>
    cases h
    cases hb
  | cons bo rest ih =>
    obtain ⟨decision, hdecision, hrest⟩ := Option.bind_eq_some_iff.mp h
    obtain ⟨more, hmore, hsum⟩ := Option.bind_eq_some_iff.mp hrest
    cases hsum
    rcases List.mem_append.mp hb with hhead | htail
    · cases decision with
      | none => cases hhead
      | some booking =>
        obtain rfl := List.mem_singleton.mp hhead
        exact ⟨List.mem_cons_self, hdecision⟩
    · obtain ⟨hmem, hdecide⟩ := ih hmore htail
      exact ⟨List.mem_cons_of_mem _ hmem, hdecide⟩

theorem bookings_decided {phases : List LoadPhase} {new : List Booked}
    (h : bookings x phases = some new) {b : Booked} (hb : b ∈ new) :
    ∃ phase ∈ phases, b.1 ∈ phase.select x ∧ phase.decide b.1 = .book b.2 := by
  induction phases generalizing new with
  | nil =>
    cases h
    cases hb
  | cons phase rest ih =>
    obtain ⟨first, hfirst, hrest⟩ := Option.bind_eq_some_iff.mp h
    obtain ⟨more, hmore, hsum⟩ := Option.bind_eq_some_iff.mp hrest
    cases hsum
    rcases List.mem_append.mp hb with hhead | htail
    · exact ⟨phase, List.mem_cons_self, decideAll_decided hfirst hhead⟩
    · obtain ⟨phase', hphase', hdecided⟩ := ih hmore htail
      exact ⟨phase', List.mem_cons_of_mem _ hphase', hdecided⟩

theorem foldl_onOrder_cases (booked : List Booked) (row : BinaryOption) :
    booked.foldl (fun row b => b.onOrder row) row = row ∨
      ∃ b ∈ booked, booked.foldl (fun row b => b.onOrder row) row = b.2.row := by
  induction booked generalizing row with
  | nil => exact .inl rfl
  | cons b rest ih =>
    rw [List.foldl_cons]
    rcases ih (b.onOrder row) with hsame | ⟨b', hb', hrow⟩
    · rw [hsame]
      unfold Booked.onOrder
      split
      · exact .inr ⟨b, List.mem_cons_self, rfl⟩
      · exact .inl rfl
    · exact .inr ⟨b', List.mem_cons_of_mem _ hb', hrow⟩

/-- A row among bookings of different orders stays, or it is booked. -/
theorem foldl_book_fate {booked : List Booked} (hknown : Known x booked) (h : row ∈ x.orders.rows) :
    ∃ row' ∈ (booked.foldl Booked.book x).orders.rows,
      row' = row ∨ ∃ b : Booking row, ⟨row, b⟩ ∈ booked ∧ row' = b.row := by
  refine ⟨booked.foldl (fun row b => b.onOrder row) row, ?_, ?_⟩
  · rw [Booked.book_orders]
    exact List.mem_map_of_mem h
  induction booked with
  | nil => exact .inl rfl
  | cons b rest ih =>
    have hnodup := List.nodup_cons.mp hknown.nodup
    rw [List.foldl_cons]
    by_cases hid : row.id = b.1.id
    · obtain rfl := hknown.order_eq List.mem_cons_self h hid
      have hrest : b.2.row.id ∉ rest.map fun b => b.1.id := b.2.row_id ▸ hnodup.1
      rw [show b.onOrder b.1 = b.2.row from if_pos b.2.row_id.symm,
        (foldl_order_of_not_booked hrest).2]
      exact .inr ⟨b.2, List.mem_cons_self, rfl⟩
    · rw [show b.onOrder row = row from if_neg (b.2.row_id ▸ hid)]
      refine (ih ⟨fun b hb => hknown.mem b (List.mem_cons_of_mem _ hb), hnodup.2⟩).imp_right ?_
      exact fun ⟨b', hb', hrow⟩ => ⟨b', List.mem_cons_of_mem _ hb', hrow⟩

/-- **What becomes of a row**, whatever the transaction: it stays, or it is booked. -/
theorem run_txn_fate (t : BalanceTransaction) (h : row ∈ x.orders.rows) :
    ∃ row' ∈ (t.txn.run x).orders.rows, row' = row ∨ ∃ phase ∈ t.phases, ∃ b : Booking row,
      row ∈ phase.select x ∧ phase.decide row = .book b ∧ row' = b.row := by
  have hphases : ∃ row' ∈ ((runPhases t.phases [] []).run x).orders.rows, row' = row ∨
      ∃ phase ∈ t.phases, ∃ b : Booking row,
        row ∈ phase.select x ∧ phase.decide row = .book b ∧ row' = b.row := by
    have hselects := selects_phases (x := x) t
    rw [run_phases hselects]
    cases hnew : bookings x t.phases with
    | none => exact ⟨row, h, .inl rfl⟩
    | some new =>
      obtain ⟨row', hmem, hfate⟩ := foldl_book_fate (hselects.known hnew) h
      refine ⟨row', hmem, hfate.imp_right ?_⟩
      rintro ⟨b, hb, hrow⟩
      obtain ⟨phase, hphase, hselect, hdecide⟩ := bookings_decided hnew hb
      exact ⟨phase, hphase, b, hselect, hdecide, hrow⟩
  cases t with
  | createBo now apiKey p first second id =>
    refine ⟨row, ?_, .inl rfl⟩
    cases hdraft : draftBo now apiKey p first second id
        (x.bots.rows.find? fun bot => bot.apiKey = apiKey ∧ bot.isActive) with
    | error e =>
      rw [BalanceTransaction.run_createBo_error hdraft]
      exact h
    | ok result =>
      rw [BalanceTransaction.run_createBo_ok hdraft]
      unfold commitBo
      split
      · exact List.mem_append_left _ h
      · exact h
  | _ => exact hphases

/-- The row `row` of `x` is still there in `y`, with its result unless it was pending. -/
def KeepsRow (row : BinaryOption) (y : Accounts) : Prop :=
  ∃ row' ∈ y.orders.rows, row'.id = row.id ∧ (row.result = .pending ∨ row'.result = row.result)

theorem KeepsRow.same (h : row ∈ x.orders.rows) : KeepsRow row x := ⟨row, h, rfl, .inr rfl⟩

/-- **No transaction decides an order again.** -/
theorem run_txn_keepsRow (t : BalanceTransaction) (h : row ∈ x.orders.rows) :
    KeepsRow row (t.txn.run x) := by
  obtain ⟨row', hmem, rfl | ⟨phase, -, b, -, -, rfl⟩⟩ := run_txn_fate t h
  · exact .same hmem
  · exact ⟨b.row, hmem, b.row_id, b.decides_pending.symm⟩

/-- **Where a row comes from**, whatever the transaction. -/
theorem run_txn_origin (t : BalanceTransaction) (h : row ∈ (t.txn.run x).orders.rows) :
    RowOrigin t x row := by
  have hphases : row ∈ ((runPhases t.phases [] []).run x).orders.rows → RowOrigin t x row := by
    intro h
    have hselects := selects_phases (x := x) t
    rw [run_phases hselects] at h
    cases hnew : bookings x t.phases with
    | none =>
      rw [hnew] at h
      exact .kept h
    | some new =>
      rw [hnew, Option.map_some, Option.getD_some, Booked.book_orders] at h
      obtain ⟨old, hold, rfl⟩ := List.mem_map.mp h
      rcases foldl_onOrder_cases new old with hsame | ⟨b, hb, hrow⟩
      · rw [hsame]
        exact .kept hold
      · obtain ⟨phase, hphase, hselect, hdecide⟩ := bookings_decided hnew hb
        exact .booked hphase ((hselects.known hnew).mem b hb) hselect hdecide hrow
  cases t with
  | createBo now apiKey p first second id =>
    cases hdraft : draftBo now apiKey p first second id
        (x.bots.rows.find? fun bot => bot.apiKey = apiKey ∧ bot.isActive) with
    | error e =>
      rw [BalanceTransaction.run_createBo_error hdraft] at h
      exact .kept h
    | ok result =>
      obtain ⟨r, hr, hrest⟩ := ok_of_bind hdraft
      obtain ⟨d, hd, hresult⟩ := ok_of_bind hrest
      cases hresult
      rw [BalanceTransaction.run_createBo_ok hdraft] at h
      unfold commitBo at h
      split at h
      · rcases List.mem_append.mp h with hold | hnew
        · exact .kept hold
        · exact .created hd (List.mem_singleton.mp hnew)
      · exact .kept h
  | _ => exact hphases h

end Origin

end PolyArena
