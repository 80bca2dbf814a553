import PolyArena.MatchingEngine.Actions

/-!
# Trading on a dead book

A book is dead when it is expired or when its last update is older than `ME_BOOK_STALE_MAX_S`.  Only
the matching pass looks at that: a placement matches at once, and the bracket checks and the forced
close sell, whatever the age of the book.  `WatchedBook` keeps what was executed while the book was
dead.

1. `no_trades_on_dead_book`: nothing is, in every run in which no order is placed that crosses a
   dead book and no bracket of an order in it fires.
2. `trade_on_stale_book`: a placement that is filled from a book without an update for 199 s.
-/

namespace PolyArena

open ShadowOrderbook

/-- A book, and what was executed on it while it was dead. -/
structure WatchedBook where
  book : ShadowOrderbook
  deadTrades : List BookRecord := []
  deadExits : List BracketFillResult := []

/-- The fills that the history gained, of entries and exits. -/
def newTrades (h h' : List BookRecord) : List BookRecord :=
  (h'.take (h'.length - h.length)).filter BookRecord.isTrade

/-- A step of the book, watched. -/
def watchStep (w : WatchedBook) (x : Time × BookAction) : Option WatchedBook :=
  (bookStep w.book x).map fun b' =>
    if w.book.dead x.1 then
      { book := b'
        deadTrades := newTrades w.book.history b'.history ++ w.deadTrades
        deadExits := x.2.exitResults x.1 w.book ++ w.deadExits }
    else { w with book := b' }

/-- On a dead book, no order is placed that crosses, and no bracket fires. -/
def LeavesDead (w : WatchedBook) (x : Time × BookAction) : Prop :=
  w.book.dead x.1 = true →
    x.2.fills (fun _ => true) x.1 w.book = false ∧ x.2.exits x.1 w.book = false

instance (w : WatchedBook) (x : Time × BookAction) : Decidable (LeavesDead w x) := by
  unfold LeavesDead
  infer_instance

section

variable {w w' : WatchedBook} {x : Time × BookAction} {h h' : List BookRecord}

theorem newTrades_eq_nil (hgain : Gains (fun r => r.isTrade = false) h h') :
    newTrades h h' = [] := by
  obtain ⟨recs, rfl, hrecs⟩ := hgain
  unfold newTrades
  rw [List.length_append, Nat.add_sub_cancel, List.take_left, List.filter_eq_nil_iff]
  intro r hr
  rw [hrecs r hr]
  nofun

/-- **A guarded step** executes nothing on a dead book. -/
theorem watchStep_idle (hguard : LeavesDead w x) (hstep : watchStep w x = some w')
    (hw : w.deadTrades = [] ∧ w.deadExits = []) : w'.deadTrades = [] ∧ w'.deadExits = [] := by
  obtain ⟨b', hb', rfl⟩ := Option.map_eq_some_iff.mp hstep
  obtain ⟨hallowed, rfl⟩ := bookStep_some hb'
  split_ifs with hdead
  · obtain ⟨hfills, hexits⟩ := hguard hdead
    obtain ⟨hquiet, hresults⟩ := action_idle hallowed hfills hexits
    dsimp only
    rw [newTrades_eq_nil hquiet, hresults, hw.1, hw.2]
    exact ⟨rfl, rfl⟩
  · exact hw

/-- **No trading on a dead book**, in every run in which what is placed on a dead book does not
cross it and no bracket of an order in a dead book fires. -/
theorem no_trades_on_dead_book {tokenId : String}
    (hrun : Run watchStep LeavesDead { book := { tokenId := tokenId } } w) :
    w.deadTrades = [] ∧ w.deadExits = [] :=
  hrun.invariant (fun w => w.deadTrades = [] ∧ w.deadExits = []) ⟨rfl, rfl⟩
    fun _ _ _ hw hguard hstep => watchStep_idle hguard hstep hw

end

/-! ## A trade on a stale book -/

/-- Ten shares are on offer at `0.50`.  After 199 s without an update a matching pass runs, and a
LIMIT BUY is placed at the price. -/
def staleActions (price : ℚ) : List (Time × BookAction) :=
  [(0, .feed (.applySnapshot [] [⟨1 / 2, 10, pos_one_half⟩])),
    (199, .feed .runMatching),
    (199, .place 7 { side := .buy, price := price, quantity := 4 })]

/-- At `0.40` the order rests. -/
theorem no_trades_on_dead_book_resting :
    ((exec watchStep LeavesDead { book := { tokenId := "up" } } (staleActions (2 / 5))).any fun w =>
      w.book.dead 199 && w.book.virtualOrders.length == 1) = true ∧
    ∀ w, exec watchStep LeavesDead { book := { tokenId := "up" } } (staleActions (2 / 5)) = some w →
      w.deadTrades = [] ∧ w.deadExits = [] :=
  ⟨by decide +kernel, fun _ hw => no_trades_on_dead_book (run_of_exec hw)⟩

/-- **A fill on a stale book**: at `0.60` the order takes what was on offer 199 s ago. -/
theorem trade_on_stale_book : ¬ ∀ (tokenId : String) (w : WatchedBook),
    Run watchStep (fun _ _ => True) { book := { tokenId := tokenId } } w →
      w.deadTrades = [] ∧ w.deadExits = [] := by
  intro hall
  have hfilled : ((exec watchStep (fun _ _ => True) { book := { tokenId := "up" } }
      (staleActions (3 / 5))).any fun w => w.deadTrades = [.fill 7 .buy (1 / 2) 4 199]) = true := by
    decide +kernel
  obtain ⟨w, hw, htrades⟩ := (Option.any_eq_true _ _).mp hfilled
  rw [decide_eq_true_eq, (hall "up" w (run_of_exec hw)).1] at htrades
  cases htrades

end PolyArena
