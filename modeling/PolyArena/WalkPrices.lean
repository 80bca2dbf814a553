import PolyArena.Lib.LoadedColumn
import PolyArena.Refunds

/-!
# The stored fill history

`walk_prices` is to hold the levels of every fill and of every exit.  The handlers extend the loaded
object in place and assign it to its own attribute, which writes the column only when it was `NULL`;
`append_trace` extends a copy.

1. `persistEntryLevels_eq` and `persistExitLevels_eq`: that is what the model of the column does.
2. `walkPrices_handled`: what is stored after any messages.
3. `history_complete_iff`: the history is complete exactly when at most the first message that
   writes levels has some, and none when the column was not `NULL`.
-/

namespace PolyArena

open LoadedColumn

/-! ## The column -/

def WalkPrices.addEntry (levels : List FillLevel) (wp : WalkPrices) : WalkPrices :=
  { wp with entry := wp.entry ++ levels }

def WalkPrices.addExit (levels : List FillLevel) (wp : WalkPrices) : WalkPrices :=
  { wp with exit := wp.exit ++ levels }

theorem persistEntryLevels_eq (stored : Option WalkPrices) (levels : List FillLevel) :
    persistEntryLevels stored levels = extendInPlace {} (.addEntry levels) stored := by
  rw [extendInPlace_eq]
  cases stored <;> rfl

theorem persistExitLevels_eq (stored : Option WalkPrices) (levels : List FillLevel) :
    persistExitLevels stored levels = extendInPlace {} (.addExit levels) stored := by
  rw [extendInPlace_eq]
  cases stored <;> rfl

/-- A trace is appended to a copy. -/
theorem appendTrace_eq (bo : BinaryOption) (a : TraceAction) :
    some (bo.appendTrace a).traces = extendCopy [] (· ++ [a]) (some bo.traces) := by
  rw [extendCopy_eq]
  rfl

/-! ## Levels that are handed to the column -/

/-- The levels of a handled message. -/
inductive LevelWrite
  | entry (levels : List FillLevel)
  | exit (levels : List FillLevel)
  deriving DecidableEq, Repr

namespace LevelWrite

def levels : LevelWrite → List FillLevel
  | entry ls => ls
  | exit ls => ls

def entryLevels : LevelWrite → List FillLevel
  | entry ls => ls
  | exit _ => []

def exitLevels : LevelWrite → List FillLevel
  | entry _ => []
  | exit ls => ls

/-- What the handler of the message leaves in the column. -/
def persist (stored : Option WalkPrices) : LevelWrite → Option WalkPrices
  | entry ls => persistEntryLevels stored ls
  | exit ls => persistExitLevels stored ls

end LevelWrite

/-- The levels that the handler of a message adds to the order `bo`: those of a fill of a pending
order, and of an exit that it records. -/
def BinaryOption.handled (bo : BinaryOption) : OrderMessage → Option LevelWrite
  | .fill m => if m.boId = bo.id ∧ bo.result = .pending then m.walkPrices.map .entry else none
  | .exit m =>
    if m.boId = bo.id ∧ (bo.exitTrigger = none ∧ bo.result = .pending) ∧
        ¬ (isFullExit bo m ∧ bo.avgPrice = none) then m.walkPrices.map .exit
    else none
  | _ => none

/-- A message that is handled at `now`, with what the candle requests of its handler return. -/
structure Handling where
  now : Time
  fetch : CandleFetch
  message : OrderMessage

def Database.handleOne (db : Database) (h : Handling) : Database :=
  db.deliver h.now h.fetch h.message

/-- The levels that the messages `hs` hand to the column of the order `k`. -/
def Database.levelWrites (k : ℕ) : Database → List Handling → List LevelWrite
  | _, [] => []
  | db, h :: hs =>
    ((db.orders.get k).bind fun bo => bo.handled h.message).toList ++ levelWrites k
      (db.handleOne h) hs

section

variable {db : Database} {bo : BinaryOption} {k : ℕ} {now : Time} {fetch : CandleFetch}

/-! ## What is stored -/

/-- The handler of `message` leaves the row of the order `k` with what `handled` says of the
column. -/
def HandlesLevels (k : ℕ) (message : OrderMessage) (db db' : Database) : Prop :=
  ∀ bo, db.orders.get k = some bo → ∃ bo', db'.orders.get k = some bo' ∧
    bo'.walkPrices = ((bo.handled message).elim bo.walkPrices (LevelWrite.persist bo.walkPrices))

theorem handlesLevels_of_same {message : OrderMessage} {db' : Database}
    (h : db'.orders.get k = db.orders.get k)
    (hnone : ∀ bo, db.orders.get k = some bo → bo.handled message = none) :
    HandlesLevels k message db db' := by
  intro bo hget
  rw [hnone bo hget]
  exact ⟨bo, h.trans hget, rfl⟩

theorem handleOrderFill_levels (m : FillMessage) :
    HandlesLevels k (.fill m) db (handleOrderFill now fetch db m).1 := by
  have hh := fillHandled now fetch db m
  generalize (handleOrderFill now fetch db m).1 = db' at hh ⊢
  -- the order `k` is the one of the message
  have hsame : ∀ {bo x}, db.orders.get m.boId = some bo → db.orders.get k = some x →
      m.boId = x.id → x = bo := by
    intro bo x hfind hx h
    rw [← Table.key_of_get hx, ← h, hfind, Option.some.injEq] at hx
    exact hx.symm
  -- the row that is stored, of the message's order and of another
  have hstored : ∀ {bo db' row}, db.orders.get m.boId = some bo → bo.result = .pending →
      OnlyOrder bo.id (recordFill db bo m) db' → db'.orders.get bo.id = some row →
      row.walkPrices = (filledRow bo m).walkPrices → HandlesLevels k (.fill m) db db' := by
    intro bo db' row hfind hp honly hget' hwp
    have hid := Table.key_of_get hfind
    by_cases hk : k = bo.id
    · subst hk
      intro x hx
      rw [Table.get_key_of_get hfind, Option.some.injEq] at hx
      subst hx
      refine ⟨row, hget', ?_⟩
      rw [hwp, filledRow_walkPrices, show bo.handled (.fill m) = m.walkPrices.map .entry from
        if_pos ⟨hid.symm, hp⟩]
      cases m.walkPrices <;> rfl
    · refine handlesLevels_of_same ?_ fun x hx => if_neg fun h => hk ?_
      · rw [honly k hk, recordFill_orders, Table.get_put_ne (by rwa [filledRow_id])]
      · rw [← Table.key_of_get hx, ← h.1, hid]
  cases hh with
  | unknown hfind =>
    refine handlesLevels_of_same rfl fun bo hget => if_neg fun h => ?_
    rw [h.1, Table.key_of_get hget, hget] at hfind
    cases hfind
  | decided bo hfind hp =>
    refine handlesLevels_of_same rfl fun x hx => if_neg fun h => hp ?_
    rw [← hsame hfind hx h.1]
    exact h.2
  | recorded bo hfind hp =>
    exact hstored hfind hp (fun _ _ => rfl) (get_recordFill (Table.get_key_of_get hfind)) rfl
  | settled bo c db' hfind hp hs =>
    have hrow : (recordFill db bo m).orders.get (filledRow bo m).id = some (filledRow bo m) := by
      rw [filledRow_id]
      exact get_recordFill (Table.get_key_of_get hfind)
    obtain ⟨p, a, hget'⟩ := settleSingleTrade_row hrow hs
    have honly := onlyOrder_settleSingleTrade hs
    rw [filledRow_id] at hget' honly
    exact hstored hfind hp honly hget' rfl

theorem handleBracketExit_levels (m : ExitMessage) :
    HandlesLevels k (.exit m) db (handleBracketExit now db m).1 := by
  unfold handleBracketExit
  cases hfind : db.orders.get m.boId with
  | none =>
    refine handlesLevels_of_same rfl fun bo hget => if_neg fun h => ?_
    rw [h.1, Table.key_of_get hget, hget] at hfind
    cases hfind
  | some bo =>
    have hid := Table.key_of_get hfind
    have hget := Table.get_key_of_get hfind
    -- the order `k` is the one of the message
    have hsame : ∀ x, db.orders.get k = some x → m.boId = x.id → x = bo := by
      intro x hx h
      rw [← Table.key_of_get hx, ← h, hfind, Option.some.injEq] at hx
      exact hx.symm
    dsimp only
    by_cases hopen : bo.exitTrigger = none ∧ bo.result = .pending
    · rw [if_pos hopen]
      by_cases hraise : isFullExit bo m ∧ bo.avgPrice = none
      · rw [if_pos hraise]
        refine handlesLevels_of_same rfl fun x hx => if_neg fun h => h.2.2 ?_
        rwa [hsame x hx h.1]
      · rw [if_neg hraise]
        by_cases hk : k = bo.id
        · subst hk
          intro x hx
          rw [hget, Option.some.injEq] at hx
          subst hx
          refine ⟨exitRow now bo m, Table.get_put_self (a := exitRow now bo m) hget, ?_⟩
          rw [show bo.handled (.exit m) = m.walkPrices.map .exit
            from if_pos ⟨hid.symm, hopen, hraise⟩]
          unfold exitRow
          cases m.walkPrices <;> rfl
        · refine handlesLevels_of_same (Table.get_put_ne (a := exitRow now bo m) hk) fun x hx =>
            if_neg fun h => hk ?_
          rw [← Table.key_of_get hx, ← h.1, hid]
    · rw [if_neg hopen]
      refine handlesLevels_of_same rfl fun x hx => if_neg fun h => hopen ?_
      rw [← hsame x hx h.1]
      exact h.2.1

theorem handleOrderCancel_levels (m : CancelMessage) :
    HandlesLevels k (.cancel m) db (handleOrderCancel db m).1 := by
  unfold handleOrderCancel
  cases hfind : db.orders.get m.boId with
  | none => exact handlesLevels_of_same rfl fun _ _ => rfl
  | some bo =>
    have hget := Table.get_key_of_get hfind
    have hstored : ∀ (db' : Database) (row : BinaryOption), row.id = bo.id →
        db'.orders = db.orders.put row → row.walkPrices = bo.walkPrices →
        HandlesLevels k (.cancel m) db db' := by
      intro db' row hid hput hwp x hx
      by_cases hk : k = row.id
      · rw [hk, hid, hget, Option.some.injEq] at hx
        subst hx
        refine ⟨row, ?_, hwp⟩
        rw [hput, hk]
        exact Table.get_put_self (hid ▸ hget)
      · refine ⟨x, ?_, rfl⟩
        rw [hput, Table.get_put_ne hk, hx]
    dsimp only
    split
    · exact handlesLevels_of_same rfl fun _ _ => rfl
    · split
      · refine hstored _ (partialCancelRow bo m) rfl ?_ rfl
        dsimp only
        split <;> simp
      · exact hstored _ (zeroFillCancelRow bo m) rfl (by simp) rfl

theorem handleMarketResolved_levels (boIds : List ℕ) :
    HandlesLevels k (.resolved boIds) db (handleMarketResolved db boIds).1 := by
  intro bo hget
  refine ⟨_, get_handleMarketResolved boIds hget, ?_⟩
  split <;> rfl

/-- **One message** changes the column as its levels say, and leaves it alone when it has none. -/
theorem handleOne_levels (h : Handling) : HandlesLevels k h.message db (db.handleOne h) := by
  unfold Database.handleOne
  cases h.message with
  | fill m => exact handleOrderFill_levels m
  | cancel m => exact handleOrderCancel_levels m
  | exit m => exact handleBracketExit_levels m
  | resolved boIds => exact handleMarketResolved_levels boIds

/-- **Any messages.** -/
theorem walkPrices_handled (hs : List Handling) (hget : db.orders.get k = some bo) :
    ∃ bo', (hs.foldl Database.handleOne db).orders.get k = some bo' ∧
      bo'.walkPrices = (db.levelWrites k hs).foldl LevelWrite.persist bo.walkPrices := by
  induction hs generalizing db bo with
  | nil => exact ⟨bo, hget, rfl⟩
  | cons h hs ih =>
    obtain ⟨mid, hmid, hwp⟩ := handleOne_levels h bo hget
    obtain ⟨bo', hget', hwp'⟩ := ih hmid
    refine ⟨bo', hget', ?_⟩
    rw [hwp', hwp, Database.levelWrites, List.foldl_append, hget, Option.bind_some]
    cases bo.handled h.message <;> rfl

end

/-! ## The complete history -/

section

variable {ws : List LevelWrite}

/-- A column that holds an object keeps it as it is. -/
theorem foldl_persist_some (wp : WalkPrices) (ws : List LevelWrite) :
    ws.foldl LevelWrite.persist (some wp) = some wp := by
  induction ws with
  | nil => rfl
  | cons w ws ih =>
    rw [List.foldl_cons]
    cases w <;> exact ih

/-- What comes into a column that was `NULL`: the levels of the first message that has any to
write. -/
theorem foldl_persist_none (ws : List LevelWrite) : ws.foldl LevelWrite.persist none =
    ws.head?.map fun w => { entry := w.entryLevels, exit := w.exitLevels } := by
  cases ws with
  | nil => rfl
  | cons w ws =>
    rw [List.foldl_cons]
    cases w <;> exact foldl_persist_some _ ws

theorem append_flatMap_eq_iff {α β : Type} {f : α → List β} {xs : List α} {l : List β} :
    l = l ++ xs.flatMap f ↔ ∀ x ∈ xs, f x = [] := by
  rw [List.self_eq_append_right, List.flatMap_eq_nil_iff]

theorem levels_eq_nil_iff {w : LevelWrite} : w.entryLevels = [] ∧ w.exitLevels = [] ↔
    w.levels = [] := by
  cases w <;> simp [LevelWrite.entryLevels, LevelWrite.exitLevels, LevelWrite.levels]

/-- Both lists stay as they are exactly when none of the writes has levels. -/
theorem unchanged_iff {entry exit : List FillLevel} :
    entry = entry ++ ws.flatMap LevelWrite.entryLevels ∧
      exit = exit ++ ws.flatMap LevelWrite.exitLevels ↔
      ∀ w ∈ ws, w.levels = [] := by
  rw [append_flatMap_eq_iff, append_flatMap_eq_iff, ← forall₂_and]
  simp only [levels_eq_nil_iff]

/-- **The stored history is complete**, the initial levels followed by those of every handled
message, exactly when no levels come after the first message that has a list to write, and none at
all when the column was not `NULL`. -/
theorem history_complete_iff {db : Database} {k : ℕ} {bo bo' : BinaryOption} (hs : List Handling)
    (hget : db.orders.get k = some bo)
    (hget' : (hs.foldl Database.handleOne db).orders.get k = some bo') :
    ((bo'.walkPrices.getD {}).entry =
        (bo.walkPrices.getD {}).entry ++ (db.levelWrites k hs).flatMap LevelWrite.entryLevels ∧
      (bo'.walkPrices.getD {}).exit =
        (bo.walkPrices.getD {}).exit ++ (db.levelWrites k hs).flatMap LevelWrite.exitLevels) ↔
      ∀ w ∈ if bo.walkPrices = none then (db.levelWrites k hs).tail else db.levelWrites k hs,
        w.levels = [] := by
  obtain ⟨x, hx, hwp⟩ := walkPrices_handled hs hget
  rw [hget', Option.some.injEq] at hx
  subst hx
  rw [hwp]
  cases hstored : bo.walkPrices with
  | some wp =>
    rw [foldl_persist_some, if_neg (Option.some_ne_none wp)]
    exact unchanged_iff
  | none =>
    rw [foldl_persist_none, if_pos rfl]
    cases db.levelWrites k hs with
    | nil => simp
    | cons w ws =>
      rw [List.flatMap_cons, List.flatMap_cons]
      exact unchanged_iff

end

/-! ## Two samples -/

/-- The other half of `oneOrderDb`'s order at `0.45`. -/
def otherHalfFill : FillMessage :=
  ⟨1, some 7, 20, 19 / 40, .filled, some [⟨9 / 20, 10, 9 / 2⟩]⟩

/-- A message handled at the start, while no candle can be fetched. -/
def handledAtZero (message : OrderMessage) : Handling := ⟨0, fun _ => none, message⟩

theorem history_complete_iff_halfFill : ∃ bo bo',
    oneOrderDb.orders.get 1 = some bo ∧
      ([handledAtZero (.fill halfFill)].foldl Database.handleOne oneOrderDb).orders.get 1 =
        some bo' ∧
      (bo'.walkPrices.getD {}).entry = [⟨1 / 2, 10, 5⟩] ∧ (bo'.walkPrices.getD {}).exit = [] := by
  have hget : oneOrderDb.orders.get 1 = some _ := rfl
  obtain ⟨bo', hget', -⟩ := walkPrices_handled [handledAtZero (.fill halfFill)] hget
  have hcomplete := (history_complete_iff [handledAtZero (.fill halfFill)] rfl hget').mpr
    (by decide +kernel)
  exact ⟨_, bo', rfl, hget', hcomplete.1.trans (by decide +kernel),
    hcomplete.2.trans (by decide +kernel)⟩

/-- **The second fill is lost**: both halves are recorded as filled, the levels of the first half
only. -/
theorem second_fill_levels_lost :
    ([.fill halfFill, .fill otherHalfFill].map handledAtZero |>.foldl Database.handleOne
      oneOrderDb).orders.rows.map (fun bo => (bo.numShares, bo.walkPrices)) =
        [(some 20, some ⟨[⟨1 / 2, 10, 5⟩], []⟩)] ∧
      oneOrderDb.levelWrites 1 ([.fill halfFill, .fill otherHalfFill].map handledAtZero) =
        [.entry [⟨1 / 2, 10, 5⟩], .entry [⟨9 / 20, 10, 9 / 2⟩]] := by
  decide +kernel

end PolyArena
