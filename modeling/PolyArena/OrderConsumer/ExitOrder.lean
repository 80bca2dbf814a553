import PolyArena.BatchIsolation
import PolyArena.OrderConsumer.Delivery
import PolyArena.OrderConsumer.FirstFills
import PolyArena.OrderConsumer.Telling

/-!
# A fill and the exit after it

A fill and a bracket exit of one order are published on two streams, and each stream has a reader of
its own.  `ExitFlow` has the books with their consumer, what is published, and the database.  Any
message may be handled at any later moment, and again; in between there may be any other
transaction.

1. `filled_of_exit`: a book exits filled orders only.
2. `ExitInv`: whatever was published of an exit, its row has a fill on record or a fill of it was
   published before.  `exitInv_step` is the step lemma.
3. `exits_recorded`: in every run that keeps the order of the two, no exit is recorded before its
   fill.
4. `exit_overtakes_fill`: the streams do not keep it.
-/

namespace PolyArena

open ShadowOrderbook

/-! ## Exits of a book -/

section

variable {b : ShadowOrderbook} {o : SimulatedOrder} {os : List SimulatedOrder} {now : Time}
  {bid : ℚ} {r : BracketFillResult} {a : BookAction}

theorem checkBracket_results (hr : r ∈ (checkBracket now bid b o).2.2) :
    r.orderId = o.orderId ∧ 0 < o.filled := by
  unfold checkBracket at hr
  split at hr
  · next heligible =>
    have hfilled : 0 < o.filled := (of_decide_eq_true heligible).2.2.1
    split at hr
    · exact absurd hr List.not_mem_nil
    · rw [List.mem_singleton.mp hr]
      exact ⟨rfl, hfilled⟩
  · exact absurd hr List.not_mem_nil

theorem checkNewBracket_results (hr : r ∈ (checkNewBracket now b o).2.2) :
    r.orderId = o.orderId ∧ 0 < o.filled := by
  unfold checkNewBracket at hr
  split at hr
  · exact absurd hr List.not_mem_nil
  · exact checkBracket_results hr

theorem monitorOrders_results (hr : r ∈ (monitorOrders now bid b os).2.2) :
    ∃ o ∈ os, r.orderId = o.orderId ∧ 0 < o.filled := by
  induction os generalizing b with
  | nil => exact absurd hr List.not_mem_nil
  | cons o os ih =>
    rcases List.mem_append.mp hr with hr | hr
    · exact ⟨o, List.mem_cons_self, checkBracket_results hr⟩
    · obtain ⟨x, hx, hresult⟩ := ih hr
      exact ⟨x, List.mem_cons_of_mem _ hx, hresult⟩

theorem filledOf_of_mem (h : BookInv b) (ho : o ∈ b.virtualOrders) (hfilled : 0 < o.filled) :
    0 < filledOf o.orderId b.history := by
  have hsame : o.filled = filledOf o.orderId b.history := h.balance.filled o ho
  exact hsame ▸ hfilled

/-- **A book exits filled orders only.** -/
theorem filled_of_exit (h : BookInv b) (hallowed : a.Allowed b) (hr : r ∈ a.exitResults now b) :
    0 < filledOf r.orderId (a.apply now b).history := by
  have hold : ∀ {b' : ShadowOrderbook}, Effects b.core b'.core →
      (∃ o ∈ b.virtualOrders, r.orderId = o.orderId ∧ 0 < o.filled) →
        0 < filledOf r.orderId b'.history := by
    rintro b' he ⟨o, ho, hid, hfilled⟩
    rw [hid]
    exact (filledOf_of_mem h ho hfilled).trans_le (effects_filledOf he _)
  cases a with
  | feed op =>
    cases op with
    | monitorBracketOrders =>
      refine hold (effects_feedOp h .monitorBracketOrders) ?_
      replace hr : r ∈ (b.monitorBracketOrders now).2 := hr
      unfold monitorBracketOrders at hr
      split at hr
      · exact absurd hr List.not_mem_nil
      · exact monitorOrders_results hr
    | _ => exact absurd hr List.not_mem_nil
  | place id q =>
    obtain ⟨hid, hfilled⟩ := checkNewBracket_results (o := (matchAndCancel now
      { b with history := .placed id :: b.history } (q.newOrder now id)).2) hr
    obtain ⟨hmem, hsame⟩ := placed_last b now id q
    have hentered : (enteredOrder now id q b).filled = (matchAndCancel now
        { b with history := .placed id :: b.history } (q.newOrder now id)).2.filled := by
      unfold enteredOrder checkNewBracket
      dsimp only
      split
      · rfl
      · exact checkBracket_same.2
    have horder : (b.placeVirtualOrder now id q).order.orderId = r.orderId := by
      rw [placed_orderId hallowed.2, hid, matchAndCancel_orderId (isNew_newOrder hallowed.2).ok rfl]
      rfl
    have hpos : 0 < (b.placeVirtualOrder now id q).order.filled := by
      rcases hsame with heq | heq <;> rw [heq] <;> exact hentered ▸ hfilled
    rw [← horder]
    exact filledOf_of_mem (h.placeVirtualOrder hallowed.1 hallowed.2) hmem hpos
  | placePrefilled id q =>
    obtain ⟨hid, hfilled⟩ := checkNewBracket_results (o := q.newOrder now id) hr
    have hbook : (b.placePrefilledBracketOrder now id q).order ∈
        (b.placePrefilledBracketOrder now id q).book.virtualOrders :=
      List.mem_append_right _ (List.mem_singleton_self _)
    have hpos : 0 < (b.placePrefilledBracketOrder now id q).order.filled := by
      show 0 < (checkNewBracket now _ (q.newOrder now id)).2.1.filled
      unfold checkNewBracket
      split
      · exact hfilled
      · rw [checkBracket_same.2]
        exact hfilled
    have horder : (b.placePrefilledBracketOrder now id q).order.orderId = r.orderId :=
      checkNewBracket_orderId.trans hid.symm
    rw [← horder]
    exact filledOf_of_mem (h.placePrefilled hallowed) hbook hpos
  | forceClose id =>
    refine hold (effects_of_step h.core (.forceCloseAtMarket b now id)) ?_
    replace hr : r ∈ (b.forceCloseAtMarket now id).2.toList := hr
    unfold forceCloseAtMarket at hr
    cases hfind : b.virtualOrders.find? fun o => o.orderId = id with
    | none =>
      rw [hfind] at hr
      exact absurd hr List.not_mem_nil
    | some o =>
      rw [hfind] at hr
      dsimp only at hr
      split at hr
      · exact absurd hr List.not_mem_nil
      · next hopen =>
        split at hr
        · exact absurd hr List.not_mem_nil
        · rw [List.mem_singleton.mp hr]
          exact ⟨o, List.mem_of_find?_eq_some hfind, rfl, not_le.mp (not_or.mp hopen).1⟩
  | _ => exact absurd hr List.not_mem_nil

end

/-! ## The streams -/

/-- The fill messages, in publication order. -/
def fillMessages (ms : List StreamMessage) : List FillMessage :=
  ms.filterMap fun
    | .fill m => some m
    | _ => none

theorem mem_fillMessages {ms : List StreamMessage} {m : FillMessage} : m ∈ fillMessages ms ↔
    .fill m ∈ ms := by
  unfold fillMessages
  rw [List.mem_filterMap]
  constructor
  · rintro ⟨x, hx, hm⟩
    cases x with
    | fill y =>
      cases hm
      exact hx
    | _ => cases hm
  · exact fun hm => ⟨.fill m, hm, rfl⟩

/-- An exit on its stream. -/
structure PublishedExit where
  message : ExitMessage
  /-- What was published before it. -/
  before : List StreamMessage
  deriving DecidableEq

/-- A book with its consumer. -/
structure ExitDesk where
  desk : Desk
  taken : Taken := []
  /-- The exits whose callbacks have not run. -/
  firing : List BracketFillResult := []
  exits : List PublishedExit := []

/-- The books by token. -/
structure ExitFlow where
  books : String → ExitDesk
  db : Database
  /-- The fill messages that were handled.  No step reads it. -/
  handled : List FillMessage := []

/-- What can happen next. -/
inductive ExitAction
  /-- a step of either thread at a book -/
  | desk (token : String) (a : DeskAction)
  /-- the `on_bracket_exit` of an order publishes an exit of it -/
  | callback (token : String) (now : Time) (boId : ℕ) (r : BracketFillResult)
  /-- a published fill is handled; it may have been before -/
  | fill (token : String) (m : FillMessage)
  /-- a published exit is handled -/
  | exit (token : String) (now : Time) (x : PublishedExit)
  /-- any other transaction -/
  | transact (t : BalanceTransaction)

/-- The bracket exits that the step executes. -/
def DeskAction.exitResults (d : Desk) : DeskAction → List BracketFillResult
  | .place now _ id r => (BookAction.place id r).exitResults now d.book
  | .placePrefilled now _ id r => (BookAction.placePrefilled id r).exitResults now d.book
  | .feedOp now op => (BookAction.feed op).exitResults now d.book
  | .reject _ | .consume | .deliver => []

/-- `create_bo` commits the row before it queues the payload, with its fill when the payload is
prefilled. -/
def DeskAction.committed (db : Database) : DeskAction → Bool
  | .place _ boId _ _ | .reject boId => (db.orders.get boId).isSome
  | .placePrefilled _ boId _ _ => (db.orders.get boId).any fun bo => bo.recorded
  | .feedOp .. | .consume | .deliver => true

/-- The handling of a fill or of an exit. -/
def BalanceTransaction.handles : BalanceTransaction → Bool
  | .fill _ | .exit _ _ => true
  | _ => false

namespace ExitDesk

def step (b : ExitDesk) (a : DeskAction) : Option ExitDesk :=
  (b.desk.step a).map fun d => { b with
    desk := d
    taken := a.takes.toList ++ b.taken
    firing := b.firing ++ a.exitResults b.desk }

end ExitDesk

namespace ExitFlow

def step (s : ExitFlow) : ExitAction → Option ExitFlow
  | .desk token a =>
    if a.committed s.db then
      ((s.books token).step a).map fun b => { s with books := Function.update s.books token b }
    else none
  | .callback token now boId r =>
    let b := s.books token
    if r ∈ b.firing ∧ (boId, some r.orderId) ∈ b.taken then
      some { s with books := Function.update s.books token { b with
        firing := b.firing.erase r
        exits := b.exits ++ [⟨r.exitMessage now boId, b.desk.consumer.published⟩] } }
    else none
  | .fill token m =>
    if .fill m ∈ (s.books token).desk.consumer.published then
      some { s with db := (BalanceTransaction.fill m).apply s.db, handled := m :: s.handled }
    else none
  | .exit token now x =>
    if x ∈ (s.books token).exits then
      some { s with db := (BalanceTransaction.exit now x.message).apply s.db }
    else none
  | .transact t => if t.handles then none else some { s with db := t.apply s.db }

/-- The step keeps a fill before the exit after it: no book drops the first FILL event of an order;
an exit is published when no fill of the order is still to be published; it is handled after the
fills of its row that were published before it. -/
def FillsFirst (s : ExitFlow) : ExitAction → Prop
  | .desk token a => ¬ (s.books token).desk.DropsFirstFill a
  | .callback token _ _ r => ¬ (s.books token).desk.OwesFill r.orderId
  | .exit _ _ x => ∀ m ∈ fillMessages x.before, m.boId = x.message.boId → m ∈ s.handled
  | .fill .. | .transact _ => True

instance (s : ExitFlow) (a : ExitAction) : Decidable (s.FillsFirst a) := by
  unfold FillsFirst
  cases a <;> infer_instance

/-- The consumer starts, and nothing is published. -/
structure Begins (s : ExitFlow) : Prop where
  books : ∀ token, s.books token = { desk := Desk.new token }
  handled : s.handled = []
  rows : ExitsRecorded s.db

end ExitFlow

/-! ## The invariant -/

/-- What holds of a book, its consumer and what was published of its orders. -/
structure ExitDesk.Sound (b : ExitDesk) (db : Database) : Prop where
  tells : Desk.DeskTells b.taken b.desk
  announced : ∀ id ∈ b.desk.standard, (b.desk.view id).Announced
  placed : ∀ boId id, (boId, some id) ∈ b.taken → .placed id ∈ b.desk.book.history
  unique : ∀ boId boId' id, (boId, some id) ∈ b.taken → (boId', some id) ∈ b.taken → boId = boId'
  rows : ∀ x ∈ b.taken, (db.orders.get x.1).isSome
  recorded : ∀ boId id, (boId, some id) ∈ b.taken → id ∈ b.desk.standard ∨ FillDone db boId
  fills : ∀ m, .fill m ∈ b.desk.consumer.published →
    ∃ id, m.orderId = some id ∧ (m.boId, some id) ∈ b.taken
  firing : ∀ r ∈ b.firing, 0 < filledOf r.orderId b.desk.book.history
  exits : ∀ x ∈ b.exits, FillDone db x.message.boId ∨
    ∃ m ∈ fillMessages x.before, m.boId = x.message.boId

/-- What holds after every step. -/
structure ExitInv (s : ExitFlow) : Prop where
  books : ∀ token, (s.books token).Sound s.db
  handled : ∀ m ∈ s.handled, FillDone s.db m.boId
  rows : ExitsRecorded s.db

section

variable {s s' : ExitFlow} {b b' : ExitDesk} {db : Database} {t : BalanceTransaction} {d d' : Desk}
  {a : DeskAction} {r : BracketFillResult} {boId : ℕ} {id : OrderId} {now : Time}

theorem ExitDesk.Sound.apply (h : b.Sound db) : b.Sound (t.apply db) where
  tells := h.tells
  announced := h.announced
  placed := h.placed
  unique := h.unique
  rows x hx := by
    obtain ⟨bo, hget⟩ := Option.isSome_iff_exists.mp (h.rows x hx)
    obtain ⟨row, hrow, -⟩ := get_apply (t := t) hget
    exact Option.isSome_iff_exists.mpr ⟨row, hrow⟩
  recorded boId id hmem := (h.recorded boId id hmem).imp_right fillDone_apply
  fills := h.fills
  firing := h.firing
  exits x hx := (h.exits x hx).imp_left fillDone_apply

/-- Any transaction that handles no exit before its fill. -/
theorem ExitInv.apply (h : ExitInv s) (hguard : ∀ now m, t = .exit now m → FillDone s.db m.boId) :
    ExitInv { s with db := t.apply s.db } where
  books token := (h.books token).apply
  handled m hm := fillDone_apply (h.handled m hm)
  rows := exitsRecorded_apply h.rows hguard

/-- The payload that a step takes is placed under a new id, and its row is committed. -/
theorem taken_step (hinv : Desk.DeskInv d) (hstep : d.step a = some d')
    (hcommitted : a.committed db = true) {x : ℕ × Option OrderId} (hx : x ∈ a.takes) :
    (db.orders.get x.1).isSome ∧ ∀ id, x.2 = some id →
      .placed id ∉ d.book.history ∧ .placed id ∈ d'.book.history ∧
        (id ∈ d'.standard ∨ FillDone db x.1) := by
  cases Desk.steps_of_step hstep with
  | place now boId k q hidle hfresh hq =>
    cases hx
    refine ⟨hcommitted, fun id hid => ?_⟩
    cases hid
    exact ⟨hfresh, placeVirtualOrder_placed hinv.book hfresh hq (.inr rfl), .inl List.mem_cons_self⟩
  | placePrefilled now boId k q hidle hfresh =>
    cases hx
    obtain ⟨bo, hget, hrecorded⟩ := (Option.any_eq_true _ _).mp hcommitted
    refine ⟨Option.isSome_iff_exists.mpr ⟨bo, hget⟩, fun id hid => ?_⟩
    cases hid
    exact ⟨hfresh, placePrefilled_placed hinv.book hfresh (.inr rfl),
      .inr ⟨bo, hget, fun _ => of_decide_eq_true hrecorded⟩⟩
  | reject boId hidle =>
    cases hx
    exact ⟨hcommitted, nofun⟩
  | consume | feedOp | deliver => cases hx

/-- The exits that a step executes are of filled orders. -/
theorem exits_step (hinv : Desk.DeskInv d) (hstep : d.step a = some d') (hr : r ∈ a.exitResults d) :
    0 < filledOf r.orderId d'.book.history := by
  cases Desk.steps_of_step hstep with
  | place now boId k q hidle hfresh hq =>
    exact filled_of_exit (a := .place k q) hinv.book ⟨hfresh, hq⟩ hr
  | placePrefilled now boId k q hidle hfresh =>
    exact filled_of_exit (a := .placePrefilled k q) hinv.book hfresh hr
  | feedOp now op hidle => exact filled_of_exit (a := .feed op) hinv.book trivial hr
  | reject | consume | deliver => exact absurd hr List.not_mem_nil

/-- **A step at a book.** -/
theorem ExitDesk.Sound.step (h : b.Sound db) (hguard : ¬ b.desk.DropsFirstFill a)
    (hcommitted : a.committed db = true) (hstep : b.step a = some b') : b'.Sound db := by
  obtain ⟨d, hd, rfl⟩ := Option.map_eq_some_iff.mp hstep
  obtain ⟨htells, heffects⟩ := Desk.deskTells_step h.tells hd
  have hinv := h.tells.inv
  have hnew : ∀ boId id, (boId, some id) ∈ a.takes.toList → .placed id ∉ b.desk.book.history ∧
      .placed id ∈ d.book.history ∧ (id ∈ d.standard ∨ FillDone db boId) := fun boId id hmem =>
    (taken_step hinv hd hcommitted (Option.mem_toList.mp hmem)).2 id rfl
  refine ⟨htells, Desk.announced_step hinv h.announced hguard hd, fun boId id hmem => ?_,
    fun boId boId' id hmem hmem' => ?_, fun x hx => ?_, fun boId id hmem => ?_, fun m hm => ?_,
    fun r hr => ?_, h.exits⟩
  · rcases List.mem_append.mp hmem with htaken | hold
    · exact (hnew boId id htaken).2.1
    · exact effects_placed heffects (h.placed boId id hold)
  · rcases List.mem_append.mp hmem with htaken | hold
    · rcases List.mem_append.mp hmem' with htaken' | hold'
      · have hsame := (Option.mem_toList.mp htaken).symm.trans (Option.mem_toList.mp htaken')
        exact (Prod.mk.inj (Option.some.inj hsame)).1
      · exact absurd (h.placed boId' id hold') (hnew boId id htaken).1
    · rcases List.mem_append.mp hmem' with htaken' | hold'
      · exact absurd (h.placed boId id hold) (hnew boId' id htaken').1
      · exact h.unique boId boId' id hold hold'
  · rcases List.mem_append.mp hx with htaken | hold
    · exact (taken_step hinv hd hcommitted (Option.mem_toList.mp htaken)).1
    · exact h.rows x hold
  · rcases List.mem_append.mp hmem with htaken | hold
    · exact (hnew boId id htaken).2.2
    · exact (h.recorded boId id hold).imp_left (Desk.standard_step hd)
  · rcases Desk.published_step hinv hd hm with hold | ⟨id, hid, hwhere⟩
    · obtain ⟨id, hid, hmem⟩ := h.fills m hold
      exact ⟨id, hid, List.mem_append_right _ hmem⟩
    · refine ⟨id, hid, List.mem_append_right _ ?_⟩
      rcases hwhere with htracked | ⟨t, ht, rfl, hrow⟩
      · exact h.tells.consumer.tracked id m.boId htracked
      · exact hrow ▸ (h.tells.task t ht).taken
  · rcases List.mem_append.mp hr with hold | hnow
    · exact (h.firing r hold).trans_le (effects_filledOf heffects _)
    · exact exits_step hinv hd hnow

/-- **An exit is published** after a fill of its order, unless the row had the fill from the
start. -/
theorem ExitDesk.Sound.callback (h : b.Sound db) (hguard : ¬ b.desk.OwesFill r.orderId)
    (hr : r ∈ b.firing) (hmem : (boId, some r.orderId) ∈ b.taken) : ({ b with
      firing := b.firing.erase r
      exits := b.exits ++
        [⟨r.exitMessage now boId, b.desk.consumer.published⟩] } : ExitDesk).Sound db := by
  refine ⟨h.tells, h.announced, h.placed, h.unique, h.rows, h.recorded, h.fills,
    fun x hx => h.firing x (List.mem_of_mem_erase hx), fun x hx => ?_⟩
  rcases List.mem_append.mp hx with hold | hnew
  · exact h.exits x hold
  rw [List.mem_singleton.mp hnew]
  rcases h.recorded boId r.orderId hmem with hstandard | hdone
  · right
    have hsome : entryFills r.orderId b.desk.book.history ≠ [] := fun hnil => by
      have hpos := h.firing r hr
      rw [filledOf, hnil] at hpos
      exact absurd hpos (lt_irrefl _)
    rw [Desk.OwesFill, not_or] at hguard
    rcases (h.announced r.orderId hstandard).told (mt List.reverse_eq_nil_iff.mp hsome) with
      hentering | hpublished | hpending
    · exact absurd hentering hguard.1
    · obtain ⟨m, hm⟩ := List.exists_mem_of_ne_nil _ hpublished
      obtain ⟨y, hy, hfill⟩ := List.mem_filterMap.mp hm
      have hmsg : y = .fill m ∧ m.orderId = some r.orderId := by
        cases y with
        | fill f =>
          dsimp only at hfill
          split at hfill
          · next hid =>
            cases hfill
            exact ⟨rfl, hid⟩
          · cases hfill
        | _ => cases hfill
      obtain ⟨rfl, hid⟩ := hmsg
      obtain ⟨id, hid', htaken⟩ := h.fills m hy
      obtain rfl := Option.some.inj (hid'.symm.trans hid)
      exact ⟨m, mem_fillMessages.mpr hy, h.unique _ _ _ htaken hmem⟩
    · obtain ⟨e, he⟩ := List.exists_mem_of_ne_nil _ hpending
      obtain ⟨he, hfill⟩ := List.mem_filter.mp he
      exact absurd ⟨e, he, hfill⟩ hguard.2
  · exact .inl hdone

theorem ExitInv.update {token : String} (h : ExitInv s) (hb : b.Sound s.db) :
    ExitInv { s with books := Function.update s.books token b } where
  books x := by
    by_cases hx : x = token
    · subst hx
      simpa using hb
    · simpa [Function.update_of_ne hx] using h.books x
  handled := h.handled
  rows := h.rows

/-- **One step** that keeps fills before exits. -/
theorem exitInv_step {a : ExitAction} (h : ExitInv s) (hguard : s.FillsFirst a)
    (hstep : s.step a = some s') :
    ExitInv s' := by
  cases a with
  | desk token a =>
    simp only [ExitFlow.step] at hstep
    split at hstep
    · next hcommitted =>
      obtain ⟨b, hb, rfl⟩ := Option.map_eq_some_iff.mp hstep
      exact h.update ((h.books token).step hguard hcommitted hb)
    · cases hstep
  | callback token now boId r =>
    simp only [ExitFlow.step] at hstep
    split at hstep
    · next hcan =>
      cases hstep
      exact h.update ((h.books token).callback hguard hcan.1 hcan.2)
    · cases hstep
  | fill token m =>
    simp only [ExitFlow.step] at hstep
    split at hstep
    · next hpublished =>
      cases hstep
      have happly := h.apply (t := .fill m) nofun
      refine ⟨happly.books, fun x hx => ?_, happly.rows⟩
      rcases List.mem_cons.mp hx with rfl | hx
      · obtain ⟨id, -, hmem⟩ := (h.books token).fills x hpublished
        exact fillDone_fill ((h.books token).rows _ hmem)
      · exact happly.handled x hx
    · cases hstep
  | exit token now x =>
    simp only [ExitFlow.step] at hstep
    split at hstep
    · next hpublished =>
      cases hstep
      refine h.apply fun now' m hm => ?_
      cases hm
      rcases (h.books token).exits x hpublished with hdone | ⟨m, hm, hrow⟩
      · exact hdone
      · exact hrow ▸ h.handled m (hguard m hm hrow)
    · cases hstep
  | transact t =>
    simp only [ExitFlow.step] at hstep
    split at hstep
    · cases hstep
    · next hother =>
      cases hstep
      refine h.apply fun now m hm => ?_
      subst hm
      exact absurd rfl hother

theorem ExitFlow.Begins.inv (h : s.Begins) : ExitInv s := by
  refine ⟨fun token => ?_, fun m hm => ?_, h.rows⟩
  · rw [h.books token]
    exact ⟨Desk.deskTells_new token, nofun, nofun, nofun, nofun, nofun,
      fun m hm => absurd hm List.not_mem_nil, nofun, nofun⟩
  · rw [h.handled] at hm
    cases hm

/-- **No exit before its fill**: in every run that keeps the fills of an order before its exit, a
row with an exit has its average price and its shares on record. -/
theorem exits_recorded {s₀ : ExitFlow} (hrun : Run ExitFlow.step ExitFlow.FillsFirst s₀ s)
    (h₀ : s₀.Begins) :
    ExitsRecorded s.db :=
  (hrun.invariant ExitInv h₀.inv fun _ _ _ h hguard hstep => exitInv_step h hguard hstep).rows

end

/-! ## Two samples -/

namespace ExitFlow

/-- Nothing has happened, and there is one bot. -/
def start : ExitFlow where
  books token := { desk := Desk.new token }
  db := oneBotDb

theorem start_begins : start.Begins where
  books _ := rfl
  handled := rfl
  rows _ hbo := absurd hbo List.not_mem_nil

/-- The order of the row `1`: twenty shares, to be sold at `0.75`. -/
def withTakeProfit : OrderRequest :=
  { side := .buy, price := 1 / 2, quantity := 20, tpPrice := some (3 / 4), onBracketExit := some 1 }

/-- The fill of the placement. -/
def boughtAll : FillMessage := ⟨1, some 7, 20, 1 / 2, .filled, none⟩

/-- The exit that the feed triggers. -/
def soldAll : BracketFillResult :=
  { orderId := 7, trigger := .tp, triggerPrice := some (3 / 4), marketBid := 4 / 5,
    qtyToClose := 20,
    qtyExited := 20, avgExitPrice := 4 / 5, levelsConsumed := 1, fillLevels := [(4 / 5, 20)],
      timestamp := 2 }

def soldMessage : PublishedExit := ⟨soldAll.exitMessage 2 1, [.fill boughtAll]⟩

/-- The order is filled when it is placed; then the best bid reaches the take profit. -/
def fillAndExit : List ExitAction :=
  .transact queueBracket ::
    ([.feedOp 0 (Desk.offer (1 / 2) 20 pos_one_half), .deliver, .place 0 1 7 withTakeProfit,
      .consume, .consume, .consume, .consume, .consume, .consume, .consume,
      .feedOp 2 (.applyChanges
        [{ price := 4 / 5, size := 20, price_pos := pos_four_fifths, side := .bid }]), .deliver,
      .feedOp 2 .monitorBracketOrders, .deliver].map (ExitAction.desk "T") ++
      [.callback "T" 2 1 soldAll])

end ExitFlow

open ExitFlow in
/-- The fill is handled first. -/
theorem exits_recorded_in_order : ∃ s : ExitFlow, ExitsRecorded s.db ∧
    s.db.orders.rows.map (fun bo => (bo.exitTrigger, bo.numShares)) = [(some .tp, some 20)] := by
  have hexec : (exec ExitFlow.step FillsFirst start
      (fillAndExit ++ [.fill "T" boughtAll, .exit "T" 3 soldMessage])).any fun s =>
        s.db.orders.rows.map (fun bo => (bo.exitTrigger, bo.numShares)) =
          [(some .tp, some 20)] := by
    decide +kernel
  obtain ⟨s, hs, hrows⟩ := (Option.any_eq_true _ _).mp hexec
  exact ⟨s, exits_recorded (run_of_exec hs) start_begins, of_decide_eq_true hrows⟩

open ExitFlow in
/-- **The exit overtakes the fill**: it was published after it, and is recorded on a row without
shares. -/
theorem exit_overtakes_fill : start.Begins ∧ ∃ s, Run ExitFlow.step (fun _ _ => True) start s ∧
    boughtAll ∈ fillMessages soldMessage.before ∧ ¬ ExitsRecorded s.db := by
  have hexec : (exec ExitFlow.step (fun _ _ => True) start
      (fillAndExit ++ [.exit "T" 3 soldMessage])).any fun s => ¬ ExitsRecorded s.db := by
    decide +kernel
  obtain ⟨s, hs, hrows⟩ := (Option.any_eq_true _ _).mp hexec
  exact ⟨start_begins, s, run_of_exec hs, List.mem_singleton_self _, of_decide_eq_true hrows⟩

end PolyArena
