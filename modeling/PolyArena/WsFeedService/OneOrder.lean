import PolyArena.MatchingEngine.LiveOrders
import PolyArena.WsFeedService.RecoveryRuns

/-!
# One order per row

Orders reach the engine through queues that outlive the service, from two producers: `create_bo`
pushes the payload of the row that it committed, and recovery queues rows again after a restart.

1. `System` is the database, the handlers that have yet to push, the queues and the service;
   `System.step` is one action of any of them, a restart included.
2. `takesOne_process`: taking a payload brings one order at most, and nothing else to life.
3. `systemInv_step` and `one_live_order`: where recovery queues no row that something waits or
   stands for, no row has two live orders.
-/

namespace PolyArena

open ShadowOrderbook List

/-! ## The queues -/

/-- An entry of a queue. -/
inductive QueueEntry
  | api (m : QueuePayload)
  | recovered (p : RecoveryPayload)

namespace QueueEntry

def boId : QueueEntry → ℕ
  | api m => m.boId
  | recovered p => p.boId

/-- The session that the queue is named after. -/
def sessionId : QueueEntry → SessionId
  | api m => m.sessionId
  | recovered p => p.sessionId

/-- `_process_order`. -/
def process (s : FeedService) (now : Time) (id : OrderId) : QueueEntry → FeedService
  | api m => s.processOrder now m.sessionId m id
  | recovered p => s.processRecovered now p id

end QueueEntry

/-- `brpop` of one queue; all queues are in one list, newest first. -/
def popQueue (sid : SessionId) : List QueueEntry → Option (QueueEntry × List QueueEntry)
  | [] => none
  | e :: rest =>
    match popQueue sid rest with
    | some (x, rest') => some (x, e :: rest')
    | none => if e.sessionId = sid then some (e, rest) else none

theorem perm_of_popQueue {sid : SessionId} {q q' : List QueueEntry} {e : QueueEntry}
    (h : popQueue sid q = some (e, q')) : q.Perm (e :: q') := by
  induction q generalizing q' with
  | nil => cases h
  | cons x q ih =>
    unfold popQueue at h
    cases hpop : popQueue sid q with
    | some y =>
      rw [hpop] at h
      cases h
      exact ((ih hpop).cons x).trans (.swap _ _ _)
    | none =>
      rw [hpop] at h
      dsimp only at h
      split at h
      · cases h
        exact .refl _
      · cases h

/-! ## The system -/

structure System where
  db : Database
  /-- The payloads of committed rows that `create_bo` has yet to push. -/
  pushing : List QueuePayload := []
  queued : List QueueEntry := []
  service : FeedService := ⟨.empty, {}⟩
  /-- The rows that recovery has yet to look at, once it read them. -/
  recovering : Option (List BinaryOption) := none
  /-- The row that an order was placed for. -/
  owner : OrderId → Option ℕ := fun _ => none

inductive SystemAction
  /-- `create_bo` up to the commit of the row. -/
  | create (now : Time) (apiKey : String) (p : BOCreate) (first second : SnapshotRead)
      (queueUp : Bool) (id : ℕ)
  /-- It pushes. -/
  | push (i : ℕ)
  /-- It dies before. -/
  | abandon (i : ℕ)
  /-- The handlers of the engine's messages and the settlement rewrite rows. -/
  | rewrite (db : Database)
  /-- The consumer pops a queue and processes the payload; `id` is the order id a placement
  draws. -/
  | take (now : Time) (sid : SessionId) (id : OrderId)
  /-- A payload is popped and not processed: by a consumer that dies, or from the queue of an
  expired session. -/
  | lose (sid : SessionId)
  /-- The feed, the ticks and the callbacks work on a book. -/
  | work (now : Time) (sid : SessionId) (dir : Direction) (a : BookAction)
  | createSession (sid : SessionId) (tokens : Direction → Option String) (state : SessionState)
  | transition (sid : SessionId) (state : SessionState)
  /-- The callbacks change the consumer's tables. -/
  | report (c : OrderConsumer)
  | restart
  /-- `_recover_pending_orders` queries the rows. -/
  | readRows
  /-- Its loop body for the next row. -/
  | recoverNext (r : TokenRegistry) (now : Time)

namespace System

/-- One action.  Order ids are new. -/
def step (y : System) : SystemAction → Option System
  | .create now apiKey p first second queueUp id =>
    if h : id ∉ y.db.orders.rows.map BinaryOption.id then
      match createBo now y.db apiKey p first second queueUp ⟨id, h⟩ with
      | .ok c => some { y with db := c.db, pushing := c.queued.toList ++ y.pushing }
      | .error _ => none
    else none
  | .push i =>
    (y.pushing[i]?).map fun m =>
      { y with pushing := y.pushing.eraseIdx i, queued := .api m :: y.queued }
  | .abandon i => some { y with pushing := y.pushing.eraseIdx i }
  | .rewrite db =>
    if db.orders.rows.map BinaryOption.id = y.db.orders.rows.map BinaryOption.id then
      some { y with db := db }
    else none
  | .take now sid id =>
    if y.owner id = none then
      (popQueue sid y.queued).map fun x =>
        { y with
          queued := x.2
          service := x.1.process y.service now id
          owner := Function.update y.owner id (some x.1.boId) }
    else none
  | .lose sid => (popQueue sid y.queued).map fun x => { y with queued := x.2 }
  | .work now sid dir a =>
    if a.brings then none
    else
      (y.service.manager.getSession sid).bind fun session =>
        (session.books dir).map fun b =>
          { y with service := ⟨y.service.manager.setBook session dir (a.apply now b),
            y.service.consumer⟩ }
  | .createSession sid tokens state =>
    some { y with service := ⟨y.service.manager.createSession sid tokens state,
      y.service.consumer⟩ }
  | .transition sid state =>
    some { y with service := ⟨y.service.manager.transitionSession sid state, y.service.consumer⟩ }
  | .report c => some { y with service := ⟨y.service.manager, c⟩ }
  | .restart => some { y with service := ⟨.empty, {}⟩, recovering := none }
  | .readRows =>
    if y.recovering.isNone then some { y with recovering := some y.db.orders.rows } else none
  | .recoverNext r now =>
    match y.recovering with
    | some (bo :: rest) =>
      let recovered := recoverOrder y.service.manager r now bo
      some { y with
        service := ⟨recovered.1, y.service.consumer⟩
        queued := (recovered.2.map QueueEntry.recovered).toList ++ y.queued
        recovering := some rest }
    | _ => none

/-- How many payloads of the row wait: with its handler or in a queue. -/
def waiting (y : System) (v : ℕ) : ℕ :=
  (y.pushing.map QueuePayload.boId).count v + (y.queued.map QueueEntry.boId).count v

/-- A live order in the books that was placed for the row. -/
def StandsFor (y : System) (v : ℕ) (sid : SessionId) (dir : Direction) (o : SimulatedOrder) :
    Prop :=
  ∃ b, y.service.manager.bookAt sid dir = some b ∧ o ∈ b.virtualOrders ∧ o.isLive = true ∧
    y.owner o.orderId = some v

/-- Nothing waits for the row, and no live order stands for it. -/
def Clear (y : System) (v : ℕ) : Prop :=
  y.waiting v = 0 ∧ ∀ s ∈ y.service.manager.engines.rows, ∀ dir ∈ [Direction.up, .down],
    ∀ b ∈ s.books dir, ∀ o ∈ b.virtualOrders, ¬ (o.isLive = true ∧ y.owner o.orderId = some v)

instance (y : System) (v : ℕ) : Decidable (y.Clear v) := by
  unfold Clear
  infer_instance

/-- Recovery queues a row only when it is clear. -/
def RecoversClear (y : System) : SystemAction → Prop
  | .recoverNext r now =>
    match y.recovering with
    | some (bo :: _) => (bo.recoveryTarget now r).isSome → y.Clear bo.id
    | _ => True
  | _ => True

instance (y : System) (a : SystemAction) : Decidable (y.RecoversClear a) := by
  unfold RecoversClear
  split
  · split <;> infer_instance
  · infer_instance

end System

/-! ## What the steps do to the books -/

section

variable {s s' : FeedService} {m : SessionManager} {session : SessionEngine} {sid sid' : SessionId}
  {dir dir' : Direction} {b b' : ShadowOrderbook} {id : OrderId} {now : Time} {boId : ℕ}
  {token : String}

/-- Every book of `m'` is the rest of the one at its place, or new. -/
def RestOfManager (m' m : SessionManager) : Prop :=
  ∀ sid dir b', m'.bookAt sid dir = some b' →
    b'.virtualOrders = [] ∨ ∃ b, m.bookAt sid dir = some b ∧ RestOfBook b' b

/-- The same, but one book may have an order more. -/
def TakesOne (id : OrderId) (m' m : SessionManager) : Prop :=
  ∃ sid₀ dir₀, ∀ sid dir b', m'.bookAt sid dir = some b' → ∃ b, m.bookAt sid dir = some b ∧
    (RestOfBook b' b ∨ sid = sid₀ ∧ dir = dir₀ ∧ OneMore id b' b)

theorem restOfBook_of_same (h : b'.virtualOrders = b.virtualOrders) : RestOfBook b' b := by
  unfold RestOfBook
  rw [h]
  exact refl_of (SublistForall₂ RestOf) _

theorem restOfManager_refl (m : SessionManager) :
    RestOfManager m m := fun _ _ b hb => .inr ⟨b, hb, .refl b⟩

theorem restOfManager_setBook (hs : m.getSession session.sessionId = some session)
    (hb : session.books dir = some b) (h : RestOfBook b' b) :
    RestOfManager (m.setBook session dir b') m := by
  intro sid' dir' b'' hb''
  rcases bookAt_setBook_cases hs hb hb'' with ⟨rfl, rfl, rfl⟩ | ⟨-, hb''⟩
  · refine .inr ⟨b, ?_, h⟩
    exact bookAt_of_books hs hb
  · exact .inr ⟨b'', hb'', .refl b''⟩

theorem restOfManager_createSession {tokens : Direction → Option String} {state : SessionState} :
    RestOfManager (m.createSession sid tokens state) m := by
  intro sid' dir' b' hb'
  rcases createSession_books hb' with hb' | hcore
  · exact .inr ⟨b', hb', .refl b'⟩
  · exact .inl (congrArg BookCore.orders hcore)

/-- A transition leaves a book, expires it or drops it. -/
theorem restOfManager_transition {state : SessionState} :
    RestOfManager (m.transitionSession sid state) m := by
  intro sid' dir' b' hb'
  obtain ⟨b, hb, hbook⟩ := bookAt_transitionSession hb'
  refine .inr ⟨b, hb, ?_⟩
  rcases hbook with rfl | rfl
  · exact .refl b'
  · exact restOfBook_of_forall₂ (respects_restOf.feedOp
      (t := 0) .expireBook nofun nofun nofun nofun)

theorem restOfManager_recoverOrder {r : TokenRegistry} {bo : BinaryOption} :
    RestOfManager (recoverOrder m r now bo).1 m := by
  intro sid' dir' b' hb'
  rcases recoverOrder_books hb' with hb' | hcore
  · exact .inr ⟨b', hb', .refl b'⟩
  · exact .inl (congrArg BookCore.orders hcore)

theorem TakesOne.refl (id : OrderId) (m : SessionManager) : TakesOne id m m :=
  ⟨⟨.btc, .m5, 0⟩, .up, fun _ _ b hb => ⟨b, hb, .inl (.refl b)⟩⟩

/-- Work on one book, and the others as they were. -/
theorem SameBooksBut.takesOne (h : SameBooksBut s' s sid dir)
    (hb : s.manager.bookAt sid dir = some b) (hb' : s'.manager.bookAt sid dir = some b')
    (hmore : OneMore id b' b) :
    TakesOne id s'.manager s.manager := by
  refine ⟨sid, dir, fun sid'' dir'' b'' hb'' => ?_⟩
  by_cases hsame : sid'' = sid ∧ dir'' = dir
  · obtain ⟨rfl, rfl⟩ := hsame
    obtain rfl : b' = b'' := Option.some.inj (hb'.symm.trans hb'')
    exact ⟨b, hb, .inr ⟨rfl, rfl, hmore⟩⟩
  · obtain ⟨b₀, hb₀, horders, -⟩ := h sid'' dir'' b'' hb'' hsame
    exact ⟨b₀, hb₀, .inl (restOfBook_of_same horders)⟩

theorem OneMore.congr (h : OneMore id b' b) {b'' : ShadowOrderbook}
    (horders : b''.virtualOrders = b'.virtualOrders) : OneMore id b'' b := by
  obtain ⟨os, o, ho, hrest, hid⟩ := h
  exact ⟨os, o, horders.trans ho, hrest, hid⟩

theorem takesOne_enterPrefilled {q : PrefilledRequest}
    (hs : s.manager.getSession session.sessionId = some session) :
    TakesOne id (s.enterPrefilled now session token boId q id).manager s.manager := by
  cases hb : session.bookForPrefilled token with
  | none =>
    unfold FeedService.enterPrefilled
    rw [hb]
    exact .refl id s.manager
  | some x =>
    obtain ⟨⟨b', hb', horders, -⟩, hsame⟩ := enterPrefilled_books now boId id q hs hb
    have hat : s.manager.bookAt session.sessionId x.1 = some x.2 :=
      bookAt_of_books hs (bookForPrefilled_spec hb)
    exact hsame.takesOne hat hb' (oneMore_placePrefilled.congr horders)

theorem takesOne_enterStandard {q : OrderRequest}
    (hs : s.manager.getSession session.sessionId = some session) :
    TakesOne id (s.enterStandard now session token boId q id).manager s.manager := by
  cases hb : session.bookForOrder token with
  | none =>
    unfold FeedService.enterStandard
    rw [hb]
    exact .refl id s.manager
  | some x =>
    obtain ⟨⟨b₁, b', hb₁, hb', horders, -⟩, hsame⟩ := enterStandard_books now boId id q hs hb
    have hat : s.manager.bookAt session.sessionId x.1 = some x.2 :=
      bookAt_of_books hs (bookForOrder_spec hb)
    refine hsame.takesOne hat hb' (OneMore.congr ?_ horders)
    rcases hb₁ with rfl | rfl
    · exact oneMore_placeVirtualOrder
    · exact oneMore_placeVirtualOrder.resetFillLevels

/-- **Taking a payload** brings one order at most. -/
theorem takesOne_process (s : FeedService) (now : Time) (id : OrderId) (e : QueueEntry) :
    TakesOne id (e.process s now id).manager s.manager := by
  cases e with
  | api m =>
    change TakesOne id (s.processOrder now m.sessionId m id).manager s.manager
    unfold FeedService.processOrder
    cases hs : s.manager.getSession m.sessionId with
    | none => exact .refl id s.manager
    | some session =>
      have hsid : session.sessionId = m.sessionId := Table.key_of_get hs
      rw [← hsid] at hs
      dsimp only
      split
      · exact .refl id s.manager
      · split
        · rw [FeedService.processPrefilledOrder_eq]
          split
          · exact .refl id s.manager
          · exact takesOne_enterPrefilled hs
        · rw [FeedService.processStandardOrder_eq]
          split
          · exact .refl id s.manager
          · exact takesOne_enterStandard hs
  | recovered p =>
    change TakesOne id (s.processRecovered now p id).manager s.manager
    unfold FeedService.processRecovered
    cases hs : s.manager.getSession p.sessionId with
    | none => exact .refl id s.manager
    | some session =>
      have hsid : session.sessionId = p.sessionId := Table.key_of_get hs
      rw [← hsid] at hs
      dsimp only
      split
      · split
        · exact .refl id s.manager
        · exact takesOne_enterPrefilled hs
      · exact takesOne_enterStandard hs

end

/-! ## The invariant -/

section

variable {y y' : System} {v : ℕ} {sid sid' : SessionId} {dir dir' : Direction}
  {o o' : SimulatedOrder} {b b' : ShadowOrderbook} {os os' : List SimulatedOrder} {a : SystemAction}

theorem sublist_of_rest (h : SublistForall₂ RestOf os' os) :
    (os'.map SimulatedOrder.orderId).Sublist (os.map SimulatedOrder.orderId) := by
  induction h with
  | nil => exact List.nil_sublist _
  | cons hrest _ ih =>
    rw [List.map_cons, List.map_cons, hrest.orderId]
    exact ih.cons_cons _
  | cons_right _ ih => exact ih.cons _

/-- Of every row at most one thing: a payload that waits, or a live order. -/
structure SystemInv (y : System) : Prop where
  nodup : ∀ sid dir b, y.service.manager.bookAt sid dir = some b →
    (b.virtualOrders.map SimulatedOrder.orderId).Nodup
  owned : ∀ sid dir b, y.service.manager.bookAt sid dir = some b → ∀ o ∈ b.virtualOrders,
    y.owner o.orderId ≠ none
  unique : ∀ v sid dir o sid' dir' o', y.StandsFor v sid dir o → y.StandsFor v sid' dir' o' →
    sid = sid' ∧ dir = dir' ∧ o.orderId = o'.orderId
  quiet : ∀ v sid dir o, y.StandsFor v sid dir o → y.waiting v = 0
  once : ∀ v, y.waiting v ≤ 1
  waits : ∀ v, 0 < y.waiting v → v ∈ y.db.orders.rows.map BinaryOption.id
  stands : ∀ v sid dir o, y.StandsFor v sid dir o → v ∈ y.db.orders.rows.map BinaryOption.id
  read : ∀ bo ∈ y.recovering.getD [], bo.id ∈ y.db.orders.rows.map BinaryOption.id

/-- Live orders are what is left of live orders. -/
theorem standsFor_of_rest (hrest : RestOfManager y'.service.manager y.service.manager)
    (howner : y'.owner = y.owner) (h : y'.StandsFor v sid dir o') :
    ∃ o, y.StandsFor v sid dir o ∧ o'.orderId = o.orderId := by
  obtain ⟨b', hb', ho', hlive, hv⟩ := h
  rcases hrest sid dir b' hb' with hnone | ⟨b, hb, hbook⟩
  · rw [hnone] at ho'
    cases ho'
  · obtain ⟨o, ho, horest⟩ := restOf_of_mem hbook ho'
    rw [howner, horest.orderId] at hv
    exact ⟨o, ⟨b, hb, ho, horest.live hlive, hv⟩, horest.orderId⟩

/-- **Steps that bring no order**: what waits more waits for a row that was clear. -/
theorem SystemInv.of_rest (h : SystemInv y)
    (hrest : RestOfManager y'.service.manager y.service.manager) (howner : y'.owner = y.owner)
    (hids : ∀ v ∈ y.db.orders.rows.map BinaryOption.id, v ∈ y'.db.orders.rows.map BinaryOption.id)
    (hread : ∀ bo ∈ y'.recovering.getD [], bo.id ∈ y'.db.orders.rows.map BinaryOption.id)
    (hwait : ∀ v, y'.waiting v ≤ y.waiting v ∨ y'.waiting v ≤ 1 ∧
      v ∈ y'.db.orders.rows.map BinaryOption.id ∧ ∀ sid dir o, ¬ y.StandsFor v sid dir o) :
    SystemInv y' where
  nodup := by
    intro sid dir b' hb'
    rcases hrest sid dir b' hb' with hnone | ⟨b, hb, hbook⟩
    · rw [hnone]
      exact List.nodup_nil
    · exact (h.nodup sid dir b hb).sublist (sublist_of_rest hbook)
  owned := by
    intro sid dir b' hb' o' ho'
    rcases hrest sid dir b' hb' with hnone | ⟨b, hb, hbook⟩
    · rw [hnone] at ho'
      cases ho'
    · obtain ⟨o, ho, horest⟩ := restOf_of_mem hbook ho'
      rw [howner, horest.orderId]
      exact h.owned sid dir b hb o ho
  unique := by
    intro v sid dir o sid' dir' o' ho ho'
    obtain ⟨x, hx, hid⟩ := standsFor_of_rest hrest howner ho
    obtain ⟨x', hx', hid'⟩ := standsFor_of_rest hrest howner ho'
    obtain ⟨hsid, hdir, hxx⟩ := h.unique v sid dir x sid' dir' x' hx hx'
    exact ⟨hsid, hdir, hid.trans (hxx.trans hid'.symm)⟩
  quiet := by
    intro v sid dir o ho
    obtain ⟨x, hx, -⟩ := standsFor_of_rest hrest howner ho
    rcases hwait v with hle | ⟨-, -, hclear⟩
    · exact Nat.le_zero.mp (hle.trans (h.quiet v sid dir x hx).le)
    · exact absurd hx (hclear sid dir x)
  once := by
    intro v
    rcases hwait v with hle | ⟨hone, -⟩
    · exact hle.trans (h.once v)
    · exact hone
  waits := by
    intro v hv
    rcases hwait v with hle | ⟨-, hmem, -⟩
    · exact hids v (h.waits v (hv.trans_le hle))
    · exact hmem
  stands := by
    intro v sid dir o ho
    obtain ⟨x, hx, -⟩ := standsFor_of_rest hrest howner ho
    exact hids v (h.stands v sid dir x hx)
  read := hread

theorem SystemInv.unclear (h : SystemInv y) (hv : v ∉ y.db.orders.rows.map BinaryOption.id) :
    y.waiting v = 0 ∧ ∀ sid dir o, ¬ y.StandsFor v sid dir o :=
  ⟨Nat.eq_zero_of_not_pos fun hpos => hv (h.waits v hpos),
    fun sid dir o ho => hv (h.stands v sid dir o ho)⟩

theorem System.Clear.not_standsFor (h : y.Clear v) : ¬ y.StandsFor v sid dir o := by
  rintro ⟨b, hb, ho, hlive, hv⟩
  obtain ⟨session, hs, hbook⟩ := Option.bind_eq_some_iff.mp hb
  exact h.2 session (Table.mem_of_get hs) dir (by cases dir <;> simp) b hbook o ho ⟨hlive, hv⟩

/-! ## The steps -/

/-- The payload of a path is of its row. -/
theorem choosePath_queue {now : Time} {r : Admitted} {p : BOCreate} {second : SnapshotRead} {k : ℕ}
    {d : Draft k} (h : choosePath now r p second k = .ok d) : ∀ q ∈ d.queue, q.1.boId = k := by
  unfold choosePath at h
  split at h
  · split at h
    · obtain ⟨f, -, rfl⟩ := aggressiveLimit_ok h
      intro q hq
      unfold aggressiveDraft at hq
      dsimp only at hq
      split_ifs at hq <;> cases hq <;> rfl
    · cases h
      intro q hq
      cases hq
      rfl
  · obtain ⟨avg, shares, levels, -, rfl⟩ := marketOrder_ok h
    intro q hq
    unfold marketDraft at hq
    dsimp only at hq
    split_ifs at hq
    · cases hq
      rfl
    · cases hq

/-- An accepted request adds its row, and queues a payload of it at most. -/
theorem created_row {now : Time} {db : Database} {apiKey : String} {p : BOCreate}
    {first second : SnapshotRead} {queueUp : Bool} {id : db.FreshId} {c : Created}
    (h : createBo now db apiKey p first second queueUp id = .ok c) :
    c.db.orders.rows.map BinaryOption.id = db.orders.rows.map BinaryOption.id ++ [id.val] ∧
      ∀ m ∈ c.queued, m.boId = id.val := by
  obtain ⟨r, d, -, hpath, rfl⟩ := createBo_ok h
  refine ⟨?_, fun m hm => ?_⟩
  · change (db.orders.rows ++ [queuedRow d.row queueUp d.queue]).map BinaryOption.id = _
    rw [List.map_append, List.map_singleton, queuedRow_id, d.row_id]
  · unfold commitDraft at hm
    dsimp only at hm
    split at hm
    · obtain ⟨q, hq, rfl⟩ := Option.map_eq_some_iff.mp hm
      exact choosePath_queue hpath q hq
    · cases hm

/-- A payload that is pushed waits in a queue in place of its handler. -/
theorem waiting_push {i : ℕ} {m : QueuePayload} (hm : y.pushing[i]? = some m) :
    System.waiting { y with pushing := y.pushing.eraseIdx i, queued := .api m :: y.queued } v =
      y.waiting v := by
  obtain ⟨hi, rfl⟩ := List.getElem?_eq_some_iff.mp hm
  have hperm := ((List.getElem_cons_eraseIdx_perm hi).map QueuePayload.boId).count_eq v
  unfold System.waiting
  rw [← hperm]
  simp only [List.map_cons, List.count_cons]
  rw [add_right_comm, add_assoc]
  rfl

theorem waiting_abandon (y : System) (i v : ℕ) :
    System.waiting { y with pushing := y.pushing.eraseIdx i } v ≤ y.waiting v :=
  Nat.add_le_add_right (((List.eraseIdx_sublist y.pushing i).map _).count_le v) _

/-- The payload that is popped waited. -/
theorem waiting_pop {e : QueueEntry} {q : List QueueEntry}
    (h : popQueue sid y.queued = some (e, q)) :
    y.waiting v = (y.pushing.map QueuePayload.boId).count v +
      ((q.map QueueEntry.boId).count v + if e.boId = v then 1 else 0) := by
  have hperm := ((perm_of_popQueue h).map QueueEntry.boId).count_eq v
  unfold System.waiting
  rw [hperm, List.map_cons, List.count_cons]
  simp

/-- What one producer adds to what waits. -/
theorem count_toList_map {α : Type*} {f : α → ℕ} {x : Option α} {k v : ℕ} (h : ∀ m ∈ x, f m = k) :
    (x.toList.map f).count v ≤ if v = k then 1 else 0 := by
  cases x with
  | none => exact Nat.zero_le _
  | some m =>
    obtain rfl := h m rfl
    rw [Option.toList_some, List.map_singleton, List.count_singleton]
    split <;> simp_all

/-- More waits for the row of a payload that is added, and it was clear. -/
theorem waiting_add {k : ℕ} (hwait : ∀ v, y'.waiting v ≤ (if v = k then 1 else 0) + y.waiting v)
    (hk : y.waiting k = 0) (hids : k ∈ y'.db.orders.rows.map BinaryOption.id)
    (hclear : ∀ sid dir o, ¬ y.StandsFor k sid dir o) (v : ℕ) :
    y'.waiting v ≤ y.waiting v ∨ y'.waiting v ≤ 1 ∧
      v ∈ y'.db.orders.rows.map BinaryOption.id ∧ ∀ sid dir o, ¬ y.StandsFor v sid dir o := by
  have hv := hwait v
  by_cases hvk : v = k
  · subst hvk
    rw [if_pos rfl, hk] at hv
    exact .inr ⟨hv, hids, hclear⟩
  · rw [if_neg hvk, Nat.zero_add] at hv
    exact .inl hv

/-- The system after the consumer took a payload. -/
def System.taken (y : System) (now : Time) (id : OrderId) (x : QueueEntry × List QueueEntry) :
    System :=
  { y with
    queued := x.2
    service := x.1.process y.service now id
    owner := Function.update y.owner id (some x.1.boId) }

theorem System.taken_owner_self (y : System) (now : Time) (id : OrderId)
    (x : QueueEntry × List QueueEntry) :
    (y.taken now id x).owner id = some x.1.boId := Function.update_self _ _ _

theorem System.taken_owner_ne (y : System) (now : Time) {id i : OrderId}
    (x : QueueEntry × List QueueEntry) (h : i ≠ id) :
    (y.taken now id x).owner i = y.owner i := Function.update_of_ne h _ _

/-- An order of the books afterwards is left of one before, or the one that the payload brought. -/
theorem SystemInv.orders_taken (h : SystemInv y) (now : Time) {id : OrderId}
    (hid : y.owner id = none) (x : QueueEntry × List QueueEntry) : ∃ sid₀ dir₀, ∀ sid dir b',
      (y.taken now id x).service.manager.bookAt sid dir = some b' →
        (b'.virtualOrders.map SimulatedOrder.orderId).Nodup ∧ ∀ o' ∈ b'.virtualOrders,
          (∃ b, y.service.manager.bookAt sid dir = some b ∧ ∃ o ∈ b.virtualOrders, RestOf o' o ∧
            o.orderId ≠ id) ∨ sid = sid₀ ∧ dir = dir₀ ∧ o'.orderId = id := by
  obtain ⟨sid₀, dir₀, htakes⟩ := takesOne_process y.service now id x.1
  refine ⟨sid₀, dir₀, fun sid dir b' hb' => ?_⟩
  obtain ⟨b, hb, hcase⟩ := htakes sid dir b' hb'
  have hne : ∀ o ∈ b.virtualOrders, o.orderId ≠ id := fun o ho hoid =>
    h.owned sid dir b hb o ho (hoid ▸ hid)
  have hold : ∀ os, SublistForall₂ RestOf os b.virtualOrders → ∀ o' ∈ os, ∃ b,
      y.service.manager.bookAt sid dir = some b ∧ ∃ o ∈ b.virtualOrders, RestOf o' o ∧
        o.orderId ≠ id := by
    intro os hos o' ho'
    obtain ⟨o, ho, hrest⟩ := restOf_of_mem hos ho'
    exact ⟨b, hb, o, ho, hrest, hne o ho⟩
  rcases hcase with hrest | ⟨rfl, rfl, os, o, horders, hrest, hoid⟩
  · exact ⟨(h.nodup sid dir b hb).sublist (sublist_of_rest hrest),
      fun o' ho' => .inl (hold _ hrest o' ho')⟩
  · rw [horders]
    refine ⟨?_, fun o' ho' => ?_⟩
    · rw [List.map_append, List.map_singleton, hoid]
      refine List.Nodup.append ((h.nodup sid dir b hb).sublist (sublist_of_rest hrest))
        (List.nodup_singleton id) ?_
      intro i hi hi'
      obtain rfl := List.mem_singleton.mp hi'
      obtain ⟨o', ho', hoid'⟩ := List.mem_map.mp hi
      obtain ⟨o₀, ho₀, hrest₀⟩ := restOf_of_mem hrest ho'
      exact hne o₀ ho₀ (hrest₀.orderId.symm.trans hoid')
    · rcases List.mem_append.mp ho' with ho' | ho'
      · exact .inl (hold os hrest o' ho')
      · rw [List.mem_singleton.mp ho']
        exact .inr ⟨rfl, rfl, hoid⟩

/-- **The order that a payload brings** is the only one of its row. -/
theorem SystemInv.take (h : SystemInv y) {now : Time} {id : OrderId}
    {x : QueueEntry × List QueueEntry} (hid : y.owner id = none)
    (hpop : popQueue sid y.queued = some x) :
    SystemInv (y.taken now id x) := by
  obtain ⟨sid₀, dir₀, horders⟩ := h.orders_taken now hid x
  have hwait : ∀ v, y.waiting v = (y.taken now id x).waiting v + if x.1.boId = v then 1
      else 0 := fun v =>
    (waiting_pop hpop).trans (Nat.add_assoc _ _ _).symm
  have hrow : 0 < y.waiting x.1.boId := by
    rw [hwait, if_pos rfl]
    exact Nat.succ_pos _
  -- a live order stood for its row before, or it is the new one
  have hstands : ∀ {v sid dir o'}, (y.taken now id x).StandsFor v sid dir o' →
      (∃ o, y.StandsFor v sid dir o ∧ o'.orderId = o.orderId) ∨
        sid = sid₀ ∧ dir = dir₀ ∧ o'.orderId = id ∧ v = x.1.boId := by
    rintro v sid dir o' ⟨b', hb', ho', hlive, hv⟩
    rcases (horders sid dir b' hb').2 o' ho' with ⟨b, hb, o, ho, hrest, hne⟩ | ⟨rfl, rfl, hoid⟩
    · refine .inl ⟨o, ⟨b, hb, ho, hrest.live hlive, ?_⟩, hrest.orderId⟩
      rwa [hrest.orderId, System.taken_owner_ne y now x hne] at hv
    · rw [hoid, System.taken_owner_self, Option.some.injEq] at hv
      exact .inr ⟨rfl, rfl, hoid, hv.symm⟩
  -- nothing stands for the row of the payload as long as it waits
  have hquiet : ∀ sid dir o, ¬ y.StandsFor x.1.boId sid dir o := fun sid dir o ho =>
    hrow.ne' (h.quiet _ sid dir o ho)
  refine ⟨fun sid dir b' hb' => (horders sid dir b' hb').1, ?_, ?_, ?_, fun v => ?_,
    fun v hv => ?_, ?_, h.read⟩
  · intro sid dir b' hb' o' ho'
    rcases (horders sid dir b' hb').2 o' ho' with ⟨b, hb, o, ho, hrest, hne⟩ | ⟨-, -, hoid⟩
    · rw [hrest.orderId, System.taken_owner_ne y now x hne]
      exact h.owned sid dir b hb o ho
    · rw [hoid, System.taken_owner_self]
      exact Option.some_ne_none _
  · intro v sid dir o sid' dir' o' ho ho'
    rcases hstands ho, hstands ho' with
      ⟨⟨p, hp, hpid⟩ | ⟨rfl, rfl, hoid, rfl⟩, ⟨p', hp', hpid'⟩ | ⟨rfl, rfl, hoid', hv⟩⟩
    · obtain ⟨hsid, hdir, hpp⟩ := h.unique v sid dir p sid' dir' p' hp hp'
      exact ⟨hsid, hdir, hpid.trans (hpp.trans hpid'.symm)⟩
    · subst hv
      exact absurd hp (hquiet sid dir p)
    · exact absurd hp' (hquiet sid' dir' p')
    · exact ⟨rfl, rfl, hoid.trans hoid'.symm⟩
  · intro v sid dir o' ho'
    have hv := hwait v
    rcases hstands ho' with ⟨o, ho, -⟩ | ⟨-, -, -, rfl⟩
    · exact Nat.eq_zero_of_add_eq_zero_right (hv.symm.trans (h.quiet v sid dir o ho))
    · rw [if_pos rfl] at hv
      have := h.once x.1.boId
      omega
  · exact (Nat.le_add_right _ _).trans ((hwait v).ge.trans (h.once v))
  · exact h.waits v (hv.trans_le ((Nat.le_add_right _ _).trans (hwait v).ge))
  · intro v sid dir o' ho'
    rcases hstands ho' with ⟨o, ho, -⟩ | ⟨-, -, -, rfl⟩
    · exact h.stands v sid dir o ho
    · exact h.waits _ hrow

theorem systemInv_start (db : Database) : SystemInv { db := db } where
  nodup := fun _ _ _ hb => nomatch hb
  owned := fun _ _ _ hb => nomatch hb
  unique := fun _ _ _ _ _ _ _ ho => nomatch ho.choose_spec.1
  quiet := fun _ _ _ _ ho => nomatch ho.choose_spec.1
  once := fun _ => Nat.zero_le 1
  waits := fun _ hv => absurd hv (lt_irrefl 0)
  stands := fun _ _ _ _ ho => nomatch ho.choose_spec.1
  read := fun _ hbo => nomatch hbo

/-- **A row that is created** is new, and at most one payload is queued for it. -/
theorem SystemInv.create (h : SystemInv y) {now : Time} {apiKey : String} {p : BOCreate}
    {first second : SnapshotRead} {queueUp : Bool} {id : ℕ} {c : Created}
    (hfresh : id ∉ y.db.orders.rows.map BinaryOption.id)
    (hc : createBo now y.db apiKey p first second queueUp ⟨id, hfresh⟩ = .ok c) :
    SystemInv { y with
      db := c.db
      pushing := c.queued.toList ++ y.pushing } := by
  obtain ⟨hrows, hqueued⟩ := created_row hc
  have hmem : ∀ v ∈ y.db.orders.rows.map BinaryOption.id,
      v ∈ c.db.orders.rows.map BinaryOption.id :=
    fun v hv => hrows ▸ List.mem_append_left _ hv
  obtain ⟨hnone, hclear⟩ := h.unclear hfresh
  refine h.of_rest (restOfManager_refl _) rfl hmem (fun bo hbo => hmem _ (h.read bo hbo))
    (waiting_add (fun v => ?_) hnone
      (hrows ▸ List.mem_append_right _ (List.mem_singleton_self _)) hclear)
  unfold System.waiting
  dsimp only
  rw [List.map_append, List.count_append, Nat.add_assoc]
  exact Nat.add_le_add_right (count_toList_map hqueued) _

/-- **A row that is recovered** when nothing waits or stands for it. -/
theorem SystemInv.recover (h : SystemInv y) {r : TokenRegistry} {now : Time} {bo : BinaryOption}
    {rest : List BinaryOption} (hrec : y.recovering = some (bo :: rest))
    (hclear : (bo.recoveryTarget now r).isSome → y.Clear bo.id) :
    SystemInv { y with
      service := ⟨(recoverOrder y.service.manager r now bo).1, y.service.consumer⟩
      queued :=
        ((recoverOrder y.service.manager r now bo).2.map QueueEntry.recovered).toList ++ y.queued
      recovering := some rest } := by
  have hread : ∀ bo' ∈ bo :: rest, bo'.id ∈ y.db.orders.rows.map BinaryOption.id := fun bo' hbo' =>
    h.read bo' (by rw [hrec]; exact hbo')
  have hrest := fun bo' hbo' => hread bo' (List.mem_cons_of_mem bo hbo')
  cases hp : bo.queuedPayload r now with
  | none =>
    -- the row is passed over
    refine h.of_rest restOfManager_recoverOrder rfl (fun _ => id) hrest fun v => .inl ?_
    unfold System.waiting
    rw [recoverOrder_payload, hp]
    exact le_rfl
  | some p =>
    have htarget : (bo.recoveryTarget now r).isSome := by
      unfold BinaryOption.queuedPayload at hp
      exact Option.isSome_of_mem (Option.map_eq_some_iff.mp hp).choose_spec.1
    have hclear := hclear htarget
    refine h.of_rest restOfManager_recoverOrder rfl (fun _ => id) hrest
      (waiting_add (fun v => ?_) hclear.1 (hread bo List.mem_cons_self) fun _ _ _ =>
        hclear.not_standsFor)
    have hcount : (([p].map RecoveryPayload.boId).count v) ≤ if v = bo.id then 1 else 0 :=
      count_toList_map (x := some p) fun m hm => by
        obtain rfl := Option.some.inj hm
        exact queuedPayload_boId hp
    unfold System.waiting
    rw [recoverOrder_payload, hp]
    change _ + ((QueueEntry.recovered p :: y.queued).map QueueEntry.boId).count v ≤ _
    simp only [List.map_cons, List.map_nil, List.count_cons, List.count_nil,
      QueueEntry.boId] at hcount ⊢
    omega

theorem systemInv_step (h : SystemInv y) (hguard : y.RecoversClear a) (hstep : y.step a = some y') :
    SystemInv y' := by
  cases a with
  | create now apiKey p first second queueUp id =>
    unfold System.step at hstep
    dsimp only at hstep
    split_ifs at hstep with hfresh
    cases hc : createBo now y.db apiKey p first second queueUp ⟨id, hfresh⟩ with
    | error e => rw [hc] at hstep; cases hstep
    | ok c =>
      rw [hc] at hstep
      cases hstep
      exact h.create hfresh hc
  | push i =>
    obtain ⟨m, hm, rfl⟩ := Option.map_eq_some_iff.mp hstep
    exact h.of_rest (restOfManager_refl _) rfl (fun _ => id) h.read fun v =>
      .inl (waiting_push hm).le
  | abandon i =>
    cases hstep
    exact h.of_rest (restOfManager_refl _) rfl (fun _ => id) h.read fun v =>
      .inl (waiting_abandon y i v)
  | rewrite db =>
    unfold System.step at hstep
    dsimp only at hstep
    split_ifs at hstep with hids
    cases hstep
    exact h.of_rest (restOfManager_refl _) rfl (fun v hv => hids ▸ hv)
      (fun bo hbo => hids ▸ h.read bo hbo)
      fun v => .inl le_rfl
  | take now sid id =>
    unfold System.step at hstep
    dsimp only at hstep
    split_ifs at hstep with hid
    obtain ⟨x, hx, rfl⟩ := Option.map_eq_some_iff.mp hstep
    exact h.take hid hx
  | lose sid =>
    obtain ⟨x, hx, rfl⟩ := Option.map_eq_some_iff.mp hstep
    refine h.of_rest (restOfManager_refl _) rfl (fun _ => id) h.read fun v => .inl ?_
    rw [waiting_pop hx]
    exact Nat.add_le_add_left (Nat.le_add_right _ _) _
  | work now sid dir a =>
    unfold System.step at hstep
    dsimp only at hstep
    split_ifs at hstep with hbrings
    obtain ⟨session, hs, hstep⟩ := Option.bind_eq_some_iff.mp hstep
    obtain ⟨b, hb, rfl⟩ := Option.map_eq_some_iff.mp hstep
    have hsid : session.sessionId = sid := Table.key_of_get hs
    rw [← hsid] at hs
    have hat : y.service.manager.bookAt session.sessionId dir = some b := bookAt_of_books hs hb
    have hrest := restOfBook_apply (t := now) (h.nodup _ _ b hat) (by simpa using hbrings)
    exact h.of_rest (restOfManager_setBook hs hb hrest) rfl (fun _ => id) h.read
      fun v => .inl le_rfl
  | createSession sid tokens state =>
    cases hstep
    exact h.of_rest restOfManager_createSession rfl (fun _ => id) h.read fun v => .inl le_rfl
  | transition sid state =>
    cases hstep
    exact h.of_rest restOfManager_transition rfl (fun _ => id) h.read fun v => .inl le_rfl
  | report c =>
    cases hstep
    exact h.of_rest (restOfManager_refl _) rfl (fun _ => id) h.read fun v => .inl le_rfl
  | restart =>
    cases hstep
    exact h.of_rest (fun _ _ _ hb => nomatch hb) rfl (fun _ => id) (fun _ hbo => nomatch hbo)
      fun v => .inl le_rfl
  | readRows =>
    unfold System.step at hstep
    dsimp only at hstep
    split_ifs at hstep
    cases hstep
    exact h.of_rest (restOfManager_refl _) rfl (fun _ => id) (fun bo hbo => List.mem_map_of_mem hbo)
      fun v => .inl le_rfl
  | recoverNext r now =>
    unfold System.step at hstep
    dsimp only at hstep
    split at hstep
    · next bo rest hrec =>
      cases hstep
      refine h.recover hrec fun htarget => ?_
      unfold System.RecoversClear at hguard
      dsimp only at hguard
      rw [hrec] at hguard
      exact hguard htarget
    · cases hstep

/-- **One live order per row.**  In every run of the API and the service in which recovery queues no
row that a payload waits for or a live order stands for, any two live orders of a row are the
same. -/
theorem one_live_order {db : Database} (hrun : Run System.step System.RecoversClear { db := db } y)
    (ho : y.StandsFor v sid dir o) (ho' : y.StandsFor v sid' dir' o') :
    sid = sid' ∧ dir = dir' ∧ o = o' := by
  have h : SystemInv y := Run.invariant SystemInv (systemInv_start db)
    (fun _ _ _ hinv hguard hstep => systemInv_step hinv hguard hstep) hrun
  obtain ⟨rfl, rfl, hid⟩ := h.unique v sid dir o sid' dir' o' ho ho'
  obtain ⟨b, hb, hmem, -, -⟩ := ho
  obtain ⟨b', hb', hmem', -, -⟩ := ho'
  obtain rfl : b = b' := Option.some.inj (hb.symm.trans hb')
  exact ⟨rfl, rfl, List.inj_on_of_nodup_map (h.nodup sid dir b hb) hmem hmem' hid⟩

/-! ## Samples -/

theorem exists_standsFor {id : OrderId} (h : (y.service.manager.bookAt sid dir).any fun b =>
      b.virtualOrders.any fun o => decide (o.orderId = id ∧ o.isLive = true ∧
        y.owner o.orderId = some v)) :
    ∃ o, o.orderId = id ∧ y.StandsFor v sid dir o := by
  obtain ⟨b, hb, horder⟩ := (Option.any_eq_true _ _).mp h
  obtain ⟨o, ho, hcheck⟩ := List.any_eq_true.mp horder
  obtain ⟨hid, hlive, hv⟩ := of_decide_eq_true hcheck
  exact ⟨o, hid, b, hb, ho, hlive, hv⟩

/-- The session of the candle from `900`. -/
def candleSid : SessionId := ⟨.btc, .m5, 900⟩

/-- The row is committed and its payload queued. -/
def createAndPush : List SystemAction :=
  [.create 1000 "k" limitRequest dearAsks dearAsks true 1, .push 0]

/-- The service restarts, and recovery looks at the row. -/
def restartAndRecover : List SystemAction := [.restart, .readRows, .recoverNext upRegistry 1010]

/-- An order that was lost with the service comes back, and no other one with it. -/
theorem one_live_order_recovered :
    ∃ y o, Run System.step System.RecoversClear { db := oneBotDb } y ∧
    y.StandsFor 1 candleSid .up o ∧ ∀ sid dir o', y.StandsFor 1 sid dir o' →
      candleSid = sid ∧ Direction.up = dir ∧ o = o' := by
  have hexec : (exec System.step System.RecoversClear { db := oneBotDb }
      (createAndPush ++ [.createSession candleSid (fun _ => some "up") .active,
        .take 1002 candleSid 7] ++
        restartAndRecover ++ [.take 1020 candleSid 8])).any fun y =>
      (y.service.manager.bookAt candleSid .up).any fun b => b.virtualOrders.any fun o =>
        decide (o.orderId = 8 ∧ o.isLive = true ∧ y.owner o.orderId = some 1) := by
    decide +kernel
  obtain ⟨y, hy, hstands⟩ := (Option.any_eq_true _ _).mp hexec
  obtain ⟨o, -, ho⟩ := exists_standsFor hstands
  exact ⟨y, o, run_of_exec hy, ho, fun sid dir o' ho' => one_live_order (run_of_exec hy) ho ho'⟩

/-- **The payload outlives the restart**: it still waits in the queue of its session when recovery
queues the PENDING row again, and the row gets two live orders. -/
theorem row_placed_twice : ∃ y o o', Run System.step (fun _ _ => True) { db := oneBotDb } y ∧
    y.StandsFor 1 candleSid .up o ∧ y.StandsFor 1 candleSid .up o' ∧ o ≠ o' := by
  have hexec : (exec System.step (fun _ _ => True) { db := oneBotDb }
      (createAndPush ++ restartAndRecover ++
        [.take 1020 candleSid 7, .take 1021 candleSid 8])).any fun y =>
      ((y.service.manager.bookAt candleSid .up).any fun b => b.virtualOrders.any fun o =>
        decide (o.orderId = 7 ∧ o.isLive = true ∧ y.owner o.orderId = some 1)) &&
      (y.service.manager.bookAt candleSid .up).any fun b => b.virtualOrders.any fun o =>
        decide (o.orderId = 8 ∧ o.isLive = true ∧ y.owner o.orderId = some 1) := by
    decide +kernel
  obtain ⟨y, hy, hstands⟩ := (Option.any_eq_true _ _).mp hexec
  obtain ⟨hfirst, hsecond⟩ := Bool.and_eq_true_iff.mp hstands
  obtain ⟨o, hid, ho⟩ := exists_standsFor hfirst
  obtain ⟨o', hid', ho'⟩ := exists_standsFor hsecond
  refine ⟨y, o, o', run_of_exec hy, ho, ho', fun h => ?_⟩
  rw [h, hid'] at hid
  exact absurd hid (by decide)

end

end PolyArena
