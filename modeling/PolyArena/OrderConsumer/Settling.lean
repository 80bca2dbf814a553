import PolyArena.Lib.Runs
import PolyArena.MatchingEngine.ExpiredBooks
import PolyArena.OrderConsumer.Session

/-!
# A session that settles while orders are placed

`SessionEngine.transition` and `SessionEngine.place_virtual_order` on several threads.  A transition
holds the session's lock and works on one book after the other; a placement takes no lock until it
has made its checks, and then the lock of the book alone.  Each step of either is atomic, and
between two steps of one call the other threads may take any number of theirs.

1. `SessionThreads.step` is the machine; `place_alone` says that a placement that is not interrupted
   does what `bookForOrder` and `placeVirtualOrder` say.
2. `settling_closes_door`: once a transition to SETTLING has returned, no book of the session has an
   open order, in every run in which no placement enters its order into an expired book.
3. `door_left_open`: a placement that has made its checks before the transition begins leaves a
   PENDING order in an expired book.
-/

namespace PolyArena

open ShadowOrderbook

/-- Where a call of `place_virtual_order` is. -/
inductive CallStage
  /-- next: look at the state of the session -/
  | called
  /-- next: look up the direction of the token -/
  | stateChecked
  /-- next: look up the book of the direction -/
  | routed (dir : Direction)
  /-- next: look at the mark of the book -/
  | found (dir : Direction)
  /-- next: `book.place_virtual_order` -/
  | checked (dir : Direction)
  deriving DecidableEq, Repr

/-- A call of `place_virtual_order` in progress. -/
structure PlaceCall where
  token : String
  request : OrderRequest
  stage : CallStage := .called
  deriving DecidableEq, Repr

/-- A transition in progress. -/
inductive Transition
  /-- these books are still to be expired -/
  | expiring (todo : List Direction)
  /-- next: `books.clear()` -/
  | clearBooks
  /-- next: `_token_to_dir.clear()` -/
  | clearRoutes
  deriving DecidableEq, Repr

/-- A session, its transition in progress and the calls in progress, by thread.  The books are kept
when the session lets go of them: a call may still hold one.  `settled` says that a transition to
SETTLING has returned; no step reads it. -/
structure SessionThreads where
  engine : SessionEngine
  booksCleared : Bool := false
  routesCleared : Bool := false
  transition : Option Transition := none
  calls : ℕ → Option PlaceCall := fun _ => none
  settled : Bool := false

/-- What can happen next. -/
inductive SessionAction
  /-- a thread calls `place_virtual_order` -/
  | call (thread : ℕ) (token : String) (r : OrderRequest)
  /-- the next step of the thread's call; an order that is entered gets the id -/
  | proceed (thread : ℕ) (now : Time) (id : OrderId)
  /-- `transition` is called and takes the lock -/
  | start (target : SessionState)
  /-- the next step of the transition; one that expires books takes this one -/
  | advance (dir : Direction)
  /-- another operation on a book -/
  | work (dir : Direction) (now : Time) (a : BookAction)

namespace SessionThreads

def setCall (s : SessionThreads) (thread : ℕ) (c : Option PlaceCall) : SessionThreads :=
  { s with calls := Function.update s.calls thread c }

/-- Work on a book of the session. -/
def setBook (s : SessionThreads) (dir : Direction) (b : ShadowOrderbook) : SessionThreads :=
  { s with engine := s.engine.setBook dir b }

/-- The next step of a call.  A check that fails ends it. -/
def proceed (s : SessionThreads) (thread : ℕ) (c : PlaceCall) (now : Time) (id : OrderId) :
    Option SessionThreads :=
  match c.stage with
  | .called =>
    if s.engine.state = .settling ∨ s.engine.state = .archived then some (s.setCall thread none)
    else some (s.setCall thread (some { c with stage := .stateChecked }))
  | .stateChecked =>
    match if s.routesCleared then none else s.engine.tokenToDir c.token with
    | none => some (s.setCall thread none)
    | some dir => some (s.setCall thread (some { c with stage := .routed dir }))
  | .routed dir =>
    match if s.booksCleared then none else s.engine.books dir with
    | none => some (s.setCall thread none)
    | some _ => some (s.setCall thread (some { c with stage := .found dir }))
  | .found dir =>
    match s.engine.books dir with
    | none => none
    | some b =>
      if b.expired then some (s.setCall thread none)
      else some (s.setCall thread (some { c with stage := .checked dir }))
  | .checked dir =>
    match s.engine.books dir with
    | none => none
    | some b =>
      if .placed id ∉ b.history ∧ 0 < c.request.quantity then
        some ((s.setBook dir (b.placeVirtualOrder now id c.request).book).setCall thread none)
      else none

/-- The directions whose books the session lists. -/
def listed (s : SessionThreads) : List Direction :=
  if s.booksCleared then [] else [.up, .down].filter fun dir => (s.engine.books dir).isSome

/-- `transition` takes the lock and sets the state. -/
def start (s : SessionThreads) (target : SessionState) : SessionThreads :=
  -- an ARCHIVED session stays as it is
  if s.engine.state = .archived then s
  else
    { s with
      engine := { s.engine with state := target }
      transition :=
        match target with
        | .settling => some (.expiring s.listed)
        | .archived => some .clearBooks
        | _ => none }

/-- The next step of a transition. -/
def advance (s : SessionThreads) (dir : Direction) : Transition → Option SessionThreads
  | .expiring [] => some { s with transition := none, settled := true }
  | .expiring todo =>
    if dir ∈ todo then
      (s.engine.books dir).map fun b =>
        { s.setBook dir b.expireBook.1 with transition := some (.expiring (todo.erase dir)) }
    else none
  | .clearBooks => some { s with booksCleared := true, transition := some .clearRoutes }
  | .clearRoutes => some { s with routesCleared := true, transition := none }

/-- One step of a thread. -/
def step (s : SessionThreads) : SessionAction → Option SessionThreads
  | .call thread token r =>
    if s.calls thread = none then some (s.setCall thread (some { token := token, request := r }))
    else none
  | .proceed thread now id => (s.calls thread).bind fun c => s.proceed thread c now id
  | .start target => if s.transition = none then some (s.start target) else none
  | .advance dir => s.transition.bind (s.advance dir)
  | .work dir now a =>
    (s.engine.books dir).bind fun b =>
      if a.Allowed b ∧ a.isPlace = false then some (s.setBook dir (a.apply now b)) else none

/-- A session with its new books. -/
def new (sessionId : SessionId) (state : SessionState) (tokens : Direction → Option String) :
    SessionThreads where
  engine :=
    { sessionId := sessionId
      state := state
      tokens := tokens
      books := fun dir => (tokens dir).map fun token => { tokenId := token }
      booked := SessionEngine.booked_create tokens }

end SessionThreads

/-- No order is entered into an expired book. -/
def EntersLive (s : SessionThreads) : SessionAction → Prop
  | .proceed thread _ _ =>
    (s.calls thread).all fun c =>
      match c.stage with
      | .checked dir => (s.engine.books dir).all fun b => !b.expired
      | _ => true
  | _ => True

instance (s : SessionThreads) (a : SessionAction) : Decidable (EntersLive s a) := by
  unfold EntersLive
  cases a <;> infer_instance

/-! ## The invariant -/

/-- What holds of the session's books and its transition at any time. -/
structure DoorInv (s : SessionThreads) : Prop where
  core : ∀ dir b, s.engine.books dir = some b → CoreInv b.core
  terminal : ∀ dir b, s.engine.books dir = some b → b.expired = true → AllTerminal b
  archived : s.booksCleared = true → s.engine.state = .archived
  clearing : s.transition = some .clearBooks → s.engine.state = .archived
  expiring : ∀ todo, s.transition = some (.expiring todo) →
    ∀ dir b, s.engine.books dir = some b → dir ∉ todo → b.expired = true
  settled : s.settled = true → ∀ dir b, s.engine.books dir = some b → b.expired = true

section

variable {s s' : SessionThreads} {a : SessionAction} {thread : ℕ} {c : PlaceCall} {dir : Direction}
  {b b' : ShadowOrderbook} {now : Time} {id : OrderId}

/-- What a call does is seen in its own stage only, except when it enters the order. -/
theorem DoorInv.setCall (h : DoorInv s) (thread : ℕ) (c : Option PlaceCall) :
    DoorInv (s.setCall thread c) :=
  ⟨h.core, h.terminal, h.archived, h.clearing, h.expiring, h.settled⟩

theorem setBook_books {d : Direction} (h : (s.setBook dir b').engine.books d = some b) :
    d = dir ∧ b = b' ∧ (s.engine.books dir).isSome ∨ d ≠ dir ∧ s.engine.books d = some b := by
  replace h :
      (if d = dir then (s.engine.books d).map fun _ => b' else s.engine.books d) = some b := h
  by_cases hd : d = dir
  · subst hd
    rw [if_pos rfl] at h
    obtain ⟨b₀, hb₀, rfl⟩ := Option.map_eq_some_iff.mp h
    exact .inl ⟨rfl, rfl, by rw [hb₀]; rfl⟩
  · rw [if_neg hd] at h
    exact .inr ⟨hd, h⟩

/-- Work on one book that leaves it well formed, expired if it was, and without open orders if it
is. -/
theorem DoorInv.setBook (h : DoorInv s) (hb : s.engine.books dir = some b) (hcore : CoreInv b'.core)
    (hstays : b.expired = true → b'.expired = true) (hterm : b'.expired = true → AllTerminal b') :
    DoorInv (s.setBook dir b') := by
  refine ⟨fun d x hx => ?_, fun d x hx hexp => ?_, h.archived, h.clearing,
    fun todo ht d x hx hd => ?_, fun hs d x hx => ?_⟩
  · rcases setBook_books hx with ⟨rfl, rfl, -⟩ | ⟨-, hx⟩
    · exact hcore
    · exact h.core d x hx
  · rcases setBook_books hx with ⟨rfl, rfl, -⟩ | ⟨-, hx⟩
    · exact hterm hexp
    · exact h.terminal d x hx hexp
  · rcases setBook_books hx with ⟨rfl, rfl, -⟩ | ⟨-, hx⟩
    · exact hstays (h.expiring todo ht d b hb hd)
    · exact h.expiring todo ht d x hx hd
  · rcases setBook_books hx with ⟨rfl, rfl, -⟩ | ⟨-, hx⟩
    · exact hstays (h.settled hs d b hb)
    · exact h.settled hs d x hx

/-! ## One step -/

/-- Work on a book that is not a placement. -/
theorem doorInv_work {a : BookAction} (now : Time) (h : DoorInv s)
    (hb : s.engine.books dir = some b) (hallowed : a.Allowed b) (hplace : a.isPlace = false) :
    DoorInv (s.setBook dir (a.apply now b)) := by
  have hstep : BookStep b (a.apply now b) :=
    bookStep_sound (x := (now, a)) (bookStep_of_allowed hallowed)
  have hcore := h.core dir b hb
  have hcore' : CoreInv (a.apply now b).core := effects_inv hcore (effects_of_step hcore hstep)
  by_cases ha : a = .feed .expireBook
  · subst ha
    exact h.setBook hb hcore' (fun _ => rfl) fun _ => expireBook_terminal b
  · have hmark : (a.apply now b).expired = b.expired := apply_expired ha
    refine h.setBook hb hcore' (fun hexp => hmark.trans hexp) fun hexp => ?_
    exact apply_terminal hcore hallowed hplace (h.terminal dir b hb (hmark.symm.trans hexp))

/-- A placement enters its order into a book that is not expired. -/
theorem doorInv_enter {r : OrderRequest} (h : DoorInv s) (hb : s.engine.books dir = some b)
    (hlive : b.expired = false) (hallowed : .placed id ∉ b.history ∧ 0 < r.quantity) :
    DoorInv (s.setBook dir (b.placeVirtualOrder now id r).book) := by
  have hcore := h.core dir b hb
  have hcore' : CoreInv (b.placeVirtualOrder now id r).book.core :=
    effects_inv hcore (effects_placeVirtualOrder hcore hallowed.1 hallowed.2)
  have hmark : (b.placeVirtualOrder now id r).book.expired = b.expired :=
    apply_expired (a := .place id r) nofun
  refine h.setBook hb hcore' (fun hexp => hmark.trans hexp) fun hexp => ?_
  rw [hmark, hlive] at hexp
  cases hexp

/-- A check of a call changes the call alone. -/
theorem proceed_check (hstage : ∀ dir, c.stage ≠ .checked dir)
    (hstep : s.proceed thread c now id = some s') : ∃ c', s' = s.setCall thread c' := by
  unfold SessionThreads.proceed at hstep
  cases hc : c.stage with
  | called =>
    simp only [hc] at hstep
    split at hstep <;> exact ⟨_, (Option.some.inj hstep).symm⟩
  | stateChecked =>
    simp only [hc] at hstep
    split at hstep <;> exact ⟨_, (Option.some.inj hstep).symm⟩
  | routed dir =>
    simp only [hc] at hstep
    split at hstep <;> exact ⟨_, (Option.some.inj hstep).symm⟩
  | found dir =>
    simp only [hc] at hstep
    split at hstep
    · cases hstep
    · split at hstep <;> exact ⟨_, (Option.some.inj hstep).symm⟩
  | checked dir => exact absurd hc (hstage dir)

theorem doorInv_proceed (h : DoorInv s) (hc : s.calls thread = some c)
    (hguard : EntersLive s (.proceed thread now id)) (hstep : s.proceed thread c now id = some s') :
    DoorInv s' := by
  by_cases hstage : ∀ dir, c.stage ≠ .checked dir
  · obtain ⟨c', rfl⟩ := proceed_check hstage hstep
    exact h.setCall _ _
  · obtain ⟨dir, hstage⟩ := not_forall_not.mp hstage
    unfold SessionThreads.proceed at hstep
    rw [hstage] at hstep
    dsimp only at hstep
    cases hb : s.engine.books dir with
    | none =>
      rw [hb] at hstep
      cases hstep
    | some b =>
      rw [hb] at hstep
      dsimp only at hstep
      split_ifs at hstep with hallowed
      cases hstep
      have hlive : b.expired = false := by
        simpa [EntersLive, hc, hstage, hb] using hguard
      exact (doorInv_enter h hb hlive hallowed).setCall _ _

theorem mem_listed (hopen : s.booksCleared = false) (hb : s.engine.books dir = some b) :
    dir ∈ s.listed := by
  unfold SessionThreads.listed
  rw [hopen, if_neg (by simp), List.mem_filter]
  refine ⟨?_, by rw [hb]; rfl⟩
  cases dir <;> simp

theorem doorInv_start {target : SessionState} (h : DoorInv s) : DoorInv (s.start target) := by
  unfold SessionThreads.start
  split
  · exact h
  · next hstate =>
    have hopen : s.booksCleared = false := by
      rw [← Bool.not_eq_true]
      exact fun hcleared => hstate (h.archived hcleared)
    refine ⟨h.core, h.terminal, fun hcleared => ?_, fun ht => ?_, fun todo ht dir b hb hdir => ?_,
      h.settled⟩
    · rw [show s.booksCleared = true from hcleared] at hopen
      cases hopen
    · cases target <;> first | rfl | cases ht
    · cases target with
      | settling =>
        cases ht
        exact absurd (mem_listed hopen hb) hdir
      | _ => cases ht

theorem doorInv_advance {t : Transition} (h : DoorInv s) (ht : s.transition = some t)
    (hstep : s.advance dir t = some s') : DoorInv s' := by
  cases t with
  | expiring todo =>
    cases todo with
    | nil =>
      cases hstep
      refine ⟨h.core, h.terminal, h.archived, nofun, nofun, fun _ d b hb => ?_⟩
      exact h.expiring [] ht d b hb List.not_mem_nil
    | cons d todo =>
      unfold SessionThreads.advance at hstep
      dsimp only at hstep
      split_ifs at hstep with hdir
      obtain ⟨b, hb, rfl⟩ := Option.map_eq_some_iff.mp hstep
      have hbook : DoorInv (s.setBook dir b.expireBook.1) :=
        doorInv_work (a := .feed .expireBook) 0 h hb trivial rfl
      refine ⟨hbook.core, hbook.terminal, h.archived, nofun, fun todo' ht' x b' hb' hx => ?_,
        hbook.settled⟩
      cases ht'
      rcases setBook_books hb' with ⟨rfl, rfl, -⟩ | ⟨hne, hb'⟩
      · rfl
      · exact h.expiring _ ht x b' hb' fun hmem => hx ((List.mem_erase_of_ne hne).mpr hmem)
  | clearBooks =>
    cases hstep
    exact ⟨h.core, h.terminal, fun _ => h.clearing ht, nofun, nofun, h.settled⟩
  | clearRoutes =>
    cases hstep
    exact ⟨h.core, h.terminal, h.archived, nofun, nofun, h.settled⟩

/-- **One step** of a thread keeps the invariant. -/
theorem doorInv_step (h : DoorInv s) (hguard : EntersLive s a) (hstep : s.step a = some s') :
    DoorInv s' := by
  cases a with
  | call thread token r =>
    unfold SessionThreads.step at hstep
    dsimp only at hstep
    split_ifs at hstep
    cases hstep
    exact h.setCall _ _
  | proceed thread now id =>
    obtain ⟨c, hc, hstep⟩ := Option.bind_eq_some_iff.mp hstep
    exact doorInv_proceed h hc hguard hstep
  | start target =>
    unfold SessionThreads.step at hstep
    dsimp only at hstep
    split_ifs at hstep with hidle
    cases hstep
    exact doorInv_start h
  | advance dir =>
    obtain ⟨t, ht, hstep⟩ := Option.bind_eq_some_iff.mp hstep
    exact doorInv_advance h ht hstep
  | work dir now a =>
    obtain ⟨b, hb, hstep⟩ := Option.bind_eq_some_iff.mp hstep
    split_ifs at hstep with hallowed
    cases hstep
    exact doorInv_work _ h hb hallowed.1 hallowed.2

theorem doorInv_new (sessionId : SessionId) (state : SessionState)
    (tokens : Direction → Option String) : DoorInv (.new sessionId state tokens) := by
  have hbook : ∀ dir b, (SessionThreads.new sessionId state tokens).engine.books dir = some b →
      ∃ token, b = { tokenId := token } := by
    intro dir b hb
    obtain ⟨token, -, rfl⟩ := Option.map_eq_some_iff.mp hb
    exact ⟨token, rfl⟩
  refine ⟨fun dir b hb => ?_, fun dir b hb hexp => ?_, nofun, nofun, nofun, nofun⟩
  · obtain ⟨token, rfl⟩ := hbook dir b hb
    exact emptyCore_inv
  · obtain ⟨token, rfl⟩ := hbook dir b hb
    cases hexp

/-- **SETTLING closes the door.**  Once a transition to SETTLING has returned, no book of the
session has a PENDING or PARTIAL order, in every run in which no placement enters its order into an
expired book. -/
theorem settling_closes_door {sessionId : SessionId} {state : SessionState}
    {tokens : Direction → Option String}
    (hrun : Run SessionThreads.step EntersLive (.new sessionId state tokens) s)
    (hsettled : s.settled = true) (hb : s.engine.books dir = some b) : AllTerminal b := by
  have h : DoorInv s := hrun.invariant DoorInv (doorInv_new sessionId state tokens)
    fun _ _ _ h hguard hstep => doorInv_step h hguard hstep
  exact h.terminal dir b hb (h.settled hsettled dir b hb)

end

/-! ## A placement on its own -/

section

variable {s : SessionThreads} {thread : ℕ} {token : String} {r : OrderRequest} {dir : Direction}
  {b : ShadowOrderbook} {now : Time} {id : OrderId}

theorem setCall_setCall (c c' : Option PlaceCall) :
    (s.setCall thread c).setCall thread c' = s.setCall thread c' := by
  unfold SessionThreads.setCall
  simp

theorem setCall_none (h : s.calls thread = none) : s.setCall thread none = s := by
  unfold SessionThreads.setCall
  rw [← h, Function.update_eq_self]

/-- The next step of a call reads the session, and replaces the call. -/
theorem setCall_proceed (x : Option PlaceCall) (c : PlaceCall) :
    (s.setCall thread x).proceed thread c now id = s.proceed thread c now id := by
  have hset : ∀ c', (s.setCall thread x).setCall thread c' = s.setCall thread c' :=
    setCall_setCall x
  have hbook : ∀ dir b, ((s.setCall thread x).setBook dir b).setCall thread none =
      (s.setBook dir b).setCall thread none := by
    intro dir b
    unfold SessionThreads.setBook SessionThreads.setCall
    simp
  unfold SessionThreads.proceed
  simp only [hset, hbook]
  rfl

theorem step_proceed (c : PlaceCall) : (s.setCall thread (some c)).step (.proceed thread now id) =
    s.proceed thread c now id := by
  have hcall : (s.setCall thread (some c)).calls thread = some c := Function.update_self ..
  unfold SessionThreads.step
  dsimp only
  rw [hcall, Option.bind_some, setCall_proceed]

/-- **A placement that is not interrupted** enters its order into the book that `bookForOrder`
finds. -/
theorem place_alone (hidle : s.calls thread = none) (hbooks : s.booksCleared = false)
    (hroutes : s.routesCleared = false) (hb : s.engine.bookForOrder token = some (dir, b))
    (hallowed : .placed id ∉ b.history ∧ 0 < r.quantity) :
    exec SessionThreads.step (fun _ _ => True) s
      (.call thread token r :: List.replicate 5 (.proceed thread now id)) =
      some (s.setBook dir (b.placeVirtualOrder now id r).book) := by
  unfold SessionEngine.bookForOrder at hb
  split_ifs at hb with hstate
  obtain ⟨hget, hlive⟩ := Option.filter_eq_some_iff.mp hb
  obtain ⟨_, hdir, hget⟩ := Option.bind_eq_some_iff.mp hget
  obtain ⟨_, hbook, he⟩ := Option.map_eq_some_iff.mp hget
  cases he
  replace hlive : b.expired = false := by simpa using hlive
  have hcall : s.step (.call thread token r) =
      some (s.setCall thread (some ⟨token, r, .called⟩)) := if_pos hidle
  have hstateChecked : s.proceed thread ⟨token, r, .called⟩ now id =
      some (s.setCall thread (some ⟨token, r, .stateChecked⟩)) := if_neg hstate
  have hrouted : s.proceed thread ⟨token, r, .stateChecked⟩ now id =
      some (s.setCall thread (some ⟨token, r, .routed dir⟩)) := by
    unfold SessionThreads.proceed
    dsimp only
    rw [hroutes, hdir]
    rfl
  have hfound : s.proceed thread ⟨token, r, .routed dir⟩ now id =
      some (s.setCall thread (some ⟨token, r, .found dir⟩)) := by
    unfold SessionThreads.proceed
    dsimp only
    rw [hbooks, hbook]
    rfl
  have hchecked : s.proceed thread ⟨token, r, .found dir⟩ now id =
      some (s.setCall thread (some ⟨token, r, .checked dir⟩)) := by
    unfold SessionThreads.proceed
    dsimp only
    rw [hbook]
    dsimp only
    rw [hlive]
    rfl
  have hentered : s.proceed thread ⟨token, r, .checked dir⟩ now id =
      some (s.setBook dir (b.placeVirtualOrder now id r).book) := by
    unfold SessionThreads.proceed
    dsimp only
    rw [hbook]
    dsimp only
    rw [if_pos hallowed]
    exact congrArg some (setCall_none hidle)
  rw [exec_cons trivial hcall]
  iterate 5 rw [List.replicate_succ]
  rw [exec_cons trivial ((step_proceed _).trans hstateChecked),
    exec_cons trivial ((step_proceed _).trans hrouted),
    exec_cons trivial ((step_proceed _).trans hfound),
    exec_cons trivial ((step_proceed _).trans hchecked),
    exec_cons trivial ((step_proceed _).trans hentered)]
  rfl

end

/-! ## A door left open -/

/-- A LIMIT BUY for the candle that closes at 1200. -/
def doorOrder : OrderRequest where
  side := .buy
  price := 2 / 5
  quantity := 10
  timeframe := some .m5

def doorSession : SessionThreads :=
  .new ⟨.btc, .m5, 900⟩ .active fun dir => if dir = .up then some "up" else none

/-- The call makes its checks. -/
def doorChecks : List SessionAction :=
  .call 0 "up" doorOrder :: List.replicate 4 (.proceed 0 1200 7)

/-- The transition to SETTLING, from its call to its return. -/
def doorCloses : List SessionAction := [.start .settling, .advance .up, .advance .up]

/-- The order is entered before the transition begins, and cancelled by it. -/
theorem settling_closes_door_before :
    ((exec SessionThreads.step EntersLive doorSession
      (doorChecks ++ .proceed 0 1200 7 :: doorCloses)).any fun s => s.settled &&
        (s.engine.books .up).any fun b => b.virtualOrders.map (·.status) == [.canceled]) = true ∧
    ∀ s, exec SessionThreads.step EntersLive doorSession
        (doorChecks ++ .proceed 0 1200 7 :: doorCloses) = some s →
      s.settled = true → ∀ b, s.engine.books .up = some b → AllTerminal b :=
  ⟨by decide +kernel, fun _ hs hsettled _ hb => settling_closes_door (run_of_exec hs) hsettled hb⟩

/-- **A door left open**: the order is entered after the transition has returned, and rests. -/
theorem door_left_open : ¬ ∀ (sessionId : SessionId) (state : SessionState)
    (tokens : Direction → Option String) (s : SessionThreads) (dir : Direction)
    (b : ShadowOrderbook),
    Run SessionThreads.step (fun _ _ => True) (.new sessionId state tokens) s → s.settled = true →
      s.engine.books dir = some b → AllTerminal b := by
  intro hall
  have hopen : ((exec SessionThreads.step (fun _ _ => True) doorSession
      (doorChecks ++ doorCloses ++ [.proceed 0 1200 7])).any fun s => s.settled &&
        (s.engine.books .up).any fun b => b.virtualOrders.any fun o =>
          !o.status.isTerminal) = true := by
    decide +kernel
  obtain ⟨s, hs, hstate⟩ := (Option.any_eq_true _ _).mp hopen
  rw [Bool.and_eq_true] at hstate
  obtain ⟨b, hb, horders⟩ := (Option.any_eq_true _ _).mp hstate.2
  obtain ⟨o, ho, hstatus⟩ := List.any_eq_true.mp horders
  have hterm := hall _ _ _ s .up b (run_of_exec hs) hstate.1 hb o ho
  rw [hterm] at hstatus
  cases hstatus

end PolyArena
