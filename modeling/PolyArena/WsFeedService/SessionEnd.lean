import PolyArena.MatchingEngine.CancelReports
import PolyArena.OrderConsumer.Settling
import PolyArena.WsFeedService.BookFrames

/-!
# The end of a session

A session becomes ARCHIVED on three paths.  An ACTIVE one becomes SETTLING first, which expires its
books; `shutdown` cancels what is open in the books and collects the changes;
`cleanup_expired_sessions` archives a PREFETCH session as it is.  Archiving lets go of the books.

1. `ReportedSession`: the threads of a session, and what its books fired, each event with the number
   of callbacks that took it.  `step_bookWork` says what a step does to the books.
2. `endInv_step`: a book that was expired, shut down or let go has no order that is open or untold,
   when the steps are `EndsReported`.  `expired_of_settled` says that the archiving of a SETTLING
   session is.
3. `no_order_dropped`: the orders that were open before the end are filled, or their one CANCEL
   event was taken by every callback.  `prefetch_order_dropped` is an order of a PREFETCH session
   without one.
-/

namespace PolyArena

open ShadowOrderbook

namespace SessionThreads

/-- The operation on a book that a step is. -/
def bookWork (s : SessionThreads) : SessionAction → Option (Direction × Time × BookAction)
  | .proceed thread now id => (s.calls thread).bind fun c =>
    match c.stage with
    | .checked dir => some (dir, now, .place id c.request)
    | _ => none
  | .advance dir =>
    match s.transition with
    | some (.expiring (_ :: _)) => some (dir, 0, .feed .expireBook)
    | _ => none
  | .work dir now a => some (dir, now, a)
  | _ => none

/-- The step lets go of the books. -/
def clears (s : SessionThreads) : SessionAction → Bool
  | .advance _ => decide (s.transition = some .clearBooks)
  | _ => false

end SessionThreads

/-- A session, what each of its books fired, with the number of callbacks that took it, and whether
`shutdown` has cancelled the orders of a book.  No step reads the last. -/
structure ReportedSession where
  session : SessionThreads
  fired : Direction → List (ℕ × OrderStateChangeEvent) := fun _ => []
  shut : Direction → Bool := fun _ => false

namespace ReportedSession

/-- What a step fires on a book: `_fire_state_change_callbacks`. -/
def firing (x : ReportedSession) (a : SessionAction) (dir : Direction) :
    List (ℕ × OrderStateChangeEvent) :=
  match x.session.bookWork a, x.session.engine.books dir with
  | some (d, now, w), some b =>
    if dir = d then (w.events now b).map (b.stateChangeCallbacks, ·) else []
  | _, _ => []

/-- `shutdown` cancels the orders of the book. -/
def shutting (x : ReportedSession) (a : SessionAction) (dir : Direction) : Bool :=
  match x.session.bookWork a with
  | some (d, _, .feed .shutdownBook) => decide (dir = d)
  | _ => false

def step (x : ReportedSession) (a : SessionAction) : Option ReportedSession :=
  (x.session.step a).map fun session =>
    { session := session
      fired := fun dir => x.fired dir ++ x.firing a dir
      shut := fun dir => x.shut dir || x.shutting a dir }

/-- What a callback was given. -/
def takenBy (x : ReportedSession) (callback : ℕ) (dir : Direction) : List OrderStateChangeEvent :=
  ((x.fired dir).filter fun f => callback < f.1).map Prod.snd

/-- The events of a book. -/
def events (x : ReportedSession) (dir : Direction) : List OrderStateChangeEvent :=
  (x.fired dir).map Prod.snd

/-- A session with its new books. -/
def new (sessionId : SessionId) (state : SessionState) (tokens : Direction → Option String) :
    ReportedSession :=
  { session := .new sessionId state tokens }

end ReportedSession

/-- The books are let go when each was expired or shut down or has nothing open or untold, and no
order is placed in one that was expired, shut down or let go.  New orders have new ids, and the
consumer's seeds agree with what was reported. -/
structure EndsReported (x : ReportedSession) (a : SessionAction) : Prop where
  agrees : ∀ w ∈ x.session.bookWork a, ∀ b ∈ x.session.engine.books w.1, w.2.2.Agrees b
  places : ∀ w ∈ x.session.bookWork a, w.2.2.isPlace = true → ∀ b ∈ x.session.engine.books w.1,
    b.expired = false ∧ x.shut w.1 = false ∧ x.session.booksCleared = false
  clears : x.session.clears a = true → ∀ dir ∈ [Direction.up, .down],
    ∀ b ∈ x.session.engine.books dir,
    b.expired = true ∨ x.shut dir = true ∨ Quiet b

instance (x : ReportedSession) (a : SessionAction) : Decidable (EndsReported x a) :=
  decidable_of_iff
    ((∀ w ∈ x.session.bookWork a, ∀ b ∈ x.session.engine.books w.1, w.2.2.Agrees b) ∧
      (∀ w ∈ x.session.bookWork a, w.2.2.isPlace = true → ∀ b ∈ x.session.engine.books w.1,
        b.expired = false ∧ x.shut w.1 = false ∧ x.session.booksCleared = false) ∧
      (x.session.clears a = true → ∀ dir ∈ [Direction.up, .down], ∀ b ∈ x.session.engine.books dir,
        b.expired = true ∨ x.shut dir = true ∨ Quiet b))
    ⟨fun h => ⟨h.1, h.2.1, h.2.2⟩, fun h => ⟨h.agrees, h.places, h.clears⟩⟩

/-- What holds of the books at any time. -/
structure EndInv (x : ReportedSession) : Prop where
  told : ∀ dir b, x.session.engine.books dir = some b → CancelsTold b (x.events dir)
  quiet : ∀ dir b, x.session.engine.books dir = some b →
    b.expired = true ∨ x.shut dir = true ∨ x.session.booksCleared = true → Quiet b

section

variable {s s' : SessionThreads} {x x' : ReportedSession} {a : SessionAction} {dir : Direction}
  {b b' : ShadowOrderbook} {now : Time} {id : OrderId} {w : BookAction} {o : SimulatedOrder}

/-! ## What a step does to the books -/

theorem start_books {target : SessionState} : (s.start target).engine.books = s.engine.books ∧
    (s.start target).booksCleared = s.booksCleared := by
  unfold SessionThreads.start
  split <;> exact ⟨rfl, rfl⟩

/-- **A step** is one operation on one book, or leaves the books alone. -/
theorem step_bookWork (hstep : s.step a = some s') :
    match s.bookWork a with
    | some (dir, now, w) => ∃ b, s.engine.books dir = some b ∧ w.Allowed b ∧
        s'.engine.books = (s.setBook dir (w.apply now b)).engine.books ∧
          s'.booksCleared = s.booksCleared
    | none => s'.engine.books = s.engine.books ∧
        (s'.booksCleared = true → s.booksCleared = true ∨ s.clears a = true) := by
  cases a with
  | call thread token r =>
    simp only [SessionThreads.step] at hstep
    split_ifs at hstep
    cases hstep
    exact ⟨rfl, .inl⟩
  | proceed thread now id =>
    obtain ⟨c, hc, hstep⟩ := Option.bind_eq_some_iff.mp hstep
    unfold SessionThreads.bookWork
    simp only [hc, Option.bind_some]
    by_cases hstage : ∀ dir, c.stage ≠ .checked dir
    · obtain ⟨c', rfl⟩ := proceed_check hstage hstep
      cases hs : c.stage with
      | checked dir => exact absurd hs (hstage dir)
      | _ => exact ⟨rfl, .inl⟩
    · obtain ⟨dir, hstage⟩ := not_forall_not.mp hstage
      unfold SessionThreads.proceed at hstep
      simp only [hstage] at hstep ⊢
      split at hstep
      · cases hstep
      · next b hb =>
        split_ifs at hstep with hallowed
        cases hstep
        exact ⟨b, hb, hallowed, rfl, rfl⟩
  | start target =>
    simp only [SessionThreads.step] at hstep
    split_ifs at hstep
    cases hstep
    exact ⟨start_books.1, fun h => .inl (start_books.2 ▸ h)⟩
  | advance dir =>
    obtain ⟨t, ht, hstep⟩ := Option.bind_eq_some_iff.mp hstep
    unfold SessionThreads.bookWork SessionThreads.clears
    simp only [ht]
    cases t with
    | expiring todo =>
      cases todo with
      | nil =>
        cases hstep
        exact ⟨rfl, .inl⟩
      | cons d todo =>
        simp only [SessionThreads.advance] at hstep
        split_ifs at hstep
        obtain ⟨b, hb, rfl⟩ := Option.map_eq_some_iff.mp hstep
        exact ⟨b, hb, trivial, rfl, rfl⟩
    | clearBooks =>
      cases hstep
      exact ⟨rfl, fun _ => .inr (by simp)⟩
    | clearRoutes =>
      cases hstep
      exact ⟨rfl, .inl⟩
  | work dir now a =>
    obtain ⟨b, hb, hstep⟩ := Option.bind_eq_some_iff.mp hstep
    split_ifs at hstep with hallowed
    cases hstep
    exact ⟨b, hb, hallowed.1, rfl, rfl⟩

/-- An operation takes no callback away. -/
theorem callbacks_apply (w : BookAction) :
    b.stateChangeCallbacks ≤ (w.apply now b).stateChangeCallbacks := by
  cases hloop : w.ofLoop with
  | true => exact (callbacks_ofLoop hloop).ge
  | false =>
    cases w with
    | place id r =>
      have hsame : (b.placeVirtualOrder now id r).book.stateChangeCallbacks =
          b.stateChangeCallbacks :=
        placeVirtualOrder_callbacks
      exact hsame.ge
    | placePrefilled id r =>
      have hsame : (b.placePrefilledBracketOrder now id r).book.stateChangeCallbacks =
          b.stateChangeCallbacks := same_callbacks placePrefilled_bookkeeping
      exact hsame.ge
    | seedLastReported id filled status => exact le_rfl
    | registerStateChangeCallback => exact Nat.le_succ _
    | _ => cases hloop

theorem step_session (hstep : x.step a = some x') : x.session.step a = some x'.session ∧
    (∀ dir, x'.fired dir = x.fired dir ++ x.firing a dir) ∧ ∀ dir,
      x'.shut dir = (x.shut dir || x.shutting a dir) := by
  obtain ⟨session, hsession, rfl⟩ := Option.map_eq_some_iff.mp hstep
  exact ⟨hsession, fun _ => rfl, fun _ => rfl⟩

/-- **A book after a step** was worked on, or it is as it was and fired nothing. -/
theorem step_book (hstep : x.step a = some x') (hb' : x'.session.engine.books dir = some b') :
    (∃ now w b, x.session.bookWork a = some (dir, now, w) ∧ x.session.engine.books dir = some b ∧
      w.Allowed b ∧ b' = w.apply now b ∧
      x'.fired dir = x.fired dir ++ (w.events now b).map (b.stateChangeCallbacks, ·) ∧
      x'.session.booksCleared = x.session.booksCleared) ∨
    (x.session.engine.books dir = some b' ∧ x'.fired dir = x.fired dir ∧ x'.shut dir = x.shut dir ∧
      (x'.session.booksCleared = true → x.session.booksCleared = true ∨
        x.session.clears a = true)) := by
  obtain ⟨hsession, hfired, hshut⟩ := step_session hstep
  have hbooks := step_bookWork hsession
  cases hw : x.session.bookWork a with
  | none =>
    rw [hw] at hbooks
    obtain ⟨hsame, hcleared⟩ := hbooks
    refine .inr ⟨hsame ▸ hb', ?_, ?_, hcleared⟩
    · rw [hfired, ReportedSession.firing, hw, List.append_nil]
    · rw [hshut, ReportedSession.shutting, hw, Bool.or_false]
  | some work =>
    obtain ⟨d, now, w⟩ := work
    rw [hw] at hbooks
    obtain ⟨b, hb, hallowed, hset, hcleared⟩ := hbooks
    rw [hset] at hb'
    rcases setBook_books hb' with ⟨rfl, rfl, -⟩ | ⟨hne, hold⟩
    · refine .inl ⟨now, w, b, rfl, hb, hallowed, rfl, ?_, hcleared⟩
      rw [hfired, ReportedSession.firing, hw, hb]
      simp
    · refine .inr ⟨hold, ?_, ?_, fun h => .inl (hcleared ▸ h)⟩
      · rw [hfired, ReportedSession.firing, hw, hold]
        simp [hne]
      · rw [hshut, ReportedSession.shutting, hw]
        split
        · next heq => simp_all
        · exact Bool.or_false _

theorem books_stay (hstep : x.step a = some x') (hb : x.session.engine.books dir = some b) :
    ∃ b', x'.session.engine.books dir = some b' := by
  have hbooks := step_bookWork (step_session hstep).1
  cases hw : x.session.bookWork a with
  | none =>
    rw [hw] at hbooks
    exact ⟨b, hbooks.1 ▸ hb⟩
  | some work =>
    obtain ⟨d, now, w⟩ := work
    rw [hw] at hbooks
    obtain ⟨b₀, hb₀, -, hset, -⟩ := hbooks
    rw [hset, ← Option.isSome_iff_exists]
    change (if dir = d then (x.session.engine.books dir).map fun _ => w.apply now b₀
      else x.session.engine.books dir).isSome = true
    split <;> simp [hb]

/-! ## The invariant -/

theorem endInv_new (sessionId : SessionId) (state : SessionState)
    (tokens : Direction → Option String) :
    EndInv (.new sessionId state tokens) := by
  have hnew :
      ∀ dir b, (ReportedSession.new sessionId state tokens).session.engine.books dir = some b →
      ∃ token, b = { tokenId := token } := by
    intro dir b hb
    obtain ⟨token, -, rfl⟩ := Option.map_eq_some_iff.mp hb
    exact ⟨token, rfl⟩
  refine ⟨fun dir b hb => ?_, fun dir b hb _ => ?_⟩
  · obtain ⟨token, rfl⟩ := hnew dir b hb
    have hinv := bookInv_new token
    exact ⟨hinv.core, hinv.balance, hinv.retired, hinv.present, fun _ => Nat.zero_le 1,
      fun _ ho => absurd ho List.not_mem_nil, fun _ ho => absurd ho List.not_mem_nil,
        fun _ _ => rfl,
      fun _ ho => absurd ho List.not_mem_nil⟩
  · obtain ⟨token, rfl⟩ := hnew dir b hb
    exact fun _ ho => absurd ho List.not_mem_nil

theorem events_append {evs : List OrderStateChangeEvent} {n : ℕ}
    (hfired : x'.fired dir = x.fired dir ++ evs.map (n, ·)) :
    x'.events dir = x.events dir ++ evs := by
  unfold ReportedSession.events
  rw [hfired, List.map_append, List.map_map]
  simp [Function.comp_def]

/-- Work on a book leaves it quiet when it has to be. -/
theorem quiet_work (h : EndInv x) (hends : EndsReported x a)
    (hwork : x.session.bookWork a = some (dir, now, w)) (hb : x.session.engine.books dir = some b)
    (hallowed : w.Allowed b)
    (hmarked : (w.apply now b).expired = true ∨ (x.shut dir || x.shutting a dir) = true ∨
      x.session.booksCleared = true) : Quiet (w.apply now b) := by
  have htold := h.told dir b hb
  have hagrees : w.Agrees b := hends.agrees _ hwork b hb
  by_cases hexpire : w = .feed .expireBook
  · subst hexpire
    exact quiet_expireBook htold.core
  by_cases hshut : w = .feed .shutdownBook
  · subst hshut
    exact quiet_shutdownBook htold.core
  -- any other operation marks nothing
  have hexpired : (w.apply now b).expired = b.expired := apply_expired hexpire
  have hshutting : x.shutting a dir = false := by
    unfold ReportedSession.shutting
    rw [hwork]
    split
    · next heq =>
      cases heq
      exact absurd rfl hshut
    · rfl
  rw [hexpired, hshutting, Bool.or_false] at hmarked
  cases hplace : w.isPlace with
  | true =>
    obtain ⟨hlive, hopen, hkept⟩ := hends.places _ hwork hplace b hb
    rcases hmarked with hmarked | hmarked | hmarked
    · exact absurd (hlive.symm.trans hmarked) Bool.false_ne_true
    · exact absurd (hopen.symm.trans hmarked) Bool.false_ne_true
    · exact absurd (hkept.symm.trans hmarked) Bool.false_ne_true
  | false => exact quiet_apply htold hallowed hagrees hplace (h.quiet dir b hb hmarked)

theorem direction_mem (dir : Direction) : dir ∈ [Direction.up, .down] := by cases dir <;> simp

/-- **One step** tells each cancel once, and keeps the books quiet that are at their end. -/
theorem endInv_step (h : EndInv x) (hends : EndsReported x a) (hstep : x.step a = some x') :
    EndInv x' := by
  refine ⟨fun dir b' hb' => ?_, fun dir b' hb' hmarked => ?_⟩
  · rcases step_book hstep hb' with
      ⟨now, w, b, hwork, hb, hallowed, rfl, hfired, -⟩ | ⟨hold, hfired, -⟩
    · rw [events_append hfired]
      exact cancelsTold_apply (h.told dir b hb) hallowed (hends.agrees _ hwork b hb)
    · unfold ReportedSession.events
      rw [hfired]
      exact h.told dir b' hold
  · rcases step_book hstep hb' with ⟨now, w, b, hwork, hb, hallowed, rfl, -, hcleared⟩ |
      ⟨hold, -, hshut, hcleared⟩
    · rw [(step_session hstep).2.2, hcleared] at hmarked
      exact quiet_work h hends hwork hb hallowed hmarked
    · rw [hshut] at hmarked
      rcases hmarked with hmarked | hmarked | hmarked
      · exact h.quiet dir b' hold (.inl hmarked)
      · exact h.quiet dir b' hold (.inr (.inl hmarked))
      · rcases hcleared hmarked with hcleared | hclears
        · exact h.quiet dir b' hold (.inr (.inr hcleared))
        · rcases hends.clears hclears dir (direction_mem dir) b' hold with hexp | hshut | hquiet
          · exact h.quiet dir b' hold (.inl hexp)
          · exact h.quiet dir b' hold (.inr (.inl hshut))
          · exact hquiet

theorem endInv_run {sessionId : SessionId} {state : SessionState}
    {tokens : Direction → Option String}
    (hrun : Run ReportedSession.step EndsReported (.new sessionId state tokens) x) : EndInv x :=
  hrun.invariant EndInv (endInv_new sessionId state tokens) fun _ _ _ h hends hstep =>
    endInv_step h hends hstep

/-! ## The archiving of a SETTLING session -/

theorem entersLive_of_endsReported (hends : EndsReported x a) : EntersLive x.session a := by
  cases a with
  | proceed thread now id =>
    change (x.session.calls thread).all _ = true
    rw [Option.all_eq_true]
    intro c hc
    split
    · next dir hstage =>
      rw [Option.all_eq_true]
      intro b hb
      have hwork : x.session.bookWork (.proceed thread now id) =
          some (dir, now, .place id c.request) := by
        unfold SessionThreads.bookWork
        simp only [hc, Option.bind_some, hstage]
      have hlive := (hends.places _ hwork rfl b hb).1
      simpa using hlive
    · rfl
  | _ => trivial

/-- **SETTLING expires every book**, so that the books may be let go. -/
theorem expired_of_settled {sessionId : SessionId} {state : SessionState}
    {tokens : Direction → Option String}
    (hrun : Run ReportedSession.step EndsReported (.new sessionId state tokens) x)
    (hsettled : x.session.settled = true) (hb : x.session.engine.books dir = some b) :
    b.expired = true := by
  have h : DoorInv x.session := hrun.invariant (fun x => DoorInv x.session)
    (doorInv_new sessionId state tokens)
    fun _ _ _ h hends hstep => doorInv_step h (entersLive_of_endsReported hends)
      (step_session hstep).1
  exact h.settled hsettled dir b hb

/-! ## The orders that were open -/

theorem cancelCount_takenBy_le (x : ReportedSession) (callback : ℕ) :
    cancelCount id (x.takenBy callback dir) ≤ cancelCount id (x.events dir) := by
  have hsub : (x.takenBy callback dir).Sublist (x.events dir) := List.filter_sublist.map Prod.snd
  exact ((hsub.filter _).filter _).length_le

/-- What was fired since is what the callbacks took that were there before. -/
theorem takenBy_append {rest : List (ℕ × OrderStateChangeEvent)} {callback n : ℕ}
    (hfired : x'.fired dir = x.fired dir ++ rest) (hrest : ∀ f ∈ rest, n ≤ f.1)
    (hcallback : callback < n) :
    x'.takenBy callback dir = x.takenBy callback dir ++ rest.map Prod.snd := by
  have hall : rest.filter (fun f => callback < f.1) = rest :=
    List.filter_eq_self.mpr fun f hf => decide_eq_true (hcallback.trans_le (hrest f hf))
  unfold ReportedSession.takenBy
  rw [hfired, List.filter_append, hall, List.map_append]

/-- A book along a run keeps its orders, its events and its callbacks. -/
theorem book_run (h : EndInv x) (hb : x.session.engine.books dir = some b)
    (hplaced : .placed id ∈ b.history) (hrun : Run ReportedSession.step EndsReported x x') :
    EndInv x' ∧ ∃ b' rest,
      x'.session.engine.books dir = some b' ∧ .placed id ∈ b'.history ∧
      b.stateChangeCallbacks ≤ b'.stateChangeCallbacks ∧ x'.fired dir = x.fired dir ++ rest ∧
      ∀ f ∈ rest, b.stateChangeCallbacks ≤ f.1 := by
  induction hrun with
  | start => exact ⟨h, b, [], hb, hplaced, le_rfl, (List.append_nil _).symm,
      fun _ hf => absurd hf List.not_mem_nil⟩
  | @next y y' a _ hends hstep ih =>
    obtain ⟨hinv, c, rest, hc, hplaced', hcallbacks, hfired, hrest⟩ := ih
    refine ⟨endInv_step hinv hends hstep, ?_⟩
    obtain ⟨c', hc'⟩ := books_stay hstep hc
    rcases step_book hstep hc' with ⟨now, w, c₀, -, hc₀, hallowed, rfl, hnew, -⟩ | ⟨hold, hnew, -⟩
    · obtain rfl : c = c₀ := Option.some.inj (hc.symm.trans hc₀)
      have hbook : BookStep c (w.apply now c) :=
        bookStep_sound (x := (now, w)) (bookStep_of_allowed hallowed)
      refine ⟨_, rest ++ (w.events now c).map (c.stateChangeCallbacks, ·), hc', ?_, ?_, ?_,
        fun f hf => ?_⟩
      · exact effects_placed (effects_of_step (hinv.told dir c hc).core hbook) hplaced'
      · exact hcallbacks.trans (callbacks_apply w)
      · rw [hnew, hfired, List.append_assoc]
      · rcases List.mem_append.mp hf with hf | hf
        · exact hrest f hf
        · obtain ⟨e, -, rfl⟩ := List.mem_map.mp hf
          exact hcallbacks
    · obtain rfl : c = c' := Option.some.inj (hc.symm.trans hold)
      exact ⟨c, rest, hc', hplaced', hcallbacks, hnew.trans hfired, hrest⟩

/-- An order that is open has no CANCEL event. -/
theorem CancelsTold.open_untold {evs : List OrderStateChangeEvent} (h : CancelsTold b evs)
    (ho : o ∈ b.virtualOrders) (hopen : o.status.isTerminal = false) :
    cancelCount o.orderId evs = 0 := by
  have htold : b.toldCanceled o.orderId = false := by
    rw [← Bool.not_eq_true]
    intro htold
    rw [h.canceled o ho htold] at hopen
    cases hopen
  rw [h.live o ho, htold]
  rfl

/-- **No order is dropped silently.**  When the session has let go of its books, an order that was
open before is filled, or it is cancelled with exactly one CANCEL event, which every callback took
once that was registered while it was open. -/
theorem no_order_dropped {sessionId : SessionId} {state : SessionState}
    {tokens : Direction → Option String}
    (hrun : Run ReportedSession.step EndsReported (.new sessionId state tokens) x)
    (hb : x.session.engine.books dir = some b) (ho : o ∈ b.virtualOrders)
    (hopen : o.status.isTerminal = false) (hrun' : Run ReportedSession.step EndsReported x x')
    (hdropped : x'.session.booksCleared = true) :
    ∃ b' o', x'.session.engine.books dir = some b' ∧ b'.orderObject o.orderId = some o' ∧
      (o'.status = .filled ∨ o'.status = .canceled ∧ cancelCount o.orderId (x'.events dir) = 1 ∧
        ∀ callback < b.stateChangeCallbacks, cancelCount o.orderId
          (x'.takenBy callback dir) = 1) := by
  have hinv := endInv_run hrun
  have huntold := (hinv.told dir b hb).open_untold ho hopen
  obtain ⟨hinv', b', rest, hb', hplaced, -, hfired, hrest⟩ :=
    book_run hinv hb ((hinv.told dir b hb).core.placed o ho) hrun'
  have htold := hinv'.told dir b' hb'
  have hquiet := hinv'.quiet dir b' hb' (.inr (.inr hdropped))
  -- the book still has the object of the order, or has pruned it
  obtain ⟨o', ho', hid⟩ := List.mem_map.mp (htold.present o.orderId hplaced)
  have hobject : (b'.orderObject o.orderId).isSome = true := by
    rw [ShadowOrderbook.orderObject, List.find?_isSome]
    exact ⟨o', ho', by simpa using hid⟩
  obtain ⟨o₁, ho₁⟩ := Option.isSome_iff_exists.mp hobject
  have hid₁ : o₁.orderId = o.orderId := by simpa using List.find?_some ho₁
  have hend : o₁.status.isTerminal = true ∧
      (o₁.status = .canceled → cancelCount o₁.orderId (x'.events dir) = 1) := by
    rcases List.mem_append.mp (List.mem_of_find?_eq_some ho₁) with hlive | hpruned
    · refine ⟨(hquiet o₁ hlive).1, fun hs => ?_⟩
      rw [htold.live o₁ hlive, (hquiet o₁ hlive).2 hs]
      rfl
    · exact htold.pruned o₁ hpruned
  refine ⟨b', o₁, hb', ho₁, ?_⟩
  cases hs : o₁.status with
  | filled => exact .inl rfl
  | canceled =>
    have hcount : cancelCount o.orderId (x'.events dir) = 1 := hid₁ ▸ hend.2 hs
    refine .inr ⟨rfl, hcount, fun callback hcallback => ?_⟩
    have hevents : x'.events dir = x.events dir ++ rest.map Prod.snd := by
      unfold ReportedSession.events
      rw [hfired, List.map_append]
    have hbefore : cancelCount o.orderId (x.takenBy callback dir) = 0 :=
      Nat.le_zero.mp (huntold ▸ cancelCount_takenBy_le x callback)
    rw [hevents, cancelCount_append, huntold] at hcount
    rw [takenBy_append hfired hrest hcallback, cancelCount_append, hbefore, hcount]
  | _ =>
    rw [hs] at hend
    cases hend.1

end

/-! ## An order that is dropped -/

/-- The callback is registered, and the order of `doorOrder` rests in the UP book. -/
def restingSteps : List SessionAction :=
  .work .up 1190 .registerStateChangeCallback :: doorChecks ++ [.proceed 0 1200 7]

/-- `transition(ARCHIVED)`. -/
def archiveSteps : List SessionAction := [.start .archived, .advance .up, .advance .up]

/-- A session with an UP book, before any step. -/
def endingSession (state : SessionState) : ReportedSession :=
  .new ⟨.btc, .m5, 900⟩ state fun dir => if dir = .up then some "up" else none

/-- The order rests, and is PENDING. -/
def hasResting (x : ReportedSession) : Bool := (x.session.engine.books .up).any fun b =>
  b.stateChangeCallbacks == 1 && b.virtualOrders.any fun o => o.orderId == 7 && !o.status.isTerminal

theorem hasResting_spec {x : ReportedSession} (h : hasResting x = true) :
    ∃ b o, x.session.engine.books .up = some b ∧ o ∈ b.virtualOrders ∧ o.orderId = 7 ∧
      o.status.isTerminal = false ∧ b.stateChangeCallbacks = 1 := by
  obtain ⟨b, hb, hbook⟩ := (Option.any_eq_true _ _).mp h
  rw [Bool.and_eq_true] at hbook
  obtain ⟨o, ho, horder⟩ := List.any_eq_true.mp hbook.2
  rw [Bool.and_eq_true] at horder
  exact ⟨b, o, hb, ho, by simpa using horder.1, by simpa using horder.2, by simpa using hbook.1⟩

/-- An ACTIVE session becomes SETTLING and is archived: the callback took the cancel of the
order. -/
theorem no_order_dropped_settled : ∃ x' : ReportedSession, x'.session.booksCleared = true ∧
    ∃ b' o', x'.session.engine.books .up = some b' ∧ b'.orderObject 7 = some o' ∧
      (o'.status = .filled ∨ o'.status = .canceled ∧ cancelCount 7 (x'.events .up) = 1 ∧
        ∀ callback < 1, cancelCount 7 (x'.takenBy callback .up) = 1) := by
  have hexec :
    ((exec ReportedSession.step EndsReported (endingSession .active) restingSteps).any fun x =>
      hasResting x &&
        (exec ReportedSession.step EndsReported x (doorCloses ++ archiveSteps)).any fun x' =>
          x'.session.booksCleared) = true := by
    decide +kernel
  obtain ⟨x, hx, hstate⟩ := (Option.any_eq_true _ _).mp hexec
  rw [Bool.and_eq_true] at hstate
  obtain ⟨x', hx', hdropped⟩ := (Option.any_eq_true _ _).mp hstate.2
  obtain ⟨b, o, hb, ho, hid, hopen, hcallbacks⟩ := hasResting_spec hstate.1
  have hout := no_order_dropped (run_of_exec hx) hb ho hopen (run_of_exec hx') hdropped
  rw [hid, hcallbacks] at hout
  exact ⟨x', hdropped, hout⟩

/-- **An order of a PREFETCH session is dropped**: `cleanup_expired_sessions` archives the session,
and the callback took no CANCEL event of its PENDING order. -/
theorem prefetch_order_dropped : ¬ ∀ (sessionId : SessionId) (state : SessionState)
    (tokens : Direction → Option String) (x x' : ReportedSession) (dir : Direction)
    (b : ShadowOrderbook) (o : SimulatedOrder),
    Run ReportedSession.step (fun _ _ => True) (.new sessionId state tokens) x →
    x.session.engine.books dir = some b → o ∈ b.virtualOrders → o.status.isTerminal = false →
    Run ReportedSession.step (fun _ _ => True) x x' → x'.session.booksCleared = true →
    ∃ b' o', x'.session.engine.books dir = some b' ∧ b'.orderObject o.orderId = some o' ∧
      (o'.status = .filled ∨ o'.status = .canceled ∧ cancelCount o.orderId (x'.events dir) = 1 ∧
        ∀ callback < b.stateChangeCallbacks, cancelCount o.orderId
          (x'.takenBy callback dir) = 1) := by
  intro hall
  have hexec : ((exec ReportedSession.step (fun _ _ => True)
    (endingSession .prefetch) restingSteps).any fun x =>
      hasResting x && (exec ReportedSession.step (fun _ _ => True) x archiveSteps).any fun x' =>
        x'.session.booksCleared && decide (cancelCount 7 (x'.events .up) = 0) &&
        (x'.session.engine.books .up).any fun b => (b.orderObject 7).any fun o =>
          o.status = .pending) = true := by
    decide +kernel
  obtain ⟨x, hx, hstate⟩ := (Option.any_eq_true _ _).mp hexec
  rw [Bool.and_eq_true] at hstate
  obtain ⟨x', hx', hend⟩ := (Option.any_eq_true _ _).mp hstate.2
  simp only [Bool.and_eq_true, decide_eq_true_eq] at hend
  obtain ⟨b, o, hb, ho, hid, hopen, -⟩ := hasResting_spec hstate.1
  obtain ⟨b', o', hb', ho', hfate⟩ :=
    hall _ _ _ x x' .up b o (run_of_exec hx) hb ho hopen (run_of_exec hx') hend.1.1
  obtain ⟨c, hc, hpending⟩ := (Option.any_eq_true _ _).mp hend.2
  obtain ⟨y, hy, hstatus⟩ := (Option.any_eq_true _ _).mp hpending
  obtain rfl : b' = c := Option.some.inj (hb'.symm.trans hc)
  rw [hid] at ho'
  obtain rfl : o' = y := Option.some.inj (ho'.symm.trans hy)
  rw [decide_eq_true_eq] at hstatus
  rcases hfate with hs | ⟨hs, -⟩ <;> rw [hstatus] at hs <;> cases hs

end PolyArena
