import PolyArena.Lib.Runs
import Mathlib.Data.List.Dedup

/-!
# The market feed

`PolymarketFeed` (`ws_feed.py`): the client of Polymarket's market channel.  A subscription message
replaces what the server has of the connection, so the feed sends its whole list each time.  It
sends it once when a connection stands, and once for each task that `add_tokens` left behind; the
tasks run later, on whatever connection there is then, and with the list as it is then.  A
connection ends at any time, and messages on their way end with it.

1. `FeedAction.step`: what the feed, its tasks, the connection and the server do, in any order.
2. `subscription_tracks`: on one connection no message takes back a token of an earlier one, and a
   connection without tasks and messages on their way is subscribed to every token that the feed
   has.
3. `feed_recovers`: from every reachable state of a running feed some steps lead there.
-/

namespace PolyArena

def RECONNECT_BASE : ℕ := 1
def RECONNECT_MAX : ℕ := 10

/-- A connection, as the server has it: the tokens of its last subscription, and the messages on
their way. -/
structure Link where
  server : Option (List String) := none
  inFlight : List (List String) := []
  deriving DecidableEq, Repr

/-- `_ws`.  It is never set back to `None`. -/
inductive Socket
  | missing
  | closed
  | live (link : Link)
  deriving DecidableEq, Repr

/-- Where `_run_forever` is. -/
inductive FeedPhase
  | idle
  | connecting
  | listening
  | sleeping
  deriving DecidableEq, Repr

/-- How `_connect_and_listen` ends: it returns, it raises `ConnectionClosed`, or something else. -/
inductive AttemptEnd
  | returned
  | connectionClosed
  | error
  deriving DecidableEq, Repr

structure MarketFeed where
  tokenIds : List String
  running : Bool := false
  reconnectDelay : ℕ := RECONNECT_BASE
  socket : Socket := .missing
  phase : FeedPhase := .idle
  /-- The `_resubscribe` tasks that have not run. -/
  tasks : ℕ := 0
  deriving DecidableEq, Repr

namespace MarketFeed

/-- The end of an attempt in `_run_forever`, up to the sleep. -/
def endAttempt (f : MarketFeed) (how : AttemptEnd) : MarketFeed :=
  { f with
    reconnectDelay := if how = .error then f.reconnectDelay else RECONNECT_BASE
    phase := if f.running then .sleeping else .idle }

/-- The tokens that `add_tokens` adds, of a set in some order. -/
def newTokens (f : MarketFeed) (ids : List String) : List String :=
  (ids.filter (· ∉ f.tokenIds)).dedup

/-- `add_tokens`. -/
def addTokens (f : MarketFeed) (ids : List String) : MarketFeed :=
  if f.newTokens ids = [] then f
  else { f with
    tokenIds := f.tokenIds ++ f.newTokens ids
    tasks := if f.socket ≠ .missing ∧ f.running then f.tasks + 1 else f.tasks }

/-- `_resubscribe`, with the number of tasks left.  A message that cannot be sent is logged; then
the connection is closed. -/
def resubscribe (f : MarketFeed) (left : ℕ) (sent : Bool) : MarketFeed :=
  match f.socket with
  | .live link => { f with
      tasks := left
      socket := if sent then .live { link with inFlight := link.inFlight ++ [f.tokenIds] }
        else .closed }
  | _ => { f with tasks := left }

/-- A connection stands, and the first message is sent. -/
def connected (f : MarketFeed) : MarketFeed :=
  { f with socket := .live { inFlight := [f.tokenIds] }, phase := .listening }

end MarketFeed

inductive FeedAction
  | start
  | addTokens (ids : List String)
  /-- The connection stands. -/
  | connected
  /-- It stands, and is closed before the first message. -/
  | dropped
  /-- It does not come to stand. -/
  | refused
  | resubscribe (sent : Bool)
  /-- The server takes the next message. -/
  | deliver
  | ended (how : AttemptEnd)
  /-- The sleep is over. -/
  | wake
  | stop
  deriving DecidableEq, Repr

namespace FeedAction

def step (f : MarketFeed) : FeedAction → Option MarketFeed
  | start => some (if f.running then f else { f with running := true, phase := .connecting })
  | addTokens ids => some (f.addTokens ids)
  | connected => if f.phase = .connecting then some f.connected else none
  | dropped =>
    if f.phase = .connecting
    then some (MarketFeed.endAttempt { f with socket := .closed } .connectionClosed) else none
  | refused => if f.phase = .connecting then some (f.endAttempt .error) else none
  | resubscribe sent =>
    match f.tasks with
    | 0 => none
    | left + 1 => some (f.resubscribe left sent)
  | deliver =>
    match f.socket with
    | .live ⟨_, frame :: rest⟩ => some { f with socket := .live ⟨some frame, rest⟩ }
    | _ => none
  | ended how =>
    if f.phase = .listening
    then some (MarketFeed.endAttempt { f with socket := .closed } how) else none
  | wake =>
    if f.phase = .sleeping then some { f with
      reconnectDelay := min (f.reconnectDelay * 2) RECONNECT_MAX
      phase := if f.running then .connecting else .idle }
    else none
  | stop => some { f with
      running := false
      phase := .idle
      socket := if f.socket = .missing then .missing else .closed }

end FeedAction

/-! ## What holds in every state -/

/-- What the server was or will be told, in order. -/
def Link.frames (link : Link) : List (List String) := link.server.toList ++ link.inFlight

/-- Every message has the tokens of those before it, and the feed has the tokens of all. -/
def Cumulative (frames : List (List String)) (tokenIds : List String) : Prop :=
  (frames ++ [tokenIds]).Pairwise (· <+: ·)

structure FeedInv (f : MarketFeed) : Prop where
  delay : RECONNECT_BASE ≤ f.reconnectDelay ∧ f.reconnectDelay ≤ RECONNECT_MAX
  running : f.running = true ↔ f.phase ≠ .idle
  listening : ∀ link, f.socket = .live link → f.phase = .listening
  cumulative : ∀ link, f.socket = .live link → Cumulative link.frames f.tokenIds
  told : ∀ link, f.socket = .live link → f.tasks = 0 → link.frames.getLast? = some f.tokenIds

section

variable {f f' f₀ : MarketFeed} {link : Link} {a : FeedAction} {frames : List (List String)}
  {tokenIds tokenIds' : List String}

theorem Cumulative.mono (h : Cumulative frames tokenIds) (hle : tokenIds <+: tokenIds') :
    Cumulative frames tokenIds' := by
  unfold Cumulative at h ⊢
  rw [List.pairwise_append] at h ⊢
  refine ⟨h.1, List.pairwise_singleton _ _, fun a ha b hb => ?_⟩
  rw [List.mem_singleton.mp hb]
  exact (h.2.2 a ha tokenIds List.mem_cons_self).trans hle

/-- One more message with the whole list. -/
theorem Cumulative.push (h : Cumulative frames tokenIds) :
    Cumulative (frames ++ [tokenIds]) tokenIds := by
  unfold Cumulative at h ⊢
  refine List.pairwise_append.mpr ⟨h, List.pairwise_singleton _ _, fun a ha b hb => ?_⟩
  rw [List.mem_singleton.mp hb]
  rcases List.mem_append.mp ha with ha | ha
  · exact (List.pairwise_append.mp h).2.2 a ha tokenIds List.mem_cons_self
  · obtain rfl := List.mem_singleton.mp ha
    exact List.prefix_rfl

/-- The server forgets what it was told before. -/
theorem Cumulative.sublist {frames' : List (List String)} (h : Cumulative frames tokenIds)
    (hsub : frames'.Sublist frames) : Cumulative frames' tokenIds :=
  List.Pairwise.sublist (hsub.append (List.Sublist.refl _)) h

/-- The socket is not a standing connection. -/
theorem feedInv_of_dead
    (hdelay : RECONNECT_BASE ≤ f.reconnectDelay ∧ f.reconnectDelay ≤ RECONNECT_MAX)
    (hrunning : f.running = true ↔ f.phase ≠ .idle) (hdead : ∀ link, f.socket ≠ .live link) :
    FeedInv f :=
  ⟨hdelay, hrunning, fun link h => absurd h (hdead link), fun link h => absurd h (hdead link),
    fun link h => absurd h (hdead link)⟩

theorem feedInv_start (tokenIds : List String) : FeedInv { tokenIds := tokenIds } :=
  feedInv_of_dead (by simp [RECONNECT_BASE, RECONNECT_MAX]) (by simp) fun _ h => nomatch h

/-- An attempt that ends without a connection. -/
theorem feedInv_endAttempt (h : FeedInv f) (how : AttemptEnd)
    (hdead : ∀ link, f'.socket ≠ .live link) (hdelay : f'.reconnectDelay = f.reconnectDelay) :
    FeedInv (f'.endAttempt how) := by
  refine feedInv_of_dead ?_ ?_ hdead
  · unfold MarketFeed.endAttempt
    dsimp only
    split_ifs
    · exact hdelay ▸ h.delay
    · simp [RECONNECT_BASE, RECONNECT_MAX]
  · unfold MarketFeed.endAttempt
    dsimp only
    cases f'.running <;> simp

theorem feedInv_addTokens (h : FeedInv f) (ids : List String) : FeedInv (f.addTokens ids) := by
  unfold MarketFeed.addTokens
  split_ifs with hnone hlive
  · exact h
  · refine ⟨h.delay, h.running, h.listening,
      fun link hlink => (h.cumulative link hlink).mono (List.prefix_append _ _),
        fun link hlink hzero => nomatch hzero⟩
  · refine feedInv_of_dead h.delay h.running
      fun link hlink => hlive ⟨?_, ?_⟩
    · rw [show f.socket = .live link from hlink]
      exact Socket.noConfusion
    · rw [h.running, h.listening link hlink]
      exact FeedPhase.noConfusion

theorem feedInv_resubscribe (h : FeedInv f) {left : ℕ} (sent : Bool) :
    FeedInv (f.resubscribe left sent) := by
  unfold MarketFeed.resubscribe
  split
  · next link hlink =>
    cases sent with
    | false => exact feedInv_of_dead h.delay h.running fun _ h => nomatch h
    | true =>
      have hphase := h.listening link hlink
      have hframes : ({ link with inFlight := link.inFlight ++ [f.tokenIds] } : Link).frames =
          link.frames ++ [f.tokenIds] := (List.append_assoc _ _ _).symm
      refine ⟨h.delay, h.running, fun _ _ => hphase, fun link' hlink' => ?_,
        fun link' hlink' _ => ?_⟩
      · cases hlink'
        rw [hframes]
        exact (h.cumulative link hlink).push
      · cases hlink'
        rw [hframes]
        exact List.getLast?_concat
  · next hdead => exact feedInv_of_dead h.delay h.running hdead

/-- **Every step** keeps the invariant. -/
theorem feedInv_step (h : FeedInv f) (hstep : a.step f = some f') : FeedInv f' := by
  cases a with
  | start =>
    cases hstep
    split_ifs with hrun
    · exact h
    · refine feedInv_of_dead h.delay (by simp) fun link hlink => hrun ?_
      rw [h.running, h.listening link hlink]
      exact FeedPhase.noConfusion
  | addTokens ids =>
    cases hstep
    exact feedInv_addTokens h ids
  | connected =>
    simp only [FeedAction.step] at hstep
    split_ifs at hstep with hphase
    cases hstep
    have hrun : f.running = true := by
      rw [h.running, hphase]
      exact FeedPhase.noConfusion
    refine ⟨h.delay, iff_of_true hrun FeedPhase.noConfusion, fun _ _ => rfl, fun link hlink => ?_,
      fun link hlink _ => ?_⟩
    · cases hlink
      exact List.pairwise_pair.mpr List.prefix_rfl
    · cases hlink
      rfl
  | dropped =>
    simp only [FeedAction.step] at hstep
    split_ifs at hstep
    cases hstep
    exact feedInv_endAttempt h _ (fun _ h => nomatch h) rfl
  | refused =>
    simp only [FeedAction.step] at hstep
    split_ifs at hstep with hphase
    cases hstep
    refine feedInv_endAttempt h _ (fun link hlink => ?_) rfl
    exact nomatch hphase.symm.trans (h.listening link hlink)
  | resubscribe sent =>
    simp only [FeedAction.step] at hstep
    split at hstep
    · cases hstep
    · cases hstep
      exact feedInv_resubscribe h sent
  | deliver =>
    simp only [FeedAction.step] at hstep
    split at hstep
    · next server frame rest hlink =>
      cases hstep
      have hphase := h.listening _ hlink
      refine ⟨h.delay, h.running, fun _ _ => hphase, fun link' hlink' => ?_,
        fun link' hlink' hzero => ?_⟩
      · cases hlink'
        exact (h.cumulative _ hlink).sublist (List.sublist_append_right _ _)
      · cases hlink'
        have htold := h.told _ hlink hzero
        unfold Link.frames at htold ⊢
        rw [List.getLast?_append_of_ne_nil _ (List.cons_ne_nil _ _)] at htold
        exact htold
    · cases hstep
  | ended how =>
    simp only [FeedAction.step] at hstep
    split_ifs at hstep
    cases hstep
    exact feedInv_endAttempt h _ (fun _ h => nomatch h) rfl
  | wake =>
    simp only [FeedAction.step] at hstep
    by_cases hphase : f.phase = .sleeping
    · rw [if_pos hphase, Option.some.injEq] at hstep
      subst hstep
      refine feedInv_of_dead ?_ ?_ fun link hlink => ?_
      · have hdelay := h.delay
        simp only [RECONNECT_BASE, RECONNECT_MAX] at hdelay ⊢
        omega
      · dsimp only
        cases f.running <;> simp
      · exact nomatch hphase.symm.trans (h.listening link hlink)
    · rw [if_neg hphase] at hstep
      cases hstep
  | stop =>
    cases hstep
    refine feedInv_of_dead h.delay (by simp) fun link hlink => ?_
    dsimp only at hlink
    split_ifs at hlink

theorem feedInv_run {guard : MarketFeed → FeedAction → Prop} (h : FeedInv f₀)
    (hrun : Run FeedAction.step guard f₀ f) :
    FeedInv f :=
  hrun.invariant FeedInv h fun _ _ _ h _ hstep => feedInv_step h hstep

/-- Once everything has arrived, the server has the last message. -/
theorem server_eq_of_told (htold : link.frames.getLast? = some tokenIds)
    (hdrained : link.inFlight = []) :
    link.server = some tokenIds := by
  unfold Link.frames at htold
  rw [hdrained, List.append_nil] at htold
  cases hserver : link.server with
  | none =>
    rw [hserver] at htold
    cases htold
  | some frame =>
    rw [hserver] at htold
    exact htold

/-- **The subscription tracks the list.**  Whatever is added, sent, delivered, dropped and closed,
in any order: on a standing connection each message has all tokens of those before it, so none is
taken back; and when no task and no message is outstanding, the server has exactly the feed's
list. -/
theorem subscription_tracks {guard : MarketFeed → FeedAction → Prop}
    (hrun : Run FeedAction.step guard { tokenIds := tokenIds } f) (hlive : f.socket = .live link) :
    Cumulative link.frames f.tokenIds ∧ (f.tasks = 0 → link.inFlight = [] →
      link.server = some f.tokenIds) := by
  have h := feedInv_run (feedInv_start tokenIds) hrun
  exact ⟨h.cumulative link hlive, fun htasks hdrained =>
    server_eq_of_told (h.told link hlive htasks) hdrained⟩

end

/-- A token is added on a standing connection. -/
theorem subscription_tracks_added : ∃ (f : MarketFeed) (link : Link), f.socket = .live link ∧
    f.tokenIds = ["a", "b"] ∧
    link.server = some f.tokenIds := by
  have hexec : (exec FeedAction.step (fun _ _ => True) { tokenIds := ["a"] }
      [.start, .connected, .addTokens ["b"], .resubscribe true, .deliver, .deliver]).any (fun f =>
        decide (f.tokenIds = ["a", "b"] ∧ f.tasks = 0 ∧
          f.socket = .live ⟨some ["a", "b"], []⟩)) = true := by
    decide +kernel
  obtain ⟨f, hrun, hf⟩ := Option.any_eq_true _ _ |>.mp hexec
  obtain ⟨htokens, htasks, hlive⟩ := of_decide_eq_true hf
  exact ⟨f, _, hlive, htokens, (subscription_tracks (run_of_exec hrun) hlive).2 htasks rfl⟩

/-! ## Recovery -/

section

variable {f f' f₀ : MarketFeed} {link : Link} {tokenIds : List String}

/-- What the feed does without a call from outside, and what its connection carries, the sends
succeeding.  It notices the end of a connection that it closed itself; none that stands is lost. -/
def FeedAction.Works (f : MarketFeed) : FeedAction → Prop
  | connected => True
  | resubscribe sent => sent = true
  | deliver => True
  | ended _ => ∀ link, f.socket ≠ .live link
  | wake => True
  | _ => False

/-- Reached by the feed's own work. -/
abbrev WorksTo (f f' : MarketFeed) : Prop := Run FeedAction.step FeedAction.Works f f'

theorem worksTo_connected (hphase : f.phase = .connecting) : WorksTo f f.connected :=
  .next (a := .connected) .start trivial (if_pos hphase)

/-- A sleeping feed wakes up and connects. -/
theorem worksTo_woken (hphase : f.phase = .sleeping) (hrun : f.running = true) :
    ∃ f', WorksTo f f' ∧ f'.tokenIds = f.tokenIds ∧ ∃ link, f'.socket = .live link := by
  have hwake : FeedAction.step f .wake = some { f with
      reconnectDelay := min (f.reconnectDelay * 2) RECONNECT_MAX
      phase := .connecting } := by
    simp [FeedAction.step, hphase, hrun]
  exact ⟨_, Run.trans (.next (a := .wake) .start trivial hwake)
    (worksTo_connected rfl), rfl, _, rfl⟩

/-- A connection stands: the one that did, if there was one. -/
theorem worksTo_live (h : FeedInv f) (hrun : f.running = true) :
    ∃ f', WorksTo f f' ∧ f'.tokenIds = f.tokenIds ∧ ∃ link, f'.socket = .live link := by
  by_cases hlive : ∃ link, f.socket = .live link
  · exact ⟨f, .start, rfl, hlive⟩
  have hdead : ∀ link, f.socket ≠ .live link := fun link hlink => hlive ⟨link, hlink⟩
  cases hphase : f.phase with
  | idle => exact absurd hphase (h.running.mp hrun)
  | connecting => exact ⟨_, worksTo_connected hphase, rfl, _, rfl⟩
  | sleeping => exact worksTo_woken hphase hrun
  | listening =>
    -- the feed closed the connection, and has yet to notice
    have hended : FeedAction.step f (.ended .error) =
        some (MarketFeed.endAttempt { f with socket := .closed } .error) := if_pos hphase
    have hsleeping :
        (MarketFeed.endAttempt { f with socket := .closed } .error).phase = .sleeping :=
      if_pos hrun
    obtain ⟨f', hrun', htokens, hlink⟩ := worksTo_woken hsleeping hrun
    exact ⟨f', Run.trans (.next (a := .ended .error) .start hdead hended) hrun', htokens, hlink⟩

/-- The tasks run. -/
theorem worksTo_noTasks (hlive : f.socket = .live link) :
    ∃ f', WorksTo f f' ∧ f'.tokenIds = f.tokenIds ∧ f'.tasks = 0 ∧ ∃ link',
      f'.socket = .live link' := by
  generalize hn : f.tasks = n
  induction n generalizing f link with
  | zero => exact ⟨f, .start, rfl, hn, link, hlive⟩
  | succ n ih =>
    have hstep : FeedAction.step f (.resubscribe true) = some (f.resubscribe n true) := by
      simp [FeedAction.step, hn]
    have hsent : f.resubscribe n true = { f with
        tasks := n
        socket := .live { link with inFlight := link.inFlight ++ [f.tokenIds] } } := by
      simp [MarketFeed.resubscribe, hlive]
    rw [hsent] at hstep
    obtain ⟨f', hrun, htokens, hrest⟩ := ih (f := { f with
      tasks := n
      socket := .live { link with inFlight := link.inFlight ++ [f.tokenIds] } }) rfl rfl
    exact ⟨f', Run.trans (.next (a := .resubscribe true) .start rfl hstep) hrun, htokens, hrest⟩

/-- The messages arrive. -/
theorem worksTo_drained (hlive : f.socket = .live link) :
    ∃ f' server, WorksTo f f' ∧ f'.tokenIds = f.tokenIds ∧
    f'.tasks = f.tasks ∧ f'.socket = .live ⟨server, []⟩ := by
  obtain ⟨server, inFlight⟩ := link
  induction inFlight generalizing f server with
  | nil => exact ⟨f, server, .start, rfl, rfl, hlive⟩
  | cons frame rest ih =>
    have hstep : FeedAction.step f .deliver = some { f with
        socket := .live ⟨some frame, rest⟩ } := by
      simp [FeedAction.step, hlive]
    obtain ⟨f', server', hrun, htokens, htasks, hsocket⟩ :=
      ih (f := { f with socket := .live ⟨some frame, rest⟩ })
        (some frame) rfl
    exact ⟨f', server', Run.trans (.next (a := .deliver) .start trivial hstep) hrun, htokens,
      htasks, hsocket⟩

/-- **A running feed can always recover.**  From every state it reaches, its own work (waking,
connecting, sending what is left to send) leads to a connection that is subscribed to its whole
list.  A connection that stands already is the one: own work drops none. -/
theorem feed_recovers {guard : MarketFeed → FeedAction → Prop}
    (hrun : Run FeedAction.step guard { tokenIds := tokenIds } f) (hrunning : f.running = true) :
    ∃ f', WorksTo f f' ∧ f'.tokenIds = f.tokenIds ∧ f'.tasks = 0 ∧
      f'.socket = .live ⟨some f.tokenIds, []⟩ := by
  have h := feedInv_run (feedInv_start tokenIds) hrun
  obtain ⟨f₁, hrun₁, htokens₁, link₁, hlive₁⟩ := worksTo_live h hrunning
  obtain ⟨f₂, hrun₂, htokens₂, htasks₂, link₂, hlive₂⟩ := worksTo_noTasks hlive₁
  obtain ⟨f₃, server, hrun₃, htokens₃, htasks₃, hlive₃⟩ := worksTo_drained hlive₂
  have hworks : WorksTo f f₃ := Run.trans (Run.trans hrun₁ hrun₂) hrun₃
  have htokens : f₃.tokenIds = f.tokenIds := htokens₃.trans (htokens₂.trans htokens₁)
  have htold := (feedInv_run h hworks).told _ hlive₃ (htasks₃.trans htasks₂)
  have hserver : server = some f₃.tokenIds := server_eq_of_told htold rfl
  refine ⟨f₃, hworks, htokens, htasks₃.trans htasks₂, ?_⟩
  rw [hlive₃, hserver, htokens]

end

/-- The connection is lost before the added token was sent. -/
theorem feed_recovers_lost : ∃ f f' : MarketFeed, f.tokenIds = ["a", "b"] ∧ f.socket = .closed ∧
    WorksTo f f' ∧
    f'.socket = .live ⟨some ["a", "b"], []⟩ := by
  have hexec : (exec FeedAction.step (fun _ _ => True) { tokenIds := ["a"] }
      [.start, .connected, .addTokens ["b"], .ended .error]).any (fun f =>
        decide (f.tokenIds = ["a", "b"] ∧ f.running = true ∧ f.socket = .closed)) = true := by
    decide +kernel
  obtain ⟨f, hrun, hf⟩ := Option.any_eq_true _ _ |>.mp hexec
  obtain ⟨htokens, hrunning, hclosed⟩ := of_decide_eq_true hf
  obtain ⟨f', hworks, -, -, hlive⟩ := feed_recovers (run_of_exec hrun) hrunning
  exact ⟨f, f', htokens, hclosed, hworks, htokens ▸ hlive⟩

end PolyArena
