import Mathlib.Data.Finset.Dedup
import Mathlib.Data.Finset.Erase
import Mathlib.Data.Finset.Insert
import Mathlib.Logic.Function.Basic
import PolyArena.Lib.DropOldest
import PolyArena.Lib.Runs

/-!
# The fan-out of the orderbook broadcaster

`OrderbookBroadcaster` has one queue of at most 256 messages for each client.  `_fan_out` copies the
set of subscribers under the lock and then serves one queue after the other.

1. `Broadcaster.step`: clients come, go and read at any moment, also between two queues of one
   fan-out.
2. `Fair`: what a queue was served is what was fanned out since its client came, without the message
   that is on its way to it.
3. `fair_of_run`, `delivery_of_run`: every run keeps it, and a client loses only messages with 256
   newer ones.

The bodies of `async with self._lock` have no await, so each of them is one step.
-/

namespace PolyArena

/-- `asyncio.Queue(maxsize=256)`. -/
def CLIENT_QUEUE_MAX : ℕ := 256

/-- The queue of a client, and how many messages had been fanned out when it subscribed. -/
structure Client (μ : Type*) where
  joined : ℕ
  lane : Lane μ := {}
  deriving DecidableEq

/-- `_subscribers`, the queues that `subscribe` returned, and the loop of `_fan_out`: its message
and the queues that it has not served.  `log` has the messages that were fanned out, oldest
first. -/
structure Broadcaster (μ : Type*) where
  subscribers : Finset ℕ := ∅
  clients : ℕ → Option (Client μ) := fun _ => none
  fanOut : Option (μ × List ℕ) := none
  log : List μ := []

/-- What may happen next.  The copy of the set is a list in any order. -/
inductive BroadcastAction (μ : Type*)
  | subscribe (q : ℕ)
  | unsubscribe (q : ℕ)
  | fanOut (m : μ) (subscribers : List ℕ)
  /-- The loop of `_fan_out` serves its next queue, or ends. -/
  | serve
  | read (q : ℕ)

namespace Broadcaster

variable {μ : Type*}

def put (s : Broadcaster μ) (q : ℕ) (c : Client μ) : Broadcaster μ :=
  { s with clients := Function.update s.clients q (some c) }

/-- The queues that the fan-out has not served. -/
def waiting (s : Broadcaster μ) : List ℕ := (s.fanOut.map Prod.snd).getD []

/-- The loop body of `_fan_out`. -/
def serve (s : Broadcaster μ) (q : ℕ) (m : μ) : Broadcaster μ :=
  match s.clients q with
  | none => s
  | some c => s.put q { c with lane := c.lane.offer CLIENT_QUEUE_MAX m }

/-- One step; fan-outs are made one at a time, and a read awaits a message. -/
def step (s : Broadcaster μ) : BroadcastAction μ → Option (Broadcaster μ)
  | .subscribe q =>
    match s.clients q with
    | none => some ({ s with subscribers := insert q s.subscribers }.put q ⟨s.log.length, {}⟩)
    | some _ => none
  | .unsubscribe q => some { s with subscribers := s.subscribers.erase q }
  | .fanOut m subscribers =>
    if s.fanOut = none ∧ subscribers.Nodup ∧ subscribers.toFinset = s.subscribers then
      some { s with fanOut := some (m, subscribers), log := s.log ++ [m] }
    else none
  | .serve =>
    match s.fanOut with
    | none => none
    | some (_, []) => some { s with fanOut := none }
    | some (m, q :: rest) => some { s.serve q m with fanOut := some (m, rest) }
  | .read q =>
    match s.clients q with
    | none => none
    | some c => c.lane.take.map fun lane => s.put q { c with lane := lane }

/-! ## Steps -/

/-- What a step can do. -/
inductive Moves (s : Broadcaster μ) : BroadcastAction μ → Broadcaster μ → Prop
  | subscribe {q : ℕ} (hq : s.clients q = none) :
      Moves s (.subscribe q) ({ s with subscribers := insert q s.subscribers }.put q
        ⟨s.log.length, {}⟩)
  | unsubscribe {q : ℕ} : Moves s (.unsubscribe q) { s with subscribers := s.subscribers.erase q }
  | fanOut {m : μ} {copy : List ℕ} (hidle : s.fanOut = none) (hnodup : copy.Nodup)
      (hcopy : copy.toFinset = s.subscribers) :
      Moves s (.fanOut m copy) { s with fanOut := some (m, copy), log := s.log ++ [m] }
  | finish {m : μ} (hfan : s.fanOut = some (m, [])) : Moves s .serve { s with fanOut := none }
  | serve {m : μ} {q : ℕ} {rest : List ℕ} (hfan : s.fanOut = some (m, q :: rest)) :
      Moves s .serve { s.serve q m with fanOut := some (m, rest) }
  | read {q : ℕ} {c : Client μ} {lane : Lane μ} (hq : s.clients q = some c)
      (hlane : c.lane.take = some lane) :
      Moves s (.read q) (s.put q { c with lane := lane })

theorem moves_of_step {s s' : Broadcaster μ} {a : BroadcastAction μ} (h : s.step a = some s') :
    s.Moves a s' := by
  cases a with
  | subscribe q =>
    simp only [step] at h
    split at h
    · cases h
      exact .subscribe ‹_›
    · cases h
  | unsubscribe q =>
    cases h
    exact .unsubscribe
  | fanOut m copy =>
    obtain ⟨⟨hidle, hnodup, hcopy⟩, heq⟩ := Option.ite_none_right_eq_some.mp h
    cases heq
    exact .fanOut hidle hnodup hcopy
  | serve =>
    simp only [step] at h
    split at h
    · cases h
    · cases h
      exact .finish ‹_›
    · cases h
      exact .serve ‹_›
  | read q =>
    simp only [step] at h
    split at h
    · cases h
    · obtain ⟨lane, hlane, rfl⟩ := Option.map_eq_some_iff.mp h
      exact .read ‹_› hlane

/-! ## The invariant -/

/-- What a queue was served is what was fanned out since its client came: all of it, unless the
client has left or the fan-out has not reached it. -/
structure Fair (s : Broadcaster μ) : Prop where
  known : ∀ q ∈ s.subscribers, ∃ c, s.clients q = some c
  sound : ∀ q c, s.clients q = some c → c.lane.Sound CLIENT_QUEUE_MAX
  joined : ∀ q c, s.clients q = some c → c.joined ≤ s.log.length
  served : ∀ q c, s.clients q = some c → c.lane.served <+: s.log.drop c.joined
  current : ∀ q c, s.clients q = some c → q ∈ s.subscribers → q ∉ s.waiting →
    c.lane.served = s.log.drop c.joined
  nodup : s.waiting.Nodup
  expecting : ∀ m rest, s.fanOut = some (m, rest) → ∀ q ∈ rest,
    ∃ c, s.clients q = some c ∧ c.lane.served ++ [m] = s.log.drop c.joined

section

variable {s s' : Broadcaster μ} {q q' : ℕ} {c c' : Client μ} {m : μ} {rest : List ℕ}

@[simp] theorem put_clients : (s.put q c).clients q = some c := Function.update_self ..

theorem put_clients_ne (h : q' ≠ q) : (s.put q c).clients q' = s.clients q' :=
  Function.update_of_ne h ..

theorem clients_put_cases {x : Client μ} (h : (s.put q c).clients q' = some x) :
    q' = q ∧ x = c ∨ q' ≠ q ∧ s.clients q' = some x := by
  by_cases hq : q' = q
  · subst hq
    rw [put_clients, Option.some.injEq] at h
    exact .inl ⟨rfl, h.symm⟩
  · rw [put_clients_ne hq] at h
    exact .inr ⟨hq, h⟩

theorem waiting_of_some (h : s.fanOut = some (m, rest)) : s.waiting = rest := by
  unfold waiting
  rw [h]
  rfl

theorem waiting_of_none (h : s.fanOut = none) : s.waiting = [] := by
  unfold waiting
  rw [h]
  rfl

theorem fair_empty : Fair ({} : Broadcaster μ) where
  known q hq := absurd hq (Finset.notMem_empty q)
  sound := nofun
  joined := nofun
  served := nofun
  current := nofun
  nodup := List.nodup_nil
  expecting := nofun

/-- A queue is replaced by one that was served the same. -/
theorem Fair.put (h : Fair s) (hc : s.clients q = some c) (hsound : c'.lane.Sound CLIENT_QUEUE_MAX)
    (hjoined : c'.joined = c.joined) (hserved : c'.lane.served = c.lane.served) :
    Fair (s.put q c') := by
  have hold : ∀ q' x, (s.put q c').clients q' = some x → ∃ x₀, s.clients q' = some x₀ ∧
      x.joined = x₀.joined ∧ x.lane.served = x₀.lane.served := by
    intro q' x hx
    rcases clients_put_cases hx with ⟨rfl, rfl⟩ | ⟨-, hx⟩
    · exact ⟨c, hc, hjoined, hserved⟩
    · exact ⟨x, hx, rfl, rfl⟩
  have hnew : ∀ q' x₀, s.clients q' = some x₀ → ∃ x, (s.put q c').clients q' = some x ∧
      x.joined = x₀.joined ∧ x.lane.served = x₀.lane.served := by
    intro q' x₀ hx₀
    by_cases hq : q' = q
    · subst hq
      rw [hc, Option.some.injEq] at hx₀
      subst hx₀
      exact ⟨c', put_clients, hjoined, hserved⟩
    · exact ⟨x₀, (put_clients_ne hq).trans hx₀, rfl, rfl⟩
  refine ⟨?_, ?_, ?_, ?_, ?_, h.nodup, ?_⟩
  · intro q' hq'
    obtain ⟨x₀, hx₀⟩ := h.known q' hq'
    obtain ⟨x, hx, -⟩ := hnew q' x₀ hx₀
    exact ⟨x, hx⟩
  · intro q' x hx
    rcases clients_put_cases hx with ⟨-, rfl⟩ | ⟨-, hx⟩
    · exact hsound
    · exact h.sound q' x hx
  · intro q' x hx
    obtain ⟨x₀, hx₀, hj, -⟩ := hold q' x hx
    exact hj ▸ h.joined q' x₀ hx₀
  · intro q' x hx
    obtain ⟨x₀, hx₀, hj, hv⟩ := hold q' x hx
    rw [hj, hv]
    exact h.served q' x₀ hx₀
  · intro q' x hx hsub hwait
    obtain ⟨x₀, hx₀, hj, hv⟩ := hold q' x hx
    rw [hj, hv]
    exact h.current q' x₀ hx₀ hsub hwait
  · intro m rest hfan q' hq'
    obtain ⟨x₀, hx₀, hx₀v⟩ := h.expecting m rest hfan q' hq'
    obtain ⟨x, hx, hj, hv⟩ := hnew q' x₀ hx₀
    exact ⟨x, hx, by rw [hj, hv]; exact hx₀v⟩

/-- A client that comes now has missed nothing. -/
theorem Fair.subscribe (h : Fair s) (hq : s.clients q = none) :
    Fair ({ s with subscribers := insert q s.subscribers }.put q ⟨s.log.length, {}⟩) := by
  have hne : ∀ q' x, s.clients q' = some x → q' ≠ q := by
    rintro q' x hx rfl
    rw [hq] at hx
    cases hx
  refine ⟨?_, ?_, ?_, ?_, ?_, h.nodup, ?_⟩
  · intro q' hq'
    rcases Finset.mem_insert.mp hq' with rfl | hq'
    · exact ⟨_, put_clients⟩
    · obtain ⟨x, hx⟩ := h.known q' hq'
      exact ⟨x, (put_clients_ne (hne q' x hx)).trans hx⟩
  · intro q' x hx
    rcases clients_put_cases hx with ⟨-, rfl⟩ | ⟨-, hx⟩
    · exact Lane.sound_empty
    · exact h.sound q' x hx
  · intro q' x hx
    rcases clients_put_cases hx with ⟨-, rfl⟩ | ⟨-, hx⟩
    · exact le_rfl
    · exact h.joined q' x hx
  · intro q' x hx
    rcases clients_put_cases hx with ⟨-, rfl⟩ | ⟨-, hx⟩
    · exact List.nil_prefix
    · exact h.served q' x hx
  · intro q' x hx hsub hwait
    rcases clients_put_cases hx with ⟨-, rfl⟩ | ⟨hq', hx⟩
    · exact List.drop_length.symm
    · exact h.current q' x hx (Finset.mem_of_mem_insert_of_ne hsub hq') hwait
  · intro m rest hfan q' hq'
    obtain ⟨x, hx, hxv⟩ := h.expecting m rest hfan q' hq'
    exact ⟨x, (put_clients_ne (hne q' x hx)).trans hx, hxv⟩

theorem Fair.unsubscribe (h : Fair s) : Fair { s with subscribers := s.subscribers.erase q } where
  known q' hq' := h.known q' (Finset.mem_of_mem_erase hq')
  sound := h.sound
  joined := h.joined
  served := h.served
  current q' c hc hsub := h.current q' c hc (Finset.mem_of_mem_erase hsub)
  nodup := h.nodup
  expecting := h.expecting

/-- The copy of the set has everybody who is subscribed, and all of them expect the message. -/
theorem Fair.fanOut (h : Fair s) (hidle : s.fanOut = none) (hnodup : rest.Nodup)
    (hcopy : rest.toFinset = s.subscribers) :
    Fair { s with fanOut := some (m, rest), log := s.log ++ [m] } := by
  have hdrop : ∀ q c, s.clients q = some c → (s.log ++ [m]).drop c.joined =
      s.log.drop c.joined ++ [m] :=
    fun q c hc => List.drop_append_of_le_length (h.joined q c hc)
  have hmem : ∀ q, q ∈ rest ↔ q ∈ s.subscribers := fun q => by rw [← hcopy, List.mem_toFinset]
  refine ⟨h.known, h.sound, ?_, ?_, ?_, hnodup, ?_⟩
  · intro q c hc
    rw [List.length_append]
    exact (h.joined q c hc).trans (Nat.le_add_right _ _)
  · intro q c hc
    rw [hdrop q c hc]
    exact (h.served q c hc).trans (List.prefix_append _ _)
  · intro q c _ hsub hwait
    exact absurd ((hmem q).mpr hsub) hwait
  · rintro m' rest' hfan q hq
    cases hfan
    obtain ⟨c, hc⟩ := h.known q ((hmem q).mp hq)
    have hcurrent : c.lane.served = s.log.drop c.joined :=
      h.current q c hc ((hmem q).mp hq) (by rw [waiting_of_none hidle]; exact List.not_mem_nil)
    exact ⟨c, hc, by rw [hcurrent, hdrop q c hc]⟩

theorem Fair.finish (h : Fair s) (hfan : s.fanOut = some (m, [])) :
    Fair { s with fanOut := none } where
  known := h.known
  sound := h.sound
  joined := h.joined
  served := h.served
  current q c hc hsub _ := h.current q c hc hsub
    (by rw [waiting_of_some hfan]; exact List.not_mem_nil)
  nodup := List.nodup_nil
  expecting := nofun

theorem capacity_pos : 0 < CLIENT_QUEUE_MAX := by decide

/-- The next queue gets the message, and is served then. -/
theorem Fair.serve (h : Fair s) (hfan : s.fanOut = some (m, q :: rest)) :
    Fair { s.serve q m with fanOut := some (m, rest) } := by
  have hnodup : (q :: rest).Nodup := waiting_of_some hfan ▸ h.nodup
  have hfresh : q ∉ rest := (List.nodup_cons.mp hnodup).1
  obtain ⟨c, hc, hexpect⟩ := h.expecting m _ hfan q List.mem_cons_self
  have hserve : s.serve q m = s.put q { c with lane := c.lane.offer CLIENT_QUEUE_MAX m } := by
    unfold Broadcaster.serve
    rw [hc]
  have hserved : (c.lane.offer CLIENT_QUEUE_MAX m).served = s.log.drop c.joined :=
    ((h.sound q c hc).offered capacity_pos).served.trans hexpect
  rw [hserve]
  refine ⟨?_, ?_, ?_, ?_, ?_, (List.nodup_cons.mp hnodup).2, ?_⟩
  · intro q' hq'
    by_cases hne : q' = q
    · subst hne
      exact ⟨_, put_clients⟩
    · obtain ⟨x, hx⟩ := h.known q' hq'
      exact ⟨x, (put_clients_ne hne).trans hx⟩
  · intro q' x hx
    rcases clients_put_cases hx with ⟨-, rfl⟩ | ⟨-, hx⟩
    · exact (h.sound q c hc).offer capacity_pos m
    · exact h.sound q' x hx
  · intro q' x hx
    rcases clients_put_cases hx with ⟨-, rfl⟩ | ⟨-, hx⟩
    · exact h.joined q c hc
    · exact h.joined q' x hx
  · intro q' x hx
    rcases clients_put_cases hx with ⟨-, rfl⟩ | ⟨-, hx⟩
    · exact hserved ▸ List.prefix_rfl
    · exact h.served q' x hx
  · intro q' x hx hsub hwait
    rcases clients_put_cases hx with ⟨-, rfl⟩ | ⟨hne, hx⟩
    · exact hserved
    · refine h.current q' x hx hsub fun hmem => ?_
      rw [waiting_of_some hfan] at hmem
      exact (List.mem_cons.mp hmem).elim hne hwait
  · rintro m' rest' hfan' q' hq'
    cases hfan'
    obtain ⟨x, hx, hxv⟩ := h.expecting m _ hfan q' (List.mem_cons_of_mem q hq')
    have hne : q' ≠ q := fun he => hfresh (he ▸ hq')
    exact ⟨x, (put_clients_ne hne).trans hx, hxv⟩

/-- **Every step** keeps the accounts of the queues. -/
theorem Fair.step {a : BroadcastAction μ} (h : Fair s) (hstep : s.step a = some s') : Fair s' := by
  cases moves_of_step hstep with
  | subscribe hq => exact h.subscribe hq
  | unsubscribe => exact h.unsubscribe
  | fanOut hidle hnodup hcopy => exact h.fanOut hidle hnodup hcopy
  | finish hfan => exact h.finish hfan
  | serve hfan => exact h.serve hfan
  | read hq hlane =>
    obtain ⟨-, -, -, hserved⟩ := Lane.take_some hlane
    exact h.put hq ((h.sound _ _ hq).take hlane) rfl hserved

/-- **Every run** keeps them. -/
theorem fair_of_run {guard : Broadcaster μ → BroadcastAction μ → Prop}
    (h : Run Broadcaster.step guard ({} : Broadcaster μ) s) : Fair s :=
  h.invariant Fair fair_empty fun _ _ _ hfair _ hstep => hfair.step hstep

/-! ## What a step does to a queue -/

/-- What a step does to the queue of a client: nothing, a read, or the message of the fan-out is put
in. -/
inductive Handled (s : Broadcaster μ) (q : ℕ) (a : BroadcastAction μ) (l l' : Lane μ) : Prop
  | same (h : l' = l)
  | read (ha : a = .read q) (h : l.take = some l')
  | served (m : μ) (rest : List ℕ) (ha : a = .serve) (hfan : s.fanOut = some (m, q :: rest))
      (h : Lane.Offered CLIENT_QUEUE_MAX m l l')

theorem Fair.handled {a : BroadcastAction μ} (h : Fair s) (hstep : s.step a = some s')
    (hc : s.clients q = some c) :
    ∃ c', s'.clients q = some c' ∧ c'.joined = c.joined ∧ s.Handled q a c.lane c'.lane := by
  cases moves_of_step hstep with
  | @subscribe q₀ hq =>
    have hne : q ≠ q₀ := by
      rintro rfl
      rw [hq] at hc
      cases hc
    exact ⟨c, (put_clients_ne hne).trans hc, rfl, .same rfl⟩
  | unsubscribe => exact ⟨c, hc, rfl, .same rfl⟩
  | fanOut => exact ⟨c, hc, rfl, .same rfl⟩
  | finish => exact ⟨c, hc, rfl, .same rfl⟩
  | @serve m q₀ rest hfan =>
    obtain ⟨c₀, hc₀, -⟩ := h.expecting m _ hfan q₀ List.mem_cons_self
    have hserve : s.serve q₀ m = s.put q₀ { c₀ with lane := c₀.lane.offer CLIENT_QUEUE_MAX m } := by
      unfold Broadcaster.serve
      rw [hc₀]
    rw [hserve]
    by_cases hq : q = q₀
    · subst hq
      rw [hc, Option.some.injEq] at hc₀
      subst hc₀
      exact ⟨_, put_clients, rfl, .served m rest rfl hfan ((h.sound q c hc).offered capacity_pos)⟩
    · exact ⟨c, (put_clients_ne hq).trans hc, rfl, .same rfl⟩
  | @read q₀ c₀ lane hc₀ hlane =>
    by_cases hq : q = q₀
    · subst hq
      rw [hc, Option.some.injEq] at hc₀
      subst hc₀
      exact ⟨_, put_clients, rfl, .read rfl hlane⟩
    · exact ⟨c, (put_clients_ne hq).trans hc, rfl, .same rfl⟩

end

/-- **Slow clients lose only the oldest messages.**  In every state that is reached, what a client
received and what is in its queue are in order among the messages since it subscribed; all of these
were put into the queue, unless the client has left or the fan-out that is under way has not reached
it; the queue has at most 256 entries, and the newest 256 that were put in are not lost.  A step
changes the queue by a read or by putting the message of the fan-out at its end, and only a message
with 256 newer ones makes room for it. -/
theorem delivery_of_run {s : Broadcaster μ} (h : Run Broadcaster.step (fun _ _ => True) {} s)
    {q : ℕ} {c : Client μ} (hc : s.clients q = some c) :
    c.lane.got.Sublist (s.log.drop c.joined) ∧
      (q ∈ s.subscribers → q ∉ s.waiting → c.lane.served = s.log.drop c.joined) ∧
      c.lane.queue.length ≤ 256 ∧
      c.lane.served.drop (c.lane.served.length - 256) <:+ c.lane.got ∧
      ∀ a s', s.step a = some s' →
        ∃ c', s'.clients q = some c' ∧ c'.joined = c.joined ∧ s.Handled q a c.lane c'.lane := by
  have hfair := fair_of_run h
  have hsound := hfair.sound q c hc
  exact ⟨hsound.got.trans (hfair.served q c hc).sublist, hfair.current q c hc, hsound.bound,
    hsound.newest, fun a s' hstep => hfair.handled hstep hc⟩

/-- A client that reads a first message and then none: the second is dropped for the `258`th. -/
theorem delivery_of_run_slow :
    ∃ s : Broadcaster ℕ, ∃ c, s.clients 1 = some c ∧ s.log.length = 258 ∧
      c.lane.got = 0 :: (List.range 256).map (· + 2) ∧
      c.lane.served.drop (c.lane.served.length - 256) <:+ c.lane.got := by
  have hrun : (exec Broadcaster.step (fun _ _ => True) ({} : Broadcaster ℕ)
      ([.subscribe 1, .fanOut 0 [1], .serve, .serve, .read 1] ++
        (List.range 257).flatMap fun i => [.fanOut (i + 1) [1], .serve, .serve])).any
      (fun s => decide (s.log.length = 258 ∧ (s.clients 1).map (fun c => c.lane.got) =
        some (0 :: (List.range 256).map (· + 2)))) = true := by decide +kernel
  obtain ⟨s, hs, hend⟩ := (Option.any_eq_true _ _).mp hrun
  obtain ⟨hlog, hgot⟩ := of_decide_eq_true hend
  obtain ⟨c, hc, hcgot⟩ := Option.map_eq_some_iff.mp hgot
  exact ⟨s, c, hc, hlog, hcgot, (delivery_of_run (run_of_exec hs) hc).2.2.2.1⟩

end Broadcaster

end PolyArena
