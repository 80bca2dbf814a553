import Mathlib
import PolyArena.Lib.ConsumerGroup
import PolyArena.Lib.Executions

/-!
# The stream consumers of the API

Each API process runs one consumer per stream of `main.py`.  A consumer is named after the pid of
its process; it first drains its own pending list, ten entries at a time, until the list is empty,
and then reads new entries.  A process can stop at any point, with part of a batch unhandled.

1. `StreamWorkers.step` is what the processes can do, for any of the four consumers.
2. `Invariant`: what is in a worker's hand is pending for no other consumer.
3. `pending_until_handled`: an entry pending for a stopped process stays pending for its name until
   a process with the same pid handles it, which `draining` processes do before they read on.
4. `pending_recovered`: so it is handled again when the pid starts again and gets through its drain,
   and only a process with that pid can handle it.  `restart_with_new_pid` is a restart with
   another.
-/

namespace PolyArena

/-! ## The consumers -/

/-- A stream, and what the consumer name is made of besides the pid. -/
structure StreamConsumer where
  stream : String
  label : String
  deriving DecidableEq, Repr

/-- `f"api-{os.getpid()}"` and the like. -/
def StreamConsumer.name (c : StreamConsumer) (pid : ℕ) : String := c.label ++ Nat.repr pid

def STREAM_BRACKET_EXITS : String := "stream:bracket:exits"
def STREAM_ORDER_CANCELS : String := "stream:order:cancels"
def STREAM_ORDER_FILLS : String := "stream:order:fills"
def STREAM_MARKET_RESOLVED : String := "stream:market:resolved"

def consumeBracketExits : StreamConsumer := ⟨STREAM_BRACKET_EXITS, "api-"⟩
def consumeOrderCancels : StreamConsumer := ⟨STREAM_ORDER_CANCELS, "api-cancel-"⟩
def consumeOrderFills : StreamConsumer := ⟨STREAM_ORDER_FILLS, "api-fill-"⟩
def consumeMarketResolved : StreamConsumer := ⟨STREAM_MARKET_RESOLVED, "api-resolved-"⟩

theorem StreamConsumer.name_inj {c : StreamConsumer} {pid pid' : ℕ} :
    c.name pid = c.name pid' ↔ pid = pid' := by
  unfold StreamConsumer.name
  rw [String.append_right_inj, Nat.repr_inj]

/-! ## The processes -/

/-- A running consumer: in `_drain_pending` or in its reading loop, with the messages of the last
read that it has not handled yet. -/
structure Worker (μ : Type*) where
  draining : Bool
  batch : List (ℕ × μ)

/-- The group `api-workers` on one stream and the running processes, by pid. -/
structure StreamWorkers (μ : Type*) where
  group : ConsumerGroup μ String := {}
  workers : ℕ → Option (Worker μ) := fun _ => none

/-- What happens next: a message is published, a process starts, reads, handles the next message of
its batch (and acknowledges it, unless the handler raised before), or stops. -/
inductive WorkerAction (μ : Type*)
  | publish (m : μ)
  | start (pid : ℕ)
  | read (pid : ℕ)
  | handle (pid : ℕ) (acked : Bool)
  | stop (pid : ℕ)

section

variable {μ : Type*}

/-- `count=10`. -/
def READ_COUNT : ℕ := 10

def StreamWorkers.setWorker (s : StreamWorkers μ) (pid : ℕ) (w : Option (Worker μ)) :
    StreamWorkers μ :=
  { s with workers := Function.update s.workers pid w }

/-- One round of `_drain_pending`, which ends when nothing is pending for the consumer. -/
def StreamWorkers.drainPending (c : StreamConsumer) (s : StreamWorkers μ) (pid : ℕ) :
    StreamWorkers μ :=
  let messages := s.group.readPending (c.name pid) READ_COUNT
  s.setWorker pid (some ⟨!messages.isEmpty, messages⟩)

/-- One round of the reading loop. -/
def StreamWorkers.readNew (c : StreamConsumer) (s : StreamWorkers μ) (pid : ℕ) : StreamWorkers μ :=
  let (messages, group) := s.group.readNew (c.name pid) READ_COUNT
  { s with group := group }.setWorker pid (some ⟨false, messages⟩)

/-- A step of the processes that run the consumer `c`. -/
def StreamWorkers.step (c : StreamConsumer) (s : StreamWorkers μ) :
    WorkerAction μ → Option (StreamWorkers μ)
  | .publish m => some { s with group := s.group.xadd m }
  | .start pid =>
    match s.workers pid with
    | none => some (s.setWorker pid (some ⟨true, []⟩))
    | some _ => none
  | .read pid =>
    match s.workers pid with
    | some ⟨true, []⟩ => some (s.drainPending c pid)
    | some ⟨false, []⟩ => some (s.readNew c pid)
    | _ => none
  | .handle pid acked =>
    match s.workers pid with
    | some ⟨draining, m :: rest⟩ =>
      let group := if acked then s.group.xack m.1 else s.group
      some ({ s with group := group }.setWorker pid (some ⟨draining, rest⟩))
    | _ => none
  | .stop pid =>
    match s.workers pid with
    | some _ => some (s.setWorker pid none)
    | none => none

/-- The process is past its drain, in the reading loop. -/
def StreamWorkers.Reading (s : StreamWorkers μ) (pid : ℕ) : Prop :=
  ∃ batch, s.workers pid = some ⟨false, batch⟩

/-- The process is running. -/
def StreamWorkers.Alive (s : StreamWorkers μ) (pid : ℕ) : Prop := s.workers pid ≠ none

/-- The next message that the process handles is `id`. -/
def StreamWorkers.NextIs (s : StreamWorkers μ) (pid id : ℕ) : Prop :=
  ∃ draining m rest, s.workers pid = some ⟨draining, (id, m) :: rest⟩

/-- What a worker has in hand was delivered to no consumer but its own. -/
structure StreamWorkers.Invariant (c : StreamConsumer) (s : StreamWorkers μ) : Prop where
  group : s.group.WellFormed
  own : ∀ pid w, s.workers pid = some w → ∀ m ∈ w.batch, s.group.OnlyFor (c.name pid) m.1

namespace StreamWorkers

variable {c : StreamConsumer} {s s' : StreamWorkers μ} {a : WorkerAction μ} {pid id : ℕ}

@[simp] theorem setWorker_group (w : Option (Worker μ)) : (s.setWorker pid w).group = s.group := rfl

@[simp] theorem setWorker_self (w : Option (Worker μ)) : (s.setWorker pid w).workers pid = w :=
  Function.update_self ..

theorem setWorker_of_ne {pid' : ℕ} (h : pid' ≠ pid) (w : Option (Worker μ)) :
    (s.setWorker pid w).workers pid' = s.workers pid' :=
  Function.update_of_ne h ..

/-! ## One step -/

theorem step_start (h : step c s (.start pid) = some s') :
    s.workers pid = none ∧ s' = s.setWorker pid (some ⟨true, []⟩) := by
  simp only [step] at h
  split at h
  · next hw => exact ⟨hw, (Option.some.inj h).symm⟩
  · cases h

theorem step_read (h : step c s (.read pid) = some s') :
    s.workers pid = some ⟨true, []⟩ ∧ s' = s.drainPending c pid ∨
      s.workers pid = some ⟨false, []⟩ ∧ s' = s.readNew c pid := by
  simp only [step] at h
  split at h
  · next hw => exact .inl ⟨hw, (Option.some.inj h).symm⟩
  · next hw => exact .inr ⟨hw, (Option.some.inj h).symm⟩
  · cases h

theorem step_handle {acked : Bool} (h : step c s (.handle pid acked) = some s') :
    ∃ draining m rest, s.workers pid = some ⟨draining, m :: rest⟩ ∧
      s' = { s with group := if acked then s.group.xack m.1 else s.group }.setWorker pid
        (some ⟨draining, rest⟩) := by
  simp only [step] at h
  split at h
  · next draining m rest hw => exact ⟨draining, m, rest, hw, (Option.some.inj h).symm⟩
  · cases h

theorem step_stop (h : step c s (.stop pid) = some s') : s' = s.setWorker pid none := by
  simp only [step] at h
  split at h
  · exact (Option.some.inj h).symm
  · cases h

theorem Invariant.initial : Invariant c ({} : StreamWorkers μ) :=
  ⟨ConsumerGroup.wellFormed_empty, fun _ _ h => by cases h⟩

theorem Invariant.withGroup (h : Invariant c s) {group : ConsumerGroup μ String}
    (hgroup : group.WellFormed)
    (hown : ∀ name id, s.group.OnlyFor name id → group.OnlyFor name id) :
    Invariant c { s with group := group } :=
  ⟨hgroup, fun pid w hw m hm => hown _ _ (h.own pid w hw m hm)⟩

theorem Invariant.setWorker (h : Invariant c s) (w : Option (Worker μ))
    (hw : ∀ w', w = some w' → ∀ m ∈ w'.batch, s.group.OnlyFor (c.name pid) m.1) :
    Invariant c (s.setWorker pid w) := by
  refine ⟨h.group, fun pid' w' hw' => ?_⟩
  by_cases hpid : pid' = pid
  · subst hpid
    rw [setWorker_self] at hw'
    exact hw w' hw'
  · rw [setWorker_of_ne hpid] at hw'
    exact h.own pid' w' hw'

/-- **A step keeps the batches apart.** -/
theorem Invariant.step (h : Invariant c s) (hstep : StreamWorkers.step c s a = some s') :
    Invariant c s' := by
  cases a with
  | publish m =>
    cases hstep
    exact h.withGroup (h.group.xadd m) fun _ _ hid => hid.xadd m
  | start pid =>
    obtain ⟨-, rfl⟩ := step_start hstep
    exact h.setWorker _ fun w' hw' m hm => by cases hw'; cases hm
  | read pid =>
    rcases step_read hstep with ⟨-, rfl⟩ | ⟨-, rfl⟩
    · refine h.setWorker _ fun w' hw' m hm => ?_
      cases hw'
      exact h.group.onlyFor (ConsumerGroup.pendingFor_of_mem_readPending hm)
    · have hgroup : Invariant c { s with group := (s.group.readNew (c.name pid) READ_COUNT).2 } :=
        h.withGroup (h.group.readNew ..) fun _ _ hid => hid.readNew ..
      refine hgroup.setWorker _ fun w' hw' m hm => ?_
      cases hw'
      exact h.group.onlyFor_readNew hm
  | handle pid acked =>
    obtain ⟨draining, m, rest, hw, rfl⟩ := step_handle hstep
    have hgroup : Invariant c { s with group := if acked then s.group.xack m.1 else s.group } := by
      cases acked with
      | true => exact h.withGroup (h.group.xack m.1) fun _ _ hid => hid.xack m.1
      | false => exact h
    refine hgroup.setWorker _ fun w' hw' m' hm' => ?_
    cases hw'
    exact hgroup.own pid _ hw m' (List.mem_cons_of_mem _ hm')
  | stop pid =>
    rw [step_stop hstep]
    exact h.setWorker _ fun w' hw' => by cases hw'

theorem NextIs.alive (h : s.NextIs pid id) : s.Alive pid := by
  obtain ⟨draining, m, rest, hw⟩ := h
  rw [Alive, hw]
  exact Option.some_ne_none _

/-- **Only its own consumer clears an entry**: it stays pending for a name until a process of that
name handles it. -/
theorem pending_until_handled (h : Invariant c s) (hstep : step c s a = some s')
    (hid : s.group.PendingFor (c.name pid) id) :
    s'.group.PendingFor (c.name pid) id ∨ a = .handle pid true ∧ s.NextIs pid id := by
  cases a with
  | publish m =>
    cases hstep
    exact .inl (ConsumerGroup.pendingFor_xadd m |>.mpr hid)
  | start pid =>
    obtain ⟨-, rfl⟩ := step_start hstep
    exact .inl hid
  | read pid =>
    rcases step_read hstep with ⟨-, rfl⟩ | ⟨-, rfl⟩
    · exact .inl hid
    · exact .inl (ConsumerGroup.pendingFor_readNew.mpr (.inl hid))
  | handle pid' acked =>
    obtain ⟨draining, m, rest, hw, rfl⟩ := step_handle hstep
    cases acked with
    | false => exact .inl hid
    | true =>
      by_cases heq : id = m.1
      · have hown := (h.own pid' _ hw m (List.mem_cons_self ..)).owner _ (heq ▸ hid)
        obtain rfl : pid = pid' := StreamConsumer.name_inj.mp hown
        exact .inr ⟨rfl, draining, m.2, rest, by rw [hw, heq]⟩
      · exact .inl (ConsumerGroup.pendingFor_xack.mpr ⟨hid, heq⟩)
  | stop pid =>
    rw [step_stop hstep]
    exact .inl hid

/-- **The drain ends with nothing pending.** -/
theorem drained (hstep : step c s a = some s') (hs : ¬ s.Reading pid) (hs' : s'.Reading pid) :
    ¬ s'.group.PendingFor (c.name pid) id := by
  have hother : ∀ {t : StreamWorkers μ} {pid' : ℕ} {w : Option (Worker μ)}, t.workers = s.workers →
      (t.setWorker pid' w).Reading pid → pid' = pid := by
    intro t pid' w ht ⟨batch, hread⟩
    by_contra hne
    rw [setWorker_of_ne (Ne.symm hne), ht] at hread
    exact hs ⟨batch, hread⟩
  cases a with
  | publish m =>
    cases hstep
    exact absurd hs' hs
  | start pid' =>
    obtain ⟨-, rfl⟩ := step_start hstep
    obtain rfl := hother rfl hs'
    obtain ⟨batch, hread⟩ := hs'
    rw [setWorker_self] at hread
    cases hread
  | read pid' =>
    rcases step_read hstep with ⟨-, rfl⟩ | ⟨hw, rfl⟩
    · obtain rfl := hother rfl hs'
      obtain ⟨batch, hread⟩ := hs'
      rw [drainPending, setWorker_self] at hread
      refine ConsumerGroup.not_pendingFor_of_readPending (g := s.group)
        (show 0 < READ_COUNT by decide) (List.isEmpty_iff.mp ?_)
      simpa using congrArg (Option.map Worker.draining) hread
    · obtain rfl := hother (t := { s with group := _ }) rfl hs'
      exact absurd ⟨[], hw⟩ hs
  | handle pid' acked =>
    obtain ⟨draining, m, rest, hw, rfl⟩ := step_handle hstep
    obtain rfl := hother (t := { s with group := _ }) rfl hs'
    obtain ⟨batch, hread⟩ := hs'
    rw [setWorker_self] at hread
    cases hread
    exact absurd ⟨_, hw⟩ hs
  | stop pid' =>
    rw [step_stop hstep] at hs'
    obtain rfl := hother rfl hs'
    obtain ⟨batch, hread⟩ := hs'
    rw [setWorker_self] at hread
    cases hread

/-- A process that runs was started. -/
theorem started (hstep : step c s a = some s') (hs : ¬ s.Alive pid) (hs' : s'.Alive pid) :
    a = .start pid := by
  have hnone : s.workers pid = none := not_not.mp hs
  have hne : ∀ {pid' : ℕ} {w : Worker μ}, s.workers pid' = some w → pid ≠ pid' := by
    rintro pid' w hw rfl
    rw [hnone] at hw
    cases hw
  cases a with
  | publish m =>
    cases hstep
    exact absurd hs' hs
  | start pid' =>
    obtain ⟨-, rfl⟩ := step_start hstep
    by_contra hother
    rw [Alive, setWorker_of_ne fun hpid => hother (by rw [hpid])] at hs'
    exact hs' hnone
  | read pid' =>
    rcases step_read hstep with ⟨hw, rfl⟩ | ⟨hw, rfl⟩
    · rw [Alive, drainPending, setWorker_of_ne (hne hw)] at hs'
      exact absurd hnone hs'
    · rw [Alive, StreamWorkers.readNew, setWorker_of_ne (hne hw)] at hs'
      exact absurd hnone hs'
  | handle pid' acked =>
    obtain ⟨draining, m, rest, hw, rfl⟩ := step_handle hstep
    rw [Alive, setWorker_of_ne (hne hw)] at hs'
    exact absurd hnone hs'
  | stop pid' =>
    rw [step_stop hstep] at hs'
    by_cases hpid : pid = pid'
    · subst hpid
      exact absurd (setWorker_self _) hs'
    · rw [Alive, setWorker_of_ne hpid] at hs'
      exact absurd hnone hs'

theorem Reading.alive (h : s.Reading pid) : s.Alive pid := by
  obtain ⟨batch, hw⟩ := h
  rw [Alive, hw]
  exact Option.some_ne_none _

theorem stopped (hstep : step c s (.stop pid) = some s') : ¬ s'.Alive pid := by
  rw [step_stop hstep]
  exact not_not.mpr (setWorker_self _)

/-- A reader that finds nothing new stays as it is. -/
theorem read_idle (hw : s.workers pid = some ⟨false, []⟩) (hwait : s.group.waiting = []) :
    step c s (.read pid) = some s := by
  have hread : s.group.readNew (c.name pid) READ_COUNT = ([], s.group) := by
    obtain ⟨⟨nextId, waiting, pending⟩, workers⟩ := s
    obtain rfl : waiting = [] := hwait
    simp [ConsumerGroup.readNew]
  simp only [step, hw, StreamWorkers.readNew, hread, setWorker]
  rw [← hw, Function.update_eq_self]

end StreamWorkers

/-! ## Over restarts -/

open StreamWorkers

variable {c : StreamConsumer} (e : Execution (step c) ({} : StreamWorkers μ)) {n pid id : ℕ}

/-- After the moment `n` some process starts and later handles the message. -/
def HandledAgain (n id : ℕ) : Prop :=
  ∃ pid k j acked, n < k ∧ k < j ∧ e.act k = .start pid ∧ e.act j = .handle pid acked ∧
    (e.state j).NextIs pid id

/-- After the moment `n` a process with this pid gets through its drain. -/
def Resumes (n pid : ℕ) : Prop := ∃ m, n < m ∧ (e.state m).Reading pid

theorem invariant_always (n : ℕ) : Invariant c (e.state n) :=
  e.invariant (Invariant c) .initial (fun _ _ _ h hstep => h.step hstep) n

/-- A process that runs after it was stopped was started in between. -/
theorem started_after_stop (hstop : e.act n = .stop pid) {m : ℕ} (hnm : n < m)
    (halive : (e.state m).Alive pid) : ∃ k, n < k ∧ k < m ∧ e.act k = .start pid := by
  have hgone : ¬ (e.state (n + 1)).Alive pid := stopped (hstop ▸ e.next n)
  obtain ⟨k, hnk, hkm, hbefore, hafter⟩ := e.changes (fun s => s.Alive pid) hnm hgone halive
  exact ⟨k, hnk, hkm, started (e.next k) hbefore hafter⟩

/-- An entry that is no longer pending for the stopped consumer was handled by it in the
meantime. -/
theorem handled_after_stop (hstop : e.act n = .stop pid)
    (hpending : (e.state n).group.PendingFor (c.name pid) id) {m : ℕ} (hnm : n < m)
    (hdone : ¬ (e.state m).group.PendingFor (c.name pid) id) :
    ∃ k j, n < k ∧ k < j ∧ j < m ∧ e.act k = .start pid ∧ e.act j = .handle pid true ∧
      (e.state j).NextIs pid id := by
  have hstill : (e.state (n + 1)).group.PendingFor (c.name pid) id := by
    have hstep := e.next n
    rw [hstop] at hstep
    rw [step_stop hstep]
    exact hpending
  obtain ⟨j, hnj, hjm, hbefore, hafter⟩ :=
    e.changes (fun s => ¬ s.group.PendingFor (c.name pid) id) hnm (not_not.mpr hstill) hdone
  obtain ⟨hact, hnext⟩ :=
    (pending_until_handled (invariant_always e j) (e.next j)
      (not_not.mp hbefore)).resolve_left hafter
  obtain ⟨k, hnk, hkj, hstart⟩ := started_after_stop e hstop hnj hnext.alive
  exact ⟨k, j, hnk, hkj, hjm, hstart, hact, hnext⟩

/-- **Recovery follows the pid**: an unacknowledged message is handled again once a process with the
pid of the stopped one has drained, and it is handled again only if that pid is started again. -/
theorem pending_recovered (hstop : e.act n = .stop pid)
    (hpending : (e.state n).group.PendingFor (c.name pid) id) :
    (Resumes e n pid → HandledAgain e n id) ∧
      (HandledAgain e n id → ∃ k, n < k ∧ e.act k = .start pid) := by
  constructor
  · rintro ⟨m, hnm, hreading⟩
    have hgone : ¬ (e.state (n + 1)).Reading pid :=
      fun h => stopped (hstop ▸ e.next n) h.alive
    obtain ⟨i, hni, -, hbefore, hafter⟩ := e.changes (fun s => s.Reading pid) hnm hgone hreading
    obtain ⟨k, j, hnk, hkj, -, hstart, hact, hnext⟩ := handled_after_stop e hstop hpending
      (Nat.lt_succ_of_lt hni) (drained (e.next i) hbefore hafter)
    exact ⟨pid, k, j, true, hnk, hkj, hstart, hact, hnext⟩
  · rintro ⟨pid', k, j, acked, hnk, hkj, -, -, hnext⟩
    have hnj : n < j := hnk.trans hkj
    by_cases hdone : (e.state j).group.PendingFor (c.name pid) id
    · obtain ⟨draining, m, rest, hw⟩ := hnext
      have hown := (invariant_always e j).own pid' _ hw _ (List.mem_cons_self ..)
      obtain rfl : pid = pid' := StreamConsumer.name_inj.mp (hown.owner _ hdone)
      obtain ⟨i, hni, -, hstart⟩ :=
        started_after_stop e hstop hnj (NextIs.alive ⟨draining, m, rest, hw⟩)
      exact ⟨i, hni, hstart⟩
    · obtain ⟨i, -, hni, -, -, hstart, -⟩ := handled_after_stop e hstop hpending hnj hdone
      exact ⟨i, hni, hstart⟩

/-! A message is read by process `1`, which stops before it handles it. -/

/-- Process `1` is started again, drains and goes on reading. -/
def restartExecution : Execution (step consumeBracketExits) ({} : StreamWorkers Unit) :=
  .cons (.publish ()) rfl <| .cons (.start 1) rfl <| .cons (.read 1) rfl <| .cons (.read 1) rfl <|
    .cons (.stop 1) rfl <| .cons (.start 1) rfl <| .cons (.read 1) rfl <|
    .cons (.handle 1 true) rfl <| .cons (.read 1) rfl <| .stay (.read 1) (read_idle rfl rfl)

/-- Process `2` is started instead, drains and goes on reading. -/
def newPidExecution : Execution (step consumeBracketExits) ({} : StreamWorkers Unit) :=
  .cons (.publish ()) rfl <| .cons (.start 1) rfl <| .cons (.read 1) rfl <| .cons (.read 1) rfl <|
    .cons (.stop 1) rfl <| .cons (.start 2) rfl <| .cons (.read 2) rfl <|
    .stay (.read 2) (read_idle rfl rfl)

theorem pending_recovered_restart : HandledAgain restartExecution 4 0 :=
  (pending_recovered restartExecution rfl ⟨_, List.mem_cons_self .., rfl, rfl⟩).1
    ⟨9, show 4 < 9 by decide, [], rfl⟩

/-- After a restart with a new pid the message is pending for a name that nobody has. -/
theorem restart_with_new_pid :
    ¬ ∀ (e : Execution (step consumeBracketExits) ({} : StreamWorkers Unit))
    (n pid id : ℕ), e.act n = .stop pid →
    (e.state n).group.PendingFor (consumeBracketExits.name pid) id → HandledAgain e n id := by
  intro hall
  obtain ⟨pid, k, j, acked, hk, hkj, -, hact, -⟩ :=
    hall newPidExecution 4 1 0 rfl ⟨_, List.mem_cons_self .., rfl, rfl⟩
  obtain ⟨i, rfl⟩ : ∃ i, j = 6 + i := ⟨j - 6, by omega⟩
  rw [Nat.add_comm] at hact
  cases i with
  | zero => cases hact
  | succ i => cases hact

end

end PolyArena
