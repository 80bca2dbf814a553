import PolyArena.WsFeedService.OrderbookKeys

/-!
# The dedup cache of the writer

`update_orderbook` remembers the book that it is about to write, and returns early while the same
book comes again.  A write is a pipeline that is executed some time later, up to three times; other
calls go on in the meantime.

1. `RedisCommand.run` is what a command does to the orderbook keys; `run_writeCommands` and
   `run_frame` are a pipeline.
2. `retryPipe` is `_retry_pipe`; `retryPipe_true_iff` says when `True` means that everything was
   executed.
3. `DedupState.step` lets calls and executions take turns; `DedupInv` says that a remembered book is
under all keys of its token or still to be written there, and `dedupInv_step` is the step lemma
under the guard `KeepsCoherent`.
4. `dedup_coherent` puts the three parts together.
-/

namespace PolyArena

def RETRY_ATTEMPTS : ℕ := 3

/-! ## Orderbook keys in Redis -/

/-- `ob_mapping`. -/
structure BookFields where
  bids : List (ℚ × ℚ)
  asks : List (ℚ × ℚ)
  updatedAt : Time

/-- A hash with its expiry, `none` for a key without one. -/
structure ExpiringBook where
  fields : BookFields
  expireAt : Option Time

/-- `orderbook:*` in Redis, with the entries that are past their expiry. -/
abbrev BookStore := OrderbookKey → Option ExpiringBook

/-- The entry of a key that is not past its expiry. -/
def BookStore.live (redis : BookStore) (now : Time) (key : OrderbookKey) : Option ExpiringBook :=
  (redis key).filter fun e => e.expireAt.all fun t => now < t

/-- The book under a key. -/
def BookStore.book (redis : BookStore) (now : Time) (key : OrderbookKey) :
    Option (List (ℚ × ℚ) × List (ℚ × ℚ)) :=
  (redis.live now key).map fun e => (e.fields.bids, e.fields.asks)

inductive RedisCommand
  | hset (key : OrderbookKey) (fields : BookFields)
  | expire (key : OrderbookKey)
  | delete (key : OrderbookKey)
  /-- a price key, which is not an orderbook key -/
  | deletePrice (combo : Combo)

/-- The orderbook key that the command is for. -/
def RedisCommand.key : RedisCommand → Option OrderbookKey
  | .hset key _ => some key
  | .expire key => some key
  | .delete key => some key
  | .deletePrice _ => none

/-- A command at `now`.  `HSET` leaves the expiry, and `EXPIRE` is for keys that exist. -/
def RedisCommand.run (now : Time) (redis : BookStore) : RedisCommand → BookStore
  | .hset key fields =>
    Function.update redis key (some ⟨fields, (redis.live now key).bind ExpiringBook.expireAt⟩)
  | .expire key =>
    match redis.live now key with
    | none => redis
    | some e =>
      Function.update redis key (some { e with expireAt := some (now + PRICE_CACHE_TTL_S) })
  | .delete key => Function.update redis key none
  | .deletePrice _ => redis

/-- The pipeline of `update_orderbook`. -/
def writeCommands (keys : List OrderbookKey) (fields : BookFields) : List RedisCommand :=
  keys.flatMap fun key => [.hset key fields, .expire key]

/-- The pipeline of `clear_price_keys`. -/
def clearCommands (combos : List Combo) : List RedisCommand :=
  combos.flatMap fun combo => [.deletePrice combo, .delete ⟨combo, none⟩]

section

variable {redis : BookStore} {now t : Time} {key key' : OrderbookKey} {fields : BookFields}
  {e : ExpiringBook} {commands : List RedisCommand} {keys : List OrderbookKey} {combos : List Combo}

theorem run_ne {command : RedisCommand} (h : command.key ≠ some key) :
    (command.run now redis) key = redis key := by
  have hne : ∀ key', some key' ≠ some key → key ≠ key' :=
    fun key' h heq => h (congrArg some heq.symm)
  cases command with
  | hset key' fields => exact Function.update_of_ne (hne key' h) ..
  | expire key' =>
    show (match redis.live now key' with
      | none => redis
      | some e => Function.update redis key'
          (some { e with expireAt := some (now + PRICE_CACHE_TTL_S) })) key = _
    cases redis.live now key' with
    | none => rfl
    | some e => exact Function.update_of_ne (hne key' h) ..
  | delete key' => exact Function.update_of_ne (hne key' h) ..
  | deletePrice combo => rfl

/-- Commands for other keys leave a key as it is. -/
theorem run_frame (h : ∀ command ∈ commands, command.key ≠ some key) :
    (commands.foldl (RedisCommand.run now) redis) key = redis key :=
  List.foldlRecOn (motive := fun r : BookStore => r key = redis key) _ _ rfl
    fun _ hr command hmem => (run_ne (h command hmem)).trans hr

/-- `HSET` and `EXPIRE` together. -/
theorem run_hset_expire (now : Time) (redis : BookStore) (key : OrderbookKey)
    (fields : BookFields) :
    (RedisCommand.run now (RedisCommand.run now redis (.hset key fields)) (.expire key)) key =
      some ⟨fields, some (now + PRICE_CACHE_TTL_S)⟩ := by
  have hset : (RedisCommand.run now redis (.hset key fields)) key =
      some ⟨fields, (redis.live now key).bind ExpiringBook.expireAt⟩ := Function.update_self ..
  have hlive : BookStore.live (RedisCommand.run now redis (.hset key fields)) now key =
      some ⟨fields, (redis.live now key).bind ExpiringBook.expireAt⟩ := by
    rw [BookStore.live, hset, Option.filter_some, if_pos]
    -- the expiry is that of a live entry
    cases hbefore : redis.live now key with
    | none => rfl
    | some e => exact (Option.filter_eq_some_iff.mp hbefore).2
  rw [RedisCommand.run.eq_def]
  dsimp only
  rw [hlive]
  exact Function.update_self ..

/-- The keys of a write are all of the write's commands. -/
theorem key_of_mem_writeCommands {command : RedisCommand}
    (h : command ∈ writeCommands keys fields) :
    ∃ key ∈ keys, command.key = some key := by
  obtain ⟨key, hkey, hmem⟩ := List.mem_flatMap.mp h
  refine ⟨key, hkey, ?_⟩
  rcases List.mem_pair.mp hmem with rfl | rfl <;> rfl

/-- **A write** that is executed leaves the book under all of its keys, for as long as they live. -/
theorem run_writeCommands (now : Time) (redis : BookStore) (fields : BookFields) (h : key ∈ keys) :
    ((writeCommands keys fields).foldl (RedisCommand.run now) redis) key =
      some ⟨fields, some (now + PRICE_CACHE_TTL_S)⟩ := by
  induction keys generalizing redis with
  | nil => exact absurd h List.not_mem_nil
  | cons key' keys ih =>
    rw [show writeCommands (key' :: keys) fields =
      [.hset key' fields, .expire key'] ++ writeCommands keys fields from
      rfl, List.foldl_append]
    by_cases hmem : key ∈ keys
    · exact ih _ hmem
    · obtain rfl := (List.mem_cons.mp h).resolve_right hmem
      rw [run_frame]
      · exact run_hset_expire now redis key fields
      · intro command hcommand heq
        obtain ⟨key', hkey', hkey⟩ := key_of_mem_writeCommands hcommand
        exact hmem (Option.some.inj (heq.symm.trans hkey) ▸ hkey')

theorem mem_clearCommands {command : RedisCommand} (h : command ∈ clearCommands combos)
    (hkey : command.key = some key) : command = .delete key ∧ ∃ combo ∈ combos,
      key = ⟨combo, none⟩ := by
  obtain ⟨combo, hcombo, hmem⟩ := List.mem_flatMap.mp h
  rcases List.mem_pair.mp hmem with rfl | rfl
  · cases hkey
  · cases hkey
    exact ⟨rfl, combo, hcombo, rfl⟩

end

/-! ## Pipelines and their retries -/

/-- What an `execute` comes to: it returns, or raises when some of the commands were executed. -/
inductive PipeOutcome
  | returned
  | raised (done : List Bool)

/-- The commands that were executed. -/
def PipeOutcome.performed (queue : List RedisCommand) : PipeOutcome → List RedisCommand
  | .returned => queue
  | .raised done => ((queue.zip done).filter Prod.snd).map Prod.fst

/-- One attempt of `_retry_pipe` with `attempts` left: its result, or `none` for another attempt. -/
def retryAttempt (attempts : ℕ) : PipeOutcome → Option Bool
  | .returned => some true
  | .raised _ => if attempts ≤ 1 then some false else none

/-- `_retry_pipe`: the commands that were executed, and the result.  `execute` clears the queue even
when it raises. -/
def retryPipe : ℕ → List RedisCommand → (ℕ → PipeOutcome) → List RedisCommand × Bool
  | 0, _, _ => ([], false)
  | attempts + 1, queue, outcome =>
    match retryAttempt (attempts + 1) (outcome 0) with
    | some result => ((outcome 0).performed queue, result)
    | none =>
      let rest := retryPipe attempts [] fun i => outcome (i + 1)
      ((outcome 0).performed queue ++ rest.1, rest.2)

@[simp] theorem performed_nil (outcome : PipeOutcome) : outcome.performed [] = [] := by
  cases outcome <;> rfl

/-- Only the first attempt has commands to execute. -/
theorem retryPipe_performed (attempts : ℕ) (queue : List RedisCommand) (outcome : ℕ → PipeOutcome) :
    (retryPipe (attempts + 1) queue outcome).1 = (outcome 0).performed queue := by
  induction attempts generalizing queue outcome with
  | zero =>
    unfold retryPipe
    cases retryAttempt (0 + 1) (outcome 0) with
    | none => exact List.append_nil _
    | some result => rfl
  | succ attempts ih =>
    rw [retryPipe]
    cases retryAttempt (attempts + 1 + 1) (outcome 0) with
    | none =>
      dsimp only
      rw [ih, performed_nil, List.append_nil]
    | some result => rfl

/-- The result is `True` when some attempt returns. -/
theorem retryPipe_result (attempts : ℕ) (queue : List RedisCommand) (outcome : ℕ → PipeOutcome) :
    (retryPipe attempts queue outcome).2 = true ↔ ∃ i < attempts, outcome i = .returned := by
  induction attempts generalizing queue outcome with
  | zero => simp [retryPipe]
  | succ attempts ih =>
    rw [retryPipe]
    cases hfirst : outcome 0 with
    | returned => exact iff_of_true rfl ⟨0, attempts.succ_pos, hfirst⟩
    | raised done =>
      have hlater : (∃ i < attempts + 1, outcome i = .returned) ↔
          ∃ i < attempts, outcome (i + 1) = .returned := by
        constructor
        · rintro ⟨i, hi, hreturned⟩
          cases i with
          | zero => exact nomatch hfirst.symm.trans hreturned
          | succ i => exact ⟨i, Nat.lt_of_succ_lt_succ hi, hreturned⟩
        · rintro ⟨i, hi, hreturned⟩
          exact ⟨i + 1, Nat.succ_lt_succ hi, hreturned⟩
      rw [hlater]
      unfold retryAttempt
      by_cases hlast : attempts + 1 ≤ 1
      · obtain rfl : attempts = 0 := by omega
        simp
      · rw [if_neg hlast]
        exact ih [] _

/-- **`_retry_pipe` says `True` only if everything was executed**, exactly when the first attempt
executes everything, or no attempt returns. -/
theorem retryPipe_true_iff (attempts : ℕ) (queue : List RedisCommand) (outcome : ℕ → PipeOutcome) :
    ((retryPipe (attempts + 1) queue outcome).2 = true →
      (retryPipe (attempts + 1) queue outcome).1 = queue) ↔
      (outcome 0).performed queue = queue ∨ ∀ i < attempts + 1, outcome i ≠ .returned := by
  rw [retryPipe_performed, retryPipe_result]
  by_cases hall : (outcome 0).performed queue = queue
  · exact iff_of_true (fun _ => hall) (.inl hall)
  · constructor
    · exact fun h => .inr fun i hi hreturned => hall (h ⟨i, hi, hreturned⟩)
    · rintro h ⟨i, hi, hreturned⟩
      exact absurd hreturned (h.resolve_left hall i hi)

/-! ## The writer and its pipelines -/

/-- Who waits for the pipeline: `update_orderbook` with the attempts that are left, or
`clear_price_keys`. -/
inductive WriterCall
  | update (attempts : ℕ)
  | clear (combos : List Combo)

structure Pipe where
  queue : List RedisCommand
  call : WriterCall

/-- The loop over the combos at the end of `clear_price_keys`: a combo is one token's. -/
def RedisWriter.forget (w : RedisWriter) (combos : List Combo) : RedisWriter :=
  { w with
    lastOb := fun token =>
      if ∃ c ∈ w.tokenMap token, c ∈ combos then none else w.lastOb token }

/-- `_last_ob_json` and `_last_ob_write_ts` are set before the write. -/
def RedisWriter.remember (w : RedisWriter) (token : String) (depth : Depth) (now : Time) :
    RedisWriter :=
  { w with lastOb := Function.update w.lastOb token (some (depth.bids, depth.askPairs, now)) }

/-- The writer, the orderbook keys and the pipelines that are being executed. -/
structure DedupState where
  writer : RedisWriter := {}
  redis : BookStore := fun _ => none
  inFlight : List Pipe := []
  now : Time := 0

inductive DedupAction
  | wait (dt : Time)
  /-- `update_orderbook`, up to its first `execute` -/
  | update (token : String) (depth : Depth)
  | register (r : TokenRegistry)
  | registerSession (r : TokenRegistry) (now : ℤ)
  /-- `clear_price_keys`, up to its `execute` -/
  | clear (combos : List Combo)
  /-- an `execute` of the pipeline comes to its end -/
  | execute (i : ℕ) (outcome : PipeOutcome)

namespace DedupState

/-- What `update_orderbook` does before its first `execute`. -/
def update (s : DedupState) (token : String) (depth : Depth) : DedupState :=
  if s.writer.keys token = [] ∨ s.writer.skips token depth s.now then s
  else
    { s with
      writer := s.writer.remember token depth s.now
      inFlight := s.inFlight ++
        [⟨writeCommands (s.writer.keys token) ⟨depth.bids, depth.askPairs, s.now⟩,
          .update RETRY_ATTEMPTS⟩] }

/-- The end of an `execute`, and what its caller does next. -/
def execute (s : DedupState) (i : ℕ) (p : Pipe) (outcome : PipeOutcome) : DedupState :=
  let s := { s with
    redis := (outcome.performed p.queue).foldl (RedisCommand.run s.now) s.redis
    inFlight := s.inFlight.eraseIdx i }
  match p.call, outcome with
  | .clear combos, .returned => { s with writer := s.writer.forget combos }
  | .clear _, .raised _ => s
  | .update attempts, outcome =>
    match retryAttempt attempts outcome with
    | some _ => s
    | none => { s with inFlight := s.inFlight ++ [⟨[], .update (attempts - 1)⟩] }

def step (s : DedupState) : DedupAction → Option DedupState
  | .wait dt => if 0 ≤ dt then some { s with now := s.now + dt } else none
  | .update token depth => some (s.update token depth)
  | .register r => some { s with writer := s.writer.registerTokenMapping r }
  | .registerSession r now => some { s with writer := s.writer.registerSessionTokens r now }
  | .clear combos =>
    some (if combos = [] then s else { s with
      inFlight := s.inFlight ++ [⟨clearCommands combos, .clear combos⟩] })
  | .execute i outcome => (s.inFlight[i]?).map fun p => s.execute i p outcome

end DedupState

/-! ## The guard -/

/-- The keys that the pipeline is still to write. -/
def Pipe.writeKeys (p : Pipe) : List OrderbookKey := p.queue.filterMap fun command =>
  match command with
  | .hset key _ => some key
  | _ => none

/-- No token has a remembered book. -/
def RedisWriter.Forgets (w : RedisWriter) : Prop := ∀ token, w.lastOb token = none

/-- A session key belongs to one token. -/
def RedisWriter.SessionsApart (w : RedisWriter) : Prop :=
  ∀ token token' p, p ∈ w.sessionTokenMap token → p ∈ w.sessionTokenMap token' → token = token'

/-- An `execute` that raises has done no harm: a write is complete and will be tried again, and a
clear has deleted no key of a token with a remembered book. -/
def Harmless (w : RedisWriter) (p : Pipe) (outcome : PipeOutcome) : Prop :=
  match p.call with
  | .update attempts => outcome.performed p.queue = p.queue ∧ 1 < attempts
  | .clear _ => ∀ token, w.lastOb token ≠ none → ∀ key ∈ w.keys token,
      ∀ command ∈ outcome.performed p.queue, command.key ≠ some key

/-- `update_orderbook` starts when no pipeline is still to write a key of its token, executions that
raise are harmless, and session tokens are registered right after the token mapping, with keys of
their own. -/
def KeepsCoherent (s : DedupState) : DedupAction → Prop
  | .update token _ => ∀ p ∈ s.inFlight, ∀ key ∈ p.writeKeys, key ∉ s.writer.keys token
  | .registerSession r now =>
    s.writer.Forgets ∧ (s.writer.registerSessionTokens r now).SessionsApart
  | .execute i (.raised done) => ∀ p ∈ s.inFlight[i]?, Harmless s.writer p (.raised done)
  | _ => True

/-! ## The invariant -/

/-- The key is under the book, for as long as a book written at `t` lives. -/
def Holds (redis : BookStore) (key : OrderbookKey) (bids asks : List (ℚ × ℚ)) (t : Time) : Prop :=
  ∃ e, redis key = some e ∧ e.fields.bids = bids ∧ e.fields.asks = asks ∧
    ∀ x ∈ e.expireAt, t + PRICE_CACHE_TTL_S ≤ x

/-- The queue is a whole write, empty after its first attempt, or a clear. -/
inductive Pipe.Formed : Pipe → Prop
  | write (keys : List OrderbookKey) (fields : BookFields) (attempts : ℕ) :
      Pipe.Formed ⟨writeCommands keys fields, .update attempts⟩
  | again (attempts : ℕ) : Pipe.Formed ⟨[], .update attempts⟩
  | clear (combos : List Combo) : Pipe.Formed ⟨clearCommands combos, .clear combos⟩

/-- The pipeline writes this book, under every key that it writes. -/
def Pipe.WritesBook (p : Pipe) (bids asks : List (ℚ × ℚ)) : Prop :=
  ∀ key fields, RedisCommand.hset key fields ∈ p.queue → fields.bids = bids ∧ fields.asks = asks

structure DedupInv (s : DedupState) : Prop where
  /-- a key belongs to one token -/
  apart : ∀ token token' key, key ∈ s.writer.keys token → key ∈ s.writer.keys token' →
    token = token'
  formed : ∀ p ∈ s.inFlight, p.Formed
  past : ∀ token bids asks t, s.writer.lastOb token = some (bids, asks, t) → t ≤ s.now
  /-- a remembered book is under the keys of its token, or on its way -/
  held : ∀ token bids asks t, s.writer.lastOb token = some (bids, asks, t) →
    ∀ key ∈ s.writer.keys token,
    (∃ p ∈ s.inFlight, key ∈ p.writeKeys) ∨ Holds s.redis key bids asks t
  /-- what is on its way to a key of a token with a remembered book is that book -/
  own : ∀ token bids asks t, s.writer.lastOb token = some (bids, asks, t) → ∀ p ∈ s.inFlight,
    ∀ key ∈ p.writeKeys, key ∈ s.writer.keys token → p.WritesBook bids asks

section

variable {s s' : DedupState} {a : DedupAction} {p : Pipe} {token token' : String}
  {key : OrderbookKey} {keys : List OrderbookKey} {fields : BookFields} {bids asks : List (ℚ × ℚ)}
  {t now : Time} {w w' : RedisWriter} {r : TokenRegistry} {depth : Depth} {c : Combo}
  {combos : List Combo}

theorem mem_writeKeys : key ∈ p.writeKeys ↔ ∃ fields, RedisCommand.hset key fields ∈ p.queue := by
  unfold Pipe.writeKeys
  rw [List.mem_filterMap]
  constructor
  · rintro ⟨command, hmem, hkey⟩
    cases command with
    | hset key' fields =>
      cases hkey
      exact ⟨fields, hmem⟩
    | _ => cases hkey
  · rintro ⟨fields, hmem⟩
    exact ⟨_, hmem, rfl⟩

theorem hset_mem_writeCommands {fields' : BookFields} :
    RedisCommand.hset key fields' ∈ writeCommands keys fields ↔ key ∈ keys ∧ fields' = fields := by
  unfold writeCommands
  simp only [List.mem_flatMap, List.mem_pair, RedisCommand.hset.injEq, reduceCtorEq, or_false]
  constructor
  · rintro ⟨key', hmem, rfl, rfl⟩
    exact ⟨hmem, rfl⟩
  · rintro ⟨hmem, rfl⟩
    exact ⟨key, hmem, rfl, rfl⟩

theorem writeKeys_write {attempts : ℕ} :
    key ∈ Pipe.writeKeys ⟨writeCommands keys fields, .update attempts⟩ ↔ key ∈ keys := by
  rw [mem_writeKeys]
  exact ⟨fun ⟨_, h⟩ => (hset_mem_writeCommands.mp h).1,
    fun h => ⟨fields, hset_mem_writeCommands.mpr ⟨h, rfl⟩⟩⟩

theorem not_mem_writeKeys_clear : key ∉ Pipe.writeKeys ⟨clearCommands combos, .clear combos⟩ := by
  rw [mem_writeKeys]
  rintro ⟨fields, hmem⟩
  cases (mem_clearCommands hmem rfl).1

theorem mem_keys : key ∈ w.keys token ↔
    (∃ q ∈ w.sessionTokenMap token, key = ⟨q.1, some q.2⟩) ∨ ∃ c ∈ w.tokenMap token,
      key = ⟨c, none⟩ := by
  unfold RedisWriter.keys
  simp only [List.mem_append, List.mem_map, eq_comm]

theorem legacy_mem_keys : (⟨c, none⟩ : OrderbookKey) ∈ w.keys token ↔ c ∈ w.tokenMap token := by
  rw [mem_keys]
  constructor
  · rintro (⟨q, -, heq⟩ | ⟨c', hc', heq⟩)
    · cases heq
    · cases heq
      exact hc'
  · exact fun h => .inr ⟨c, h, rfl⟩

theorem session_mem_keys {ts : ℤ} : (⟨c, some ts⟩ : OrderbookKey) ∈ w.keys token ↔
    (c, ts) ∈ w.sessionTokenMap token := by
  rw [mem_keys]
  constructor
  · rintro (⟨q, hq, heq⟩ | ⟨c', -, heq⟩)
    · cases heq
      exact hq
    · cases heq
  · exact fun h => .inl ⟨(c, ts), h, rfl⟩

/-- Keys are apart when session keys are and every combo is one token's. -/
theorem apart_keys (hsessions : w.SessionsApart)
    (hcombos : ∀ token token' c, c ∈ w.tokenMap token → c ∈ w.tokenMap token' → token = token')
    (h : key ∈ w.keys token) (h' : key ∈ w.keys token') : token = token' := by
  obtain ⟨c, ts⟩ := key
  cases ts with
  | none => exact hcombos token token' c (legacy_mem_keys.mp h) (legacy_mem_keys.mp h')
  | some ts => exact hsessions token token' (c, ts) (session_mem_keys.mp h) (session_mem_keys.mp h')

theorem mem_registerTokenMapping (h : c ∈ (w.registerTokenMapping r).tokenMap token) :
    r.mapping c = some token := by
  simp only [RedisWriter.registerTokenMapping, List.mem_flatMap, List.bind_eq_flatMap] at h
  obtain ⟨symbol, -, timeframe, -, direction, -, hmem⟩ := h
  split_ifs at hmem with hc
  · rw [List.mem_singleton.mp hmem]
    exact hc
  · cases hmem

theorem dedupInv_start : DedupInv {} where
  apart := fun _ _ _ h => absurd h List.not_mem_nil
  formed := fun _ h => absurd h List.not_mem_nil
  past := fun _ _ _ _ h => nomatch h
  held := fun _ _ _ _ h => nomatch h
  own := fun _ _ _ _ h => nomatch h

/-- What a step keeps when it makes no token remember a book and starts no write. -/
theorem DedupInv.moved (h : DedupInv s)
    (hkeys : ∀ token, s'.writer.keys token = s.writer.keys token)
    (hlast : ∀ token b, s'.writer.lastOb token = some b → s.writer.lastOb token = some b)
    (hnow : s.now ≤ s'.now) (hformed : ∀ p ∈ s'.inFlight, p.Formed)
    (hflight : ∀ p ∈ s'.inFlight, ∀ key ∈ p.writeKeys, p ∈ s.inFlight)
    (hheld : ∀ token bids asks t, s'.writer.lastOb token = some (bids, asks, t) →
      ∀ key ∈ s.writer.keys token,
      (∃ p ∈ s.inFlight, key ∈ p.writeKeys) ∨ Holds s.redis key bids asks t →
      (∃ p ∈ s'.inFlight, key ∈ p.writeKeys) ∨ Holds s'.redis key bids asks t) :
    DedupInv s' where
  apart := fun token token' key hkey hkey' =>
    h.apart token token' key (hkeys token ▸ hkey) (hkeys token' ▸ hkey')
  formed := hformed
  past := fun token bids asks t hb => (h.past token bids asks t (hlast _ _ hb)).trans hnow
  held := fun token bids asks t hb key hkey =>
    hheld token bids asks t hb key (hkeys token ▸ hkey)
      (h.held token bids asks t (hlast _ _ hb) key (hkeys token ▸ hkey))
  own := fun token bids asks t hb p hp key hkey hmem =>
    h.own token bids asks t (hlast _ _ hb) p (hflight p hp key hkey) key hkey (hkeys token ▸ hmem)

/-- The synchronous part of `update_orderbook`. -/
theorem DedupInv.update (h : DedupInv s)
    (hfree : ∀ p ∈ s.inFlight, ∀ key ∈ p.writeKeys, key ∉ s.writer.keys token) :
    DedupInv (s.update token depth) := by
  unfold DedupState.update
  split
  · exact h
  have hcases : ∀ token' b, (s.writer.remember token depth s.now).lastOb token' = some b →
      token' = token ∧ b = (depth.bids, depth.askPairs, s.now) ∨
        token' ≠ token ∧ s.writer.lastOb token' = some b := by
    intro token' b hb
    replace hb : Function.update s.writer.lastOb token _ token' = some b := hb
    rw [Function.update_apply] at hb
    split_ifs at hb with heq
    · exact .inl ⟨heq, (Option.some.inj hb).symm⟩
    · exact .inr ⟨heq, hb⟩
  refine ⟨h.apart, ?_, ?_, ?_, ?_⟩
  · intro p hp
    rcases List.mem_append.mp hp with hp | hp
    · exact h.formed p hp
    · obtain rfl := List.mem_singleton.mp hp
      exact .write ..
  · intro token' bids asks t hb
    rcases hcases token' _ hb with ⟨-, heq⟩ | ⟨-, hb⟩
    · cases heq
      exact le_rfl
    · exact h.past token' bids asks t hb
  · intro token' bids asks t hb key hkey
    rcases hcases token' _ hb with ⟨rfl, -⟩ | ⟨-, hb⟩
    · exact .inl ⟨_, List.mem_append_right _ (List.mem_singleton_self _), writeKeys_write.mpr hkey⟩
    · refine (h.held token' bids asks t hb key hkey).imp_left ?_
      rintro ⟨p, hp, hmem⟩
      exact ⟨p, List.mem_append_left _ hp, hmem⟩
  · intro token' bids asks t hb p hp key hmem hkey
    rcases List.mem_append.mp hp with hold | hnew
    · rcases hcases token' _ hb with ⟨rfl, -⟩ | ⟨-, hb⟩
      · exact absurd hkey (hfree p hold key hmem)
      · exact h.own token' bids asks t hb p hold key hmem hkey
    · obtain rfl := List.mem_singleton.mp hnew
      rcases hcases token' _ hb with ⟨-, heq⟩ | ⟨hne, -⟩
      · cases heq
        intro key' fields hset
        obtain ⟨-, rfl⟩ := hset_mem_writeCommands.mp hset
        exact ⟨rfl, rfl⟩
      · exact absurd (h.apart token' token key hkey (writeKeys_write.mp hmem)) hne

/-- A writer that remembers nothing keeps the invariant whatever its keys are. -/
theorem DedupInv.forgetful (h : DedupInv s) (hforgets : w.Forgets)
    (hapart : ∀ token token' key, key ∈ w.keys token → key ∈ w.keys token' → token = token') :
    DedupInv { s with writer := w } where
  apart := hapart
  formed := h.formed
  past := fun token _ _ _ hb => nomatch (hforgets token).symm.trans hb
  held := fun token _ _ _ hb => nomatch (hforgets token).symm.trans hb
  own := fun token _ _ _ hb => nomatch (hforgets token).symm.trans hb

theorem DedupInv.register (h : DedupInv s) (r : TokenRegistry) :
    DedupInv { s with writer := s.writer.registerTokenMapping r } := by
  refine h.forgetful (fun _ => rfl) fun token token' key hkey hkey' => apart_keys ?_ ?_ hkey hkey'
  · intro token token' q hq hq'
    exact h.apart token token' ⟨q.1, some q.2⟩ (session_mem_keys.mpr hq) (session_mem_keys.mpr hq')
  · intro token token' c hc hc'
    exact Option.some.inj ((mem_registerTokenMapping hc).symm.trans (mem_registerTokenMapping hc'))

theorem DedupInv.registerSession (h : DedupInv s) {now : ℤ} (hforgets : s.writer.Forgets)
    (hsessions : (s.writer.registerSessionTokens r now).SessionsApart) :
    DedupInv { s with writer := s.writer.registerSessionTokens r now } := by
  refine h.forgetful hforgets fun token token' key hkey hkey' => apart_keys hsessions ?_ hkey hkey'
  intro token token' c hc hc'
  exact h.apart token token' ⟨c, none⟩ (legacy_mem_keys.mpr hc) (legacy_mem_keys.mpr hc')

/-! ## Executions -/

variable {i : ℕ} {outcome : PipeOutcome} {redis : BookStore}

theorem mem_eraseIdx_of_ne {p' : Pipe} (hp : s.inFlight[i]? = some p) (h : p' ∈ s.inFlight)
    (hne : p' ≠ p) :
    p' ∈ s.inFlight.eraseIdx i := by
  obtain ⟨j, hj, rfl⟩ := List.mem_iff_getElem.mp h
  refine List.mem_eraseIdx_iff_getElem.mpr ⟨j, hj, ?_, rfl⟩
  rintro rfl
  exact hne (Option.some.inj ((List.getElem?_eq_getElem hj).symm.trans hp))

/-- An execution that touches none of the key's values leaves what is on its way and what is
there. -/
theorem held_frame (hp : s.inFlight[i]? = some p) (hnot : key ∉ p.writeKeys)
    (hframe : ∀ command ∈ outcome.performed p.queue, command.key ≠ some key)
    (h : (∃ p ∈ s.inFlight, key ∈ p.writeKeys) ∨ Holds s.redis key bids asks t) :
    (∃ p ∈ s.inFlight.eraseIdx i, key ∈ p.writeKeys) ∨
      Holds ((outcome.performed p.queue).foldl (RedisCommand.run s.now) s.redis)
        key bids asks t := by
  rcases h with ⟨p', hp', hmem⟩ | ⟨e, he, hbook⟩
  · exact .inl ⟨p', mem_eraseIdx_of_ne hp hp' (fun heq => hnot (heq ▸ hmem)), hmem⟩
  · exact .inr ⟨e, (run_frame hframe).trans he, hbook⟩

/-- A write that is executed puts a remembered book under the key, if the key is one of its own. -/
theorem held_write (h : DedupInv s) (hp : s.inFlight[i]? = some p) {attempts : ℕ}
    (hcall : p.call = .update attempts) (hall : outcome.performed p.queue = p.queue)
    (hb : s.writer.lastOb token = some (bids, asks, t)) (hkey : key ∈ s.writer.keys token)
    (hheld : (∃ p ∈ s.inFlight, key ∈ p.writeKeys) ∨ Holds s.redis key bids asks t) :
    (∃ p ∈ s.inFlight.eraseIdx i, key ∈ p.writeKeys) ∨
      Holds ((outcome.performed p.queue).foldl (RedisCommand.run s.now) s.redis)
        key bids asks t := by
  have hmem := List.mem_of_getElem? hp
  by_cases hwrites : key ∈ p.writeKeys
  · refine .inr ?_
    rw [hall]
    have hbook := h.own token bids asks t hb p hmem key hwrites hkey
    cases h.formed p hmem with
    | write keys fields attempts =>
      have hset := writeKeys_write.mp hwrites
      obtain ⟨rfl, rfl⟩ := hbook key fields (hset_mem_writeCommands.mpr ⟨hset, rfl⟩)
      refine ⟨_, run_writeCommands s.now s.redis fields hset, rfl, rfl, fun x hx => ?_⟩
      cases hx
      exact add_le_add_left (h.past token _ _ t hb) _
    | again attempts => exact absurd hwrites List.not_mem_nil
    | clear combos => cases hcall
  · refine held_frame hp hwrites ?_ hheld
    rw [hall]
    intro command hcommand hkey'
    refine hwrites ?_
    cases h.formed p hmem with
    | write keys fields attempts =>
      obtain ⟨key', hkey'', heq⟩ := key_of_mem_writeCommands hcommand
      rw [hkey', Option.some.injEq] at heq
      exact writeKeys_write.mpr (heq ▸ hkey'')
    | again attempts => cases hcommand
    | clear combos => cases hcall

/-- An execution leaves well-formed pipelines, and a new one has nothing to write. -/
theorem inFlight_execute (s : DedupState) (i : ℕ) (p : Pipe) (outcome : PipeOutcome)
    (h : ∀ p ∈ s.inFlight, p.Formed) :
    (∀ p' ∈ s.inFlight.eraseIdx i, p' ∈ (s.execute i p outcome).inFlight) ∧
      ∀ p' ∈ (s.execute i p outcome).inFlight, p'.Formed ∧ ∀ key ∈ p'.writeKeys,
        p' ∈ s.inFlight := by
  have hrest : ∀ p' ∈ s.inFlight.eraseIdx i, p'.Formed ∧ ∀ key ∈ p'.writeKeys,
      p' ∈ s.inFlight := fun p' hp' =>
    ⟨h p' (List.mem_of_mem_eraseIdx hp'), fun _ _ => List.mem_of_mem_eraseIdx hp'⟩
  unfold DedupState.execute
  cases p.call with
  | clear combos => cases outcome <;> exact ⟨fun _ hp' => hp', hrest⟩
  | update attempts =>
    dsimp only
    cases retryAttempt attempts outcome with
    | some result => exact ⟨fun _ hp' => hp', hrest⟩
    | none =>
      refine ⟨fun p' hp' => List.mem_append_left _ hp', fun p' hp' => ?_⟩
      rcases List.mem_append.mp hp' with hp' | hp'
      · exact hrest p' hp'
      · obtain rfl := List.mem_singleton.mp hp'
        exact ⟨.again _, fun _ hkey => absurd hkey List.not_mem_nil⟩

theorem redis_execute (s : DedupState) (i : ℕ) (p : Pipe) (outcome : PipeOutcome) :
    (s.execute i p outcome).redis = (outcome.performed p.queue).foldl
      (RedisCommand.run s.now) s.redis ∧
      (s.execute i p outcome).now = s.now := by
  unfold DedupState.execute
  cases p.call with
  | clear combos => cases outcome <;> exact ⟨rfl, rfl⟩
  | update attempts =>
    dsimp only
    cases retryAttempt attempts outcome <;> exact ⟨rfl, rfl⟩

/-- Only a clear that returns changes the writer. -/
theorem writer_execute (s : DedupState) (i : ℕ) (p : Pipe) (outcome : PipeOutcome) :
    (s.execute i p outcome).writer =
      match p.call, outcome with
      | .clear combos, .returned => s.writer.forget combos
      | _, _ => s.writer := by
  unfold DedupState.execute
  cases p.call with
  | clear combos => cases outcome <;> rfl
  | update attempts =>
    dsimp only
    cases retryAttempt attempts outcome <;> rfl

theorem lastOb_forget {b : List (ℚ × ℚ) × List (ℚ × ℚ) × Time} :
    (w.forget combos).lastOb token = some b ↔
      (∀ c ∈ w.tokenMap token, c ∉ combos) ∧ w.lastOb token = some b := by
  show (if ∃ c ∈ w.tokenMap token, c ∈ combos then none else w.lastOb token) = some b ↔ _
  split_ifs with h
  · exact iff_of_false nofun fun hnot => h.elim fun c hc => hnot.1 c hc.1 hc.2
  · exact ⟨fun hb => ⟨fun c hc hmem => h ⟨c, hc, hmem⟩, hb⟩, (·.2)⟩

theorem mem_performed {queue : List RedisCommand} {command : RedisCommand}
    (h : command ∈ outcome.performed queue) :
    command ∈ queue := by
  cases outcome with
  | returned => exact h
  | raised done =>
    obtain ⟨q, hq, rfl⟩ := List.mem_map.mp h
    exact (List.of_mem_zip (List.mem_of_mem_filter hq)).1

/-- **The end of an `execute`** that returns or does no harm. -/
theorem DedupInv.execute (h : DedupInv s) (hp : s.inFlight[i]? = some p)
    (hguard : outcome = .returned ∨ Harmless s.writer p outcome) :
    DedupInv (s.execute i p outcome) := by
  obtain ⟨hrest, hflight⟩ := inFlight_execute s i p outcome h.formed
  obtain ⟨hredis, hnow⟩ := redis_execute s i p outcome
  have hwriter := writer_execute s i p outcome
  have hmem := List.mem_of_getElem? hp
  cases hcall : p.call with
  | update attempts =>
    rw [hcall] at hwriter
    replace hwriter : (s.execute i p outcome).writer = s.writer := hwriter
    have hall : outcome.performed p.queue = p.queue := by
      rcases hguard with rfl | hharmless
      · rfl
      · unfold Harmless at hharmless
        rw [hcall] at hharmless
        exact hharmless.1
    refine h.moved (fun token => by rw [hwriter]) (fun token b hb => hwriter ▸ hb) hnow.ge
      (fun p' hp' => (hflight p' hp').1) (fun p' hp' => (hflight p' hp').2) ?_
    intro token bids asks t hb key hkey hheld
    rw [hwriter] at hb
    rw [hredis]
    exact (held_write h hp hcall hall hb hkey hheld).imp_left fun ⟨p', hp', hwrites⟩ =>
      ⟨p', hrest p' hp', hwrites⟩
  | clear combos =>
    have hqueue : p = ⟨clearCommands combos, .clear combos⟩ := by
      cases h.formed p hmem with
      | clear combos' =>
        cases hcall
        rfl
      | write => cases hcall
      | again => cases hcall
    have hlast : ∀ token b, (s.execute i p outcome).writer.lastOb token = some b →
        s.writer.lastOb token = some b ∧ ∀ key ∈ s.writer.keys token,
          ∀ command ∈ outcome.performed p.queue,
          command.key ≠ some key := by
      intro token b hb
      rw [hwriter, hcall] at hb
      cases outcome with
      | returned =>
        obtain ⟨hnot, hb⟩ := lastOb_forget.mp hb
        refine ⟨hb, fun key hkey command hcommand heq => ?_⟩
        replace hcommand := mem_performed hcommand
        rw [hqueue] at hcommand
        obtain ⟨-, c, hc, rfl⟩ := mem_clearCommands hcommand heq
        exact hnot c (legacy_mem_keys.mp hkey) hc
      | raised done =>
        have hharmless := hguard.resolve_left nofun
        unfold Harmless at hharmless
        rw [hcall] at hharmless
        exact ⟨hb, hharmless token fun hnone => nomatch hnone.symm.trans hb⟩
    refine h.moved (fun token => ?_) (fun token b hb => (hlast token b hb).1) hnow.ge
      (fun p' hp' => (hflight p' hp').1) (fun p' hp' => (hflight p' hp').2) ?_
    · rw [hwriter, hcall]
      cases outcome <;> rfl
    · intro token bids asks t hb key hkey hheld
      rw [hredis]
      have hnot : key ∉ p.writeKeys := hqueue ▸ not_mem_writeKeys_clear
      exact (held_frame hp hnot ((hlast token _ hb).2 key hkey) hheld).imp_left
        fun ⟨p', hp', hwrites⟩ => ⟨p', hrest p' hp', hwrites⟩

/-- **One step** under the guard. -/
theorem dedupInv_step (h : DedupInv s) (hguard : KeepsCoherent s a) (hstep : s.step a = some s') :
    DedupInv s' := by
  cases a with
  | wait dt =>
    simp only [DedupState.step] at hstep
    split_ifs at hstep with hdt
    cases hstep
    exact h.moved (fun _ => rfl) (fun _ _ hb => hb) (le_add_of_nonneg_right hdt) h.formed
      (fun _ hp _ _ => hp)
      fun _ _ _ _ _ _ _ hheld => hheld
  | update token depth =>
    cases hstep
    exact h.update hguard
  | register r =>
    cases hstep
    exact h.register r
  | registerSession r now =>
    cases hstep
    exact h.registerSession hguard.1 hguard.2
  | clear combos =>
    simp only [DedupState.step, Option.some.injEq] at hstep
    subst hstep
    split
    · exact h
    · refine h.moved (fun _ => rfl) (fun _ _ hb => hb) le_rfl (fun p hp => ?_)
        (fun p hp key hkey => ?_)
        fun _ _ _ _ _ _ _ hheld => hheld.imp_left fun ⟨p, hp, hwrites⟩ =>
          ⟨p, List.mem_append_left _ hp, hwrites⟩
      · rcases List.mem_append.mp hp with hp | hp
        · exact h.formed p hp
        · exact List.mem_singleton.mp hp ▸ .clear combos
      · rcases List.mem_append.mp hp with hp | hp
        · exact hp
        · exact absurd (List.mem_singleton.mp hp ▸ hkey) not_mem_writeKeys_clear
  | execute i outcome =>
    obtain ⟨p, hp, rfl⟩ := Option.map_eq_some_iff.mp hstep
    refine h.execute hp ?_
    cases outcome with
    | returned => exact .inl rfl
    | raised done => exact .inr (hguard p hp)

/-! ## Early returns -/

/-- Under the invariant a call that returns early, with no write of its keys on the way, finds its
book under all of them. -/
theorem DedupInv.book (h : DedupInv s)
    (hfree : ∀ p ∈ s.inFlight, ∀ key ∈ p.writeKeys, key ∉ s.writer.keys token)
    (hskips : s.writer.skips token depth s.now = true) (hkey : key ∈ s.writer.keys token) :
    s.redis.book s.now key = some (depth.bids, depth.askPairs) := by
  unfold RedisWriter.skips at hskips
  cases hlast : s.writer.lastOb token with
  | none =>
    rw [hlast] at hskips
    cases hskips
  | some b =>
    obtain ⟨bids, asks, t⟩ := b
    rw [hlast] at hskips
    obtain ⟨rfl, rfl, hage⟩ := of_decide_eq_true hskips
    rcases h.held token _ _ t hlast key hkey with ⟨p, hp, hwrites⟩ | ⟨e, he, hbids, hasks, hexpire⟩
    · exact absurd hkey (hfree p hp key hwrites)
    · have hlive : e.expireAt.all (fun x => decide (s.now < x)) = true := by
        cases hx : e.expireAt with
        | none => rfl
        | some x =>
          have hx' := hexpire x hx
          unfold PRICE_CACHE_TTL_S at hx' hage
          exact decide_eq_true (by linarith)
      unfold BookStore.book BookStore.live
      rw [he, Option.filter_some, if_pos hlive, Option.map_some, hbids, hasks]

/-- Time goes by and writes are executed; no other call is made. -/
def OnlyWrites (s : DedupState) : DedupAction → Prop
  | .wait _ => True
  | .execute i _ => ∀ p ∈ s.inFlight[i]?, ∃ attempts, p.call = .update attempts
  | _ => False

/-- However writes end, the writer is as it was. -/
theorem writer_onlyWrites (hrun : Run DedupState.step OnlyWrites s s') : s'.writer = s.writer := by
  refine hrun.invariant (fun x => x.writer = s.writer) rfl fun x a x' hx hguard hstep => ?_
  cases a with
  | wait dt =>
    simp only [DedupState.step] at hstep
    split_ifs at hstep
    cases hstep
    exact hx
  | execute i outcome =>
    obtain ⟨p, hp, rfl⟩ := Option.map_eq_some_iff.mp hstep
    obtain ⟨attempts, hcall⟩ := hguard p hp
    rw [writer_execute, hcall]
    exact hx
  | _ => exact hguard.elim

/-- The next call with the same book writes again when the refresh is due, whatever became of the
write. -/
theorem skips_after_write (hkeys : s.writer.keys token ≠ [])
    (hwrite : s.writer.skips token depth s.now = false)
    (hrun : Run DedupState.step OnlyWrites (s.update token depth) s') :
    s'.writer.skips token depth s'.now = false ↔ PRICE_CACHE_TTL_S - 30 ≤ s'.now - s.now := by
  have hupdate : (s.update token depth).writer = s.writer.remember token depth s.now := by
    unfold DedupState.update
    rw [if_neg (not_or.mpr ⟨hkeys, by rw [hwrite]; exact Bool.false_ne_true⟩)]
  have hlast : s'.writer.lastOb token = some (depth.bids, depth.askPairs, s.now) := by
    rw [writer_onlyWrites hrun, hupdate]
    exact Function.update_self ..
  unfold RedisWriter.skips
  rw [hlast]
  dsimp only
  rw [decide_eq_false_iff_not, ← not_lt]
  exact not_congr ⟨fun h => h.2.2, fun h => ⟨rfl, rfl, h⟩⟩

/-- **The dedup cache is coherent** in every run of guarded steps: a call that returns early finds
its book under all of its token's keys, and an attempt that raises has executed its write and is
followed by another.  A failed write is tried again by the next call with the same book exactly when
the refresh is due, and `_retry_pipe` says `True` only if everything was executed exactly when the
first attempt executes everything or none returns. -/
theorem dedup_coherent (hrun : Run DedupState.step KeepsCoherent {} s) :
    (∀ token depth, KeepsCoherent s (.update token depth) →
      s.writer.skips token depth s.now = true →
      ∀ key ∈ s.writer.keys token, s.redis.book s.now key = some (depth.bids, depth.askPairs)) ∧
    (∀ i p attempts done, s.inFlight[i]? = some p → p.call = .update attempts →
      KeepsCoherent s (.execute i (.raised done)) →
        (PipeOutcome.raised done).performed p.queue = p.queue ∧
          retryAttempt attempts (.raised done) = none) ∧
    (∀ (x x' : DedupState) token depth, x.writer.keys token ≠ [] →
      x.writer.skips token depth x.now = false →
      Run DedupState.step OnlyWrites (x.update token depth) x' →
        (x'.writer.skips token depth x'.now = false ↔ PRICE_CACHE_TTL_S - 30 ≤ x'.now - x.now)) ∧
    ∀ queue outcome, ((retryPipe RETRY_ATTEMPTS queue outcome).2 = true →
        (retryPipe RETRY_ATTEMPTS queue outcome).1 = queue) ↔
      (outcome 0).performed queue = queue ∨ ∀ i < RETRY_ATTEMPTS, outcome i ≠ .returned := by
  refine ⟨fun token depth hfree hskips key hkey => ?_, fun i p attempts done hp hcall hguard => ?_,
    fun x x' token depth => skips_after_write,
      fun queue outcome => retryPipe_true_iff 2 queue outcome⟩
  · have hinv : DedupInv s := hrun.invariant DedupInv dedupInv_start fun _ _ _ => dedupInv_step
    exact hinv.book hfree hskips hkey
  · have hharmless : Harmless s.writer p (.raised done) := hguard p hp
    unfold Harmless at hharmless
    rw [hcall] at hharmless
    exact ⟨hharmless.1, if_neg (not_le.mpr hharmless.2)⟩

end

/-! ## Samples -/

/-- One token for the current candle. -/
def oneToken : TokenRegistry := { mapping := fun c => if c = btcUp then some "up" else none }

/-- A guard for runs without a raise, which can be computed. -/
def Calm (s : DedupState) : DedupAction → Prop
  | .update token _ => ∀ p ∈ s.inFlight, ∀ key ∈ p.writeKeys, key ∉ s.writer.keys token
  | .registerSession _ _ => False
  | .execute _ (.raised _) => False
  | _ => True

instance (s : DedupState) (a : DedupAction) : Decidable (Calm s a) := by
  cases a with
  | execute i outcome => cases outcome <;> unfold Calm <;> infer_instance
  | _ => unfold Calm; infer_instance

theorem keepsCoherent_of_calm (s : DedupState) (a : DedupAction) (h : Calm s a) :
    KeepsCoherent s a := by
  cases a with
  | update token depth => exact h
  | registerSession r now => exact h.elim
  | execute i outcome =>
    cases outcome with
    | returned => trivial
    | raised done => exact h.elim
  | _ => trivial

/-- The book is written, and ten seconds later it comes again. -/
theorem dedup_coherent_calm : ∃ s : DedupState, s.writer.skips "up" sampleDepth s.now = true ∧
    s.redis.book s.now ⟨btcUp, none⟩ = some (sampleDepth.bids, sampleDepth.askPairs) := by
  have hexec : (exec DedupState.step Calm {}
      [.register oneToken, .update "up" sampleDepth, .execute 0 .returned, .wait 10]).any (fun s =>
        decide (Calm s (.update "up" sampleDepth)) && s.writer.skips "up" sampleDepth s.now &&
          decide (⟨btcUp, none⟩ ∈ s.writer.keys "up")) = true := by decide +kernel
  obtain ⟨s, hs, h⟩ := (Option.any_eq_true _ _).mp hexec
  simp only [Bool.and_eq_true, decide_eq_true_eq] at h
  obtain ⟨⟨hcalm, hskips⟩, hkey⟩ := h
  exact ⟨s, hskips,
    (dedup_coherent ((run_of_exec hs).mono keepsCoherent_of_calm)).1 "up" sampleDepth
    (keepsCoherent_of_calm s _ hcalm) hskips _ hkey⟩

/-- **A stale book is not written**: the first `execute` raises before anything is executed, the
second one has an empty queue and returns, and the next call finds the book unchanged while its key
is not there. -/
theorem dedup_skips_missing_book : ∃ s : DedupState, Run DedupState.step (fun _ _ => True) {} s ∧
    s.inFlight.isEmpty = true ∧ s.writer.skips "up" sampleDepth s.now = true ∧
      ⟨btcUp, none⟩ ∈ s.writer.keys "up" ∧ (s.redis.book s.now ⟨btcUp, none⟩).isNone = true ∧
      (retryPipe RETRY_ATTEMPTS (writeCommands [⟨btcUp, none⟩] ⟨[], [], 0⟩) fun i =>
        if i = 0 then .raised [] else .returned) = ([], true) := by
  have hexec : (exec DedupState.step (fun _ _ => True) {}
      [.register oneToken, .update "up" sampleDepth, .execute 0 (.raised []),
          .execute 0 .returned]).any (fun s =>
        s.inFlight.isEmpty && s.writer.skips "up" sampleDepth s.now &&
          decide (⟨btcUp, none⟩ ∈ s.writer.keys "up") &&
            (s.redis.book s.now ⟨btcUp, none⟩).isNone) = true := by
    decide +kernel
  obtain ⟨s, hs, h⟩ := (Option.any_eq_true _ _).mp hexec
  simp only [Bool.and_eq_true, decide_eq_true_eq] at h
  obtain ⟨⟨⟨hidle, hskips⟩, hkey⟩, hmissing⟩ := h
  exact ⟨s, run_of_exec hs, hidle, hskips, hkey, hmissing, rfl⟩

end PolyArena
