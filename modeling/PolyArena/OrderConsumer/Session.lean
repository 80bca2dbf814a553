import PolyArena.OrderConsumer.Consumer

/-!
# Sessions

`SessionEngine` and `SessionManager`: one session per candle, with one book per direction that has a
token.  A session's dictionaries are functions of the direction.  The manager's token index lists
the sessions that own a token in the order of their creation, which is the order of the engines.
-/

namespace PolyArena

inductive SessionState
  | prefetch
  | active
  | settling
  | archived
  deriving DecidableEq, Repr

/-- A session.  Each of its tokens has a book; archiving clears both dictionaries. -/
structure SessionEngine where
  sessionId : SessionId
  state : SessionState := .prefetch
  tokens : Direction → Option String
  books : Direction → Option ShadowOrderbook
  booked : ∀ dir, (books dir).isSome = (tokens dir).isSome

namespace SessionEngine

theorem booked_create (tokens : Direction → Option String) (dir : Direction) :
    ((tokens dir).map fun token => ({ tokenId := token } : ShadowOrderbook)).isSome =
      (tokens dir).isSome :=
  Option.isSome_map

/-- `SessionEngine.__init__`: an empty book for each token. -/
def create (sessionId : SessionId) (tokens : Direction → Option String) (state : SessionState) :
    SessionEngine where
  sessionId := sessionId
  state := state
  tokens := tokens
  books := fun dir => (tokens dir).map fun token => { tokenId := token }
  booked := booked_create tokens

/-- `_token_to_dir`: of two directions with one token, the later one. -/
def tokenToDir (s : SessionEngine) (token : String) : Option Direction :=
  if s.tokens .down = some token then some .down
  else if s.tokens .up = some token then some .up
  else none

/-- `get_book_for_token`, with the direction of the book. -/
def getBookForToken (s : SessionEngine) (token : String) :
    Option (Direction × ShadowOrderbook) :=
  (s.tokenToDir token).bind fun dir => (s.books dir).map (dir, ·)

/-- The session after work on the book of a direction that has one. -/
def setBook (s : SessionEngine) (dir : Direction) (b : ShadowOrderbook) : SessionEngine :=
  { s with
    books := fun d => if d = dir then (s.books d).map fun _ => b else s.books d
    booked := fun d => by
      rw [← s.booked d]
      split
      · exact Option.isSome_map
      · rfl }

/-- `best_ask`: none on a stale book. -/
def bestAsk (s : SessionEngine) (now : Time) (token : String) : Option ℚ :=
  match s.getBookForToken token with
  | none => none
  | some (_, b) => if b.isStale now ME_BOOK_STALE_DEFAULT_S then none else b.bestAsk

/-- The checks of `place_virtual_order`; `none` is its `ValueError`. -/
def bookForOrder (s : SessionEngine) (token : String) : Option (Direction × ShadowOrderbook) :=
  if s.state = .settling ∨ s.state = .archived then none
  else (s.getBookForToken token).filter fun b => !b.2.expired

/-- The checks of `place_prefilled_bracket_order`, which a SETTLING session passes. -/
def bookForPrefilled (s : SessionEngine) (token : String) :
    Option (Direction × ShadowOrderbook) :=
  if s.state = .archived then none
  else (s.getBookForToken token).filter fun b => !b.2.expired

end SessionEngine

structure SessionManager where
  engines : Table SessionEngine.sessionId

namespace SessionManager

def getSession (m : SessionManager) (id : SessionId) : Option SessionEngine := m.engines.get id

/-- `get_sessions_for_token`. -/
def getSessionsForToken (m : SessionManager) (token : String) : List SessionEngine :=
  m.engines.rows.filter fun s => (s.tokenToDir token).isSome

/-- A session with a book for the token: an ACTIVE one, else PREFETCH, else SETTLING, else any. -/
def getBook (m : SessionManager) (token : String) :
    Option (SessionEngine × Direction × ShadowOrderbook) :=
  let sessions := m.getSessionsForToken token
  let inState (p : SessionEngine → Bool) :=
    (sessions.filter p).findSome? fun s => (s.getBookForToken token).map (s, ·)
  (inState (·.state = .active)).or <| (inState (·.state = .prefetch)).or <|
    (inState (·.state = .settling)).or (inState fun _ => true)

/-- `best_ask`. -/
def bestAsk (m : SessionManager) (now : Time) (token : String) : Option ℚ :=
  ((m.getSessionsForToken token).filter fun s => s.state = .active ∨ s.state = .prefetch).findSome?
    fun s => s.bestAsk now token

/-- The book of a session and direction. -/
def bookAt (m : SessionManager) (id : SessionId) (dir : Direction) : Option ShadowOrderbook :=
  (m.getSession id).bind fun s => s.books dir

/-- The manager after work on one book. -/
def setBook (m : SessionManager) (s : SessionEngine) (dir : Direction) (b : ShadowOrderbook) :
    SessionManager :=
  ⟨m.engines.put (s.setBook dir b)⟩

end SessionManager

section

variable {m : SessionManager} {s : SessionEngine} {token : String} {dir dir' : Direction}
  {b : ShadowOrderbook} {id : SessionId}

theorem books_of_getBookForToken (h : s.getBookForToken token = some (dir, b)) :
    s.books dir = some b := by
  unfold SessionEngine.getBookForToken at h
  obtain ⟨d, -, h⟩ := Option.bind_eq_some_iff.mp h
  obtain ⟨b', hb', h⟩ := Option.map_eq_some_iff.mp h
  cases h
  exact hb'

theorem bookForPrefilled_spec (h : s.bookForPrefilled token = some (dir, b)) :
    s.books dir = some b := by
  unfold SessionEngine.bookForPrefilled at h
  split at h
  · cases h
  · exact books_of_getBookForToken (Option.filter_eq_some_iff.mp h).1

theorem bookForOrder_spec (h : s.bookForOrder token = some (dir, b)) :
    s.books dir = some b := by
  unfold SessionEngine.bookForOrder at h
  split at h
  · cases h
  · exact books_of_getBookForToken (Option.filter_eq_some_iff.mp h).1

/-- The book that `get_book` finds is the one of a session. -/
theorem getBook_spec (h : m.getBook token = some (s, dir, b)) :
    m.getSession s.sessionId = some s ∧ s.books dir = some b := by
  have hfound : ∀ p : SessionEngine → Bool,
      (((m.getSessionsForToken token).filter p).findSome? fun s =>
        (s.getBookForToken token).map (s, ·)) = some (s, dir, b) →
      m.getSession s.sessionId = some s ∧ s.books dir = some b := by
    intro p hp
    obtain ⟨x, hx, hxb⟩ := List.exists_of_findSome?_eq_some hp
    obtain ⟨y, hy, he⟩ := Option.map_eq_some_iff.mp hxb
    cases he
    have hmem : s ∈ m.engines.rows := List.mem_of_mem_filter (List.mem_of_mem_filter hx)
    exact ⟨Table.get_of_mem hmem, books_of_getBookForToken hy⟩
  unfold SessionManager.getBook at h
  simp only [Option.or_eq_some_iff] at h
  rcases h with h | ⟨-, h | ⟨-, h | ⟨-, h⟩⟩⟩ <;> exact hfound _ h

theorem bookAt_of_books {b : ShadowOrderbook} (hs : m.getSession id = some s)
    (hb : s.books dir = some b) :
    m.bookAt id dir = some b := by
  rw [SessionManager.bookAt, hs]
  exact hb

/-- The book that was worked on. -/
theorem bookAt_setBook_self (hs : m.getSession s.sessionId = some s) (hb : s.books dir = some b)
    (b' : ShadowOrderbook) : (m.setBook s dir b').bookAt s.sessionId dir = some b' := by
  have hget : (m.setBook s dir b').getSession s.sessionId = some (s.setBook dir b') :=
    Table.get_put_self (a := s.setBook dir b') hs
  rw [SessionManager.bookAt, hget]
  simp [SessionEngine.setBook, hb]

/-- Any other book. -/
theorem bookAt_setBook_ne (hs : m.getSession s.sessionId = some s) (b' : ShadowOrderbook)
    (hne : ¬ (id = s.sessionId ∧ dir' = dir)) :
    (m.setBook s dir b').bookAt id dir' = m.bookAt id dir' := by
  by_cases hid : id = s.sessionId
  · subst hid
    have hget : (m.setBook s dir b').getSession s.sessionId = some (s.setBook dir b') :=
      Table.get_put_self (a := s.setBook dir b') hs
    have hdir : dir' ≠ dir := fun e => hne ⟨rfl, e⟩
    rw [SessionManager.bookAt, SessionManager.bookAt, hget, hs]
    simp [SessionEngine.setBook, hdir]
  · have hget : (m.setBook s dir b').getSession id = m.getSession id :=
      Table.get_put_ne (a := s.setBook dir b') hid
    rw [SessionManager.bookAt, SessionManager.bookAt, hget]

/-- A book afterwards is the one that was worked on, or as it was. -/
theorem bookAt_setBook_cases {b' b'' : ShadowOrderbook} (hs : m.getSession s.sessionId = some s)
    (hb : s.books dir = some b) (h : (m.setBook s dir b').bookAt id dir' = some b'') :
    id = s.sessionId ∧ dir' = dir ∧ b'' = b' ∨
      ¬ (id = s.sessionId ∧ dir' = dir) ∧ m.bookAt id dir' = some b'' := by
  by_cases hsame : id = s.sessionId ∧ dir' = dir
  · obtain ⟨rfl, rfl⟩ := hsame
    rw [bookAt_setBook_self hs hb, Option.some.injEq] at h
    exact .inl ⟨rfl, rfl, h.symm⟩
  · rw [bookAt_setBook_ne hs b' hsame] at h
    exact .inr ⟨hsame, h⟩

end

end PolyArena
