import PolyArena.OrderConsumer.Consumer

/-!
# One order between the book and the stream

What the two threads do, seen from one order: the fills the book executed for it, the FILL event
that is on its way from the feed thread, the fill messages published for it, and whether the
consumer thread has entered it.  `Moves` lists what a step of either thread can do to an order.  The
steps flagged `true` may publish an immediate fill.

1. `ViewInv` holds after every move: a tracked order has its filled quantity published, or an event
   on its way that says it.
2. `Exact` holds after every move without an immediate fill: the published levels are the executed
   fills, as far as they were reported.
-/

namespace PolyArena

/-- How far the consumer thread is with an order. -/
inductive Phase
  /-- the immediate fill is not published yet -/
  | entering
  /-- tracked, or the next step of the consumer thread tracks it -/
  | tracked
  | forgotten
  deriving DecidableEq, Repr

structure OrderView where
  /-- oldest first -/
  executed : List (ℚ × ℚ)
  pending : List OrderStateChangeEvent
  published : List FillMessage
  phase : Phase

namespace OrderView

def filled (v : OrderView) : ℚ := (v.executed.map Prod.snd).sum

def lastFilled (v : OrderView) : ℚ := (v.published.getLast?.map FillMessage.filled).getD 0

def levels (v : OrderView) : List (ℚ × ℚ) := v.published.flatMap FillMessage.levels

def pendingLevels (v : OrderView) : List (ℚ × ℚ) :=
  v.pending.flatMap OrderStateChangeEvent.fillLevels

/-- What one step of either thread does to an order. -/
inductive Moves : OrderView → OrderView → Bool → Prop
  | idle (v : OrderView) {i : Bool} : Moves v v i
  /-- the book executes fills and reports them -/
  | execute (v : OrderView) {i : Bool} {fs : List (ℚ × ℚ)} {e : OrderStateChangeEvent}
      (hpending : v.pending = []) (hne : fs ≠ []) (hpos : ∀ f ∈ fs, 0 < f.2)
      (hlevels : e.fillLevels = fs) (hfilled : e.filled = v.filled + (fs.map Prod.snd).sum) :
      Moves v { v with executed := v.executed ++ fs, pending := [e] } i
  /-- the event reaches the consumer, which may forget the order then -/
  | deliver (v : OrderView) {i : Bool} {e : OrderStateChangeEvent} {boId : ℕ} {phase : Phase}
      (htracked : v.phase = .tracked) (hpending : v.pending = [e]) (hphase : phase ≠ .entering) :
      Moves v { v with
        pending := []
        published := v.published ++ [e.fillMessage boId]
        phase := phase } i
  /-- the event is dropped; of a tracked order only one that says nothing new -/
  | drop (v : OrderView) {i : Bool} {e : OrderStateChangeEvent} (hpending : v.pending = [e])
      (hold : v.phase = .tracked → e.filled ≤ v.lastFilled) : Moves v { v with pending := [] } i
  /-- the consumer thread enters an order without fills -/
  | enter (v : OrderView) {i : Bool} (hphase : v.phase = .entering) (hnone : v.executed = []) :
      Moves v { v with phase := .tracked } i
  /-- the consumer thread publishes an immediate fill and enters the order -/
  | enterFilled (v : OrderView) {m : FillMessage} (hphase : v.phase = .entering)
      (hfilled : m.filled = v.filled) :
      Moves v { v with published := v.published ++ [m], phase := .tracked } true
  | forget (v : OrderView) {i : Bool} : Moves v { v with phase := .forgotten } i

/-- What holds of every order. -/
structure ViewInv (v : OrderView) : Prop where
  pos : ∀ f ∈ v.executed, 0 < f.2
  pending : v.pending = [] ∨ ∃ e, v.pending = [e] ∧ e.filled = v.filled ∧ e.fillLevels ≠ [] ∧
    e.fillLevels <:+ v.executed
  silent : v.phase = .entering → v.published = []
  le : v.lastFilled ≤ v.filled
  covered : v.phase = .tracked → v.lastFilled = v.filled ∨ v.pending ≠ []

/-- The published levels are what the book executed. -/
structure Exact (v : OrderView) : Prop where
  sum : (v.levels.map Prod.snd).sum = v.lastFilled
  reported : v.levels <+: v.executed
  tracked : v.phase = .tracked → v.levels ++ v.pendingLevels = v.executed

section

variable {v v' : OrderView} {i : Bool} {fs : List (ℚ × ℚ)} {e : OrderStateChangeEvent} {boId : ℕ}

theorem filled_append (fs : List (ℚ × ℚ)) :
    filled { v with executed := v.executed ++ fs } = v.filled + (fs.map Prod.snd).sum := by
  simp [filled]

@[simp] theorem lastFilled_append {executed : List (ℚ × ℚ)} {pending : List OrderStateChangeEvent}
    {ms : List FillMessage} {m : FillMessage} {phase : Phase} :
    lastFilled ⟨executed, pending, ms ++ [m], phase⟩ = m.filled := by
  simp [lastFilled]

/-- The event on its way says what the book executed. -/
theorem ViewInv.of_pending (h : ViewInv v) (hp : v.pending = [e]) :
    e.filled = v.filled ∧ e.fillLevels ≠ [] ∧ e.fillLevels <:+ v.executed := by
  rcases h.pending with hnil | ⟨x, hx, hfilled, hne, hsuf⟩
  · simp [hnil] at hp
  · obtain rfl : x = e := by simpa [hx] using hp
    exact ⟨hfilled, hne, hsuf⟩

@[simp] theorem levels_fillMessage : (e.fillMessage boId).levels = e.fillLevels :=
  levels_serialize e.fillLevels

/-- A view that has just been placed. -/
theorem ViewInv.initial (fs : List (ℚ × ℚ)) (hpos : ∀ f ∈ fs, 0 < f.2) :
    ViewInv ⟨fs, [], [], .entering⟩ := by
  refine ⟨hpos, .inl rfl, fun _ => rfl, ?_, fun h => by cases h⟩
  refine List.sum_nonneg fun x hx => ?_
  obtain ⟨f, hf, rfl⟩ := List.mem_map.mp hx
  exact (hpos f hf).le

theorem Exact.initial (fs : List (ℚ × ℚ)) : Exact ⟨fs, [], [], .entering⟩ :=
  ⟨rfl, List.nil_prefix, fun h => nomatch h⟩

/-- **A move** keeps the invariant of an order. -/
theorem Moves.inv (hm : Moves v v' i) (h : ViewInv v) : ViewInv v' := by
  cases hm with
  | idle => exact h
  | @execute _ fs e hpending hne hpos hlevels hfilled =>
    have hsum : 0 < (fs.map Prod.snd).sum := sum_pos_of_fills hpos hne
    refine ⟨fun f hf => ?_, .inr ⟨e, rfl, ?_, ?_, ?_⟩, h.silent, ?_, fun _ => .inr (by simp)⟩
    · exact (List.mem_append.mp hf).elim (h.pos f) (hpos f)
    · exact hfilled.trans (filled_append fs).symm
    · exact hlevels ▸ hne
    · exact hlevels ▸ List.suffix_append _ _
    · refine le_trans h.le ?_
      change v.filled ≤ filled { v with executed := v.executed ++ fs }
      rw [filled_append]
      linarith
  | @deliver _ e boId phase htracked hpending hphase =>
    have hlast : lastFilled { v with
        pending := []
        published := v.published ++ [e.fillMessage boId]
        phase := phase } = v.filled := lastFilled_append.trans (h.of_pending hpending).1
    exact ⟨h.pos, .inl rfl, fun he => absurd he hphase, hlast.le, fun _ => .inl hlast⟩
  | @drop _ e hpending hold =>
    refine ⟨h.pos, .inl rfl, h.silent, h.le, fun ht => .inl ?_⟩
    exact le_antisymm h.le ((h.of_pending hpending).1 ▸ hold ht)
  | enter hphase hnone =>
    refine ⟨h.pos, h.pending, fun he => (by cases he), h.le, fun _ => .inl ?_⟩
    have hpub := h.silent hphase
    simp [lastFilled, filled, hpub, hnone]
  | @enterFilled m hphase hfilled =>
    have hlast : lastFilled { v with published := v.published ++ [m], phase := .tracked } =
        v.filled := lastFilled_append.trans hfilled
    exact ⟨h.pos, h.pending, fun he => (by cases he), hlast.le, fun _ => .inl hlast⟩
  | forget => exact ⟨h.pos, h.pending, fun he => (by cases he), h.le, fun ht => by cases ht⟩

/-- **A move without an immediate fill** keeps the published levels exact. -/
theorem Moves.exact (hm : Moves v v' false) (h : ViewInv v) (hx : Exact v) : Exact v' := by
  cases hm with
  | idle => exact hx
  | @execute _ fs e hpending hne hpos hlevels hfilled =>
    refine ⟨hx.sum, hx.reported.trans (List.prefix_append _ _), fun ht => ?_⟩
    have htracked := hx.tracked ht
    rw [pendingLevels, hpending, List.flatMap_nil, List.append_nil] at htracked
    change v.levels ++ [e].flatMap OrderStateChangeEvent.fillLevels = v.executed ++ fs
    rw [List.flatMap_singleton, htracked, hlevels]
  | @deliver _ e boId phase htracked hpending hphase =>
    have hall := hx.tracked htracked
    rw [pendingLevels, hpending, List.flatMap_singleton] at hall
    have hlevels : levels { v with
        pending := []
        published := v.published ++ [e.fillMessage boId]
        phase := phase } = v.executed := by
      unfold levels
      rw [List.flatMap_append, List.flatMap_singleton, levels_fillMessage]
      exact hall
    have hlast : lastFilled { v with
        pending := []
        published := v.published ++ [e.fillMessage boId]
        phase := phase } = v.filled := lastFilled_append.trans (h.of_pending hpending).1
    refine ⟨by rw [hlevels, hlast]; rfl, by rw [hlevels], fun _ => ?_⟩
    rw [hlevels]
    exact List.append_nil _
  | @drop _ e hpending hold =>
    refine ⟨hx.sum, hx.reported, fun ht => ?_⟩
    -- the dropped event would say something new
    exfalso
    obtain ⟨hfilled, hne, hsuf⟩ := h.of_pending hpending
    have hall := hx.tracked ht
    rw [pendingLevels, hpending, List.flatMap_singleton] at hall
    have hpos : 0 < (e.fillLevels.map Prod.snd).sum :=
      sum_pos_of_fills (fun f hf => h.pos f (hsuf.subset hf)) hne
    have hsum : v.filled = v.lastFilled + (e.fillLevels.map Prod.snd).sum := by
      rw [filled, ← hall, List.map_append, List.sum_append, hx.sum]
    linarith [hold ht]
  | enter hphase hnone =>
    refine ⟨hx.sum, hx.reported, fun _ => ?_⟩
    have hpending : v.pending = [] := by
      rcases h.pending with hnil | ⟨x, -, -, hne, hsuf⟩
      · exact hnil
      · rw [hnone, List.suffix_nil] at hsuf
        exact absurd hsuf hne
    change v.levels ++ v.pending.flatMap OrderStateChangeEvent.fillLevels = v.executed
    rw [levels, h.silent hphase, hpending, hnone]
    rfl
  | forget => exact ⟨hx.sum, hx.reported, fun ht => by cases ht⟩

end

end OrderView

end PolyArena
