import PolyArena.MatchingEngine.Operations

/-!
# No phantom liquidity

At every price the shadow ladder of a book holds what the feed last supplied there less what virtual
orders took since, up to less than one dust quantity lost when a level is deleted.

`Supplied` is the invariant of one level; `Supplied.consume` is its step lemma for a match or an
exit fill, and the feed re-establishes it.
-/

namespace PolyArena

open Relation

/-- The size a record sets at a level, if it is about the level. -/
def BookRecord.sets (side : BookSide) (p : ℚ) : BookRecord → Option ℚ
  | .set s price size => if s = side ∧ price = p then some size else none
  | .cleared => some 0
  | _ => none

/-- The quantity a record takes at a level. -/
def BookRecord.taken (side : BookSide) (p : ℚ) : BookRecord → ℚ
  | .fill _ orderSide price qty _ => if orderSide.takes = side ∧ price = p then qty else 0
  | .exitFill _ price qty _ => if .bid = side ∧ price = p then qty else 0
  | _ => 0

/-- The size the feed last set at a level; a level never set counts as set to zero. -/
def lastSet (side : BookSide) (p : ℚ) : List BookRecord → ℚ
  | [] => 0
  | r :: h => (r.sets side p).getD (lastSet side p h)

/-- What virtual orders took at a level since it was last set. -/
def takenSince (side : BookSide) (p : ℚ) : List BookRecord → ℚ
  | [] => 0
  | r :: h => if (r.sets side p).isSome then 0 else r.taken side p + takenSince side p h

/-- The level at `p` of a ladder and its raw copy, against the history. -/
structure Supplied (l raw : Ladder) (side : BookSide) (p : ℚ) (h : List BookRecord) : Prop where
  raw_eq : raw.getD p 0 = lastSet side p h
  taken_nonneg : 0 ≤ takenSince side p h
  present : ∀ size, l.get? p = some size → 0 < size ∧ lastSet side p h = size + takenSince side p h
  absent : l.get? p = none → 0 ≤ lastSet side p h - takenSince side p h ∧
    lastSet side p h - takenSince side p h < ME_DUST_THRESHOLD

section

variable {l raw : Ladder} {side : BookSide} {p p' q size : ℚ} {h : List BookRecord}
  {r : BookRecord}

/-- A record that neither sets the level nor takes from it. -/
theorem Supplied.skip (hs : Supplied l raw side p h) (hsets : r.sets side p = none)
    (htaken : r.taken side p = 0) : Supplied l raw side p (r :: h) := by
  have hlast : lastSet side p (r :: h) = lastSet side p h := by
    rw [lastSet, hsets]; rfl
  have htake : takenSince side p (r :: h) = takenSince side p h := by
    rw [takenSince, hsets, htaken, zero_add]; rfl
  refine ⟨?_, ?_, ?_, ?_⟩
  · rw [hlast]; exact hs.raw_eq
  · rw [htake]; exact hs.taken_nonneg
  · rw [hlast, htake]; exact hs.present
  · rw [hlast, htake]; exact hs.absent

/-- The level agrees with what another ladder has there. -/
theorem Supplied.congr {l' raw' : Ladder} (hs : Supplied l raw side p h)
    (hl : l'.get? p = l.get? p) (hraw : raw'.get? p = raw.get? p) : Supplied l' raw' side p h := by
  refine ⟨?_, hs.taken_nonneg, ?_, ?_⟩
  · unfold SortedDict.getD
    rw [hraw]
    exact hs.raw_eq
  · rw [hl]; exact hs.present
  · rw [hl]; exact hs.absent

theorem get?_consume_ne (hne : p' ≠ p) : (l.consume p q).get? p' = l.get? p' := by
  unfold Ladder.consume
  dsimp only
  split
  · exact SortedDict.get?_erase_ne hne
  · exact SortedDict.get?_set_ne hne

/-- **Taking from a level**: the record `r` of it takes `q` at `p` and sets nothing. -/
theorem Supplied.consume (hs : Supplied l raw side p' h) (hsize : l.get? p = some size)
    (hpos : 0 < q) (hle : q ≤ size) (hsets : r.sets side p' = none)
    (htaken : r.taken side p' = if p = p' then q else 0) :
    Supplied (l.consume p q) raw side p' (r :: h) := by
  by_cases hp : p = p'
  · subst hp
    rw [if_pos rfl] at htaken
    have hlast : lastSet side p (r :: h) = lastSet side p h := by
      rw [lastSet, hsets]; rfl
    have htake : takenSince side p (r :: h) = q + takenSince side p h := by
      rw [takenSince, hsets, htaken]; rfl
    obtain ⟨-, heq⟩ := hs.present size hsize
    have hleft : l.getD p 0 - q = size - q := by
      unfold SortedDict.getD
      rw [hsize]
      rfl
    unfold Ladder.consume
    dsimp only
    rw [hleft]
    refine ⟨?_, ?_, ?_, ?_⟩
    · rw [hlast]; exact hs.raw_eq
    · rw [htake]; linarith [hs.taken_nonneg]
    · intro left hget
      rw [hlast, htake, heq]
      by_cases hdust : size - q < ME_DUST_THRESHOLD
      · rw [if_pos hdust, SortedDict.get?_erase_self] at hget
        cases hget
      · rw [if_neg hdust, SortedDict.get?_set_self, Option.some.injEq] at hget
        subst hget
        exact ⟨dust_pos.trans_le (not_lt.mp hdust), by ring⟩
    · intro hget
      rw [hlast, htake, heq]
      by_cases hdust : size - q < ME_DUST_THRESHOLD
      · constructor <;> linarith
      · rw [if_neg hdust, SortedDict.get?_set_self] at hget
        cases hget
  · rw [if_neg hp] at htaken
    exact (hs.skip hsets htaken).congr (get?_consume_ne (Ne.symm hp)) rfl

/-- The feed sets the level. -/
theorem supplied_setOrErase (l raw : Ladder) (hsize : 0 ≤ size) :
    Supplied (l.setOrErase p size) (raw.setOrErase p size) side p (.set side p size :: h) := by
  have hsets : (BookRecord.set side p size).sets side p = some size := if_pos ⟨rfl, rfl⟩
  have hlast : lastSet side p (.set side p size :: h) = size := by rw [lastSet, hsets]; rfl
  have htake : takenSince side p (.set side p size :: h) = 0 := by rw [takenSince, hsets]; rfl
  unfold Ladder.setOrErase
  refine ⟨?_, htake.ge, ?_, ?_⟩
  · rw [hlast]
    unfold SortedDict.getD
    by_cases h0 : size ≤ 0
    · rw [if_pos h0, SortedDict.get?_erase_self]
      exact le_antisymm hsize h0
    · rw [if_neg h0, SortedDict.get?_set_self]
      rfl
  · intro s hget
    rw [hlast, htake, add_zero]
    by_cases h0 : size ≤ 0
    · rw [if_pos h0, SortedDict.get?_erase_self] at hget
      cases hget
    · rw [if_neg h0, SortedDict.get?_set_self, Option.some.injEq] at hget
      exact hget ▸ ⟨not_le.mp h0, rfl⟩
  · intro hget
    rw [hlast, htake, sub_zero]
    by_cases h0 : size ≤ 0
    · exact ⟨hsize, h0.trans_lt dust_pos⟩
    · rw [if_neg h0, SortedDict.get?_set_self] at hget
      cases hget

theorem supplied_empty (side : BookSide) (p : ℚ) (hlast : lastSet side p h = 0)
    (htake : takenSince side p h = 0) : Supplied ∅ ∅ side p h := by
  refine ⟨hlast.symm, htake.ge, fun s hget => ?_, fun _ => ?_⟩
  · rw [SortedDict.get?_empty] at hget; cases hget
  · rw [hlast, htake, sub_zero]; exact ⟨le_rfl, dust_pos⟩

end

/-- Every level of both sides is accounted for. -/
def AllSupplied (c : BookCore) : Prop :=
  ∀ side p, Supplied (c.ladder side) (c.rawLadder side) side p c.history

section

variable {c c' : BookCore}

theorem supplied_takes {bids bids' raw : Ladder} {fs : List (ℚ × ℚ)} {h : List BookRecord}
    {now : Time} {id : OrderId} {p : ℚ} (ht : Takes bids fs bids')
    (hs : Supplied bids raw .bid p h) :
    Supplied bids' raw .bid p (ShadowOrderbook.exitRecords now id fs h) := by
  induction ht generalizing h with
  | nil => exact hs
  | @cons l l' fs price q size hsize hpos hle _ ih =>
    refine ih (hs.consume hsize hpos hle rfl ?_)
    simp [BookRecord.taken]

theorem supplied_exitRecords_ask {l raw : Ladder} {fs : List (ℚ × ℚ)} {h : List BookRecord}
    {now : Time} {id : OrderId} {p : ℚ} (hs : Supplied l raw .ask p h) :
    Supplied l raw .ask p (ShadowOrderbook.exitRecords now id fs h) := by
  unfold ShadowOrderbook.exitRecords
  induction fs generalizing h with
  | nil => exact hs
  | cons f fs ih => exact ih (hs.skip rfl (by simp [BookRecord.taken]))

/-- **One effect** keeps every level accounted for. -/
theorem effect_supplied (hs : AllSupplied c) (he : Effect c c' d) : AllSupplied c' := by
  cases he with
  | set side p size hsize =>
    intro side' p'
    by_cases hsame : side = side' ∧ p = p'
    · obtain ⟨rfl, rfl⟩ := hsame
      cases side <;> exact supplied_setOrErase _ _ hsize
    · have hskip := (hs side' p').skip (r := .set side p size) (if_neg hsame) rfl
      have hget : ∀ l : Ladder, p ≠ p' → (l.setOrErase p size).get? p' = l.get? p' := by
        intro l hp
        unfold Ladder.setOrErase
        split
        · exact SortedDict.get?_erase_ne (Ne.symm hp)
        · exact SortedDict.get?_set_ne (Ne.symm hp)
      cases side <;> cases side'
      · have hp : p ≠ p' := fun e => hsame ⟨rfl, e⟩
        exact hskip.congr (hget _ hp) (hget _ hp)
      · exact hskip
      · exact hskip
      · have hp : p ≠ p' := fun e => hsame ⟨rfl, e⟩
        exact hskip.congr (hget _ hp) (hget _ hp)
  | clear => intro side p; cases side <;> exact supplied_empty _ p rfl rfl
  | place o hfresh hnew =>
    intro side p
    have := (hs side p).skip (r := .placed o.orderId) rfl rfl
    cases side <;> exact this
  | prefill o p hfresh hnew =>
    intro side p'
    have := ((hs side p').skip (r := .placed o.orderId) rfl rfl).skip
      (r := .prefill o.orderId p o.filled) rfl rfl
    cases side <;> exact this
  | @fill _ time pre post o p q size horders hactive hsize hpos hle hrem =>
    intro side p'
    by_cases hside : o.side.takes = side
    · subst hside
      have hconsume := (hs o.side.takes p').consume
        (r := .fill o.orderId o.side p q time) hsize hpos
        hle rfl (by simp [BookRecord.taken])
      unfold BookCore.fill
      cases hos : o.side <;> rw [hos] at hconsume <;> exact hconsume
    · have hskip := (hs side p').skip (r := .fill o.orderId o.side p q time) rfl
        (by simp [BookRecord.taken, hside])
      unfold BookCore.fill
      cases hos : o.side <;> rw [hos] at hskip hside <;> cases side <;>
        first | exact absurd rfl hside | exact hskip
  | exit time horders htakes hexit =>
    intro side p
    cases side with
    | bid => exact supplied_takes htakes (hs .bid p)
    | ask => exact supplied_exitRecords_ask (hs .ask p)
  | revise horders hrev =>
    intro side p
    have := hs side p
    cases side <;> exact this
  | prune drop =>
    intro side p
    have := hs side p
    cases side <;> exact this
  | drain horders =>
    intro side p
    have := hs side p
    cases side <;> exact this

theorem effects_supplied (hs : AllSupplied c) (he : Effects c c') : AllSupplied c' := by
  induction he with
  | refl => exact hs
  | tail _ he ih => exact effect_supplied ih he

theorem supplied_of_reachable {b : ShadowOrderbook} (hb : Reachable b) : AllSupplied b.core := by
  have hempty : AllSupplied emptyCore := fun side p => by
    cases side <;> exact supplied_empty _ p rfl rfl
  exact effects_supplied hempty (effects_of_reachable hb).2

/-- The levels of a book have a size. -/
theorem size_pos_of_reachable {b : ShadowOrderbook} (hb : Reachable b) (side : BookSide)
    {p size : ℚ} (hlevel : (b.core.ladder side).get? p = some size) : 0 < size :=
  ((supplied_of_reachable hb side p).present size hlevel).1

end

/-- **No phantom liquidity.** In every reachable book and at every price, the raw ladder has the
size last set, the shadow size is at most that, and the difference is what virtual orders took
since, plus less than a dust quantity that is only lost with the level. -/
theorem no_phantom_liquidity {b : ShadowOrderbook} (hb : Reachable b) (side : BookSide) (p : ℚ) :
    (b.core.rawLadder side).getD p 0 = lastSet side p b.history ∧
      (b.core.ladder side).getD p 0 ≤ lastSet side p b.history ∧
      takenSince side p b.history ≤ lastSet side p b.history ∧
      ∃ dust, 0 ≤ dust ∧ dust < ME_DUST_THRESHOLD ∧
        lastSet side p b.history - (b.core.ladder side).getD p 0 =
          takenSince side p b.history + dust ∧
        (dust ≠ 0 → (b.core.ladder side).get? p = none) := by
  have hs := supplied_of_reachable hb side p
  have hhist : b.core.history = b.history := rfl
  rw [hhist] at hs
  refine ⟨hs.raw_eq, ?_⟩
  have htaken := hs.taken_nonneg
  cases hget : (b.core.ladder side).get? p with
  | some size =>
    obtain ⟨hpos, heq⟩ := hs.present size hget
    have hgetD : (b.core.ladder side).getD p 0 = size := by
      unfold SortedDict.getD
      rw [hget]
      rfl
    rw [hgetD]
    refine ⟨by linarith, by linarith, 0, le_rfl, dust_pos, by linarith, fun h => absurd rfl h⟩
  | none =>
    obtain ⟨h0, hdust⟩ := hs.absent hget
    have hgetD : (b.core.ladder side).getD p 0 = 0 := by
      unfold SortedDict.getD
      rw [hget]
      rfl
    rw [hgetD]
    exact ⟨by linarith, by linarith, _, h0, hdust, by ring, fun _ => rfl⟩

/-- The level that the order of `restingBook` took. -/
theorem no_phantom_liquidity_restingBook :
    takenSince .ask (1 / 2) restingBook.history ≤ lastSet .ask (1 / 2) restingBook.history :=
  (no_phantom_liquidity reachable_restingBook .ask (1 / 2)).2.2.1

end PolyArena
