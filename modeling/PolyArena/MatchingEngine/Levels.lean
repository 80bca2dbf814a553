import PolyArena.MatchingEngine.Liquidity
import PolyArena.MatchingEngine.Trading

/-!
# The levels that trading leaves

Matches and exits only ever take from the levels of a ladder, and what they leave of a level is at
least a dust quantity.

1. `Thins l l'`: the ladder `l'` has no level that `l` has not, and none that is larger.
2. `consume_top`, `consume_lowest`: what is left of the items when the best level is taken from.
-/

namespace PolyArena

/-- The levels of `l'` are what is left of levels of `l`. -/
def Thins (l l' : Ladder) : Prop :=
  ∀ p size', l'.get? p = some size' → ∃ size, l.get? p = some size ∧ size' ≤ size ∧
    (0 < size → 0 < size')

section

variable {l l' l'' : Ladder} {o o' : SimulatedOrder} {p qty size : ℚ} {rest : List (ℚ × ℚ)}
  {fs : List (ℚ × ℚ)}

theorem Thins.refl (l : Ladder) : Thins l l := fun _ size h => ⟨size, h, le_rfl, id⟩

theorem Thins.trans (h : Thins l l') (h' : Thins l' l'') : Thins l l'' := by
  intro p size'' hsize''
  obtain ⟨size', hsize', hle', hpos'⟩ := h' p size'' hsize''
  obtain ⟨size, hsize, hle, hpos⟩ := h p size' hsize'
  exact ⟨size, hsize, hle'.trans hle, fun h => hpos' (hpos h)⟩

theorem thins_consume (hqty : 0 ≤ qty) : Thins l (l.consume p qty) := by
  intro p' size' h
  by_cases hp : p' = p
  · subst hp
    unfold Ladder.consume at h
    dsimp only at h
    split at h
    · rw [SortedDict.get?_erase_self] at h
      cases h
    · next hleft =>
      rw [SortedDict.get?_set_self, Option.some.injEq] at h
      have hsize' : 0 < size' := h ▸ dust_pos.trans_le (not_lt.mp hleft)
      cases hsize : l.get? p' with
      | none =>
        rw [SortedDict.getD, hsize, Option.getD_none] at hleft
        linarith [dust_pos]
      | some size =>
        rw [SortedDict.getD, hsize, Option.getD_some] at h
        exact ⟨size, rfl, by linarith, fun _ => hsize'⟩
  · rw [get?_consume_ne hp] at h
    exact ⟨size', h, le_rfl, id⟩

/-- **Matches** only take from the levels. -/
theorem Fills.thins (h : Fills l o fs l' o') : Thins l l' := by
  induction h with
  | nil => exact .refl _
  | cons _ _ hpos _ _ _ _ _ ih => exact (thins_consume hpos.le).trans ih

/-- What is taken is taken from the levels that were there. -/
theorem Takes.offered (h : Takes l fs l') : ∀ f ∈ fs, ∃ size, l.get? f.1 = some size ∧
    f.2 ≤ size := by
  induction h with
  | nil => exact fun f hf => absurd hf List.not_mem_nil
  | cons hsize hpos hle _ ih =>
    intro f hf
    rcases List.mem_cons.mp hf with rfl | hf
    · exact ⟨_, hsize, hle⟩
    · obtain ⟨size', hsize', hf⟩ := ih f hf
      obtain ⟨size, hsize, hless, -⟩ := thins_consume hpos.le _ _ hsize'
      exact ⟨size, hsize, hf.trans hless⟩

/-- Taking from the highest level. -/
theorem consume_top (h : l.items.reverse = (p, size) :: rest) (qty : ℚ) :
    (l.consume p qty).items.reverse =
      if size - qty < ME_DUST_THRESHOLD then rest else (p, size - qty) :: rest := by
  have hitems : l.items = rest.reverse ++ [(p, size)] := by
    rw [← List.reverse_reverse l.items, h, List.reverse_cons]
  have hsize : l.getD p 0 = size :=
    SortedDict.getD_items (p, size) (hitems ▸ List.mem_append_right _ List.mem_cons_self)
  unfold Ladder.consume
  dsimp only
  rw [hsize]
  split
  · rw [SortedDict.items_erase_last hitems, List.reverse_reverse]
  · rw [SortedDict.items_set_last hitems, List.reverse_append, List.reverse_reverse]
    rfl

/-- Taking all of the lowest level. -/
theorem consume_lowest (h : l.items = (p, size) :: rest) : (l.consume p size).items = rest := by
  have hsize : l.getD p 0 = size := SortedDict.getD_items (p, size) (h ▸ List.mem_cons_self)
  unfold Ladder.consume
  dsimp only
  rw [hsize, sub_self, if_pos dust_pos, SortedDict.items_erase_first h]

end

end PolyArena
