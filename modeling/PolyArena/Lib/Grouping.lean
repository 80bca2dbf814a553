import Mathlib.Algebra.BigOperators.Group.List.Basic
import Mathlib.Data.List.Nodup
import Mathlib.Tactic.Abel

/-!
# Grouping by key

A dictionary of lists that is filled by one pass over the rows, each appended to the list under its
key.  The keys are in the order of their first insertion.

1. `get_addAll`: a group holds the rows of its key, in their order.
2. `mem_keys_addAll`, `nodup_addAll`: there is one group for each key that occurs.
3. `total_addAll`: what is summed group by group is the sum over the rows.
-/

/-- A dictionary of lists. -/
abbrev Groups (κ α : Type*) := List (κ × List α)

namespace Groups

variable {κ α : Type*} [DecidableEq κ]

def keys (d : Groups κ α) : List κ := d.map Prod.fst

/-- The list under `k`, empty when there is none. -/
def get (d : Groups κ α) (k : κ) : List α := ((d.find? fun e => e.1 = k).map Prod.snd).getD []

/-- Append `x` to the list under `k`. -/
def add (d : Groups κ α) (k : κ) (x : α) : Groups κ α :=
  if k ∈ d.keys then d.map fun e => if e.1 = k then (e.1, e.2 ++ [x]) else e else d ++ [(k, [x])]

/-- One empty list under each key. -/
def ofKeys (ks : List κ) : Groups κ α := ks.map fun k => (k, [])

/-- One pass over the rows. -/
def addAll (d : Groups κ α) (key : α → κ) (xs : List α) : Groups κ α :=
  xs.foldl (fun d x => d.add (key x) x) d

section

variable {d : Groups κ α} {k k' : κ} {x : α} {key : α → κ} {xs : List α}

theorem get_eq_nil (h : k ∉ d.keys) : d.get k = [] := by
  have hnone : d.find? (fun e => decide (e.1 = k)) = none := by
    refine List.find?_eq_none.mpr fun e he heq => h ?_
    exact List.mem_map.mpr ⟨e, he, of_decide_eq_true heq⟩
  unfold get
  rw [hnone]
  rfl

theorem get_ofKeys (ks : List κ) : (ofKeys ks : Groups κ α).get k = [] := by
  unfold get ofKeys
  cases h : (ks.map fun k => (k, ([] : List α))).find? fun e => e.1 = k with
  | none => rfl
  | some e =>
    obtain ⟨k', -, rfl⟩ := List.mem_map.mp (List.mem_of_find?_eq_some h)
    rfl

theorem get_add : (d.add k x).get k' = d.get k' ++ if k = k' then [x] else [] := by
  unfold add
  by_cases hk : k ∈ d.keys
  · rw [if_pos hk]
    unfold get
    rw [List.find?_map]
    have hfun : ((fun e : κ × List α => decide (e.1 = k')) ∘ fun e =>
        if e.1 = k then (e.1, e.2 ++ [x]) else e) =
        fun e => decide (e.1 = k') := by
      funext e
      by_cases he : e.1 = k <;> simp [he]
    rw [hfun]
    cases hfind : d.find? (fun e => decide (e.1 = k')) with
    | none =>
      have hne : k ≠ k' := by
        rintro rfl
        obtain ⟨e, he, heq⟩ := List.mem_map.mp hk
        exact List.find?_eq_none.mp hfind e he (decide_eq_true heq)
      rw [if_neg hne]
      rfl
    | some e =>
      have he : e.1 = k' := by simpa using List.find?_some hfind
      by_cases hkk : k = k'
      · simp [he, hkk]
      · have hne : e.1 ≠ k := fun h => hkk (h.symm.trans he)
        simp [hne, hkk]
  · rw [if_neg hk]
    by_cases hkk : k = k'
    · subst hkk
      rw [get_eq_nil hk, if_pos rfl]
      unfold get
      have hnone : d.find? (fun e => decide (e.1 = k)) = none := by
        refine List.find?_eq_none.mpr fun e he heq => hk ?_
        exact List.mem_map.mpr ⟨e, he, of_decide_eq_true heq⟩
      rw [List.find?_append, hnone]
      simp
    · unfold get
      rw [List.find?_append]
      simp [hkk]

/-- **A group** holds the rows of its key. -/
theorem get_addAll : (d.addAll key xs).get k = d.get k ++ xs.filter fun x => key x = k := by
  unfold addAll
  induction xs generalizing d with
  | nil => exact (List.append_nil _).symm
  | cons x xs ih =>
    rw [List.foldl_cons, ih, get_add, List.append_assoc]
    by_cases hx : key x = k <;> simp [hx]

theorem keys_add : (d.add k x).keys = if k ∈ d.keys then d.keys else d.keys ++ [k] := by
  unfold add
  split_ifs
  · unfold keys
    rw [List.map_map]
    refine List.map_congr_left fun e _ => ?_
    by_cases he : e.1 = k <;> simp [he]
  · simp [keys]

theorem mem_keys_addAll : k ∈ (d.addAll key xs).keys ↔ k ∈ d.keys ∨ ∃ x ∈ xs, key x = k := by
  unfold addAll
  induction xs generalizing d with
  | nil => simp
  | cons x xs ih =>
    rw [List.foldl_cons, ih, keys_add]
    split_ifs with hx
    · constructor
      · rintro (h | ⟨y, hy, hk⟩)
        · exact .inl h
        · exact .inr ⟨y, List.mem_cons_of_mem _ hy, hk⟩
      · rintro (h | ⟨y, hy, hk⟩)
        · exact .inl h
        · rcases List.mem_cons.mp hy with rfl | hy
          · exact .inl (hk ▸ hx)
          · exact .inr ⟨y, hy, hk⟩
    · rw [List.mem_append, List.mem_singleton, or_assoc, List.exists_mem_cons_iff]
      exact or_congr_right (or_congr_left eq_comm)

theorem nodup_add (h : d.keys.Nodup) : (d.add k x).keys.Nodup := by
  rw [keys_add]
  split_ifs with hx
  · exact h
  · exact h.append (List.nodup_singleton _) (List.disjoint_singleton.mpr hx)

theorem nodup_addAll (h : d.keys.Nodup) : (d.addAll key xs).keys.Nodup := by
  unfold addAll
  induction xs generalizing d with
  | nil => exact h
  | cons x xs ih => exact ih (nodup_add h)

/-- The list of an entry is the group of its key. -/
theorem snd_of_mem (h : d.keys.Nodup) {e : κ × List α} (he : e ∈ d) : e.2 = d.get e.1 := by
  unfold get
  induction d with
  | nil => cases he
  | cons first rest ih =>
    obtain ⟨hnot, hnodup⟩ := List.nodup_cons.mp h
    rcases List.mem_cons.mp he with rfl | hrest
    · simp
    · have hne : first.1 ≠ e.1 := fun heq => hnot (heq ▸ List.mem_map_of_mem hrest)
      rw [List.find?_cons_of_neg (by simpa using hne)]
      exact ih hnodup hrest

end

section Total

variable {M : Type*} [AddCommMonoid M] {d : Groups κ α} {key : α → κ} {xs : List α} (f : α → M)

/-- The sum over all groups. -/
def total (d : Groups κ α) : M := (d.map fun e => (e.2.map f).sum).sum

theorem total_add (h : d.keys.Nodup) (k : κ) (x : α) : (d.add k x).total f = d.total f + f x := by
  unfold add
  by_cases hk : k ∈ d.keys
  · rw [if_pos hk]
    unfold total
    induction d with
    | nil => cases hk
    | cons e rest ih =>
      obtain ⟨hnot, hnodup⟩ := List.nodup_cons.mp h
      rw [List.map_cons, List.map_cons, List.sum_cons, List.map_cons, List.sum_cons]
      by_cases he : e.1 = k
      · have hother : ∀ r ∈ rest, (if r.1 = k then (r.1, r.2 ++ [x]) else r) = r := fun r hr =>
          if_neg fun hrk => hnot (List.mem_map.mpr ⟨r, hr, Eq.trans hrk he.symm⟩)
        rw [List.map_congr_left hother, List.map_id', if_pos he, List.map_append, List.sum_append,
          List.map_singleton, List.sum_singleton]
        abel
      · have hrest : k ∈ keys rest := (List.mem_cons.mp hk).resolve_left fun h => he h.symm
        rw [if_neg he, ih hnodup hrest, add_assoc]
  · rw [if_neg hk]
    simp [total]

/-- **Group by group** the same is summed up. -/
theorem total_addAll (h : d.keys.Nodup) :
    (d.addAll key xs).total f = d.total f + (xs.map f).sum := by
  unfold addAll
  induction xs generalizing d with
  | nil => exact (add_zero _).symm
  | cons x xs ih =>
    rw [List.foldl_cons, ih (nodup_add h), total_add f h, List.map_cons, List.sum_cons, add_assoc]

end Total

end Groups
