import PolyArena.Lib.Table
import PolyArena.Lib.Transducer
import Mathlib.Logic.Function.Basic

/-!
# A secondary index of a table

Each row of a table has some terms, and the index lists under each term the keys of the rows that
have it.  It has no entry for a term that no row has.

1. `add` and `remove` enter a key under some terms and take it out; `add_apply` and `remove_apply`
   say what is listed afterwards.
2. `Exact`: the index lists exactly the keys of the rows with the term, in their order.  Inserting
   and erasing a row with its terms keeps this, and so does overwriting a row by one with the same
   terms.
3. `Exact.count`: a key is then listed once under the terms of its row, and not at all under others.
4. `runOutputs_visit`: visiting the rows of different keys one after the other.
-/

/-- Lists of keys by term. -/
abbrev KeyIndex (τ κ : Type*) := τ → Option (List κ)

namespace KeyIndex

variable {τ κ α ω : Type*} [DecidableEq τ]

/-- The entry for a list of keys: none for the empty one. -/
def entry (l : List κ) : Option (List κ) := if l = [] then none else some l

/-- The keys that are listed under a term. -/
def listed (ix : KeyIndex τ κ) (x : τ) : List κ := (ix x).getD []

/-- `setdefault(x, []).append(k)` for each of the terms. -/
def add (ix : KeyIndex τ κ) (xs : List τ) (k : κ) : KeyIndex τ κ :=
  xs.foldl (fun ix x => Function.update ix x (some (ix.listed x ++ [k]))) ix

/-- Take the first `k` out of the list of each of the terms, and drop lists that are empty. -/
def remove [DecidableEq κ] (ix : KeyIndex τ κ) (xs : List τ) (k : κ) : KeyIndex τ κ :=
  xs.foldl (fun ix x => Function.update ix x (entry ((ix.listed x).erase k))) ix

/-- The index lists the keys of the rows with the term, in their order. -/
def Exact {key : α → κ} (ix : KeyIndex τ κ) (t : Table key) (terms : α → List τ) : Prop :=
  ∀ x, ix x = entry ((t.rows.filter fun a => x ∈ terms a).map key)

section

variable {ix : KeyIndex τ κ} {xs : List τ} {x : τ} {k : κ} {key : α → κ} {t : Table key}
  {terms : α → List τ} {a r : α}

@[simp] theorem getD_entry (l : List κ) : (entry l).getD [] = l := by
  unfold entry
  split
  · next h => exact h.symm
  · rfl

/-- A change of one entry after the other, for different terms. -/
theorem foldl_update_apply (f : List κ → Option (List κ)) (hxs : xs.Nodup) (x : τ) :
    (xs.foldl (fun (ix : KeyIndex τ κ) x => Function.update ix x (f (ix.listed x))) ix) x =
      if x ∈ xs then f (ix.listed x) else ix x := by
  induction xs generalizing ix with
  | nil => rfl
  | cons y xs ih =>
    rw [List.nodup_cons] at hxs
    rw [List.foldl_cons, ih hxs.2]
    by_cases hy : x = y
    · subst hy
      rw [if_neg hxs.1, if_pos List.mem_cons_self, Function.update_self]
    · unfold listed
      simp only [List.mem_cons, hy, false_or]
      rw [Function.update_of_ne hy]

theorem add_apply (hxs : xs.Nodup) (x : τ) :
    ix.add xs k x = if x ∈ xs then some (ix.listed x ++ [k]) else ix x :=
  foldl_update_apply (fun l => some (l ++ [k])) hxs x

theorem remove_apply [DecidableEq κ] (hxs : xs.Nodup) (x : τ) :
    ix.remove xs k x = if x ∈ xs then entry ((ix.listed x).erase k) else ix x :=
  foldl_update_apply (fun l => entry (l.erase k)) hxs x

/-! ## Exactness -/

theorem Exact.listed (h : Exact ix t terms) (x : τ) :
    ix.listed x = (t.rows.filter fun a => x ∈ terms a).map key := by
  rw [KeyIndex.listed, h x, getD_entry]

theorem Exact.nodup (h : Exact ix t terms) (x : τ) : (ix.listed x).Nodup := by
  rw [h.listed x]
  exact t.nodup.sublist (List.filter_sublist.map key)

theorem exact_empty : Exact (fun _ => none) (⟨[], List.nodup_nil⟩ : Table key) terms := fun _ => rfl

/-- **A new row** with its terms. -/
theorem Exact.insert (h : Exact ix t terms) (hfresh : key a ∉ t.rows.map key)
    (hterms : (terms a).Nodup) :
    Exact (ix.add (terms a) (key a)) (t.insert a hfresh) terms := by
  intro x
  rw [add_apply hterms, h.listed x]
  show _ = entry (((t.rows ++ [a]).filter fun a => x ∈ terms a).map key)
  rw [List.filter_append, List.map_append]
  by_cases hx : x ∈ terms a
  · simp [hx, entry]
  · rw [if_neg hx, h x]
    simp [hx]

variable [DecidableEq κ]

/-- **A row is erased**, and taken out under its terms. -/
theorem Exact.erase (h : Exact ix t terms) (hget : t.get k = some a) (hterms : (terms a).Nodup) :
    Exact (ix.remove (terms a) k) (t.erase k) terms := by
  have hkey : key a = k := Table.key_of_get hget
  intro x
  rw [remove_apply hterms]
  show _ = entry (((t.rows.filter fun a => key a ≠ k).filter fun a => x ∈ terms a).map key)
  have hkeys : ((t.rows.filter fun a => key a ≠ k).filter fun a => x ∈ terms a).map key =
      (ix.listed x).erase k := by
    rw [(h.nodup x).erase_eq_filter, h.listed x, List.filter_map, List.filter_filter,
      List.filter_filter]
    refine congrArg (List.map key) (List.filter_congr fun r _ => ?_)
    simp only [Function.comp_apply, ne_eq, Bool.and_comm]
    by_cases hr : key r = k <;> simp [hr]
  rw [hkeys]
  split
  · rfl
  · next hx =>
    -- the row had nothing to do with the term
    have hnot : k ∉ ix.listed x := by
      rw [h.listed x]
      intro hmem
      obtain ⟨r, hr, hrk⟩ := List.mem_map.mp hmem
      obtain ⟨hr, hrx⟩ := List.mem_filter.mp hr
      have hra : t.get k = some r := hrk ▸ Table.get_of_mem hr
      rw [hget] at hra
      obtain rfl := Option.some.inj hra
      exact hx (of_decide_eq_true hrx)
    rw [List.erase_of_not_mem hnot, h.listed x]
    exact h x

/-- **A row is overwritten** by one with the same terms. -/
theorem Exact.put (h : Exact ix t terms) (hget : t.get (key a) = some r)
    (hterms : terms a = terms r) :
    Exact ix (t.put a) terms := by
  intro x
  rw [h x]
  have hsame : ∀ y ∈ t.rows, key y = key a → y = r := by
    intro y hy hkey
    have hyr := Table.get_of_mem hy
    rw [hkey, hget] at hyr
    exact (Option.some.inj hyr).symm
  show _ = entry ((((t.rows.map fun r => if key r = key a then a else r)).filter
    fun a => x ∈ terms a).map key)
  rw [List.filter_map, List.map_map]
  congr 1
  have hfilter : t.rows.filter (fun y => decide (x ∈ terms y)) =
      t.rows.filter ((fun a => decide (x ∈ terms a)) ∘ fun r =>
        if key r = key a then a else r) := by
    refine List.filter_congr fun y hy => ?_
    by_cases hkey : key y = key a
    · obtain rfl := hsame y hy hkey
      simp [hkey, hterms]
    · simp [hkey]
  rw [← hfilter]
  refine List.map_congr_left fun y _ => ?_
  by_cases hkey : key y = key a <;> simp [hkey]

/-- **Listed once** under the terms of its row, and not under any other. -/
theorem Exact.count (h : Exact ix t terms) (x : τ) (k : κ) :
    (ix.listed x).count k = if (t.get k).any (fun a => x ∈ terms a) = true then 1 else 0 := by
  have hmem : k ∈ ix.listed x ↔ (t.get k).any (fun a => x ∈ terms a) = true := by
    rw [h.listed x, Option.any_eq_true]
    constructor
    · intro hk
      obtain ⟨a, ha, rfl⟩ := List.mem_map.mp hk
      obtain ⟨ha, hax⟩ := List.mem_filter.mp ha
      exact ⟨a, Table.get_of_mem ha, hax⟩
    · rintro ⟨a, ha, hax⟩
      rw [← Table.key_of_get ha]
      exact List.mem_map_of_mem (List.mem_filter.mpr ⟨Table.mem_of_get ha, hax⟩)
  split
  · next hk => exact List.count_eq_one_of_mem (h.nodup x) (hmem.mpr hk)
  · next hk => exact List.count_eq_zero_of_not_mem (hk ∘ hmem.mp)

end

/-! ## Visits -/

/-- Work on the row with a key, if there is one. -/
def visit [DecidableEq κ] {key : α → κ} (f : α → α × List ω) (t : Table key) (k : κ) :
    Table key × List ω :=
  match t.get k with
  | none => (t, [])
  | some a => (t.put (f a).1, (f a).2)

/-- **Visits of different keys**: each row with one of them is worked on once, in this order. -/
theorem runOutputs_visit [DecidableEq κ] {key : α → κ} {f : α → α × List ω}
    (hf : ∀ a, key (f a).1 = key a) {ks : List κ} (hks : ks.Nodup) (t : Table key) :
    (runOutputs (visit f) t ks).1.rows = t.rows.map (fun r => if key r ∈ ks then (f r).1 else r) ∧
      (runOutputs (visit f) t ks).2 = ks.flatMap fun k =>
        ((t.get k).map fun a => (f a).2).getD [] := by
  induction ks generalizing t with
  | nil => exact ⟨by simp, rfl⟩
  | cons k ks ih =>
    rw [List.nodup_cons] at hks
    obtain ⟨hrows, houts⟩ := ih hks.2 (visit f t k).1
    have hvisit : (visit f t k).1.rows = t.rows.map fun r => if key r = k then (f r).1 else r := by
      rw [← Table.modify_rows k fun a => hf a]
      unfold visit
      cases t.get k <;> rfl
    rw [runOutputs_cons]
    constructor
    · show (runOutputs (visit f) (visit f t k).1 ks).1.rows = _
      rw [hrows, hvisit, List.map_map]
      refine List.map_congr_left fun r _ => ?_
      by_cases hr : key r = k
      · have hnot : k ∉ ks := hks.1
        simp [hr, hf, hnot]
      · simp [hr]
    · show (visit f t k).2 ++ (runOutputs (visit f) (visit f t k).1 ks).2 = _
      rw [houts, List.flatMap_cons]
      congr 1
      · unfold visit
        cases t.get k <;> rfl
      · refine List.flatMap_congr fun k' hk' => ?_
        have hne : k' ≠ k := fun e => hks.1 (e ▸ hk')
        unfold visit
        cases hget : t.get k with
        | none => rfl
        | some a =>
          have hkey : key (f a).1 = k := (hf a).trans (Table.key_of_get hget)
          dsimp only
          rw [Table.get_put_ne (hkey.symm ▸ hne)]

end KeyIndex
