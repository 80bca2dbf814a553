import Mathlib.Data.List.Nodup
import Mathlib.Algebra.BigOperators.Group.List.Basic
import Mathlib.Logic.Equiv.Defs
import Mathlib.Tactic.Abel

/-!
# Keyed tables

A `Table key` is a list of rows no two of which share a key, the way a database table with a primary
key is.  `get` looks a row up, `put` overwrites the row of the same key in place and `insert`
appends a row with a new key.  `total f` sums `f` over the rows; `total_put` is the only fact about
sums that a row update needs.  `mapRows` rewrites the rows in place; `put` and a conditional update
of the row with a key are instances, so that what several of them make of a table is read off row by
row.  `rekey` moves the keys along a permutation; every operation commutes with it.
-/

/-- Rows without two of the same key. -/
structure Table {κ α : Type*} (key : α → κ) where
  rows : List α
  nodup : (rows.map key).Nodup

namespace Table

variable {κ α : Type*} [DecidableEq κ] {key : α → κ}

/-- The row with key `k`. -/
def get (t : Table key) (k : κ) : Option α := t.rows.find? fun a => key a = k

/-- Overwrite the row that has the key of `a`; nothing happens when there is none. -/
def put (t : Table key) (a : α) : Table key where
  rows := t.rows.map fun r => if key r = key a then a else r
  nodup := by
    have hkeys : (t.rows.map fun r => if key r = key a then a else r).map key = t.rows.map key := by
      rw [List.map_map]
      refine List.map_congr_left fun r _ => ?_
      by_cases h : key r = key a <;> simp [h]
    rw [hkeys]
    exact t.nodup

/-- Append a row whose key is new. -/
def insert (t : Table key) (a : α) (h : key a ∉ t.rows.map key) : Table key where
  rows := t.rows ++ [a]
  nodup := by
    rw [List.map_append]
    exact t.nodup.append (List.nodup_singleton _) (by simpa using h)

/-- Delete the row with key `k`, if there is one. -/
def erase (t : Table key) (k : κ) : Table key where
  rows := t.rows.filter fun a => key a ≠ k
  nodup := t.nodup.sublist (List.filter_sublist.map key)

/-- Keep the rows with a property. -/
def filter (t : Table key) (p : α → Bool) : Table key where
  rows := t.rows.filter p
  nodup := t.nodup.sublist (List.filter_sublist.map key)

/-- Rewrite every row by a function that keeps the key. -/
def mapRows (t : Table key) (f : α → α) (hf : ∀ a, key (f a) = key a) : Table key where
  rows := t.rows.map f
  nodup := by
    rw [List.map_map, show key ∘ f = key from funext hf]
    exact t.nodup

/-- Rewrite every row by a function that moves the keys along `σ`. -/
def rekey (t : Table key) (σ : Equiv.Perm κ) (f : α → α) (hf : ∀ a, key (f a) = σ (key a)) :
    Table key where
  rows := t.rows.map f
  nodup := by
    rw [List.map_map, show key ∘ f = σ ∘ key from funext hf, ← List.map_map]
    exact t.nodup.map σ.injective

/-- The sum of `f` over the rows. -/
def total {M : Type*} [AddCommMonoid M] (t : Table key) (f : α → M) : M := (t.rows.map f).sum

section Lookup

variable {t : Table key} {a r : α} {k : κ}

theorem key_of_get (h : t.get k = some r) : key r = k := by
  simpa using List.find?_some h

theorem mem_of_get (h : t.get k = some r) : r ∈ t.rows := List.mem_of_find?_eq_some h

theorem get_key_of_get (h : t.get k = some r) : t.get (key r) = some r := by
  rwa [key_of_get h]

/-- A row is found under its own key: no other row has it. -/
theorem get_of_mem (h : r ∈ t.rows) : t.get (key r) = some r := by
  obtain ⟨rows, hnd⟩ := t
  unfold get
  induction rows with
  | nil => simp at h
  | cons x xs ih =>
    rw [List.map_cons, List.nodup_cons] at hnd
    rcases List.mem_cons.mp h with rfl | hx
    · simp
    · have hne : key x ≠ key r := fun e => hnd.1 (e ▸ List.mem_map_of_mem hx)
      rw [List.find?_cons_of_neg (by simpa using hne)]
      exact ih hnd.2 hx

/-- The rows with a key are at most one. -/
theorem filter_key (t : Table key) (k : κ) :
    t.rows.filter (fun a => key a = k) = (t.get k).toList := by
  obtain ⟨rows, hnd⟩ := t
  unfold get
  induction rows with
  | nil => rfl
  | cons x xs ih =>
    rw [List.map_cons, List.nodup_cons] at hnd
    by_cases hx : key x = k
    · have hrest : xs.filter (fun a => key a = k) = [] :=
        List.filter_eq_nil_iff.mpr fun y hy e =>
          hnd.1 (hx.trans (of_decide_eq_true e).symm ▸ List.mem_map_of_mem hy)
      rw [List.filter_cons_of_pos (by simpa using hx),
        List.find?_cons_of_pos (by simpa using hx), hrest]
      rfl
    · rw [List.filter_cons_of_neg (by simpa using hx), List.find?_cons_of_neg (by simpa using hx)]
      exact ih hnd.2

theorem mem_put : r ∈ (t.put a).rows → r = a ∨ r ∈ t.rows ∧ key r ≠ key a := by
  intro h
  obtain ⟨x, hx, rfl⟩ := List.mem_map.mp h
  by_cases hk : key x = key a
  · exact .inl (if_pos hk)
  · rw [if_neg hk]
    exact .inr ⟨hx, hk⟩

theorem mem_put_self (h : t.get (key a) = some r) : a ∈ (t.put a).rows :=
  List.mem_map.mpr ⟨r, mem_of_get h, if_pos (key_of_get h)⟩

theorem get_put_self (h : t.get (key a) = some r) : (t.put a).get (key a) = some a :=
  get_of_mem (mem_put_self h)

theorem get_put_ne (hk : k ≠ key a) : (t.put a).get k = t.get k := by
  unfold get put
  rw [List.find?_map]
  have hfun : (fun x => decide (key x = k)) ∘ (fun r => if key r = key a then a else r) =
      fun r => decide (key r = k) := by
    funext r
    by_cases hr : key r = key a
    · simp [hr, hk.symm]
    · simp [hr]
  rw [hfun]
  cases hf : t.rows.find? (fun r => decide (key r = k)) with
  | none => rfl
  | some x =>
    have hx : key x = k := by simpa using List.find?_some hf
    rw [Option.map_some, if_neg (hx.trans_ne hk)]

theorem get_insert_self {h : key a ∉ t.rows.map key} : (t.insert a h).get (key a) = some a :=
  get_of_mem (List.mem_append_right _ (List.mem_singleton_self a))

theorem get_insert_ne {h : key a ∉ t.rows.map key} (hk : k ≠ key a) :
    (t.insert a h).get k = t.get k := by
  unfold get insert
  rw [List.find?_append, List.find?_cons_of_neg (by simpa using hk.symm), List.find?_nil,
    Option.or_none]

theorem get_erase_ne {k' : κ} (hk : k ≠ k') : (t.erase k').get k = t.get k := by
  unfold get erase
  rw [List.find?_filter]
  congr 1
  funext r
  by_cases hr : key r = k
  · simp [hr, hk]
  · simp [hr]

/-- Putting back the row that is there changes nothing. -/
theorem put_of_get (h : t.get (key a) = some a) : t.put a = t := by
  have hrow : ∀ r ∈ t.rows, (if key r = key a then a else r) = r := by
    intro r hr
    by_cases hk : key r = key a
    · have := get_of_mem hr
      rw [hk, h, Option.some.injEq] at this
      rw [if_pos hk, this]
    · exact if_neg hk
  obtain ⟨rows, hnd⟩ := t
  unfold put
  congr 1
  calc _ = rows.map id := List.map_congr_left hrow
    _ = rows := List.map_id _

end Lookup

section MapRows

variable {t t' : Table key}

omit [DecidableEq κ] in
theorem ext_rows (h : t.rows = t'.rows) : t = t' := by
  obtain ⟨rows, hnd⟩ := t
  obtain ⟨rows', hnd'⟩ := t'
  cases h
  rfl

/-- Overwriting the row that was inserted last. -/
theorem put_insert {a a' : α} (h : key a ∉ t.rows.map key) (hkey : key a' = key a) :
    ((t.insert a h).put a').rows = t.rows ++ [a'] := by
  have hother : ∀ r ∈ t.rows, (if key r = key a' then a' else r) = r := by
    intro r hr
    refine if_neg fun e => h ?_
    rw [← hkey, ← e]
    exact List.mem_map_of_mem hr
  show (t.rows ++ [a]).map _ = _
  rw [List.map_append, List.map_congr_left hother, List.map_id', List.map_singleton,
    if_pos hkey.symm]

/-- Updating the row with key `k`, when there is one. -/
theorem modify_rows (k : κ) {f : α → α} (hf : ∀ a, key (f a) = key a) :
    (match t.get k with
      | none => t
      | some a => t.put (f a)).rows = t.rows.map fun r => if key r = k then f r else r := by
  cases hget : t.get k with
  | none =>
    have hother : ∀ r ∈ t.rows, (if key r = k then f r else r) = r := by
      intro r hr
      refine if_neg fun hk => ?_
      have hr' := get_of_mem hr
      rw [hk, hget] at hr'
      cases hr'
    calc t.rows = t.rows.map id := (List.map_id _).symm
      _ = _ := List.map_congr_left fun r hr => (hother r hr).symm
  | some a =>
    refine List.map_congr_left fun r hr => ?_
    rw [hf, key_of_get hget]
    by_cases hk : key r = k
    · have hr' := get_of_mem hr
      rw [hk, hget] at hr'
      cases hr'
      rfl
    · rw [if_neg hk, if_neg hk]

end MapRows

section Rekey

variable {t : Table key} {σ : Equiv.Perm κ} {f : α → α} (hf : ∀ a, key (f a) = σ (key a)) {a : α}

theorem get_rekey (k : κ) : (t.rekey σ f hf).get (σ k) = (t.get k).map f := by
  unfold get rekey
  rw [List.find?_map]
  congr 2
  funext r
  simp [hf]

theorem put_rekey : (t.put a).rekey σ f hf = (t.rekey σ f hf).put (f a) := by
  refine ext_rows ?_
  show (t.rows.map _).map f = (t.rows.map f).map _
  rw [List.map_map, List.map_map]
  refine List.map_congr_left fun r _ => ?_
  by_cases hk : key r = key a
  · simp [hf, hk]
  · simp [hf, hk]

end Rekey

section Total

variable {M : Type*} [AddCommGroup M] {t : Table key} {a r : α}

omit [DecidableEq κ] in
theorem total_insert (f : α → M) {h : key a ∉ t.rows.map key} :
    (t.insert a h).total f = t.total f + f a := by
  unfold total insert
  rw [List.map_append, List.sum_append, List.map_singleton, List.sum_singleton]

omit [DecidableEq κ] in
/-- Rows that count for nothing may go. -/
theorem total_filter {p : α → Bool} {f : α → M} (h : ∀ a, p a = false → f a = 0) :
    (t.filter p).total f = t.total f := by
  unfold total filter
  dsimp only
  induction t.rows with
  | nil => rfl
  | cons a rows ih =>
    cases hp : p a with
    | true => rw [List.filter_cons_of_pos hp, List.map_cons, List.map_cons, List.sum_cons,
        List.sum_cons, ih]
    | false =>
      rw [List.filter_cons_of_neg (by rw [hp]; exact Bool.false_ne_true), List.map_cons,
        List.sum_cons, h a hp, zero_add, ih]

/-- Overwriting a row changes a sum by the difference of the two rows. -/
theorem total_put (f : α → M) (h : t.get (key a) = some r) :
    (t.put a).total f = t.total f - f r + f a := by
  obtain ⟨rows, hnd⟩ := t
  unfold get at h
  unfold total put
  dsimp only at h ⊢
  induction rows with
  | nil => simp at h
  | cons x xs ih =>
    rw [List.map_cons, List.nodup_cons] at hnd
    by_cases hx : key x = key a
    · rw [List.find?_cons_of_pos (by simpa using hx)] at h
      obtain rfl : x = r := by simpa using h
      have hrest : xs.map (fun r => if key r = key a then a else r) = xs := by
        have hother : ∀ y ∈ xs, key y ≠ key a := fun y hy e =>
          hnd.1 (hx ▸ e ▸ List.mem_map_of_mem hy)
        calc _ = xs.map id := List.map_congr_left fun y hy => if_neg (hother y hy)
          _ = xs := List.map_id _
      rw [List.map_cons, hrest, if_pos hx]
      simp only [List.map_cons, List.sum_cons]
      abel
    · rw [List.find?_cons_of_neg (by simpa using hx)] at h
      simp only [List.map_cons, List.sum_cons, if_neg hx]
      rw [ih hnd.2 h]
      abel

end Total

end Table
