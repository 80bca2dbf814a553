import Mathlib.Data.List.Pairwise
import Mathlib.Order.Lattice
import Mathlib.Data.List.Nodup

/-!
# Sorted dictionaries

A dictionary over ordered keys, kept as its list of items in ascending key order.  `set` inserts or
replaces, `erase` removes.  `get?` determines everything: the lemmas below say what each operation
does to `get?`, and that the key list has the keys with a value, each once.
-/

/-- A dictionary whose items are in ascending key order. -/
structure SortedDict (κ α : Type*) [LinearOrder κ] where
  items : List (κ × α)
  sorted : items.Pairwise fun a b => a.1 < b.1
  deriving DecidableEq

namespace SortedDict

variable {κ α : Type*} [LinearOrder κ]

def empty : SortedDict κ α := ⟨[], .nil⟩

instance : EmptyCollection (SortedDict κ α) := ⟨empty⟩

/-- The value at `k`. -/
def get? (d : SortedDict κ α) (k : κ) : Option α := (d.items.find? fun e => e.1 = k).map Prod.snd

/-- The value at `k`, or `v`. -/
def getD (d : SortedDict κ α) (k : κ) (v : α) : α := (d.get? k).getD v

/-- The keys, ascending. -/
def keys (d : SortedDict κ α) : List κ := d.items.map Prod.fst

def isEmpty (d : SortedDict κ α) : Bool := d.items.isEmpty

/-- The item of the least key. -/
def peekFirst (d : SortedDict κ α) : Option (κ × α) := d.items.head?

/-- The item of the greatest key. -/
def peekLast (d : SortedDict κ α) : Option (κ × α) := d.items.getLast?

/-- Insert into a sorted item list, replacing the item of the same key. -/
def setItem (k : κ) (v : α) : List (κ × α) → List (κ × α)
  | [] => [(k, v)]
  | e :: rest =>
    if k < e.1 then (k, v) :: e :: rest
    else if k = e.1 then (k, v) :: rest
    else e :: setItem k v rest

theorem mem_setItem {k : κ} {v : α} {e : κ × α} {l : List (κ × α)} (h : e ∈ setItem k v l) :
    e = (k, v) ∨ e ∈ l := by
  induction l with
  | nil => simpa [setItem] using h
  | cons x rest ih =>
    unfold setItem at h
    split_ifs at h with h1 h2
    · simpa using h
    · rcases List.mem_cons.mp h with h | h
      · exact .inl h
      · exact .inr (List.mem_cons_of_mem _ h)
    · rcases List.mem_cons.mp h with h | h
      · exact .inr (h ▸ List.mem_cons_self)
      · rcases ih h with h | h
        · exact .inl h
        · exact .inr (List.mem_cons_of_mem _ h)

theorem sorted_setItem {k : κ} {v : α} {l : List (κ × α)}
    (h : l.Pairwise fun a b => a.1 < b.1) : (setItem k v l).Pairwise fun a b => a.1 < b.1 := by
  induction l with
  | nil => simp [setItem]
  | cons e rest ih =>
    rw [List.pairwise_cons] at h
    unfold setItem
    split_ifs with h1 h2
    · refine List.pairwise_cons.mpr ⟨fun x hx => ?_, List.pairwise_cons.mpr h⟩
      rcases List.mem_cons.mp hx with rfl | hx
      · exact h1
      · exact h1.trans (h.1 x hx)
    · exact List.pairwise_cons.mpr ⟨fun x hx => h2 ▸ h.1 x hx, h.2⟩
    · refine List.pairwise_cons.mpr ⟨fun x hx => ?_, ih h.2⟩
      rcases mem_setItem hx with rfl | hx
      · exact lt_of_le_of_ne (not_lt.mp h1) (Ne.symm h2)
      · exact h.1 x hx

/-- `d[k] = v`. -/
def set (d : SortedDict κ α) (k : κ) (v : α) : SortedDict κ α :=
  ⟨setItem k v d.items, sorted_setItem d.sorted⟩

/-- The items whose key satisfies `p`. -/
def filterKeys (d : SortedDict κ α) (p : κ → Bool) : SortedDict κ α :=
  ⟨d.items.filter fun e => p e.1, d.sorted.filter _⟩

/-- `d.pop(k, None)`. -/
def erase (d : SortedDict κ α) (k : κ) : SortedDict κ α := d.filterKeys (· ≠ k)

section

variable {d : SortedDict κ α} {k k' : κ} {v : α}

@[simp] theorem get?_empty : (∅ : SortedDict κ α).get? k = none := rfl

@[simp] theorem get?_set_self (d : SortedDict κ α) (k : κ) (v : α) :
    (d.set k v).get? k = some v := by
  obtain ⟨l, hl⟩ := d
  unfold get? set
  dsimp only
  clear hl
  induction l with
  | nil => simp [setItem]
  | cons e rest ih =>
    unfold setItem
    split_ifs with h1 h2
    · simp
    · simp
    · rw [List.find?_cons_of_neg (by simpa using Ne.symm h2)]
      exact ih

theorem get?_set_ne (h : k' ≠ k) : (d.set k v).get? k' = d.get? k' := by
  obtain ⟨l, hl⟩ := d
  unfold get? set
  dsimp only
  clear hl
  induction l with
  | nil => simp [setItem, h.symm]
  | cons e rest ih =>
    unfold setItem
    split_ifs with h1 h2
    · rw [List.find?_cons_of_neg (by simpa using h.symm)]
    · rw [List.find?_cons_of_neg (by simpa using h.symm),
        List.find?_cons_of_neg (by simpa using h2 ▸ h.symm)]
    · by_cases he : e.1 = k'
      · rw [List.find?_cons_of_pos (by simpa using he), List.find?_cons_of_pos (by simpa using he)]
      · rw [List.find?_cons_of_neg (by simpa using he), List.find?_cons_of_neg (by simpa using he)]
        exact ih

theorem get?_filterKeys (d : SortedDict κ α) (p : κ → Bool) (k : κ) :
    (d.filterKeys p).get? k = if p k then d.get? k else none := by
  unfold get? filterKeys
  rw [List.find?_filter]
  by_cases hp : p k = true
  · rw [if_pos hp]
    congr 2
    funext e
    by_cases he : e.1 = k
    · simp [he, hp]
    · simp [he]
  · rw [if_neg hp, Option.map_eq_none_iff, List.find?_eq_none]
    intro e _
    by_cases he : e.1 = k
    · simp [he, hp]
    · simp [he]

@[simp] theorem get?_erase_self (d : SortedDict κ α) (k : κ) : (d.erase k).get? k = none := by
  simp [erase, get?_filterKeys]

theorem get?_erase_ne (h : k' ≠ k) : (d.erase k).get? k' = d.get? k' := by
  simp [erase, get?_filterKeys, h]

theorem nodup_keys (d : SortedDict κ α) : d.keys.Nodup := by
  unfold keys
  rw [List.nodup_iff_pairwise_ne, List.pairwise_map]
  exact d.sorted.imp fun h => ne_of_lt h

theorem get?_of_mem_items (h : (k, v) ∈ d.items) : d.get? k = some v := by
  unfold get?
  cases hfind : d.items.find? fun e => e.1 = k with
  | none => simpa using List.find?_eq_none.mp hfind (k, v) h
  | some e =>
    have hk : e.1 = k := by simpa using List.find?_some hfind
    have he : e = (k, v) :=
      List.inj_on_of_nodup_map d.nodup_keys (List.mem_of_find?_eq_some hfind) h hk
    rw [he]
    rfl

theorem pairwise_keys (d : SortedDict κ α) : d.keys.Pairwise (· < ·) := by
  unfold keys
  rw [List.pairwise_map]
  exact d.sorted

/-- The keys are those with a value. -/
theorem mem_keys : k ∈ d.keys ↔ ∃ v, d.get? k = some v := by
  constructor
  · intro hk
    obtain ⟨⟨k', v⟩, hmem, rfl⟩ := List.mem_map.mp hk
    exact ⟨v, get?_of_mem_items hmem⟩
  · rintro ⟨v, hv⟩
    obtain ⟨e, he, -⟩ := Option.map_eq_some_iff.mp hv
    have hk : e.1 = k := by simpa using List.find?_some he
    exact hk ▸ List.mem_map_of_mem (List.mem_of_find?_eq_some he)

/-- The last item has the greatest key. -/
theorem peekLast_eq_some (h : d.peekLast = some (k, v)) :
    d.get? k = some v ∧ ∀ k' v', d.get? k' = some v' → k' ≤ k := by
  have hitems : d.items.dropLast ++ [(k, v)] = d.items := List.dropLast_append_getLast? _ h
  refine ⟨get?_of_mem_items (hitems ▸ List.mem_append_right _ List.mem_cons_self),
    fun k' v' hk' => ?_⟩
  obtain ⟨e, he, -⟩ := Option.map_eq_some_iff.mp hk'
  obtain rfl : e.1 = k' := by simpa using List.find?_some he
  have hmem := List.mem_of_find?_eq_some he
  have hsorted := d.sorted
  rw [← hitems] at hmem hsorted
  rcases List.mem_append.mp hmem with hmem | hmem
  · exact (List.pairwise_append.mp hsorted |>.2.2 e hmem _ List.mem_cons_self).le
  · rw [List.mem_singleton.mp hmem]

/-- The last key is the greatest. -/
theorem peekLast_key_iff : d.peekLast.map Prod.fst = some k ↔
    k ∈ d.keys ∧ ∀ k' ∈ d.keys, k' ≤ k := by
  constructor
  · intro h
    obtain ⟨⟨k, v⟩, hlast, rfl⟩ := Option.map_eq_some_iff.mp h
    obtain ⟨hv, hmax⟩ := peekLast_eq_some hlast
    refine ⟨mem_keys.mpr ⟨v, hv⟩, fun k' hk' => ?_⟩
    obtain ⟨v', hv'⟩ := mem_keys.mp hk'
    exact hmax k' v' hv'
  · rintro ⟨hk, hmax⟩
    obtain ⟨v, hv⟩ := mem_keys.mp hk
    cases hlast : d.peekLast with
    | none =>
      have hnil : d.items = [] := List.getLast?_eq_none_iff.mp hlast
      rw [keys, hnil] at hk
      exact absurd hk List.not_mem_nil
    | some e =>
      obtain ⟨he, hgreatest⟩ := peekLast_eq_some hlast
      exact congrArg some (le_antisymm (hmax e.1 (mem_keys.mpr ⟨e.2, he⟩)) (hgreatest k v hv))

/-- The first key is the least. -/
theorem peekFirst_key_iff : d.peekFirst.map Prod.fst = some k ↔
    k ∈ d.keys ∧ ∀ k' ∈ d.keys, k ≤ k' := by
  have hhead : d.peekFirst.map Prod.fst = d.keys.head? := List.head?_map.symm
  have hsorted := d.pairwise_keys
  rw [hhead]
  cases hkeys : d.keys with
  | nil => simp
  | cons first rest =>
    rw [hkeys, List.pairwise_cons] at hsorted
    rw [List.head?_cons, Option.some.injEq]
    constructor
    · rintro rfl
      refine ⟨List.mem_cons_self, fun k' hk' => ?_⟩
      rcases List.mem_cons.mp hk' with rfl | hk'
      · exact le_rfl
      · exact (hsorted.1 k' hk').le
    · rintro ⟨hk, hmin⟩
      rcases List.mem_cons.mp hk with rfl | hk
      · rfl
      · exact absurd (hmin first List.mem_cons_self) (not_le.mpr (hsorted.1 k hk))

theorem mem_keys_set : k' ∈ (d.set k v).keys ↔ k' = k ∨ k' ∈ d.keys := by
  by_cases h : k' = k
  · subst h
    simp [mem_keys]
  · simp [mem_keys, get?_set_ne h, h]

/-- The last item stays last when its value is set. -/
theorem items_set_last {l : List (κ × α)} (h : d.items = l ++ [(k, v)]) (v' : α) :
    (d.set k v').items = l ++ [(k, v')] := by
  have hsorted := d.sorted
  rw [h] at hsorted
  unfold set
  dsimp only
  rw [h]
  clear h
  induction l with
  | nil => simp [setItem]
  | cons e l ih =>
    rw [List.cons_append, List.pairwise_cons] at hsorted
    have hlt : e.1 < k := hsorted.1 (k, v) (List.mem_append_right _ List.mem_cons_self)
    rw [List.cons_append, setItem, if_neg hlt.not_gt, if_neg hlt.ne', ih hsorted.2]
    rfl

/-- Without the first item. -/
theorem items_erase_first {l : List (κ × α)} (h : d.items = (k, v) :: l) :
    (d.erase k).items = l := by
  have hsorted := d.sorted
  rw [h, List.pairwise_cons] at hsorted
  have hkept : ∀ e ∈ l, decide (e.1 ≠ k) = true := fun e he => decide_eq_true (hsorted.1 e he).ne'
  unfold erase filterKeys
  dsimp only
  rw [h, List.filter_cons_of_neg (by simp), List.filter_eq_self.mpr hkept]

/-- Without the last item. -/
theorem items_erase_last {l : List (κ × α)} (h : d.items = l ++ [(k, v)]) :
    (d.erase k).items = l := by
  have hsorted := d.sorted
  rw [h, List.pairwise_append] at hsorted
  have hkept : ∀ e ∈ l, decide (e.1 ≠ k) = true := fun e he =>
    decide_eq_true (hsorted.2.2 e he (k, v) List.mem_cons_self).ne
  unfold erase filterKeys
  dsimp only
  rw [h, List.filter_append, List.filter_eq_self.mpr hkept, List.filter_cons_of_neg (by simp),
    List.filter_nil, List.append_nil]

end

end SortedDict
