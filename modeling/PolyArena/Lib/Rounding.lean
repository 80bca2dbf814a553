import Mathlib.Algebra.Order.Floor.Ring
import Mathlib.Data.Rat.Floor
import Mathlib.Algebra.Group.Subgroup.ZPowers.Basic
import Mathlib.Tactic.Linarith
import Mathlib.Tactic.FieldSimp
import Mathlib.Tactic.Positivity

/-!
# Rounding to a decimal grid

`halfEven x` is the integer nearest to the rational `x`, a tie going to the even neighbour.
`roundTo d` rounds to the multiples of `10⁻ᵈ`, the subgroup `grid d`.  A value of the grid is its
own rounding, rounding is monotone, and it moves a value by at most half a unit.  Two roundings add
up to at most the rounding of the sum and half a unit (`roundTo_add_le`).

`toColumn d` rounds to the same multiples, a tie going away from zero.  Only ties tell the two
apart.
-/

namespace Rounding

/-- The nearest integer, ties to even. -/
def halfEven (x : ℚ) : ℤ :=
  let f := ⌊x⌋
  if x - f < 1 / 2 then f
  else if 1 / 2 < x - f then f + 1
  else if f % 2 = 0 then f else f + 1

theorem halfEven_intCast (n : ℤ) : halfEven n = n := by
  unfold halfEven
  dsimp only
  rw [Int.floor_intCast, sub_self, if_pos (by norm_num)]

theorem abs_halfEven_sub_le (x : ℚ) : |(halfEven x : ℚ) - x| ≤ 1 / 2 := by
  have h0 := Int.floor_le x
  have h1 := Int.lt_floor_add_one x
  unfold halfEven
  rw [abs_le]
  dsimp only
  split_ifs <;> push_cast <;> constructor <;> linarith

/-- Rounding is monotone: two values whose roundings are out of order would both be the tie. -/
theorem halfEven_mono {x y : ℚ} (h : x ≤ y) : halfEven x ≤ halfEven y := by
  by_contra hlt
  have hstep : (halfEven y : ℚ) + 1 ≤ halfEven x := by exact_mod_cast not_le.mp hlt
  have hx := abs_le.mp (abs_halfEven_sub_le x)
  have hy := abs_le.mp (abs_halfEven_sub_le y)
  have hxy : x = y := by linarith [hx.2, hy.1]
  subst hxy
  exact hlt le_rfl

/-- What is moved by half a unit is a tie, and goes to an even integer. -/
theorem even_halfEven_of_tie {x : ℚ} (h : |(halfEven x : ℚ) - x| = 1 / 2) :
    halfEven x % 2 = 0 := by
  have h0 := Int.floor_le x
  have h1 := Int.lt_floor_add_one x
  rcases eq_or_eq_neg_of_abs_eq h with hup | hdown
  · revert hup
    unfold halfEven
    dsimp only
    split_ifs with hlow hhigh heven <;> push_cast <;> intro hup
    · linarith
    · linarith
    · linarith
    · omega
  · revert hdown
    unfold halfEven
    dsimp only
    split_ifs with hlow hhigh heven <;> push_cast <;> intro hdown
    · linarith
    · linarith
    · exact heven
    · linarith

/-- **Roundings that are added up** exceed a single rounding by half a unit at most: only two ties
that both went up could exceed it by more, to an even sum, where the tie of the sum goes as well. -/
theorem halfEven_add_le (x y : ℚ) : halfEven x + halfEven y ≤ halfEven (x + y + 1 / 2) := by
  by_contra hlt
  have hstep : (halfEven (x + y + 1 / 2) : ℚ) + 1 ≤ halfEven x + halfEven y := by
    exact_mod_cast not_le.mp hlt
  have hx := abs_le.mp (abs_halfEven_sub_le x)
  have hy := abs_le.mp (abs_halfEven_sub_le y)
  have hsum := abs_le.mp (abs_halfEven_sub_le (x + y + 1 / 2))
  have hxtie : (halfEven x : ℚ) - x = 1 / 2 := by linarith [hx.2, hy.2, hsum.1]
  have hytie : (halfEven y : ℚ) - y = 1 / 2 := by linarith [hx.2, hy.2, hsum.1]
  have hsumtie : (halfEven (x + y + 1 / 2) : ℚ) - (x + y + 1 / 2) = -(1 / 2) := by
    linarith [hx.2, hy.2, hsum.1]
  have hxeven := even_halfEven_of_tie (x := x) (by rw [hxtie]; norm_num)
  have hyeven := even_halfEven_of_tie (x := y) (by rw [hytie]; norm_num)
  have hsumeven := even_halfEven_of_tie (x := x + y + 1 / 2) (by rw [hsumtie]; norm_num)
  have heq : halfEven x + halfEven y = halfEven (x + y + 1 / 2) + 1 := by
    have : (halfEven x : ℚ) + halfEven y = halfEven (x + y + 1 / 2) + 1 := by linarith
    exact_mod_cast this
  omega

/-- The multiples of `10⁻ᵈ`. -/
def grid (d : ℕ) : AddSubgroup ℚ := AddSubgroup.zmultiples (1 / 10 ^ d : ℚ)

/-- `x` rounded to `d` decimal digits. -/
def roundTo (d : ℕ) (x : ℚ) : ℚ := halfEven (x * 10 ^ d) / 10 ^ d

section

variable {d : ℕ} {x y g : ℚ}

theorem mem_grid_iff : x ∈ grid d ↔ ∃ k : ℤ, x = k / 10 ^ d := by
  unfold grid
  rw [AddSubgroup.mem_zmultiples_iff]
  constructor
  · rintro ⟨k, rfl⟩
    exact ⟨k, by rw [zsmul_eq_mul]; ring⟩
  · rintro ⟨k, rfl⟩
    exact ⟨k, by rw [zsmul_eq_mul]; ring⟩

@[simp] theorem roundTo_mem_grid (d : ℕ) (x : ℚ) : roundTo d x ∈ grid d :=
  mem_grid_iff.mpr ⟨_, rfl⟩

theorem roundTo_of_mem (h : x ∈ grid d) : roundTo d x = x := by
  obtain ⟨k, rfl⟩ := mem_grid_iff.mp h
  unfold roundTo
  rw [div_mul_cancel₀ _ (by positivity), halfEven_intCast]

@[simp] theorem roundTo_zero (d : ℕ) : roundTo d 0 = 0 := roundTo_of_mem (zero_mem _)

theorem mem_grid_iff_roundTo : x ∈ grid d ↔ roundTo d x = x :=
  ⟨roundTo_of_mem, fun h => h ▸ roundTo_mem_grid d x⟩

instance : Decidable (x ∈ grid d) := decidable_of_iff _ mem_grid_iff_roundTo.symm

theorem roundTo_mono (h : x ≤ y) : roundTo d x ≤ roundTo d y := by
  unfold roundTo
  have : halfEven (x * 10 ^ d) ≤ halfEven (y * 10 ^ d) :=
    halfEven_mono (mul_le_mul_of_nonneg_right h (by positivity))
  gcongr

theorem roundTo_nonneg (h : 0 ≤ x) : 0 ≤ roundTo d x := by
  simpa using roundTo_mono (d := d) h

/-- A value below a grid value rounds to at most it. -/
theorem roundTo_le_of_mem (hg : g ∈ grid d) (h : x ≤ g) : roundTo d x ≤ g :=
  (roundTo_mono h).trans_eq (roundTo_of_mem hg)

theorem le_roundTo_of_mem (hg : g ∈ grid d) (h : g ≤ x) : g ≤ roundTo d x :=
  (roundTo_of_mem hg).symm.trans_le (roundTo_mono h)

theorem abs_roundTo_sub_le (d : ℕ) (x : ℚ) : |roundTo d x - x| ≤ 1 / (2 * 10 ^ d) := by
  have hp : (0 : ℚ) < 10 ^ d := by positivity
  have h := abs_halfEven_sub_le (x * 10 ^ d)
  have heq : roundTo d x - x = (halfEven (x * 10 ^ d) - x * 10 ^ d) / 10 ^ d := by
    unfold roundTo; field_simp
  rw [heq, abs_div, abs_of_pos hp, div_le_div_iff₀ hp (by positivity)]
  nlinarith

theorem roundTo_add_le (d : ℕ) (x y : ℚ) :
    roundTo d x + roundTo d y ≤ roundTo d (x + y + 1 / (2 * 10 ^ d)) := by
  have hp : (0 : ℚ) < 10 ^ d := by positivity
  have h := halfEven_add_le (x * 10 ^ d) (y * 10 ^ d)
  have harg : (x + y + 1 / (2 * 10 ^ d)) * 10 ^ d = x * 10 ^ d + y * 10 ^ d + 1 / 2 := by field_simp
  unfold roundTo
  rw [harg, ← add_div, div_le_div_iff_of_pos_right hp]
  exact_mod_cast h

/-- A positive grid value is at least a unit. -/
theorem unit_le_of_pos (hx : x ∈ grid d) (h : 0 < x) : 1 / 10 ^ d ≤ x := by
  obtain ⟨k, rfl⟩ := mem_grid_iff.mp hx
  have hp : (0 : ℚ) < 10 ^ d := by positivity
  have hk : 0 < k := by exact_mod_cast (div_pos_iff_of_pos_right hp).mp h
  rw [div_le_div_iff_of_pos_right hp]
  exact_mod_cast hk

/-- A value of at least a unit does not round to zero. -/
theorem roundTo_pos (h : 1 / 10 ^ d ≤ x) : 0 < roundTo d x := by
  have hunit : (1 / 10 ^ d : ℚ) ∈ grid d := mem_grid_iff.mpr ⟨1, by norm_num⟩
  have hp : (0 : ℚ) < 1 / 10 ^ d := by positivity
  exact hp.trans_le (le_roundTo_of_mem hunit h)

end

/-! ## Ties away from zero -/

/-- The nearest integer, ties away from zero. -/
def halfAway (x : ℚ) : ℤ := if 0 ≤ x then ⌊x + 1 / 2⌋ else ⌈x - 1 / 2⌉

theorem halfAway_intCast (n : ℤ) : halfAway n = n := by
  unfold halfAway
  split_ifs
  · rw [Int.floor_eq_iff]
    constructor <;> linarith
  · rw [Int.ceil_eq_iff]
    constructor <;> linarith

theorem halfAway_mono {x y : ℚ} (h : x ≤ y) : halfAway x ≤ halfAway y := by
  unfold halfAway
  split_ifs with hx hy hy
  · exact Int.floor_mono (by linarith)
  · exact absurd (hx.trans h) hy
  · have hneg : ⌈x - 1 / 2⌉ ≤ 0 := Int.ceil_le.mpr (by push_cast; linarith)
    exact hneg.trans (Int.floor_nonneg.mpr (by linarith))
  · exact Int.ceil_mono (by linarith)

/-- `x` rounded to `d` decimal digits, as a decimal column stores it. -/
def toColumn (d : ℕ) (x : ℚ) : ℚ := halfAway (x * 10 ^ d) / 10 ^ d

section

variable {d : ℕ} {x y g : ℚ}

@[simp] theorem toColumn_mem_grid (d : ℕ) (x : ℚ) : toColumn d x ∈ grid d :=
  mem_grid_iff.mpr ⟨_, rfl⟩

theorem toColumn_of_mem (h : x ∈ grid d) : toColumn d x = x := by
  obtain ⟨k, rfl⟩ := mem_grid_iff.mp h
  unfold toColumn
  rw [div_mul_cancel₀ _ (by positivity), halfAway_intCast]

theorem toColumn_mono (h : x ≤ y) : toColumn d x ≤ toColumn d y := by
  unfold toColumn
  have : halfAway (x * 10 ^ d) ≤ halfAway (y * 10 ^ d) :=
    halfAway_mono (mul_le_mul_of_nonneg_right h (by positivity))
  gcongr

theorem toColumn_nonneg (h : 0 ≤ x) : 0 ≤ toColumn d x :=
  (toColumn_of_mem (zero_mem _)).symm.trans_le (toColumn_mono h)

/-- A value below a grid value is stored as at most it. -/
theorem toColumn_le_of_mem (hg : g ∈ grid d) (h : x ≤ g) : toColumn d x ≤ g :=
  (toColumn_mono h).trans_eq (toColumn_of_mem hg)

end

end Rounding
