import Mathlib.Data.Int.Log
import PolyArena.Lib.Rounding

/-!
# Rounding to binary64

`fl x` is the nearest rational with a significand of 53 bits, a tie going to the even one: what the
arithmetic of doubles makes of an exact result whose exponent is in range.

1. `fl_of_int`: integers below `2 ^ 53` are doubles.
2. `le_fl_of_int`: rounding does not go below an integer.
3. `fl_scale_lt`: what is below an integer `n` stays below `n * q` when it is multiplied by `q` and
   rounded; so `floor_fl_div` and `floor_fl_mul` find the multiple of a period as exact arithmetic
   does.
-/

namespace Rounding

/-- The distance of neighbouring doubles at `x`. -/
def ulp (x : ℚ) : ℚ := 2 ^ (Int.log 2 |x| - 52)

/-- `x` rounded to a double. -/
def fl (x : ℚ) : ℚ := halfEven (x / ulp x) * ulp x

section

variable {x y q : ℚ} {n k : ℤ}

theorem ulp_pos (x : ℚ) : 0 < ulp x := zpow_pos two_pos _

@[simp] theorem fl_zero : fl 0 = 0 := by
  unfold fl
  rw [zero_div]
  norm_num [halfEven]

theorem abs_fl_sub_le (x : ℚ) : |fl x - x| ≤ ulp x / 2 := by
  have hpos := ulp_pos x
  have heq : fl x - x = (halfEven (x / ulp x) - x / ulp x) * ulp x := by
    unfold fl
    field_simp
  rw [heq, abs_mul, abs_of_pos hpos]
  linarith [mul_le_mul_of_nonneg_right (abs_halfEven_sub_le (x / ulp x)) hpos.le]

/-- Scaling moves the distance of neighbours by less than twice the scale. -/
theorem ulp_mul_lt (hx : 0 < x) (hq : 0 < q) : ulp (x * q) < 2 * (ulp x * q) := by
  have hxq : 0 < x * q := mul_pos hx hq
  have hlow : (2 : ℚ) ^ Int.log 2 (x * q) ≤ x * q := by
    exact_mod_cast Int.zpow_log_le_self (b := 2) (by norm_num) hxq
  have hhigh : x < (2 : ℚ) ^ (Int.log 2 x + 1) := by
    exact_mod_cast Int.lt_zpow_succ_log_self (b := 2) (by norm_num) x
  unfold ulp
  rw [abs_of_pos hxq, abs_of_pos hx, zpow_sub₀ two_ne_zero, zpow_sub₀ two_ne_zero]
  have hscale : (2 : ℚ) ^ Int.log 2 (x * q) < 2 * 2 ^ Int.log 2 x * q := by
    rw [zpow_add_one₀ two_ne_zero] at hhigh
    calc (2 : ℚ) ^ Int.log 2 (x * q) ≤ x * q := hlow
      _ < 2 ^ Int.log 2 x * 2 * q := mul_lt_mul_of_pos_right hhigh hq
      _ = 2 * 2 ^ Int.log 2 x * q := by ring
  have hdiv := div_lt_div_of_pos_right hscale (by positivity : (0 : ℚ) < 2 ^ (52 : ℤ))
  calc (2 : ℚ) ^ Int.log 2 (x * q) / 2 ^ (52 : ℤ) < 2 * 2 ^ Int.log 2 x * q / 2 ^ (52 : ℤ) := hdiv
    _ = 2 * (2 ^ Int.log 2 x / 2 ^ (52 : ℤ) * q) := by ring

/-- Below `2 ^ 53` an integer is a multiple of the distance of neighbours. -/
theorem int_div_ulp (h0 : 0 < x) (h : x < 2 ^ 53) (n : ℤ) : ∃ k : ℤ, (n : ℚ) / ulp x = k := by
  have hlog : Int.log 2 x < 53 := by
    have hlow : (2 : ℚ) ^ Int.log 2 x ≤ x := by
      exact_mod_cast Int.zpow_log_le_self (b := 2) (by norm_num) h0
    have hlt : (2 : ℚ) ^ Int.log 2 x < 2 ^ (53 : ℤ) := hlow.trans_lt (by exact_mod_cast h)
    exact (zpow_lt_zpow_iff_right₀ one_lt_two).mp hlt
  obtain ⟨m, hm⟩ := Int.eq_ofNat_of_zero_le (show 0 ≤ 52 - Int.log 2 x by omega)
  refine ⟨n * 2 ^ m, ?_⟩
  unfold ulp
  rw [abs_of_pos h0, show Int.log 2 x - 52 = -(m : ℤ) by omega, zpow_neg, zpow_natCast,
    div_inv_eq_mul]
  push_cast
  rfl

/-- **Rounding does not go below an integer.** -/
theorem le_fl_of_int (h0 : 0 < x) (h : x < 2 ^ 53) (hn : (n : ℚ) ≤ x) : n ≤ fl x := by
  obtain ⟨k, hk⟩ := int_div_ulp h0 h n
  have hpos := ulp_pos x
  have hmono : k ≤ halfEven (x / ulp x) := by
    have h := halfEven_mono (div_le_div_of_nonneg_right hn hpos.le)
    rwa [hk, halfEven_intCast] at h
  have hcast : (k : ℚ) ≤ halfEven (x / ulp x) := by exact_mod_cast hmono
  calc (n : ℚ) = k * ulp x := by rw [← hk, div_mul_cancel₀ _ hpos.ne']
    _ ≤ fl x := mul_le_mul_of_nonneg_right hcast hpos.le

/-- Integers below `2 ^ 53` are doubles. -/
theorem fl_of_int (h0 : 0 ≤ n) (h : n < 2 ^ 53) : fl n = n := by
  rcases h0.eq_or_lt with rfl | hpos
  · rw [Int.cast_zero, fl_zero]
  · obtain ⟨k, hk⟩ := int_div_ulp (x := n) (by exact_mod_cast hpos) (by exact_mod_cast h) n
    unfold fl
    rw [hk, halfEven_intCast, ← hk, div_mul_cancel₀ _ (ulp_pos _).ne']

/-- A double below an integer is below it by at least the distance of neighbours. -/
theorem ulp_le_of_lt (h0 : 0 < x) (h : x < 2 ^ 53) (hx : fl x = x) (hn : x < n) :
    ulp x ≤ n - x := by
  obtain ⟨k, hk⟩ := int_div_ulp h0 h n
  have hpos := ulp_pos x
  have hxk : x / ulp x = halfEven (x / ulp x) := by
    rw [div_eq_iff hpos.ne']
    exact hx.symm
  have hlt : halfEven (x / ulp x) < k := by
    have hdiv := div_lt_div_of_pos_right hn hpos
    rw [hk, hxk] at hdiv
    exact_mod_cast hdiv
  have hstep : (halfEven (x / ulp x) : ℚ) + 1 ≤ k := by exact_mod_cast hlt
  rw [← hxk, ← hk, div_add_one hpos.ne', div_le_div_iff_of_pos_right hpos] at hstep
  linarith

/-- **What is below an integer stays below** when it is scaled and rounded. -/
theorem fl_scale_lt (h0 : 0 < x) (h : x < 2 ^ 53) (hx : fl x = x) (hn : x < n) (hq : 0 < q) :
    fl (x * q) < n * q := by
  have hulp := ulp_mul_lt h0 hq
  have hround := (abs_le.mp (abs_fl_sub_le (x * q))).2
  have hgap := mul_le_mul_of_nonneg_right (ulp_le_of_lt h0 h hx hn) hq.le
  linarith

end

/-! ## Multiples of a period -/

section

variable {x : ℚ} {p : ℕ}

/-- **The multiple of a period** by a division of doubles. -/
theorem floor_fl_div (h0 : 0 ≤ x) (h : x < 2 ^ 53) (hx : fl x = x) (hp : 0 < p) :
    ⌊fl (x / p)⌋ = ⌊x / p⌋ := by
  rcases h0.eq_or_lt with rfl | hpos
  · rw [zero_div, fl_zero]
  · have hp' : (0 : ℚ) < p := by exact_mod_cast hp
    have hone : (1 : ℚ) ≤ p := by exact_mod_cast hp
    have hy : 0 < x / p := div_pos hpos hp'
    have hlt : x / p < 2 ^ 53 := (div_le_self h0 hone).trans_lt h
    rw [Int.floor_eq_iff]
    refine ⟨le_fl_of_int hy hlt (Int.floor_le _), ?_⟩
    have hbelow : x < ((⌊x / p⌋ + 1) * p : ℤ) := by
      push_cast
      exact (div_lt_iff₀ hp').mp (Int.lt_floor_add_one _)
    have hscale := fl_scale_lt hpos h hx hbelow (inv_pos.mpr hp')
    rw [← div_eq_mul_inv] at hscale
    refine hscale.trans_eq ?_
    push_cast
    field_simp

/-- **The multiple of a period** by a multiplication of doubles and a division of integers. -/
theorem floor_fl_mul {m : ℕ} (h0 : 0 ≤ x) (hx : fl x = x) (hm : 0 < m) (h : x * m < 2 ^ 53)
    (hp : 0 < p) :
    ⌊fl (x * m)⌋ / ((p * m : ℕ) : ℤ) = ⌊x / p⌋ := by
  rcases h0.eq_or_lt with rfl | hpos
  · rw [zero_mul, fl_zero, zero_div, Int.floor_zero, Int.zero_ediv]
  · have hp' : (0 : ℚ) < p := by exact_mod_cast hp
    have hm' : (0 : ℚ) < m := by exact_mod_cast hm
    have hone : (1 : ℚ) ≤ m := by exact_mod_cast hm
    have hxlt : x < 2 ^ 53 := (le_mul_of_one_le_right h0 hone).trans_lt h
    have hlow : (⌊x / p⌋ * (p * m : ℕ) : ℤ) ≤ fl (x * m) := by
      refine le_fl_of_int (mul_pos hpos hm') h ?_
      have hfloor := (le_div_iff₀ hp').mp (Int.floor_le (x / p))
      push_cast
      nlinarith
    have hhigh : fl (x * m) < ((⌊x / p⌋ + 1) * (p * m : ℕ) : ℤ) := by
      have hbelow : x < ((⌊x / p⌋ + 1) * p : ℤ) := by
        push_cast
        exact (div_lt_iff₀ hp').mp (Int.lt_floor_add_one _)
      refine (fl_scale_lt hpos hxlt hx hbelow hm').trans_eq ?_
      push_cast
      ring
    have hpm : (0 : ℤ) < (p * m : ℕ) := by exact_mod_cast Nat.mul_pos hp hm
    have hlow' : ⌊x / p⌋ * (p * m : ℕ) ≤ ⌊fl (x * m)⌋ := Int.le_floor.mpr hlow
    have hhigh' : ⌊fl (x * m)⌋ < (⌊x / p⌋ + 1) * (p * m : ℕ) := Int.floor_lt.mpr hhigh
    exact le_antisymm (Int.lt_add_one_iff.mp (Int.ediv_lt_of_lt_mul hpm hhigh'))
      ((Int.le_ediv_iff_mul_le hpm).mpr hlow')

end

end Rounding
