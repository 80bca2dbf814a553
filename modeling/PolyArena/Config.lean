import PolyArena.Lib.Rounding

/-!
# Constants and fees

The constants of `config/timing.py` that the modelled code reads, and the fee curve of
`config/fees.py`.  Amounts are exact rationals and `round8` is the source's `round(x, 8)`.
-/

namespace PolyArena

open Rounding

/-- Instants and durations, in seconds. -/
abbrev Time := ℚ

/-- `round(x, 8)`. -/
abbrev round8 (x : ℚ) : ℚ := roundTo 8 x

/-! ## Timing -/

def ME_DUST_THRESHOLD : ℚ := 1 / 1000000
def ME_DEFAULT_SLIPPAGE : ℚ := 1 / 10
def ME_BOOK_STALE_MAX_S : Time := 120
def ME_BOOK_STALE_DEFAULT_S : Time := 30
def ME_CLEANUP_INTERVAL : ℕ := 50
def PRUNE_GRACE_S : Time := 5
def STUCK_THRESHOLD : Time := 10 * 60
def NULL_SETTLE_THRESHOLD : Time := 2 * 3600

theorem dust_pos : 0 < ME_DUST_THRESHOLD := by unfold ME_DUST_THRESHOLD; norm_num

/-! ## Fees -/

/-- A walk level: what an order took at one price. -/
structure FillLevel where
  price : ℚ
  qty : ℚ
  cost : ℚ
  deriving DecidableEq, Repr

def FEE_RATE : ℚ := 1 / 4
def EXPONENT : ℕ := 2
def MAKER_REBATE_PCT : ℚ := 1 / 5

/-- Nominal fee of a single fill level. -/
def nominalFeePerLevel (qty price : ℚ) : ℚ :=
  round8 (qty * FEE_RATE * (price * (1 - price)) ^ EXPONENT)

/-- Taker fees across the walk levels. -/
def takerFeeFromLevels (levels : List FillLevel) : ℚ :=
  round8 (levels.map fun lv => nominalFeePerLevel lv.qty lv.price).sum

/-- Maker rebates across the walk levels. -/
def makerRebateFromLevels (levels : List FillLevel) : ℚ :=
  round8 (levels.map fun lv => nominalFeePerLevel lv.qty lv.price * MAKER_REBATE_PCT).sum

/-- Worst-case taker fee of an order of `amount`: everything bought at price `0.50`. -/
def estimateMaxTakerFee (amount : ℚ) : ℚ :=
  round8 (nominalFeePerLevel (amount / (1 / 2)) (1 / 2))

theorem nominalFeePerLevel_nonneg {qty price : ℚ} (hq : 0 ≤ qty) :
    0 ≤ nominalFeePerLevel qty price := by
  unfold nominalFeePerLevel FEE_RATE EXPONENT
  exact roundTo_nonneg (by positivity)

theorem takerFeeFromLevels_nonneg {levels : List FillLevel} (h : ∀ lv ∈ levels, 0 ≤ lv.qty) :
    0 ≤ takerFeeFromLevels levels := by
  unfold takerFeeFromLevels
  refine roundTo_nonneg (List.sum_nonneg fun x hx => ?_)
  obtain ⟨lv, hlv, rfl⟩ := List.mem_map.mp hx
  exact nominalFeePerLevel_nonneg (h lv hlv)

theorem takerFeeFromLevels_mem_grid (levels : List FillLevel) :
    takerFeeFromLevels levels ∈ grid 8 := roundTo_mem_grid _ _

theorem makerRebateFromLevels_mem_grid (levels : List FillLevel) :
    makerRebateFromLevels levels ∈ grid 8 := roundTo_mem_grid _ _

end PolyArena
