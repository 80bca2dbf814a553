import PolyArena.WsFeedService.SessionLifecycle

/-!
# Sessions made ahead of their candle

The tick expects the current candle and the three after it, and one more when the boundary is near.

1. `expectedCandleOpensFor_eq_map`: the expected candles are consecutive, from the current one.
2. `candle_ahead`: when the buffer reaches into the next candle, the boundary is near.
3. `pre_creation_covers`: whatever is the current candle until the buffer has passed, it is expected
   with the three after it.
-/

namespace PolyArena

/-- `_expected_candle_opens`, with its `num_future` and its look for the extra open among the
others. -/
def expectedCandleOpensFor (timeframe : BOTimeframe) (nowTs : ℤ) (numFuture : ℕ) : List ℤ :=
  let periodS : ℤ := TF_SECONDS timeframe
  let currentOpen := nowTs - nowTs % periodS
  let nextBoundary := currentOpen + periodS
  let timeToBoundary := nextBoundary - nowTs
  let opens := (List.range (numFuture + 1)).map fun i : ℕ => currentOpen + i * periodS
  if timeToBoundary ≤ SESSION_PRE_CREATE_BUFFER_S then
    let extra := currentOpen + (numFuture + 1) * periodS
    if extra ∉ opens then opens ++ [extra] else opens
  else opens

/-- The next boundary is within the buffer. -/
def NearBoundary (tf : BOTimeframe) (now : ℤ) : Prop :=
  currentCandleOpen tf now + TF_SECONDS tf - now ≤ SESSION_PRE_CREATE_BUFFER_S

instance (tf : BOTimeframe) (now : ℤ) : Decidable (NearBoundary tf now) :=
  inferInstanceAs (Decidable (_ ≤ _))

/-- How many candles are expected. -/
def expectedCount (tf : BOTimeframe) (now : ℤ) (numFuture : ℕ) : ℕ :=
  if NearBoundary tf now then numFuture + 2 else numFuture + 1

/-- The candle that opens at `ts` contains the instant. -/
structure IsCandleOf (tf : BOTimeframe) (ts : ℤ) (t : ℚ) : Prop where
  multiple : (TF_SECONDS tf : ℤ) ∣ ts
  opened : ts ≤ t
  lt_close : t < (ts + TF_SECONDS tf : ℤ)

section

variable {tf : BOTimeframe} {now : ℤ} {numFuture : ℕ} {ts : ℤ} {t : ℚ}

/-! ## The list -/

theorem open_lt (tf : BOTimeframe) (current : ℤ) {i j : ℕ} (hij : i < j) :
    current + i * (TF_SECONDS tf : ℤ) < current + j * (TF_SECONDS tf : ℤ) := by
  have hp : (0 : ℤ) < TF_SECONDS tf := by exact_mod_cast period_pos tf
  have hcast : (i : ℤ) < j := by exact_mod_cast hij
  exact (add_lt_add_iff_left current).mpr (mul_lt_mul_of_pos_right hcast hp)

/-- The extra open is never among the others. -/
theorem extra_not_mem (tf : BOTimeframe) (current : ℤ) (numFuture : ℕ) :
    current + ((numFuture : ℤ) + 1) * TF_SECONDS tf ∉
      (List.range (numFuture + 1)).map fun i : ℕ => current + i * (TF_SECONDS tf : ℤ) := by
  intro hmem
  obtain ⟨i, hi, heq⟩ := List.mem_map.mp hmem
  have hlt := open_lt tf current (List.mem_range.mp hi)
  push_cast at hlt
  exact hlt.ne heq

/-- The look for the extra open finds nothing. -/
theorem expectedCandleOpensFor_eq_ite :
    expectedCandleOpensFor tf now numFuture =
      if NearBoundary tf now then
        ((List.range (numFuture + 1)).map fun i : ℕ =>
          currentCandleOpen tf now + i * (TF_SECONDS tf : ℤ)) ++
          [currentCandleOpen tf now + ((numFuture : ℤ) + 1) * TF_SECONDS tf]
      else (List.range (numFuture + 1)).map fun i : ℕ =>
        currentCandleOpen tf now + i * (TF_SECONDS tf : ℤ) := by
  unfold expectedCandleOpensFor
  dsimp only
  rw [if_pos (extra_not_mem tf (now - now % TF_SECONDS tf) numFuture)]
  rfl

/-- **The expected candles** are consecutive. -/
theorem expectedCandleOpensFor_eq_map :
    expectedCandleOpensFor tf now numFuture =
      (List.range (expectedCount tf now numFuture)).map fun i : ℕ =>
        currentCandleOpen tf now + i * (TF_SECONDS tf : ℤ) := by
  rw [expectedCandleOpensFor_eq_ite]
  unfold expectedCount
  split_ifs with hnear
  · rw [List.range_succ (n := numFuture + 1), List.map_append, List.map_singleton]
    push_cast
    rfl
  · rfl

/-- The list of the tick, which is made without a look for the extra open. -/
theorem expectedCandleOpens_eq (tf : BOTimeframe) (now : ℤ) :
    expectedCandleOpens tf now = expectedCandleOpensFor tf now REQUIRED_FUTURE_SESSIONS := by
  rw [expectedCandleOpensFor_eq_ite]
  rfl

theorem mem_expectedCandleOpensFor :
    ts ∈ expectedCandleOpensFor tf now numFuture ↔
      ∃ i < expectedCount tf now numFuture, currentCandleOpen tf now + i * TF_SECONDS tf = ts := by
  rw [expectedCandleOpensFor_eq_map, List.mem_map]
  simp only [List.mem_range]

theorem expectedCandleOpensFor_increasing (tf : BOTimeframe) (now : ℤ) (numFuture : ℕ) :
    (expectedCandleOpensFor tf now numFuture).Pairwise (· < ·) := by
  rw [expectedCandleOpensFor_eq_map, List.pairwise_map]
  exact List.pairwise_lt_range.imp fun hij => open_lt tf _ hij

theorem dvd_currentCandleOpen (tf : BOTimeframe) (now : ℤ) :
    (TF_SECONDS tf : ℤ) ∣ currentCandleOpen tf now :=
  Int.dvd_self_sub_emod

theorem dvd_of_mem_expectedCandleOpensFor (h : ts ∈ expectedCandleOpensFor tf now numFuture) :
    (TF_SECONDS tf : ℤ) ∣ ts := by
  obtain ⟨i, -, rfl⟩ := mem_expectedCandleOpensFor.mp h
  exact dvd_add (dvd_currentCandleOpen tf now) (dvd_mul_left _ _)

/-! ## The candle of an instant -/

/-- The candle that the integer functions find is the one that contains the instant. -/
theorem isCandleOf_currentCandleOpen (tf : BOTimeframe) (t : ℚ) :
    IsCandleOf tf (currentCandleOpen tf ⌊t⌋) t := by
  have hp : (0 : ℤ) < TF_SECONDS tf := by exact_mod_cast period_pos tf
  have hlow := Int.emod_nonneg ⌊t⌋ hp.ne'
  have hhigh := Int.emod_lt_of_pos ⌊t⌋ hp
  refine ⟨dvd_currentCandleOpen tf _, Int.le_floor.mp ?_, Int.floor_lt.mp ?_⟩
  · unfold currentCandleOpen
    omega
  · unfold currentCandleOpen
    omega

/-- Later by no more than the buffer, it is the same candle, or the next one and its open was
near. -/
theorem candle_ahead (tf : BOTimeframe) {t : ℤ} (hle : now ≤ t)
    (hbuffer : t ≤ now + SESSION_PRE_CREATE_BUFFER_S) :
    currentCandleOpen tf t = currentCandleOpen tf now ∨
      currentCandleOpen tf t = currentCandleOpen tf now + TF_SECONDS tf ∧ NearBoundary tf now := by
  unfold NearBoundary currentCandleOpen
  unfold SESSION_PRE_CREATE_BUFFER_S at hbuffer ⊢
  cases tf <;> simp only [TF_SECONDS] <;> omega

/-- The candles of the later instant are expected. -/
theorem mem_expected_ahead {t : ℤ} (hle : now ≤ t) (hbuffer : t ≤ now + SESSION_PRE_CREATE_BUFFER_S)
    {i : ℕ} (hi : i ≤ numFuture) :
    currentCandleOpen tf t + i * TF_SECONDS tf ∈ expectedCandleOpensFor tf now numFuture := by
  rw [mem_expectedCandleOpensFor]
  unfold expectedCount
  rcases candle_ahead tf hle hbuffer with hsame | ⟨hnext, hnear⟩
  · refine ⟨i, ?_, by rw [hsame]⟩
    split_ifs <;> omega
  · rw [if_pos hnear]
    refine ⟨i + 1, by omega, ?_⟩
    rw [hnext]
    push_cast
    ring

end

/-- **The next candle is covered.** Whatever candle an instant is in, from now until the buffer has
passed, it is expected now together with the three after it. -/
theorem pre_creation_covers (tf : BOTimeframe) (now : ℤ) :
    (expectedCandleOpensFor tf now REQUIRED_FUTURE_SESSIONS).Pairwise (· < ·) ∧
      (expectedCandleOpensFor tf now REQUIRED_FUTURE_SESSIONS).Nodup ∧
      (∀ ts ∈ expectedCandleOpensFor tf now REQUIRED_FUTURE_SESSIONS, (TF_SECONDS tf : ℤ) ∣ ts) ∧
      ∀ t : ℚ, now ≤ t → t ≤ now + SESSION_PRE_CREATE_BUFFER_S →
        ∃ ts, IsCandleOf tf ts t ∧
          ∀ i : ℕ, i ≤ 3 → ts + i * TF_SECONDS tf ∈
            expectedCandleOpensFor tf now REQUIRED_FUTURE_SESSIONS := by
  have hincreasing := expectedCandleOpensFor_increasing tf now REQUIRED_FUTURE_SESSIONS
  refine ⟨hincreasing, hincreasing.imp ne_of_lt, fun ts => dvd_of_mem_expectedCandleOpensFor, ?_⟩
  intro t hle hbuffer
  have hfloor : ⌊t⌋ ≤ now + SESSION_PRE_CREATE_BUFFER_S := by
    have h : (⌊t⌋ : ℚ) ≤ now + SESSION_PRE_CREATE_BUFFER_S := (Int.floor_le t).trans hbuffer
    exact_mod_cast h
  exact ⟨_, isCandleOf_currentCandleOpen tf t,
    fun i hi => mem_expected_ahead (Int.le_floor.mpr hle) hfloor hi⟩

/-- Twenty seconds before a boundary, at the boundary. -/
theorem pre_creation_covers_boundary :
    (280 : ℤ) ≤ (300 : ℚ) ∧ (300 : ℚ) ≤ (280 : ℤ) + SESSION_PRE_CREATE_BUFFER_S ∧
      ∃ ts, IsCandleOf .m5 ts 300 ∧
        ∀ i : ℕ, i ≤ 3 → ts + i * 300 ∈
          expectedCandleOpensFor .m5 280 REQUIRED_FUTURE_SESSIONS := by
  have hle : ((280 : ℤ) : ℚ) ≤ 300 := by norm_num
  have hbuffer : (300 : ℚ) ≤ (280 : ℤ) + SESSION_PRE_CREATE_BUFFER_S := by
    unfold SESSION_PRE_CREATE_BUFFER_S
    norm_num
  exact ⟨hle, hbuffer, (pre_creation_covers .m5 280).2.2.2 300 hle hbuffer⟩

end PolyArena
