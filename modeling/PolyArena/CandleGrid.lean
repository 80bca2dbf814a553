import PolyArena.Api.CreateBo
import PolyArena.Lib.Binary64
import PolyArena.WsFeedService.PreCreation

/-!
# The candle grid

Four functions find the candle of an instant: `resolve_session` and `_expected_candle_opens` with
integers, `calc_settlement_time` with milliseconds and `candle_expire_at` with a division of
doubles.

1. `candleExpireAt_eq` and `calcSettlementTime_eq`: rounding does not move an instant to another
   candle.
2. `resolveSession_offset` and `resolveSession_timestamp`: what `resolve_session` makes of an offset
   and of a timestamp.
3. `one_candle_grid`: the four agree.
-/

namespace PolyArena

open Rounding

/-! ## The clock -/

/-- The first second that `datetime` does not have. -/
def DATETIME_END : ℚ := 253402300800

/-- What `time.time()` and `timestamp()` give for an instant: a double.  The candles that are traded
at the instant close on dates that `datetime` has. -/
structure ClockTime where
  seconds : ℚ
  double : fl seconds = seconds
  nonneg : 0 ≤ seconds
  dated : seconds + 4 * 900 < DATETIME_END

/-- `datetime.fromtimestamp`: whole microseconds, or a `ValueError`. -/
def fromTimestamp (t : ℚ) : Option Time := if t < DATETIME_END then some (roundTo 6 t) else none

def TF_MS : BOTimeframe → ℕ
  | .m5 => 5 * 60 * 1000
  | .m15 => 15 * 60 * 1000

/-- `calc_settlement_time`. -/
def calcSettlementTime (timeframe : BOTimeframe) (tradeTime : ClockTime) (sessionOffset : ℕ) :
    Option Time :=
  let intervalMs : ℤ := TF_MS timeframe
  let tradeMs := ⌊fl (tradeTime.seconds * 1000)⌋
  let settleMs := (tradeMs / intervalMs + 1 + sessionOffset) * intervalMs
  fromTimestamp (fl (settleMs / 1000))

namespace ClockTime

/-- `int(time.time())`. -/
def toInt (now : ClockTime) : ℤ := ⌊now.seconds⌋

/-- `candle_expire_at`. -/
def candleExpireAt (timeframe : BOTimeframe) (now : ClockTime) : Option Time :=
  let period : ℕ := TF_SECONDS timeframe
  let periodStart : ℤ := ⌊fl (now.seconds / period)⌋ * period
  fromTimestamp (periodStart + period : ℤ)

/-- The number of the candle that contains the instant. -/
def candle (timeframe : BOTimeframe) (now : ClockTime) : ℤ := ⌊now.seconds / TF_SECONDS timeframe⌋

/-- The session of the `offset`-th candle from the one that contains the instant. -/
def session (timeframe : BOTimeframe) (now : ClockTime) (offset : ℕ) : SessionInfo :=
  let candleOpen := (now.candle timeframe + offset) * TF_SECONDS timeframe
  ⟨candleOpen, (candleOpen + TF_SECONDS timeframe : ℤ), offset⟩

end ClockTime

section

variable {now : ClockTime} {tf : BOTimeframe} {offset : ℕ} {n : ℤ}

theorem TF_MS_eq (tf : BOTimeframe) : TF_MS tf = TF_SECONDS tf * 1000 := by cases tf <;> rfl

theorem candle_le (now : ClockTime) (tf : BOTimeframe) :
    (now.candle tf * TF_SECONDS tf : ℤ) ≤ now.seconds := by
  have hp : (0 : ℚ) < TF_SECONDS tf := by exact_mod_cast period_pos tf
  have hfloor := (le_div_iff₀ hp).mp (Int.floor_le (now.seconds / TF_SECONDS tf))
  push_cast
  exact hfloor

theorem lt_candle (now : ClockTime) (tf : BOTimeframe) :
    now.seconds < ((now.candle tf + 1) * TF_SECONDS tf : ℤ) := by
  have hp : (0 : ℚ) < TF_SECONDS tf := by exact_mod_cast period_pos tf
  have hfloor := (div_lt_iff₀ hp).mp (Int.lt_floor_add_one (now.seconds / TF_SECONDS tf))
  push_cast
  exact hfloor

theorem candle_nonneg (now : ClockTime) (tf : BOTimeframe) : 0 ≤ now.candle tf :=
  Int.floor_nonneg.mpr (div_nonneg now.nonneg (Nat.cast_nonneg _))

/-- The open of the candle as the integer functions find it. -/
theorem toInt_sub_mod (now : ClockTime) (tf : BOTimeframe) :
    now.toInt - now.toInt % TF_SECONDS tf = now.candle tf * TF_SECONDS tf := by
  have hdiv : now.candle tf = now.toInt / TF_SECONDS tf := Int.floor_div_natCast _ _
  have hsplit := Int.mul_ediv_add_emod now.toInt (TF_SECONDS tf)
  rw [hdiv]
  linarith

theorem fromTimestamp_int (h : (n : ℚ) < DATETIME_END) : fromTimestamp n = some (n : ℚ) := by
  have hgrid : (n : ℚ) ∈ grid 6 := mem_grid_iff.mpr ⟨n * 10 ^ 6, by push_cast; ring⟩
  unfold fromTimestamp
  rw [if_pos h, roundTo_of_mem hgrid]

/-- The closes of the candles that are traded are dates. -/
theorem close_lt (now : ClockTime) (tf : BOTimeframe) (h : offset ≤ 3) :
    (((now.candle tf + offset) * TF_SECONDS tf + TF_SECONDS tf : ℤ) : ℚ) <
    DATETIME_END := by
  have hopen := candle_le now tf
  have hp : (TF_SECONDS tf : ℚ) ≤ 900 := by exact_mod_cast period_le tf
  have hp0 : (0 : ℚ) ≤ TF_SECONDS tf := Nat.cast_nonneg _
  have hoffset : (offset : ℚ) ≤ 3 := by exact_mod_cast h
  have hdated := now.dated
  push_cast at hopen ⊢
  nlinarith

/-! ## Doubles -/

/-- **The division of doubles** finds the candle. -/
theorem candleExpireAt_eq (tf : BOTimeframe) :
    now.candleExpireAt tf = some (now.session tf 0).settlementAt := by
  have hlt : now.seconds < 2 ^ 53 := by
    have hdated := now.dated
    unfold DATETIME_END at hdated
    linarith
  have hcandle : ⌊fl (now.seconds / TF_SECONDS tf)⌋ = now.candle tf :=
    floor_fl_div now.nonneg hlt now.double (period_pos tf)
  have hclose := close_lt now tf (Nat.zero_le 3)
  unfold ClockTime.candleExpireAt ClockTime.session
  dsimp only
  rw [hcandle]
  rw [Nat.cast_zero, add_zero] at hclose ⊢
  exact fromTimestamp_int hclose

/-- The expiry that the books compute with exact numbers is the one of the doubles. -/
theorem candleExpireAt_books (tf : BOTimeframe) :
    now.candleExpireAt tf = some (PolyArena.candleExpireAt tf now.seconds) := by
  rw [candleExpireAt_eq]
  unfold ClockTime.session PolyArena.candleExpireAt ClockTime.candle
  push_cast
  rw [add_zero]

/-- **The milliseconds** are those of the candle. -/
theorem calcSettlementTime_eq (h : offset ≤ 3) :
    calcSettlementTime tf now offset = some (now.session tf offset).settlementAt := by
  have hclose := close_lt now tf h
  have hdated := now.dated
  unfold DATETIME_END at hdated
  have hcandle : ⌊fl (now.seconds * 1000)⌋ / (TF_MS tf : ℤ) = now.candle tf := by
    rw [TF_MS_eq]
    exact floor_fl_mul (m := 1000) now.nonneg now.double (by norm_num) (by push_cast; linarith)
      (period_pos tf)
  have hclose_nonneg : 0 ≤ (now.candle tf + offset) * TF_SECONDS tf + TF_SECONDS tf := by
    have hcandle_nonneg := candle_nonneg now tf
    positivity
  have hclose_lt : (now.candle tf + offset) * TF_SECONDS tf + TF_SECONDS tf < 2 ^ 53 := by
    have hbound : (((now.candle tf + offset) * TF_SECONDS tf + TF_SECONDS tf : ℤ) : ℚ) <
        ((2 ^ 53 : ℤ) : ℚ) :=
      hclose.trans (by unfold DATETIME_END; norm_num)
    exact_mod_cast hbound
  have hms : (((now.candle tf + 1 + offset) * (TF_MS tf : ℤ) : ℤ) : ℚ) / 1000 =
      ((now.candle tf + offset) * TF_SECONDS tf + TF_SECONDS tf : ℤ) := by
    rw [TF_MS_eq]
    push_cast
    ring
  unfold calcSettlementTime
  dsimp only
  rw [hcandle, hms, fl_of_int hclose_nonneg hclose_lt]
  exact fromTimestamp_int hclose

/-! ## Integers -/

theorem session_candleOpen :
    (now.session tf offset).candleOpen =
      now.candle tf * TF_SECONDS tf + TF_SECONDS tf * offset := by
  unfold ClockTime.session
  ring

theorem resolveSession_offset (h : offset ≤ 3) :
    resolveSession now.seconds tf none offset = .ok (now.session tf offset) := by
  have hmin : min offset MAX_SESSION_OFFSET = offset := min_eq_left h
  have hopen := toInt_sub_mod now tf
  unfold ClockTime.toInt at hopen
  unfold resolveSession
  dsimp only
  rw [hmin, hopen, ← session_candleOpen]
  rfl

/-- The candle of a timestamp, counted from the one of the clock. -/
theorem timestamp_candle (now : ClockTime) (tf : BOTimeframe) (timestamp : ℤ) :
    timestamp - timestamp % TF_SECONDS tf =
      now.candle tf * TF_SECONDS tf +
        TF_SECONDS tf * (timestamp / TF_SECONDS tf - now.candle tf) := by
  have hsplit := Int.mul_ediv_add_emod timestamp (TF_SECONDS tf)
  linarith

theorem timestamp_open_iff (timestamp : ℤ) :
    timestamp - timestamp % TF_SECONDS tf = (now.session tf offset).candleOpen ↔
      timestamp / TF_SECONDS tf = now.candle tf + offset := by
  have hp : (TF_SECONDS tf : ℤ) ≠ 0 := by exact_mod_cast (period_pos tf).ne'
  rw [timestamp_candle now tf, session_candleOpen, add_right_inj, mul_right_inj' hp,
    sub_eq_iff_eq_add']

/-- **A timestamp** is accepted when it falls into one of the four candles, and resolved to that
one. -/
theorem resolveSession_timestamp (tf : BOTimeframe) (timestamp : ℤ) (o : ℕ) (s : SessionInfo) :
    resolveSession now.seconds tf (some timestamp) o = .ok s ↔
      ∃ i : ℕ, i ≤ 3 ∧ timestamp / TF_SECONDS tf = now.candle tf + i ∧ s = now.session tf i := by
  have hp : (0 : ℤ) < TF_SECONDS tf := by exact_mod_cast period_pos tf
  have hopen := toInt_sub_mod now tf
  unfold ClockTime.toInt at hopen
  have hmax : ((MAX_SESSION_OFFSET : ℕ) : ℤ) = 3 := rfl
  -- what is returned for the `i`-th candle
  have hsession : ∀ i : ℕ, (⟨now.candle tf * TF_SECONDS tf + TF_SECONDS tf * i,
      ((now.candle tf * TF_SECONDS tf + TF_SECONDS tf * i + TF_SECONDS tf : ℤ) : ℚ),
      ((now.candle tf * TF_SECONDS tf + TF_SECONDS tf * i - now.candle tf * TF_SECONDS tf) /
        TF_SECONDS tf : ℤ).toNat⟩ : SessionInfo) = now.session tf i := by
    intro i
    have hoffset :
        (now.candle tf * TF_SECONDS tf + TF_SECONDS tf * i - now.candle tf * TF_SECONDS tf) /
        TF_SECONDS tf = (i : ℤ) := by
      rw [add_sub_cancel_left]
      exact Int.mul_ediv_cancel_left _ hp.ne'
    rw [hoffset, Int.toNat_natCast, ← session_candleOpen]
    rfl
  unfold resolveSession
  dsimp only
  rw [hopen, timestamp_candle now tf, hmax]
  constructor
  · intro h
    split_ifs at h with hpast hfuture
    have hlow : 0 ≤ timestamp / TF_SECONDS tf - now.candle tf := by
      by_contra hneg
      nlinarith
    have hhigh : timestamp / TF_SECONDS tf - now.candle tf ≤ 3 := by
      by_contra hbig
      nlinarith
    obtain ⟨i, hi⟩ := Int.eq_ofNat_of_zero_le hlow
    refine ⟨i, by omega, by omega, ?_⟩
    rw [hi] at h
    exact (Except.ok.inj h).symm.trans (hsession i)
  · rintro ⟨i, hi, hcandle, rfl⟩
    have hdiff : timestamp / TF_SECONDS tf - now.candle tf = i := by omega
    have hi' : (i : ℤ) ≤ 3 := by exact_mod_cast hi
    have hi0 : (0 : ℤ) ≤ i := Int.natCast_nonneg i
    rw [hdiff, if_neg (by nlinarith), if_neg (by nlinarith)]
    exact congrArg Except.ok (hsession i)

theorem mem_expectedCandleOpens (h : offset ≤ 3) :
    (now.session tf offset).candleOpen ∈ expectedCandleOpens tf now.toInt := by
  have hcount : offset < expectedCount tf now.toInt REQUIRED_FUTURE_SESSIONS := by
    unfold expectedCount REQUIRED_FUTURE_SESSIONS
    split_ifs <;> omega
  rw [expectedCandleOpens_eq, mem_expectedCandleOpensFor]
  refine ⟨offset, hcount, ?_⟩
  unfold currentCandleOpen
  rw [toInt_sub_mod now tf, session_candleOpen, mul_comm (offset : ℤ)]

end

/-! ## Agreement -/

/-- The session of the `offset`-th candle, as the other functions see it. -/
structure OnCandleGrid (tf : BOTimeframe) (now : ClockTime) (offset : ℕ) (s : SessionInfo) :
    Prop where
  sessionOffset : s.sessionOffset = offset
  multiple : (TF_SECONDS tf : ℤ) ∣ s.candleOpen
  close : s.settlementAt = s.candleOpen + TF_SECONDS tf
  settles : calcSettlementTime tf now offset = some s.settlementAt
  expected : s.candleOpen ∈ expectedCandleOpens tf now.toInt
  /-- Any timestamp inside the candle is resolved to the session. -/
  inside : ∀ timestamp : ℤ, s.candleOpen ≤ timestamp → timestamp < s.candleOpen + TF_SECONDS tf →
    ∀ o, resolveSession now.seconds tf (some timestamp) o = .ok s

/-- The candle of the instant: it contains it, and an order without a TTL expires at its close. -/
structure IsCurrentCandle (tf : BOTimeframe) (now : ClockTime) (s : SessionInfo) : Prop where
  opened : s.candleOpen ≤ now.seconds
  lt_close : now.seconds < s.settlementAt
  expires : now.candleExpireAt tf = some s.settlementAt
  resolved : ∀ o, resolveSession now.seconds tf (some now.toInt) o = .ok s

section

variable {now : ClockTime} {tf : BOTimeframe} {offset : ℕ}

theorem onCandleGrid_session (h : offset ≤ 3) :
    OnCandleGrid tf now offset (now.session tf offset) where
  sessionOffset := rfl
  multiple := Dvd.intro_left _ rfl
  close := by
    unfold ClockTime.session
    push_cast
    rfl
  settles := calcSettlementTime_eq h
  expected := mem_expectedCandleOpens h
  inside timestamp hle hlt o := by
    have hp : (0 : ℤ) < TF_SECONDS tf := by exact_mod_cast period_pos tf
    refine (resolveSession_timestamp tf timestamp o _).mpr ⟨offset, h, ?_, rfl⟩
    refine le_antisymm (Int.lt_add_one_iff.mp (Int.ediv_lt_of_lt_mul hp ?_))
      ((Int.le_ediv_iff_mul_le hp).mpr hle)
    rw [add_one_mul]
    exact hlt

theorem isCurrentCandle_session : IsCurrentCandle tf now (now.session tf 0) where
  opened := by
    have hle := candle_le now tf
    rw [session_candleOpen, Nat.cast_zero, mul_zero, add_zero]
    exact hle
  lt_close := by
    have hlt := lt_candle now tf
    unfold ClockTime.session
    dsimp only
    rw [Nat.cast_zero, add_zero, ← add_one_mul]
    exact hlt
  expires := candleExpireAt_eq tf
  resolved o := by
    refine (resolveSession_timestamp tf now.toInt o _).mpr ⟨0, Nat.zero_le 3, ?_, rfl⟩
    rw [Nat.cast_zero, add_zero]
    exact (Int.floor_div_natCast _ _).symm

end

/-- **One candle grid.**  At every instant the session of an offset is on the grid that the other
functions use; that of the offset `0` is the candle of the instant; and a timestamp is accepted
exactly when its candle is one of the four that sessions are expected for. -/
theorem one_candle_grid (now : ClockTime) (tf : BOTimeframe) (offset : ℕ) (h : offset ≤ 3) :
    (∃ s, resolveSession now.seconds tf none offset = .ok s ∧ OnCandleGrid tf now offset s ∧
        (offset = 0 → IsCurrentCandle tf now s)) ∧
      ∀ (timestamp : ℤ) (o : ℕ),
        ((∃ s, resolveSession now.seconds tf (some timestamp) o = .ok s) ↔
          ∃ i ≤ 3, ∃ s, resolveSession now.seconds tf none i = .ok s ∧
            timestamp - timestamp % TF_SECONDS tf = s.candleOpen) ∧
        ∀ s, resolveSession now.seconds tf (some timestamp) o = .ok s →
          s.candleOpen = timestamp - timestamp % TF_SECONDS tf ∧
            s.candleOpen ∈ expectedCandleOpens tf now.toInt := by
  refine ⟨⟨_, resolveSession_offset h, onCandleGrid_session h, ?_⟩, fun timestamp o => ⟨?_, ?_⟩⟩
  · rintro rfl
    exact isCurrentCandle_session
  · constructor
    · rintro ⟨s, hs⟩
      obtain ⟨i, hi, hcandle, rfl⟩ := (resolveSession_timestamp tf timestamp o s).mp hs
      exact ⟨i, hi, _, resolveSession_offset hi, (timestamp_open_iff timestamp).mpr hcandle⟩
    · rintro ⟨i, hi, s, hs, hopen⟩
      obtain rfl := Except.ok.inj ((resolveSession_offset hi).symm.trans hs)
      exact ⟨_, (resolveSession_timestamp tf timestamp o _).mpr
        ⟨i, hi, (timestamp_open_iff timestamp).mp hopen, rfl⟩⟩
  · intro s hs
    obtain ⟨i, hi, hcandle, rfl⟩ := (resolveSession_timestamp tf timestamp o s).mp hs
    exact ⟨((timestamp_open_iff timestamp).mpr hcandle).symm, mem_expectedCandleOpens hi⟩

/-- An instant at which a candle of each timeframe opens. -/
def openingBell : ClockTime where
  seconds := (1700000100 : ℤ)
  double := fl_of_int (by norm_num) (by norm_num)
  nonneg := by norm_num
  dated := by
    unfold DATETIME_END
    norm_num

/-- The second candle after the one that opens. -/
theorem one_candle_grid_openingBell :
    2 ≤ 3 ∧ ∃ s, resolveSession openingBell.seconds .m5 none 2 = .ok s ∧
      OnCandleGrid .m5 openingBell 2 s ∧
      (2 = 0 → IsCurrentCandle .m5 openingBell s) :=
  ⟨by decide, (one_candle_grid openingBell .m5 2 (by decide)).1⟩

end PolyArena
