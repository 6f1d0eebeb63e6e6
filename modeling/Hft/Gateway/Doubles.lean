import Hft.Gateway.MessageTranslator
import Mathlib.Algebra.Order.Field.Power
import Mathlib.Tactic.FieldSimp
import Mathlib.Tactic.Linarith
import Mathlib.Tactic.NormNum
import Mathlib.Tactic.Positivity

/-!
# Prices through doubles

A price in ticks leaves as a `double` (`from_fixed`) and comes back as one (`to_fixed`): a
division and a multiplication by the scale, each rounded to nearest, and a truncation. Two
roundings move a price below 2^52 ticks by less than one tick, so the truncation gives back the
price or its neighbour toward zero; a multiple of 1/64 is a double and comes back as it was.
-/

namespace Hft.Gateway

open Logical

/-! ## Rounding to nearest -/

theorem abs_roundHalfEven_sub_le (value : ℚ) : |(roundHalfEven value : ℚ) - value| ≤ 1 / 2 := by
  have below := Int.floor_le value
  have above := Int.lt_floor_add_one value
  simp only [roundHalfEven]
  rw [abs_le]
  split_ifs with less more even
  · constructor <;> linarith
  · push_cast
    constructor <;> linarith
  · constructor <;> linarith
  · push_cast
    constructor <;> linarith

theorem roundHalfEven_intCast (value : Int) : roundHalfEven value = value := by
  simp [roundHalfEven]

/-- The exponent of the last place of a double. -/
def lastPlace (value : ℚ) : Int := max (Int.log 2 |value| - 52) (-1074)

theorem abs_roundDouble_sub_le (value : ℚ) :
    |roundDouble value - value| ≤ 2 ^ lastPlace value / 2 := by
  have place : (0 : ℚ) < 2 ^ lastPlace value := by positivity
  have scaled : roundDouble value - value =
      (roundHalfEven (value / 2 ^ lastPlace value) - value / 2 ^ lastPlace value) *
        2 ^ lastPlace value := by
    rw [sub_mul, div_mul_cancel₀ value place.ne']
    rfl
  rw [scaled, abs_mul, abs_of_pos place]
  calc _ ≤ 1 / 2 * 2 ^ lastPlace value :=
        mul_le_mul_of_nonneg_right (abs_roundHalfEven_sub_le _) place.le
    _ = 2 ^ lastPlace value / 2 := by ring

/-- Above the subnormal numbers, rounding is off by half a unit in the 53rd place at most. -/
theorem abs_roundDouble_sub_le_of_normal {value : ℚ} (normal : 2 ^ (-1022 : Int) ≤ |value|) :
    |roundDouble value - value| ≤ |value| / 2 ^ 53 := by
  have positive : 0 < |value| := lt_of_lt_of_le (by positivity) normal
  have exponent : -1022 ≤ Int.log 2 |value| :=
    (Int.zpow_le_iff_le_log (by decide) positive).mp (by exact_mod_cast normal)
  have place : lastPlace value = Int.log 2 |value| - 52 := max_eq_left (by omega)
  have leading : (2 : ℚ) ^ Int.log 2 |value| ≤ |value| := by
    exact_mod_cast Int.zpow_log_le_self (b := 2) (by decide) positive
  calc |roundDouble value - value| ≤ 2 ^ lastPlace value / 2 := abs_roundDouble_sub_le value
    _ = 2 ^ Int.log 2 |value| / 2 ^ 53 := by
        rw [place, zpow_sub₀ (by norm_num)]
        norm_num
        ring
    _ ≤ |value| / 2 ^ 53 := by gcongr

/-- A number of at most 53 binary digits is a double. -/
theorem roundDouble_of_dyadic {mantissa exponent : Int} (digits : |mantissa| < 2 ^ 53)
    (inFormat : -1074 ≤ exponent) :
    roundDouble (mantissa * 2 ^ exponent) = mantissa * 2 ^ exponent := by
  by_cases zero : mantissa = 0
  · simp [zero, roundDouble, roundHalfEven]
  have positive : 0 < |(mantissa : ℚ) * 2 ^ exponent| := by
    rw [abs_pos]
    exact mul_ne_zero (by exact_mod_cast zero) (by positivity)
  have small : |(mantissa : ℚ) * 2 ^ exponent| < 2 ^ (exponent + 53) := by
    rw [abs_mul, abs_of_pos (show (0 : ℚ) < 2 ^ exponent by positivity), zpow_add₀ (by norm_num),
      mul_comm]
    refine mul_lt_mul_of_pos_left ?_ (by positivity)
    exact_mod_cast digits
  have log : Int.log 2 |(mantissa : ℚ) * 2 ^ exponent| < exponent + 53 :=
    (Int.lt_zpow_iff_log_lt (by decide) positive).mp (by exact_mod_cast small)
  have fits : lastPlace (mantissa * 2 ^ exponent) ≤ exponent := max_le (by omega) inFormat
  obtain ⟨shift, shifted⟩ := Int.eq_ofNat_of_zero_le (sub_nonneg.mpr fits)
  have place : (2 : ℚ) ^ lastPlace (mantissa * 2 ^ exponent) ≠ 0 := by positivity
  -- Counted in last places, the number is an integer, and that one is not rounded.
  have whole : (mantissa : ℚ) * 2 ^ exponent / 2 ^ lastPlace (mantissa * 2 ^ exponent) =
      ((mantissa * 2 ^ shift : Int) : ℚ) := by
    rw [mul_div_assoc, ← zpow_sub₀ (by norm_num), shifted]
    push_cast
    rfl
  change (roundHalfEven (_ / 2 ^ lastPlace (mantissa * 2 ^ exponent)) : ℚ) * _ = _
  rw [whole, roundHalfEven_intCast, ← whole]
  exact div_mul_cancel₀ _ place

theorem roundDouble_intCast {value : Int} (digits : |value| < 2 ^ 53) :
    roundDouble value = value := by
  simpa using @roundDouble_of_dyadic value 0 digits (by decide)

/-! ## Truncation -/

theorem truncate_of_nonneg {value : ℚ} (nonneg : 0 ≤ value) : truncate value = ⌊value⌋ := by
  rw [truncate, Rat.floor_def', Int.tdiv_eq_ediv_of_nonneg (Rat.num_nonneg.mpr nonneg)]

theorem truncate_neg (value : ℚ) : truncate (-value) = -truncate value := by
  simp [truncate, Int.neg_tdiv]

/-- Within a tick of a whole number, truncation gives that number or its neighbour toward
zero. -/
theorem truncate_of_near {ticks : Int} {value : ℚ} (near : |value - ticks| < 1) :
    truncate value = ticks ∨ truncate value = ticks - ticks.sign := by
  obtain ⟨low, high⟩ := abs_lt.mp near
  have floored : ∀ {whole : Int} {positive : ℚ}, 0 < whole → (whole : ℚ) - 1 < positive →
      positive < whole + 1 → truncate positive = whole ∨ truncate positive = whole - 1 := by
    intro whole positive ahead above below
    have oneLe : (1 : ℚ) ≤ whole := by exact_mod_cast ahead
    rw [truncate_of_nonneg (by linarith)]
    have floorLe : ⌊positive⌋ < whole + 1 := Int.floor_lt.mpr (by push_cast; exact below)
    have leFloor : whole - 1 ≤ ⌊positive⌋ := Int.le_floor.mpr (by push_cast; exact above.le)
    omega
  obtain negative | rfl | positive := lt_trichotomy ticks 0
  · have mirrored := @floored (-ticks) (-value) (by omega) (by push_cast; linarith)
      (by push_cast; linarith)
    rw [truncate_neg] at mirrored
    rw [Int.sign_eq_neg_one_of_neg negative]
    omega
  · left
    obtain above | below := le_total 0 value
    · rw [truncate_of_nonneg above]
      exact Int.floor_eq_iff.mpr ⟨by simpa using above, by simpa using high⟩
    · rw [← neg_neg value, truncate_neg, truncate_of_nonneg (neg_nonneg.mpr below), neg_eq_zero]
      exact Int.floor_eq_iff.mpr ⟨by simpa using below, by
        simp only [Int.cast_zero] at low ⊢
        linarith⟩
  · rw [Int.sign_eq_one_of_pos positive]
    exact floored positive (by linarith) (by linarith)

/-! ## The round trip -/

theorem fromFixed_eq {ticks : Int} (small : |ticks| < 2 ^ 52) :
    fromFixed ticks = roundDouble (ticks / 1000000) := by
  rw [fromFixed, roundDouble_intCast (small.trans (by norm_num))]
  norm_num [priceScale]

/-- Both roundings together move a price by less than a tick. -/
theorem abs_roundTrip_sub_lt {ticks : Int} (small : |ticks| < 2 ^ 52) :
    |roundDouble (fromFixed ticks * priceScale) - ticks| < 1 := by
  have scale : ((priceScale : Int) : ℚ) = 1000000 := by norm_num [priceScale]
  rw [fromFixed_eq small, scale]
  by_cases zero : ticks = 0
  · simp [zero, roundDouble, roundHalfEven]
  have least : (1 : ℚ) ≤ |(ticks : ℚ)| := by exact_mod_cast Int.one_le_abs zero
  have most : |(ticks : ℚ)| ≤ 2 ^ 52 - 1 := by exact_mod_cast Int.le_sub_one_of_lt small
  have tiny : (2 : ℚ) ^ (-1022 : Int) ≤ 1 / 1000000 := by
    calc (2 : ℚ) ^ (-1022 : Int) ≤ 2 ^ (-20 : Int) :=
          zpow_le_zpow_right₀ (by norm_num) (by norm_num)
      _ ≤ 1 / 1000000 := by norm_num
  have quotient : |(ticks : ℚ) / 1000000| = |(ticks : ℚ)| / 1000000 := by
    rw [abs_div, abs_of_pos (by norm_num : (0 : ℚ) < 1000000)]
  have divided := @abs_roundDouble_sub_le_of_normal ((ticks : ℚ) / 1000000)
    (by rw [quotient]; linarith)
  rw [quotient] at divided
  generalize roundDouble ((ticks : ℚ) / 1000000) = sent at divided ⊢
  have scaled : |sent * 1000000 - ticks| ≤ |(ticks : ℚ)| / 2 ^ 53 := by
    have factored : sent * 1000000 - ticks = (sent - ticks / 1000000) * 1000000 := by ring
    rw [factored, abs_mul, abs_of_pos (by norm_num : (0 : ℚ) < 1000000)]
    linarith
  have near : |(ticks : ℚ)| / 2 ≤ |sent * 1000000| ∧
      |sent * 1000000| ≤ |(ticks : ℚ)| + |(ticks : ℚ)| / 2 ^ 53 := by
    have lower := abs_sub_abs_le_abs_sub (ticks : ℚ) (sent * 1000000)
    have upper := abs_sub_abs_le_abs_sub (sent * 1000000) (ticks : ℚ)
    rw [abs_sub_comm] at lower
    constructor <;> linarith
  have multiplied := @abs_roundDouble_sub_le_of_normal (sent * 1000000) (by linarith)
  calc |roundDouble (sent * 1000000) - ticks|
      ≤ |roundDouble (sent * 1000000) - sent * 1000000| + |sent * 1000000 - ticks| :=
        abs_sub_le _ _ _
    _ ≤ |sent * 1000000| / 2 ^ 53 + |(ticks : ℚ)| / 2 ^ 53 := add_le_add multiplied scaled
    _ < 1 := by linarith

/-- A price comes back as it was, or one tick closer to zero. -/
theorem toFixed_fromFixed (arith : Arithmetic) {ticks : Int} (small : |ticks| < 2 ^ 52) :
    toFixed arith (fromFixed ticks) = ticks ∨
      toFixed arith (fromFixed ticks) = ticks - ticks.sign := by
  have bounds := abs_lt.mp small
  have truncated := truncate_of_near (abs_roundTrip_sub_lt small)
  have sign : -1 ≤ ticks.sign ∧ ticks.sign ≤ 1 := by
    obtain negative | rfl | positive := lt_trichotomy ticks 0
    · simp [Int.sign_eq_neg_one_of_neg negative]
    · decide
    · simp [Int.sign_eq_one_of_pos positive]
  rw [toFixed, arith.int64_exact (inRange_64 (by omega) (by omega))]
  exact truncated

/-- The direction of the tick that may be lost. -/
theorem toFixed_fromFixed_bounds (arith : Arithmetic) {ticks : Int} (small : |ticks| < 2 ^ 52) :
    (0 ≤ ticks → 0 ≤ toFixed arith (fromFixed ticks) ∧ toFixed arith (fromFixed ticks) ≤ ticks ∧
      ticks - 1 ≤ toFixed arith (fromFixed ticks)) ∧
    (ticks ≤ 0 → toFixed arith (fromFixed ticks) ≤ 0 ∧ ticks ≤ toFixed arith (fromFixed ticks) ∧
      toFixed arith (fromFixed ticks) ≤ ticks + 1) := by
  have back := toFixed_fromFixed arith small
  generalize toFixed arith (fromFixed ticks) = price at back ⊢
  obtain negative | rfl | positive := lt_trichotomy ticks 0
  · rw [Int.sign_eq_neg_one_of_neg negative] at back
    omega
  · rw [Int.sign_zero] at back
    omega
  · rw [Int.sign_eq_one_of_pos positive] at back
    omega

/-- A multiple of 1/64 comes back as it was. -/
theorem toFixed_fromFixed_of_dvd (arith : Arithmetic) {ticks : Int} (small : |ticks| < 2 ^ 52)
    (sixtyFourths : 15625 ∣ ticks) : toFixed arith (fromFixed ticks) = ticks := by
  obtain ⟨count, rfl⟩ := sixtyFourths
  have bounds := abs_lt.mp small
  have few : |count| < 2 ^ 53 := abs_lt.mpr ⟨by omega, by omega⟩
  have quotient : ((15625 * count : Int) : ℚ) / 1000000 = count * 2 ^ (-6 : Int) := by
    push_cast
    norm_num
    ring
  have back : ((15625 * count : Int) : ℚ) / 1000000 * priceScale = ((15625 * count : Int) : ℚ) := by
    norm_num [priceScale]
  rw [toFixed, fromFixed_eq small, quotient, roundDouble_of_dyadic few (by decide), ← quotient,
    back, roundDouble_intCast (small.trans (by norm_num))]
  rw [truncate, Rat.num_intCast, Rat.den_intCast, Nat.cast_one, Int.tdiv_one]
  exact arith.int64_exact (inRange_64 (by omega) (by omega))

/-- The trip of a price through the wire and back: at most one tick toward zero, none for a
multiple of 1/64, and no two prices change places. -/
theorem price_roundTrip (arith : Arithmetic) {ticks : Int} (small : |ticks| < 2 ^ 52) :
    (toFixed arith (fromFixed ticks) = ticks ∨
      toFixed arith (fromFixed ticks) = ticks - ticks.sign) ∧
    (15625 ∣ ticks → toFixed arith (fromFixed ticks) = ticks) ∧
    ∀ higher, ticks ≤ higher → |higher| < 2 ^ 52 →
      toFixed arith (fromFixed ticks) ≤ toFixed arith (fromFixed higher) := by
  refine ⟨toFixed_fromFixed arith small, toFixed_fromFixed_of_dvd arith small,
    fun higher le smaller => ?_⟩
  obtain rfl | less := le.eq_or_lt
  · exact le_rfl
  have bounds := toFixed_fromFixed_bounds arith small
  have other := toFixed_fromFixed_bounds arith smaller
  omega

/-- 249 ticks come back as 248, and 175.50 as it was. -/
theorem price_roundTrip_examples :
    (toFixed .wrapping (fromFixed 249) = 249 ∨ toFixed .wrapping (fromFixed 249) = 248) ∧
      toFixed .wrapping (fromFixed 249) = 248 ∧
      toFixed .wrapping (fromFixed 175500000) = 175500000 :=
  ⟨(price_roundTrip .wrapping (show |(249 : Int)| < 2 ^ 52 by decide)).1, by decide +kernel,
    (price_roundTrip .wrapping (show |(175500000 : Int)| < 2 ^ 52 by decide)).2.1 (by decide)⟩

end Hft.Gateway
