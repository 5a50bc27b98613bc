import Mathlib.Algebra.Order.Field.Power
import Mathlib.Data.Rat.Cast.Order
import Mathlib.Tactic.FieldSimp
import Mathlib.Tactic.Linarith
import Mathlib.Tactic.Positivity
import Mathlib.Tactic.Ring
import Lox.Number.Reading

namespace Lox.Number

theorem roundDiv_eq {num den m : Nat} (pos : 0 < den) (low : 2 * m * den ≤ 2 * num + den)
    (high : 2 * num ≤ 2 * m * den + den)
    (odd : m % 2 = 1 → 2 * m * den < 2 * num + den ∧ 2 * num < 2 * m * den + den) : roundDiv num den = m := by
  unfold roundDiv
  have whole : den * (num / den) + num % den = num := Nat.div_add_mod num den
  have part := Nat.mod_lt num pos
  generalize num / den = q at whole ⊢
  generalize num % den = r at whole part ⊢
  have above : q ≤ m := by
    by_contra beyond
    have : den * (m + 1) ≤ den * q := Nat.mul_le_mul_left _ (by omega)
    nlinarith
  have below : m ≤ q + 1 := by
    by_contra beyond
    have : den * (q + 2) ≤ den * m := Nat.mul_le_mul_left _ (by omega)
    nlinarith
  have cases : m = q ∨ m = q + 1 := by omega
  rcases cases with rfl | rfl
  · have room : 2 * r ≤ den := by nlinarith
    have tie : 2 * r = den → m % 2 ≠ 1 := fun same parity => by
      have := (odd parity).2
      nlinarith
    dsimp only
    rw [if_neg]
    omega
  · have room : den ≤ 2 * r := by nlinarith
    have tie : 2 * r = den → q % 2 = 1 := fun same => by
      by_contra parity
      have := (odd (by omega)).1
      nlinarith
    dsimp only
    rw [if_pos]
    omega

section Ratio

variable {num den : Nat}

theorem scaled_den_pos (num : Nat) (pos : 0 < den) (exponent : Int) : 0 < (scaled num den exponent).2 :=
  Nat.mul_pos pos (Nat.pow_pos (by decide))

theorem scaled_ratio (num den : Nat) (exponent : Int) :
    ((scaled num den exponent).1 : ℚ) / (scaled num den exponent).2 = num / den / 2 ^ exponent := by
  obtain ⟨k, rfl | rfl⟩ := exponent.eq_nat_or_neg
  · simp [scaled, div_div]
  · simp only [scaled, neg_neg, Int.toNat_natCast, Int.toNat_neg_natCast, pow_zero, mul_one, zpow_neg, zpow_natCast,
      div_inv_eq_mul]
    push_cast
    ring

theorem pow_log2_le (pos : 0 < num) : (2 : ℚ) ^ (num.log2 : Int) ≤ num := by
  rw [zpow_natCast]
  exact_mod_cast Nat.log2_self_le (by omega)

theorem lt_pow_log2 (num : Nat) : (num : ℚ) < 2 ^ ((num.log2 : Int) + 1) := by
  have bound : num < 2 ^ (num.log2 + 1) := Nat.lt_log2_self
  rw [← Nat.cast_succ, zpow_natCast]
  exact_mod_cast bound

theorem ratio_log2 (numPos : 0 < num) (denPos : 0 < den) :
    (2 : ℚ) ^ ((num.log2 : Int) - den.log2 - 1) < num / den ∧
      (num / den : ℚ) < 2 ^ ((num.log2 : Int) - den.log2 + 1) := by
  have two : (2 : ℚ) ≠ 0 := by norm_num
  have positive : (0 : ℚ) < den := by exact_mod_cast denPos
  constructor
  · rw [lt_div_iff₀ positive]
    calc (2 : ℚ) ^ ((num.log2 : Int) - den.log2 - 1) * den
        < 2 ^ ((num.log2 : Int) - den.log2 - 1) * 2 ^ ((den.log2 : Int) + 1) := by
          have := lt_pow_log2 den
          gcongr
      _ = 2 ^ (num.log2 : Int) := by
          rw [← zpow_add₀ two]
          congr 1
          omega
      _ ≤ num := pow_log2_le numPos
  · rw [div_lt_iff₀ positive]
    calc (num : ℚ) < 2 ^ ((num.log2 : Int) + 1) := lt_pow_log2 num
      _ = 2 ^ ((num.log2 : Int) - den.log2 + 1) * 2 ^ (den.log2 : Int) := by
          rw [← zpow_add₀ two]
          congr 1
          omega
      _ ≤ 2 ^ ((num.log2 : Int) - den.log2 + 1) * den := by
          have := pow_log2_le denPos
          gcongr

theorem scaled_div_lt (num : Nat) (pos : 0 < den) (exponent : Int) (bits : Nat) :
    (scaled num den exponent).1 / (scaled num den exponent).2 < 2 ^ bits ↔
      (num / den : ℚ) < 2 ^ (exponent + bits) := by
  have positive := scaled_den_pos num pos exponent
  have cast : (0 : ℚ) < (scaled num den exponent).2 := by exact_mod_cast positive
  have unit : (0 : ℚ) < 2 ^ exponent := zpow_pos (by norm_num) _
  rw [Nat.div_lt_iff_lt_mul positive]
  have ratio : (num / den : ℚ) < 2 ^ (exponent + bits) ↔
      ((scaled num den exponent).1 : ℚ) / (scaled num den exponent).2 < 2 ^ bits := by
    rw [scaled_ratio, div_lt_iff₀ unit, ← zpow_natCast, ← zpow_add₀ (by norm_num), add_comm]
  rw [ratio, div_lt_iff₀ cast]
  exact_mod_cast Iff.rfl

theorem unitExponent_spec (numPos : 0 < num) (denPos : 0 < den) :
    -1074 ≤ unitExponent num den ∧ (num / den : ℚ) < 2 ^ (unitExponent num den + 53) ∧
      (unitExponent num den = -1074 ∨ (2 : ℚ) ^ (unitExponent num den + 52) ≤ num / den) := by
  obtain ⟨least, most⟩ := ratio_log2 numPos denPos
  unfold unitExponent
  dsimp only
  have split := scaled_div_lt num denPos ((num.log2 : Int) - den.log2 - 52) 52
  generalize (num.log2 : Int) - den.log2 = logs at *
  generalize (num / den : ℚ) = ratio at *
  have normal : ∃ unit, (if (scaled num den (logs - 52)).1 / (scaled num den (logs - 52)).2 < 2 ^ 52 then logs - 52 - 1
      else logs - 52) = unit ∧ (2 : ℚ) ^ (unit + 52) ≤ ratio ∧ ratio < 2 ^ (unit + 53) := by
    by_cases small : (scaled num den (logs - 52)).1 / (scaled num den (logs - 52)).2 < 2 ^ 52
    · refine ⟨_, if_pos small, ?_, ?_⟩
      · rw [show logs - 52 - 1 + 52 = logs - 1 by omega]
        exact least.le
      · rw [show logs - 52 - 1 + 53 = logs - 52 + (52 : Nat) by omega]
        exact split.mp small
    · refine ⟨_, if_neg small, ?_, ?_⟩
      · exact le_of_not_gt fun below => small (split.mpr below)
      · rw [show logs - 52 + 53 = logs + 1 by omega]
        exact most
  obtain ⟨unit, same, bottom, top⟩ := normal
  rw [same]
  rcases le_total (-1074) unit with inside | outside
  · rw [max_eq_right inside]
    exact ⟨inside, top, .inr bottom⟩
  · rw [max_eq_left outside]
    refine ⟨le_refl _, lt_of_lt_of_le top ?_, .inl rfl⟩
    exact zpow_le_zpow_right₀ (by norm_num) (by omega)

end Ratio

structure Normal (significand : Nat) (exponent : Int) : Prop where
  pos : 0 < significand
  short : significand < 2 ^ 53
  least : -1074 ≤ exponent
  full : exponent = -1074 ∨ 2 ^ 52 ≤ significand

def reach (significand : Nat) (exponent : Int) : Nat := if significand = 2 ^ 52 ∧ exponent ≠ -1074 then 1 else 2

structure Near (significand : Nat) (exponent : Int) (ratio : ℚ) : Prop where
  low : (4 * significand - reach significand exponent) * 2 ^ (exponent - 2) ≤ ratio
  high : ratio ≤ (4 * significand + 2) * 2 ^ (exponent - 2)
  odd : significand % 2 = 1 →
    (4 * significand - reach significand exponent) * 2 ^ (exponent - 2) < ratio ∧
      ratio < (4 * significand + 2) * 2 ^ (exponent - 2)

variable {significand num den : Nat} {exponent : Int}

theorem reach_le (significand : Nat) (exponent : Int) : (reach significand exponent : ℚ) ≤ 2 := by
  unfold reach
  split <;> norm_num

/-- The unit of a ratio near a number is the unit of the number, or half of it just below a power of two. -/
theorem unitExponent_near (numPos : 0 < num) (denPos : 0 < den) (normal : Normal significand exponent)
    (near : Near significand exponent (num / den)) :
    unitExponent num den = exponent ∨
      (unitExponent num den = exponent - 1 ∧ significand = 2 ^ 52 ∧ exponent ≠ -1074) := by
  obtain ⟨least, most, full⟩ := unitExponent_spec numPos denPos
  have low := near.low
  have high := near.high
  generalize unitExponent num den = unit at *
  generalize (num / den : ℚ) = ratio at *
  have quarter : (0 : ℚ) < 2 ^ (exponent - 2) := zpow_pos (by norm_num) _
  have quarters (k : Nat) : (2 : ℚ) ^ (exponent - 2 + k) = 2 ^ k * 2 ^ (exponent - 2) := by
    rw [zpow_add₀ (by norm_num), zpow_natCast, mul_comm]
  have step {i j : Int} (less : (2 : ℚ) ^ i < 2 ^ j) : i < j := (zpow_lt_zpow_iff_right₀ (by norm_num)).mp less
  have short : (significand : ℚ) + 1 ≤ 2 ^ 53 := by exact_mod_cast normal.short
  have reached := reach_le significand exponent
  have above : unit < exponent + 1 := by
    rcases full with same | full
    · rw [same]
      have := normal.least
      omega
    · have bound : ratio < 2 ^ (exponent - 2 + (55 : Nat)) := by
        rw [quarters]
        nlinarith
      have := step (lt_of_le_of_lt full bound)
      omega
  rcases normal.full with same | full
  · left
    omega
  by_cases same : unit = exponent
  · exact .inl same
  right
  have wide : (2 : ℚ) ^ 52 ≤ significand := by exact_mod_cast full
  have below : ratio < 2 ^ 54 * 2 ^ (exponent - 2) := by
    rw [← quarters]
    exact lt_of_lt_of_le most (zpow_le_zpow_right₀ (by norm_num) (by push_cast; omega))
  have power : significand = 2 ^ 52 := by
    by_contra other
    have more : (2 : ℚ) ^ 52 + 1 ≤ significand := by exact_mod_cast Nat.lt_of_le_of_ne full (Ne.symm other)
    nlinarith
  have bottom : (2 : ℚ) ^ (exponent - 2 + (53 : Nat)) < 2 ^ (unit + 53) := by
    rw [quarters]
    nlinarith
  have := step bottom
  refine ⟨by omega, power, ?_⟩
  omega

theorem roundDiv_of_ratio {m : Nat} (pos : 0 < den) (low : (2 * m - 1 : ℚ) ≤ 2 * (num / den))
    (high : 2 * (num / den : ℚ) ≤ 2 * m + 1)
    (odd : m % 2 = 1 → (2 * m - 1 : ℚ) < 2 * (num / den) ∧ 2 * (num / den : ℚ) < 2 * m + 1) :
    roundDiv num den = m := by
  have positive : (0 : ℚ) < den := by exact_mod_cast pos
  rw [mul_div_assoc', le_div_iff₀ positive] at low
  rw [mul_div_assoc', div_le_iff₀ positive] at high
  rw [mul_div_assoc', lt_div_iff₀ positive, div_lt_iff₀ positive] at odd
  apply roundDiv_eq pos
  · have cast : (2 * m * den : ℚ) ≤ 2 * num + den := by linarith
    exact_mod_cast cast
  · have cast : (2 * num : ℚ) ≤ 2 * m * den + den := by linarith
    exact_mod_cast cast
  · intro parity
    obtain ⟨less, more⟩ := odd parity
    have castLow : (2 * m * den : ℚ) < 2 * num + den := by linarith
    have castHigh : (2 * num : ℚ) < 2 * m * den + den := by linarith
    exact ⟨by exact_mod_cast castLow, by exact_mod_cast castHigh⟩

theorem roundDiv_near (denPos : 0 < den) (near : Near significand exponent (num / den)) :
    roundDiv (scaled num den exponent).1 (scaled num den exponent).2 = significand := by
  have unit : (0 : ℚ) < 2 ^ exponent := zpow_pos (by norm_num) _
  have quarter : (2 : ℚ) ^ (exponent - 2) = 2 ^ exponent / 4 := by
    rw [zpow_sub₀ (by norm_num)]
    norm_num
  have reached := reach_le significand exponent
  obtain ⟨low, high, odd⟩ := near
  rw [quarter] at low high odd
  apply roundDiv_of_ratio (scaled_den_pos num denPos exponent)
  · rw [scaled_ratio, mul_div_assoc', le_div_iff₀ unit]
    nlinarith
  · rw [scaled_ratio, mul_div_assoc', div_le_iff₀ unit]
    nlinarith
  · intro parity
    obtain ⟨less, more⟩ := odd parity
    rw [scaled_ratio, mul_div_assoc', lt_div_iff₀ unit, div_lt_iff₀ unit]
    constructor <;> nlinarith

theorem roundDiv_below (denPos : 0 < den) (near : Near (2 ^ 52) exponent (num / den)) (inside : exponent ≠ -1074)
    (below : (num / den : ℚ) < 2 ^ (exponent + 52)) :
    roundDiv (scaled num den (exponent - 1)).1 (scaled num den (exponent - 1)).2 = 2 ^ 53 := by
  have unit : (0 : ℚ) < 2 ^ (exponent - 1) := zpow_pos (by norm_num) _
  have quarter : (2 : ℚ) ^ (exponent - 2) = 2 ^ (exponent - 1) / 2 := by
    rw [show exponent - 2 = exponent - 1 - 1 by omega, zpow_sub₀ (by norm_num)]
    norm_num
  have top : (2 : ℚ) ^ (exponent + 52) = 2 ^ (exponent - 1) * 2 ^ 53 := by
    rw [show exponent + 52 = exponent - 1 + (53 : Nat) by push_cast; omega, zpow_add₀ (by norm_num), zpow_natCast]
  have low := near.low
  rw [quarter, reach, if_pos ⟨rfl, inside⟩] at low
  rw [top] at below
  push_cast at low
  apply roundDiv_of_ratio (scaled_den_pos num denPos _)
  · rw [scaled_ratio, mul_div_assoc', le_div_iff₀ unit]
    push_cast
    nlinarith
  · rw [scaled_ratio, mul_div_assoc', div_le_iff₀ unit]
    push_cast
    nlinarith
  · intro parity
    exact absurd parity (by decide)

def pattern (significand : Nat) (exponent : Int) : Nat := (exponent + 1074).toNat * 2 ^ 52 + significand

theorem ofRatio_near (numPos : 0 < num) (denPos : 0 < den) (normal : Normal significand exponent)
    (near : Near significand exponent (num / den)) (finite : pattern significand exponent < infinityBits) :
    ofRatio num den = ⟨(pattern significand exponent).toUInt64⟩ := by
  have same : (unitExponent num den + 1074).toNat * 2 ^ 52 +
      roundDiv (scaled num den (unitExponent num den)).1 (scaled num den (unitExponent num den)).2 =
      pattern significand exponent := by
    obtain ⟨-, most, -⟩ := unitExponent_spec numPos denPos
    rcases unitExponent_near numPos denPos normal near with unit | ⟨unit, power, inside⟩
    · rw [unit, roundDiv_near denPos near, pattern]
    · subst power
      rw [unit, show exponent - 1 + 53 = exponent + 52 by omega] at most
      rw [unit, roundDiv_below denPos near inside most, pattern]
      have := normal.least
      omega
  unfold ofRatio
  rw [if_neg (by omega)]
  dsimp only
  rw [same, min_eq_right (by omega)]

end Lox.Number
