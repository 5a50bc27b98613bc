import Lox.Number.Text
import Lox.Proofs.Number.Rounding
import Lox.Proofs.Token.Written

namespace Lox.Number

variable {significand : Nat} {exponent place : Int}

theorem toNat_zpow (base : ℚ) (nonzero : base ≠ 0) (power : Int) :
    base ^ power.toNat = base ^ power * base ^ (-power).toNat := by
  obtain ⟨k, rfl | rfl⟩ := power.eq_nat_or_neg
  · simp
  · simp [zpow_neg, nonzero]

def quarter (exponent place : Int) : Nat := 2 ^ (exponent - 2).toNat * 10 ^ (-place).toNat

theorem quarter_pos (exponent place : Int) : 0 < quarter exponent place := by
  unfold quarter
  positivity

theorem unit_pos (significand : Nat) (exponent place : Int) : 0 < (onGrid significand exponent place).unit := by
  simp only [onGrid]
  positivity

theorem quarter_unit (significand : Nat) (exponent place : Int) :
    (quarter exponent place : ℚ) * 10 ^ place = (onGrid significand exponent place).unit * 2 ^ (exponent - 2) := by
  have two := toNat_zpow 2 (by norm_num) (exponent - 2)
  have ten := toNat_zpow 10 (by norm_num) place
  rw [neg_sub] at two
  simp only [onGrid, quarter]
  push_cast
  rw [two, ten]
  ring

theorem onGrid_le_iff (significand bound point : Nat) (exponent place : Int) :
    ((bound : ℚ) * 2 ^ (exponent - 2) ≤ point * 10 ^ place ↔
      bound * quarter exponent place ≤ point * (onGrid significand exponent place).unit) ∧
    ((point : ℚ) * 10 ^ place ≤ bound * 2 ^ (exponent - 2) ↔
      point * (onGrid significand exponent place).unit ≤ bound * quarter exponent place) := by
  have units := quarter_unit significand exponent place
  have quarterPos : (0 : ℚ) < quarter exponent place := by exact_mod_cast quarter_pos exponent place
  have power : (0 : ℚ) < 2 ^ (exponent - 2) := zpow_pos (by norm_num) _
  have left : (point * 10 ^ place : ℚ) * quarter exponent place =
      (point * (onGrid significand exponent place).unit : Nat) * 2 ^ (exponent - 2) := by
    push_cast
    rw [mul_assoc, mul_comm _ (quarter exponent place : ℚ), units]
    ring
  have right : (bound * 2 ^ (exponent - 2) : ℚ) * quarter exponent place =
      (bound * quarter exponent place : Nat) * 2 ^ (exponent - 2) := by
    push_cast
    ring
  constructor
  · rw [← mul_le_mul_iff_of_pos_right quarterPos, left, right, mul_le_mul_iff_of_pos_right power]
    exact_mod_cast Iff.rfl
  · rw [← mul_le_mul_iff_of_pos_right quarterPos, left, right, mul_le_mul_iff_of_pos_right power]
    exact_mod_cast Iff.rfl

theorem reach_pos (significand : Nat) (exponent : Int) : 0 < reach significand exponent := by
  unfold reach
  split <;> decide

theorem reach_room (positive : 0 < significand) : reach significand exponent ≤ 4 * significand := by
  unfold reach
  split <;> omega

theorem contains_iff (significand point : Nat) (exponent place : Int) :
    (onGrid significand exponent place).contains point = true ↔
      if significand % 2 = 0 then
        (4 * significand - reach significand exponent) * quarter exponent place ≤
            point * (onGrid significand exponent place).unit ∧
          point * (onGrid significand exponent place).unit ≤ (4 * significand + 2) * quarter exponent place
      else
        (4 * significand - reach significand exponent) * quarter exponent place <
            point * (onGrid significand exponent place).unit ∧
          point * (onGrid significand exponent place).unit < (4 * significand + 2) * quarter exponent place := by
  unfold OnGrid.contains
  by_cases even : significand % 2 = 0
  · have closed : (onGrid significand exponent place).closed = true := by simp [onGrid, even]
    rw [if_pos closed, if_pos even, decide_eq_true_iff]
    rfl
  · have opened : ¬ (onGrid significand exponent place).closed = true := by simp [onGrid, even]
    rw [if_neg opened, if_neg even, decide_eq_true_iff]
    rfl

theorem near_of_contains {point : Nat} (positive : 0 < significand)
    (inside : (onGrid significand exponent place).contains point = true) :
    Near significand exponent (point * 10 ^ place) := by
  rw [contains_iff] at inside
  have room : reach significand exponent ≤ 4 * significand := reach_room positive
  have low := onGrid_le_iff significand (4 * significand - reach significand exponent) point exponent place
  have high := onGrid_le_iff significand (4 * significand + 2) point exponent place
  push_cast [room] at low high
  by_cases even : significand % 2 = 0
  · rw [if_pos even] at inside
    refine ⟨low.1.mpr inside.1, high.2.mpr inside.2, fun odd => ?_⟩
    omega
  · rw [if_neg even] at inside
    have less := lt_of_not_ge fun back => Nat.not_le_of_lt inside.1 (low.2.mp back)
    have more := lt_of_not_ge fun back => Nat.not_le_of_lt inside.2 (high.1.mp back)
    exact ⟨less.le, more.le, fun _ => ⟨less, more⟩⟩

theorem contains_of_nearest? {g : OnGrid} {tie : Tie} {point : Nat} (found : g.nearest? tie = some point) :
    g.contains point = true := by
  unfold OnGrid.nearest? at found
  dsimp only at found
  split at found
  · cases found
  · rename_i below _
    cases found
    exact below
  · rename_i _ above
    cases found
    exact above
  · rename_i below above
    repeat' split at found
    all_goals cases found
    all_goals assumption

theorem nearest?_isSome (tie : Tie) (positive : 0 < significand)
    (fine : (10 : ℚ) ^ place ≤ 2 ^ (exponent - 2)) :
    ((onGrid significand exponent place).nearest? tie).isSome = true := by
  have units := quarter_unit significand exponent place
  have unitPos := unit_pos significand exponent place
  have smaller : (onGrid significand exponent place).unit ≤ quarter exponent place := by
    have quarterPos : (0 : ℚ) < quarter exponent place := by exact_mod_cast quarter_pos exponent place
    have ten : (0 : ℚ) < 10 ^ place := zpow_pos (by norm_num) _
    have cast : ((onGrid significand exponent place).unit : ℚ) ≤ quarter exponent place := by
      by_contra more
      have := lt_of_not_ge more
      nlinarith
    exact_mod_cast cast
  have below := Nat.div_add_mod (onGrid significand exponent place).value (onGrid significand exponent place).unit
  have part := Nat.mod_lt (onGrid significand exponent place).value unitPos
  have value : (onGrid significand exponent place).value = 4 * significand * quarter exponent place := rfl
  have inside : (onGrid significand exponent place).contains
      ((onGrid significand exponent place).value / (onGrid significand exponent place).unit) = true := by
    rw [contains_iff]
    generalize (onGrid significand exponent place).value / (onGrid significand exponent place).unit = point at *
    have strict : (4 * significand - reach significand exponent) * quarter exponent place <
          point * (onGrid significand exponent place).unit ∧
        point * (onGrid significand exponent place).unit < (4 * significand + 2) * quarter exponent place := by
      have quarterPos := quarter_pos exponent place
      have reached : quarter exponent place ≤ reach significand exponent * quarter exponent place :=
        Nat.le_mul_of_pos_left _ (reach_pos significand exponent)
      have room : reach significand exponent * quarter exponent place ≤ 4 * significand * quarter exponent place :=
        Nat.mul_le_mul_right _ (reach_room positive)
      rw [Nat.sub_mul, Nat.add_mul, Nat.mul_comm point]
      omega
    split
    · exact ⟨strict.1.le, strict.2.le⟩
    · exact strict
  unfold OnGrid.nearest?
  dsimp only
  rw [inside]
  cases (onGrid significand exponent place).contains
    ((onGrid significand exponent place).value / (onGrid significand exponent place).unit + 1) with
  | false => rfl
  | true =>
    dsimp only
    repeat' split
    all_goals rfl

/-- Powers of ten below powers of two, by `10 ^ 14 ≤ 2 ^ 47` and `2 ^ 93 ≤ 10 ^ 28`. -/
theorem ten_zpow_le {a b : Int} (upward : 0 ≤ a → 47 * a ≤ 14 * b) (downward : a < 0 → 93 * a ≤ 28 * b) :
    (10 : ℚ) ^ a ≤ 2 ^ b := by
  have ten : (0 : ℚ) ≤ 10 ^ a := (zpow_pos (by norm_num) _).le
  have two : (0 : ℚ) ≤ 2 ^ b := (zpow_pos (by norm_num) _).le
  rcases le_or_gt 0 a with up | down
  · apply le_of_pow_le_pow_left₀ (n := 14) (by decide) two
    calc ((10 : ℚ) ^ a) ^ 14 = (10 ^ 14) ^ a := by rw [← zpow_natCast, ← zpow_mul, mul_comm, zpow_mul, zpow_natCast]
      _ ≤ (2 ^ 47) ^ a := zpow_le_zpow_left₀ up (by norm_num) (by norm_num)
      _ = 2 ^ (47 * a) := by rw [zpow_mul]; rfl
      _ ≤ 2 ^ (14 * b) := zpow_le_zpow_right₀ (by norm_num) (upward up)
      _ = ((2 : ℚ) ^ b) ^ 14 := by rw [mul_comm, zpow_mul]; rfl
  · apply le_of_pow_le_pow_left₀ (n := 28) (by decide) two
    calc ((10 : ℚ) ^ a) ^ 28 = (10 ^ 28) ^ a := by rw [← zpow_natCast, ← zpow_mul, mul_comm, zpow_mul, zpow_natCast]
      _ ≤ (2 ^ 93) ^ a := by
          obtain ⟨k, rfl⟩ : ∃ k : Nat, a = -k := ⟨(-a).toNat, by omega⟩
          rw [zpow_neg, zpow_neg, zpow_natCast, zpow_natCast]
          exact inv_anti₀ (by positivity) (pow_le_pow_left₀ (by norm_num) (by norm_num) k)
      _ = 2 ^ (93 * a) := by rw [zpow_mul]; rfl
      _ ≤ 2 ^ (28 * b) := zpow_le_zpow_right₀ (by norm_num) (downward down)
      _ = ((2 : ℚ) ^ b) ^ 28 := by rw [mul_comm, zpow_mul]; rfl

theorem topPlace_fine (normal : Normal significand exponent) (most : exponent ≤ 971) :
    (10 : ℚ) ^ (topPlace significand exponent - 23) ≤ 2 ^ (exponent - 2) := by
  have length : significand.log2 ≤ 52 := by
    have := (Nat.log2_lt (by have := normal.pos; omega)).mpr normal.short
    omega
  have least := normal.least
  apply ten_zpow_le
  all_goals
    unfold topPlace
    dsimp only
    split <;> omega

theorem shortest_near (tie : Tie) (normal : Normal significand exponent) (most : exponent ≤ 971) :
    Near significand exponent
      ((shortest tie significand exponent).coefficient * 10 ^ (shortest tie significand exponent).exponent) := by
  unfold shortest
  dsimp only
  generalize found : (List.range 24).findSome? _ = result
  cases result with
  | some decimal =>
    obtain ⟨steps, -, attempt⟩ := List.exists_of_findSome?_eq_some found
    obtain ⟨point, nearest, rfl⟩ := Option.map_eq_some_iff.mp attempt
    exact near_of_contains normal.pos (contains_of_nearest? nearest)
  | none =>
    have last := List.findSome?_eq_none_iff.mp found 23 (by decide)
    have fine := nearest?_isSome tie normal.pos (topPlace_fine normal most)
    simp only [Option.map_eq_none_iff, Nat.cast_ofNat] at last
    rw [last] at fine
    cases fine

theorem ofDecimal_near {coefficient : Nat} (normal : Normal significand exponent)
    (near : Near significand exponent (coefficient * 10 ^ place)) (finite : pattern significand exponent < infinityBits) :
    ofDecimal coefficient place = ⟨(pattern significand exponent).toUInt64⟩ := by
  have ten := toNat_zpow 10 (by norm_num) place
  have denPos : 0 < 10 ^ (-place).toNat := Nat.pow_pos (by decide)
  have ratio : ((coefficient * 10 ^ place.toNat : Nat) : ℚ) / (10 ^ (-place).toNat : Nat) = coefficient * 10 ^ place := by
    have nonzero : (10 : ℚ) ^ (-place).toNat ≠ 0 := by positivity
    push_cast
    rw [ten]
    field_simp
  have some : 0 < coefficient := by
    rw [Nat.pos_iff_ne_zero]
    rintro rfl
    have least : (1 : ℚ) ≤ significand := by exact_mod_cast normal.pos
    have reached := reach_le significand exponent
    have power : (0 : ℚ) < 2 ^ (exponent - 2) := zpow_pos (by norm_num) _
    have low := near.low
    rw [Nat.cast_zero, zero_mul] at low
    nlinarith
  apply ofRatio_near (Nat.mul_pos some (Nat.pow_pos (by decide))) denPos normal _ finite
  rw [ratio]
  exact near

theorem meaning_eq_finite {n : Number} (finite : n.bits.toNat < infinityBits) :
    ∃ significand exponent, n.meaning = .finite false significand exponent ∧
      pattern significand exponent = n.bits.toNat ∧ exponent ≤ 971 ∧
        (significand = 0 ∧ exponent = -1074 ∨ Normal significand exponent) := by
  have top : infinityBits = 2047 * 2 ^ 52 := rfl
  have signed : signBit = 2048 * 2 ^ 52 := rfl
  have magnitude : n.magnitude = n.bits.toNat := Nat.mod_eq_of_lt (by omega)
  have positive : n.isNegative = false := by
    unfold isNegative
    simp only [decide_eq_false_iff_not]
    omega
  unfold meaning pattern
  dsimp only
  rw [magnitude, positive, if_neg (by omega), if_neg (by omega)]
  by_cases subnormal : n.bits.toNat / 2 ^ 52 = 0
  · rw [if_pos subnormal]
    refine ⟨_, _, rfl, by omega, by omega, ?_⟩
    by_cases zero : n.bits.toNat % 2 ^ 52 = 0
    · exact .inl ⟨zero, rfl⟩
    · exact .inr ⟨by omega, by omega, by omega, .inl rfl⟩
  · rw [if_neg subnormal]
    refine ⟨_, _, rfl, by omega, by omega, .inr ⟨by omega, by omega, by omega, .inr (by omega)⟩⟩

theorem digitsValue_eq (digits : List Char) : digitsValue digits = Nat.ofDigitChars 10 digits 0 :=
  Nat.ofDigitChars_eq_foldl.symm

theorem zero_isDigits : IsDigits ['0'] := ⟨by decide, List.all_eq_true.mp (by decide)⟩

theorem toDigits_isDigits (n : Nat) : IsDigits (Nat.toDigits 10 n) :=
  ⟨Nat.toDigits_ne_nil, fun _ => Nat.isDigit_of_mem_toDigits (by decide) (by decide)⟩

theorem zeros_digit (count : Nat) : ∀ d ∈ List.replicate count '0', d.isDigit = true := by
  intro d among
  rw [List.eq_of_mem_replicate among]
  decide

theorem digitsValue_append_zeros (n count : Nat) :
    digitsValue (Nat.toDigits 10 n ++ List.replicate count '0') = n * 10 ^ count := by
  rw [digitsValue_eq, Nat.ofDigitChars_append, Nat.ofDigitChars_ten_toDigits, Nat.ofDigitChars_replicate_zero,
    Nat.mul_comm]

theorem digitsValue_zeros_append (n count : Nat) :
    digitsValue (List.replicate count '0' ++ Nat.toDigits 10 n) = n := by
  rw [digitsValue_eq, Nat.ofDigitChars_append, Nat.ofDigitChars_replicate_zero, Nat.mul_zero,
    Nat.ofDigitChars_ten_toDigits]

theorem positional_written (d : Decimal) :
    Kind.Written .number (some (.number (ofDecimal d.coefficient d.exponent))) d.positional.toList := by
  obtain ⟨coefficient, exponent⟩ := d
  have digits := toDigits_isDigits coefficient
  unfold Decimal.positional
  dsimp only
  by_cases whole : 0 ≤ exponent
  · rw [if_pos whole]
    simp only [zeros, String.toList_append, String.toList_ofList]
    have value : ofDecimal coefficient exponent =
        ofDigits (Nat.toDigits 10 coefficient ++ List.replicate exponent.toNat '0') [] := by
      have none : (-exponent).toNat = 0 := by omega
      simp [ofDigits, digitsValue_append_zeros, ofDecimal, none]
    rw [value]
    refine .whole ⟨by simp [digits.1], fun c among => ?_⟩
    rcases List.mem_append.mp among with among | among
    · exact digits.2 c among
    · exact zeros_digit _ c among
  rw [if_neg whole]
  have places : exponent = -((-exponent).toNat : Int) := by omega
  generalize (-exponent).toNat = count at places ⊢
  by_cases inside : count < (Nat.toDigits 10 coefficient).length
  · rw [if_pos inside]
    simp only [String.toList_append, String.toList_ofList]
    generalize cut : (Nat.toDigits 10 coefficient).length - count = front
    have value : ofDecimal coefficient exponent =
        ofDigits ((Nat.toDigits 10 coefficient).take front) ((Nat.toDigits 10 coefficient).drop front) := by
      have behind : (Nat.toDigits 10 coefficient).length - front = count := by omega
      rw [ofDigits, List.take_append_drop, List.length_drop, behind, digitsValue_eq, Nat.ofDigitChars_ten_toDigits,
        ← places]
    have text : ((Nat.toDigits 10 coefficient).take front ++ ".".toList) ++ (Nat.toDigits 10 coefficient).drop front =
        (Nat.toDigits 10 coefficient).take front ++ '.' :: (Nat.toDigits 10 coefficient).drop front := by
      rw [List.append_assoc]
      rfl
    rw [value, text]
    apply Kind.Written.decimal
    · refine ⟨?_, fun c among => digits.2 c (List.mem_of_mem_take among)⟩
      rw [ne_eq, List.take_eq_nil_iff]
      rintro (none | none)
      · omega
      · exact digits.1 none
    · refine ⟨?_, fun c among => digits.2 c (List.mem_of_mem_drop among)⟩
      rw [ne_eq, List.drop_eq_nil_iff]
      omega
  · rw [if_neg inside]
    simp only [zeros, String.toList_append, String.toList_ofList]
    generalize gap : count - (Nat.toDigits 10 coefficient).length = more
    have value : ofDecimal coefficient exponent =
        ofDigits ['0'] (List.replicate more '0' ++ Nat.toDigits 10 coefficient) := by
      have length : (List.replicate more '0' ++ Nat.toDigits 10 coefficient).length = count := by
        rw [List.length_append, List.length_replicate]
        omega
      rw [ofDigits, length, ← places, ← List.append_assoc, List.singleton_append, ← List.replicate_succ,
        digitsValue_zeros_append]
    have text : ("0.".toList ++ List.replicate more '0') ++ Nat.toDigits 10 coefficient =
        ['0'] ++ '.' :: (List.replicate more '0' ++ Nat.toDigits 10 coefficient) := by
      rw [List.append_assoc]
      rfl
    rw [value, text]
    apply Kind.Written.decimal
    · exact zero_isDigits
    · refine ⟨by simp [digits.1], fun c among => ?_⟩
      rcases List.mem_append.mp among with among | among
      · exact zeros_digit _ c among
      · exact digits.2 c among

theorem display_written {n : Number} (finite : n.bits.toNat < infinityBits) :
    Kind.Written .number (some (.number n)) n.display.toList := by
  obtain ⟨significand, exponent, meaning, bits, most, parts⟩ := meaning_eq_finite finite
  have same : (⟨(pattern significand exponent).toUInt64⟩ : Number) = n := by
    rw [bits]
    cases n
    simp
  unfold display
  rw [meaning]
  rcases parts with ⟨rfl, rfl⟩ | normal
  · have zero : n = ofDigits ['0'] [] := by
      rw [← same]
      decide
    rw [zero]
    exact .whole zero_isDigits
  · have written := positional_written (shortest .up significand exponent)
    rw [ofDecimal_near normal (shortest_near .up normal most) (by omega), same] at written
    have positive := normal.pos
    cases significand with
    | zero => cases positive
    | succ => simpa [sign] using written

end Lox.Number
