import Mathlib
import Lox.Proofs.Tree.Words

namespace Lox

namespace Number

variable {num den : Nat}

/-- Half a unit of the largest finite number below `2 ^ 1024`: from here on the rounding goes up to infinity. -/
def overflow : ℚ := 2 ^ 1024 - 2 ^ 970

theorem overflow_eq : overflow = (2 ^ 54 - 1) * 2 ^ (970 : Int) := by
  rw [overflow, show 1024 = 54 + 970 from rfl, pow_add, sub_mul, one_mul]
  rfl

theorem overflow_pos : 0 < overflow := by
  rw [overflow_eq]
  exact mul_pos (by norm_num) (zpow_pos (by norm_num) _)

/-- An even number is reached from half below it on, since the tie goes to it. -/
theorem le_roundDiv_iff {m : Nat} (pos : 0 < den) (even : m % 2 = 0) :
    m ≤ roundDiv num den ↔ 2 * m * den ≤ 2 * num + den := by
  unfold roundDiv
  have whole : den * (num / den) + num % den = num := Nat.div_add_mod num den
  have part := Nat.mod_lt num pos
  generalize num / den = q at whole ⊢
  generalize num % den = r at whole part ⊢
  dsimp only
  rcases Nat.lt_trichotomy m (q + 1) with below | same | above
  · have room : den * m ≤ den * q := Nat.mul_le_mul_left _ (by omega)
    have reached : m ≤ if den < 2 * r ∨ 2 * r = den ∧ q % 2 = 1 then q + 1 else q := by
      split <;> omega
    exact iff_of_true reached (by nlinarith)
  · subst same
    have odd : q % 2 = 1 := by omega
    have bound : 2 * (q + 1) * den ≤ 2 * num + den ↔ den ≤ 2 * r := by
      constructor
      all_goals
        intro
        nlinarith
    rw [bound]
    split <;> omega
  · have room : den * (q + 2) ≤ den * m := Nat.mul_le_mul_left _ (by omega)
    have missed : ¬ m ≤ if den < 2 * r ∨ 2 * r = den ∧ q % 2 = 1 then q + 1 else q := by
      split <;> omega
    exact iff_of_false missed (by nlinarith)

theorem le_roundDiv_scaled_iff {m : Nat} {exponent : Int} (pos : 0 < den) (even : m % 2 = 0) :
    m ≤ roundDiv (scaled num den exponent).1 (scaled num den exponent).2 ↔
      (2 * m - 1) * 2 ^ (exponent - 1) ≤ (num / den : ℚ) := by
  have positive : (0 : ℚ) < (scaled num den exponent).2 := by exact_mod_cast scaled_den_pos num pos exponent
  have unit : (0 : ℚ) < 2 ^ exponent := zpow_pos (by norm_num) _
  have half : (2 * m - 1) * 2 ^ (exponent - 1) = ((2 * m - 1) / 2 : ℚ) * 2 ^ exponent := by
    rw [zpow_sub₀ (by norm_num)]
    ring
  have ratio : (num / den : ℚ) = ((scaled num den exponent).1 : ℚ) / (scaled num den exponent).2 * 2 ^ exponent := by
    rw [scaled_ratio, div_mul_cancel₀ _ unit.ne']
  rw [le_roundDiv_iff (scaled_den_pos num pos exponent) even, half, ratio, mul_le_mul_iff_of_pos_right unit,
    le_div_iff₀ positive]
  have cast : 2 * m * (scaled num den exponent).2 ≤ 2 * (scaled num den exponent).1 + (scaled num den exponent).2 ↔
      (2 * m * (scaled num den exponent).2 : ℚ) ≤ 2 * (scaled num den exponent).1 + (scaled num den exponent).2 := by
    exact_mod_cast Iff.rfl
  rw [cast]
  constructor
  all_goals
    intro
    linarith

def ratioBits (num den : Nat) : Nat :=
  (unitExponent num den + 1074).toNat * 2 ^ 52 +
    roundDiv (scaled num den (unitExponent num den)).1 (scaled num den (unitExponent num den)).2

theorem infinityBits_le_ratioBits_iff (numPos : 0 < num) (denPos : 0 < den) :
    infinityBits ≤ ratioBits num den ↔ overflow ≤ num / den := by
  have top : infinityBits = 2047 * 2 ^ 52 := rfl
  obtain ⟨least, most, full⟩ := unitExponent_spec numPos denPos
  have short := (scaled_div_lt num denPos (unitExponent num den) 53).mpr most
  have reaches {m : Nat} := @le_roundDiv_scaled_iff num den m (unitExponent num den) denPos
  have near : roundDiv (scaled num den (unitExponent num den)).1 (scaled num den (unitExponent num den)).2 ≤ 2 ^ 53 := by
    unfold roundDiv
    dsimp only
    split <;> omega
  have power (k : Nat) : (2 : ℚ) ^ (970 + (k : Int)) = 2 ^ k * 2 ^ (970 : Int) := by
    rw [zpow_add₀ (by norm_num), zpow_natCast, mul_comm]
  have unitPos : (0 : ℚ) < 2 ^ (970 : Int) := zpow_pos (by norm_num) _
  rw [overflow_eq, ratioBits]
  generalize roundDiv _ _ = m at *
  generalize unitExponent num den = unit at *
  generalize (num / den : ℚ) = ratio at *
  rcases lt_trichotomy unit 971 with below | rfl | above
  · have small : ratio < 2 ^ (970 + (53 : Nat) : Int) :=
      lt_of_lt_of_le most (zpow_le_zpow_right₀ (by norm_num) (by push_cast; omega))
    refine iff_of_false (by omega) (not_le_of_gt (lt_of_lt_of_le small ?_))
    rw [power]
    gcongr
    norm_num
  · have last : infinityBits ≤ (971 + 1074 : Int).toNat * 2 ^ 52 + m ↔ 2 ^ 53 ≤ m := by omega
    rw [last, reaches (by decide), show (971 - 1 : Int) = 970 from rfl]
    norm_num
  · have large : (2 : ℚ) ^ (unit + 52) ≤ ratio := full.resolve_left (by omega)
    have whole : 2 ^ 52 ≤ m := by
      rw [reaches (by decide)]
      refine le_trans ?_ large
      rw [show unit + 52 = unit - 1 + (53 : Nat) by push_cast; omega, zpow_add₀ (by norm_num), zpow_natCast, mul_comm]
      gcongr
      norm_num
    refine iff_of_true (by omega) (le_trans ?_ large)
    calc ((2 : ℚ) ^ 54 - 1) * 2 ^ (970 : Int) ≤ 2 ^ 54 * 2 ^ (970 : Int) := by gcongr; norm_num
      _ = 2 ^ (970 + (54 : Nat) : Int) := (power 54).symm
      _ ≤ 2 ^ (unit + 52) := zpow_le_zpow_right₀ (by norm_num) (by push_cast; omega)

theorem ofRatio_overflow (denPos : 0 < den) :
    ((num / den : ℚ) < overflow → (ofRatio num den).IsFinite) ∧
      (overflow ≤ (num / den : ℚ) → ofRatio num den = infinity) := by
  rcases Nat.eq_zero_or_pos num with rfl | numPos
  · refine ⟨fun _ => ?_, fun beyond => ?_⟩
    · rw [ofRatio, if_pos rfl, IsFinite]
      decide
    · rw [Nat.cast_zero, zero_div] at beyond
      exact absurd overflow_pos (not_lt_of_ge beyond)
  have bits : ofRatio num den = ⟨(min infinityBits (ratioBits num den)).toUInt64⟩ := by
    rw [ofRatio, if_neg (by omega)]
    rfl
  have signed : infinityBits < signBit := by decide
  have word : signBit < 2 ^ 64 := by decide
  have reached := infinityBits_le_ratioBits_iff numPos denPos
  rw [bits]
  refine ⟨fun below => ?_, fun beyond => ?_⟩
  · have less : ratioBits num den < infinityBits := not_le.mp fun more => not_lt_of_ge (reached.mp more) below
    rw [min_eq_right less.le, IsFinite, magnitude, Nat.toUInt64, UInt64.toNat_ofNat', Nat.mod_eq_of_lt (by omega),
      Nat.mod_eq_of_lt (by omega)]
    exact less
  · rw [min_eq_left (reached.mpr beyond)]
    rfl

/-- The decimal with these digits before and after the point, before it is rounded. -/
def decimalValue (whole fraction : List Char) : ℚ := digitsValue (whole ++ fraction) / 10 ^ fraction.length

theorem ofDigits_overflow (whole fraction : List Char) :
    (decimalValue whole fraction < overflow → (ofDigits whole fraction).IsFinite) ∧
      (overflow ≤ decimalValue whole fraction → ofDigits whole fraction = infinity) := by
  have same : ofDigits whole fraction = ofRatio (digitsValue (whole ++ fraction)) (10 ^ fraction.length) := by
    simp [ofDigits, ofDecimal]
  have ratio : decimalValue whole fraction =
      (digitsValue (whole ++ fraction) : ℚ) / ((10 ^ fraction.length : Nat) : ℚ) := by
    rw [decimalValue, Nat.cast_pow, Nat.cast_ofNat]
  rw [same, ratio]
  exact ofRatio_overflow (Nat.pow_pos (by decide))

def numeralValue (numeral : List Char) : ℚ :=
  decimalValue (numeral.takeWhile Char.isDigit) ((numeral.dropWhile Char.isDigit).drop 1)

theorem numeralValue_append {whole point : List Char} (digits : ∀ d ∈ whole, d.isDigit = true)
    (ended : ∀ d ∈ point.head?, d.isDigit = false) : numeralValue (whole ++ point) = decimalValue whole (point.drop 1) := by
  rw [numeralValue, List.takeWhile_append_of_pos digits, List.dropWhile_append_of_pos digits]
  cases point with
  | nil => simp
  | cons d ds =>
    have other : ¬ d.isDigit = true := by simp [ended d rfl]
    rw [List.takeWhile_cons_of_neg other, List.dropWhile_cons_of_neg other, List.append_nil]

end Number

open Number

theorem Kind.Written.numeral {literal : Option Literal} {text : List Char} (written : Kind.Written .number literal text) :
    ∃ whole fraction, literal = some (.number (.ofDigits whole fraction)) ∧
      numeralValue text = decimalValue whole fraction := by
  cases written with
  | sign spelled => cases spelled
  | whole number =>
    refine ⟨text, [], rfl, ?_⟩
    have value := @numeralValue_append text [] number.2 (by simp)
    rwa [List.append_nil] at value
  | decimal number point =>
    refine ⟨_, _, rfl, numeralValue_append number.2 ?_⟩
    rintro d ⟨⟩
    decide

namespace Lexer

/-- The text is one numeral, which stands for the number, and the end. -/
def IsNumeral (value : Number) (text : String) : Prop :=
  ∃ token stop, scan text = [.token token, .token stop] ∧ token.kind = .number ∧
    token.literal = some (.number value) ∧ stop.kind = .eof

theorem scan_of_written {kind : Kind} {literal : Option Literal} {text : String}
    (written : Kind.Written kind literal text.toList) :
    scan text = [.token ⟨kind, text, literal, 1 + text.toList.count '\n'⟩,
      .token ⟨.eof, "", none, 1 + text.toList.count '\n'⟩] := by
  have separate : Separate [] := by
    constructor <;> simp
  obtain ⟨c, cs, spelled, first⟩ := cut_written_append written separate
  rw [List.append_nil] at first
  have pieced : pieces text.toList = [⟨.token kind literal, text.toList⟩] := by
    rw [spelled, pieces_cons, first, pieces]
  rw [scan, pieced]
  simp [withLines]

theorem scan_infinity :
    scan (Constant.number infinity).source = [.token ⟨.identifier, "inf", none, 1⟩, .token ⟨.eof, "", none, 1⟩] := by
  cbv

end Lexer

open Lexer

/-- A numeral of a text is printed as a numeral of the same number exactly if the decimal it spells is below
    `overflow`. Otherwise it is printed as the name `inf`. -/
theorem numeral_printed_iff {source : String} {token : Token} (scanned : .token token ∈ scan source)
    (numeral : token.kind = .number) :
    ∃ value, token.literal = some (.number value) ∧
      (IsNumeral value (Constant.number value).source ↔ numeralValue token.lexeme.toList < overflow) ∧
      (overflow ≤ numeralValue token.lexeme.toList →
        scan (Constant.number value).source = [.token ⟨.identifier, "inf", none, 1⟩, .token ⟨.eof, "", none, 1⟩]) := by
  have genuine : token.Genuine := by
    refine (scan_written (List.mem_filterMap.mpr ⟨_, scanned, rfl⟩)).resolve_left ?_
    rw [numeral]
    decide
  rw [Token.Genuine, numeral] at genuine
  obtain ⟨whole, fraction, literal, spelled⟩ := genuine.numeral
  obtain ⟨below, beyond⟩ := ofDigits_overflow whole fraction
  refine ⟨ofDigits whole fraction, literal, ?_, ?_⟩
  · rw [spelled]
    refine ⟨fun printed => ?_, fun less => ?_⟩
    · by_contra more
      obtain ⟨again, stop, rescanned, kind, -⟩ := printed
      rw [beyond (not_lt.mp more), scan_infinity] at rescanned
      cases rescanned
      cases kind
    · exact ⟨_, _, scan_of_written (ofDigits_written (below less)), rfl, rfl, rfl⟩
  · intro more
    rw [spelled] at more
    rw [beyond more]
    exact scan_infinity

theorem isDigits_append_zeros (n count : Nat) : IsDigits (Nat.toDigits 10 n ++ List.replicate count '0') := by
  have digits := toDigits_isDigits n
  refine ⟨List.append_ne_nil_of_left_ne_nil digits.1 _, fun d among => ?_⟩
  rcases List.mem_append.mp among with among | among
  · exact digits.2 d among
  · exact zeros_digit count d among

theorem scan_append_zeros {front : String} {n : Nat} (spelled : front.toList = Nat.toDigits 10 n) (count : Nat) :
    scan (front ++ zeros count) =
        [.token ⟨.number, front ++ zeros count, some (.number (ofRatio (n * 10 ^ count) 1)), 1⟩,
          .token ⟨.eof, "", none, 1⟩] ∧
      numeralValue (front ++ zeros count).toList = (n * 10 ^ count : Nat) := by
  have text : (front ++ zeros count).toList = Nat.toDigits 10 n ++ List.replicate count '0' := by
    rw [String.toList_append, spelled, zeros, String.toList_ofList]
  have digits := isDigits_append_zeros n count
  have value : ofDigits (front ++ zeros count).toList [] = ofRatio (n * 10 ^ count) 1 := by
    simp [text, ofDigits, ofDecimal, digitsValue_append_zeros]
  have lines : (front ++ zeros count).toList.count '\n' = 0 := by
    rw [List.count_eq_zero, text]
    intro among
    exact absurd (digits.2 _ among) (by decide)
  rw [← text] at digits
  refine ⟨?_, ?_⟩
  · rw [scan_of_written (.whole digits), value, lines]
  · have whole := @numeralValue_append _ [] digits.2 (by simp)
    rw [List.append_nil] at whole
    rw [whole, decimalValue, List.drop_nil, List.append_nil, text, digitsValue_append_zeros, List.length_nil, pow_zero,
      div_one]

/-- The largest number with 17 digits before its zeros that is finite. It is printed with other digits, which stand for
    the same number. -/
theorem numeral_printed_iff_largest :
    let numeral := "17976931348623158" ++ zeros 292
    let largest : Number := ⟨0x7fefffffffffffff⟩
    .token ⟨.number, numeral, some (.number largest), 1⟩ ∈ scan numeral ∧
      (Constant.number largest).source = "17976931348623157" ++ zeros 292 ∧
      IsNumeral largest (Constant.number largest).source := by
  intro numeral largest
  obtain ⟨whole, spelled⟩ := @scan_append_zeros "17976931348623158" 17976931348623158 (by decide) 292
  have value : ofRatio (17976931348623158 * 10 ^ 292) 1 = largest := by decide +kernel
  have scanned : .token ⟨.number, numeral, some (.number largest), 1⟩ ∈ scan numeral := by
    rw [whole, value]
    exact List.mem_cons_self
  have below : numeralValue numeral.toList < overflow := by
    have less : 17976931348623158 * 10 ^ 292 + 2 ^ 970 < 2 ^ 1024 := by decide +kernel
    rw [spelled, overflow, lt_sub_iff_add_lt]
    exact_mod_cast less
  have source : (Constant.number largest).source = "17976931348623157" ++ zeros 292 := by
    have meaning : largest.meaning = .finite false 9007199254740991 971 := by decide
    have digits : shortest .up 9007199254740991 971 = ⟨17976931348623157, 292⟩ := by decide +kernel
    rw [Constant.source, display, meaning]
    change sign false ++ (shortest .up 9007199254740991 971).positional = _
    rw [digits, Decimal.positional, if_pos (by decide)]
    have front : String.ofList (Nat.toDigits 10 17976931348623157) = "17976931348623157" := by decide
    rw [front]
    exact String.empty_append
  obtain ⟨_, same, printed, -⟩ := numeral_printed_iff scanned rfl
  cases same
  exact ⟨scanned, source, printed.mpr below⟩

/-- One digit more than the finite numbers have: the numeral is printed as a name. -/
theorem numeral_printed_inf :
    scan ("1" ++ zeros 309) = [.token ⟨.number, "1" ++ zeros 309, some (.number infinity), 1⟩, .token ⟨.eof, "", none, 1⟩] ∧
      scan (Constant.number infinity).source = [.token ⟨.identifier, "inf", none, 1⟩, .token ⟨.eof, "", none, 1⟩] := by
  have value : ofRatio (1 * 10 ^ 309) 1 = infinity := by decide +kernel
  have whole := (@scan_append_zeros "1" 1 (by decide) 309).1
  rw [value] at whole
  exact ⟨whole, scan_infinity⟩

end Lox
