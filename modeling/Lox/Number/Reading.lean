import Lox.Number.Basic

namespace Lox.Number

open scoped Powers

/-- Quotient of `num` and `den` rounded to the nearest whole number, ties to even. -/
def roundDiv (num den : Nat) : Nat :=
  let quotient := num / den
  let twice := 2 * (num % den)
  if den < twice ∨ (twice = den ∧ quotient % 2 = 1) then quotient + 1 else quotient

def scaled (num den : Nat) (exponent : Int) : Nat × Nat :=
  (num * 2 ^ (-exponent).toNat, den * 2 ^ exponent.toNat)

/-- The exponent whose unit gives `num / den` a significand of 53 bits, or the least exponent. -/
def unitExponent (num den : Nat) : Int :=
  let guess : Int := (num.log2 : Int) - den.log2 - 52
  let (n, d) := scaled num den guess
  max (-1074) (if n / d < 2 ^ (52 : Nat) then guess - 1 else guess)

def ofRatio (num den : Nat) : Number :=
  if num = 0 then zero
  else
    let exponent := unitExponent num den
    let (n, d) := scaled num den exponent
    ⟨(min infinityBits ((exponent + 1074).toNat * 2 ^ (52 : Nat) + roundDiv n d)).toUInt64⟩

def ofDecimal (coefficient : Nat) (exponent : Int) : Number :=
  ofRatio (coefficient * 10 ^ exponent.toNat) (10 ^ (-exponent).toNat)

def digitsValue (digits : List Char) : Nat :=
  digits.foldl (fun value digit => 10 * value + (digit.toNat - '0'.toNat)) 0

def ofDigits (whole fraction : List Char) : Number :=
  ofDecimal (digitsValue (whole ++ fraction)) (-(fraction.length : Int))

def ofNumeral (numeral : List Char) : Number :=
  ofDigits (numeral.takeWhile Char.isDigit) ((numeral.dropWhile Char.isDigit).drop 1)

end Lox.Number
