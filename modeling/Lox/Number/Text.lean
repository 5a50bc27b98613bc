import Lox.Number.Shortest

namespace Lox.Number

open scoped Powers

def zeros (count : Nat) : String := String.ofList (List.replicate count '0')

def sign (negative : Bool) : String := if negative then "-" else ""

/-- Digits with a point before the last `-d.exponent` of them, or with zeros up to the units. -/
def Decimal.positional (d : Decimal) : String :=
  let digits := Nat.toDigits 10 d.coefficient
  if 0 ≤ d.exponent then String.ofList digits ++ zeros d.exponent.toNat
  else
    let places := (-d.exponent).toNat
    if places < digits.length then
      let whole := digits.length - places
      String.ofList (digits.take whole) ++ "." ++ String.ofList (digits.drop whole)
    else "0." ++ zeros (places - digits.length) ++ String.ofList digits

/-- The text of a printed number: never an exponent, no fraction for a whole number. -/
def display (n : Number) : String :=
  match n.meaning with
  | .nan => "NaN"
  | .infinite negative => sign negative ++ "inf"
  | .finite negative 0 _ => sign negative ++ "0"
  | .finite negative significand exponent =>
    sign negative ++ (shortest .up significand exponent).positional

def whole? (significand : Nat) (exponent : Int) : Option Nat :=
  let divisor := 2 ^ (-exponent).toNat
  if significand % divisor = 0 then some (significand / divisor * 2 ^ exponent.toNat) else none

/-- The text of a number literal: a whole number below `2 ^ 63` has all its digits and `.0`, and its
    zero has no sign. -/
def literal (n : Number) : String :=
  match n.meaning with
  | .finite negative significand exponent =>
    match whole? significand exponent with
    | some k =>
      if k = 0 then "0.0"
      else if k < 2 ^ (63 : Nat) then sign negative ++ toString k ++ ".0"
      else n.display
    | none => n.display
  | _ => n.display

def scientific (digits : List Char) (power : Int) : String :=
  let fraction := digits.drop 1
  String.ofList (digits.take 1) ++ (if fraction.isEmpty then "" else "." ++ String.ofList fraction)
    ++ "e" ++ (if power < 0 then "-" else "+") ++ toString power.natAbs

/-- Plain from `10 ^ -5` up to below `10 ^ 16`, always with a fraction; else with a power of ten. -/
def Decimal.json (d : Decimal) : String :=
  let digits := Nat.toDigits 10 d.coefficient
  let power := (digits.length : Int) + d.exponent - 1
  if power < -5 ∨ 15 < power then scientific digits power
  else if 0 ≤ d.exponent then d.positional ++ ".0"
  else d.positional

def json (n : Number) : String :=
  match n.meaning with
  | .finite negative 0 _ => sign negative ++ "0.0"
  | .finite negative significand exponent =>
    sign negative ++ (shortest .even significand exponent).json
  | _ => "null"

end Lox.Number
