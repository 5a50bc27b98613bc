import Lox.Number.Basic

namespace Lox.Number

open scoped Powers

structure Decimal where
  coefficient : Nat
  exponent : Int
deriving DecidableEq, Repr

inductive Tie where
  | up
  | even
deriving DecidableEq

/-- A number and the ends of its rounding interval, in units of one grid: the number is
    `value / unit`, the ends are `low / unit` and `high / unit`. -/
structure OnGrid where
  value : Nat
  low : Nat
  high : Nat
  unit : Nat
  closed : Bool

/-- The number `significand · 2 ^ exponent` over the multiples of `10 ^ place`. Below a power of
    two the next number is only half as far away. -/
def onGrid (significand : Nat) (exponent place : Int) : OnGrid :=
  let up := 2 ^ (exponent - 2).toNat * 10 ^ (-place).toNat
  let below := if significand = 2 ^ (52 : Nat) ∧ exponent ≠ -1074 then 1 else 2
  { value := 4 * significand * up
    low := (4 * significand - below) * up
    high := (4 * significand + 2) * up
    unit := 2 ^ (2 - exponent).toNat * 10 ^ place.toNat
    closed := significand % 2 = 0 }

def OnGrid.contains (g : OnGrid) (point : Nat) : Bool :=
  if g.closed then g.low ≤ point * g.unit ∧ point * g.unit ≤ g.high
  else g.low < point * g.unit ∧ point * g.unit < g.high

def OnGrid.nearest? (g : OnGrid) (tie : Tie) : Option Nat :=
  let below := g.value / g.unit
  let above := below + 1
  match g.contains below, g.contains above with
  | false, false => none
  | true, false => some below
  | false, true => some above
  | true, true =>
    let left := g.value - below * g.unit
    let right := above * g.unit - g.value
    if left < right then some below
    else if right < left then some above
    else match tie with
      | .up => some above
      | .even => some (if below % 2 = 0 then below else above)

/-- A place at which one unit exceeds `significand · 2 ^ exponent`, at most two places too far.
    It rests on `0.30102 < log 2 / log 10 < 0.30103`. -/
def topPlace (significand : Nat) (exponent : Int) : Int :=
  let length := (significand.log2 : Int) + 1 + exponent
  if 0 ≤ length then length * 30103 / 100000 + 1 else length * 30102 / 100000 + 1

/-- The shortest decimal that rounds to `significand · 2 ^ exponent`, and the nearest of those. -/
def shortest (tie : Tie) (significand : Nat) (exponent : Int) : Decimal :=
  let top := topPlace significand exponent
  let attempt (steps : Nat) : Option Decimal :=
    let place := top - steps
    (onGrid significand exponent place).nearest? tie |>.map fun point => ⟨point, place⟩
  ((List.range 24).findSome? attempt).getD ⟨significand, exponent⟩

end Lox.Number
