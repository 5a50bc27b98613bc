namespace Lox

/-- A binary64 value. Two numbers are the same when their bits are: the two zeros differ. -/
structure Number where
  bits : UInt64
deriving DecidableEq, Inhabited

namespace Number.Powers

/-- Powers as the core has them, whatever else is imported. -/
scoped instance (priority := 1100) pow : Pow Nat Nat := instPowNat

end Number.Powers

namespace Number

open scoped Powers

/-- What a bit pattern stands for; `finite s m q` is `± m · 2 ^ q`. -/
inductive Meaning where
  | nan
  | infinite (negative : Bool)
  | finite (negative : Bool) (significand : Nat) (exponent : Int)
deriving DecidableEq

def signBit : Nat := 2 ^ (63 : Nat)

def infinityBits : Nat := 0x7ff0000000000000

def isNegative (n : Number) : Bool := signBit ≤ n.bits.toNat

def magnitude (n : Number) : Nat := n.bits.toNat % signBit

def meaning (n : Number) : Meaning :=
  let field : Nat := n.magnitude / 2 ^ (52 : Nat)
  let fraction := n.magnitude % 2 ^ (52 : Nat)
  if infinityBits < n.magnitude then .nan
  else if n.magnitude = infinityBits then .infinite n.isNegative
  else if field = 0 then .finite n.isNegative fraction (-1074)
  else .finite n.isNegative (2 ^ (52 : Nat) + fraction) ((field : Int) - 1075)

def toFloat (n : Number) : Float := Float.ofBits n.bits

def ofFloat (x : Float) : Number := ⟨x.toBits⟩

def zero : Number := ⟨0⟩

def infinity : Number := ⟨infinityBits.toUInt64⟩

def quietNan : Number := ⟨0x7ff8000000000000⟩

def negate (n : Number) : Number := ⟨n.bits ^^^ signBit.toUInt64⟩

def isNan (n : Number) : Bool := infinityBits < n.magnitude

def add (a b : Number) : Number := ofFloat (a.toFloat + b.toFloat)

def subtract (a b : Number) : Number := ofFloat (a.toFloat - b.toFloat)

def multiply (a b : Number) : Number := ofFloat (a.toFloat * b.toFloat)

def divide (a b : Number) : Number := ofFloat (a.toFloat / b.toFloat)

/-- Numeric equality: the zeros are equal and a NaN equals nothing. -/
def equal (a b : Number) : Bool :=
  !a.isNan && !b.isNan && (a.bits == b.bits || (a.magnitude == 0 && b.magnitude == 0))

def less (a b : Number) : Bool := a.toFloat < b.toFloat

def lessOrEqual (a b : Number) : Bool := a.toFloat ≤ b.toFloat

end Number
end Lox
