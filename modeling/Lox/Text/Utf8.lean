namespace Lox.Utf8

/-- The first fault: where it begins, and how many bytes it has unless the bytes end inside it. -/
structure Fault where
  index : Nat
  size? : Option Nat
deriving DecidableEq

def Fault.message (fault : Fault) : String :=
  match fault.size? with
  | some size =>
    "invalid utf-8 sequence of " ++ toString size ++ " bytes from index " ++ toString fault.index
  | none => "incomplete utf-8 byte sequence from index " ++ toString fault.index

structure Range where
  low : UInt8
  high : UInt8

def Range.contains (r : Range) (byte : UInt8) : Bool := r.low ≤ byte && byte ≤ r.high

def continuation : Range := ⟨0x80, 0xbf⟩

/-- The ranges of the bytes that must follow a first byte. No character has two encodings, none is a
    surrogate, and none is above the last code point. -/
def following? (first : UInt8) : Option (List Range) :=
  if first < 0x80 then some []
  else if first < 0xc2 then none
  else if first < 0xe0 then some [continuation]
  else if first = 0xe0 then some [⟨0xa0, 0xbf⟩, continuation]
  else if first = 0xed then some [⟨0x80, 0x9f⟩, continuation]
  else if first < 0xf0 then some [continuation, continuation]
  else if first = 0xf0 then some [⟨0x90, 0xbf⟩, continuation, continuation]
  else if first < 0xf4 then some [continuation, continuation, continuation]
  else if first = 0xf4 then some [⟨0x80, 0x8f⟩, continuation, continuation]
  else none

/-- The bytes after those that must follow, or the size of the fault when `taken` bytes of a character
    stand before them. -/
def follow (taken : Nat) : List Range → List UInt8 → Except (Option Nat) (List UInt8)
  | [], bytes => .ok bytes
  | _ :: _, [] => .error none
  | range :: ranges, byte :: bytes =>
    if range.contains byte then follow (taken + 1) ranges bytes else .error (some taken)

theorem length_follow {taken : Nat} {ranges : List Range} {bytes rest : List UInt8}
    (h : follow taken ranges bytes = .ok rest) : rest.length ≤ bytes.length := by
  induction ranges generalizing taken bytes with
  | nil => cases h; exact Nat.le_refl _
  | cons range ranges ih =>
    cases bytes with
    | nil => simp [follow] at h
    | cons byte bytes =>
      simp only [follow] at h
      split at h
      · exact Nat.le_succ_of_le (ih h)
      · cases h

def faultFrom (index : Nat) (bytes : List UInt8) : Option Fault :=
  match bytes with
  | [] => none
  | first :: rest =>
    match following? first with
    | none => some ⟨index, some 1⟩
    | some ranges =>
      match _h : follow 1 ranges rest with
      | .error size? => some ⟨index, size?⟩
      | .ok rest => faultFrom (index + 1 + ranges.length) rest
termination_by bytes.length
decreasing_by exact Nat.lt_succ_of_le (length_follow _h)

def decode (bytes : List UInt8) : Except Fault String :=
  match String.fromUTF8? bytes.toByteArray with
  | some text => .ok text
  | none => .error ((faultFrom 0 bytes).getD ⟨bytes.length, none⟩)

end Lox.Utf8
