import Lox.Grammar.Misreading
import Lox.Tree.Basic

namespace Lox.Grammar

structure Cursor where
  pending : List Token
  stop : Token
  nextId : NodeId
  misreadings : List Misreading

namespace Cursor

/-- The beginning of a list of tokens; nothing after its first end token is read. -/
def ofTokens (tokens : List Token) (nextId : NodeId) : Cursor where
  pending := tokens.takeWhile (!·.isEof)
  stop := (tokens.find? Token.isEof).getD ⟨.eof, "", none, 1⟩
  nextId := nextId
  misreadings := []

def size (c : Cursor) : Nat := c.pending.length

def atEnd (c : Cursor) : Bool := c.pending.isEmpty

theorem size_pos {c : Cursor} (h : ¬ c.atEnd) : 0 < c.size :=
  List.length_pos_iff.mpr fun none => h (by simp [atEnd, none])

/-- The token in front, which is the end token if nothing is pending. -/
def peek (c : Cursor) : Token := c.pending.headD c.stop

def record (c : Cursor) (token : Token) (fault : SyntaxFault) : Cursor :=
  { c with misreadings := ⟨token, fault⟩ :: c.misreadings }

def numbered (c : Cursor) : Cursor := { c with nextId := c.nextId + 1 }

@[simp] theorem size_record (c : Cursor) (token : Token) (fault : SyntaxFault) :
    (c.record token fault).size = c.size := rfl

@[simp] theorem size_numbered (c : Cursor) : c.numbered.size = c.size := rfl

theorem record_le (c : Cursor) (token : Token) (fault : SyntaxFault) : (c.record token fault).size + 0 ≤ c.size :=
  Nat.le_refl _

theorem numbered_le (c : Cursor) : c.numbered.size + 0 ≤ c.size := Nat.le_refl _

structure Taken (c : Cursor) where
  token : Token
  rest : List Token
  front : c.pending = token :: rest

def Taken.next {c : Cursor} (taken : Taken c) : Cursor := { c with pending := taken.rest }

theorem Taken.shorter {c : Cursor} (taken : Taken c) : taken.next.size + 1 = c.size := by
  simp [size, next, taken.front]

def take? (c : Cursor) : Option (Taken c) :=
  match front : c.pending with
  | [] => none
  | token :: rest => some ⟨token, rest, front⟩

def accept? (c : Cursor) (kinds : List Kind) : Option (Taken c) :=
  c.take?.filter (kinds.contains ·.token.kind)

def sees (c : Cursor) (kind : Kind) : Bool := (c.accept? [kind]).isSome

end Cursor

/-- How reading from `start` ended: with a value and at least `gain` tokens taken, or with a
    misreading. -/
inductive Reading (start : Cursor) (gain : Nat) (α : Type) where
  | read (value : α) (next : Cursor) (progress : next.size + gain ≤ start.size)
  | failed (misreading : Misreading) (next : Cursor) (progress : next.size ≤ start.size)

namespace Reading

variable {start : Cursor} {α β : Type}

@[inline] def done (value : α) : Reading start 0 α := .read value start (Nat.le_refl _)

@[inline] def andThen {gain gain' : Nat} (reading : Reading start gain α)
    (continuation : α → (next : Cursor) → next.size + gain ≤ start.size → Reading next gain' β) :
    Reading start gain β :=
  match reading with
  | .read value next progress =>
    match continuation value next progress with
    | .read value last progress' => .read value last (by omega)
    | .failed misreading last progress' => .failed misreading last (by omega)
  | .failed misreading next progress => .failed misreading next progress

@[inline] def map {gain : Nat} (f : α → β) : Reading start gain α → Reading start gain β
  | .read value next progress => .read (f value) next progress
  | .failed misreading next progress => .failed misreading next progress

@[inline] def weaken {gain : Nat} : Reading start gain α → Reading start 0 α
  | .read value next progress => .read value next (by omega)
  | .failed misreading next progress => .failed misreading next progress

class AtMostOne (total : Nat) : Prop where
  le_one : total ≤ 1

instance : AtMostOne 0 := ⟨Nat.zero_le 1⟩

instance : AtMostOne 1 := ⟨Nat.le_refl 1⟩

@[inline] def after {gain total : Nat} [enough : AtMostOne total] (taken : Cursor.Taken start)
    (reading : Reading taken.next gain α) : Reading start total α :=
  match reading with
  | .read value next progress =>
    .read value next (by have := taken.shorter; have := enough.le_one; omega)
  | .failed misreading next progress => .failed misreading next (by have := taken.shorter; omega)

@[inline] def ofSameSize {other : Cursor} {gain : Nat} (same : other.size = start.size)
    (reading : Reading other gain α) : Reading start gain α :=
  match reading with
  | .read value next progress => .read value next (by omega)
  | .failed misreading next progress => .failed misreading next (by omega)

end Reading

namespace Cursor

def fail {α : Type} (c : Cursor) (gain : Nat) (fault : SyntaxFault) : Reading c gain α :=
  .failed ⟨c.peek, fault⟩ c (Nat.le_refl _)

def expect (c : Cursor) (kind : Kind) (fault : SyntaxFault) : Reading c 1 Token :=
  match c.accept? [kind] with
  | some taken => .read taken.token taken.next (by have := taken.shorter; omega)
  | none => c.fail 1 fault

end Cursor
end Lox.Grammar
