import Lox.Text.Utf8
import Lox.Token.Lexer

namespace Lox

structure Scanner (text : String) where
  start : Nat
  curr : Nat
  line : Nat
  done : Bool

namespace Scanner

inductive Found where
  | token (kind : Kind) (literal : Option Literal)
  | nothing
  | fault (line : Nat) (fault : LexicalFault)
deriving DecidableEq

def byteAt? (text : String) (index : Nat) : Option Char :=
  if inside : (⟨index⟩ : String.Pos.Raw) < text.rawEndPos then some (.ofUInt8 (text.getUTF8Byte ⟨index⟩ inside)) else none

/-- The text from one byte up to another, if both begin a character or are the end. -/
def between? (text : String) (first last : Nat) : Option String :=
  if cut : first ≤ last ∧ (⟨first⟩ : String.Pos.Raw).IsValid text ∧ (⟨last⟩ : String.Pos.Raw).IsValid text then
    some (text.extract ⟨⟨first⟩, cut.2.1⟩ ⟨⟨last⟩, cut.2.2⟩)
  else none

variable {text : String}

def ofText (text : String) : Scanner text := ⟨0, 0, 1, false⟩

def atEnd (s : Scanner text) : Bool := text.utf8ByteSize ≤ s.curr

def peek (s : Scanner text) : Char := (byteAt? text s.curr).getD '\x00'

def peekNext (s : Scanner text) : Char := (byteAt? text (s.curr + 1)).getD '\x00'

def advance? (s : Scanner text) : Option (Char × Scanner text) :=
  (byteAt? text s.curr).map fun byte => (byte, { s with curr := s.curr + 1 })

def accept? (s : Scanner text) (expected : Char) : Option (Scanner text) :=
  if !s.atEnd && s.peek == expected then some { s with curr := s.curr + 1 } else none

theorem byteAt?_lt {index : Nat} {byte : Char} (found : byteAt? text index = some byte) : index < text.utf8ByteSize := by
  unfold byteAt? at found
  split at found
  · rename_i inside
    exact inside
  · cases found

theorem advance?_eq_some {s s' : Scanner text} {byte : Char} (moved : s.advance? = some (byte, s')) :
    s.curr < text.utf8ByteSize ∧ s' = { s with curr := s.curr + 1 } := by
  obtain ⟨byte', found, same⟩ := Option.map_eq_some_iff.mp moved
  cases same
  exact ⟨byteAt?_lt found, rfl⟩

theorem advance?_shorter {s s' : Scanner text} {byte : Char} (moved : s.advance? = some (byte, s')) :
    text.utf8ByteSize - s'.curr < text.utf8ByteSize - s.curr := by
  obtain ⟨inside, rfl⟩ := advance?_eq_some moved
  dsimp only
  omega

def skipWhile? (more : Scanner text → Bool) (s : Scanner text) : Option (Scanner text) :=
  if more s then
    match _moved : s.advance? with
    | some (_, next) => skipWhile? more next
    | none => none
  else some s
termination_by text.utf8ByteSize - s.curr
decreasing_by exact advance?_shorter _moved

def skipString? (s : Scanner text) : Option (Scanner text) :=
  if !s.atEnd && s.peek != '"' then
    match _moved : s.advance? with
    | some (byte, next) => skipString? (if byte = '\n' then { next with line := next.line + 1 } else next)
    | none => none
  else some s
termination_by text.utf8ByteSize - s.curr
decreasing_by
  have shorter := advance?_shorter _moved
  split <;> exact shorter

def scanWord? (s : Scanner text) : Option (Found × Scanner text) := do
  let s ← s.skipWhile? (Lexer.isWordRest ·.peek)
  let lexeme ← between? text s.start s.curr
  let kind := match Keyword.ofSpelling? lexeme with
    | some keyword => .keyword keyword
    | none => .identifier
  return (.token kind none, s)

def skipFraction? (s : Scanner text) : Option (Scanner text) :=
  if s.peek == '.' && s.peekNext.isDigit then do
    let (_, s) ← s.advance?
    s.skipWhile? (·.peek.isDigit)
  else some s

def scanNumber? (s : Scanner text) : Option (Found × Scanner text) := do
  let s ← s.skipWhile? (·.peek.isDigit)
  let s ← s.skipFraction?
  let numeral ← between? text s.start s.curr
  return (.token .number (some (.number (.ofNumeral numeral.toList))), s)

/-- A string that is not closed is a fault of the line it opens on. -/
def scanString? (s : Scanner text) : Option (Found × Scanner text) := do
  let opening := s.line
  let s ← s.skipString?
  if s.atEnd then return (.fault opening .unterminatedString, s)
  let (_, s) ← s.advance?
  let value ← between? text (s.start + 1) (s.curr - 1)
  return (.token .string (some (.text value)), s)

def scanSlash? (s : Scanner text) : Option (Found × Scanner text) :=
  match s.accept? '/' with
  | none => some (.token .slash none, s)
  | some s => do
    let s ← s.skipWhile? fun s => !s.atEnd && s.peek != '\n'
    return (.nothing, s)

def scanStray? (s : Scanner text) : Option (Found × Scanner text) := do
  let s ← s.skipWhile? fun s => !s.atEnd && Utf8.continuation.contains s.peek.toUInt8
  match (← between? text s.start s.curr).toList with
  | [char] => return (.fault s.line (.unexpected char), s)
  | _ => none

def scanFrom? (c : Char) (s : Scanner text) : Option (Found × Scanner text) :=
  if c = '\n' then some (.nothing, { s with line := s.line + 1 })
  else if Lexer.isBlank c then some (.nothing, s)
  else if Lexer.isWordStart c then s.scanWord?
  else if c.isDigit then s.scanNumber?
  else if c = '"' then s.scanString?
  else if c = '/' then s.scanSlash?
  else match Lexer.signBeforeEqual? c with
    | some (alone, withEqual) =>
      match s.accept? '=' with
      | some s => some (.token withEqual none, s)
      | none => some (.token alone none, s)
    | none => match Lexer.sign? c with
      | some kind => some (.token kind none, s)
      | none => s.scanStray?

def scanToken? (s : Scanner text) : Option (Found × Scanner text) := do
  let (c, s) ← s.advance?
  s.scanFrom? c

def turn? (s : Scanner text) : Option (Found × Scanner text) := { s with start := s.curr }.scanToken?

theorem skipWhile?_le {more : Scanner text → Bool} {s s' : Scanner text} (skipped : s.skipWhile? more = some s') :
    s.curr ≤ s'.curr := by
  fun_induction skipWhile? more s with
  | case1 s _ byte next moved ih =>
    obtain ⟨-, rfl⟩ := advance?_eq_some moved
    exact Nat.le_of_succ_le (ih skipped)
  | case2 => cases skipped
  | case3 =>
    cases skipped
    exact Nat.le_refl _

theorem skipString?_le {s s' : Scanner text} (skipped : s.skipString? = some s') : s.curr ≤ s'.curr := by
  fun_induction skipString? s with
  | case1 s _ byte next moved ih =>
    obtain ⟨-, rfl⟩ := advance?_eq_some moved
    have le := ih skipped
    split at le <;> exact Nat.le_of_succ_le le
  | case2 => cases skipped
  | case3 =>
    cases skipped
    exact Nat.le_refl _

theorem accept?_le {s s' : Scanner text} {expected : Char} (accepted : s.accept? expected = some s') : s.curr ≤ s'.curr := by
  unfold accept? at accepted
  split at accepted
  · cases accepted
    exact Nat.le_succ _
  · cases accepted

section Progress

variable {s s' : Scanner text} {found : Found}

theorem scanWord?_le (scanned : s.scanWord? = some (found, s')) : s.curr ≤ s'.curr := by
  obtain ⟨s₁, skipped, scanned⟩ := Option.bind_eq_some_iff.mp scanned
  obtain ⟨lexeme, -, scanned⟩ := Option.bind_eq_some_iff.mp scanned
  cases scanned
  exact skipWhile?_le skipped

theorem skipFraction?_le (skipped : s.skipFraction? = some s') : s.curr ≤ s'.curr := by
  unfold skipFraction? at skipped
  split at skipped
  · obtain ⟨⟨byte, s₁⟩, moved, skipped⟩ := Option.bind_eq_some_iff.mp skipped
    obtain ⟨-, rfl⟩ := advance?_eq_some moved
    exact Nat.le_of_succ_le (skipWhile?_le skipped)
  · cases skipped
    exact Nat.le_refl _

theorem scanNumber?_le (scanned : s.scanNumber? = some (found, s')) : s.curr ≤ s'.curr := by
  obtain ⟨s₁, skipped, scanned⟩ := Option.bind_eq_some_iff.mp scanned
  obtain ⟨s₂, fraction, scanned⟩ := Option.bind_eq_some_iff.mp scanned
  obtain ⟨numeral, -, scanned⟩ := Option.bind_eq_some_iff.mp scanned
  cases scanned
  exact Nat.le_trans (skipWhile?_le skipped) (skipFraction?_le fraction)

theorem scanString?_le (scanned : s.scanString? = some (found, s')) : s.curr ≤ s'.curr := by
  obtain ⟨s₁, skipped, scanned⟩ := Option.bind_eq_some_iff.mp scanned
  have le := skipString?_le skipped
  split at scanned
  · cases scanned
    exact le
  · obtain ⟨⟨byte, s₂⟩, moved, scanned⟩ := Option.bind_eq_some_iff.mp scanned
    obtain ⟨value, -, scanned⟩ := Option.bind_eq_some_iff.mp scanned
    cases scanned
    obtain ⟨-, rfl⟩ := advance?_eq_some moved
    exact Nat.le_succ_of_le le

theorem scanSlash?_le (scanned : s.scanSlash? = some (found, s')) : s.curr ≤ s'.curr := by
  unfold scanSlash? at scanned
  split at scanned
  · cases scanned
    exact Nat.le_refl _
  · rename_i s₁ accepted
    obtain ⟨s₂, skipped, scanned⟩ := Option.bind_eq_some_iff.mp scanned
    cases scanned
    exact Nat.le_trans (accept?_le accepted) (skipWhile?_le skipped)

theorem scanStray?_le (scanned : s.scanStray? = some (found, s')) : s.curr ≤ s'.curr := by
  obtain ⟨s₁, skipped, scanned⟩ := Option.bind_eq_some_iff.mp scanned
  obtain ⟨lexeme, -, scanned⟩ := Option.bind_eq_some_iff.mp scanned
  split at scanned
  · cases scanned
    exact skipWhile?_le skipped
  · cases scanned

theorem scanFrom?_le {c : Char} (scanned : s.scanFrom? c = some (found, s')) : s.curr ≤ s'.curr := by
  unfold scanFrom? at scanned
  split at scanned
  · cases scanned
    exact Nat.le_refl _
  split at scanned
  · cases scanned
    exact Nat.le_refl _
  split at scanned
  · exact scanWord?_le scanned
  split at scanned
  · exact scanNumber?_le scanned
  split at scanned
  · exact scanString?_le scanned
  split at scanned
  · exact scanSlash?_le scanned
  split at scanned
  · split at scanned
    · rename_i accepted
      cases scanned
      exact accept?_le accepted
    · cases scanned
      exact Nat.le_refl _
  split at scanned
  · cases scanned
    exact Nat.le_refl _
  · exact scanStray?_le scanned

theorem turn?_shorter (scanned : s.turn? = some (found, s')) :
    text.utf8ByteSize - s'.curr < text.utf8ByteSize - s.curr := by
  obtain ⟨⟨c, s₁⟩, moved, scanned⟩ := Option.bind_eq_some_iff.mp scanned
  obtain ⟨inside, rfl⟩ := advance?_eq_some moved
  have further : s.curr + 1 ≤ s'.curr := scanFrom?_le scanned
  have inside : s.curr < text.utf8ByteSize := inside
  omega

end Progress

/-- The next token or fault; there is none behind the end. -/
def next? (s : Scanner text) : Option (Option Lexed × Scanner text) :=
  if s.done then some (none, s)
  else if s.atEnd then some (some (.token ⟨.eof, "", none, s.line⟩), { s with done := true })
  else
    match _scanned : s.turn? with
    | none => none
    | some (.nothing, s') => next? s'
    | some (.fault line fault, s') => some (some (.fault line fault), s')
    | some (.token kind literal, s') =>
      (between? text s'.start s'.curr).map fun lexeme => (some (.token ⟨kind, lexeme, literal, s'.line⟩), s')
termination_by text.utf8ByteSize - s.curr
decreasing_by exact turn?_shorter _scanned

def remaining (s : Scanner text) : Nat := text.utf8ByteSize - s.curr + if s.done then 0 else 1

theorem next?_remaining {s s' : Scanner text} {item : Lexed} (scanned : s.next? = some (some item, s')) :
    s'.remaining < s.remaining := by
  have shorter {s s' : Scanner text} {found : Found} (open_ : ¬ s.done = true) (turned : s.turn? = some (found, s')) :
      s'.remaining < s.remaining := by
    have less := turn?_shorter turned
    unfold remaining
    rw [if_neg open_]
    split <;> omega
  fun_induction next? s with
  | case1 => cases scanned
  | case2 s open_ =>
    cases scanned
    simp [remaining, open_]
  | case3 => cases scanned
  | case4 s open_ _ s₁ turned ih => exact Nat.lt_trans (ih scanned) (shorter open_ turned)
  | case5 s open_ _ line fault s₁ turned =>
    cases scanned
    exact shorter open_ turned
  | case6 s open_ _ kind literal s₁ turned =>
    obtain ⟨lexeme, -, same⟩ := Option.map_eq_some_iff.mp scanned
    cases same
    exact shorter open_ turned

def drain? (s : Scanner text) : Option (List Lexed × Scanner text) :=
  match _scanned : s.next? with
  | none => none
  | some (none, s') => some ([], s')
  | some (some item, s') => (drain? s').map fun (items, last) => (item :: items, last)
termination_by s.remaining
decreasing_by exact next?_remaining _scanned

end Scanner
end Lox
