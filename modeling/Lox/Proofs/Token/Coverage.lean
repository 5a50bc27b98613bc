import Lox.Proofs.Token.Lexing
import Lox.Proofs.Token.Scanning

namespace Lox.Scanner

variable {text : String} {s : Scanner text}

def turns? (s : Scanner text) : Option (List (Found × Scanner text)) :=
  if s.atEnd then some []
  else
    match _turned : s.turn? with
    | none => none
    | some (found, s') => (turns? s').map ((found, s') :: ·)
termination_by text.utf8ByteSize - s.curr
decreasing_by exact turn?_shorter _turned

def item? : Found × Scanner text → Option Lexed
  | (.token kind literal, s) => (between? text s.start s.curr).map fun lexeme => .token ⟨kind, lexeme, literal, s.line⟩
  | (.nothing, _) => none
  | (.fault line fault, _) => some (.fault line fault)

inductive Tiles : Nat → List (Nat × Nat) → Nat → Prop where
  | nil (place : Nat) : Tiles place [] place
  | cons {first next last : Nat} {ranges : List (Nat × Nat)} (some_ : first < next) (others : Tiles next ranges last) :
    Tiles first ((first, next) :: ranges) last

def newlinesBefore (text : String) (place : Nat) : Nat := ((bytes text.toList).take place).count '\n'

/-- What the bytes from one place to another may give out: a token on the line of its end, or a fault on the line of its
    beginning. -/
inductive Gives (text : String) (first last : Nat) : Option Lexed → Prop where
  | nothing : Gives text first last none
  | token {kind : Kind} {lexeme : String} {literal : Option Literal} (more : kind ≠ .eof)
    (covered : between? text first last = some lexeme) :
    Gives text first last (some (.token ⟨kind, lexeme, literal, 1 + newlinesBefore text last⟩))
  | unexpected {char : Char} (covered : between? text first last = some (String.singleton char)) :
    Gives text first last (some (.fault (1 + newlinesBefore text first) (.unexpected char)))
  | unterminated (opened : byteAt? text first = some '"') (ended : last = text.utf8ByteSize) :
    Gives text first last (some (.fault (1 + newlinesBefore text first) .unterminatedString))

structure Accounted (turn : Found × Scanner text) : Prop where
  start : (⟨turn.2.start⟩ : String.Pos.Raw).IsValid text
  curr : (⟨turn.2.curr⟩ : String.Pos.Raw).IsValid text
  gives : Gives text turn.2.start turn.2.curr (item? turn)

def ask? (s : Scanner text) : Nat → Option (List (Option Lexed))
  | 0 => some []
  | n + 1 => do
    let (answer, s) ← s.next?
    let others ← s.ask? n
    return answer :: others

/-- The scanner gives out these items and nothing after them, however often it is asked. -/
def GivesOut (s : Scanner text) (items : List Lexed) : Prop :=
  ∀ n, s.ask? n = some ((List.range n).map fun i => items[i]?)

theorem newlinesBefore_eq {front rest : List Char} (split : text.toList = front ++ rest) :
    newlinesBefore text (bytes front).length = front.count '\n' := by
  rw [newlinesBefore, split, bytes_append, List.take_left, count_bytes (by decide)]

theorem Between.accounted {front cs : List Char} {c : Char} (between : s.Between front (c :: cs))
    (line : s.line = 1 + front.count '\n') :
    Accounted (.ofReading s.line (Lexer.cut c cs).piece.reading, s.behind (Lexer.cut c cs).piece) := by
  have reads := between.reads_behind
  have after := between.behind
  have first : newlinesBefore text (s.behind (Lexer.cut c cs).piece).start = front.count '\n' := by
    rw [reads.start, newlinesBefore_eq between.split]
  have last : newlinesBefore text (s.behind (Lexer.cut c cs).piece).curr =
      (front ++ (Lexer.cut c cs).piece.text).count '\n' := by
    rw [after.curr, newlinesBefore_eq after.split]
  refine ⟨?_, ?_, ?_⟩
  · rw [reads.start]
    exact isValid_bytes between.split
  · rw [after.curr]
    exact isValid_bytes after.split
  cases reading : (Lexer.cut c cs).piece.reading with
  | token kind literal =>
    have ended :
        (s.behind (Lexer.cut c cs).piece).line = 1 + newlinesBefore text (s.behind (Lexer.cut c cs).piece).curr := by
      rw [last, List.count_append, ← Nat.add_assoc, ← line]
      rfl
    have written : Kind.Written kind literal (Lexer.cut c cs).piece.text := Lexer.cut_written c cs kind literal reading
    show Gives text _ _ ((between? text _ _).map fun lexeme => Lexed.token ⟨kind, lexeme, literal, _⟩)
    rw [reads.between?_eq, ended]
    exact .token written.ne_eof reads.between?_eq
  | skipped => exact .nothing
  | fault fault =>
    have begun : s.line = 1 + newlinesBefore text (s.behind (Lexer.cut c cs).piece).start := by
      rw [first, line]
    show Gives text _ _ (some (.fault s.line fault))
    rw [begun]
    rcases Lexer.cut_fault reading with ⟨stray, rfl⟩ | ⟨rfl, unclosed, rfl⟩
    · refine .unexpected ?_
      rw [reads.between?_eq, stray.cut]
      rfl
    · have opened : byteAt? text s.curr = some '"' := by
        rw [byteAt?_curr]
        exact congrArg List.head? (between.reads.ahead_cons (by decide))
      have whole : (Lexer.cut '"' cs).rest = [] := congrArg Lexer.Cut.rest (Lexer.string_unclosed unclosed)
      refine .unterminated opened ?_
      rw [after.curr, utf8ByteSize_eq, after.split, whole, List.append_nil]

theorem turns?_of_turn {s s' : Scanner text} {found : Found} (inside : s.atEnd = false)
    (turned : s.turn? = some (found, s')) : s.turns? = s'.turns?.map ((found, s') :: ·) := by
  rw [turns?, inside, if_neg (by decide)]
  split
  all_goals
    rename_i turned'
    rw [turned] at turned'
    cases turned'
  rfl

theorem ask?_congr {s s' : Scanner text} (same : s.next? = s'.next?) (n : Nat) : s.ask? n = s'.ask? n := by
  cases n with
  | zero => rfl
  | succ n => rw [ask?, ask?, same]

namespace GivesOut

theorem nil (done : s.done = true) : s.GivesOut [] := by
  intro n
  induction n with
  | zero => rfl
  | succ n ih =>
    rw [ask?, next?_done done]
    simp only [Option.bind_eq_bind, Option.bind_some, ih, List.range_succ_eq_map, List.map_cons, List.map_map]
    rfl

theorem cons {s s' : Scanner text} {item : Lexed} {items : List Lexed} (answered : s.next? = some (some item, s'))
    (others : s'.GivesOut items) : s.GivesOut (item :: items) := by
  intro n
  cases n with
  | zero => rfl
  | succ n =>
    rw [ask?, answered]
    simp only [Option.bind_eq_bind, Option.bind_some, others n, List.range_succ_eq_map, List.map_cons, List.map_map]
    rfl

theorem skip {s s' : Scanner text} {items : List Lexed} (same : s.next? = s'.next?) (others : s'.GivesOut items) :
    s.GivesOut items := fun n => (ask?_congr same n).trans (others n)

end GivesOut

def range (turn : Found × Scanner text) : Nat × Nat := (turn.2.start, turn.2.curr)

theorem Between.turns?_eq {front rest : List Char} (between : s.Between front rest) (line : s.line = 1 + front.count '\n') :
    ∃ turns, s.turns? = some turns ∧ Tiles s.curr (turns.map range) text.utf8ByteSize ∧ (∀ turn ∈ turns, Accounted turn) ∧
      s.GivesOut (turns.filterMap item? ++ [.token ⟨.eof, "", none, 1 + text.toList.count '\n'⟩]) := by
  fun_induction Lexer.pieces rest generalizing s front with
  | case1 =>
    have whole : text.toList = front := by rw [between.split, List.append_nil]
    refine ⟨[], ?_, ?_, List.forall_mem_nil _, ?_⟩
    · rw [turns?, between.atEnd_eq]
      rfl
    · rw [between.curr, utf8ByteSize_eq, whole]
      exact .nil _
    · rw [whole, ← line]
      exact .cons between.next?_nil (.nil rfl)
  | case2 c cs ih =>
    have accounted := between.accounted line
    have next := between.next?_cons
    obtain ⟨turns, turned, tiles, others, given⟩ := ih between.behind (by
      rw [List.count_append, ← Nat.add_assoc, ← line]
      rfl)
    refine ⟨_ :: turns, ?_, ?_, List.forall_mem_cons.mpr ⟨accounted, others⟩, ?_⟩
    · rw [turns?_of_turn between.atEnd_eq between.turn?_eq, turned]
      rfl
    · have shorter := turn?_shorter between.turn?_eq
      have further : s.curr < (s.behind (Lexer.cut c cs).piece).curr := by omega
      exact .cons further tiles
    · rw [List.filterMap_cons]
      cases reading : (Lexer.cut c cs).piece.reading with
      | token kind literal =>
        rw [reading] at next
        rw [Found.ofReading, item?, between.reads_behind.between?_eq]
        exact .cons next given
      | skipped =>
        rw [reading] at next
        exact .skip next given
      | fault fault =>
        rw [reading] at next
        exact .cons next given

theorem parts_cover_text (text : String) :
    ∃ turns, (ofText text).turns? = some turns ∧ Tiles 0 (turns.map range) text.utf8ByteSize ∧
      (∀ turn ∈ turns, Accounted turn) ∧
      (ofText text).GivesOut (turns.filterMap item? ++ [.token ⟨.eof, "", none, 1 + text.toList.count '\n'⟩]) :=
  (between_ofText text).turns?_eq rfl

end Lox.Scanner
