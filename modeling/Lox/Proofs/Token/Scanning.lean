import Lox.Proofs.Token.Bytes
import Lox.Proofs.Token.Lexing

namespace Lox.Scanner

variable {text : String} {s : Scanner text}

def ahead (s : Scanner text) : List Char := (bytes text.toList).drop s.curr

theorem atEnd_eq (s : Scanner text) : s.atEnd = s.ahead.isEmpty := by
  rw [atEnd, utf8ByteSize_eq, ahead, Bool.eq_iff_iff]
  simp

theorem byteAt?_curr (s : Scanner text) : byteAt? text s.curr = s.ahead.head? := by
  rw [byteAt?_eq, ahead, List.head?_drop]

theorem peek_eq (s : Scanner text) : s.peek = s.ahead.headD '\x00' := by
  rw [peek, byteAt?_curr, List.headD_eq_head?_getD]

theorem peekNext_eq (s : Scanner text) : s.peekNext = s.ahead.tail.headD '\x00' := by
  rw [peekNext, byteAt?_eq, ahead, List.headD_eq_head?_getD, List.tail_drop, List.head?_drop]

theorem advance?_of_ahead {b : Char} {bs : List Char} (front : s.ahead = b :: bs) :
    s.advance? = some (b, { s with curr := s.curr + 1 }) := by
  rw [advance?, byteAt?_curr, front]
  rfl

theorem ahead_advanced {b : Char} {bs : List Char} (front : s.ahead = b :: bs) :
    ({ s with curr := s.curr + 1 } : Scanner text).ahead = bs := by
  show (bytes text.toList).drop (s.curr + 1) = bs
  rw [← List.tail_drop]
  exact congrArg List.tail front

theorem test_peek (test : Char → Bool) (nul : test '\x00' = false) (s : Scanner text) :
    test s.peek = s.ahead.head?.any test := by
  rw [peek_eq]
  cases s.ahead with
  | nil => exact nul
  | cons b bs => rfl

theorem guarded_peek (test : Char → Bool) (s : Scanner text) :
    (!s.atEnd && test s.peek) = s.ahead.head?.any test := by
  rw [atEnd_eq, peek_eq]
  cases s.ahead with
  | nil => rfl
  | cons b bs => rfl

theorem skipWhile?_eq {more : Scanner text → Bool} {test : Char → Bool} (looks : ∀ s, more s = s.ahead.head?.any test)
    (s : Scanner text) : s.skipWhile? more = some { s with curr := s.curr + (s.ahead.takeWhile test).length } := by
  induction front : s.ahead generalizing s with
  | nil =>
    rw [skipWhile?, looks, front]
    rfl
  | cons b bs ih =>
    rw [skipWhile?, looks, front, List.takeWhile_cons]
    cases passes : test b with
    | false => simp [passes]
    | true =>
      simp only [List.head?_cons, Option.any_some, passes, if_true]
      split
      · rename_i byte next moved
        rw [advance?_of_ahead front] at moved
        cases moved
        rw [ih _ (ahead_advanced front)]
        simp [Nat.add_comm, Nat.add_left_comm]
      · rename_i stuck
        rw [advance?_of_ahead front] at stuck
        cases stuck

theorem skipString?_eq (s : Scanner text) : s.skipString? = some { s with
    curr := s.curr + (s.ahead.takeWhile (· != '"')).length
    line := s.line + (s.ahead.takeWhile (· != '"')).count '\n' } := by
  induction front : s.ahead generalizing s with
  | nil =>
    rw [skipString?, guarded_peek (· != '"'), front]
    rfl
  | cons b bs ih =>
    rw [skipString?, guarded_peek (· != '"'), front, List.takeWhile_cons]
    cases passes : b != '"' with
    | false => simp [passes]
    | true =>
      simp only [List.head?_cons, Option.any_some, passes, if_true]
      split
      · rename_i byte next moved
        rw [advance?_of_ahead front] at moved
        cases moved
        by_cases newline : b = '\n'
        · rw [if_pos newline]
          refine (ih { s with curr := s.curr + 1, line := s.line + 1 } (ahead_advanced front)).trans ?_
          simp [newline, Nat.add_assoc, Nat.add_comm 1]
        · rw [if_neg newline]
          refine (ih { s with curr := s.curr + 1 } (ahead_advanced front)).trans ?_
          simp [newline, Nat.add_assoc, Nat.add_comm 1]
      · rename_i stuck
        rw [advance?_of_ahead front] at stuck
        cases stuck

structure Reads (s : Scanner text) (front lexeme rest : List Char) : Prop where
  split : text.toList = front ++ (lexeme ++ rest)
  start : s.start = (bytes front).length
  curr : s.curr = (bytes front).length + (bytes lexeme).length

def past (s : Scanner text) (cs : List Char) : Scanner text :=
  { s with curr := s.curr + (bytes cs).length, line := s.line + cs.count '\n' }

theorem past_nil (s : Scanner text) : s.past [] = s := rfl

theorem past_past (s : Scanner text) (cs ds : List Char) : (s.past cs).past ds = s.past (cs ++ ds) := by
  simp [past, bytes_append, Nat.add_assoc]

theorem past_ascii {c : Char} (ascii : c.toNat < 128) (inLine : c ≠ '\n') (s : Scanner text) :
    s.past [c] = { s with curr := s.curr + 1 } := by
  rw [past, bytes_ascii ascii, List.count_singleton, if_neg (by simpa using inLine)]
  rfl

namespace Reads

variable {front lexeme rest : List Char}

theorem ahead_eq (reads : s.Reads front lexeme rest) : s.ahead = bytes rest := by
  rw [ahead, reads.split, reads.curr, ← List.append_assoc, bytes_append, bytes_append, ← List.length_append,
    List.drop_left]

theorem past {cs behind : List Char} (reads : s.Reads front lexeme rest) (split : cs ++ behind = rest) :
    (s.past cs).Reads front (lexeme ++ cs) behind := by
  refine ⟨by rw [reads.split, ← split, List.append_assoc], reads.start, ?_⟩
  rw [bytes_append, List.length_append, ← Nat.add_assoc, ← reads.curr]
  rfl

theorem past_cons {c : Char} (reads : s.Reads front lexeme (c :: rest)) : (s.past [c]).Reads front (lexeme ++ [c]) rest :=
  reads.past rfl

theorem between?_eq (reads : s.Reads front lexeme rest) : between? text s.start s.curr = some (String.ofList lexeme) := by
  rw [reads.start, reads.curr]
  exact Scanner.between?_eq reads.split

theorem head?_any {test : Char → Bool} (reads : s.Reads front lexeme rest) (ascii : AsciiTest test) :
    s.ahead.head?.any test = rest.head?.any test := by
  rw [reads.ahead_eq, head?_bytes_any ascii]

theorem skipWhile?_eq {more : Scanner text → Bool} (reads : s.Reads front lexeme rest) (test : Char → Bool)
    (looks : ∀ s, more s = s.ahead.head?.any test) (ascii : AsciiTest test) (line : test '\n' = false) :
    s.skipWhile? more = some (s.past (rest.takeWhile test)) := by
  have lines : (rest.takeWhile test).count '\n' = 0 := by
    rw [List.count_eq_zero]
    intro among
    have passes := List.all_eq_true.mp List.all_takeWhile _ among
    rw [line] at passes
    cases passes
  rw [Scanner.skipWhile?_eq looks, reads.ahead_eq, takeWhile_bytes ascii, Scanner.past, lines]
  rfl

theorem skipString?_eq (reads : s.Reads front lexeme rest) : s.skipString? = some (s.past (rest.takeWhile (· != '"'))) := by
  rw [Scanner.skipString?_eq, reads.ahead_eq, takeWhile_bytes (.ne (by decide)), count_bytes (by decide)]
  rfl

theorem skip (reads : s.Reads front lexeme rest) (test : Char → Bool) :
    (s.past (rest.takeWhile test)).Reads front (lexeme ++ rest.takeWhile test) (rest.dropWhile test) :=
  reads.past List.takeWhile_append_dropWhile

theorem ahead_of_encoded {c b : Char} {bs : List Char} (reads : s.Reads front lexeme (c :: rest))
    (encoded : bytes [c] = b :: bs) : s.ahead = b :: (bs ++ bytes rest) := by
  rw [reads.ahead_eq, bytes_cons, encoded]
  rfl

theorem atEnd_eq (reads : s.Reads front lexeme rest) : s.atEnd = rest.isEmpty := by
  rw [Scanner.atEnd_eq]
  cases rest with
  | nil =>
    rw [reads.ahead_eq]
    rfl
  | cons c cs =>
    obtain ⟨b, bs, encoded⟩ := exists_bytes_eq_cons c
    rw [reads.ahead_of_encoded encoded]
    rfl

theorem ahead_cons {c : Char} (reads : s.Reads front lexeme (c :: rest)) (ascii : c.toNat < 128) :
    s.ahead = c :: bytes rest :=
  reads.ahead_of_encoded (bytes_ascii ascii)

theorem advance?_eq {c : Char} (reads : s.Reads front lexeme (c :: rest)) (ascii : c.toNat < 128) (inLine : c ≠ '\n') :
    s.advance? = some (c, s.past [c]) := by
  rw [advance?_of_ahead (reads.ahead_cons ascii), past_ascii ascii inLine]

theorem accept?_eq {d : Char} (reads : s.Reads front lexeme rest) (ascii : d.toNat < 128) (inLine : d ≠ '\n') :
    s.accept? d = if rest.head? = some d then some (s.past [d]) else none := by
  have next : (!s.atEnd && s.peek == d) = rest.head?.any (· == d) := by
    rw [guarded_peek (· == d)]
    exact reads.head?_any (.of_ascii fun c same => eq_of_beq same ▸ ascii)
  rw [accept?, next, past_ascii ascii inLine]
  cases rest with
  | nil => rfl
  | cons c cs => simp

end Reads

def Found.ofReading (line : Nat) : Lexer.Reading → Found
  | .token kind literal => .token kind literal
  | .skipped => .nothing
  | .fault cause => .fault line cause

def ofCut (s : Scanner text) (cut : Lexer.Cut) : Found × Scanner text :=
  (.ofReading s.line cut.piece.reading, s.past cut.piece.text)

theorem isDigit_asciiTest : AsciiTest Char.isDigit := .of_ascii fun _ => isDigit_ascii

theorem Reads.skipDigits?_eq {front lexeme rest : List Char} (reads : s.Reads front lexeme rest) :
    s.skipWhile? (·.peek.isDigit) = some (s.past (rest.takeWhile Char.isDigit)) :=
  reads.skipWhile?_eq Char.isDigit (test_peek Char.isDigit rfl) isDigit_asciiTest rfl

section Pieces

variable {front lexeme rest cs : List Char} {c : Char}

theorem scanWord?_eq (reads : s.Reads front [] (c :: cs)) :
    (s.past [c]).scanWord? = some (s.ofCut (Lexer.word c cs)) := by
  have first : (s.past [c]).Reads front [c] cs := reads.past_cons
  rw [scanWord?,
    first.skipWhile?_eq Lexer.isWordRest (test_peek Lexer.isWordRest rfl) (.of_ascii fun _ => isWordRest_ascii) rfl]
  simp only [Option.bind_eq_bind, Option.bind_some, (first.skip Lexer.isWordRest).between?_eq]
  rw [past_past]
  rfl

theorem skipFraction?_eq (reads : s.Reads front lexeme rest) : s.skipFraction? = some (s.past (Lexer.fraction rest)) := by
  have point : (s.peek == '.') = rest.head?.any (· == '.') := by
    rw [test_peek (· == '.') rfl]
    exact reads.head?_any (.of_ascii fun c same => eq_of_beq same ▸ by decide)
  cases rest with
  | nil => rw [skipFraction?, point]; rfl
  | cons c cs =>
    by_cases isPoint : c = '.'
    · subst isPoint
      have next : s.peekNext.isDigit = cs.head?.any Char.isDigit := by
        rw [peekNext_eq, reads.ahead_cons (by decide), List.tail_cons, ← head?_bytes_any isDigit_asciiTest]
        cases bytes cs <;> rfl
      rw [skipFraction?, point, next]
      cases cs with
      | nil => rfl
      | cons d rest =>
        cases digit : d.isDigit with
        | false => simp [digit, Lexer.fraction, past_nil]
        | true =>
          simp only [List.head?_cons, Option.any_some, BEq.rfl, Bool.and_self, if_true, Option.bind_eq_bind,
            Option.bind_some, digit, Lexer.fraction, reads.advance?_eq (by decide) (by decide),
            reads.past_cons.skipDigits?_eq, past_past, List.takeWhile_cons_of_pos digit]
          rfl
    · have none : Lexer.fraction (c :: cs) = [] := Lexer.fraction_eq_nil fun d tail same => isPoint (List.cons.inj same).1
      rw [skipFraction?, point, none]
      simp [isPoint, past_nil]

theorem ofNumeral_append {whole point : List Char} (digits : ∀ d ∈ whole, d.isDigit = true)
    (stops : ∀ d, point.head? = some d → ¬ d.isDigit = true) :
    Number.ofNumeral (whole ++ point) = .ofDigits whole (point.drop 1) := by
  rw [Number.ofNumeral, List.takeWhile_append_of_pos digits, List.dropWhile_append_of_pos digits]
  cases point with
  | nil => simp
  | cons d ds => rw [List.takeWhile_cons_of_neg (stops d rfl), List.dropWhile_cons_of_neg (stops d rfl), List.append_nil]

theorem scanNumber?_eq (reads : s.Reads front [] (c :: cs)) (digit : c.isDigit = true) :
    (s.past [c]).scanNumber? = some (s.ofCut (Lexer.number c cs)) := by
  have first : (s.past [c]).Reads front [c] cs := reads.past_cons
  have whole := first.skip Char.isDigit
  obtain ⟨behind, split⟩ := Lexer.fraction_prefix (cs.dropWhile Char.isDigit)
  have digits : ∀ d ∈ c :: cs.takeWhile Char.isDigit, d.isDigit = true := by
    intro d among
    rcases List.mem_cons.mp among with rfl | among
    · exact digit
    · exact List.all_eq_true.mp List.all_takeWhile d among
  rw [scanNumber?, first.skipDigits?_eq]
  simp only [Option.bind_eq_bind, Option.bind_some, skipFraction?_eq whole, (whole.past split).between?_eq,
    String.toList_ofList]
  rw [List.singleton_append, ofNumeral_append digits fun d => Lexer.fraction_head, past_past, past_past, ofCut,
    Lexer.number_piece]
  rfl

theorem Reads.inner?_eq {value : List Char} (reads : s.Reads front ('"' :: value) ('"' :: rest)) :
    between? text ((s.past ['"']).start + 1) ((s.past ['"']).curr - 1) = some (String.ofList value) := by
  have quote : (bytes ['"']).length = 1 := by
    rw [bytes_ascii (by decide)]
    rfl
  have split : text.toList = (front ++ ['"']) ++ (value ++ '"' :: rest) := by
    rw [reads.split]
    simp
  have first : (s.past ['"']).start + 1 = (bytes (front ++ ['"'])).length := by
    rw [bytes_append, List.length_append, quote, ← reads.start]
    rfl
  have last : (s.past ['"']).curr - 1 = (bytes (front ++ ['"'])).length + (bytes value).length := by
    show s.curr + (bytes ['"']).length - 1 = _
    rw [reads.curr, bytes_cons, bytes_append, List.length_append, List.length_append, quote]
    omega
  rw [first, last]
  exact Scanner.between?_eq split

theorem scanString?_eq (reads : s.Reads front [] ('"' :: cs)) :
    (s.past ['"']).scanString? = some (s.ofCut (Lexer.string cs)) := by
  have first : (s.past ['"']).Reads front ['"'] cs := reads.past_cons
  have value := first.skip (· != '"')
  rw [scanString?, first.skipString?_eq]
  simp only [Option.bind_eq_bind, Option.bind_some, value.atEnd_eq]
  unfold Lexer.string
  cases found : cs.dropWhile (· != '"') with
  | nil =>
    have all := List.takeWhile_append_dropWhile (p := (· != '"')) (l := cs)
    rw [found, List.append_nil] at all
    rw [all, past_past]
    rfl
  | cons quote rest =>
    rw [found] at value
    have isQuote : quote = '"' := by
      have stops := List.head?_dropWhile_not (· != '"') cs
      simpa [found] using stops
    subst isQuote
    have closed := value.advance?_eq (by decide) (by decide)
    simp only [List.isEmpty_cons, Bool.false_eq_true, if_false, closed, Option.bind_some, value.inner?_eq]
    rw [past_past, past_past]
    rfl

theorem scanSlash?_eq (reads : s.Reads front [] ('/' :: cs)) :
    (s.past ['/']).scanSlash? = some (s.ofCut (Lexer.slash cs)) := by
  have first : (s.past ['/']).Reads front ['/'] cs := reads.past_cons
  unfold Lexer.slash
  split
  · rename_i cs
    have skipped := first.past_cons.skipWhile?_eq (· != '\n') (guarded_peek (· != '\n')) (.ne (by decide)) rfl
    rw [scanSlash?, first.accept?_eq (by decide) (by decide), List.head?_cons, if_pos rfl]
    simp only [skipped, Option.bind_eq_bind, Option.bind_some]
    rw [past_past, past_past]
    rfl
  · rename_i other
    have alone : cs.head? ≠ some '/' := by
      intro slash
      obtain ⟨rest, rfl⟩ := List.head?_eq_some_iff.mp slash
      exact other rest rfl
    rw [scanSlash?, first.accept?_eq (by decide) (by decide), if_neg alone]
    rfl

theorem accept?_equal (reads : s.Reads front [] (c :: cs)) (alone withEqual : Kind) :
    (match (s.past [c]).accept? '=' with
      | some s => some (.token withEqual none, s)
      | none => some (.token alone none, s.past [c])) = some (s.ofCut (Lexer.extensible c alone withEqual cs)) := by
  have first : (s.past [c]).Reads front [c] cs := reads.past_cons
  rw [first.accept?_eq (by decide) (by decide)]
  by_cases equal : cs.head? = some '='
  · obtain ⟨rest, rfl⟩ := List.head?_eq_some_iff.mp equal
    rw [if_pos equal, past_past]
    rfl
  · have other : Lexer.extensible c alone withEqual cs = ⟨Lexer.plain alone [c], cs⟩ := by
      unfold Lexer.extensible
      split
      · exact absurd rfl equal
      · rfl
    rw [if_neg equal, other]
    rfl

theorem scanStray?_eq (reads : s.Reads front [] (c :: cs)) (inLine : c ≠ '\n') :
    ({ s with curr := s.curr + 1 } : Scanner text).scanStray? = some (.fault s.line (.unexpected c), s.past [c]) := by
  obtain ⟨b, bs, encoded⟩ := exists_bytes_eq_cons c
  have begins := reads.ahead_of_encoded encoded
  have sameLine : [c].count '\n' = 0 := by
    rw [List.count_singleton, if_neg (by simpa using inLine)]
  have skipped : ({ s with curr := s.curr + 1 } : Scanner text).skipWhile?
      (fun s => !s.atEnd && Utf8.continuation.contains s.peek.toUInt8) = some (s.past [c]) := by
    refine (skipWhile?_eq (guarded_peek isContinuation) _).trans ?_
    rw [ahead_advanced begins, takeWhile_isContinuation encoded, past, encoded, sameLine, List.length_cons, Nat.add_assoc,
      Nat.add_comm 1]
    rfl
  have line : (s.past [c]).line = s.line := by rw [past, sameLine]; rfl
  simp only [scanStray?, skipped, Option.bind_eq_bind, Option.bind_some, reads.past_cons.between?_eq, List.nil_append,
    String.toList_ofList, line]
  rfl

theorem stray_of_wide (wide : 128 ≤ c.toNat) : Lexer.Stray c where
  blank blank := by have := isBlank_ascii blank; omega
  wordStart start := by have := isWordStart_ascii start; omega
  digit digit := by have := isDigit_ascii digit; omega
  quote := by rintro rfl; exact absurd wide (by decide)
  slash := by rintro rfl; exact absurd wide (by decide)
  signBeforeEqual := by
    cases sign : Lexer.signBeforeEqual? c with
    | none => rfl
    | some kinds => have := signBeforeEqual?_ascii sign; omega
  sign := by
    cases sign : Lexer.sign? c with
    | none => rfl
    | some kind => have := sign?_ascii sign; omega

theorem scanFrom?_stray (stray : Lexer.Stray c) (s : Scanner text) : s.scanFrom? c = s.scanStray? := by
  have inLine : c ≠ '\n' := by
    rintro rfl
    exact stray.blank rfl
  rw [scanFrom?, if_neg inLine, if_neg stray.blank, if_neg stray.wordStart, if_neg stray.digit, if_neg stray.quote,
    if_neg stray.slash, stray.signBeforeEqual, stray.sign]

theorem scanFrom?_ascii (reads : s.Reads front [] (c :: cs)) (ascii : c.toNat < 128) :
    ({ s with curr := s.curr + 1 } : Scanner text).scanFrom? c = some (s.ofCut (Lexer.cut c cs)) := by
  by_cases newline : c = '\n'
  · subst newline
    rw [scanFrom?, if_pos rfl, Lexer.cut, if_pos (by decide : Lexer.isBlank '\n' = true), ofCut, past, bytes_ascii ascii]
    rfl
  by_cases stray : Lexer.Stray c
  · rw [scanFrom?_stray stray, scanStray?_eq reads newline, stray.cut]
    rfl
  rw [← past_ascii ascii newline, scanFrom?, Lexer.cut, if_neg newline]
  by_cases blank : Lexer.isBlank c = true
  · rw [if_pos blank, if_pos blank]
    rfl
  rw [if_neg blank, if_neg blank]
  by_cases start : Lexer.isWordStart c = true
  · rw [if_pos start, if_pos start]
    exact scanWord?_eq reads
  rw [if_neg start, if_neg start]
  by_cases digit : c.isDigit = true
  · rw [if_pos digit, if_pos digit]
    exact scanNumber?_eq reads digit
  rw [if_neg digit, if_neg digit]
  by_cases quote : c = '"'
  · subst quote
    exact scanString?_eq reads
  rw [if_neg quote, if_neg quote]
  by_cases slash : c = '/'
  · subst slash
    exact scanSlash?_eq reads
  rw [if_neg slash, if_neg slash]
  cases pair : Lexer.signBeforeEqual? c with
  | some kinds => exact accept?_equal reads kinds.1 kinds.2
  | none =>
    cases sign : Lexer.sign? c with
    | some kind => rfl
    | none => exact absurd ⟨blank, start, digit, quote, slash, pair, sign⟩ stray

theorem turn?_eq (split : text.toList = front ++ c :: cs) (place : s.curr = (bytes front).length) :
    s.turn? = some (({ s with start := s.curr } : Scanner text).ofCut (Lexer.cut c cs)) := by
  have reads : ({ s with start := s.curr } : Scanner text).Reads front [] (c :: cs) := ⟨split, place, place⟩
  by_cases ascii : c.toNat < 128
  · rw [turn?, scanToken?, advance?_of_ahead (reads.ahead_cons ascii)]
    exact scanFrom?_ascii reads ascii
  · have wide : 128 ≤ c.toNat := by omega
    have inLine : c ≠ '\n' := by
      rintro rfl
      exact absurd wide (by decide)
    obtain ⟨b, bs, encoded, first, -⟩ := bytes_wide wide
    -- The byte that is looked at is not the character, but neither of them begins a token.
    rw [turn?, scanToken?, advance?_of_ahead (reads.ahead_of_encoded encoded), (stray_of_wide wide).cut]
    simp only [Option.bind_eq_bind, Option.bind_some]
    rw [scanFrom?_stray (stray_of_wide (by omega : 128 ≤ b.toNat)), scanStray?_eq reads inLine]
    rfl

end Pieces

structure Between (s : Scanner text) (front rest : List Char) : Prop where
  split : text.toList = front ++ rest
  curr : s.curr = (bytes front).length
  more : s.done = false

theorem between_ofText (text : String) : (ofText text).Between [] text.toList := ⟨rfl, rfl, rfl⟩

def answer? (s : Scanner text) : Found → Option (Option Lexed × Scanner text)
  | .nothing => s.next?
  | .fault line fault => some (some (.fault line fault), s)
  | .token kind literal =>
    (between? text s.start s.curr).map fun lexeme => (some (.token ⟨kind, lexeme, literal, s.line⟩), s)

theorem next?_of_turn {s s' : Scanner text} {found : Found} (more : s.done = false) (inside : s.atEnd = false)
    (turned : s.turn? = some (found, s')) : s.next? = s'.answer? found := by
  rw [next?, more, if_neg (by decide), inside, if_neg (by decide)]
  split
  all_goals
    rename_i turned'
    rw [turned] at turned'
    cases turned'
  all_goals rfl

theorem next?_done (done : s.done = true) : s.next? = some (none, s) := by
  rw [next?, if_pos done]

def drainAfter? : Option Lexed × Scanner text → Option (List Lexed × Scanner text)
  | (none, s) => some ([], s)
  | (some item, s) => s.drain?.map fun (items, last) => (item :: items, last)

theorem drain?_eq_bind (s : Scanner text) : s.drain? = s.next?.bind drainAfter? := by
  rw [drain?]
  split
  all_goals
    rename_i answered
    rw [answered]
  all_goals rfl

def behind (s : Scanner text) (piece : Lexer.Piece) : Scanner text :=
  ({ s with start := s.curr } : Scanner text).past piece.text

namespace Between

variable {front rest cs : List Char} {c : Char}

theorem reads (between : s.Between front rest) : ({ s with start := s.curr } : Scanner text).Reads front [] rest :=
  ⟨between.split, between.curr, between.curr⟩

theorem atEnd_eq (between : s.Between front rest) : s.atEnd = rest.isEmpty := between.reads.atEnd_eq

theorem turn?_eq (between : s.Between front (c :: cs)) : s.turn? =
    some (.ofReading s.line (Lexer.cut c cs).piece.reading, s.behind (Lexer.cut c cs).piece) :=
  Scanner.turn?_eq between.split between.curr

theorem reads_behind (between : s.Between front (c :: cs)) :
    (s.behind (Lexer.cut c cs).piece).Reads front (Lexer.cut c cs).piece.text (Lexer.cut c cs).rest :=
  between.reads.past (Lexer.cut_append c cs)

theorem behind (between : s.Between front (c :: cs)) :
    (s.behind (Lexer.cut c cs).piece).Between (front ++ (Lexer.cut c cs).piece.text) (Lexer.cut c cs).rest := by
  have reads := between.reads_behind
  refine ⟨?_, ?_, between.more⟩
  · rw [reads.split, List.append_assoc]
  · rw [reads.curr, bytes_append, List.length_append]

theorem next?_nil (between : s.Between front []) :
    s.next? = some (some (.token ⟨.eof, "", none, s.line⟩), { s with done := true }) := by
  rw [next?, between.more, if_neg (by decide), between.atEnd_eq, List.isEmpty_nil, if_pos rfl]

theorem next?_cons (between : s.Between front (c :: cs)) : s.next? =
    match (Lexer.cut c cs).piece.reading with
    | .token kind literal => some (some (.token ⟨kind, String.ofList (Lexer.cut c cs).piece.text, literal,
        s.line + (Lexer.cut c cs).piece.text.count '\n'⟩), s.behind (Lexer.cut c cs).piece)
    | .skipped => (s.behind (Lexer.cut c cs).piece).next?
    | .fault fault => some (some (.fault s.line fault), s.behind (Lexer.cut c cs).piece) := by
  rw [Scanner.next?_of_turn between.more between.atEnd_eq between.turn?_eq]
  cases (Lexer.cut c cs).piece.reading with
  | token kind literal =>
    rw [Found.ofReading, answer?, between.reads_behind.between?_eq]
    rfl
  | skipped => rfl
  | fault fault => rfl

theorem drain?_eq (between : s.Between front rest) :
    ∃ last, s.drain? = some (Lexer.withLines s.line (Lexer.pieces rest), last) ∧ last.done = true := by
  fun_induction Lexer.pieces rest generalizing s front with
  | case1 =>
    refine ⟨{ s with done := true }, ?_, rfl⟩
    rw [drain?_eq_bind, between.next?_nil, Option.bind_some, drainAfter?, drain?_eq_bind, next?_done rfl]
    rfl
  | case2 c cs ih =>
    obtain ⟨last, drained, done⟩ := ih between.behind
    refine ⟨last, ?_, done⟩
    rw [Lexer.withLines, drain?_eq_bind, between.next?_cons]
    cases (Lexer.cut c cs).piece.reading with
    | skipped => exact (drain?_eq_bind _).symm.trans drained
    | token _ _ | fault _ =>
      rw [Option.bind_some, drainAfter?, drained]
      rfl

end Between

theorem drain?_ofText (text : String) :
    ∃ last, (ofText text).drain? = some (Lexer.scan text, last) ∧ last.done = true :=
  (between_ofText text).drain?_eq

end Lox.Scanner
