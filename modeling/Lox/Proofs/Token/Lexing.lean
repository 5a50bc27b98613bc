import Lox.Proofs.Token.Written
import Lox.Proofs.Tree.Bare

namespace Lox

theorem Kind.Written.ne_eof {kind : Kind} {literal : Option Literal} {text : List Char}
    (written : Kind.Written kind literal text) : kind ≠ .eof := by
  rintro rfl
  cases written with
  | sign spelled => cases spelled

namespace Lexer

def Piece.token? (piece : Piece) : Option Token :=
  match piece.reading with
  | .token kind literal => some ⟨kind, String.ofList piece.text, literal, 0⟩
  | _ => none

structure Lexes (text : List Char) (ts : List Token) : Prop where
  clean : ∀ piece ∈ pieces text, ∀ fault, piece.reading ≠ .fault fault
  tokens : (pieces text).filterMap Piece.token? = ts

theorem pieces_cons (c : Char) (cs : List Char) : pieces (c :: cs) = (cut c cs).piece :: pieces (cut c cs).rest := by
  rw [pieces]

namespace Lexes

variable {text rest : List Char} {ts : List Token}

theorem nil : Lexes [] [] := by
  constructor
  · rw [pieces]
    exact List.forall_mem_nil _
  · rw [pieces]
    rfl

theorem of_cut {c : Char} {cs : List Char} {piece : Piece} (first : cut c cs = ⟨piece, rest⟩)
    (clean : ∀ fault, piece.reading ≠ .fault fault) (others : Lexes rest ts) :
    Lexes (c :: cs) (piece.token?.toList ++ ts) := by
  constructor
  · rw [pieces_cons, first]
    intro other among
    rcases List.mem_cons.mp among with rfl | among
    · exact clean
    · exact others.clean other among
  · rw [pieces_cons, first, List.filterMap_cons, others.tokens]
    cases piece.token? <;> rfl

theorem blank {c : Char} (white : isBlank c = true) (others : Lexes rest ts) : Lexes (c :: rest) ts := by
  have first : cut c rest = ⟨⟨.skipped, [c]⟩, rest⟩ := by rw [cut, if_pos white]
  exact of_cut first nofun others

theorem token {c : Char} {cs : List Char} {kind : Kind} {literal : Option Literal}
    (first : cut c cs = ⟨⟨.token kind literal, text⟩, rest⟩) (others : Lexes rest ts) :
    Lexes (c :: cs) (⟨kind, String.ofList text, literal, 0⟩ :: ts) :=
  of_cut first nofun others

end Lexes

/-- No token is extended by what begins with this text. -/
structure Separate (rest : List Char) : Prop where
  word : ∀ c ∈ rest.head?, isWordRest c = false
  equal : ∀ c ∈ rest.head?, c ≠ '='
  slash : ∀ c ∈ rest.head?, c ≠ '/'
  point : ∀ d tail, rest = '.' :: d :: tail → d.isDigit = false

theorem Separate.cons {c : Char} (rest : List Char)
    (plain : (isWordRest c || c == '=' || c == '/' || c == '.') = false) : Separate (c :: rest) := by
  simp only [Bool.or_eq_false_iff, beq_eq_false_iff_ne] at plain
  obtain ⟨⟨⟨word, equal⟩, slash⟩, point⟩ := plain
  constructor
  · intro d front
    cases front
    exact word
  · intro d front
    cases front
    exact equal
  · intro d front
    cases front
    exact slash
  · intro d tail same
    cases same
    exact absurd rfl point

theorem Separate.point_cons {d : Char} (rest : List Char) (start : d.isDigit = false) : Separate ('.' :: d :: rest) := by
  constructor
  · intro c front
    cases front
    decide
  · intro c front
    cases front
    decide
  · intro c front
    cases front
    decide
  · intro e tail same
    cases same
    exact start

theorem takeWhile_append_rest {p : Char → Bool} {cs rest : List Char} (all : ∀ d ∈ cs, p d = true)
    (stops : ∀ c ∈ rest.head?, p c = false) : (cs ++ rest).takeWhile p = cs ∧ (cs ++ rest).dropWhile p = rest := by
  rw [List.takeWhile_append_of_pos all, List.dropWhile_append_of_pos all]
  cases rest with
  | nil => simp
  | cons c tail =>
    have stop := stops c rfl
    simp [stop]

theorem isDigit_isWordRest {c : Char} (digit : c.isDigit = true) : isWordRest c = true := by
  simp [isWordRest, Char.isAlphanum, digit]

theorem isBlank_start {c : Char} (blank : isBlank c = true) : isWordStart c = false ∧ c.isDigit = false := by
  simp only [isBlank, Bool.or_eq_true, beq_iff_eq] at blank
  rcases blank with ((rfl | rfl) | rfl) | rfl <;> decide

theorem isWordStart_not_blank {c : Char} (start : isWordStart c = true) : isBlank c = false := by
  cases blank : isBlank c with
  | false => rfl
  | true =>
    rw [(isBlank_start blank).1] at start
    cases start

theorem isDigit_not_blank {c : Char} (digit : c.isDigit = true) : isBlank c = false := by
  cases blank : isBlank c with
  | false => rfl
  | true =>
    rw [(isBlank_start blank).2] at digit
    cases digit

theorem isWordStart_not_digit {c : Char} (start : isWordStart c = true) : c.isDigit = false := by
  change (decide (c.val ≥ 'A'.val ∧ c.val ≤ 'Z'.val) || (decide (c.val ≥ 'a'.val) && decide (c.val ≤ 'z'.val)) ||
    c == '_') = true at start
  simp only [Bool.or_eq_true, Bool.and_eq_true, decide_eq_true_eq, beq_iff_eq, ge_iff_le, UInt32.le_iff_toNat_le] at start
  simp only [Char.isDigit, Bool.and_eq_false_iff, decide_eq_false_iff_not, ge_iff_le, UInt32.le_iff_toNat_le]
  rcases start with (⟨low, -⟩ | ⟨low, -⟩) | rfl
  · right
    change 65 ≤ c.val.toNat at low
    change ¬ c.val.toNat ≤ 57
    omega
  · right
    change 97 ≤ c.val.toNat at low
    change ¬ c.val.toNat ≤ 57
    omega
  · decide

theorem isDigit_not_wordStart {c : Char} (digit : c.isDigit = true) : isWordStart c = false := by
  cases start : isWordStart c with
  | false => rfl
  | true =>
    rw [isWordStart_not_digit start] at digit
    cases digit

variable {rest : List Char}

theorem word_append_rest {c : Char} {cs : List Char} {reserved : Option Keyword} (all : ∀ d ∈ cs, isWordRest d = true)
    (found : Keyword.ofSpelling? (String.ofList (c :: cs)) = reserved) (stops : ∀ d ∈ rest.head?, isWordRest d = false) :
    word c (cs ++ rest) = ⟨plain (reserved.elim .identifier .keyword) (c :: cs), rest⟩ := by
  obtain ⟨taken, dropped⟩ := takeWhile_append_rest all stops
  rw [word]
  simp only [taken, dropped, found]
  cases reserved <;> rfl

theorem cut_wordStart {c : Char} (start : isWordStart c = true) (cs : List Char) : cut c cs = word c cs := by
  rw [cut, isWordStart_not_blank start, if_neg (by decide), if_pos start]

theorem Separate.digit (separate : Separate rest) : ∀ d ∈ rest.head?, d.isDigit = false := by
  intro d front
  cases digit : d.isDigit with
  | false => rfl
  | true =>
    have other := separate.word d front
    rw [isDigit_isWordRest digit] at other
    cases other

theorem cut_digit {c : Char} (digit : c.isDigit = true) (cs : List Char) : cut c cs = number c cs := by
  rw [cut, isDigit_not_blank digit, if_neg (by decide), isDigit_not_wordStart digit, if_neg (by decide), if_pos digit]

theorem number_whole {c : Char} {cs : List Char} (digits : ∀ d ∈ cs, d.isDigit = true)
    (stops : ∀ d ∈ rest.head?, d.isDigit = false) (point : ∀ d tail, rest = '.' :: d :: tail → d.isDigit = false) :
    number c (cs ++ rest) = ⟨⟨.token .number (some (.number (.ofDigits (c :: cs) []))), c :: cs⟩, rest⟩ := by
  obtain ⟨taken, dropped⟩ := takeWhile_append_rest digits stops
  rw [number]
  simp only [taken, dropped]
  split
  · rename_i d tail
    rw [point d tail rfl, if_neg (by decide)]
  · rfl

theorem number_decimal {c d : Char} {cs ds : List Char} (digits : ∀ e ∈ cs, e.isDigit = true) (digit : d.isDigit = true)
    (fraction : ∀ e ∈ ds, e.isDigit = true) (stops : ∀ e ∈ rest.head?, e.isDigit = false) :
    number c (cs ++ '.' :: d :: (ds ++ rest)) =
      ⟨⟨.token .number (some (.number (.ofDigits (c :: cs) (d :: ds)))), c :: cs ++ '.' :: d :: ds⟩, rest⟩ := by
  have point : ∀ e ∈ ('.' :: d :: (ds ++ rest)).head?, e.isDigit = false := by simp
  obtain ⟨taken, dropped⟩ := takeWhile_append_rest digits point
  obtain ⟨taken', dropped'⟩ := takeWhile_append_rest fraction stops
  rw [number]
  simp only [taken, dropped, if_pos digit, taken', dropped']

/-- The point and the digits that belong to a number before them. -/
def fraction : List Char → List Char
  | '.' :: d :: rest => if d.isDigit then '.' :: d :: rest.takeWhile Char.isDigit else []
  | _ => []

theorem fraction_eq_nil (other : ∀ d tail, rest = '.' :: d :: tail → False) : fraction rest = [] := by
  unfold fraction
  split
  · rename_i d tail
    exact absurd rfl (other d tail)
  · rfl

theorem fraction_head {d : Char} (first : (fraction rest).head? = some d) : ¬ d.isDigit = true := by
  unfold fraction at first
  split at first
  · split at first
    · cases first
      decide
    · cases first
  · cases first

theorem number_piece (c : Char) (cs : List Char) : (number c cs).piece =
    ⟨.token .number (some (.number (.ofDigits (c :: cs.takeWhile Char.isDigit)
      ((fraction (cs.dropWhile Char.isDigit)).drop 1)))),
      c :: cs.takeWhile Char.isDigit ++ fraction (cs.dropWhile Char.isDigit)⟩ := by
  unfold number
  dsimp only
  split
  · rename_i d rest found
    rw [found, fraction]
    by_cases digit : d.isDigit = true
    · rw [if_pos digit, if_pos digit]
      rfl
    · rw [if_neg digit, if_neg digit, List.append_nil]
      rfl
  · rename_i other
    rw [fraction_eq_nil other, List.append_nil]
    rfl

theorem fraction_prefix (rest : List Char) : fraction rest <+: rest := by
  unfold fraction
  split
  · split
    · exact ⟨_, congrArg (['.', _] ++ ·) List.takeWhile_append_dropWhile⟩
    · exact List.nil_prefix
  · exact List.nil_prefix

theorem cut_string {value : List Char} (unquoted : '"' ∉ value) (rest : List Char) :
    cut '"' (value ++ '"' :: rest) =
      ⟨⟨.token .string (some (.text (String.ofList value))), '"' :: (value ++ ['"'])⟩, rest⟩ := by
  have all : ∀ d ∈ value, (d != '"') = true := fun d among => by
    simp only [bne_iff_ne]
    rintro rfl
    exact unquoted among
  have stops : ∀ d ∈ ('"' :: rest).head?, (d != '"') = false := by simp
  obtain ⟨taken, dropped⟩ := takeWhile_append_rest all stops
  change string (value ++ '"' :: rest) = _
  rw [string]
  simp only [taken, dropped]

theorem extensible_alone {c : Char} {alone withEqual : Kind} (other : ∀ c ∈ rest.head?, c ≠ '=') :
    extensible c alone withEqual rest = ⟨plain alone [c], rest⟩ := by
  unfold extensible
  split
  · exact absurd rfl (other '=' rfl)
  · rfl

theorem slash_alone (other : ∀ c ∈ rest.head?, c ≠ '/') : slash rest = ⟨plain .slash ['/'], rest⟩ := by
  unfold slash
  split
  · exact absurd rfl (other '/' rfl)
  · rfl

theorem cut_sign {kind : Kind} {text : String} (spelled : kind.sign? = some text) (separate : Separate rest) :
    ∃ c cs, text.toList = c :: cs ∧ cut c (cs ++ rest) = ⟨⟨.token kind none, c :: cs⟩, rest⟩ := by
  cases kind <;> cases spelled
  case bang => exact ⟨'!', [], rfl, extensible_alone separate.equal⟩
  case equal => exact ⟨'=', [], rfl, extensible_alone separate.equal⟩
  case greater => exact ⟨'>', [], rfl, extensible_alone separate.equal⟩
  case less => exact ⟨'<', [], rfl, extensible_alone separate.equal⟩
  case slash => exact ⟨'/', [], rfl, slash_alone separate.slash⟩
  all_goals exact ⟨_, _, rfl, rfl⟩

theorem keyword_isWord (word : Keyword) :
    ∃ c cs, word.spelling.toList = c :: cs ∧ isWordStart c = true ∧ ∀ d ∈ cs, isWordRest d = true := by
  cases word <;> exact ⟨_, _, rfl, by decide, List.all_eq_true.mp (by decide)⟩

theorem cut_written_append {kind : Kind} {literal : Option Literal} {text : List Char}
    (written : Kind.Written kind literal text) (separate : Separate rest) :
    ∃ c cs, text = c :: cs ∧ cut c (cs ++ rest) = ⟨⟨.token kind literal, c :: cs⟩, rest⟩ := by
  cases written with
  | sign spelled => exact cut_sign spelled separate
  | keyword word =>
    obtain ⟨c, cs, spelling, start, all⟩ := keyword_isWord word
    have found := word.ofSpelling?_spelling
    rw [← String.ofList_toList (s := word.spelling), spelling] at found
    exact ⟨c, cs, spelling, (cut_wordStart start _).trans (word_append_rest all found separate.word)⟩
  | name named =>
    obtain ⟨⟨c, cs, rfl, start, all⟩, free⟩ := named
    exact ⟨c, cs, rfl, (cut_wordStart start _).trans (word_append_rest all free separate.word)⟩
  | whole number =>
    cases text with
    | nil => exact absurd rfl number.1
    | cons c cs =>
      obtain ⟨first, others⟩ := List.forall_mem_cons.mp number.2
      exact ⟨c, cs, rfl, (cut_digit first _).trans (number_whole others separate.digit separate.point)⟩
  | @decimal digits fraction number point =>
    cases digits with
    | nil => exact absurd rfl number.1
    | cons c cs =>
      cases fraction with
      | nil => exact absurd rfl point.1
      | cons d ds =>
        obtain ⟨first, others⟩ := List.forall_mem_cons.mp number.2
        obtain ⟨second, more⟩ := List.forall_mem_cons.mp point.2
        refine ⟨c, cs ++ '.' :: d :: ds, rfl, ?_⟩
        rw [cut_digit first, List.append_assoc]
        exact number_decimal others second more separate.digit
  | @string value unquoted => exact ⟨'"', value ++ ['"'], rfl, by simpa using cut_string unquoted rest⟩

structure Stray (c : Char) : Prop where
  blank : ¬ isBlank c = true
  wordStart : ¬ isWordStart c = true
  digit : ¬ c.isDigit = true
  quote : c ≠ '"'
  slash : c ≠ '/'
  signBeforeEqual : signBeforeEqual? c = none
  sign : sign? c = none

theorem Stray.cut {c : Char} (stray : Stray c) (cs : List Char) :
    Lexer.cut c cs = ⟨⟨.fault (.unexpected c), [c]⟩, cs⟩ := by
  rw [Lexer.cut, if_neg stray.blank, if_neg stray.wordStart, if_neg stray.digit, if_neg stray.quote, if_neg stray.slash,
    stray.signBeforeEqual, stray.sign]

theorem string_unclosed {cs : List Char} (unclosed : '"' ∉ cs) :
    string cs = ⟨⟨.fault .unterminatedString, '"' :: cs⟩, []⟩ := by
  have all : ∀ d ∈ cs, (d != '"') = true := fun d among => by
    simp only [bne_iff_ne]
    rintro rfl
    exact unclosed among
  have none : (cs ++ []).dropWhile (· != '"') = [] := (takeWhile_append_rest all (by simp)).2
  rw [List.append_nil] at none
  rw [string]
  simp only [none]

/-- What is cut off, by the first character. -/
inductive Cuts : Char → List Char → Cut → Prop where
  | blank {c : Char} {cs : List Char} (white : isBlank c = true) : Cuts c cs ⟨⟨.skipped, [c]⟩, cs⟩
  | word {c : Char} {cs : List Char} (start : isWordStart c = true) : Cuts c cs (word c cs)
  | number {c : Char} {cs : List Char} (digit : c.isDigit = true) : Cuts c cs (number c cs)
  | string {cs : List Char} : Cuts '"' cs (string cs)
  | slash {cs : List Char} : Cuts '/' cs (slash cs)
  | extensible {c : Char} {cs : List Char} {alone withEqual : Kind} (pair : signBeforeEqual? c = some (alone, withEqual)) :
    Cuts c cs (extensible c alone withEqual cs)
  | sign {c : Char} {cs : List Char} {kind : Kind} (sign : sign? c = some kind) : Cuts c cs ⟨plain kind [c], cs⟩
  | stray {c : Char} {cs : List Char} (stray : Stray c) : Cuts c cs ⟨⟨.fault (.unexpected c), [c]⟩, cs⟩

theorem cuts (c : Char) (cs : List Char) : Cuts c cs (cut c cs) := by
  unfold cut
  by_cases blank : isBlank c = true
  · rw [if_pos blank]
    exact .blank blank
  rw [if_neg blank]
  by_cases start : isWordStart c = true
  · rw [if_pos start]
    exact .word start
  rw [if_neg start]
  by_cases digit : c.isDigit = true
  · rw [if_pos digit]
    exact .number digit
  rw [if_neg digit]
  by_cases quote : c = '"'
  · subst quote
    exact .string
  rw [if_neg quote]
  by_cases slash : c = '/'
  · subst slash
    exact .slash
  rw [if_neg slash]
  cases pair : signBeforeEqual? c with
  | some kinds => exact .extensible pair
  | none =>
    cases sign : sign? c with
    | some kind => exact .sign sign
    | none => exact .stray ⟨blank, start, digit, quote, slash, pair, sign⟩

theorem cut_fault {c : Char} {cs : List Char} {fault : LexicalFault} (reading : (cut c cs).piece.reading = .fault fault) :
    (Stray c ∧ fault = .unexpected c) ∨ (c = '"' ∧ '"' ∉ cs ∧ fault = .unterminatedString) := by
  have form := cuts c cs
  generalize cut c cs = cut at form reading
  cases form with
  | blank | word | sign => cases reading
  | number =>
    rw [number_piece] at reading
    cases reading
  | string =>
    unfold string at reading
    split at reading
    · rename_i unclosed
      cases reading
      have all := List.takeWhile_append_dropWhile (p := (· != '"')) (l := cs)
      rw [unclosed, List.append_nil] at all
      refine .inr ⟨rfl, fun among => ?_, rfl⟩
      rw [← all] at among
      exact absurd (List.all_eq_true.mp List.all_takeWhile _ among) (by decide)
    · cases reading
  | slash =>
    unfold slash at reading
    split at reading <;> cases reading
  | extensible =>
    unfold extensible at reading
    split at reading <;> cases reading
  | stray stray =>
    cases reading
    exact .inl ⟨stray, rfl⟩

theorem Lexes.written {kind : Kind} {literal : Option Literal} {text : List Char} {ts : List Token}
    (written : Kind.Written kind literal text) (separate : Separate rest) (others : Lexes rest ts) :
    Lexes (text ++ rest) (⟨kind, String.ofList text, literal, 0⟩ :: ts) := by
  obtain ⟨c, cs, rfl, first⟩ := cut_written_append written separate
  exact .token first others

theorem Lexes.bang {ts : List Token} (other : ∀ c ∈ rest.head?, c ≠ '=') (others : Lexes rest ts) :
    Lexes ('!' :: rest) (⟨.bang, "!", none, 0⟩ :: ts) :=
  .token (extensible_alone other) others

theorem Lexes.blanks {ts : List Token} (count : Nat) (others : Lexes rest ts) :
    Lexes (List.replicate count ' ' ++ rest) ts := by
  induction count with
  | zero => exact others
  | succ count ih => exact .blank (by decide) ih

theorem withLines_clean {line : Nat} {ps : List Piece} (clean : ∀ piece ∈ ps, ∀ fault, piece.reading ≠ .fault fault) :
    ∃ tokens stop, withLines line ps = (tokens ++ [stop]).map Lexed.token ∧
      tokens.map Token.bare = ps.filterMap Piece.token? ∧ stop.kind = .eof ∧
      ∀ more, withLines line (ps ++ more) = tokens.map Lexed.token ++ withLines stop.line more := by
  induction ps generalizing line with
  | nil => exact ⟨[], _, rfl, rfl, rfl, fun _ => rfl⟩
  | cons piece rest ih =>
    obtain ⟨tokens, stop, lines, same, ended, further⟩ :=
      @ih (line + piece.text.count '\n') fun other among => clean other (List.mem_cons_of_mem _ among)
    obtain ⟨reading, text⟩ := piece
    cases reading with
    | token kind literal =>
      refine ⟨⟨kind, String.ofList text, literal, line + text.count '\n'⟩ :: tokens, stop, ?_, ?_, ended, fun more => ?_⟩
      · rw [withLines]
        simp only [lines, List.cons_append, List.map_cons]
      · rw [List.map_cons, same, List.filterMap_cons]
        rfl
      · rw [List.cons_append, withLines]
        simp only [further, List.map_cons, List.cons_append]
    | skipped =>
      refine ⟨tokens, stop, ?_, ?_, ended, further⟩
      · rw [withLines]
        exact lines
      · rw [same, List.filterMap_cons]
        rfl
    | fault fault => exact absurd rfl (clean _ List.mem_cons_self fault)

theorem withLines_ended {line : Nat} {ps : List Piece} (written : ∀ piece ∈ ps, piece.IsWritten) :
    ∃ items, withLines line ps = items ++ [.token ⟨.eof, "", none, line + (ps.map Piece.text).flatten.count '\n'⟩] ∧
      ∀ t, Lexed.token t ∈ items → t.kind ≠ .eof := by
  induction ps generalizing line with
  | nil => exact ⟨[], rfl, nofun⟩
  | cons piece rest ih =>
    rw [List.forall_mem_cons] at written
    obtain ⟨items, lines, others⟩ := @ih (line + piece.text.count '\n') written.2
    rw [List.map_cons, List.flatten_cons, List.count_append, ← Nat.add_assoc, withLines]
    cases reading : piece.reading with
    | token kind literal =>
      refine ⟨_ :: items, congrArg _ lines, fun t among => ?_⟩
      rcases List.mem_cons.mp among with same | among
      · cases same
        exact (written.1 kind literal reading).ne_eof
      · exact others t among
    | skipped => exact ⟨items, lines, others⟩
    | fault fault =>
      refine ⟨_ :: items, congrArg _ lines, fun t among => ?_⟩
      rcases List.mem_cons.mp among with same | among
      · cases same
      · exact others t among

theorem scan_ended (source : String) :
    ∃ items, scan source = items ++ [.token ⟨.eof, "", none, 1 + source.toList.count '\n'⟩] ∧
      ∀ t, Lexed.token t ∈ items → t.kind ≠ .eof := by
  have ended := @withLines_ended 1 _ (pieces_written source.toList)
  rw [flatten_pieces] at ended
  exact ended

theorem clean_pieces {line : Nat} {ps : List Piece} (clean : ∀ line' fault, Lexed.fault line' fault ∉ withLines line ps) :
    ∀ piece ∈ ps, ∀ fault, piece.reading ≠ .fault fault := by
  induction ps generalizing line with
  | nil => exact nofun
  | cons piece rest ih =>
    rw [withLines] at clean
    cases reading : piece.reading with
    | token kind literal =>
      simp only [reading, List.mem_cons, not_or] at clean
      exact List.forall_mem_cons.mpr ⟨by simp [reading], ih fun line' fault => (clean line' fault).2⟩
    | skipped =>
      simp only [reading] at clean
      exact List.forall_mem_cons.mpr ⟨by simp [reading], ih clean⟩
    | fault fault =>
      simp only [reading, List.mem_cons, not_or] at clean
      exact absurd rfl (clean line fault).1

theorem Lexes.scan {source : String} {ts : List Token} (lexes : Lexes source.toList ts) :
    ∃ tokens stop, scan source = (tokens ++ [stop]).map Lexed.token ∧ tokens.map Token.bare = ts ∧ stop.kind = .eof := by
  obtain ⟨tokens, stop, lines, same, ended, -⟩ := withLines_clean lexes.clean
  exact ⟨tokens, stop, lines, same.trans lexes.tokens, ended⟩

theorem Lexes.ne_eof {text : List Char} {ts : List Token} (lexes : Lexes text ts) : ∀ token ∈ ts, token.kind ≠ .eof := by
  intro token among
  rw [← lexes.tokens] at among
  obtain ⟨piece, cut, found⟩ := List.mem_filterMap.mp among
  have written := pieces_written text piece cut
  unfold Piece.token? at found
  split at found
  · rename_i kind literal reading
    cases found
    exact (written kind literal reading).ne_eof
  · cases found

end Lexer
end Lox
