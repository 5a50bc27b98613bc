import Lox.Proofs.Token.Scanning

namespace Lox
namespace Lexer

/-- A text of the grammar, and what it stands for. -/
inductive Matches : Reading → List Char → Prop where
  | token {kind : Kind} {literal : Option Literal} {text : List Char} (written : Kind.Written kind literal text) :
    Matches (.token kind literal) text
  | comment {text : List Char} (inLine : '\n' ∉ text) : Matches .skipped ('/' :: '/' :: text)
  | blank {c : Char} (white : c ∈ [' ', '\r', '\t', '\n']) : Matches .skipped [c]

structure Longest (reading : Reading) (lexeme rest : List Char) : Prop where
  matched : Matches reading lexeme
  longest : ∀ reading' lexeme', Matches reading' lexeme' → lexeme' <+: lexeme ++ rest → lexeme'.length ≤ lexeme.length

def Unmatched (text : List Char) : Prop := ∀ reading lexeme, Matches reading lexeme → ¬ lexeme <+: text

inductive Item where
  | token (kind : Kind) (lexeme : String) (literal : Option Literal)
  | error (message : String)
deriving DecidableEq

/-- A text is taken apart from its beginning. -/
inductive Tokenizes : List Char → List Item → Prop where
  | ended : Tokenizes [] [.token .eof "" none]
  | token {kind : Kind} {literal : Option Literal} {lexeme rest : List Char} {items : List Item}
    (longest : Longest (.token kind literal) lexeme rest) (others : Tokenizes rest items) :
    Tokenizes (lexeme ++ rest) (.token kind (String.ofList lexeme) literal :: items)
  | skipped {lexeme rest : List Char} {items : List Item} (longest : Longest .skipped lexeme rest)
    (others : Tokenizes rest items) : Tokenizes (lexeme ++ rest) items
  | unterminated {rest : List Char} {items : List Item} (unmatched : Unmatched ('"' :: rest)) (others : Tokenizes [] items) :
    Tokenizes ('"' :: rest) (.error "Unterminated string." :: items)
  | unexpected {c : Char} {rest : List Char} {items : List Item} (unmatched : Unmatched (c :: rest)) (other : c ≠ '"')
    (others : Tokenizes rest items) :
    Tokenizes (c :: rest) (.error ("Unexpected character: " ++ String.singleton c) :: items)

theorem prefix_takeWhile {p : Char → Bool} {cs : List Char} (all : ∀ d ∈ cs, p d = true) (rest : List Char) :
    cs <+: (cs ++ rest).takeWhile p := by
  rw [List.takeWhile_append_of_pos all]
  exact List.prefix_append _ _

structure Cut.Takes (cut : Cut) (text : List Char) : Prop where
  clean : ∀ fault, cut.piece.reading ≠ .fault fault
  longer : text <+: cut.piece.text

theorem word_takes {c : Char} {cs : List Char} (start : isWordStart c = true) (all : ∀ d ∈ cs, isWordRest d = true)
    (rest : List Char) : (cut c (cs ++ rest)).Takes (c :: cs) := by
  rw [cut_wordStart start]
  exact ⟨nofun, (List.cons_prefix_cons).mpr ⟨rfl, prefix_takeWhile all rest⟩⟩

theorem number_takes {c : Char} {cs : List Char} (digit : c.isDigit = true) (digits : ∀ d ∈ cs, d.isDigit = true)
    (rest : List Char) : (cut c (cs ++ rest)).Takes (c :: cs) := by
  rw [cut_digit digit]
  refine ⟨?_, ?_⟩
  · rw [number_piece]
    exact nofun
  · rw [number_piece]
    exact List.cons_prefix_cons.mpr ⟨rfl, (prefix_takeWhile digits rest).trans (List.prefix_append _ _)⟩

theorem decimal_takes {c d : Char} {cs ds : List Char} (digit : c.isDigit = true) (digits : ∀ e ∈ cs, e.isDigit = true)
    (digit' : d.isDigit = true) (digits' : ∀ e ∈ ds, e.isDigit = true) (rest : List Char) :
    (cut c (cs ++ '.' :: d :: ds ++ rest)).Takes (c :: (cs ++ '.' :: d :: ds)) := by
  have point : ∀ e ∈ ('.' :: d :: (ds ++ rest)).head?, e.isDigit = false := by simp
  obtain ⟨taken, dropped⟩ := takeWhile_append_rest digits point
  rw [cut_digit digit]
  refine ⟨?_, ?_⟩
  · rw [number_piece]
    exact nofun
  · rw [number_piece]
    simp only [List.append_assoc, List.cons_append, taken, dropped, fraction, if_pos digit']
    have longer := (List.prefix_append_right_inj (c :: cs ++ ['.', d])).mpr (prefix_takeWhile digits' rest)
    simpa using longer

theorem extensible_takes (c : Char) (alone withEqual : Kind) (cs : List Char) :
    (extensible c alone withEqual cs).Takes [c] := by
  unfold extensible
  split
  · exact ⟨nofun, List.prefix_append [c] ['=']⟩
  · exact ⟨nofun, List.prefix_rfl⟩

theorem slash_takes (cs : List Char) : (slash cs).Takes ['/'] := by
  unfold slash
  split
  · exact ⟨nofun, List.prefix_append ['/'] _⟩
  · exact ⟨nofun, List.prefix_rfl⟩

theorem sign_takes {kind : Kind} {text : String} (spelled : kind.sign? = some text) (rest : List Char) :
    ∃ c cs, text.toList = c :: cs ∧ (cut c (cs ++ rest)).Takes (c :: cs) := by
  cases kind <;> cases spelled
  case bang => exact ⟨'!', [], rfl, extensible_takes ..⟩
  case equal => exact ⟨'=', [], rfl, extensible_takes ..⟩
  case greater => exact ⟨'>', [], rfl, extensible_takes ..⟩
  case less => exact ⟨'<', [], rfl, extensible_takes ..⟩
  case slash => exact ⟨'/', [], rfl, slash_takes _⟩
  all_goals exact ⟨_, _, rfl, nofun, List.prefix_rfl⟩

theorem written_takes {kind : Kind} {literal : Option Literal} {text : List Char} (written : Kind.Written kind literal text)
    (rest : List Char) : ∃ c cs, text = c :: cs ∧ (cut c (cs ++ rest)).Takes (c :: cs) := by
  cases written with
  | sign spelled => exact sign_takes spelled rest
  | keyword word =>
    obtain ⟨c, cs, spelling, start, all⟩ := keyword_isWord word
    exact ⟨c, cs, spelling, word_takes start all rest⟩
  | name named =>
    obtain ⟨⟨c, cs, rfl, start, all⟩, -⟩ := named
    exact ⟨c, cs, rfl, word_takes start all rest⟩
  | whole number =>
    cases text with
    | nil => exact absurd rfl number.1
    | cons c cs =>
      obtain ⟨first, others⟩ := List.forall_mem_cons.mp number.2
      exact ⟨c, cs, rfl, number_takes first others rest⟩
  | @decimal digits fraction number point =>
    cases digits with
    | nil => exact absurd rfl number.1
    | cons c cs =>
      cases fraction with
      | nil => exact absurd rfl point.1
      | cons d ds =>
        obtain ⟨first, others⟩ := List.forall_mem_cons.mp number.2
        obtain ⟨second, more⟩ := List.forall_mem_cons.mp point.2
        exact ⟨c, cs ++ '.' :: d :: ds, rfl, decimal_takes first others second more rest⟩
  | @string value unquoted =>
    refine ⟨'"', value ++ ['"'], rfl, ?_⟩
    rw [List.append_assoc, List.singleton_append, cut_string unquoted]
    exact ⟨nofun, List.prefix_rfl⟩

theorem isBlank_iff {c : Char} : isBlank c = true ↔ c ∈ [' ', '\r', '\t', '\n'] := by
  simp only [isBlank, Bool.or_eq_true, beq_iff_eq, List.mem_cons, List.not_mem_nil, or_false, or_assoc]

theorem Matches.takes {reading : Reading} {text : List Char} (matched : Matches reading text) (rest : List Char) :
    ∃ c cs, text = c :: cs ∧ (cut c (cs ++ rest)).Takes (c :: cs) := by
  cases matched with
  | token written => exact written_takes written rest
  | @comment text inLine =>
    have all : ∀ d ∈ text, (d != '\n') = true := fun d among => by
      simp only [bne_iff_ne]
      rintro rfl
      exact inLine among
    refine ⟨'/', '/' :: text, rfl, ?_⟩
    refine ⟨fun _ faulty => ?_, (List.prefix_append_right_inj ['/', '/']).mpr (prefix_takeWhile all rest)⟩
    cases faulty
  | @blank c white =>
    refine ⟨c, [], rfl, ?_⟩
    rw [cut, if_pos (isBlank_iff.mpr white)]
    exact ⟨by simp, List.prefix_rfl⟩

theorem Matches.reading_eq {reading : Reading} {text : List Char} (matched : Matches reading text) :
    ∃ c cs, text = c :: cs ∧ (cut c cs).piece.reading = reading := by
  cases matched with
  | token written =>
    have alone : Separate [] := ⟨by simp, by simp, by simp, nofun⟩
    obtain ⟨c, cs, rfl, first⟩ := cut_written_append written alone
    rw [List.append_nil] at first
    exact ⟨c, cs, rfl, by rw [first]⟩
  | @comment text inLine => exact ⟨'/', '/' :: text, rfl, rfl⟩
  | @blank c white =>
    refine ⟨c, [], rfl, ?_⟩
    rw [cut, if_pos (isBlank_iff.mpr white)]

theorem Matches.unique {reading reading' : Reading} {text : List Char} (matched : Matches reading text)
    (matched' : Matches reading' text) : reading = reading' := by
  obtain ⟨c, cs, rfl, rfl⟩ := matched.reading_eq
  obtain ⟨c', cs', same, rfl⟩ := matched'.reading_eq
  cases same
  rfl

theorem cut_skipped {c : Char} {cs : List Char} (reading : (cut c cs).piece.reading = .skipped) :
    Matches .skipped (cut c cs).piece.text := by
  have form := cuts c cs
  generalize cut c cs = cut at form reading
  cases form with
  | blank white => exact .blank (isBlank_iff.mp white)
  | word | sign | stray => cases reading
  | number =>
    rw [number_piece] at reading
    cases reading
  | string =>
    unfold string at reading
    split at reading <;> cases reading
  | slash =>
    unfold slash at reading ⊢
    split at reading
    · refine .comment fun among => ?_
      exact absurd (List.all_eq_true.mp List.all_takeWhile _ among) (by decide)
    · cases reading
  | extensible =>
    unfold extensible at reading
    split at reading <;> cases reading

theorem cut_matches {c : Char} {cs : List Char} (clean : ∀ fault, (cut c cs).piece.reading ≠ .fault fault) :
    Matches (cut c cs).piece.reading (cut c cs).piece.text := by
  cases reading : (cut c cs).piece.reading with
  | token kind literal => exact .token (cut_written c cs kind literal reading)
  | skipped => exact cut_skipped reading
  | fault fault => exact absurd reading (clean fault)

theorem Matches.le_cut {reading : Reading} {lexeme : List Char} {c : Char} {cs : List Char}
    (matched : Matches reading lexeme) (front : lexeme <+: c :: cs) : (cut c cs).Takes lexeme := by
  obtain ⟨rest, split⟩ := front
  obtain ⟨c', cs', rfl, takes⟩ := matched.takes rest
  cases split
  exact takes

theorem cut_longest {c : Char} {cs : List Char} (clean : ∀ fault, (cut c cs).piece.reading ≠ .fault fault) :
    Longest (cut c cs).piece.reading (cut c cs).piece.text (cut c cs).rest := by
  refine ⟨cut_matches clean, fun reading lexeme matched front => ?_⟩
  rw [cut_append] at front
  exact (matched.le_cut front).longer.length_le

theorem cut_unmatched {c : Char} {cs : List Char} {fault : LexicalFault} (faulty : (cut c cs).piece.reading = .fault fault) :
    Unmatched (c :: cs) :=
  fun _ _ matched front => (matched.le_cut front).clean fault faulty

theorem Longest.pieces_eq {reading : Reading} {lexeme rest : List Char} (longest : Longest reading lexeme rest) :
    pieces (lexeme ++ rest) = ⟨reading, lexeme⟩ :: pieces rest := by
  obtain ⟨c, cs, rfl, takes⟩ := longest.matched.takes rest
  have whole := cut_append c (cs ++ rest)
  have most := longest.longest _ _ (cut_matches takes.clean) ⟨_, whole⟩
  have same : c :: cs = (cut c (cs ++ rest)).piece.text := takes.longer.eq_of_length_le most
  have behind : (cut c (cs ++ rest)).rest = rest := by
    rw [← same] at whole
    exact List.append_cancel_left whole
  have matched := cut_matches takes.clean
  rw [← same] at matched
  have piece : (cut c (cs ++ rest)).piece = ⟨reading, c :: cs⟩ := by
    rw [longest.matched.unique matched, same]
  rw [List.cons_append, pieces_cons, piece, behind]

end Lexer

def Lexed.item : Lexed → Lexer.Item
  | .token t => .token t.kind t.lexeme t.literal
  | .fault _ cause => .error cause.message

namespace Lexer

theorem Unmatched.fault {c : Char} {rest : List Char} (unmatched : Unmatched (c :: rest)) :
    ∃ fault, (cut c rest).piece.reading = .fault fault := by
  apply Classical.byContradiction
  intro none
  exact unmatched _ _ (cut_matches fun fault reading => none ⟨fault, reading⟩) ⟨_, cut_append c rest⟩

theorem tokenizes_pieces (text : List Char) (line : Nat) :
    Tokenizes text ((withLines line (pieces text)).map Lexed.item) := by
  fun_induction pieces text generalizing line with
  | case1 => exact .ended
  | case2 c cs ih =>
    rw [withLines]
    have longest := @cut_longest c cs
    have others := ih (line + (cut c cs).piece.text.count '\n')
    cases reading : (cut c cs).piece.reading with
    | token kind literal =>
      rw [reading] at longest
      have taken := Tokenizes.token (longest (by simp)) others
      rw [cut_append] at taken
      exact taken
    | skipped =>
      rw [reading] at longest
      have taken := Tokenizes.skipped (longest (by simp)) others
      rw [cut_append] at taken
      exact taken
    | fault fault =>
      have unmatched := cut_unmatched reading
      rcases cut_fault reading with ⟨stray, rfl⟩ | ⟨rfl, unclosed, rfl⟩
      · rw [stray.cut] at others ⊢
        exact .unexpected unmatched stray.quote others
      · have whole : cut '"' cs = ⟨⟨.fault .unterminatedString, '"' :: cs⟩, []⟩ := string_unclosed unclosed
        rw [whole] at others ⊢
        exact .unterminated unmatched others

theorem Tokenizes.eq {text : List Char} {items : List Item} (tokenizes : Tokenizes text items) (line : Nat) :
    items = (withLines line (pieces text)).map Lexed.item := by
  induction tokenizes generalizing line with
  | ended =>
    rw [pieces]
    rfl
  | @token kind literal lexeme rest items longest others ih =>
    rw [longest.pieces_eq, withLines, ih]
    rfl
  | @skipped lexeme rest items longest others ih =>
    rw [longest.pieces_eq, withLines]
    exact ih _
  | @unterminated rest items unmatched others ih =>
    obtain ⟨fault, reading⟩ := unmatched.fault
    rcases cut_fault reading with ⟨stray, -⟩ | ⟨-, unclosed, -⟩
    · exact absurd rfl stray.quote
    · have whole : cut '"' rest = ⟨⟨.fault .unterminatedString, '"' :: rest⟩, []⟩ := string_unclosed unclosed
      rw [pieces_cons, whole, withLines, ih]
      rfl
  | @unexpected c rest items unmatched other others ih =>
    obtain ⟨fault, reading⟩ := unmatched.fault
    rcases cut_fault reading with ⟨stray, -⟩ | ⟨quote, -⟩
    · rw [pieces_cons, stray.cut, withLines, ih]
      rfl
    · exact absurd quote other

end Lexer

/-- Draining a scanner gives the one list of items that the text is tokenized into. -/
theorem Scanner.drained_by_longest_match (text : String) :
    ∃ drained last, (ofText text).drain? = some (drained, last) ∧ last.done = true ∧
      ∀ items, Lexer.Tokenizes text.toList items ↔ items = drained.map Lexed.item := by
  obtain ⟨last, drained, done⟩ := drain?_ofText text
  refine ⟨_, last, drained, done, fun items => ⟨fun tokenizes => tokenizes.eq 1, ?_⟩⟩
  rintro rfl
  exact Lexer.tokenizes_pieces text.toList 1

end Lox
