import Lox.Token.Lexer

namespace Lox

def Kind.sign? : Kind → Option String
  | .leftParen => some "("
  | .rightParen => some ")"
  | .leftBrace => some "\x7b"
  | .rightBrace => some "\x7d"
  | .comma => some ","
  | .dot => some "."
  | .minus => some "-"
  | .plus => some "+"
  | .semicolon => some ";"
  | .slash => some "/"
  | .star => some "*"
  | .bang => some "!"
  | .bangEqual => some "!="
  | .equal => some "="
  | .equalEqual => some "=="
  | .greater => some ">"
  | .greaterEqual => some ">="
  | .less => some "<"
  | .lessEqual => some "<="
  | _ => none

/-- The text of a name: a word that is no keyword. -/
structure IsName (text : List Char) : Prop where
  word : ∃ c cs, text = c :: cs ∧ Lexer.isWordStart c = true ∧ ∀ d ∈ cs, Lexer.isWordRest d = true
  free : Keyword.ofSpelling? (String.ofList text) = none

def IsDigits (text : List Char) : Prop := text ≠ [] ∧ ∀ d ∈ text, d.isDigit = true

/-- The texts of a token, with its kind and its value. -/
inductive Kind.Written : Kind → Option Literal → List Char → Prop where
  | sign {kind : Kind} {text : String} (spelled : kind.sign? = some text) : Kind.Written kind none text.toList
  | keyword (word : Keyword) : Kind.Written (.keyword word) none word.spelling.toList
  | name {text : List Char} (named : IsName text) : Kind.Written .identifier none text
  | whole {digits : List Char} (number : IsDigits digits) :
      Kind.Written .number (some (.number (.ofDigits digits []))) digits
  | decimal {digits fraction : List Char} (number : IsDigits digits) (point : IsDigits fraction) :
      Kind.Written .number (some (.number (.ofDigits digits fraction))) (digits ++ '.' :: fraction)
  | string {value : List Char} (unquoted : '"' ∉ value) :
      Kind.Written .string (some (.text (String.ofList value))) ('"' :: (value ++ ['"']))

def Token.Genuine (t : Token) : Prop := Kind.Written t.kind t.literal t.lexeme.toList

theorem Keyword.spelling_of_ofSpelling? {text : String} {word : Keyword} (found : ofSpelling? text = some word) :
    word.spelling = text := by
  have spelled := List.find?_some found
  exact eq_of_beq spelled

theorem Keyword.ofSpelling?_spelling (word : Keyword) : ofSpelling? word.spelling = some word := by
  cases word <;> decide

namespace Lexer

def Piece.IsWritten (piece : Piece) : Prop :=
  ∀ kind literal, piece.reading = .token kind literal → Kind.Written kind literal piece.text

theorem digits_cons {c : Char} (digit : c.isDigit = true) (cs : List Char) :
    IsDigits (c :: cs.takeWhile Char.isDigit) := by
  refine ⟨List.cons_ne_nil _ _, fun d member => ?_⟩
  rcases List.mem_cons.mp member with rfl | rest
  · exact digit
  · exact List.all_eq_true.mp List.all_takeWhile d rest

theorem word_written {c : Char} (start : isWordStart c = true) (cs : List Char) :
    (word c cs).piece.IsWritten := by
  intro kind literal reading
  unfold word at reading ⊢
  dsimp only [plain] at reading ⊢
  cases reserved : Keyword.ofSpelling? (String.ofList (c :: cs.takeWhile isWordRest)) with
  | some keyword =>
    rw [reserved] at reading
    cases reading
    have spelled := Keyword.spelling_of_ofSpelling? reserved
    have text : c :: cs.takeWhile isWordRest = keyword.spelling.toList := by rw [spelled, String.toList_ofList]
    rw [text]
    exact .keyword keyword
  | none =>
    rw [reserved] at reading
    cases reading
    exact .name ⟨⟨c, _, rfl, start, List.all_eq_true.mp List.all_takeWhile⟩, reserved⟩

theorem number_written {c : Char} (digit : c.isDigit = true) (cs : List Char) :
    (number c cs).piece.IsWritten := by
  have whole := digits_cons digit cs
  unfold number
  split
  · rename_i d rest point
    split
    · rename_i fraction
      intro kind literal reading
      cases reading
      exact .decimal whole (digits_cons fraction rest)
    · intro kind literal reading
      cases reading
      exact .whole whole
  · intro kind literal reading
    cases reading
    exact .whole whole

theorem string_written (cs : List Char) : (string cs).piece.IsWritten := by
  intro kind literal reading
  unfold string at reading ⊢
  have unquoted : '"' ∉ cs.takeWhile (· != '"') := by
    intro member
    have other := List.all_eq_true.mp List.all_takeWhile _ member
    simp at other
  split at reading
  · cases reading
  · rename_i quote rest closing
    cases reading
    have quoted : quote = '"' := by
      have stopped := List.head?_dropWhile_not (· != '"') cs
      rw [closing] at stopped
      simpa using stopped
    rw [quoted]
    exact .string unquoted

theorem plain_written {kind : Kind} {text : List Char} (spelled : kind.sign? = some (String.ofList text)) :
    (plain kind text).IsWritten := by
  intro kind' literal reading
  cases reading
  have written := Kind.Written.sign spelled
  rw [String.toList_ofList] at written
  exact written

theorem slash_written (cs : List Char) : (slash cs).piece.IsWritten := by
  unfold slash
  split
  · intro kind literal reading
    cases reading
  · exact plain_written rfl

theorem extensible_written {c : Char} {alone withEqual : Kind}
    (sign : signBeforeEqual? c = some (alone, withEqual)) (cs : List Char) :
    (extensible c alone withEqual cs).piece.IsWritten := by
  have spelled : alone.sign? = some (String.ofList [c]) ∧ withEqual.sign? = some (String.ofList [c, '=']) := by
    unfold signBeforeEqual? at sign
    split at sign <;> cases sign <;> decide
  unfold extensible
  split
  · exact plain_written spelled.2
  · exact plain_written spelled.1

theorem sign_written {c : Char} {kind : Kind} (sign : sign? c = some kind) : (plain kind [c]).IsWritten := by
  have spelled : kind.sign? = some (String.ofList [c]) := by
    unfold sign? at sign
    split at sign <;> cases sign <;> decide
  exact plain_written spelled

theorem cut_written (c : Char) (cs : List Char) : (cut c cs).piece.IsWritten := by
  unfold cut
  split
  · intro kind literal reading
    cases reading
  split
  · rename_i start
    exact word_written start cs
  split
  · rename_i digit
    exact number_written digit cs
  split
  · exact string_written cs
  split
  · exact slash_written cs
  split
  · rename_i sign
    exact extensible_written sign cs
  split
  · rename_i sign
    exact sign_written sign
  · intro kind literal reading
    cases reading

theorem pieces_written (text : List Char) : ∀ piece ∈ pieces text, piece.IsWritten := by
  fun_induction pieces text with
  | case1 => simp
  | case2 c cs ih =>
    intro piece member
    rcases List.mem_cons.mp member with rfl | rest
    · exact cut_written c cs
    · exact ih piece rest

theorem withLines_written {line : Nat} {pieces : List Piece} (written : ∀ piece ∈ pieces, piece.IsWritten) {t : Token}
    (member : Lexed.token t ∈ withLines line pieces) : t.kind = .eof ∨ t.Genuine := by
  induction pieces generalizing line with
  | nil =>
    left
    simp only [withLines, List.mem_singleton, Lexed.token.injEq] at member
    rw [member]
  | cons piece rest ih =>
    have first := written piece (List.mem_cons_self ..)
    have others := @ih (line + piece.text.count '\n') fun piece member =>
      written piece (List.mem_cons_of_mem _ member)
    rw [withLines] at member
    split at member
    · rename_i kind literal reading
      rcases List.mem_cons.mp member with same | later
      · right
        cases same
        simpa [Token.Genuine] using first kind literal reading
      · exact others later
    · exact others member
    · rcases List.mem_cons.mp member with same | later
      · cases same
      · exact others later

end Lexer

theorem Lexer.filterMap_token? (tokens : List Token) : (tokens.map Lexed.token).filterMap Lexed.token? = tokens := by
  rw [List.filterMap_map]
  exact List.filterMap_some

theorem scan_written {source : String} {t : Token} (member : t ∈ (Lexer.scan source).filterMap Lexed.token?) :
    t.kind = .eof ∨ t.Genuine := by
  obtain ⟨lexed, found, same⟩ := List.mem_filterMap.mp member
  cases lexed with
  | fault line fault => cases same
  | token t' =>
    cases same
    exact Lexer.withLines_written (Lexer.pieces_written _) found

namespace Token.Genuine

variable {t : Token}

theorem lexeme_keyword {word : Keyword} (genuine : t.Genuine) (kind : t.kind = .keyword word) :
    t.lexeme = word.spelling := by
  unfold Token.Genuine at genuine
  rw [kind] at genuine
  generalize t.literal = literal, written : t.lexeme.toList = text at genuine
  cases genuine with
  | sign spelled => cases spelled
  | keyword => exact String.toList_inj.mp written

theorem isName (genuine : t.Genuine) (kind : t.kind = .identifier) : IsName t.lexeme.toList := by
  unfold Token.Genuine at genuine
  rw [kind] at genuine
  generalize t.literal = literal, t.lexeme.toList = text at genuine ⊢
  cases genuine with
  | sign spelled => cases spelled
  | name named => exact named

theorem lexeme_ne_spelling (genuine : t.Genuine) (kind : t.kind = .identifier) (word : Keyword) :
    t.lexeme ≠ word.spelling := by
  intro same
  have free := (genuine.isName kind).free
  rw [String.ofList_toList, same, word.ofSpelling?_spelling] at free
  cases free

end Token.Genuine
end Lox
