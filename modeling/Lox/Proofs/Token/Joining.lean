import Lox.Proofs.Token.Lexing

namespace Lox

def Token.below (lines : Nat) (t : Token) : Token := { t with line := t.line + lines }

def Lexed.below (lines : Nat) : Lexed → Lexed
  | .token t => .token (t.below lines)
  | .fault line why => .fault (line + lines) why

namespace Lexer

theorem takeWhile_newline {p : Char → Bool} (cs more : List Char) (stops : cs.dropWhile p ≠ [] ∨ p '\n' = false) :
    (cs ++ '\n' :: more).takeWhile p = cs.takeWhile p ∧
      (cs ++ '\n' :: more).dropWhile p = cs.dropWhile p ++ '\n' :: more := by
  induction cs with
  | nil => simp [stops.resolve_left (absurd rfl)]
  | cons d ds ih =>
    rw [List.cons_append, List.takeWhile_cons, List.takeWhile_cons, List.dropWhile_cons, List.dropWhile_cons]
    rw [List.dropWhile_cons] at stops
    split
    · rename_i taken
      rw [if_pos taken] at stops
      exact ⟨congrArg (d :: ·) (ih stops).1, (ih stops).2⟩
    · exact ⟨rfl, rfl⟩

section

variable {c : Char} {cs : List Char} (more : List Char)

theorem word_newline : word c (cs ++ '\n' :: more) = ⟨(word c cs).piece, (word c cs).rest ++ '\n' :: more⟩ := by
  obtain ⟨taken, dropped⟩ := takeWhile_newline (p := isWordRest) cs more (.inr (by decide))
  simp only [word, taken, dropped]

theorem number_newline :
    number c (cs ++ '\n' :: more) = ⟨(number c cs).piece, (number c cs).rest ++ '\n' :: more⟩ := by
  obtain ⟨taken, dropped⟩ := takeWhile_newline (p := Char.isDigit) cs more (.inr (by decide))
  unfold number
  rw [taken, dropped]
  match cs.dropWhile Char.isDigit with
  | [] => rfl
  | [d] =>
    -- A point at the end of the line does not belong to the number.
    by_cases point : d = '.'
    · subst point
      rfl
    · simp [point]
  | d :: d' :: rest =>
    by_cases point : d = '.'
    · subst point
      obtain ⟨taken, dropped⟩ := takeWhile_newline (p := Char.isDigit) rest more (.inr (by decide))
      simp only [List.cons_append, taken, dropped]
      split <;> rfl
    · simp [point]

theorem string_newline (ended : cs.dropWhile (· != '"') ≠ []) :
    string (cs ++ '\n' :: more) = ⟨(string cs).piece, (string cs).rest ++ '\n' :: more⟩ := by
  obtain ⟨taken, dropped⟩ := takeWhile_newline cs more (.inl ended)
  unfold string
  rw [taken, dropped]
  obtain ⟨quote, rest, found⟩ := List.exists_cons_of_ne_nil ended
  rw [found]
  rfl

theorem slash_newline : slash (cs ++ '\n' :: more) = ⟨(slash cs).piece, (slash cs).rest ++ '\n' :: more⟩ := by
  match cs with
  | [] => rfl
  | d :: ds =>
    by_cases comment : d = '/'
    · subst comment
      obtain ⟨taken, dropped⟩ := takeWhile_newline (p := (· != '\n')) ds more (.inr (by decide))
      simp only [List.cons_append, slash, taken, dropped]
    · simp [slash, comment]

theorem extensible_newline {alone withEqual : Kind} :
    extensible c alone withEqual (cs ++ '\n' :: more) =
      ⟨(extensible c alone withEqual cs).piece, (extensible c alone withEqual cs).rest ++ '\n' :: more⟩ := by
  match cs with
  | [] => rfl
  | d :: ds =>
    by_cases equal : d = '='
    · subst equal
      rfl
    · simp [extensible, equal]

theorem cut_newline (ended : (cut c cs).piece.reading ≠ .fault .unterminatedString) :
    cut c (cs ++ '\n' :: more) = ⟨(cut c cs).piece, (cut c cs).rest ++ '\n' :: more⟩ := by
  unfold cut at ended ⊢
  split
  · rfl
  rename_i notBlank
  rw [if_neg notBlank] at ended
  split
  · exact word_newline more
  rename_i notWord
  rw [if_neg notWord] at ended
  split
  · exact number_newline more
  rename_i notDigit
  rw [if_neg notDigit] at ended
  split
  · rename_i quote
    rw [if_pos quote] at ended
    refine string_newline more fun none => ended ?_
    rw [string, none]
  split
  · exact slash_newline more
  split
  · exact extensible_newline more
  split <;> rfl

end

theorem pieces_newline {text : List Char} (clean : ∀ piece ∈ pieces text, ∀ fault, piece.reading ≠ .fault fault)
    (more : List Char) : pieces (text ++ '\n' :: more) = pieces text ++ ⟨.skipped, ['\n']⟩ :: pieces more := by
  fun_induction pieces text with
  | case1 => exact pieces.eq_2 '\n' more
  | case2 c cs ih =>
    rw [List.forall_mem_cons] at clean
    rw [List.cons_append, pieces, cut_newline more (clean.1 _), List.cons_append, ih clean.2]

theorem withLines_below (line lines : Nat) (ps : List Piece) :
    withLines (line + lines) ps = (withLines line ps).map (Lexed.below lines) := by
  induction ps generalizing line with
  | nil => rfl
  | cons piece rest ih =>
    rw [withLines, withLines, Nat.add_right_comm]
    split <;> simp only [ih, List.map_cons] <;> rfl

theorem scan_newline {first second : String} {tokens tokens' : List Token} (scanned : scan first = tokens.map .token)
    (scanned' : scan second = tokens'.map .token) :
    ∃ front stop, tokens = front ++ [stop] ∧ stop.kind = .eof ∧ (∀ token ∈ front, token.kind ≠ .eof) ∧
      scan (first ++ "\n" ++ second) = (front ++ tokens'.map (Token.below stop.line)).map .token := by
  have clean : ∀ piece ∈ pieces first.toList, ∀ fault, piece.reading ≠ .fault fault := by
    refine @clean_pieces 1 _ fun line fault => ?_
    rw [← scan, scanned]
    simp
  obtain ⟨front, stop, lines, same, ended, further⟩ := @withLines_clean 1 _ clean
  refine ⟨front, stop, ?_, ended, fun token among eof => ?_, ?_⟩
  · rw [← scan, scanned] at lines
    exact (List.map_inj_right fun _ _ => Lexed.token.inj).mp lines
  · have listed : token.bare ∈ (pieces first.toList).filterMap Piece.token? := same ▸ List.mem_map_of_mem among
    exact Lexes.ne_eof ⟨clean, rfl⟩ _ listed eof
  · have text : (first ++ "\n" ++ second).toList = first.toList ++ '\n' :: second.toList := by simp
    have start : withLines stop.line (⟨.skipped, ['\n']⟩ :: pieces second.toList) =
        (scan second).map (Lexed.below stop.line) := by
      rw [scan, ← withLines_below, Nat.add_comm 1]
      rfl
    rw [scan, text, pieces_newline clean, further, start, scanned', List.map_append, List.map_map, List.map_map]
    rfl

end Lexer
end Lox
