import Lox.Proofs.Token.Lexing
import Lox.Proofs.Tree.Renaming

namespace Lox.Lexer

def Near (c? c?' : Option Char) : Prop :=
  c?' = c? ∨ ∃ c c', c? = some c ∧ c?' = some c' ∧ isWordStart c = true ∧ isWordStart c' = true

/-- Texts that cannot be told apart by what begins them; behind a point the next character counts, too. -/
structure Ahead (rest rest' : List Char) : Prop where
  first : Near rest.head? rest'.head?
  second : rest.head? = some '.' → Near rest.tail.head? rest'.tail.head?

theorem Near.stops {p : Char → Bool} {c? c?' : Option Char} (near : Near c? c?')
    (either : (∀ c, isWordStart c = true → p c = false) ∨ ∀ c, isWordStart c = true → p c = true)
    (stops : ∀ c ∈ c?, p c = false) : ∀ c ∈ c?', p c = false := by
  rcases near with rfl | ⟨c, c', rfl, rfl, start, start'⟩
  · exact stops
  · rintro d ⟨⟩
    rcases either with out | inside
    · exact out _ start'
    · have stopped := stops c rfl
      rw [inside c start] at stopped
      cases stopped

theorem isWordStart_isWordRest {c : Char} (start : isWordStart c = true) : isWordRest c = true := by
  simp only [isWordStart, Bool.or_eq_true] at start
  simp only [isWordRest, Char.isAlphanum, Bool.or_eq_true]
  rcases start with letter | underscore
  · exact .inl (.inl letter)
  · exact .inr underscore

namespace Ahead

variable {rest rest' : List Char}

theorem word (ahead : Ahead rest rest') (stops : ∀ c ∈ rest.head?, isWordRest c = false) :
    ∀ c ∈ rest'.head?, isWordRest c = false :=
  ahead.first.stops (.inr fun _ => isWordStart_isWordRest) stops

theorem digit (ahead : Ahead rest rest') (stops : ∀ c ∈ rest.head?, c.isDigit = false) :
    ∀ c ∈ rest'.head?, c.isDigit = false :=
  ahead.first.stops (.inl fun _ => isWordStart_not_digit) stops

theorem head?_eq {c : Char} (ahead : Ahead rest rest') (other : isWordStart c = false) :
    rest'.head? = some c ↔ rest.head? = some c := by
  rcases ahead.first with same | ⟨d, d', front, front', start, start'⟩
  · rw [same]
  · rw [front, front']
    constructor
    · rintro ⟨⟩
      rw [other] at start'
      cases start'
    · rintro ⟨⟩
      rw [other] at start
      cases start

theorem nil (ahead : Ahead [] rest') : rest' = [] := by
  rcases ahead.first with same | ⟨c, c', front, -⟩
  · exact List.head?_eq_none_iff.mp same
  · cases front

theorem point (ahead : Ahead rest rest') (stops : ∀ d tail, rest = '.' :: d :: tail → d.isDigit = false) :
    ∀ d tail, rest' = '.' :: d :: tail → d.isDigit = false := by
  rintro d tail rfl
  have front : rest.head? = some '.' := (ahead.head?_eq (by decide)).mp rfl
  have near := ahead.second front
  have stopped : ∀ c ∈ rest.tail.head?, c.isDigit = false := by
    intro c behind
    obtain ⟨others, rfl⟩ := List.head?_eq_some_iff.mp front
    obtain ⟨more, rfl⟩ := List.head?_eq_some_iff.mp behind
    exact stops c more rfl
  exact near.stops (.inl fun _ => isWordStart_not_digit) stopped d rfl

end Ahead
section

variable {c : Char} {cs rest' : List Char}

theorem stops_dropWhile (p : Char → Bool) (cs : List Char) : ∀ c ∈ (cs.dropWhile p).head?, p c = false := by
  have stopped := List.head?_dropWhile_not p cs
  intro c front
  rw [Option.mem_def] at front
  rw [front] at stopped
  exact stopped

theorem all_takeWhile (p : Char → Bool) (cs : List Char) : ∀ c ∈ cs.takeWhile p, p c = true :=
  List.all_eq_true.mp List.all_takeWhile

theorem word_local (ahead : Ahead (word c cs).rest rest') :
    ∃ tail, (word c cs).piece.text = c :: tail ∧ word c (tail ++ rest') = ⟨(word c cs).piece, rest'⟩ := by
  have stops := ahead.word (stops_dropWhile isWordRest cs)
  obtain ⟨taken, dropped⟩ := takeWhile_append_rest (all_takeWhile isWordRest cs) stops
  refine ⟨cs.takeWhile isWordRest, rfl, ?_⟩
  simp only [word, taken, dropped]

theorem number_local (ahead : Ahead (number c cs).rest rest') :
    ∃ tail, (number c cs).piece.text = c :: tail ∧ number c (tail ++ rest') = ⟨(number c cs).piece, rest'⟩ := by
  have split := List.takeWhile_append_dropWhile (p := Char.isDigit) (l := cs)
  have digits := all_takeWhile Char.isDigit cs
  have stops := stops_dropWhile Char.isDigit cs
  generalize cs.takeWhile Char.isDigit = whole at split digits
  generalize cs.dropWhile Char.isDigit = behind at split stops
  subst split
  by_cases point : ∃ d others, behind = '.' :: d :: others ∧ d.isDigit = true
  · obtain ⟨d, others, rfl, digit⟩ := point
    have split := List.takeWhile_append_dropWhile (p := Char.isDigit) (l := others)
    have fraction := all_takeWhile Char.isDigit others
    have ends := stops_dropWhile Char.isDigit others
    generalize others.takeWhile Char.isDigit = ds at split fraction
    generalize others.dropWhile Char.isDigit = rest at split ends
    subst split
    rw [number_decimal digits digit fraction ends] at ahead ⊢
    refine ⟨whole ++ '.' :: d :: ds, rfl, ?_⟩
    rw [List.append_assoc]
    exact number_decimal digits digit fraction (ahead.digit ends)
  · have point : ∀ d tail, behind = '.' :: d :: tail → d.isDigit = false := fun d tail same =>
      Bool.eq_false_iff.mpr fun digit => point ⟨d, tail, same, digit⟩
    rw [number_whole digits stops point] at ahead ⊢
    exact ⟨whole, rfl, number_whole digits (ahead.digit stops) (ahead.point point)⟩

theorem string_local (ahead : Ahead (string cs).rest rest') :
    ∃ tail, (string cs).piece.text = '"' :: tail ∧ string (tail ++ rest') = ⟨(string cs).piece, rest'⟩ := by
  have unquoted := all_takeWhile (· != '"') cs
  have stopped := stops_dropWhile (· != '"') cs
  unfold string at ahead ⊢
  cases closing : cs.dropWhile (· != '"') with
  | nil =>
    rw [closing] at ahead
    refine ⟨cs, rfl, ?_⟩
    rw [ahead.nil, List.append_nil, closing]
  | cons quote others =>
    rw [closing] at ahead stopped
    have stops : ∀ d ∈ (quote :: rest').head?, (d != '"') = false := stopped
    obtain ⟨taken, dropped⟩ := takeWhile_append_rest unquoted stops
    refine ⟨cs.takeWhile (· != '"') ++ [quote], rfl, ?_⟩
    rw [List.append_assoc, List.singleton_append, taken, dropped]

theorem slash_local (ahead : Ahead (slash cs).rest rest') :
    ∃ tail, (slash cs).piece.text = '/' :: tail ∧ slash (tail ++ rest') = ⟨(slash cs).piece, rest'⟩ := by
  by_cases front : cs.head? = some '/'
  · obtain ⟨others, rfl⟩ := List.head?_eq_some_iff.mp front
    have inside : ∀ d, isWordStart d = true → (d != '\n') = true := by
      intro d start
      rw [bne_iff_ne]
      rintro rfl
      cases start
    have stops := ahead.first.stops (.inr inside) (stops_dropWhile (· != '\n') others)
    obtain ⟨taken, dropped⟩ := takeWhile_append_rest (all_takeWhile (· != '\n') others) stops
    refine ⟨'/' :: others.takeWhile (· != '\n'), rfl, ?_⟩
    simp only [slash, List.cons_append, taken, dropped]
  · have alone : slash cs = ⟨plain .slash ['/'], cs⟩ := slash_alone fun d here same => front (same ▸ here)
    rw [alone] at ahead ⊢
    refine ⟨[], rfl, slash_alone ?_⟩
    rintro d here rfl
    exact front ((ahead.head?_eq (by decide)).mp here)

theorem extensible_local {alone withEqual : Kind} (ahead : Ahead (extensible c alone withEqual cs).rest rest') :
    ∃ tail, (extensible c alone withEqual cs).piece.text = c :: tail ∧
      extensible c alone withEqual (tail ++ rest') = ⟨(extensible c alone withEqual cs).piece, rest'⟩ := by
  by_cases front : cs.head? = some '='
  · obtain ⟨others, rfl⟩ := List.head?_eq_some_iff.mp front
    exact ⟨['='], rfl, rfl⟩
  · have single : extensible c alone withEqual cs = ⟨plain alone [c], cs⟩ :=
      extensible_alone fun d here same => front (same ▸ here)
    rw [single] at ahead ⊢
    refine ⟨[], rfl, extensible_alone ?_⟩
    rintro d here rfl
    exact front ((ahead.head?_eq (by decide)).mp here)

theorem cut_local (ahead : Ahead (cut c cs).rest rest') :
    ∃ tail, (cut c cs).piece.text = c :: tail ∧ cut c (tail ++ rest') = ⟨(cut c cs).piece, rest'⟩ := by
  unfold cut at ahead ⊢
  split
  · exact ⟨[], rfl, rfl⟩
  rename_i blank
  rw [if_neg blank] at ahead
  split
  · rename_i start
    rw [if_pos start] at ahead
    exact word_local ahead
  rename_i start
  rw [if_neg start] at ahead
  split
  · rename_i digit
    rw [if_pos digit] at ahead
    exact number_local ahead
  rename_i digit
  rw [if_neg digit] at ahead
  split
  · rename_i same
    subst same
    exact string_local ahead
  rename_i quote
  rw [if_neg quote] at ahead
  split
  · rename_i same
    subst same
    exact slash_local ahead
  rename_i slash
  rw [if_neg slash] at ahead
  cases sign : signBeforeEqual? c with
  | some kinds =>
    rw [sign] at ahead
    exact extensible_local ahead
  | none => cases sign? c <;> exact ⟨[], rfl, rfl⟩

end

/-- The same piece, or another name in the place of a name. -/
def Piece.Renames (piece piece' : Piece) : Prop :=
  piece' = piece ∨ (IsName piece.text ∧ piece.reading = .token .identifier none) ∧
    IsName piece'.text ∧ piece'.reading = .token .identifier none

def textOf (ps : List Piece) : List Char := (ps.map Piece.text).flatten

theorem textOf_cons (piece : Piece) (ps : List Piece) : textOf (piece :: ps) = piece.text ++ textOf ps := by
  simp [textOf]

theorem near_textOf {ps ps' : List Piece} (renamed : List.Forall₂ Piece.Renames ps ps')
    (filled : ∀ piece ∈ ps, piece.text ≠ []) : Near (textOf ps).head? (textOf ps').head? := by
  cases renamed with
  | nil => exact .inl rfl
  | @cons piece piece' _ _ here _ =>
    rw [textOf_cons, textOf_cons]
    rcases here with rfl | ⟨⟨⟨⟨c, cs, text, start, -⟩, -⟩, -⟩, ⟨⟨c', cs', text', start', -⟩, -⟩, -⟩
    · obtain ⟨c, cs, text⟩ := List.exists_cons_of_ne_nil (filled _ List.mem_cons_self)
      rw [text]
      exact .inl rfl
    · rw [text, text']
      exact .inr ⟨c, c', rfl, rfl, start, start'⟩

theorem ahead_textOf {ps ps' : List Piece} (renamed : List.Forall₂ Piece.Renames ps ps')
    (filled : ∀ piece ∈ ps, piece.text ≠ []) : Ahead (textOf ps) (textOf ps') := by
  refine ⟨near_textOf renamed filled, fun front => ?_⟩
  cases renamed with
  | nil => exact .inl rfl
  | @cons piece piece' _ _ here others =>
    obtain ⟨first, later⟩ := List.forall_mem_cons.mp filled
    rw [textOf_cons] at front ⊢
    rw [textOf_cons]
    rcases here with rfl | ⟨⟨⟨⟨c, cs, text, start, -⟩, -⟩, -⟩, -⟩
    · obtain ⟨c, cs, text⟩ := List.exists_cons_of_ne_nil first
      rw [text]
      cases cs with
      | nil => exact near_textOf others later
      | cons d ds => exact .inl rfl
    · rw [text] at front
      cases front
      cases start

theorem pieces_ne_nil (text : List Char) : ∀ piece ∈ pieces text, piece.text ≠ [] := by
  fun_induction pieces text with
  | case1 => exact List.forall_mem_nil _
  | case2 c cs ih => exact List.forall_mem_cons.mpr ⟨cut_text_ne_nil c cs, ih⟩

theorem pieces_renames {text : List Char} {ps' : List Piece} (renamed : List.Forall₂ Piece.Renames (pieces text) ps') :
    pieces (textOf ps') = ps' := by
  fun_induction pieces text generalizing ps' with
  | case1 =>
    cases renamed
    rw [textOf, List.map_nil, List.flatten_nil, pieces]
  | case2 c cs ih =>
    cases renamed with
    | @cons _ piece' _ ps' here others =>
      have ahead : Ahead (cut c cs).rest (textOf ps') := by
        have whole := ahead_textOf others (pieces_ne_nil _)
        rwa [textOf, flatten_pieces] at whole
      rw [textOf_cons]
      rcases here with rfl | ⟨⟨named, -⟩, ⟨⟨c', cs', text', start', all'⟩, free'⟩, reading'⟩
      · obtain ⟨tail, text, again⟩ := cut_local ahead
        rw [text, List.cons_append, pieces_cons, again, ih others]
      · have start : isWordStart c = true := by
          obtain ⟨d, ds, text, start, -⟩ := named.word
          have whole := cut_append c cs
          rw [text] at whole
          rw [← (List.cons.inj whole).1]
          exact start
        rw [cut_wordStart start] at ahead
        have stops := ahead.word (stops_dropWhile isWordRest cs)
        rw [text'] at free'
        rw [text', List.cons_append, pieces_cons, cut_wordStart start', word_append_rest all' free' stops, ih others]
        obtain ⟨reading, text⟩ := piece'
        cases text'
        cases reading'
        rfl

theorem count_newline {text : List Char} (named : IsName text) : text.count '\n' = 0 := by
  obtain ⟨c, cs, rfl, start, all⟩ := named.word
  rw [List.count_eq_zero, List.mem_cons]
  rintro (rfl | inside)
  · cases start
  · exact absurd (all _ inside) (by decide)

theorem written_identifier {literal : Option Literal} {text : List Char} (written : Kind.Written .identifier literal text) :
    IsName text ∧ literal = none := by
  cases written with
  | sign spelled => cases spelled
  | name named => exact ⟨named, rfl⟩

theorem withLines_relabels {ρ : Renaming} {line : Nat} {ps : List Piece} {tokens' : List Token}
    (written : ∀ piece ∈ ps, piece.IsWritten) (clean : ∀ piece ∈ ps, ∀ fault, piece.reading ≠ .fault fault)
    (changed : List.Forall₂ ρ.Relabels ((withLines line ps).filterMap Lexed.token?) tokens') :
    ∃ ps', List.Forall₂ Piece.Renames ps ps' ∧ withLines line ps' = tokens'.map .token := by
  induction ps generalizing line tokens' with
  | nil =>
    cases changed with
    | cons relabels others =>
      cases others
      rcases relabels with rfl | ⟨identifier, -⟩
      · exact ⟨[], .nil, rfl⟩
      · cases identifier
  | cons piece rest ih =>
    obtain ⟨first, others⟩ := List.forall_mem_cons.mp written
    obtain ⟨firstClean, othersClean⟩ := List.forall_mem_cons.mp clean
    obtain ⟨reading, text⟩ := piece
    cases reading with
    | token kind literal =>
      cases changed with
      | @cons _ t' _ ts' relabels behind =>
        obtain ⟨ps', renamed, lines⟩ := ih others othersClean behind
        rcases relabels with rfl | ⟨identifier, old, rfl⟩
        · refine ⟨⟨.token kind literal, text⟩ :: ps', .cons (.inl rfl) renamed, ?_⟩
          rw [withLines]
          simp only [lines, List.map_cons]
        · obtain rfl : kind = .identifier := identifier
          obtain ⟨named, rfl⟩ := written_identifier (first _ _ rfl)
          refine ⟨⟨.token .identifier none, ρ.new.toList⟩ :: ps', .cons (.inr ⟨⟨named, rfl⟩, ρ.renamed, rfl⟩) renamed, ?_⟩
          have same : line + ρ.new.toList.count '\n' = line + text.count '\n' := by
            rw [count_newline named, count_newline ρ.renamed]
          rw [withLines]
          simp only [same, lines, List.map_cons, String.ofList_toList]
    | skipped =>
      obtain ⟨ps', renamed, lines⟩ := ih others othersClean changed
      exact ⟨⟨.skipped, text⟩ :: ps', .cons (.inl rfl) renamed, lines⟩
    | fault fault => exact absurd rfl (firstClean fault)

end Lox.Lexer

namespace Lox

theorem scan_relabels {ρ : Renaming} {source : String} {tokens tokens' : List Token}
    (scanned : Lexer.scan source = tokens.map .token) (changed : List.Forall₂ ρ.Relabels tokens tokens') :
    ∃ source', Lexer.scan source' = tokens'.map .token := by
  have clean : ∀ line fault, Lexed.fault line fault ∉ Lexer.scan source := by
    rw [scanned]
    simp
  rw [← Lexer.filterMap_token? tokens, ← scanned] at changed
  obtain ⟨ps', renamed, lines⟩ := Lexer.withLines_relabels (Lexer.pieces_written _) (Lexer.clean_pieces clean) changed
  refine ⟨String.ofList (Lexer.textOf ps'), ?_⟩
  rw [Lexer.scan, String.toList_ofList, Lexer.pieces_renames renamed]
  exact lines

end Lox
