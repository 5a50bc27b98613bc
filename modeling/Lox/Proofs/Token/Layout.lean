import Mathlib
import Lox.Proofs.Grammar.Ladder
import Lox.Proofs.Token.Scanning

namespace Lox.Lexer

/-- Any run of blanks and of comments with the end of their line. -/
inductive Gap : List Char → Prop where
  | nil : Gap []
  | blank {c : Char} {rest : List Char} (white : c ∈ [' ', '\t', '\r', '\n']) (others : Gap rest) : Gap (c :: rest)
  | comment {remark rest : List Char} (oneLine : '\n' ∉ remark) (others : Gap rest) :
    Gap ('/' :: '/' :: (remark ++ '\n' :: rest))

/-- A blank, and then any run of blanks and comments. A comment alone does not separate: behind a slash it is none. -/
def Separator (text : List Char) : Prop := ∃ c rest, text = c :: rest ∧ c ∈ [' ', '\t', '\r', '\n'] ∧ Gap rest

/-- The tokens are written in order, with a separator behind each. -/
inductive Laid : List Token → List Char → Prop where
  | nil : Laid [] []
  | cons {t : Token} {ts : List Token} {separator text : List Char} (separates : Separator separator)
      (others : Laid ts text) :
    Laid (t :: ts) (t.lexeme.toList ++ (separator ++ text))

theorem isBlank_of_mem {c : Char} (white : c ∈ [' ', '\t', '\r', '\n']) : isBlank c = true := by
  simp only [List.mem_cons, List.not_mem_nil, or_false] at white
  rcases white with rfl | rfl | rfl | rfl <;> decide

variable {text rest : List Char} {ts : List Token}

theorem Lexes.comment {remark : List Char} (oneLine : '\n' ∉ remark) (others : Lexes rest ts) :
    Lexes ('/' :: '/' :: (remark ++ '\n' :: rest)) ts := by
  have all : ∀ d ∈ remark, (d != '\n') = true := by
    intro d among
    simp only [bne_iff_ne]
    rintro rfl
    exact oneLine among
  have stops : ∀ d ∈ ('\n' :: rest).head?, (d != '\n') = false := by simp
  obtain ⟨taken, dropped⟩ := takeWhile_append_rest all stops
  have first : cut '/' ('/' :: (remark ++ '\n' :: rest)) = ⟨⟨.skipped, '/' :: '/' :: remark⟩, '\n' :: rest⟩ := by
    change slash ('/' :: (remark ++ '\n' :: rest)) = _
    rw [slash, taken, dropped]
  -- The end of the line is not part of the comment: it is a blank behind it.
  exact .of_cut first (by simp) (.blank (by decide) others)

theorem Gap.lexes {gap : List Char} (skipped : Gap gap) (others : Lexes rest ts) : Lexes (gap ++ rest) ts := by
  induction skipped with
  | nil => exact others
  | blank white _ ih => exact .blank (isBlank_of_mem white) ih
  | comment oneLine _ ih =>
    rw [List.cons_append, List.cons_append, List.append_assoc, List.cons_append]
    exact .comment oneLine ih

namespace Separator

variable {separator : List Char}

theorem lexes (separates : Separator separator) (others : Lexes rest ts) : Lexes (separator ++ rest) ts := by
  obtain ⟨c, gap, rfl, white, skipped⟩ := separates
  exact .blank (isBlank_of_mem white) (skipped.lexes others)

theorem separate (separates : Separator separator) (rest : List Char) : Separate (separator ++ rest) := by
  obtain ⟨c, gap, rfl, white, -⟩ := separates
  simp only [List.mem_cons, List.not_mem_nil, or_false] at white
  rcases white with rfl | rfl | rfl | rfl <;> exact .cons _ (by decide)

end Separator

namespace Laid

theorem lexes {others : List Token} (laid : Laid ts text) (genuine : ∀ t ∈ ts, t.Genuine) (behind : Lexes rest others) :
    Lexes (text ++ rest) (ts.map Token.bare ++ others) := by
  induction laid with
  | nil => exact behind
  | @cons t ts separator text separates _ ih =>
    obtain ⟨first, more⟩ := List.forall_mem_cons.mp genuine
    have lexes := Lexes.written first (separates.separate (text ++ rest)) (separates.lexes (ih more))
    rw [String.ofList_toList] at lexes
    rw [List.append_assoc, List.append_assoc]
    exact lexes

theorem split {front back : List Token} (laid : Laid (front ++ back) text) :
    ∃ text₁ text₂, text = text₁ ++ text₂ ∧ Laid front text₁ ∧ Laid back text₂ := by
  induction front generalizing text with
  | nil => exact ⟨[], text, rfl, .nil, laid⟩
  | cons t front ih =>
    cases laid with
    | @cons _ _ separator _ separates others =>
      obtain ⟨text₁, text₂, rfl, laid₁, laid₂⟩ := ih others
      exact ⟨t.lexeme.toList ++ (separator ++ text₁), text₂, by simp, .cons separates laid₁, laid₂⟩

theorem lexes_stop {stop : Token} (empty : stop.lexeme = "") (laid : Laid [stop] text) : Lexes text [] := by
  cases laid with
  | cons separates others =>
    cases others
    rw [empty]
    exact separates.lexes .nil

end Laid

theorem bare_stop {source : String} {body : List Token} {stop : Token} (scanned : tokensOf source = body ++ [stop]) :
    stop.bare = ⟨.eof, "", none, 0⟩ := by
  obtain ⟨items, ended, -⟩ := scan_ended source
  rw [tokensOf, ended, List.filterMap_append] at scanned
  obtain ⟨-, same⟩ := List.append_inj' scanned rfl
  cases same
  rfl

theorem tokensOf_laid {source : String} {body : List Token} {stop : Token} (scanned : tokensOf source = body ++ [stop])
    (genuine : ∀ t ∈ body, t.Genuine) (laid : Laid (body ++ [stop]) text ∨ Laid body text) :
    Lexes text (body.map Token.bare) := by
  rcases laid with laid | laid
  · obtain ⟨text₁, text₂, rfl, laid, last⟩ := laid.split
    have empty : stop.lexeme = "" := congrArg Token.lexeme (bare_stop scanned)
    simpa using laid.lexes genuine (last.lexes_stop empty)
  · simpa using laid.lexes genuine .nil

end Lox.Lexer

namespace Lox.Scanner

open Lexer (Laid)

/-- Whatever tokens a text has, its faults left out: written one after another with any separators, they are scanned as
    they were, without a fault and with one end behind them. Behind the end a separator may stand or not. -/
theorem layout_independent (source : String) :
    ∃ items last, (ofText source).drain? = some (items, last) ∧
      ∀ text : String, Laid (items.filterMap Lexed.token?) text.toList ∨
          Laid (items.filterMap Lexed.token?).dropLast text.toList →
        ∃ tokens stop last', (ofText text).drain? = some ((tokens ++ [stop]).map .token, last') ∧ last'.done = true ∧
          (tokens ++ [stop]).map Token.bare = (items.filterMap Lexed.token?).map Token.bare ∧
          stop.kind = .eof ∧ ∀ t ∈ tokens, t.kind ≠ .eof := by
  obtain ⟨last, drained, -⟩ := drain?_ofText source
  refine ⟨_, last, drained, fun text laid => ?_⟩
  change Laid (Lexer.tokensOf source) _ ∨ Laid (Lexer.tokensOf source).dropLast _ at laid
  change ∃ tokens stop last', _ ∧ _ ∧ _ = (Lexer.tokensOf source).map Token.bare ∧ _
  obtain ⟨body, stop, scanned, -, genuine⟩ := Lexer.tokensOf_ended source
  rw [scanned, List.dropLast_concat] at laid
  have lexes := Lexer.tokensOf_laid scanned (fun t among => (genuine t among).2) laid
  obtain ⟨tokens, stop', rescanned, same, ended⟩ := lexes.scan
  obtain ⟨last', redrained, done⟩ := drain?_ofText text
  have stops : stop'.bare = stop.bare := by
    rw [Lexer.bare_stop scanned]
    apply @Lexer.bare_stop text tokens
    rw [Lexer.tokensOf, rescanned, List.filterMap_map]
    exact List.filterMap_some
  refine ⟨tokens, stop', last', rescanned ▸ redrained, done, ?_, ended, fun t among => ?_⟩
  · rw [scanned, List.map_append, List.map_append, same, List.map_singleton, List.map_singleton, stops]
  · exact lexes.ne_eof t.bare (same ▸ List.mem_map_of_mem among)

/-- A stray sign and an open quote are dropped; a comment right behind a slash needs a blank before it. -/
theorem layout_independent_slash :
    ∃ tokens stop last, (ofText "a /\t// b\n 1.5\r//\n//\n\n").drain? = some ((tokens ++ [stop]).map .token, last) ∧
      (tokens ++ [stop]).map Token.bare = [⟨.identifier, "a", none, 0⟩, ⟨.slash, "/", none, 0⟩,
        ⟨.number, "1.5", some (.number (.ofDigits ['1'] ['5'])), 0⟩, ⟨.eof, "", none, 0⟩] := by
  obtain ⟨items, last, drained, relaid⟩ := layout_independent "a@/1.5\""
  obtain ⟨last', again, -⟩ := drain?_ofText "a@/1.5\""
  have scanned : Lexer.scan "a@/1.5\"" = [.token ⟨.identifier, "a", none, 1⟩, .fault 1 (.unexpected '@'),
      .token ⟨.slash, "/", none, 1⟩, .token ⟨.number, "1.5", some (.number (.ofDigits ['1'] ['5'])), 1⟩,
      .fault 1 .unterminatedString, .token ⟨.eof, "", none, 1⟩] := by cbv
  rw [again, scanned] at drained
  obtain ⟨rfl, -⟩ := Prod.mk.inj (Option.some.inj drained)
  have first : Lexer.Separator [' '] := ⟨' ', [], rfl, by decide, .nil⟩
  have second : Lexer.Separator ['\t', '/', '/', ' ', 'b', '\n', ' '] :=
    ⟨'\t', _, rfl, by decide, @Lexer.Gap.comment [' ', 'b'] _ (by decide) (.blank (by decide) .nil)⟩
  have third : Lexer.Separator ['\r', '/', '/', '\n', '/', '/', '\n', '\n'] :=
    ⟨'\r', _, rfl, by decide,
      @Lexer.Gap.comment [] _ (by decide) (@Lexer.Gap.comment [] _ (by decide) (.blank (by decide) .nil))⟩
  obtain ⟨tokens, stop, last, drained, -, same, -⟩ :=
    relaid "a /\t// b\n 1.5\r//\n//\n\n" (.inr (.cons first (.cons second (.cons third .nil))))
  exact ⟨tokens, stop, last, drained, same⟩

end Lox.Scanner
