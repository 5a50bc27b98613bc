import Lox.Number.Reading
import Lox.Token.Basic

namespace Lox

inductive LexicalFault where
  | unexpected (char : Char)
  | unterminatedString
deriving DecidableEq

def LexicalFault.message : LexicalFault → String
  | unexpected char => "Unexpected character: " ++ String.singleton char
  | unterminatedString => "Unterminated string."

namespace Lexer

def isWordStart (c : Char) : Bool := c.isAlpha || c == '_'

def isWordRest (c : Char) : Bool := c.isAlphanum || c == '_'

def isBlank (c : Char) : Bool := c == ' ' || c == '\r' || c == '\t' || c == '\n'

inductive Reading where
  | token (kind : Kind) (literal : Option Literal)
  | skipped
  | fault (fault : LexicalFault)
deriving DecidableEq

structure Piece where
  reading : Reading
  text : List Char
deriving DecidableEq

structure Cut where
  piece : Piece
  rest : List Char

def plain (kind : Kind) (text : List Char) : Piece := ⟨.token kind none, text⟩

def sign? : Char → Option Kind
  | '(' => some .leftParen
  | ')' => some .rightParen
  | '{' => some .leftBrace
  | '}' => some .rightBrace
  | ',' => some .comma
  | '.' => some .dot
  | '-' => some .minus
  | '+' => some .plus
  | ';' => some .semicolon
  | '*' => some .star
  | _ => none

/-- Signs that an equals sign extends: the kind alone and the kind with it. -/
def signBeforeEqual? : Char → Option (Kind × Kind)
  | '!' => some (.bang, .bangEqual)
  | '=' => some (.equal, .equalEqual)
  | '<' => some (.less, .lessEqual)
  | '>' => some (.greater, .greaterEqual)
  | _ => none

def word (c : Char) (cs : List Char) : Cut :=
  let text := c :: cs.takeWhile isWordRest
  let kind := match Keyword.ofSpelling? (String.ofList text) with
    | some keyword => .keyword keyword
    | none => .identifier
  ⟨plain kind text, cs.dropWhile isWordRest⟩

/-- A point belongs to a number only if a digit follows it. -/
def number (c : Char) (cs : List Char) : Cut :=
  let whole := c :: cs.takeWhile Char.isDigit
  match cs.dropWhile Char.isDigit with
  | '.' :: d :: rest =>
    if d.isDigit then
      let fraction := d :: rest.takeWhile Char.isDigit
      ⟨⟨.token .number (some (.number (.ofDigits whole fraction))), whole ++ '.' :: fraction⟩,
        rest.dropWhile Char.isDigit⟩
    else ⟨⟨.token .number (some (.number (.ofDigits whole []))), whole⟩, '.' :: d :: rest⟩
  | rest => ⟨⟨.token .number (some (.number (.ofDigits whole []))), whole⟩, rest⟩

def string (cs : List Char) : Cut :=
  let value := cs.takeWhile (· != '"')
  match cs.dropWhile (· != '"') with
  | [] => ⟨⟨.fault .unterminatedString, '"' :: cs⟩, []⟩
  | quote :: rest =>
    ⟨⟨.token .string (some (.text (String.ofList value))), '"' :: (value ++ [quote])⟩, rest⟩

def slash : List Char → Cut
  | '/' :: cs =>
    ⟨⟨.skipped, '/' :: '/' :: cs.takeWhile (· != '\n')⟩, cs.dropWhile (· != '\n')⟩
  | cs => ⟨plain .slash ['/'], cs⟩

def extensible (c : Char) (alone withEqual : Kind) : List Char → Cut
  | '=' :: cs => ⟨plain withEqual [c, '='], cs⟩
  | cs => ⟨plain alone [c], cs⟩

def cut (c : Char) (cs : List Char) : Cut :=
  if isBlank c then ⟨⟨.skipped, [c]⟩, cs⟩
  else if isWordStart c then word c cs
  else if c.isDigit then number c cs
  else if c = '"' then string cs
  else if c = '/' then slash cs
  else match signBeforeEqual? c with
    | some (alone, withEqual) => extensible c alone withEqual cs
    | none => match sign? c with
      | some kind => ⟨plain kind [c], cs⟩
      | none => ⟨⟨.fault (.unexpected c), [c]⟩, cs⟩

theorem word_append (c : Char) (cs : List Char) :
    (word c cs).piece.text ++ (word c cs).rest = c :: cs := by
  simp [word, plain, List.takeWhile_append_dropWhile]

theorem number_append (c : Char) (cs : List Char) :
    (number c cs).piece.text ++ (number c cs).rest = c :: cs := by
  have whole := List.takeWhile_append_dropWhile (p := Char.isDigit) (l := cs)
  unfold number
  split
  · rename_i d rest point
    rw [point] at whole
    split
    · simp [List.takeWhile_append_dropWhile, whole]
    · simp [whole]
  · simp [whole]

theorem string_append (cs : List Char) :
    (string cs).piece.text ++ (string cs).rest = '"' :: cs := by
  have split := List.takeWhile_append_dropWhile (p := (· != '"')) (l := cs)
  unfold string
  split
  · simp
  · rename_i quote rest found
    rw [found] at split
    simp [split]

theorem slash_append (cs : List Char) : (slash cs).piece.text ++ (slash cs).rest = '/' :: cs := by
  unfold slash
  split
  · simp [List.takeWhile_append_dropWhile]
  · simp [plain]

theorem extensible_append (c : Char) (alone withEqual : Kind) (cs : List Char) :
    (extensible c alone withEqual cs).piece.text ++ (extensible c alone withEqual cs).rest = c :: cs := by
  unfold extensible
  split <;> simp [plain]

theorem cut_append (c : Char) (cs : List Char) :
    (cut c cs).piece.text ++ (cut c cs).rest = c :: cs := by
  unfold cut
  split
  · simp
  split
  · exact word_append c cs
  split
  · exact number_append c cs
  split
  · rename_i h; subst h; exact string_append cs
  split
  · rename_i h; subst h; exact slash_append cs
  split
  · exact extensible_append c _ _ cs
  split <;> simp [plain]

theorem cut_text_ne_nil (c : Char) (cs : List Char) : (cut c cs).piece.text ≠ [] := by
  unfold cut word number string slash extensible plain
  repeat' split
  all_goals simp

theorem cut_rest_length (c : Char) (cs : List Char) : (cut c cs).rest.length < (c :: cs).length := by
  have whole := congrArg List.length (cut_append c cs)
  have first := List.length_pos_iff.mpr (cut_text_ne_nil c cs)
  simp only [List.length_append] at whole
  omega

def pieces : List Char → List Piece
  | [] => []
  | c :: cs => (cut c cs).piece :: pieces (cut c cs).rest
termination_by text => text.length
decreasing_by exact cut_rest_length c cs

theorem flatten_pieces (text : List Char) : ((pieces text).map Piece.text).flatten = text := by
  fun_induction pieces text with
  | case1 => rfl
  | case2 c cs ih => simp [ih, cut_append]

end Lexer

inductive Lexed where
  | token (token : Token)
  | fault (line : Nat) (fault : LexicalFault)
deriving DecidableEq

namespace Lexer

/-- Pieces with their lines, when the first of them begins on `line`; a token's line is the one it
    ends on. Skipped pieces leave nothing, and the end of the text is a token. -/
def withLines (line : Nat) : List Piece → List Lexed
  | [] => [.token ⟨.eof, "", none, line⟩]
  | piece :: rest =>
    let after := line + piece.text.count '\n'
    match piece.reading with
    | .token kind literal => .token ⟨kind, String.ofList piece.text, literal, after⟩ :: withLines after rest
    | .skipped => withLines after rest
    | .fault fault => .fault line fault :: withLines after rest

def scan (source : String) : List Lexed := withLines 1 (pieces source.toList)

end Lexer

def Lexed.token? : Lexed → Option Token
  | .token t => some t
  | .fault .. => none

end Lox
