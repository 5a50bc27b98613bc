import Lox.Number.Text

namespace Lox

inductive Keyword where
  | and_ | class_ | else_ | false_ | for_ | fun_ | if_ | nil_
  | or_ | print_ | return_ | super_ | this_ | true_ | var_ | while_
deriving DecidableEq, Repr

namespace Keyword

def spelling : Keyword → String
  | and_ => "and"
  | class_ => "class"
  | else_ => "else"
  | false_ => "false"
  | for_ => "for"
  | fun_ => "fun"
  | if_ => "if"
  | nil_ => "nil"
  | or_ => "or"
  | print_ => "print"
  | return_ => "return"
  | super_ => "super"
  | this_ => "this"
  | true_ => "true"
  | var_ => "var"
  | while_ => "while"

def all : List Keyword :=
  [and_, class_, else_, false_, for_, fun_, if_, nil_, or_, print_, return_, super_, this_, true_,
    var_, while_]

theorem mem_all (k : Keyword) : k ∈ all := by cases k <;> decide

def ofSpelling? (word : String) : Option Keyword := all.find? (·.spelling == word)

end Keyword

inductive Kind where
  | leftParen | rightParen | leftBrace | rightBrace | comma | dot | minus | plus | semicolon | slash | star
  | bang | bangEqual | equal | equalEqual | greater | greaterEqual | less | lessEqual
  | identifier | string | number
  | keyword (word : Keyword)
  | eof
deriving DecidableEq, Repr

namespace Kind

def name : Kind → String
  | leftParen => "LEFT_PAREN"
  | rightParen => "RIGHT_PAREN"
  | leftBrace => "LEFT_BRACE"
  | rightBrace => "RIGHT_BRACE"
  | comma => "COMMA"
  | dot => "DOT"
  | minus => "MINUS"
  | plus => "PLUS"
  | semicolon => "SEMICOLON"
  | slash => "SLASH"
  | star => "STAR"
  | bang => "BANG"
  | bangEqual => "BANG_EQUAL"
  | equal => "EQUAL"
  | equalEqual => "EQUAL_EQUAL"
  | greater => "GREATER"
  | greaterEqual => "GREATER_EQUAL"
  | less => "LESS"
  | lessEqual => "LESS_EQUAL"
  | identifier => "IDENTIFIER"
  | string => "STRING"
  | number => "NUMBER"
  | keyword word => word.spelling.toUpper
  | eof => "EOF"

def all : List Kind :=
  [leftParen, rightParen, leftBrace, rightBrace, comma, dot, minus, plus, semicolon, slash, star,
    bang, bangEqual, equal, equalEqual, greater, greaterEqual, less, lessEqual,
    identifier, string, number, eof] ++ Keyword.all.map keyword

theorem mem_all (k : Kind) : k ∈ all := by
  cases k with
  | keyword word => simp [all, Keyword.mem_all]
  | _ => decide

def ofName? (name : String) : Option Kind := all.find? (·.name == name)

end Kind

inductive Literal where
  | text (value : String)
  | number (value : Number)
deriving DecidableEq

namespace Literal

def display : Literal → String
  | text value => value
  | number value => value.literal

end Literal

structure Token where
  kind : Kind
  lexeme : String
  literal : Option Literal
  line : Nat
deriving DecidableEq

namespace Token

def display (t : Token) : String :=
  let value := match t.literal with
    | some literal => literal.display
    | none => "null"
  t.kind.name ++ " " ++ t.lexeme ++ " " ++ value

def isEof (t : Token) : Bool := t.kind == .eof

end Token
end Lox
