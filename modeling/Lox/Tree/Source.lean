import Lox.Tree.Basic

namespace Lox

def indent (depth : Nat) : String := String.ofList (List.replicate (4 * depth) ' ')

def commaSeparated : List String → String
  | [] => ""
  | [last] => last
  | first :: rest => first ++ ", " ++ commaSeparated rest

def Constant.source : Constant → String
  | number value => value.display
  | text value => "\"" ++ value ++ "\""
  | bool true => "true"
  | bool false => "false"
  | nil => "nil"

namespace Expr

mutual

def source : Expr → String
  | assign _ name value => name.lexeme ++ " = " ++ value.source
  | binary left operator right => left.source ++ " " ++ operator.lexeme ++ " " ++ right.source
  | call callee _ arguments => callee.source ++ "(" ++ commaSeparated (argumentsSource arguments) ++ ")"
  | get object name => object.source ++ "." ++ name.lexeme
  | grouping inner => "(" ++ inner.source ++ ")"
  | constant value => value.source
  | logical left operator right => left.source ++ " " ++ operator.lexeme ++ " " ++ right.source
  | set object name value => object.source ++ "." ++ name.lexeme ++ " = " ++ value.source
  | super_ _ _ method => "super." ++ method.lexeme
  | this_ .. => "this"
  | unary operator right => operator.lexeme ++ right.source
  | variable_ _ name => name.lexeme

def argumentsSource : List Expr → List String
  | [] => []
  | first :: rest => first.source :: argumentsSource rest

end

end Expr

namespace Stmt

mutual

/-- The text of a statement that begins at the given depth. -/
def source (depth : Nat) : Stmt → String
  | block body => "\x7b\n" ++ linesSource (depth + 1) body ++ indent depth ++ "\x7d"
  | class_ name superclass methods =>
    "class " ++ name.lexeme ++ superclass.elim "" (" < " ++ ·.source) ++ " \x7b\n"
      ++ methodsSource (depth + 1) methods ++ indent depth ++ "\x7d"
  | expression expr => expr.source ++ ";"
  | function declaration => "fun " ++ functionSource depth declaration
  | ifThen condition thenBranch => "if (" ++ condition.source ++ ") " ++ thenBranch.source depth
  | ifThenElse condition thenBranch elseBranch =>
    "if (" ++ condition.source ++ ") " ++ thenBranch.source depth ++ " else " ++ elseBranch.source depth
  | print_ expr => "print " ++ expr.source ++ ";"
  | return_ _ value => "return" ++ value.elim "" (" " ++ ·.source) ++ ";"
  | var_ name initializer => "var " ++ name.lexeme ++ initializer.elim "" (" = " ++ ·.source) ++ ";"
  | while_ condition body => "while (" ++ condition.source ++ ") " ++ body.source depth

def linesSource (depth : Nat) : List Stmt → String
  | [] => ""
  | stmt :: rest => indent depth ++ stmt.source depth ++ "\n" ++ linesSource depth rest

def functionSource (depth : Nat) : FunctionDecl → String
  | .mk name params body =>
    name.lexeme ++ "(" ++ commaSeparated (params.map Token.lexeme) ++ ") \x7b\n"
      ++ linesSource (depth + 1) body ++ indent depth ++ "\x7d"

def methodsSource (depth : Nat) : List FunctionDecl → String
  | [] => ""
  | method :: rest => indent depth ++ functionSource depth method ++ "\n" ++ methodsSource depth rest

end

end Stmt

def programSource (program : List Stmt) : String := Stmt.linesSource 0 program

end Lox
