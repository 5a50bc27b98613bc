import Lox.Tree.Basic

namespace Lox

def Constant.bracketed : Constant → String
  | number value => value.literal
  | text value => value
  | bool true => "true"
  | bool false => "false"
  | nil => "nil"

namespace Expr

mutual

def bracketed : Expr → String
  | assign _ name value => "(= " ++ name.lexeme ++ " " ++ value.bracketed ++ ")"
  | binary left operator right =>
    "(" ++ operator.lexeme ++ " " ++ left.bracketed ++ " " ++ right.bracketed ++ ")"
  | call callee _ arguments => "(call " ++ callee.bracketed ++ argumentsBracketed arguments ++ ")"
  | get object name => "(get " ++ object.bracketed ++ " " ++ name.lexeme ++ ")"
  | grouping inner => "(group " ++ inner.bracketed ++ ")"
  | constant value => value.bracketed
  | logical left operator right =>
    "(" ++ operator.lexeme ++ " " ++ left.bracketed ++ " " ++ right.bracketed ++ ")"
  | set object name value =>
    "(set " ++ object.bracketed ++ " " ++ name.lexeme ++ " " ++ value.bracketed ++ ")"
  | super_ _ _ method => "(super " ++ method.lexeme ++ ")"
  | this_ .. => "this"
  | unary operator right => "(" ++ operator.lexeme ++ " " ++ right.bracketed ++ ")"
  | variable_ _ name => name.lexeme

def argumentsBracketed : List Expr → String
  | [] => ""
  | first :: rest => " " ++ first.bracketed ++ argumentsBracketed rest

end

end Expr
end Lox
