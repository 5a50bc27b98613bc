import Lox.Token.Basic

namespace Lox

/-- The number of a node that refers to a binding. -/
abbrev NodeId := Nat

inductive Constant where
  | number (value : Number)
  | text (value : String)
  | bool (value : Bool)
  | nil
deriving DecidableEq

def Constant.ofLiteral : Literal → Constant
  | .text value => .text value
  | .number value => .number value

inductive Expr where
  | assign (id : NodeId) (name : Token) (value : Expr)
  | binary (left : Expr) (operator : Token) (right : Expr)
  /-- A call, with its closing parenthesis. -/
  | call (callee : Expr) (paren : Token) (arguments : List Expr)
  | get (object : Expr) (name : Token)
  | grouping (inner : Expr)
  | constant (value : Constant)
  | logical (left : Expr) (operator : Token) (right : Expr)
  | set (object : Expr) (name : Token) (value : Expr)
  | super_ (id : NodeId) (keyword : Token) (method : Token)
  | this_ (id : NodeId) (keyword : Token)
  | unary (operator : Token) (right : Expr)
  | variable_ (id : NodeId) (name : Token)

mutual

inductive Stmt where
  | block (body : List Stmt)
  | class_ (name : Token) (superclass : Option Expr) (methods : List FunctionDecl)
  | expression (expr : Expr)
  | function (declaration : FunctionDecl)
  | ifThen (condition : Expr) (thenBranch : Stmt)
  | ifThenElse (condition : Expr) (thenBranch elseBranch : Stmt)
  | print_ (expr : Expr)
  | return_ (keyword : Token) (value : Option Expr)
  | var_ (name : Token) (initializer : Option Expr)
  | while_ (condition : Expr) (body : Stmt)

inductive FunctionDecl where
  | mk (name : Token) (params : List Token) (body : List Stmt)

end

instance : Inhabited Expr := ⟨.constant .nil⟩

instance : Inhabited Stmt := ⟨.block []⟩

namespace FunctionDecl

instance : Inhabited FunctionDecl := ⟨.mk ⟨.identifier, "", none, 1⟩ [] []⟩

def name : FunctionDecl → Token
  | mk name _ _ => name

def params : FunctionDecl → List Token
  | mk _ params _ => params

def body : FunctionDecl → List Stmt
  | mk _ _ body => body

end FunctionDecl

/-- The name that makes a method the initializer of its class. -/
def initializerName : String := "init"

def FunctionDecl.isInitializer (d : FunctionDecl) : Bool := d.name.lexeme == initializerName

end Lox
