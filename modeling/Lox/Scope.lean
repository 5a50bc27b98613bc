import Lox.Bindings
import Lox.Tree.Basic

namespace Lox.Scope

inductive Fault where
  | duplicateName
  | ownInitializer
  | returnAtTop
  | returnFromInitializer
  | thisOutsideClass
  | superOutsideClass
  | superWithoutSuperclass
  | selfInheritance
deriving DecidableEq

def Fault.message : Fault → String
  | duplicateName => "Already a variable with this name in this scope."
  | ownInitializer => "Can't read local variable used in its own initializer."
  | returnAtTop => "Can't return from top-level code."
  | returnFromInitializer => "Can't return a value from an initializer."
  | thisOutsideClass => "Can't use 'this' outside of a class."
  | superOutsideClass => "Can't use 'super' outside of a class."
  | superWithoutSuperclass => "Can't use 'super' in a class with no superclass."
  | selfInheritance => "A class can't inherit from itself."

structure Misuse where
  token : Token
  fault : Fault
deriving DecidableEq

/-- A reference bound `distance` scopes further out. -/
structure Reference where
  id : NodeId
  name : Token
  distance : Nat
deriving DecidableEq

inductive FunctionContext where
  | none
  | function
  | method
  | initializer
deriving DecidableEq

inductive ClassContext where
  | none
  | base
  | derived
deriving DecidableEq

structure Context where
  function : FunctionContext
  class_ : ClassContext

def Context.top : Context := ⟨.none, .none⟩

/-- Names of a scope that are declared so far; `true` once their declaration is complete. -/
abbrev Names := Bindings Bool

structure Walk where
  scopes : List Names
  references : List Reference
  misuses : List Misuse

namespace Walk

def start : Walk := ⟨[], [], []⟩

def complain (w : Walk) (token : Token) (fault : Fault) : Walk :=
  { w with misuses := ⟨token, fault⟩ :: w.misuses }

def complainIf (w : Walk) (wrong : Bool) (token : Token) (fault : Fault) : Walk :=
  if wrong then w.complain token fault else w

def enter (w : Walk) (names : Names) : Walk := { w with scopes := names :: w.scopes }

def leave (w : Walk) : Walk := { w with scopes := w.scopes.tail }

/-- Declares a name in the innermost scope; a second declaration there is a misuse. -/
def declare (w : Walk) (name : Token) : Walk :=
  match w.scopes with
  | [] => w
  | names :: outer =>
    if names.contains name.lexeme then w.complain name .duplicateName
    else { w with scopes := names.insert name.lexeme false :: outer }

def define (w : Walk) (name : Token) : Walk :=
  match w.scopes with
  | [] => w
  | names :: outer => { w with scopes := names.insert name.lexeme true :: outer }

def bind (w : Walk) (name : Token) : Walk := (w.declare name).define name

/-- Notes how far out the scope is that binds a name, if one does. -/
def refer (w : Walk) (id : NodeId) (name : Token) : Walk :=
  match w.scopes.findIdx? (·.contains name.lexeme) with
  | some distance => { w with references := ⟨id, name, distance⟩ :: w.references }
  | none => w

def isInitializing (w : Walk) (name : Token) : Bool :=
  match w.scopes with
  | [] => false
  | names :: _ => names.find? name.lexeme == some false

end Walk

mutual

def walkExpr (context : Context) : Expr → Walk → Walk
  | .assign id name value, w => (walkExpr context value w).refer id name
  | .binary left _ right, w => walkExpr context right (walkExpr context left w)
  | .call callee _ arguments, w => walkExprs context arguments (walkExpr context callee w)
  | .get object _, w => walkExpr context object w
  | .grouping inner, w => walkExpr context inner w
  | .constant _, w => w
  | .logical left _ right, w => walkExpr context right (walkExpr context left w)
  | .set object _ value, w => walkExpr context object (walkExpr context value w)
  | .super_ id keyword _, w =>
    let w := match context.class_ with
      | .none => w.complain keyword .superOutsideClass
      | .base => w.complain keyword .superWithoutSuperclass
      | .derived => w
    w.refer id keyword
  | .this_ id keyword, w =>
    if context.class_ = .none then w.complain keyword .thisOutsideClass else w.refer id keyword
  | .unary _ right, w => walkExpr context right w
  | .variable_ id name, w =>
    if w.isInitializing name then w.complain name .ownInitializer else w.refer id name

def walkExprs (context : Context) : List Expr → Walk → Walk
  | [], w => w
  | expr :: rest, w => walkExprs context rest (walkExpr context expr w)

end

def walkOptional (context : Context) (expr : Option Expr) (w : Walk) : Walk :=
  expr.elim w (walkExpr context · w)

/-- The class named here and the superclass it extends: its own name is none. -/
def walkSuperclass (context : Context) (name : Token) (superclass : Expr) (w : Walk) : Walk :=
  let w := match superclass with
    | .variable_ _ superName => w.complainIf (superName.lexeme = name.lexeme) superName .selfInheritance
    | _ => w
  walkExpr { context with class_ := .derived } superclass w

mutual

def walkStmt (context : Context) : Stmt → Walk → Walk
  | .block body, w => (walkStmts context body (w.enter [])).leave
  | .class_ name none methods, w =>
    (walkMethods { context with class_ := .base } methods ((w.bind name).enter [("this", true)])).leave
  | .class_ name (some superclass) methods, w =>
    let w := walkSuperclass context name superclass (w.bind name)
    let w := (w.enter [("super", true)]).enter [("this", true)]
    (walkMethods { context with class_ := .derived } methods w).leave.leave
  | .expression expr, w => walkExpr context expr w
  | .function declaration, w =>
    walkFunction { context with function := .function } declaration (w.bind declaration.name)
  | .ifThen condition thenBranch, w => walkStmt context thenBranch (walkExpr context condition w)
  | .ifThenElse condition thenBranch elseBranch, w =>
    walkStmt context elseBranch (walkStmt context thenBranch (walkExpr context condition w))
  | .print_ expr, w => walkExpr context expr w
  | .return_ keyword value, w =>
    let w := w.complainIf (context.function = .none) keyword .returnAtTop
    let w := w.complainIf (value.isSome && context.function = .initializer) keyword .returnFromInitializer
    walkOptional context value w
  | .var_ name initializer, w => (walkOptional context initializer (w.declare name)).define name
  | .while_ condition body, w => walkStmt context body (walkExpr context condition w)

def walkStmts (context : Context) : List Stmt → Walk → Walk
  | [], w => w
  | stmt :: rest, w => walkStmts context rest (walkStmt context stmt w)

/-- Parameters and body of a function are one scope. -/
def walkFunction (context : Context) : FunctionDecl → Walk → Walk
  | .mk _ params body, w =>
    (walkStmts context body (params.foldl Walk.bind (w.enter []))).leave

def walkMethods (context : Context) : List FunctionDecl → Walk → Walk
  | [], w => w
  | method :: rest, w =>
    let role := if method.isInitializer then .initializer else .method
    walkMethods context rest (walkFunction { context with function := role } method w)

end

structure Findings where
  references : List Reference
  misuses : List Misuse

def resolve (program : List Stmt) : Findings :=
  let w := walkStmts .top program .start
  ⟨w.references.reverse, w.misuses.reverse⟩

end Lox.Scope
