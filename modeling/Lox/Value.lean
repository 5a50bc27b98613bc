import Lox.Bindings
import Lox.Environment
import Lox.Tree.Basic

namespace Lox

/-- The number that tells one function, class or instance from another. -/
abbrev Identity := Nat

inductive Native where
  | clock
deriving DecidableEq

/-- A declared function with the environment it was declared in. -/
structure Closure where
  declaration : FunctionDecl
  environment : Environment
  isInitializer : Bool

def Closure.name (f : Closure) : String := f.declaration.name.lexeme

def Closure.arity (f : Closure) : Nat := f.declaration.params.length

inductive Class where
  | base (identity : Identity) (name : String) (methods : Bindings Closure)
  | derived (identity : Identity) (name : String) (methods : Bindings Closure) (superclass : Class)

namespace Class

def make (identity : Identity) (name : String) (methods : Bindings Closure) : Option Class → Class
  | none => base identity name methods
  | some superclass => derived identity name methods superclass

def identity : Class → Identity
  | base identity _ _ => identity
  | derived identity _ _ _ => identity

def name : Class → String
  | base _ name _ => name
  | derived _ name _ _ => name

/-- The nearest method of that name, from the class upwards. -/
def findMethod? (method : String) : Class → Option Closure
  | base _ _ methods => methods.find? method
  | derived _ _ methods superclass => (methods.find? method).or (superclass.findMethod? method)

def initializer? (c : Class) : Option Closure := c.findMethod? initializerName

/-- A class takes the arguments of its initializer. -/
def arity (c : Class) : Nat := c.initializer?.elim 0 Closure.arity

end Class

inductive Value where
  | nil
  | bool (value : Bool)
  | number (value : Number)
  | text (value : String)
  | native (function : Native)
  | function (identity : Identity) (closure : Closure)
  | class_ (value : Class)
  | instance_ (identity : Identity) (of : Class)

namespace Value

def ofConstant : Constant → Value
  | .number value => number value
  | .text value => text value
  | .bool value => bool value
  | .nil => nil

/-- Only `nil` and `false` are not. -/
def isTruthy : Value → Bool
  | nil => false
  | bool value => value
  | _ => true

def arity? : Value → Option Nat
  | native .clock => some 0
  | function _ closure => some closure.arity
  | class_ value => some value.arity
  | _ => none

def equal : Value → Value → Bool
  | nil, nil => true
  | bool a, bool b => a == b
  | number a, number b => a.equal b
  | text a, text b => a == b
  | native a, native b => a == b
  | function a _, function b _ => a == b
  | class_ a, class_ b => a.identity == b.identity
  | instance_ a _, instance_ b _ => a == b
  | _, _ => false

def display : Value → String
  | nil => "nil"
  | bool true => "true"
  | bool false => "false"
  | number value => value.display
  | text value => value
  | native _ => "<native fn>"
  | function _ closure => "<fn " ++ closure.name ++ ">"
  | class_ value => value.name
  | instance_ _ of => of.name ++ " instance"

end Value
end Lox
