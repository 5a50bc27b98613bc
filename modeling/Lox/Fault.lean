import Lox.Token.Basic

namespace Lox

inductive Demand where
  | number
  | numbers
  | numbersOrStrings
  | stated (message : String)
deriving DecidableEq

def Demand.message : Demand → String
  | number => "Operand must be a number."
  | numbers => "Operands must be numbers."
  | numbersOrStrings => "Operands must be two numbers or two strings."
  | stated message => message

inductive Access where
  | property
  | field
  | stated (message : String)
deriving DecidableEq

def Access.message : Access → String
  | property => "Only instances have properties."
  | field => "Only instances have fields."
  | stated message => message

/-- What cannot be in a program that was read and resolved. -/
inductive Breach where
  | unaryOperator (lexeme : String)
  | binaryOperator (lexeme : String)
  | superUnresolved
  | superNotClass
  | superWithoutThis
  | thisNotInstance
  | tooFar (distance : Nat)
  | unbound (name : String) (distance : Nat)
  | stated (message : String)
deriving DecidableEq

def Breach.message : Breach → String
  | unaryOperator lexeme => "Invalid unary operator '" ++ lexeme ++ "'."
  | binaryOperator lexeme => "Invalid binary operator '" ++ lexeme ++ "'."
  | superUnresolved => "'super' was never resolved."
  | superNotClass => "'super' is not bound to a class."
  | superWithoutThis => "'super' resolved without a 'this' scope."
  | thisNotInstance => "'this' is not bound to an instance."
  | tooFar distance => "Resolved distance " ++ toString distance ++ " exceeds the environment chain."
  | unbound name distance => "Unable to find '" ++ name ++ "' at distance " ++ toString distance ++ "."
  | stated message => message

inductive Fault where
  | typeMismatch (token : Token) (demand : Demand)
  | undefinedVariable (token : Token)
  | undefinedProperty (token : Token)
  | argumentMismatch (token : Token) (expected got : Nat)
  | notCallable (token : Token)
  | notInstance (token : Token) (access : Access)
  | notClass (token : Token)
  | stackOverflow (token : Token)
  | unexpected (breach : Breach)
deriving DecidableEq

namespace Fault

def token? : Fault → Option Token
  | typeMismatch token _ | undefinedVariable token | undefinedProperty token
  | argumentMismatch token _ _ | notCallable token | notInstance token _ | notClass token
  | stackOverflow token => some token
  | unexpected _ => none

def line? (fault : Fault) : Option Nat := fault.token?.map Token.line

def reason : Fault → String
  | typeMismatch _ demand => demand.message
  | undefinedVariable token => "Undefined variable '" ++ token.lexeme ++ "'."
  | undefinedProperty token => "Undefined property '" ++ token.lexeme ++ "'."
  | argumentMismatch _ expected got =>
    "Expected " ++ toString expected ++ " arguments but got " ++ toString got ++ "."
  | notCallable _ => "Can only call functions and classes."
  | notInstance _ access => access.message
  | notClass _ => "Superclass must be a class."
  | stackOverflow _ => "Stack overflow."
  | unexpected breach => "Unexpected runtime error: " ++ breach.message

def message (fault : Fault) : String :=
  match fault.line? with
  | some line => fault.reason ++ "\n[line " ++ toString line ++ "]"
  | none => fault.reason

end Fault
end Lox
