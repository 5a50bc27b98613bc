import Lox.Fault
import Lox.Grammar.Misreading
import Lox.Scope
import Lox.Text.Utf8
import Lox.Token.Lexer

namespace Lox

inductive Diagnostic where
  | lexical (line : Nat) (message : String)
  | grammatical (token : Token) (message : String)
  | scoping (token : Token) (message : String)
  | runtime (fault : Fault)
  | io (message : String)
  | encoding (fault : Utf8.Fault)
deriving DecidableEq

def Token.place (t : Token) : String :=
  if t.kind = .eof then " at end" else " at '" ++ t.lexeme ++ "'"

namespace Diagnostic

def ofMisreading (m : Misreading) : Diagnostic := grammatical m.token m.fault.message

def ofMisuse (m : Scope.Misuse) : Diagnostic := scoping m.token m.fault.message

def line? : Diagnostic → Option Nat
  | lexical line _ => some line
  | grammatical token _ | scoping token _ => some token.line
  | runtime fault => fault.line?
  | io _ | encoding _ => none

def located (line : Nat) (place message : String) : String :=
  "[line " ++ toString line ++ "] Error" ++ place ++ ": " ++ message

def message : Diagnostic → String
  | lexical line message => located line "" message
  | grammatical token message | scoping token message => located token.line token.place message
  | runtime fault => fault.message
  | io message => message
  | encoding fault => fault.message

end Diagnostic

/-- What has been reported: an error found before running, a fault at run time. -/
structure Flags where
  static : Bool
  runtime : Bool
deriving DecidableEq

namespace Flags

def clear : Flags := ⟨false, false⟩

def note (flags : Flags) : Diagnostic → Flags
  | .runtime _ => { flags with runtime := true }
  | _ => { flags with static := true }

/-- Forgets errors found before running; faults at run time stay noted. -/
def reset (flags : Flags) : Flags := { flags with static := false }

end Flags
end Lox
