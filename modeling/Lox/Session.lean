import Lox.Diagnostic
import Lox.Grammar.Statement
import Lox.Machine.Execution

namespace Lox

structure Session where
  machine : Machine
  flags : Flags
  /-- The number for the next node; no number is used twice in a session. -/
  nextId : NodeId

namespace Session

def start (readings : Nat → Number) : Session := ⟨.start readings, .clear, 0⟩

def report (s : Session) (d : Diagnostic) : Session :=
  { s with machine := s.machine.write (.error d.message), flags := s.flags.note d }

def reportAll (s : Session) (ds : List Diagnostic) : Session := ds.foldl report s

def lexicalDiagnostic? : Lexed → Option Diagnostic
  | .token _ => none
  | .fault line fault => some (.lexical line fault.message)

def scan (s : Session) (source : String) : List Token × Session :=
  let lexed := Lexer.scan source
  (lexed.filterMap Lexed.token?, s.reportAll (lexed.filterMap lexicalDiagnostic?))

def parse (s : Session) (tokens : List Token) : List Stmt × Session :=
  let parsed := parseProgram tokens s.nextId
  (parsed.value,
    { s with nextId := parsed.nextId }.reportAll (parsed.misreadings.map .ofMisreading))

/-- Hands the distances of the references to the machine; misuses are reported. -/
def resolve (s : Session) (program : List Stmt) : Session :=
  let findings := Scope.resolve program
  let machine := findings.references.foldl (fun m r => m.setDistance r.id r.distance) s.machine
  { s with machine := machine }.reportAll (findings.misuses.map .ofMisuse)

def interpret (fuel : Nat) (s : Session) (program : List Stmt) : Option Session :=
  match Run.program fuel program s.machine with
  | .value _ machine => some { s with machine := machine }
  | .fault fault machine => some ({ s with machine := machine }.report (.runtime fault))
  | .outOfFuel => none

/-- Runs the text of a program; there is no result if the fuel does not last. -/
def run (fuel : Nat) (s : Session) (source : String) : Option Session :=
  let (tokens, s) := s.scan source
  let (program, s) := s.parse tokens
  if s.flags.static then some s
  else
    let s := s.resolve program
    if s.flags.static then some s else s.interpret fuel program

def resetErrors (s : Session) : Session := { s with flags := s.flags.reset }

open scoped Number.Powers in
/-- More turns and nested calls than any run has time for. -/
def ampleFuel : Nat := 2 ^ (62 : Nat)

def takeLines (s : Session) : List Line × Session :=
  (s.machine.lines.toList, { s with machine := { s.machine with lines := #[] } })

end Session
end Lox
