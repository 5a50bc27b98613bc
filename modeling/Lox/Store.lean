import Lox.Fault
import Lox.Value

namespace Lox

structure Store where
  scopes : Array (Bindings Value)
  objects : Array (Bindings Value)
  nextIdentity : Identity

namespace Store

def empty : Store := ⟨#[], #[], 0⟩

def lookup? (s : Store) (scope : ScopeId) (name : String) : Option Value :=
  (s.scopes[scope]?.getD []).find? name

def bind (s : Store) (scope : ScopeId) (name : String) (value : Value) : Store :=
  { s with scopes := s.scopes.modify scope (·.insert name value) }

def root (s : Store) : Environment × Store :=
  (.root s.scopes.size, { s with scopes := s.scopes.push [] })

def childOf (s : Store) (enclosing : Environment) : Environment × Store :=
  (.child s.scopes.size enclosing, { s with scopes := s.scopes.push [] })

def define (s : Store) (environment : Environment) (name : String) (value : Value) : Store :=
  s.bind environment.scope name value

/-- The value of a name in the innermost scope of the chain that binds it. -/
def get? (s : Store) (name : String) : Environment → Option Value
  | .root scope => s.lookup? scope name
  | .child scope enclosing =>
    match s.lookup? scope name with
    | some value => some value
    | none => s.get? name enclosing

def locate? (s : Store) (name : String) : Environment → Option ScopeId
  | .root scope => if (s.lookup? scope name).isSome then some scope else none
  | .child scope enclosing =>
    if (s.lookup? scope name).isSome then some scope else s.locate? name enclosing

def get (s : Store) (environment : Environment) (name : Token) : Except Fault Value :=
  match s.get? name.lexeme environment with
  | some value => .ok value
  | none => .error (.undefinedVariable name)

def locate (s : Store) (environment : Environment) (name : Token) : Except Fault ScopeId :=
  match s.locate? name.lexeme environment with
  | some scope => .ok scope
  | none => .error (.undefinedVariable name)

def assign (s : Store) (environment : Environment) (name : Token) (value : Value) : Except Fault Store :=
  match s.locate environment name with
  | .ok scope => .ok (s.bind scope name.lexeme value)
  | .error fault => .error fault

def ancestor (environment : Environment) (distance : Nat) : Except Fault Environment :=
  match environment.ancestor? distance with
  | some ancestor => .ok ancestor
  | none => .error (.unexpected (.tooFar distance))

/-- The value of a name in the scope a fixed number of steps out. -/
def getAt (s : Store) (environment : Environment) (distance : Nat) (name : String) : Except Fault Value :=
  match ancestor environment distance with
  | .error fault => .error fault
  | .ok target =>
    match s.lookup? target.scope name with
    | some value => .ok value
    | none => .error (.unexpected (.unbound name distance))

def locateAt (s : Store) (environment : Environment) (distance : Nat) (name : String) : Except Fault ScopeId :=
  match ancestor environment distance with
  | .error fault => .error fault
  | .ok target =>
    if (s.lookup? target.scope name).isSome then .ok target.scope
    else .error (.unexpected (.unbound name distance))

def assignAt (s : Store) (environment : Environment) (distance : Nat) (name : String) (value : Value) :
    Except Fault Store :=
  match s.locateAt environment distance name with
  | .ok scope => .ok (s.bind scope name value)
  | .error fault => .error fault

def fresh (s : Store) : Identity × Store := (s.nextIdentity, { s with nextIdentity := s.nextIdentity + 1 })

def instantiate (s : Store) : Identity × Store := (s.objects.size, { s with objects := s.objects.push [] })

def field? (s : Store) (object : Identity) (name : String) : Option Value :=
  (s.objects[object]?.getD []).find? name

def setField (s : Store) (object : Identity) (name : String) (value : Value) : Store :=
  { s with objects := s.objects.modify object (·.insert name value) }

/-- A method as a function of its own, in whose environment `this` is the instance. -/
def bindMethod (s : Store) (method : Closure) (object : Identity) (of : Class) : Closure × Store :=
  let (environment, s) := s.childOf method.environment
  ({ method with environment := environment }, s.define environment "this" (.instance_ object of))

end Store
end Lox
