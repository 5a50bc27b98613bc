namespace Lox

abbrev ScopeId := Nat

inductive Environment where
  | root (scope : ScopeId)
  | child (scope : ScopeId) (enclosing : Environment)
deriving DecidableEq

namespace Environment

def scope : Environment → ScopeId
  | root scope => scope
  | child scope _ => scope

def scopes : Environment → List ScopeId
  | root scope => [scope]
  | child scope enclosing => scope :: enclosing.scopes

/-- The environment so many scopes further out, if the chain is that long. -/
def ancestor? : Environment → Nat → Option Environment
  | environment, 0 => some environment
  | root _, _ + 1 => none
  | child _ enclosing, distance + 1 => enclosing.ancestor? distance

end Environment
end Lox
