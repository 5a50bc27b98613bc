import Lox.Grammar.Statement

namespace Lox

def Token.bare (t : Token) : Token := { t with line := 0 }

mutual

def Expr.bare : Expr → Expr
  | .assign _ name value => .assign 0 name.bare value.bare
  | .binary left operator right => .binary left.bare operator.bare right.bare
  | .call callee paren arguments => .call callee.bare paren.bare (Expr.bareAll arguments)
  | .get object name => .get object.bare name.bare
  | .grouping inner => .grouping inner.bare
  | .constant value => .constant value
  | .logical left operator right => .logical left.bare operator.bare right.bare
  | .set object name value => .set object.bare name.bare value.bare
  | .super_ _ keyword method => .super_ 0 keyword.bare method.bare
  | .this_ _ keyword => .this_ 0 keyword.bare
  | .unary operator right => .unary operator.bare right.bare
  | .variable_ _ name => .variable_ 0 name.bare

def Expr.bareAll : List Expr → List Expr
  | [] => []
  | expr :: rest => expr.bare :: Expr.bareAll rest

end

mutual

def Stmt.bare : Stmt → Stmt
  | .block body => .block (Stmt.bareAll body)
  | .class_ name superclass methods => .class_ name.bare (superclass.map Expr.bare) (FunctionDecl.bareAll methods)
  | .expression expr => .expression expr.bare
  | .function declaration => .function declaration.bare
  | .ifThen condition thenBranch => .ifThen condition.bare thenBranch.bare
  | .ifThenElse condition thenBranch elseBranch => .ifThenElse condition.bare thenBranch.bare elseBranch.bare
  | .print_ expr => .print_ expr.bare
  | .return_ keyword value => .return_ keyword.bare (value.map Expr.bare)
  | .var_ name initializer => .var_ name.bare (initializer.map Expr.bare)
  | .while_ condition body => .while_ condition.bare body.bare

def Stmt.bareAll : List Stmt → List Stmt
  | [] => []
  | stmt :: rest => stmt.bare :: Stmt.bareAll rest

def FunctionDecl.bare : FunctionDecl → FunctionDecl
  | .mk name params body => .mk name.bare (params.map Token.bare) (Stmt.bareAll body)

def FunctionDecl.bareAll : List FunctionDecl → List FunctionDecl
  | [] => []
  | method :: rest => method.bare :: FunctionDecl.bareAll rest

end

namespace Grammar

theorem Level.node_bare (level : Level) (left right : Expr) (operator : Token) :
    (level.node left operator right).bare = level.node left.bare operator.bare right.bare := by
  cases level <;> simp [Level.node, Expr.bare]

def ForClauses.bare (clauses : ForClauses) : ForClauses :=
  ⟨clauses.initializer.map Stmt.bare, clauses.condition.map Expr.bare, clauses.increment.map Expr.bare⟩

theorem ForClauses.loop_bare (clauses : ForClauses) (body : Stmt) :
    (clauses.loop body).bare = clauses.bare.loop body.bare := by
  obtain ⟨initializer, condition, increment⟩ := clauses
  cases initializer <;> cases condition <;> cases increment <;>
    simp [ForClauses.loop, ForClauses.bare, Stmt.bare, Stmt.bareAll, Expr.bare]

end Grammar
end Lox
