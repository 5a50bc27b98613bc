import Lox.Proofs.Grammar.StatementReading
import Lox.Proofs.Tree.Bare

namespace Lox.Grammar

/-- A tree that stands at a place of the grammar for expressions. -/
inductive ExprForm where
  | expression (expr : Expr)
  | infix_ (level : Level) (expr : Expr)
  | unary (expr : Expr)
  | call (expr : Expr)
  | primary (expr : Expr)
  | arguments (exprs : List Expr)
  | entries (exprs : List Expr)

def Level.operandForm (level : Level) (expr : Expr) : ExprForm :=
  match level.tighter? with
  | some next => .infix_ next expr
  | none => .unary expr

/-- The token has the kind. It stands for a token of the tree that may be from another line. -/
structure Stands (token : Token) (kinds : List Kind) (named : Token) : Prop where
  kind : token.kind ∈ kinds
  same : token.bare = named.bare

theorem Stands.self {token : Token} {kinds : List Kind} (kind : token.kind ∈ kinds) : Stands token kinds token :=
  ⟨kind, rfl⟩

theorem Stands.is {token named : Token} {kind : Kind} (stands : Stands token [kind] named) : token.kind = kind :=
  List.mem_singleton.mp stands.kind

inductive SpellsExpr (fits : Nat → Prop) : ExprForm → List Token → Prop where
  | unassigned {expr : Expr} {ts : List Token} (value : SpellsExpr fits (.infix_ .or expr) ts) :
      SpellsExpr fits (.expression expr) ts
  | assign {id : NodeId} {name equals named : Token} {value : Expr} {ts : List Token}
      (target : Stands name [.identifier] named) (sign : equals.kind = .equal)
      (assigned : SpellsExpr fits (.expression value) ts) :
      SpellsExpr fits (.expression (.assign id named value)) (name :: equals :: ts)
  | set {object value : Expr} {dot name equals named : Token} {ts us : List Token}
      (owner : SpellsExpr fits (.call object) ts) (point : dot.kind = .dot) (target : Stands name [.identifier] named)
      (sign : equals.kind = .equal) (assigned : SpellsExpr fits (.expression value) us) :
      SpellsExpr fits (.expression (.set object named value)) (ts ++ dot :: name :: equals :: us)
  | operand {level : Level} {expr : Expr} {ts : List Token} (alone : SpellsExpr fits (level.operandForm expr) ts) :
      SpellsExpr fits (.infix_ level expr) ts
  | infix_ {level : Level} {left right : Expr} {operator sign : Token} {ts us : List Token}
      (first : SpellsExpr fits (.infix_ level left) ts) (between : Stands sign level.operators operator)
      (second : SpellsExpr fits (level.operandForm right) us) :
      SpellsExpr fits (.infix_ level (level.node left operator right)) (ts ++ sign :: us)
  | prefixed {operator sign : Token} {right : Expr} {ts : List Token} (before : Stands sign [.bang, .minus] operator)
      (operand : SpellsExpr fits (.unary right) ts) : SpellsExpr fits (.unary (.unary operator right)) (sign :: ts)
  | called {expr : Expr} {ts : List Token} (call : SpellsExpr fits (.call expr) ts) : SpellsExpr fits (.unary expr) ts
  | primary {expr : Expr} {ts : List Token} (first : SpellsExpr fits (.primary expr) ts) :
      SpellsExpr fits (.call expr) ts
  | get {callee : Expr} {dot name named : Token} {ts : List Token} (owner : SpellsExpr fits (.call callee) ts)
      (point : dot.kind = .dot) (property : Stands name [.identifier] named) :
      SpellsExpr fits (.call (.get callee named)) (ts ++ [dot, name])
  | call {callee : Expr} {exprs : List Expr} {opening closing paren : Token} {ts us : List Token}
      (first : SpellsExpr fits (.call callee) ts) (opened : opening.kind = .leftParen)
      (given : SpellsExpr fits (.arguments exprs) us) (closed : Stands closing [.rightParen] paren) :
      SpellsExpr fits (.call (.call callee paren exprs)) (ts ++ opening :: (us ++ [closing]))
  | noArguments : SpellsExpr fits (.arguments []) []
  | someArguments {exprs : List Expr} {ts : List Token} (short : fits exprs.length)
      (entries : SpellsExpr fits (.entries exprs) ts) : SpellsExpr fits (.arguments exprs) ts
  | lastEntry {expr : Expr} {ts : List Token} (entry : SpellsExpr fits (.expression expr) ts) :
      SpellsExpr fits (.entries [expr]) ts
  | nextEntry {expr : Expr} {exprs : List Expr} {comma : Token} {ts us : List Token}
      (entry : SpellsExpr fits (.expression expr) ts) (sign : comma.kind = .comma)
      (entries : SpellsExpr fits (.entries exprs) us) : SpellsExpr fits (.entries (expr :: exprs)) (ts ++ comma :: us)
  | constant {token : Token} {value : Constant} (stands : constantOf? token = some value) :
      SpellsExpr fits (.primary (.constant value)) [token]
  | super_ {id : NodeId} {word dot name keyword method : Token} (front : Stands word [.keyword .super_] keyword)
      (point : dot.kind = .dot) (named : Stands name [.identifier] method) :
      SpellsExpr fits (.primary (.super_ id keyword method)) [word, dot, name]
  | this_ {id : NodeId} {word keyword : Token} (front : Stands word [.keyword .this_] keyword) :
      SpellsExpr fits (.primary (.this_ id keyword)) [word]
  | variable_ {id : NodeId} {name named : Token} (front : Stands name [.identifier] named) :
      SpellsExpr fits (.primary (.variable_ id named)) [name]
  | grouping {inner : Expr} {opening closing : Token} {ts : List Token} (opened : opening.kind = .leftParen)
      (read : SpellsExpr fits (.expression inner) ts) (closed : closing.kind = .rightParen) :
      SpellsExpr fits (.primary (.grouping inner)) (opening :: (ts ++ [closing]))

namespace SpellsExpr

variable {fits : Nat → Prop} {ts : List Token}

/-- Of the trees at a level, those of other nodes come from the operands. -/
theorem of_infix {level : Level} {expr : Expr} (spelled : SpellsExpr fits (.infix_ level expr) ts)
    (other : ∀ left operator right, expr ≠ .binary left operator right ∧ expr ≠ .logical left operator right) :
    SpellsExpr fits (.unary expr) ts := by
  cases spelled with
  | infix_ =>
    exfalso
    cases level
    case or | and => exact (other _ _ _).2 rfl
    all_goals exact (other _ _ _).1 rfl
  | operand alone =>
    unfold Level.operandForm at alone
    cases next : level.tighter? with
    | none =>
      rw [next] at alone
      exact alone
    | some tighter =>
      rw [next] at alone
      exact of_infix alone other
termination_by level.rank
decreasing_by exact Level.rank_tighter next

theorem of_unary {expr : Expr} (spelled : SpellsExpr fits (.unary expr) ts)
    (other : ∀ operator right, expr ≠ .unary operator right) : SpellsExpr fits (.call expr) ts := by
  cases spelled with
  | prefixed => exact absurd rfl (other _ _)
  | called call => exact call

theorem property {object : Expr} {named : Token} (spelled : SpellsExpr fits (.infix_ .or (.get object named)) ts) :
    ∃ us dot name, ts = us ++ [dot, name] ∧ SpellsExpr fits (.call object) us ∧ dot.kind = .dot ∧
      Stands name [.identifier] named := by
  cases (spelled.of_infix (by simp)).of_unary (by simp) with
  | primary first => cases first
  | get owner point property => exact ⟨_, _, _, rfl, owner, point, property⟩

theorem name {id : NodeId} {named : Token} (spelled : SpellsExpr fits (.infix_ .or (.variable_ id named)) ts) :
    ∃ name, ts = [name] ∧ Stands name [.identifier] named := by
  cases (spelled.of_infix (by simp)).of_unary (by simp) with
  | primary first =>
    cases first with
    | variable_ front => exact ⟨_, rfl, front⟩

end SpellsExpr

/-- A tree that stands at a place of the grammar for statements. A statement is dangling if an `else` behind it would
    belong to it. -/
inductive StmtForm where
  | optional (expr? : Option Expr)
  | initializer (expr? : Option Expr)
  | varDeclaration (stmt : Stmt)
  | expressionStatement (stmt : Stmt)
  | names (params : List Token)
  | parameters (params : List Token)
  | forInitializer (stmt? : Option Stmt)
  | forClauses (clauses : ForClauses)
  | superclass (expr? : Option Expr)
  | declaration (stmt : Stmt)
  | methods (methods : List FunctionDecl)
  | function (declaration : FunctionDecl)
  | statement (stmt : Stmt) (dangling : Bool)
  | block (body : List Stmt)
  | declarations (program : List Stmt)

inductive SpellsStmt (fits : Nat → Prop) : StmtForm → List Token → Prop where
  | absent : SpellsStmt fits (.optional none) []
  | present {expr : Expr} {ts : List Token} (value : SpellsExpr fits (.expression expr) ts) :
      SpellsStmt fits (.optional (some expr)) ts
  | uninitialized : SpellsStmt fits (.initializer none) []
  | initialized {equals : Token} {expr : Expr} {ts : List Token} (sign : equals.kind = .equal)
      (value : SpellsExpr fits (.expression expr) ts) : SpellsStmt fits (.initializer (some expr)) (equals :: ts)
  | varDeclaration {word name named semicolon : Token} {initializer : Option Expr} {ts : List Token}
      (front : word.kind = .keyword .var_) (naming : Stands name [.identifier] named)
      (value : SpellsStmt fits (.initializer initializer) ts) (ended : semicolon.kind = .semicolon) :
      SpellsStmt fits (.varDeclaration (.var_ named initializer)) (word :: name :: (ts ++ [semicolon]))
  | expressionStatement {semicolon : Token} {expr : Expr} {ts : List Token}
      (value : SpellsExpr fits (.expression expr) ts) (ended : semicolon.kind = .semicolon) :
      SpellsStmt fits (.expressionStatement (.expression expr)) (ts ++ [semicolon])
  | lastName {name named : Token} (naming : Stands name [.identifier] named) : SpellsStmt fits (.names [named]) [name]
  | nextName {name named comma : Token} {params : List Token} {ts : List Token}
      (naming : Stands name [.identifier] named) (sign : comma.kind = .comma)
      (entries : SpellsStmt fits (.names params) ts) : SpellsStmt fits (.names (named :: params)) (name :: comma :: ts)
  | noParameters : SpellsStmt fits (.parameters []) []
  | someParameters {params : List Token} {ts : List Token} (short : fits params.length)
      (entries : SpellsStmt fits (.names params) ts) : SpellsStmt fits (.parameters params) ts
  | noInitializer {semicolon : Token} (front : semicolon.kind = .semicolon) :
      SpellsStmt fits (.forInitializer none) [semicolon]
  | varInitializer {stmt : Stmt} {ts : List Token} (first : SpellsStmt fits (.varDeclaration stmt) ts) :
      SpellsStmt fits (.forInitializer (some stmt)) ts
  | exprInitializer {stmt : Stmt} {ts : List Token} (first : SpellsStmt fits (.expressionStatement stmt) ts) :
      SpellsStmt fits (.forInitializer (some stmt)) ts
  | forClauses {opening semicolon closing : Token} {initializer : Option Stmt} {condition increment : Option Expr}
      {ts us vs : List Token} (opened : opening.kind = .leftParen)
      (first : SpellsStmt fits (.forInitializer initializer) ts) (second : SpellsStmt fits (.optional condition) us)
      (ended : semicolon.kind = .semicolon) (third : SpellsStmt fits (.optional increment) vs)
      (closed : closing.kind = .rightParen) :
      SpellsStmt fits (.forClauses ⟨initializer, condition, increment⟩)
        (opening :: (ts ++ (us ++ semicolon :: (vs ++ [closing]))))
  | noSuperclass : SpellsStmt fits (.superclass none) []
  | someSuperclass {id : NodeId} {less name named : Token} (sign : less.kind = .less)
      (naming : Stands name [.identifier] named) :
      SpellsStmt fits (.superclass (some (.variable_ id named))) [less, name]
  | classDeclared {word name named opening closing : Token} {superclass : Option Expr} {methods : List FunctionDecl}
      {ts us : List Token} (front : word.kind = .keyword .class_) (naming : Stands name [.identifier] named)
      (extended : SpellsStmt fits (.superclass superclass) ts) (opened : opening.kind = .leftBrace)
      (body : SpellsStmt fits (.methods methods) us) (closed : closing.kind = .rightBrace) :
      SpellsStmt fits (.declaration (.class_ named superclass methods))
        (word :: name :: (ts ++ opening :: (us ++ [closing])))
  | functionDeclared {word : Token} {d : FunctionDecl} {ts : List Token} (front : word.kind = .keyword .fun_)
      (declared : SpellsStmt fits (.function d) ts) : SpellsStmt fits (.declaration (.function d)) (word :: ts)
  | varDeclared {stmt : Stmt} {ts : List Token} (declared : SpellsStmt fits (.varDeclaration stmt) ts) :
      SpellsStmt fits (.declaration stmt) ts
  | stated {stmt : Stmt} {dangling : Bool} {ts : List Token} (statement : SpellsStmt fits (.statement stmt dangling) ts) :
      SpellsStmt fits (.declaration stmt) ts
  | noMethods : SpellsStmt fits (.methods []) []
  | moreMethods {method : FunctionDecl} {methods : List FunctionDecl} {ts us : List Token}
      (first : SpellsStmt fits (.function method) ts) (rest : SpellsStmt fits (.methods methods) us) :
      SpellsStmt fits (.methods (method :: methods)) (ts ++ us)
  | function {name named opening closing : Token} {params : List Token} {body : List Stmt} {ts us : List Token}
      (naming : Stands name [.identifier] named) (opened : opening.kind = .leftParen)
      (entries : SpellsStmt fits (.parameters params) ts) (closed : closing.kind = .rightParen)
      (block : SpellsStmt fits (.block body) us) :
      SpellsStmt fits (.function (.mk named params body)) (name :: opening :: (ts ++ closing :: us))
  | block {opening closing : Token} {body : List Stmt} {ts : List Token} (opened : opening.kind = .leftBrace)
      (declared : SpellsStmt fits (.declarations body) ts) (closed : closing.kind = .rightBrace) :
      SpellsStmt fits (.block body) (opening :: (ts ++ [closing]))
  | forLoop {word : Token} {clauses : ForClauses} {body : Stmt} {dangling : Bool} {ts us : List Token}
      (front : word.kind = .keyword .for_) (head : SpellsStmt fits (.forClauses clauses) ts)
      (repeated : SpellsStmt fits (.statement body dangling) us) :
      SpellsStmt fits (.statement (clauses.loop body) dangling) (word :: (ts ++ us))
  | ifThen {word opening closing : Token} {condition : Expr} {thenBranch : Stmt} {dangling : Bool} {ts us : List Token}
      (front : word.kind = .keyword .if_) (opened : opening.kind = .leftParen)
      (head : SpellsExpr fits (.expression condition) ts) (closed : closing.kind = .rightParen)
      (first : SpellsStmt fits (.statement thenBranch dangling) us) :
      SpellsStmt fits (.statement (.ifThen condition thenBranch) true) (word :: opening :: (ts ++ closing :: us))
  | ifThenElse {word opening closing else_ : Token} {condition : Expr} {thenBranch elseBranch : Stmt} {dangling : Bool}
      {ts us vs : List Token} (front : word.kind = .keyword .if_) (opened : opening.kind = .leftParen)
      (head : SpellsExpr fits (.expression condition) ts) (closed : closing.kind = .rightParen)
      (first : SpellsStmt fits (.statement thenBranch false) us) (otherwise : else_.kind = .keyword .else_)
      (second : SpellsStmt fits (.statement elseBranch dangling) vs) :
      SpellsStmt fits (.statement (.ifThenElse condition thenBranch elseBranch) dangling)
        (word :: opening :: (ts ++ closing :: (us ++ else_ :: vs)))
  | printing {word semicolon : Token} {expr : Expr} {ts : List Token} (front : word.kind = .keyword .print_)
      (value : SpellsExpr fits (.expression expr) ts) (ended : semicolon.kind = .semicolon) :
      SpellsStmt fits (.statement (.print_ expr) false) (word :: (ts ++ [semicolon]))
  | returning {word keyword semicolon : Token} {value : Option Expr} {ts : List Token}
      (front : Stands word [.keyword .return_] keyword) (given : SpellsStmt fits (.optional value) ts)
      (ended : semicolon.kind = .semicolon) :
      SpellsStmt fits (.statement (.return_ keyword value) false) (word :: (ts ++ [semicolon]))
  | whileLoop {word opening closing : Token} {condition : Expr} {body : Stmt} {dangling : Bool} {ts us : List Token}
      (front : word.kind = .keyword .while_) (opened : opening.kind = .leftParen)
      (head : SpellsExpr fits (.expression condition) ts) (closed : closing.kind = .rightParen)
      (repeated : SpellsStmt fits (.statement body dangling) us) :
      SpellsStmt fits (.statement (.while_ condition body) dangling) (word :: opening :: (ts ++ closing :: us))
  | braced {body : List Stmt} {ts : List Token} (block : SpellsStmt fits (.block body) ts) :
      SpellsStmt fits (.statement (.block body) false) ts
  | expressed {stmt : Stmt} {ts : List Token} (value : SpellsStmt fits (.expressionStatement stmt) ts) :
      SpellsStmt fits (.statement stmt false) ts
  | noDeclarations : SpellsStmt fits (.declarations []) []
  | moreDeclarations {stmt : Stmt} {program : List Stmt} {ts us : List Token}
      (first : SpellsStmt fits (.declaration stmt) ts) (rest : SpellsStmt fits (.declarations program) us) :
      SpellsStmt fits (.declarations (stmt :: program)) (ts ++ us)

end Lox.Grammar
