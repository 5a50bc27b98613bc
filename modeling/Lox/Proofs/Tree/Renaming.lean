import Lox.Proofs.Tree.Alike

namespace Lox

mutual

def Expr.names : Expr → List String
  | .assign _ name value => name.lexeme :: value.names
  | .binary left _ right => left.names ++ right.names
  | .call callee _ arguments => callee.names ++ Expr.namesAll arguments
  | .get object _ => object.names
  | .grouping inner => inner.names
  | .constant _ => []
  | .logical left _ right => left.names ++ right.names
  | .set object _ value => object.names ++ value.names
  | .super_ .. => []
  | .this_ .. => []
  | .unary _ right => right.names
  | .variable_ _ name => [name.lexeme]

def Expr.namesAll : List Expr → List String
  | [] => []
  | expr :: rest => expr.names ++ Expr.namesAll rest

end

def Expr.namesOptional (expr : Option Expr) : List String := expr.elim [] Expr.names

mutual

/-- The names by which a statement declares variables, functions and classes or refers to them. -/
def Stmt.names : Stmt → List String
  | .block body => Stmt.namesAll body
  | .class_ name superclass methods => name.lexeme :: (Expr.namesOptional superclass ++ FunctionDecl.namesAll methods)
  | .expression expr => expr.names
  | .function declaration => declaration.name.lexeme :: declaration.names
  | .ifThen condition thenBranch => condition.names ++ thenBranch.names
  | .ifThenElse condition thenBranch elseBranch => condition.names ++ (thenBranch.names ++ elseBranch.names)
  | .print_ expr => expr.names
  | .return_ _ value => Expr.namesOptional value
  | .var_ name initializer => name.lexeme :: Expr.namesOptional initializer
  | .while_ condition body => condition.names ++ body.names

def Stmt.namesAll : List Stmt → List String
  | [] => []
  | stmt :: rest => stmt.names ++ Stmt.namesAll rest

/-- The name of a method is none of a variable. -/
def FunctionDecl.names : FunctionDecl → List String
  | .mk _ params body => params.map Token.lexeme ++ Stmt.namesAll body

def FunctionDecl.namesAll : List FunctionDecl → List String
  | [] => []
  | method :: rest => method.names ++ FunctionDecl.namesAll rest

end

/-- Whether the statement declares a variable by this name. -/
def Stmt.isVar (name : String) : Stmt → Bool
  | .var_ declared _ => declared.lexeme == name
  | _ => false

def Stmt.definition? : Stmt → Option Token
  | .class_ name _ _ => some name
  | .function declaration => some declaration.name
  | _ => none

/-- The scope of a block, a function or a method. Its place is the way down to it, the last step first: the number of a
    statement in its body, of a branch, or of a method. -/
structure LocalScope where
  place : List Nat
  params : List Token
  body : List Stmt

def LocalScope.declares (scope : LocalScope) (name : String) : Bool :=
  scope.params.any (·.lexeme == name) || scope.body.any (Stmt.isVar name)

mutual

def Stmt.scopes (place : List Nat) : Stmt → List LocalScope
  | .block body => ⟨place, [], body⟩ :: Stmt.scopesAll place 0 body
  | .class_ _ _ methods => FunctionDecl.scopesAll place 0 methods
  | .function declaration => declaration.scopes place
  | .ifThen _ thenBranch => thenBranch.scopes (0 :: place)
  | .ifThenElse _ thenBranch elseBranch => thenBranch.scopes (0 :: place) ++ elseBranch.scopes (1 :: place)
  | .while_ _ body => body.scopes (0 :: place)
  | .expression _ | .print_ _ | .return_ .. | .var_ .. => []

def Stmt.scopesAll (place : List Nat) (number : Nat) : List Stmt → List LocalScope
  | [] => []
  | stmt :: rest => stmt.scopes (number :: place) ++ Stmt.scopesAll place (number + 1) rest

def FunctionDecl.scopes (place : List Nat) : FunctionDecl → List LocalScope
  | .mk _ params body => ⟨place, params, body⟩ :: Stmt.scopesAll place 0 body

def FunctionDecl.scopesAll (place : List Nat) (number : Nat) : List FunctionDecl → List LocalScope
  | [] => []
  | method :: rest => method.scopes (number :: place) ++ FunctionDecl.scopesAll place (number + 1) rest

end

def LocalScope.all (program : List Stmt) : List LocalScope := Stmt.scopesAll [] 0 program

/-- The place of a scope, the name of a variable there, and the name that it gets instead. -/
structure Renaming where
  place : List Nat
  old : String
  new : String
  named : IsName old.toList
  renamed : IsName new.toList
  other : new ≠ old

namespace Renaming

variable (ρ : Renaming)

def chooses (scope : LocalScope) : Bool := scope.place == ρ.place && scope.declares ρ.old

def name (chosen : Bool) (t : Token) : Token :=
  if chosen && t.lexeme == ρ.old then { t with lexeme := ρ.new } else t

/-- Whether the scope at this distance is the chosen one, of enclosing scopes that are marked so; the innermost is the
    first. No scope is found for a global variable. -/
def bound (marks : List Bool) : Option Nat → Bool
  | some distance => marks.getD distance false
  | none => false

section

variable (distances : Std.TreeMap NodeId Nat)

mutual

def expr (marks : List Bool) : Expr → Expr
  | .assign id name value => .assign id (ρ.name (bound marks distances[id]?) name) (expr marks value)
  | .binary left operator right => .binary (expr marks left) operator (expr marks right)
  | .call callee paren arguments => .call (expr marks callee) paren (exprs marks arguments)
  | .get object name => .get (expr marks object) name
  | .grouping inner => .grouping (expr marks inner)
  | .constant value => .constant value
  | .logical left operator right => .logical (expr marks left) operator (expr marks right)
  | .set object name value => .set (expr marks object) name (expr marks value)
  | .super_ id keyword method => .super_ id keyword method
  | .this_ id keyword => .this_ id keyword
  | .unary operator right => .unary operator (expr marks right)
  | .variable_ id name => .variable_ id (ρ.name (bound marks distances[id]?) name)

def exprs (marks : List Bool) : List Expr → List Expr
  | [] => []
  | e :: rest => expr marks e :: exprs marks rest

end

mutual

/-- The statement at a place. A class has a scope for `this`, and one for `super` outside of it. -/
def stmt (marks : List Bool) (place : List Nat) : Stmt → Stmt
  | .block body => .block (stmts (ρ.chooses ⟨place, [], body⟩ :: marks) place 0 body)
  | .class_ name none methods => .class_ name none (functions (false :: marks) place 0 methods)
  | .class_ name (some superclass) methods =>
    .class_ name (some (ρ.expr distances marks superclass)) (functions (false :: false :: marks) place 0 methods)
  | .expression e => .expression (ρ.expr distances marks e)
  | .function declaration => .function (function marks place declaration)
  | .ifThen condition thenBranch => .ifThen (ρ.expr distances marks condition) (stmt marks (0 :: place) thenBranch)
  | .ifThenElse condition thenBranch elseBranch =>
    .ifThenElse (ρ.expr distances marks condition) (stmt marks (0 :: place) thenBranch)
      (stmt marks (1 :: place) elseBranch)
  | .print_ e => .print_ (ρ.expr distances marks e)
  | .return_ keyword value => .return_ keyword (value.map (ρ.expr distances marks))
  | .var_ name initializer => .var_ (ρ.name (bound marks (some 0)) name) (initializer.map (ρ.expr distances marks))
  | .while_ condition body => .while_ (ρ.expr distances marks condition) (stmt marks (0 :: place) body)

def stmts (marks : List Bool) (place : List Nat) (number : Nat) : List Stmt → List Stmt
  | [] => []
  | s :: rest => stmt marks (number :: place) s :: stmts marks place (number + 1) rest

def function (marks : List Bool) (place : List Nat) : FunctionDecl → FunctionDecl
  | .mk name params body =>
    let chosen := ρ.chooses ⟨place, params, body⟩
    .mk name (params.map (ρ.name chosen)) (stmts (chosen :: marks) place 0 body)

def functions (marks : List Bool) (place : List Nat) (number : Nat) : List FunctionDecl → List FunctionDecl
  | [] => []
  | d :: rest => function marks (number :: place) d :: functions marks place (number + 1) rest

end

def program (stated : List Stmt) : List Stmt := ρ.stmts distances [] [] 0 stated

end

/-- A token of the program with the other name: it is the same as before, or the new name where the old one was. -/
def Relabels (t t' : Token) : Prop :=
  t' = t ∨ t.kind = .identifier ∧ t.lexeme = ρ.old ∧ t' = { t with lexeme := ρ.new }

variable {ρ}

theorem Relabels.of_eq {t t' : Token} (same : t' = t) : ρ.Relabels t t' := .inl same

theorem Relabels.kind {t t' : Token} (relabels : ρ.Relabels t t') : t'.kind = t.kind := by
  rcases relabels with rfl | ⟨-, -, rfl⟩ <;> rfl

theorem Relabels.line {t t' : Token} (relabels : ρ.Relabels t t') : t'.line = t.line := by
  rcases relabels with rfl | ⟨-, -, rfl⟩ <;> rfl

theorem relabels_name (chosen : Bool) {t : Token} (identifier : t.kind = .identifier) :
    ρ.Relabels t (ρ.name chosen t) := by
  unfold name
  split
  · rename_i here
    rw [Bool.and_eq_true, beq_iff_eq] at here
    exact .inr ⟨identifier, here.2, rfl⟩
  · exact .inl rfl

theorem lexeme_name (chosen : Bool) (t : Token) :
    (ρ.name chosen t).lexeme = if chosen && t.lexeme == ρ.old then ρ.new else t.lexeme := by
  unfold name
  split <;> rfl

section

variable (ρ) (distances : Std.TreeMap NodeId Nat)

def scope (marks : List Bool) (s : LocalScope) : LocalScope :=
  ⟨s.place, s.params.map (ρ.name (ρ.chooses s)), ρ.stmts distances (ρ.chooses s :: marks) s.place 0 s.body⟩

variable {ρ distances}

mutual

theorem mem_scopes_stmt {l : LocalScope} : ∀ {marks : List Bool} {place : List Nat} (s : Stmt), l ∈ s.scopes place →
    ∃ marks', ρ.scope distances marks' l ∈ (ρ.stmt distances marks place s).scopes place
  | marks, place, .block body, member => by
    rcases List.mem_cons.mp member with rfl | inside
    · exact ⟨marks, List.mem_cons_self⟩
    · obtain ⟨marks', found⟩ := mem_scopes_stmts body inside
      exact ⟨marks', List.mem_cons_of_mem _ found⟩
  | marks, place, .class_ name none methods, member => mem_scopes_functions methods member
  | marks, place, .class_ name (some superclass) methods, member => mem_scopes_functions methods member
  | marks, place, .function d, member => mem_scopes_function d member
  | marks, place, .ifThen condition thenBranch, member => mem_scopes_stmt thenBranch member
  | marks, place, .ifThenElse condition thenBranch elseBranch, member => by
    rcases List.mem_append.mp member with inside | inside
    · obtain ⟨marks', found⟩ := mem_scopes_stmt thenBranch inside
      exact ⟨marks', List.mem_append_left _ found⟩
    · obtain ⟨marks', found⟩ := mem_scopes_stmt elseBranch inside
      exact ⟨marks', List.mem_append_right _ found⟩
  | marks, place, .while_ condition body, member => mem_scopes_stmt body member
  | _, _, .expression _, member | _, _, .print_ _, member | _, _, .return_ .., member | _, _, .var_ .., member =>
    nomatch member

theorem mem_scopes_stmts {l : LocalScope} : ∀ {marks : List Bool} {place : List Nat} {number : Nat} (ss : List Stmt),
    l ∈ Stmt.scopesAll place number ss →
    ∃ marks', ρ.scope distances marks' l ∈ Stmt.scopesAll place number (ρ.stmts distances marks place number ss)
  | _, _, _, [], member => nomatch member
  | _, _, _, s :: rest, member => by
    rcases List.mem_append.mp member with inside | inside
    · obtain ⟨marks', found⟩ := mem_scopes_stmt s inside
      exact ⟨marks', List.mem_append_left _ found⟩
    · obtain ⟨marks', found⟩ := mem_scopes_stmts rest inside
      exact ⟨marks', List.mem_append_right _ found⟩

theorem mem_scopes_function {l : LocalScope} : ∀ {marks : List Bool} {place : List Nat} (d : FunctionDecl),
    l ∈ d.scopes place → ∃ marks', ρ.scope distances marks' l ∈ (ρ.function distances marks place d).scopes place
  | marks, _, .mk name params body, member => by
    rcases List.mem_cons.mp member with rfl | inside
    · exact ⟨marks, List.mem_cons_self⟩
    · obtain ⟨marks', found⟩ := mem_scopes_stmts body inside
      exact ⟨marks', List.mem_cons_of_mem _ found⟩

theorem mem_scopes_functions {l : LocalScope} :
    ∀ {marks : List Bool} {place : List Nat} {number : Nat} (ds : List FunctionDecl),
    l ∈ FunctionDecl.scopesAll place number ds →
    ∃ marks', ρ.scope distances marks' l ∈ FunctionDecl.scopesAll place number (ρ.functions distances marks place number ds)
  | _, _, _, [], member => nomatch member
  | _, _, _, d :: rest, member => by
    rcases List.mem_append.mp member with inside | inside
    · obtain ⟨marks', found⟩ := mem_scopes_function d inside
      exact ⟨marks', List.mem_append_left _ found⟩
    · obtain ⟨marks', found⟩ := mem_scopes_functions rest inside
      exact ⟨marks', List.mem_append_right _ found⟩

end

theorem any_isVar_stmts {marks : List Bool} {place : List Nat} (name : String) (number : Nat) (ss : List Stmt) :
    (ρ.stmts distances (true :: marks) place number ss).any (Stmt.isVar name) =
      ss.any fun s => match s with
        | .var_ declared _ => (ρ.name true declared).lexeme == name
        | _ => false := by
  induction ss generalizing number with
  | nil => rfl
  | cons s rest ih =>
    rw [stmts, List.any_cons, List.any_cons, ih]
    congr 1
    cases s with
    | class_ declared superclass methods => cases superclass <;> rfl
    | _ => rfl

theorem declares_scope {marks : List Bool} {l : LocalScope} (chosen : ρ.chooses l = true) :
    (ρ.scope distances marks l).declares ρ.new = true ∧ (ρ.scope distances marks l).declares ρ.old = false := by
  have declared : l.declares ρ.old = true := (Bool.and_eq_true _ _ ▸ chosen : _ ∧ _).2
  unfold LocalScope.declares scope at *
  rw [chosen]
  dsimp only
  rw [any_isVar_stmts, any_isVar_stmts, List.any_map, List.any_map]
  constructor
  · rw [Bool.or_eq_true, List.any_eq_true, List.any_eq_true] at declared ⊢
    rcases declared with ⟨param, member, same⟩ | ⟨s, member, isVar⟩
    · refine .inl ⟨param, member, ?_⟩
      simp [lexeme_name, eq_of_beq same]
    · refine .inr ⟨s, member, ?_⟩
      cases s with
      | var_ declared initializer => simp [lexeme_name, eq_of_beq isVar]
      | _ => cases isVar
  · rw [Bool.or_eq_false_iff, List.any_eq_false, List.any_eq_false]
    have changed (t : Token) : (ρ.name true t).lexeme ≠ ρ.old := by
      rw [lexeme_name]
      split
      · exact ρ.other
      · rename_i differs
        simpa using differs
    refine ⟨fun param _ => ?_, fun s _ => ?_⟩
    · simpa using changed param
    · cases s with
      | var_ declared initializer => simpa using changed declared
      | _ => exact Bool.false_ne_true

end

end Renaming
end Lox
