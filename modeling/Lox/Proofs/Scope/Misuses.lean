import Lox.Proofs.Scope.Places
import Lox.Proofs.Scope.Resolved

namespace Lox

open Scope

/-- What must not stand at a path. -/
inductive Misplaced : Node → Path → Prop where
  /-- Two declarations of one name in a block. -/
  | twiceInBlock {body : List Stmt} {path : Path} (twice : ¬(Stmt.declared body).Nodup) :
      Misplaced (.stmt (.block body)) path
  /-- Two declarations of one name in a function; its parameters and its body are one scope. -/
  | twiceInFunction {d : FunctionDecl} {path : Path}
      (twice : ¬(d.params.map Token.lexeme ++ Stmt.declared d.body).Nodup) : Misplaced (.function d) path
  | twiceInMethod {d : FunctionDecl} {path : Path}
      (twice : ¬(d.params.map Token.lexeme ++ Stmt.declared d.body).Nodup) : Misplaced (.method d) path
  | ownInitializer {id : NodeId} {name : Token} {path : Path} (inside : path.initializing? = some name.lexeme) :
      Misplaced (.expr (.variable_ id name)) path
  | returnAtTop {keyword : Token} {value : Option Expr} {path : Path} (outside : path.function? = none) :
      Misplaced (.stmt (.return_ keyword value)) path
  | returnFromInitializer {keyword : Token} {value : Expr} {d : FunctionDecl} {path : Path}
      (inside : path.function? = some (.method d)) (initializer : d.name.lexeme = initializerName) :
      Misplaced (.stmt (.return_ keyword (some value))) path
  | thisOutsideClass {id : NodeId} {keyword : Token} {path : Path} (outside : path.class? = none) :
      Misplaced (.expr (.this_ id keyword)) path
  | superOutsideClass {id : NodeId} {keyword method : Token} {path : Path} (outside : path.class? = none) :
      Misplaced (.expr (.super_ id keyword method)) path
  | superWithoutSuperclass {id : NodeId} {keyword method name : Token} {methods : List FunctionDecl} {path : Path}
      (inside : path.class? = some (.stmt (.class_ name none methods))) :
      Misplaced (.expr (.super_ id keyword method)) path
  | selfInheritance {id : NodeId} {name superName : Token} {methods : List FunctionDecl} {path : Path}
      (same : superName.lexeme = name.lexeme) :
      Misplaced (.stmt (.class_ name (some (.variable_ id superName)) methods)) path

def Node.Fine (n : Node) (path : Path) : Prop := ∀ m p, n.Within path m p → ¬Misplaced m p

theorem Node.fine_iff {n : Node} {path : Path} :
    n.Fine path ↔ ¬Misplaced n path ∧ ∀ (i : Nat) (c : Node), n.children[i]? = some c → c.Fine (⟨n, i⟩ :: path) := by
  constructor
  · intro fine
    exact ⟨fine n path .here, fun i c child m p within => fine m p (within.of_child child)⟩
  · rintro ⟨here, inside⟩ m p within
    rcases within.here_or_child with ⟨rfl, rfl⟩ | ⟨i, c, child, within⟩
    · exact here
    · exact inside i c child m p within

def Node.AllFine (n : Node) (path : Path) : Nat → List Node → Prop
  | _, [] => True
  | k, c :: rest => c.Fine (⟨n, k⟩ :: path) ∧ n.AllFine path (k + 1) rest

theorem Node.allFine_iff {n : Node} {path : Path} {k : Nat} {list : List Node} :
    n.AllFine path k list ↔ ∀ (i : Nat) (c : Node), list[i]? = some c → c.Fine (⟨n, k + i⟩ :: path) := by
  induction list generalizing k with
  | nil => simp [Node.AllFine]
  | cons c rest ih =>
    rw [Node.AllFine, ih]
    constructor
    · rintro ⟨first, others⟩ i d here
      cases i with
      | zero =>
        cases here
        exact first
      | succ i => simpa only [Nat.add_right_comm, Nat.add_assoc] using others i d here
    · intro all
      refine ⟨all 0 c rfl, fun i d here => ?_⟩
      simpa only [Nat.add_right_comm, Nat.add_assoc] using all (i + 1) d here

theorem Node.fine_iff_children {n : Node} {path : Path} :
    n.Fine path ↔ ¬Misplaced n path ∧ n.AllFine path 0 n.children := by
  rw [Node.fine_iff, Node.allFine_iff]
  simp only [Nat.zero_add]

theorem Node.fine_iff_of_plain {n : Node} {path : Path} (plain : ¬Misplaced n path) :
    n.Fine path ↔ n.AllFine path 0 n.children := by
  simp [Node.fine_iff_children, plain]

def Path.functionContext (path : Path) : FunctionContext :=
  match path.function? with
  | none => .none
  | some (.method d) => roleOf d
  | some _ => .function

def Path.classContext (path : Path) : ClassContext :=
  match path.class? with
  | none => .none
  | some (.stmt (.class_ _ none _)) => .base
  | some _ => .derived

namespace Scope

section

variable {w : Walk} {name : Token} {scopes : List Names} {x : String} {list rest : List String}

@[simp] theorem Walk.misuses_enter (w : Walk) (names : Names) : (w.enter names).misuses = w.misuses := rfl

@[simp] theorem Walk.misuses_leave (w : Walk) : w.leave.misuses = w.misuses := rfl

@[simp] theorem Walk.misuses_refer (w : Walk) (id : NodeId) (name : Token) : (w.refer id name).misuses = w.misuses := by
  unfold Walk.refer
  split <;> rfl

@[simp] theorem Walk.misuses_define (w : Walk) (name : Token) : (w.define name).misuses = w.misuses := by
  unfold Walk.define
  split <;> rfl

theorem Walk.misuses_complainIf_eq_nil {wrong : Bool} {token : Token} {fault : Fault} :
    (w.complainIf wrong token fault).misuses = [] ↔ w.misuses = [] ∧ wrong = false := by
  cases wrong <;> simp [Walk.complainIf, Walk.complain]

def Fresh : List Names → List String → Prop
  | [], _ => True
  | names :: _, list => list.Nodup ∧ ∀ x ∈ list, names.contains x = false

theorem fresh_nil (scopes : List Names) : Fresh scopes [] := by
  cases scopes with
  | nil => trivial
  | cons names outer => exact ⟨.nil, by simp⟩

theorem fresh_cons : Fresh scopes (x :: rest) ↔ Fresh scopes [x] ∧ Fresh (bindInnermost x scopes) rest := by
  cases scopes with
  | nil => exact (and_self_iff (a := True)).symm
  | cons names outer =>
    have bound (other : String) : (names.bind x).contains other = false ↔ x ≠ other ∧ names.contains other = false := by
      rw [Bindings.contains, Names.find?_bind]
      by_cases same : x = other <;> simp [same, Bindings.contains]
    simp only [Fresh, bindInnermost, bound, List.nodup_cons, List.forall_mem_cons]
    grind

theorem misuses_declare_eq_nil : (w.declare name).misuses = [] ↔ w.misuses = [] ∧ Fresh w.scopes [name.lexeme] := by
  unfold Walk.declare
  cases scopes : w.scopes with
  | nil => simp [Fresh]
  | cons names outer => by_cases held : names.contains name.lexeme = true <;> simp [Fresh, held, Walk.complain]

theorem misuses_bind_eq_nil : (w.bind name).misuses = [] ↔ w.misuses = [] ∧ Fresh w.scopes [name.lexeme] := by
  rw [Walk.bind, Walk.misuses_define, misuses_declare_eq_nil]

theorem misuses_bindAll_eq_nil {params : List Token} :
    (params.foldl Walk.bind w).misuses = [] ↔ w.misuses = [] ∧ Fresh w.scopes (params.map Token.lexeme) := by
  induction params generalizing w with
  | nil => simp [fresh_nil]
  | cons param others ih =>
    rw [List.foldl_cons, ih, misuses_bind_eq_nil, Walk.scopes_bind, and_assoc]
    exact and_congr_right fun _ => fresh_cons.symm

theorem fresh_declared_cons {stmt : Stmt} {others : List Stmt} :
    Fresh scopes (Stmt.declared (stmt :: others)) ↔
      Fresh scopes (stmt.declares?.map Token.lexeme).toList ∧ Fresh (declareIn stmt scopes) (Stmt.declared others) := by
  rw [Stmt.declared_cons, declareIn]
  cases stmt.declares? with
  | none => simp [fresh_nil]
  | some name => exact fresh_cons

end

structure Walk.AtExpr (w : Walk) (context : Context) (path : Path) : Prop where
  class_ : context.class_ = path.classContext
  initializing : ∀ name : Token, w.isInitializing name = true ↔ path.initializing? = some name.lexeme

theorem Walk.isInitializing_congr {w w' : Walk} (same : w'.scopes = w.scopes) (name : Token) :
    w'.isInitializing name = w.isInitializing name := by
  rw [Walk.isInitializing, Walk.isInitializing, same]

theorem Walk.AtExpr.same {w w' : Walk} {context : Context} {path : Path} (here : w.AtExpr context path)
    (same : w'.scopes = w.scopes) : w'.AtExpr context path :=
  ⟨here.class_, fun name => by rw [Walk.isInitializing_congr same, here.initializing]⟩

theorem Walk.AtExpr.operand {w w' : Walk} {context : Context} {path : Path} (here : w.AtExpr context path) (e : Expr)
    (i : Nat) (same : w'.scopes = w.scopes) : w'.AtExpr context (⟨.expr e, i⟩ :: path) := by
  refine ⟨?_, fun name => ?_⟩
  · rw [here.class_, Path.classContext, Path.classContext, Path.class?_cons]
    rfl
  · rw [Walk.isInitializing_congr same, here.initializing]
    rfl

section

variable {context : Context} {path : Path} {w : Walk} {id : NodeId}

theorem clean_super_iff {keyword method : Token} (here : w.AtExpr context path) :
    (walkExpr context (.super_ id keyword method) w).misuses = [] ↔
      w.misuses = [] ∧ ¬Misplaced (.expr (.super_ id keyword method)) path := by
  rw [walkExpr, Walk.misuses_refer, here.class_, Path.classContext]
  cases around : path.class? with
  | none =>
    have wrong : Misplaced (.expr (.super_ id keyword method)) path := .superOutsideClass around
    simp [wrong, Walk.complain]
  | some n =>
    obtain ⟨name, superclass, methods, rfl⟩ := Path.class?_eq_some around
    cases superclass with
    | none =>
      have wrong : Misplaced (.expr (.super_ id keyword method)) path := .superWithoutSuperclass around
      simp [wrong, Walk.complain]
    | some e =>
      have right : ¬Misplaced (.expr (.super_ id keyword method)) path := by
        intro wrong
        cases wrong with
        | superOutsideClass outside => cases around.symm.trans outside
        | superWithoutSuperclass inside => cases around.symm.trans inside
      simp [right]

theorem clean_this_iff {keyword : Token} (here : w.AtExpr context path) :
    (walkExpr context (.this_ id keyword) w).misuses = [] ↔
      w.misuses = [] ∧ ¬Misplaced (.expr (.this_ id keyword)) path := by
  rw [walkExpr, here.class_, Path.classContext]
  cases around : path.class? with
  | none =>
    have wrong : Misplaced (.expr (.this_ id keyword)) path := .thisOutsideClass around
    simp [wrong, Walk.complain]
  | some n =>
    obtain ⟨name, superclass, methods, rfl⟩ := Path.class?_eq_some around
    have right : ¬Misplaced (.expr (.this_ id keyword)) path := by
      intro wrong
      cases wrong with
      | thisOutsideClass outside => cases around.symm.trans outside
    cases superclass <;> simp [right]

theorem clean_variable_iff {name : Token} (here : w.AtExpr context path) :
    (walkExpr context (.variable_ id name) w).misuses = [] ↔
      w.misuses = [] ∧ ¬Misplaced (.expr (.variable_ id name)) path := by
  have wrong_iff : Misplaced (.expr (.variable_ id name)) path ↔ w.isInitializing name = true := by
    rw [here.initializing]
    constructor
    · rintro (⟨⟩ | ⟨⟩ | ⟨⟩ | inside)
      exact inside
    · exact .ownInitializer
  rw [walkExpr, wrong_iff]
  by_cases initializing : w.isInitializing name = true <;> simp [initializing, Walk.complain]

theorem fine_expr_iff {e : Expr} (plain : ¬Misplaced (.expr e) path) :
    Node.Fine (.expr e) path ↔ Node.AllFine (.expr e) path 0 (e.operands.map .expr) := Node.fine_iff_of_plain plain

theorem fine_leaf_iff {e : Expr} (leaf : e.operands = []) : Node.Fine (.expr e) path ↔ ¬Misplaced (.expr e) path := by
  rw [Node.fine_iff_children, Node.children, leaf]
  simp [Node.AllFine]

end

mutual

theorem clean_walkExpr (context : Context) : ∀ (e : Expr) {path : Path} {w : Walk}, w.AtExpr context path →
    ((walkExpr context e w).misuses = [] ↔ w.misuses = [] ∧ Node.Fine (.expr e) path)
  | .assign id name value, path, w, here => by
    rw [fine_expr_iff (e := .assign id name value) (by nofun), walkExpr, Walk.misuses_refer,
      clean_walkExpr context value (here.operand (.assign id name value) 0 rfl)]
    simp [Node.AllFine, Expr.operands]
  | .binary left operator right, path, w, here => by
    rw [fine_expr_iff (e := .binary left operator right) (by nofun), walkExpr,
      clean_walkExpr context right (here.operand (.binary left operator right) 1 (scopes_walkExpr ..)),
      clean_walkExpr context left (here.operand (.binary left operator right) 0 rfl)]
    simp [Node.AllFine, Expr.operands, and_assoc]
  | .call callee paren arguments, path, w, here => by
    rw [fine_expr_iff (e := .call callee paren arguments) (by nofun), walkExpr,
      clean_walkExprs context arguments (.call callee paren arguments) 1 (here.same (scopes_walkExpr ..)),
      clean_walkExpr context callee (here.operand (.call callee paren arguments) 0 rfl)]
    simp [Node.AllFine, Expr.operands, and_assoc]
  | .get object name, path, w, here => by
    rw [fine_expr_iff (e := .get object name) (by nofun), walkExpr,
      clean_walkExpr context object (here.operand (.get object name) 0 rfl)]
    simp [Node.AllFine, Expr.operands]
  | .grouping inner, path, w, here => by
    rw [fine_expr_iff (e := .grouping inner) (by nofun), walkExpr,
      clean_walkExpr context inner (here.operand (.grouping inner) 0 rfl)]
    simp [Node.AllFine, Expr.operands]
  | .constant value, path, w, here => by
    rw [fine_expr_iff (e := .constant value) (by nofun), walkExpr]
    simp [Node.AllFine, Expr.operands]
  | .logical left operator right, path, w, here => by
    rw [fine_expr_iff (e := .logical left operator right) (by nofun), walkExpr,
      clean_walkExpr context right (here.operand (.logical left operator right) 1 (scopes_walkExpr ..)),
      clean_walkExpr context left (here.operand (.logical left operator right) 0 rfl)]
    simp [Node.AllFine, Expr.operands, and_assoc]
  | .set object name value, path, w, here => by
    rw [fine_expr_iff (e := .set object name value) (by nofun), walkExpr,
      clean_walkExpr context object (here.operand (.set object name value) 0 (scopes_walkExpr ..)),
      clean_walkExpr context value (here.operand (.set object name value) 1 rfl)]
    simp [Node.AllFine, Expr.operands, and_comm, and_left_comm]
  | .super_ id keyword method, path, w, here => by rw [clean_super_iff here, fine_leaf_iff rfl]
  | .this_ id keyword, path, w, here => by rw [clean_this_iff here, fine_leaf_iff rfl]
  | .unary operator right, path, w, here => by
    rw [fine_expr_iff (e := .unary operator right) (by nofun), walkExpr,
      clean_walkExpr context right (here.operand (.unary operator right) 0 rfl)]
    simp [Node.AllFine, Expr.operands]
  | .variable_ id name, path, w, here => by rw [clean_variable_iff here, fine_leaf_iff rfl]

theorem clean_walkExprs (context : Context) : ∀ (es : List Expr) (e : Expr) (k : Nat) {path : Path} {w : Walk},
    w.AtExpr context path →
    ((walkExprs context es w).misuses = [] ↔ w.misuses = [] ∧ Node.AllFine (.expr e) path k (es.map .expr))
  | [], e, k, path, w, here => by
    rw [walkExprs]
    simp [Node.AllFine]
  | first :: rest, e, k, path, w, here => by
    rw [walkExprs, clean_walkExprs context rest e (k + 1) (here.same (scopes_walkExpr ..)),
      clean_walkExpr context first (here.operand e k rfl), List.map_cons, Node.AllFine, and_assoc]

end

theorem Settled.not_initializing {w : Walk} (settled : Settled w.scopes) (name : Token) : w.isInitializing name = false := by
  unfold Walk.isInitializing
  cases scopes : w.scopes with
  | nil => rfl
  | cons names outer =>
    have complete := settled names (by simp [scopes]) name.lexeme
    simpa using complete

theorem Settled.bindAll {w : Walk} (settled : Settled w.scopes) (params : List Token) :
    Settled (params.foldl Walk.bind w).scopes := by
  induction params generalizing w with
  | nil => exact settled
  | cons param rest ih =>
    refine ih ?_
    rw [Walk.scopes_bind]
    exact settled.bind _

theorem Settled.declareIn {scopes : List Names} (settled : Settled scopes) (stmt : Stmt) :
    Settled (Scope.declareIn stmt scopes) := by
  unfold Scope.declareIn
  split
  · exact settled.bind _
  · exact settled

/-- What is around the path agrees with the context of the walk. -/
structure Context.At (context : Context) (path : Path) : Prop where
  function : context.function = path.functionContext
  class_ : context.class_ = path.classContext

theorem Context.At.plain {context : Context} {path : Path} {n : Node} (at_ : context.At path)
    (noFunction : n.isFunction = false) (noClass : n.isClass = false) (i : Nat) : context.At (⟨n, i⟩ :: path) := by
  refine ⟨?_, ?_⟩
  · rw [at_.function, Path.functionContext, Path.functionContext, Path.function?_cons, noFunction]
    rfl
  · rw [at_.class_, Path.classContext, Path.classContext, Path.class?_cons, noClass]
    rfl

structure Walk.AtStmt (w : Walk) (context : Context) (path : Path) (stmt : Stmt) : Prop where
  context : context.At path
  inner : Mirrors (declareIn stmt w.scopes) path.scopes
  settled : Settled w.scopes

namespace Walk.AtStmt

variable {w w' : Walk} {context : Context} {path : Path} {stmt : Stmt}

theorem expr (here : w.AtStmt context path stmt) (noClass : (Node.stmt stmt).isClass = false)
    (complete : ∀ i, Path.initializing? (⟨.stmt stmt, i⟩ :: path) = none) (i : Nat) (same : w'.scopes = w.scopes) :
    w'.AtExpr context (⟨.stmt stmt, i⟩ :: path) := by
  refine ⟨(here.context.plain rfl noClass i).class_, fun name => ?_⟩
  rw [Walk.isInitializing_congr same, here.settled.not_initializing, complete]
  simp

theorem branch {inner : Stmt} (here : w.AtStmt context path stmt) (noClass : (Node.stmt stmt).isClass = false)
    (plain : stmt.declares? = none) (innerPlain : inner.declares? = none)
    (closed : ∀ i, Position.scopes ⟨.stmt stmt, i⟩ = []) (i : Nat) (same : w'.scopes = w.scopes) :
    w'.AtStmt context (⟨.stmt stmt, i⟩ :: path) inner := by
  refine ⟨here.context.plain rfl noClass i, ?_, same ▸ here.settled⟩
  have mirrors := here.inner
  rw [declareIn_plain plain] at mirrors
  rw [declareIn_plain innerPlain, same, Path.scopes_cons, closed]
  exact mirrors

theorem initializer {name : Token} {e : Option Expr} (here : w.AtStmt context path (.var_ name e))
    (fresh : Fresh w.scopes [name.lexeme]) : (w.declare name).AtExpr context (⟨.stmt (.var_ name e), 0⟩ :: path) := by
  refine ⟨(here.context.plain rfl rfl 0).class_, fun other => ?_⟩
  have global : w.scopes = [] ↔ path.scopes = [] := by
    rw [← here.inner.eq_nil_iff]
    show _ ↔ bindInnermost name.lexeme w.scopes = []
    cases w.scopes <;> simp [bindInnermost]
  unfold Walk.isInitializing
  rw [Walk.scopes_declare, Path.initializing?]
  cases scopes : w.scopes with
  | nil => simp [global.mp scopes]
  | cons names outer =>
    have inside : path.scopes ≠ [] := fun closed => by simp [global.mpr closed] at scopes
    have complete := here.settled names (by simp [scopes]) other.lexeme
    rw [scopes] at fresh
    have new : names.contains name.lexeme = false := fresh.2 _ (by simp)
    simp only [new, inside, Bool.false_eq_true, ↓reduceIte, Bindings.find?_insert, beq_iff_eq, Option.some.injEq]
    by_cases same : name.lexeme = other.lexeme <;> simp [same, complete]

end Walk.AtStmt

structure Walk.AtList (w : Walk) (context : Context) (n : Node) (path : Path) (body : List Stmt) (k : Nat) : Prop where
  lists : n.Lists body
  context : ∀ i, context.At (⟨n, i⟩ :: path)
  top : ∀ i k, n.opens i k = [] → path.scopes = []
  mirrors : Mirrors w.scopes (n.opens k k ++ path.scopes)
  settled : Settled w.scopes

namespace Walk.AtList

variable {w : Walk} {context : Context} {n : Node} {path : Path} {body : List Stmt} {s : Stmt} {k : Nat}

theorem stmt (here : w.AtList context n path body k) (next : body[k]? = some s) :
    w.AtStmt context (⟨n, k⟩ :: path) s := by
  refine ⟨here.context k, ?_, here.settled⟩
  rw [Path.scopes_cons]
  exact here.mirrors.declareIn here.lists (here.top k k) next

theorem next (here : w.AtList context n path body k) (next : body[k]? = some s) (arranged : s.isArranged = true) :
    (walkStmt context s w).AtList context n path body (k + 1) := by
  refine ⟨here.lists, here.context, here.top, ?_, ?_⟩
  · rw [scopes_walkStmt_of_isArranged _ _ _ arranged]
    exact here.mirrors.declareIn here.lists (here.top k k) next
  · rw [scopes_walkStmt_of_isArranged _ _ _ arranged]
    exact here.settled.declareIn s

end Walk.AtList

theorem Mirrors.fresh_iff {scopes : List Names} {declared list : List String} {outer : List (List String)}
    (mirrors : Mirrors scopes (declared :: outer)) : Fresh scopes list ↔ list.Nodup ∧ ∀ x ∈ list, x ∉ declared := by
  cases scopes with
  | nil => exact absurd (mirrors.eq_nil_iff.mp rfl) (by simp)
  | cons names rest => simp [Fresh, ← (Mirrors.cons_iff.mp mirrors).1]

theorem fresh_body_iff {w : Walk} {outer : List (List String)} (mirrors : Mirrors w.scopes outer) {params : List Token}
    {body : List Stmt} : (params.map Token.lexeme ++ Stmt.declared body).Nodup ↔
      Fresh (w.enter []).scopes (params.map Token.lexeme) ∧
        Fresh (params.foldl Walk.bind (w.enter [])).scopes (Stmt.declared body) := by
  have opened : Mirrors (w.enter []).scopes ([] :: outer) := mirrors.enter
  rw [opened.fresh_iff, (opened.bindAll params).fresh_iff, List.nodup_append]
  grind

section

variable {path : Path}

theorem fine_stmt_iff {stmt : Stmt} (plain : ¬Misplaced (.stmt stmt) path) :
    Node.Fine (.stmt stmt) path ↔ Node.AllFine (.stmt stmt) path 0 (Node.children (.stmt stmt)) :=
  Node.fine_iff_of_plain plain

theorem clean_checkSuperclass_iff {w : Walk} {name : Token} {e : Expr} {methods : List FunctionDecl} :
    (checkSuperclass name e w).misuses = [] ↔
      w.misuses = [] ∧ ¬Misplaced (.stmt (.class_ name (some e) methods)) path := by
  cases e with
  | variable_ id superName =>
    have misplaced : Misplaced (.stmt (.class_ name (some (.variable_ id superName)) methods)) path ↔
        superName.lexeme = name.lexeme := ⟨fun (.selfInheritance same) => same, .selfInheritance⟩
    rw [checkSuperclass, Walk.misuses_complainIf_eq_nil, misplaced, decide_eq_false_iff_not]
  | _ => exact (and_iff_left (by nofun)).symm

theorem clean_checkReturn_iff {context : Context} {w : Walk} {keyword : Token} {value : Option Expr}
    (around : context.At path) : (checkReturn context keyword value w).misuses = [] ↔
      w.misuses = [] ∧ ¬Misplaced (.stmt (.return_ keyword value)) path := by
  have misplaced : Misplaced (.stmt (.return_ keyword value)) path ↔
      context.function = .none ∨ value.isSome = true ∧ context.function = .initializer := by
    rw [around.function, Path.functionContext]
    constructor
    · rintro (⟨⟩ | ⟨⟩ | ⟨⟩ | ⟨⟩ | outside | ⟨inside, initializer⟩)
      · simp [outside]
      · simp [inside, roleOf, FunctionDecl.isInitializer, initializer]
    · intro wrong
      cases inside : path.function? with
      | none => exact .returnAtTop inside
      | some n =>
        rw [inside] at wrong
        cases n with
        | method d =>
          cases value <;> by_cases initializer : d.isInitializer = true <;> simp [roleOf, initializer] at wrong
          exact .returnFromInitializer inside (by simpa [FunctionDecl.isInitializer] using initializer)
        | _ => simp at wrong
  rw [checkReturn, Walk.misuses_complainIf_eq_nil, Walk.misuses_complainIf_eq_nil, misplaced, and_assoc]
  simp

theorem fine_block_iff {body : List Stmt} : Node.Fine (.stmt (.block body)) path ↔
    (Stmt.declared body).Nodup ∧ Node.AllFine (.stmt (.block body)) path 0 (body.map .stmt) := by
  have misplaced : Misplaced (.stmt (.block body)) path ↔ ¬(Stmt.declared body).Nodup :=
    ⟨fun (.twiceInBlock twice) => twice, .twiceInBlock⟩
  rw [Node.fine_iff_children, misplaced, Decidable.not_not]
  rfl

theorem fine_function_iff {n : Node} {d : FunctionDecl} (of : n = .function d ∨ n = .method d) : n.Fine path ↔
    (d.params.map Token.lexeme ++ Stmt.declared d.body).Nodup ∧ n.AllFine path 0 (d.body.map .stmt) := by
  have misplaced : Misplaced n path ↔ ¬(d.params.map Token.lexeme ++ Stmt.declared d.body).Nodup := by
    rcases of with rfl | rfl
    · exact ⟨fun (.twiceInFunction twice) => twice, .twiceInFunction⟩
    · exact ⟨fun (.twiceInMethod twice) => twice, .twiceInMethod⟩
  rw [Node.fine_iff_children, misplaced, Decidable.not_not]
  rcases of with rfl | rfl <;> rfl

end

mutual

theorem clean_walkStmt (context : Context) : ∀ (stmt : Stmt) {path : Path} {w : Walk}, stmt.isArranged = true →
    w.AtStmt context path stmt →
    ((walkStmt context stmt w).misuses = [] ↔
      w.misuses = [] ∧ Fresh w.scopes (stmt.declares?.map Token.lexeme).toList ∧ Node.Fine (.stmt stmt) path)
  | .block body, path, w, arranged, here => by
    have list : (w.enter []).AtList context (.stmt (.block body)) path body 0 :=
      ⟨.block, here.context.plain rfl rfl, (fun _ _ closed => by cases closed), here.inner.enter,
        here.settled.enter (by simp [Bindings.find?])⟩
    have fresh : Fresh (w.enter []).scopes (Stmt.declared body) ↔ (Stmt.declared body).Nodup := by
      simp [Fresh, Bindings.contains, Bindings.find?]
    rw [walkStmt, Walk.misuses_leave, clean_walkStmts context body arranged list rfl, fresh, fine_block_iff,
      Walk.misuses_enter]
    simp [Stmt.declares?, fresh_nil]
  | .expression expr, path, w, arranged, here | .print_ expr, path, w, arranged, here => by
    rw [fine_stmt_iff (by nofun), walkStmt, clean_walkExpr context expr (here.expr rfl (fun _ => rfl) 0 rfl)]
    simp [Stmt.declares?, fresh_nil, Node.AllFine, Node.children]
  | .class_ name none methods, path, w, arranged, here => by
    have around (i : Nat) : ClassContext.base = Path.classContext (⟨.stmt (.class_ name none methods), i⟩ :: path) := rfl
    have mirrors : Mirrors ((w.bind name).enter [("this", true)]).scopes (["this"] :: path.scopes) := by
      rw [Walk.scopes_enter, Walk.scopes_bind]
      exact here.inner.single "this"
    have settled : Settled ((w.bind name).enter [("this", true)]).scopes := by
      rw [Walk.scopes_enter, Walk.scopes_bind]
      exact (here.settled.bind _).enter (by simp [Bindings.find?])
    rw [walkStmt, Walk.misuses_leave,
      clean_walkMethods _ methods (k := 0) arranged around (fun _ _ => mirrors) settled,
      Walk.misuses_enter, misuses_bind_eq_nil, fine_stmt_iff (by nofun), and_assoc]
    rfl
  | .class_ name (some superclass) methods, path, w, arranged, here => by
    have around (i : Nat) :
        ClassContext.derived = Path.classContext (⟨.stmt (.class_ name (some superclass) methods), i⟩ :: path) := rfl
    have mirrors : Mirrors (((walkSuperclass context name superclass (w.bind name)).enter [("super", true)]).enter
        [("this", true)]).scopes (["this"] :: ["super"] :: path.scopes) := by
      rw [Walk.scopes_enter, Walk.scopes_enter, scopes_walkSuperclass, Walk.scopes_bind]
      exact (here.inner.single "super").single "this"
    have bound : Settled (w.bind name).scopes := by
      rw [Walk.scopes_bind]
      exact here.settled.bind _
    have settled : Settled (((walkSuperclass context name superclass (w.bind name)).enter [("super", true)]).enter
        [("this", true)]).scopes := by
      rw [Walk.scopes_enter, Walk.scopes_enter, scopes_walkSuperclass]
      exact (bound.enter (by simp [Bindings.find?])).enter (by simp [Bindings.find?])
    have inherits : (checkSuperclass name superclass (w.bind name)).AtExpr { context with class_ := .derived }
        (⟨.stmt (.class_ name (some superclass) methods), 0⟩ :: path) := by
      refine ⟨around 0, fun other => ?_⟩
      rw [Walk.isInitializing_congr (scopes_checkSuperclass ..), bound.not_initializing]
      simp [Path.initializing?]
    have deeper (i : Nat) (method : 1 ≤ i) : Path.scopes (⟨.stmt (.class_ name (some superclass) methods), i⟩ :: path) =
        ["this"] :: ["super"] :: path.scopes := by
      cases i with
      | zero => cases method
      | succ i => rfl
    have fine : Node.Fine (.stmt (.class_ name (some superclass) methods)) path ↔
        ¬Misplaced (.stmt (.class_ name (some superclass) methods)) path ∧
          Node.Fine (.expr superclass) (⟨.stmt (.class_ name (some superclass) methods), 0⟩ :: path) ∧
          Node.AllFine (.stmt (.class_ name (some superclass) methods)) path 1 (methods.map .method) :=
      Node.fine_iff_children
    have checked : (checkSuperclass name superclass (w.bind name)).misuses = [] ↔ (w.bind name).misuses = [] ∧
        ¬Misplaced (.stmt (.class_ name (some superclass) methods)) path := clean_checkSuperclass_iff
    rw [walkStmt, Walk.misuses_leave, Walk.misuses_leave,
      clean_walkMethods _ methods (k := 1) arranged around (fun i method => deeper i method ▸ mirrors) settled,
      Walk.misuses_enter, Walk.misuses_enter, walkSuperclass_eq, clean_walkExpr _ superclass inherits,
      checked, misuses_bind_eq_nil, fine]
    simp [Stmt.declares?, and_assoc]
  | .function d, path, w, arranged, here => by
    have around (i : Nat) : Context.At { context with function := .function }
        (⟨.function d, i⟩ :: ⟨.stmt (.function d), 0⟩ :: path) :=
      ⟨rfl, ((here.context.plain (n := .stmt (.function d)) rfl rfl 0).class_.trans rfl)⟩
    have mirrors : Mirrors (w.bind d.name).scopes (Path.scopes (⟨.stmt (.function d), 0⟩ :: path)) := by
      rw [Walk.scopes_bind]
      exact here.inner
    have settled : Settled (w.bind d.name).scopes := by
      rw [Walk.scopes_bind]
      exact here.settled.bind _
    rw [fine_stmt_iff (by nofun), walkStmt, clean_walkFunction _ d arranged (.inl rfl) around mirrors settled,
      misuses_bind_eq_nil]
    simp [Stmt.declares?, Node.AllFine, Node.children, and_assoc]
  | .ifThen condition thenBranch, path, w, arranged, here => by
    simp only [Stmt.isArranged, Bool.and_eq_true, Option.isNone_iff_eq_none] at arranged
    have branch := here.branch rfl rfl arranged.1 (fun _ => rfl) 1 (scopes_walkExpr context condition w)
    rw [fine_stmt_iff (by nofun), walkStmt, clean_walkStmt context thenBranch arranged.2 branch,
      clean_walkExpr context condition (here.expr rfl (fun _ => rfl) 0 rfl), arranged.1]
    simp [Stmt.declares?, fresh_nil, Node.AllFine, Node.children, and_assoc]
  | .ifThenElse condition thenBranch elseBranch, path, w, arranged, here => by
    simp only [Stmt.isArranged, Bool.and_eq_true, Option.isNone_iff_eq_none] at arranged
    obtain ⟨⟨thenPlain, first⟩, elsePlain, second⟩ := arranged
    have passed : (walkStmt context thenBranch (walkExpr context condition w)).scopes = w.scopes := by
      rw [scopes_walkStmt_of_isArranged _ _ _ first, declareIn_plain thenPlain, scopes_walkExpr]
    rw [fine_stmt_iff (by nofun), walkStmt,
      clean_walkStmt context elseBranch second (here.branch rfl rfl elsePlain (fun _ => rfl) 2 passed),
      clean_walkStmt context thenBranch first (here.branch rfl rfl thenPlain (fun _ => rfl) 1 (scopes_walkExpr ..)),
      clean_walkExpr context condition (here.expr rfl (fun _ => rfl) 0 rfl), thenPlain, elsePlain]
    simp [Stmt.declares?, fresh_nil, Node.AllFine, Node.children, and_assoc]
  | .return_ keyword value, path, w, arranged, here => by
    have returned : walkStmt context (.return_ keyword value) w =
        walkOptional context value (checkReturn context keyword value w) := rfl
    rw [Node.fine_iff_children, returned]
    cases value with
    | none =>
      rw [walkOptional, Option.elim_none, clean_checkReturn_iff here.context]
      simp [Stmt.declares?, fresh_nil, Node.AllFine, Node.children]
    | some e =>
      rw [walkOptional, Option.elim_some,
        clean_walkExpr context e (here.expr rfl (fun _ => rfl) 0 (scopes_checkReturn ..)),
        clean_checkReturn_iff here.context]
      simp [Stmt.declares?, fresh_nil, Node.AllFine, Node.children, and_assoc]
  | .var_ name initializer, path, w, arranged, here => by
    rw [fine_stmt_iff (by nofun), walkStmt, Walk.misuses_define]
    have declared : Fresh w.scopes ((Stmt.var_ name initializer).declares?.map Token.lexeme).toList ↔
        Fresh w.scopes [name.lexeme] := Iff.rfl
    by_cases fresh : Fresh w.scopes [name.lexeme]
    · cases initializer with
      | none =>
        rw [walkOptional, Option.elim_none, misuses_declare_eq_nil, declared]
        simp [Node.AllFine, Node.children]
      | some e =>
        rw [walkOptional, Option.elim_some, clean_walkExpr context e (here.initializer fresh), misuses_declare_eq_nil,
          declared]
        simp [Node.AllFine, Node.children, and_assoc]
    · -- a second declaration is not even begun, so its initializer may read the first; it is a misuse whatever follows
      have misused : (walkOptional context initializer (w.declare name)).misuses ≠ [] := fun clean =>
        fresh (misuses_declare_eq_nil.mp (List.suffix_nil.mp (clean ▸ (walkOptional_leads ..).misuses))).2
      simp [misused, declared, fresh]
  | .while_ condition body, path, w, arranged, here => by
    simp only [Stmt.isArranged, Bool.and_eq_true, Option.isNone_iff_eq_none] at arranged
    have branch := here.branch rfl rfl arranged.1 (fun _ => rfl) 1 (scopes_walkExpr context condition w)
    rw [fine_stmt_iff (by nofun), walkStmt, clean_walkStmt context body arranged.2 branch,
      clean_walkExpr context condition (here.expr rfl (fun _ => rfl) 0 rfl), arranged.1]
    simp [Stmt.declares?, fresh_nil, Node.AllFine, Node.children, and_assoc]

theorem clean_walkStmts (context : Context) : ∀ (rest : List Stmt) {n : Node} {path : Path} {body : List Stmt} {k : Nat}
    {w : Walk}, Stmt.allArranged rest = true → w.AtList context n path body k → body.drop k = rest →
    ((walkStmts context rest w).misuses = [] ↔
      w.misuses = [] ∧ Fresh w.scopes (Stmt.declared rest) ∧ n.AllFine path k (rest.map .stmt))
  | [], n, path, body, k, w, arranged, here, left => by
    rw [walkStmts]
    simp [Node.AllFine, Stmt.declared, fresh_nil]
  | stmt :: rest, n, path, body, k, w, arranged, here, left => by
    simp only [Stmt.allArranged, Bool.and_eq_true] at arranged
    have next : body[k]? = some stmt := by rw [← List.head?_drop, left]; rfl
    have behind : body.drop (k + 1) = rest := by rw [← List.drop_drop, left]; rfl
    rw [walkStmts, clean_walkStmts context rest arranged.2 (here.next next arranged.1) behind,
      clean_walkStmt context stmt arranged.1 (here.stmt next), scopes_walkStmt_of_isArranged _ _ _ arranged.1,
      fresh_declared_cons, List.map_cons, Node.AllFine]
    simp only [and_assoc, and_left_comm]

theorem clean_walkFunction (context : Context) : ∀ (d : FunctionDecl) {n : Node} {path : Path} {w : Walk},
    d.isArranged = true → n = .function d ∨ n = .method d → (∀ i, context.At (⟨n, i⟩ :: path)) →
    Mirrors w.scopes path.scopes → Settled w.scopes →
    ((walkFunction context d w).misuses = [] ↔ w.misuses = [] ∧ n.Fine path)
  | .mk name params body, n, path, w, arranged, of, around, mirrors, settled => by
    have list : (params.foldl Walk.bind (w.enter [])).AtList context n path body 0 := by
      have inner := Mirrors.body mirrors (.mk name params body)
      have entered : Settled (w.enter []).scopes := settled.enter (by simp [Bindings.find?])
      rcases of with rfl | rfl
      · exact ⟨.function, around, (fun _ _ closed => by cases closed), inner, entered.bindAll params⟩
      · exact ⟨.method, around, (fun _ _ closed => by cases closed), inner, entered.bindAll params⟩
    rw [FunctionDecl.isArranged] at arranged
    rw [walkFunction, Walk.misuses_leave, clean_walkStmts context body arranged list rfl, misuses_bindAll_eq_nil,
      Walk.misuses_enter, fine_function_iff of, FunctionDecl.params, FunctionDecl.body, fresh_body_iff mirrors]
    simp only [and_assoc]

theorem clean_walkMethods (context : Context) : ∀ (ds : List FunctionDecl) {n : Node} {path : Path} {k : Nat} {w : Walk},
    FunctionDecl.allArranged ds = true → (∀ i, context.class_ = Path.classContext (⟨n, i⟩ :: path)) →
    (∀ i, k ≤ i → Mirrors w.scopes (Path.scopes (⟨n, i⟩ :: path))) → Settled w.scopes →
    ((walkMethods context ds w).misuses = [] ↔ w.misuses = [] ∧ n.AllFine path k (ds.map .method))
  | [], n, path, k, w, arranged, around, mirrors, settled => by
    rw [walkMethods]
    simp [Node.AllFine]
  | d :: rest, n, path, k, w, arranged, around, mirrors, settled => by
    simp only [FunctionDecl.allArranged, Bool.and_eq_true] at arranged
    have inside (i : Nat) : Context.At { context with function := roleOf d } (⟨.method d, i⟩ :: ⟨n, k⟩ :: path) :=
      ⟨rfl, around k⟩
    have same := scopes_walkFunction_of_isArranged { context with function := roleOf d } d w arranged.1
    have next : walkMethods context (d :: rest) w =
        walkMethods context rest (walkFunction { context with function := roleOf d } d w) := by
      rw [walkMethods]
      rfl
    rw [next, clean_walkMethods context rest (k := k + 1) arranged.2 around
        (fun i later => same ▸ mirrors i (Nat.le_of_succ_le later)) (same ▸ settled),
      clean_walkFunction _ d arranged.1 (.inr rfl) inside (mirrors k (Nat.le_refl k)) settled, List.map_cons, Node.AllFine,
      and_assoc]

end

theorem clean_iff_fine {program : List Stmt} (arranged : Stmt.allArranged program = true) :
    (walkStmts .top program .start).misuses = [] ↔ Node.Fine (.program program) [] := by
  have top : Walk.start.AtList .top (.program program) [] program 0 :=
    ⟨.program, fun _ => ⟨rfl, rfl⟩, fun _ _ _ => rfl, .nil, by simp [Settled, Walk.start]⟩
  have fine : Node.Fine (.program program) [] ↔ Node.AllFine (.program program) [] 0 (program.map .stmt) :=
    Node.fine_iff_of_plain fun misplaced => by cases misplaced
  rw [clean_walkStmts .top program arranged top rfl, ← fine]
  simp [Walk.start, Fresh]

end Scope

/-- A program is free of misuses exactly if nothing in it is misplaced. -/
theorem Scope.resolve_misuses_eq_nil_iff (tokens : List Token) (nextId : NodeId) :
    (resolve (parseProgram tokens nextId).value).misuses = [] ↔
      ¬∃ n path, Occurs (parseProgram tokens nextId).value n path ∧ Misplaced n path := by
  rw [resolve, List.reverse_eq_nil_iff, clean_iff_fine (parseProgram_isArranged tokens nextId)]
  simp [Node.Fine, Occurs]

end Lox
