import Lox.Proofs.Scope.Shape

namespace Lox.Scope

def Walk.onto (w below : Walk) : Walk :=
  { w with references := w.references ++ below.references, misuses := w.misuses ++ below.misuses }

section

variable (below : Walk)

namespace Walk

theorem complain_onto (w : Walk) (token : Token) (fault : Fault) :
    (w.onto below).complain token fault = (w.complain token fault).onto below := rfl

theorem complainIf_onto (w : Walk) (wrong : Bool) (token : Token) (fault : Fault) :
    (w.onto below).complainIf wrong token fault = (w.complainIf wrong token fault).onto below := by
  unfold complainIf
  split <;> rfl

theorem enter_onto (w : Walk) (names : Names) : (w.onto below).enter names = (w.enter names).onto below := rfl

theorem leave_onto (w : Walk) : (w.onto below).leave = w.leave.onto below := rfl

theorem declare_onto (w : Walk) (name : Token) : (w.onto below).declare name = (w.declare name).onto below := by
  obtain ⟨scopes, references, misuses⟩ := w
  cases scopes with
  | nil => rfl
  | cons names outer =>
    unfold declare Walk.onto
    dsimp only
    split <;> rfl

theorem define_onto (w : Walk) (name : Token) : (w.onto below).define name = (w.define name).onto below := by
  obtain ⟨scopes, references, misuses⟩ := w
  cases scopes <;> rfl

theorem bind_onto (w : Walk) (name : Token) : (w.onto below).bind name = (w.bind name).onto below := by
  rw [bind, declare_onto, define_onto, bind]

theorem bindAll_onto (names : List Token) (w : Walk) :
    names.foldl bind (w.onto below) = (names.foldl bind w).onto below := by
  induction names generalizing w with
  | nil => rfl
  | cons name rest ih => rw [List.foldl_cons, bind_onto, ih, List.foldl_cons]

theorem refer_onto (w : Walk) (id : NodeId) (name : Token) :
    (w.onto below).refer id name = (w.refer id name).onto below := by
  unfold refer Walk.onto
  dsimp only
  split <;> rfl

end Walk

theorem checkSuperclass_onto (name : Token) (superclass : Expr) (w : Walk) :
    checkSuperclass name superclass (w.onto below) = (checkSuperclass name superclass w).onto below := by
  unfold checkSuperclass
  split
  · exact Walk.complainIf_onto ..
  · rfl

theorem checkReturn_onto (context : Context) (keyword : Token) (value : Option Expr) (w : Walk) :
    checkReturn context keyword value (w.onto below) = (checkReturn context keyword value w).onto below := by
  unfold checkReturn
  rw [Walk.complainIf_onto, Walk.complainIf_onto]

mutual

theorem walkExpr_onto (context : Context) : ∀ (expr : Expr) (w : Walk),
    walkExpr context expr (w.onto below) = (walkExpr context expr w).onto below
  | .assign id name value, w => by rw [walkExpr, walkExpr_onto context value, Walk.refer_onto, walkExpr]
  | .binary left _ right, w | .logical left _ right, w => by
    rw [walkExpr, walkExpr_onto context left, walkExpr_onto context right, walkExpr]
  | .call callee _ arguments, w => by
    rw [walkExpr, walkExpr_onto context callee, walkExprs_onto context arguments, walkExpr]
  | .get inner _, w | .grouping inner, w | .unary _ inner, w => by rw [walkExpr, walkExpr_onto context inner, walkExpr]
  | .constant _, w => by rw [walkExpr, walkExpr]
  | .set object _ value, w => by
    rw [walkExpr, walkExpr_onto context value, walkExpr_onto context object, walkExpr]
  | .super_ id keyword _, w => by
    rw [walkExpr, walkExpr]
    cases context.class_ <;> simp only [Walk.complain_onto, Walk.refer_onto]
  | .this_ id keyword, w => by
    rw [walkExpr, walkExpr]
    split
    · rfl
    · exact Walk.refer_onto ..
  | .variable_ id name, w => by
    rw [walkExpr, walkExpr]
    show (if w.isInitializing name then _ else _) = _
    split
    · rfl
    · exact Walk.refer_onto ..

theorem walkExprs_onto (context : Context) : ∀ (exprs : List Expr) (w : Walk),
    walkExprs context exprs (w.onto below) = (walkExprs context exprs w).onto below
  | [], w => by rw [walkExprs, walkExprs]
  | expr :: rest, w => by rw [walkExprs, walkExpr_onto context expr, walkExprs_onto context rest, walkExprs]

end

theorem walkOptional_onto (context : Context) (expr? : Option Expr) (w : Walk) :
    walkOptional context expr? (w.onto below) = (walkOptional context expr? w).onto below := by
  cases expr? with
  | none => rfl
  | some expr => exact walkExpr_onto below context expr w

mutual

theorem walkStmt_onto (context : Context) : ∀ (stmt : Stmt) (w : Walk),
    walkStmt context stmt (w.onto below) = (walkStmt context stmt w).onto below
  | .block body, w => by rw [walkStmt, Walk.enter_onto, walkStmts_onto context body, Walk.leave_onto, walkStmt]
  | .class_ name none methods, w => by
    rw [walkStmt, Walk.bind_onto, Walk.enter_onto, walkMethods_onto _ methods, Walk.leave_onto, walkStmt]
  | .class_ name (some superclass) methods, w => by
    simp only [walkStmt, walkSuperclass_eq, Walk.bind_onto, checkSuperclass_onto, walkExpr_onto, Walk.enter_onto,
      walkMethods_onto _ methods, Walk.leave_onto]
  | .expression expr, w | .print_ expr, w => by rw [walkStmt, walkExpr_onto, walkStmt]
  | .function declaration, w => by rw [walkStmt, Walk.bind_onto, walkFunction_onto _ declaration, walkStmt]
  | .ifThen condition thenBranch, w => by rw [walkStmt, walkExpr_onto, walkStmt_onto context thenBranch, walkStmt]
  | .ifThenElse condition thenBranch elseBranch, w => by
    rw [walkStmt, walkExpr_onto, walkStmt_onto context thenBranch, walkStmt_onto context elseBranch, walkStmt]
  | .return_ keyword value, w => by
    rw [walkStmt, walkStmt]
    show walkOptional context value (checkReturn context keyword value (w.onto below)) = _
    rw [checkReturn_onto, walkOptional_onto]
    rfl
  | .var_ name initializer, w => by
    rw [walkStmt, Walk.declare_onto, walkOptional_onto, Walk.define_onto, walkStmt]
  | .while_ condition body, w => by rw [walkStmt, walkExpr_onto, walkStmt_onto context body, walkStmt]

theorem walkStmts_onto (context : Context) : ∀ (stmts : List Stmt) (w : Walk),
    walkStmts context stmts (w.onto below) = (walkStmts context stmts w).onto below
  | [], w => by rw [walkStmts, walkStmts]
  | stmt :: rest, w => by rw [walkStmts, walkStmt_onto context stmt, walkStmts_onto context rest, walkStmts]

theorem walkFunction_onto (context : Context) : ∀ (declaration : FunctionDecl) (w : Walk),
    walkFunction context declaration (w.onto below) = (walkFunction context declaration w).onto below
  | .mk _ params body, w => by
    rw [walkFunction, Walk.enter_onto, Walk.bindAll_onto, walkStmts_onto context body, Walk.leave_onto, walkFunction]

theorem walkMethods_onto (context : Context) : ∀ (methods : List FunctionDecl) (w : Walk),
    walkMethods context methods (w.onto below) = (walkMethods context methods w).onto below
  | [], w => by rw [walkMethods, walkMethods]
  | method :: rest, w => by
    simp only [walkMethods, walkFunction_onto _ method, walkMethods_onto context rest]

end

end

theorem walkStmts_append (context : Context) (first second : List Stmt) (w : Walk) :
    walkStmts context (first ++ second) w = walkStmts context second (walkStmts context first w) := by
  induction first generalizing w with
  | nil => rfl
  | cons stmt rest ih => rw [List.cons_append, walkStmts, ih, walkStmts]

theorem scopes_walkStmts_top {program : List Stmt} (legal : ∀ stmt ∈ program, stmt.Legal) {w : Walk}
    (top : w.scopes = []) : (walkStmts .top program w).scopes = [] := by
  induction program generalizing w with
  | nil => rw [walkStmts, top]
  | cons stmt rest ih =>
    obtain ⟨here, others⟩ := List.forall_mem_cons.mp legal
    rw [walkStmts]
    exact ih others (by rw [scopes_walkStmt _ _ _ here, top, declareIn_nil])

theorem resolve_append {first : List Stmt} (legal : ∀ stmt ∈ first, stmt.Legal) (second : List Stmt) :
    resolve (first ++ second) = ⟨(resolve first).references ++ (resolve second).references,
      (resolve first).misuses ++ (resolve second).misuses⟩ := by
  have below : walkStmts .top first .start = Walk.start.onto (walkStmts .top first .start) := by
    have top := scopes_walkStmts_top legal (w := .start) rfl
    generalize walkStmts .top first .start = w at top ⊢
    obtain ⟨scopes, references, misuses⟩ := w
    obtain rfl : scopes = [] := top
    rfl
  unfold resolve
  rw [walkStmts_append, below, walkStmts_onto, ← below]
  simp only [Walk.onto, List.reverse_append]

end Lox.Scope
