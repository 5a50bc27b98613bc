import Lox.Scope
import Lox.Proofs.Tree.Numbering

namespace Lox.Scope

/-- What the walk goes over at once. -/
inductive Part where
  | expr (expr : Expr)
  | exprs (exprs : List Expr)
  | stmt (stmt : Stmt)
  | stmts (stmts : List Stmt)
  | function (declaration : FunctionDecl)
  | methods (methods : List FunctionDecl)

namespace Part

def ids : Part → List NodeId
  | expr e => e.ids
  | exprs es => Expr.idsAll es
  | stmt s => s.ids
  | stmts ss => Stmt.idsAll ss
  | function d => d.ids
  | methods ds => FunctionDecl.idsAll ds

def traverse (context : Context) : Part → Walk → Walk
  | expr e => walkExpr context e
  | exprs es => walkExprs context es
  | stmt s => walkStmt context s
  | stmts ss => walkStmts context ss
  | function d => walkFunction context d
  | methods ds => walkMethods context ds

end Part

/-- The walk when it comes to a part. -/
structure Visit where
  context : Context
  part : Part
  walk : Walk

def Visit.after (v : Visit) : Walk := v.part.traverse v.context v.walk

def checkSuperclass (name : Token) (superclass : Expr) (w : Walk) : Walk :=
  match superclass with
  | .variable_ _ superName => w.complainIf (superName.lexeme = name.lexeme) superName .selfInheritance
  | _ => w

theorem walkSuperclass_eq (context : Context) (name : Token) (superclass : Expr) (w : Walk) :
    walkSuperclass context name superclass w =
      walkExpr { context with class_ := .derived } superclass (checkSuperclass name superclass w) := rfl

def checkReturn (context : Context) (keyword : Token) (value : Option Expr) (w : Walk) : Walk :=
  (w.complainIf (context.function = .none) keyword .returnAtTop).complainIf
    (value.isSome && context.function = .initializer) keyword .returnFromInitializer

def roleOf (method : FunctionDecl) : FunctionContext := if method.isInitializer then .initializer else .method

/-- From inside the first visit, the walk comes to the second. -/
inductive Visit.Enters : Visit → Visit → Prop where
  | assigned {context : Context} {id : NodeId} {name : Token} {value : Expr} {w : Walk} :
      Enters ⟨context, .expr (.assign id name value), w⟩ ⟨context, .expr value, w⟩
  | leftOperand {context : Context} {left right : Expr} {operator : Token} {w : Walk} :
      Enters ⟨context, .expr (.binary left operator right), w⟩ ⟨context, .expr left, w⟩
  | rightOperand {context : Context} {left right : Expr} {operator : Token} {w : Walk} :
      Enters ⟨context, .expr (.binary left operator right), w⟩ ⟨context, .expr right, walkExpr context left w⟩
  | callee {context : Context} {callee : Expr} {paren : Token} {arguments : List Expr} {w : Walk} :
      Enters ⟨context, .expr (.call callee paren arguments), w⟩ ⟨context, .expr callee, w⟩
  | arguments {context : Context} {callee : Expr} {paren : Token} {arguments : List Expr} {w : Walk} :
      Enters ⟨context, .expr (.call callee paren arguments), w⟩
        ⟨context, .exprs arguments, walkExpr context callee w⟩
  | owner {context : Context} {object : Expr} {name : Token} {w : Walk} :
      Enters ⟨context, .expr (.get object name), w⟩ ⟨context, .expr object, w⟩
  | grouped {context : Context} {inner : Expr} {w : Walk} :
      Enters ⟨context, .expr (.grouping inner), w⟩ ⟨context, .expr inner, w⟩
  | leftChoice {context : Context} {left right : Expr} {operator : Token} {w : Walk} :
      Enters ⟨context, .expr (.logical left operator right), w⟩ ⟨context, .expr left, w⟩
  | rightChoice {context : Context} {left right : Expr} {operator : Token} {w : Walk} :
      Enters ⟨context, .expr (.logical left operator right), w⟩ ⟨context, .expr right, walkExpr context left w⟩
  | setValue {context : Context} {object value : Expr} {name : Token} {w : Walk} :
      Enters ⟨context, .expr (.set object name value), w⟩ ⟨context, .expr value, w⟩
  | setOwner {context : Context} {object value : Expr} {name : Token} {w : Walk} :
      Enters ⟨context, .expr (.set object name value), w⟩ ⟨context, .expr object, walkExpr context value w⟩
  | operand {context : Context} {operator : Token} {right : Expr} {w : Walk} :
      Enters ⟨context, .expr (.unary operator right), w⟩ ⟨context, .expr right, w⟩
  | firstExpr {context : Context} {expr : Expr} {rest : List Expr} {w : Walk} :
      Enters ⟨context, .exprs (expr :: rest), w⟩ ⟨context, .expr expr, w⟩
  | otherExprs {context : Context} {expr : Expr} {rest : List Expr} {w : Walk} :
      Enters ⟨context, .exprs (expr :: rest), w⟩ ⟨context, .exprs rest, walkExpr context expr w⟩
  | block {context : Context} {body : List Stmt} {w : Walk} :
      Enters ⟨context, .stmt (.block body), w⟩ ⟨context, .stmts body, w.enter []⟩
  | baseMethods {context : Context} {name : Token} {methods : List FunctionDecl} {w : Walk} :
      Enters ⟨context, .stmt (.class_ name none methods), w⟩
        ⟨{ context with class_ := .base }, .methods methods, (w.bind name).enter [("this", true)]⟩
  | superclass {context : Context} {name : Token} {superclass : Expr} {methods : List FunctionDecl} {w : Walk} :
      Enters ⟨context, .stmt (.class_ name (some superclass) methods), w⟩
        ⟨{ context with class_ := .derived }, .expr superclass, checkSuperclass name superclass (w.bind name)⟩
  | derivedMethods {context : Context} {name : Token} {superclass : Expr} {methods : List FunctionDecl} {w : Walk} :
      Enters ⟨context, .stmt (.class_ name (some superclass) methods), w⟩
        ⟨{ context with class_ := .derived }, .methods methods,
          ((walkSuperclass context name superclass (w.bind name)).enter [("super", true)]).enter [("this", true)]⟩
  | expression {context : Context} {expr : Expr} {w : Walk} :
      Enters ⟨context, .stmt (.expression expr), w⟩ ⟨context, .expr expr, w⟩
  | function {context : Context} {declaration : FunctionDecl} {w : Walk} :
      Enters ⟨context, .stmt (.function declaration), w⟩
        ⟨{ context with function := .function }, .function declaration, w.bind declaration.name⟩
  | ifCondition {context : Context} {condition : Expr} {thenBranch : Stmt} {w : Walk} :
      Enters ⟨context, .stmt (.ifThen condition thenBranch), w⟩ ⟨context, .expr condition, w⟩
  | ifBranch {context : Context} {condition : Expr} {thenBranch : Stmt} {w : Walk} :
      Enters ⟨context, .stmt (.ifThen condition thenBranch), w⟩
        ⟨context, .stmt thenBranch, walkExpr context condition w⟩
  | condition {context : Context} {condition : Expr} {thenBranch elseBranch : Stmt} {w : Walk} :
      Enters ⟨context, .stmt (.ifThenElse condition thenBranch elseBranch), w⟩ ⟨context, .expr condition, w⟩
  | thenBranch {context : Context} {condition : Expr} {thenBranch elseBranch : Stmt} {w : Walk} :
      Enters ⟨context, .stmt (.ifThenElse condition thenBranch elseBranch), w⟩
        ⟨context, .stmt thenBranch, walkExpr context condition w⟩
  | elseBranch {context : Context} {condition : Expr} {thenBranch elseBranch : Stmt} {w : Walk} :
      Enters ⟨context, .stmt (.ifThenElse condition thenBranch elseBranch), w⟩
        ⟨context, .stmt elseBranch, walkStmt context thenBranch (walkExpr context condition w)⟩
  | print_ {context : Context} {expr : Expr} {w : Walk} :
      Enters ⟨context, .stmt (.print_ expr), w⟩ ⟨context, .expr expr, w⟩
  | returned {context : Context} {keyword : Token} {expr : Expr} {w : Walk} :
      Enters ⟨context, .stmt (.return_ keyword (some expr)), w⟩
        ⟨context, .expr expr, checkReturn context keyword (some expr) w⟩
  | initializer {context : Context} {name : Token} {expr : Expr} {w : Walk} :
      Enters ⟨context, .stmt (.var_ name (some expr)), w⟩ ⟨context, .expr expr, w.declare name⟩
  | whileCondition {context : Context} {condition : Expr} {body : Stmt} {w : Walk} :
      Enters ⟨context, .stmt (.while_ condition body), w⟩ ⟨context, .expr condition, w⟩
  | whileBody {context : Context} {condition : Expr} {body : Stmt} {w : Walk} :
      Enters ⟨context, .stmt (.while_ condition body), w⟩ ⟨context, .stmt body, walkExpr context condition w⟩
  | firstStmt {context : Context} {stmt : Stmt} {rest : List Stmt} {w : Walk} :
      Enters ⟨context, .stmts (stmt :: rest), w⟩ ⟨context, .stmt stmt, w⟩
  | otherStmts {context : Context} {stmt : Stmt} {rest : List Stmt} {w : Walk} :
      Enters ⟨context, .stmts (stmt :: rest), w⟩ ⟨context, .stmts rest, walkStmt context stmt w⟩
  | body {context : Context} {declaration : FunctionDecl} {w : Walk} :
      Enters ⟨context, .function declaration, w⟩
        ⟨context, .stmts declaration.body, declaration.params.foldl Walk.bind (w.enter [])⟩
  | firstMethod {context : Context} {method : FunctionDecl} {rest : List FunctionDecl} {w : Walk} :
      Enters ⟨context, .methods (method :: rest), w⟩
        ⟨{ context with function := roleOf method }, .function method, w⟩
  | otherMethods {context : Context} {method : FunctionDecl} {rest : List FunctionDecl} {w : Walk} :
      Enters ⟨context, .methods (method :: rest), w⟩
        ⟨context, .methods rest, walkFunction { context with function := roleOf method } method w⟩

/-- The visits of the walk over a program. -/
inductive Visits (program : List Stmt) : Visit → Prop where
  | start : Visits program ⟨.top, .stmts program, .start⟩
  | enter {v v' : Visit} (visited : Visits program v) (entered : v.Enters v') : Visits program v'

structure Walk.Leads (w next : Walk) (ids : List NodeId) : Prop where
  references : w.references <:+ next.references
  misuses : w.misuses <:+ next.misuses
  once : ∀ id, next.references.countP (·.id = id) ≤ w.references.countP (·.id = id) + ids.count id

namespace Walk.Leads

variable {w w₁ w₂ : Walk} {ids others : List NodeId}

theorem refl (w : Walk) : w.Leads w [] := ⟨List.suffix_refl _, List.suffix_refl _, fun _ => Nat.le_refl _⟩

theorem trans (first : w.Leads w₁ ids) (second : w₁.Leads w₂ others) : w.Leads w₂ (ids ++ others) := by
  refine ⟨first.references.trans second.references, first.misuses.trans second.misuses, fun id => ?_⟩
  have before := first.once id
  have behind := second.once id
  rw [List.count_append]
  omega

theorem mono (led : w.Leads w₁ ids) (more : ∀ id, ids.count id ≤ others.count id) : w.Leads w₁ others :=
  ⟨led.references, led.misuses, fun id => Nat.le_trans (led.once id) (Nat.add_le_add_left (more id) _)⟩

theorem noted (led : w.Leads w₁ ids) : ∀ r ∈ w₁.references, r ∈ w.references ∨ r.id ∈ ids := by
  intro r found
  obtain ⟨new, same⟩ := led.references
  rw [← same] at found
  rcases List.mem_append.mp found with here | old
  · right
    have once := led.once r.id
    rw [← same, List.countP_append] at once
    have counted : 0 < new.countP (·.id = r.id) := List.countP_pos_iff.mpr ⟨r, here, by simp⟩
    exact List.count_pos_iff.mp (by omega)
  · exact .inl old

theorem silent (references : w₁.references = w.references) (misuses : w.misuses <:+ w₁.misuses) : w.Leads w₁ [] :=
  ⟨references ▸ List.suffix_refl _, misuses, fun _ => references ▸ Nat.le_refl _⟩

theorem after (led : w.Leads w₁ ids) (quiet : w₁.Leads w₂ []) : w.Leads w₂ ids :=
  List.append_nil ids ▸ led.trans quiet

theorem before (quiet : w.Leads w₁ []) (led : w₁.Leads w₂ ids) : w.Leads w₂ ids := quiet.trans led

theorem complain (w : Walk) (token : Token) (fault : Fault) : w.Leads (w.complain token fault) [] :=
  silent rfl (List.suffix_cons _ _)

theorem complainIf (w : Walk) (wrong : Bool) (token : Token) (fault : Fault) :
    w.Leads (w.complainIf wrong token fault) [] := by
  unfold Walk.complainIf
  split
  · exact .complain ..
  · exact .refl w

theorem enter (w : Walk) (names : Names) : w.Leads (w.enter names) [] := silent rfl (List.suffix_refl _)

theorem leave (w : Walk) : w.Leads w.leave [] := silent rfl (List.suffix_refl _)

theorem declare (w : Walk) (name : Token) : w.Leads (w.declare name) [] := by
  unfold Walk.declare
  split
  · exact .refl w
  · split
    · exact .complain ..
    · exact silent rfl (List.suffix_refl _)

theorem define (w : Walk) (name : Token) : w.Leads (w.define name) [] := by
  unfold Walk.define
  split
  · exact .refl w
  · exact silent rfl (List.suffix_refl _)

theorem bind (w : Walk) (name : Token) : w.Leads (w.bind name) [] := (declare w name).after (.define ..)

theorem refer (w : Walk) (id : NodeId) (name : Token) : w.Leads (w.refer id name) [id] := by
  unfold Walk.refer
  split
  · refine ⟨List.suffix_cons _ _, List.suffix_refl _, fun other => ?_⟩
    simp only [List.countP_cons, List.count_singleton, decide_eq_true_eq, beq_iff_eq]
    exact Nat.le_refl _
  · exact (refl w).mono fun _ => Nat.zero_le _

theorem bindAll (names : List Token) (w : Walk) : w.Leads (names.foldl Walk.bind w) [] := by
  induction names generalizing w with
  | nil => exact .refl w
  | cons name rest ih => exact (bind w name).before (ih _)

end Walk.Leads

theorem Walk.leads_checkSuperclass (name : Token) (superclass : Expr) (w : Walk) :
    w.Leads (checkSuperclass name superclass w) [] := by
  unfold checkSuperclass
  split
  · exact .complainIf ..
  · exact .refl w

theorem Walk.leads_checkReturn (context : Context) (keyword : Token) (value : Option Expr) (w : Walk) :
    w.Leads (checkReturn context keyword value w) [] := (Leads.complainIf ..).after (.complainIf ..)

mutual

theorem walkExpr_leads (context : Context) : ∀ (expr : Expr) (w : Walk),
    w.Leads (walkExpr context expr w) expr.ids
  | .assign id name value, w => by
    rw [walkExpr]
    exact (walkExpr_leads context value w).trans (.refer ..)
  | .binary left _ right, w | .logical left _ right, w => by
    rw [walkExpr]
    exact (walkExpr_leads context left w).trans (walkExpr_leads context right _)
  | .call callee _ arguments, w => by
    rw [walkExpr]
    exact (walkExpr_leads context callee w).trans (walkExprs_leads context arguments _)
  | .get inner _, w | .grouping inner, w | .unary _ inner, w => by
    rw [walkExpr]
    exact walkExpr_leads context inner w
  | .constant _, w => by
    rw [walkExpr]
    exact .refl w
  | .set object _ value, w => by
    rw [walkExpr]
    refine ((walkExpr_leads context value w).trans (walkExpr_leads context object _)).mono fun id => Nat.le_of_eq ?_
    rw [Expr.ids, List.count_append, List.count_append, Nat.add_comm]
  | .super_ id keyword _, w => by
    rw [walkExpr]
    refine Walk.Leads.before ?_ (.refer ..)
    split
    · exact .complain ..
    · exact .complain ..
    · exact .refl w
  | .this_ id name, w | .variable_ id name, w => by
    rw [walkExpr]
    split
    · exact (Walk.Leads.complain ..).mono fun _ => Nat.zero_le _
    · exact .refer ..

theorem walkExprs_leads (context : Context) : ∀ (exprs : List Expr) (w : Walk),
    w.Leads (walkExprs context exprs w) (Expr.idsAll exprs)
  | [], w => by
    rw [walkExprs]
    exact .refl w
  | expr :: rest, w => by
    rw [walkExprs]
    exact (walkExpr_leads context expr w).trans (walkExprs_leads context rest _)

end

theorem walkOptional_leads (context : Context) (expr : Option Expr) (w : Walk) :
    w.Leads (walkOptional context expr w) (Expr.idsOptional expr) := by
  cases expr with
  | none => exact .refl w
  | some expr => exact walkExpr_leads context expr w

theorem walkSuperclass_leads (context : Context) (name : Token) (superclass : Expr) (w : Walk) :
    w.Leads (walkSuperclass context name superclass w) superclass.ids := by
  rw [walkSuperclass_eq]
  exact (Walk.leads_checkSuperclass ..).before (walkExpr_leads ..)

mutual

theorem walkStmt_leads (context : Context) : ∀ (stmt : Stmt) (w : Walk),
    w.Leads (walkStmt context stmt w) stmt.ids
  | .block body, w => by
    rw [walkStmt]
    exact ((Walk.Leads.enter ..).before (walkStmts_leads context body _)).after (.leave _)
  | .class_ name none methods, w => by
    rw [walkStmt]
    have start := (Walk.Leads.bind w name).after (.enter _ [("this", true)])
    exact (start.before (walkMethods_leads _ methods _)).after (.leave _)
  | .class_ name (some superclass) methods, w => by
    rw [walkStmt]
    have start := (Walk.Leads.bind w name).before (walkSuperclass_leads context name superclass _)
    have opened := (start.after (.enter _ [("super", true)])).after (.enter _ [("this", true)])
    exact ((opened.trans (walkMethods_leads _ methods _)).after (.leave _)).after (.leave _)
  | .expression expr, w | .print_ expr, w => by
    rw [walkStmt]
    exact walkExpr_leads context expr w
  | .function declaration, w => by
    rw [walkStmt]
    exact (Walk.Leads.bind ..).before (walkFunction_leads _ declaration _)
  | .ifThen condition thenBranch, w => by
    rw [walkStmt]
    exact (walkExpr_leads context condition w).trans (walkStmt_leads context thenBranch _)
  | .ifThenElse condition thenBranch elseBranch, w => by
    rw [walkStmt]
    exact (walkExpr_leads context condition w).trans
      ((walkStmt_leads context thenBranch _).trans (walkStmt_leads context elseBranch _))
  | .return_ keyword value, w => by
    rw [walkStmt]
    exact (Walk.leads_checkReturn ..).before (walkOptional_leads context value _)
  | .var_ name initializer, w => by
    rw [walkStmt]
    exact ((Walk.Leads.declare ..).before (walkOptional_leads context initializer _)).after (.define ..)
  | .while_ condition body, w => by
    rw [walkStmt]
    exact (walkExpr_leads context condition w).trans (walkStmt_leads context body _)

theorem walkStmts_leads (context : Context) : ∀ (stmts : List Stmt) (w : Walk),
    w.Leads (walkStmts context stmts w) (Stmt.idsAll stmts)
  | [], w => by
    rw [walkStmts]
    exact .refl w
  | stmt :: rest, w => by
    rw [walkStmts]
    exact (walkStmt_leads context stmt w).trans (walkStmts_leads context rest _)

theorem walkFunction_leads (context : Context) : ∀ (declaration : FunctionDecl) (w : Walk),
    w.Leads (walkFunction context declaration w) declaration.ids
  | .mk _ params body, w => by
    rw [walkFunction]
    have start := (Walk.Leads.enter w []).before (.bindAll params _)
    exact (start.before (walkStmts_leads context body _)).after (.leave _)

theorem walkMethods_leads (context : Context) : ∀ (methods : List FunctionDecl) (w : Walk),
    w.Leads (walkMethods context methods w) (FunctionDecl.idsAll methods)
  | [], w => by
    rw [walkMethods]
    exact .refl w
  | method :: rest, w => by
    rw [walkMethods]
    exact (walkFunction_leads _ method w).trans (walkMethods_leads context rest _)

end

theorem Visit.Enters.splits {v v' : Visit} (entered : v.Enters v') :
    ∃ earlier later, v.walk.Leads v'.walk earlier ∧ v'.after.Leads v.after later ∧
      v.part.ids.Perm (earlier ++ (v'.part.ids ++ later)) := by
  cases entered with
  | assigned => exact ⟨_, _, .refl _, .refer .., .refl _⟩
  | leftOperand | leftChoice => exact ⟨_, _, .refl _, walkExpr_leads .., .refl _⟩
  | rightOperand | arguments | rightChoice => exact ⟨_, _, walkExpr_leads .., .refl _, by simp [Part.ids, Expr.ids]⟩
  | callee | firstExpr => exact ⟨_, _, .refl _, walkExprs_leads .., .refl _⟩
  | owner | grouped | operand => exact ⟨_, _, .refl _, .refl _, by simp [Part.ids, Expr.ids]⟩
  | setValue => exact ⟨_, _, .refl _, walkExpr_leads .., List.perm_append_comm⟩
  | setOwner =>
    refine ⟨_, _, walkExpr_leads .., .refl _, ?_⟩
    simpa [Part.ids, Expr.ids] using List.perm_append_comm
  | otherExprs => exact ⟨_, _, walkExpr_leads .., .refl _, by simp [Part.ids, Expr.idsAll]⟩
  | block => exact ⟨_, _, .enter .., .leave _, by simp [Part.ids, Stmt.ids]⟩
  | baseMethods =>
    refine ⟨_, _, (Walk.Leads.bind ..).after (.enter ..), .leave _, ?_⟩
    simp [Part.ids, Stmt.ids, Expr.idsOptional]
  | @superclass context name superclass methods w =>
    have opened := (Walk.Leads.enter (walkSuperclass context name superclass (w.bind name)) [("super", true)]).after
      (.enter _ [("this", true)])
    have behind := ((opened.before (walkMethods_leads { context with class_ := .derived } methods _)).after
      (.leave _)).after (.leave _)
    exact ⟨_, _, (Walk.Leads.bind ..).after (Walk.leads_checkSuperclass ..), behind, .refl _⟩
  | @derivedMethods context name superclass methods w =>
    have before := (Walk.Leads.bind w name).before (walkSuperclass_leads context name superclass _)
    refine ⟨_, _, (before.after (.enter ..)).after (.enter ..), (Walk.Leads.leave _).after (.leave _), ?_⟩
    simp [Part.ids, Stmt.ids, Expr.idsOptional]
  | expression | print_ => exact ⟨_, _, .refl _, .refl _, by simp [Part.ids, Stmt.ids]⟩
  | function => exact ⟨_, _, .bind .., .refl _, by simp [Part.ids, Stmt.ids]⟩
  | ifCondition | whileCondition => exact ⟨_, _, .refl _, walkStmt_leads .., .refl _⟩
  | ifBranch | whileBody => exact ⟨_, _, walkExpr_leads .., .refl _, by simp [Part.ids, Stmt.ids]⟩
  | condition => exact ⟨_, _, .refl _, (walkStmt_leads ..).trans (walkStmt_leads ..), .refl _⟩
  | thenBranch => exact ⟨_, _, walkExpr_leads .., walkStmt_leads .., by simp [Part.ids, Stmt.ids]⟩
  | elseBranch =>
    refine ⟨_, _, (walkExpr_leads ..).trans (walkStmt_leads ..), .refl _, ?_⟩
    simp [Part.ids, Stmt.ids]
  | returned =>
    exact ⟨_, _, Walk.leads_checkReturn .., .refl _, by simp [Part.ids, Stmt.ids, Expr.idsOptional]⟩
  | initializer =>
    exact ⟨_, _, .declare .., .define .., by simp [Part.ids, Stmt.ids, Expr.idsOptional]⟩
  | firstStmt => exact ⟨_, _, .refl _, walkStmts_leads .., .refl _⟩
  | otherStmts => exact ⟨_, _, walkStmt_leads .., .refl _, by simp [Part.ids, Stmt.idsAll]⟩
  | @body _ declaration _ =>
    obtain ⟨name, params, body⟩ := declaration
    refine ⟨_, _, (Walk.Leads.enter ..).after (.bindAll ..), .leave _, ?_⟩
    simp [Part.ids, FunctionDecl.ids, FunctionDecl.body]
  | firstMethod => exact ⟨_, _, .refl _, walkMethods_leads .., .refl _⟩
  | otherMethods => exact ⟨_, _, walkFunction_leads .., .refl _, by simp [Part.ids, FunctionDecl.idsAll]⟩

structure Visit.Tracked (found : List Reference) (v : Visit) : Prop where
  distinct : v.part.ids.Nodup
  clean : v.after.misuses = []
  fresh : ∀ r ∈ v.walk.references, r.id ∉ v.part.ids
  kept : ∀ r ∈ v.after.references, r ∈ found
  complete : ∀ r ∈ found, r.id ∈ v.part.ids → r ∈ v.after.references

theorem Visit.Tracked.within {found : List Reference} {v v' : Visit} {earlier later : List NodeId}
    (tracked : v.Tracked found) (before : v.walk.Leads v'.walk earlier) (behind : v'.after.Leads v.after later)
    (whole : v.part.ids.Perm (earlier ++ (v'.part.ids ++ later))) : v'.Tracked found := by
  have distinct := whole.nodup tracked.distinct
  obtain ⟨-, rest, apartBefore⟩ := List.nodup_append.mp distinct
  obtain ⟨inner, -, apartBehind⟩ := List.nodup_append.mp rest
  have inside : ∀ id ∈ v'.part.ids, id ∈ v.part.ids := fun id member =>
    whole.symm.subset (List.mem_append_right _ (List.mem_append_left _ member))
  refine ⟨inner, ?_, ?_, ?_, ?_⟩
  · have clean := behind.misuses
    rw [tracked.clean] at clean
    exact List.suffix_nil.mp clean
  · intro r found member
    rcases before.noted r found with old | noted
    · exact tracked.fresh r old (inside _ member)
    · exact apartBefore r.id noted r.id (List.mem_append_left _ member) rfl
  · exact fun r noted => tracked.kept r (behind.references.subset noted)
  · intro r member numbered
    rcases behind.noted r (tracked.complete r member (inside _ numbered)) with here | noted
    · exact here
    · exact absurd rfl (apartBehind r.id numbered r.id noted)

theorem Visit.Enters.tracked {found : List Reference} {v v' : Visit} (entered : v.Enters v')
    (tracked : v.Tracked found) : v'.Tracked found := by
  obtain ⟨earlier, later, before, behind, whole⟩ := entered.splits
  exact tracked.within before behind whole

theorem Visit.Enters.ids_subset {v v' : Visit} (entered : v.Enters v') : v'.part.ids ⊆ v.part.ids := by
  obtain ⟨earlier, later, -, -, whole⟩ := entered.splits
  intro id member
  exact whole.symm.subset (List.mem_append_right _ (List.mem_append_left _ member))

end Lox.Scope
