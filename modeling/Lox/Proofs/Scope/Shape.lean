import Lox.Proofs.Scope.Visit
import Lox.Proofs.Tree.Arranged

namespace Lox.Scope

def Names.bind (name : String) (names : Names) : Names :=
  Bindings.insert name true (if names.contains name then names else names.insert name false)

theorem Names.find?_bind (name other : String) (names : Names) :
    (names.bind name).find? other = if name = other then some true else names.find? other := by
  unfold Names.bind
  rw [Bindings.find?_insert]
  by_cases same : name = other
  · simp only [same, ↓reduceIte]
  · simp only [same, ↓reduceIte]
    split
    · rfl
    · simp [Bindings.find?_insert, same]

def bindInnermost (name : String) : List Names → List Names
  | [] => []
  | names :: outer => names.bind name :: outer

namespace Walk

@[simp] theorem scopes_complain (w : Walk) (token : Token) (fault : Fault) :
    (w.complain token fault).scopes = w.scopes := rfl

@[simp] theorem scopes_complainIf (w : Walk) (wrong : Bool) (token : Token) (fault : Fault) :
    (w.complainIf wrong token fault).scopes = w.scopes := by
  unfold complainIf
  split <;> rfl

@[simp] theorem scopes_enter (w : Walk) (names : Names) : (w.enter names).scopes = names :: w.scopes := rfl

@[simp] theorem scopes_leave (w : Walk) : w.leave.scopes = w.scopes.tail := rfl

@[simp] theorem scopes_refer (w : Walk) (id : NodeId) (name : Token) : (w.refer id name).scopes = w.scopes := by
  unfold refer
  split <;> rfl

theorem scopes_declare (w : Walk) (name : Token) :
    (w.declare name).scopes = match w.scopes with
      | [] => []
      | names :: outer => (if names.contains name.lexeme then names else names.insert name.lexeme false) :: outer := by
  unfold declare
  cases outer : w.scopes with
  | nil => simp [outer]
  | cons names rest => by_cases held : names.contains name.lexeme = true <;> simp [held, outer]

theorem scopes_define {w w' : Walk} {name : Token} (same : w'.scopes = (w.declare name).scopes) :
    (w'.define name).scopes = bindInnermost name.lexeme w.scopes := by
  rw [scopes_declare] at same
  unfold define
  cases outer : w.scopes with
  | nil => simp [same, outer, bindInnermost]
  | cons names rest => simp [same, outer, bindInnermost, Names.bind]

@[simp] theorem scopes_bind (w : Walk) (name : Token) :
    (w.bind name).scopes = bindInnermost name.lexeme w.scopes := scopes_define rfl

end Walk

@[simp] theorem scopes_checkSuperclass (name : Token) (superclass : Expr) (w : Walk) :
    (checkSuperclass name superclass w).scopes = w.scopes := by
  unfold checkSuperclass
  split <;> simp

@[simp] theorem scopes_checkReturn (context : Context) (keyword : Token) (value : Option Expr) (w : Walk) :
    (checkReturn context keyword value w).scopes = w.scopes := by
  simp [checkReturn]

mutual

@[simp] theorem scopes_walkExpr (context : Context) : ∀ (expr : Expr) (w : Walk),
    (walkExpr context expr w).scopes = w.scopes
  | .assign id name value, w => by rw [walkExpr, Walk.scopes_refer, scopes_walkExpr context value]
  | .binary left _ right, w | .logical left _ right, w => by
    rw [walkExpr, scopes_walkExpr context right, scopes_walkExpr context left]
  | .call callee _ arguments, w => by rw [walkExpr, scopes_walkExprs context arguments, scopes_walkExpr context callee]
  | .get inner _, w | .grouping inner, w | .unary _ inner, w => by rw [walkExpr, scopes_walkExpr context inner]
  | .constant _, w => by rw [walkExpr]
  | .set object _ value, w => by rw [walkExpr, scopes_walkExpr context object, scopes_walkExpr context value]
  | .super_ id keyword _, w => by
    rw [walkExpr, Walk.scopes_refer]
    split <;> rfl
  | .this_ id name, w | .variable_ id name, w => by
    rw [walkExpr]
    split <;> simp

@[simp] theorem scopes_walkExprs (context : Context) : ∀ (exprs : List Expr) (w : Walk),
    (walkExprs context exprs w).scopes = w.scopes
  | [], w => by rw [walkExprs]
  | expr :: rest, w => by rw [walkExprs, scopes_walkExprs context rest, scopes_walkExpr context expr]

end

@[simp] theorem scopes_walkOptional (context : Context) (expr : Option Expr) (w : Walk) :
    (walkOptional context expr w).scopes = w.scopes := by
  cases expr with
  | none => rfl
  | some expr => exact scopes_walkExpr context expr w

@[simp] theorem scopes_walkSuperclass (context : Context) (name : Token) (superclass : Expr) (w : Walk) :
    (walkSuperclass context name superclass w).scopes = w.scopes := by
  simp [walkSuperclass_eq]

def declareIn (stmt : Stmt) (scopes : List Names) : List Names :=
  match stmt.declares? with
  | some name => bindInnermost name.lexeme scopes
  | none => scopes

theorem declareIn_plain {stmt : Stmt} (plain : stmt.declares? = none) (scopes : List Names) :
    declareIn stmt scopes = scopes := by
  rw [declareIn, plain]

theorem declareIn_nil (stmt : Stmt) : declareIn stmt [] = [] := by
  unfold declareIn
  split <;> rfl

theorem tail_bindInnermost (name : String) (scopes : List Names) : (bindInnermost name scopes).tail = scopes.tail := by
  cases scopes <;> rfl

theorem tail_declareIn (stmt : Stmt) (scopes : List Names) : (declareIn stmt scopes).tail = scopes.tail := by
  unfold declareIn
  split
  · exact tail_bindInnermost ..
  · rfl

theorem tail_bindAll (names : List Token) (w : Walk) : (names.foldl Walk.bind w).scopes.tail = w.scopes.tail := by
  induction names generalizing w with
  | nil => rfl
  | cons name rest ih => rw [List.foldl_cons, ih, Walk.scopes_bind, tail_bindInnermost]

mutual

theorem scopes_walkStmt_of_isArranged (context : Context) : ∀ (stmt : Stmt) (w : Walk), stmt.isArranged = true →
    (walkStmt context stmt w).scopes = declareIn stmt w.scopes
  | .block body, w, arranged => by
    rw [walkStmt, Walk.scopes_leave, tail_walkStmts context body _ arranged]
    rfl
  | .class_ name none methods, w, arranged => by
    rw [walkStmt, Walk.scopes_leave, scopes_walkMethods _ methods _ arranged, Walk.scopes_enter, Walk.scopes_bind]
    rfl
  | .class_ name (some superclass) methods, w, arranged => by
    rw [walkStmt, Walk.scopes_leave, Walk.scopes_leave, scopes_walkMethods _ methods _ arranged]
    simp [declareIn, Stmt.declares?]
  | .expression expr, w, _ | .print_ expr, w, _ => by rw [walkStmt, scopes_walkExpr]; rfl
  | .function declaration, w, arranged => by
    rw [walkStmt, scopes_walkFunction_of_isArranged _ declaration _ arranged, Walk.scopes_bind]
    rfl
  | .ifThen condition thenBranch, w, arranged => by
    simp only [Stmt.isArranged, Bool.and_eq_true, Option.isNone_iff_eq_none] at arranged
    rw [walkStmt, scopes_walkStmt_of_isArranged context thenBranch _ arranged.2, scopes_walkExpr,
      declareIn_plain arranged.1]
    rfl
  | .ifThenElse condition thenBranch elseBranch, w, arranged => by
    simp only [Stmt.isArranged, Bool.and_eq_true, Option.isNone_iff_eq_none] at arranged
    obtain ⟨⟨firstPlain, first⟩, secondPlain, second⟩ := arranged
    rw [walkStmt, scopes_walkStmt_of_isArranged context elseBranch _ second,
      scopes_walkStmt_of_isArranged context thenBranch _ first, scopes_walkExpr, declareIn_plain firstPlain,
      declareIn_plain secondPlain]
    rfl
  | .return_ keyword value, w, _ => by
    rw [walkStmt]
    simp [declareIn, Stmt.declares?]
  | .var_ name initializer, w, _ => by
    rw [walkStmt, Walk.scopes_define (scopes_walkOptional ..)]
    rfl
  | .while_ condition body, w, arranged => by
    simp only [Stmt.isArranged, Bool.and_eq_true, Option.isNone_iff_eq_none] at arranged
    rw [walkStmt, scopes_walkStmt_of_isArranged context body _ arranged.2, scopes_walkExpr, declareIn_plain arranged.1]
    rfl

theorem tail_walkStmts (context : Context) : ∀ (stmts : List Stmt) (w : Walk), Stmt.allArranged stmts = true →
    (walkStmts context stmts w).scopes.tail = w.scopes.tail
  | [], w, _ => by rw [walkStmts]
  | stmt :: rest, w, arranged => by
    simp only [Stmt.allArranged, Bool.and_eq_true] at arranged
    rw [walkStmts, tail_walkStmts context rest _ arranged.2, scopes_walkStmt_of_isArranged context stmt w arranged.1,
      tail_declareIn]

theorem scopes_walkFunction_of_isArranged (context : Context) : ∀ (declaration : FunctionDecl) (w : Walk),
    declaration.isArranged = true → (walkFunction context declaration w).scopes = w.scopes
  | .mk name params body, w, arranged => by
    rw [walkFunction, Walk.scopes_leave, tail_walkStmts context body _ arranged, tail_bindAll]
    rfl

theorem scopes_walkMethods (context : Context) : ∀ (methods : List FunctionDecl) (w : Walk),
    FunctionDecl.allArranged methods = true → (walkMethods context methods w).scopes = w.scopes
  | [], w, _ => by rw [walkMethods]
  | method :: rest, w, arranged => by
    simp only [FunctionDecl.allArranged, Bool.and_eq_true] at arranged
    rw [walkMethods, scopes_walkMethods context rest _ arranged.2,
      scopes_walkFunction_of_isArranged _ method w arranged.1]

end

theorem scopes_walkStmt (context : Context) (stmt : Stmt) (w : Walk) (legal : stmt.Legal) :
    (walkStmt context stmt w).scopes = declareIn stmt w.scopes :=
  scopes_walkStmt_of_isArranged context stmt w legal.isArranged

theorem scopes_walkFunction (context : Context) (declaration : FunctionDecl) (w : Walk) (legal : declaration.Legal) :
    (walkFunction context declaration w).scopes = w.scopes := by
  apply scopes_walkFunction_of_isArranged
  rw [FunctionDecl.isArranged_eq]
  exact Stmt.isArranged_of_legal legal.body

def Part.Legal : Part → Prop
  | .expr e => e.Legal
  | .exprs es => ∀ e ∈ es, e.Legal
  | .stmt s => s.Legal
  | .stmts ss => ∀ s ∈ ss, s.Legal
  | .function d => d.Legal
  | .methods ds => ∀ d ∈ ds, d.Legal

theorem Visit.Enters.legal {v v' : Visit} (entered : v.Enters v') (legal : v.part.Legal) : v'.part.Legal := by
  cases entered with
  | assigned => cases legal with | assign _ assigned => exact assigned
  | leftOperand => cases legal with | binary _ first _ => exact first
  | rightOperand => cases legal with | binary _ _ second => exact second
  | callee => cases legal with | call _ called _ => exact called
  | arguments => cases legal with | call _ _ given => exact given
  | owner => cases legal with | get _ owner => exact owner
  | grouped => cases legal with | grouping grouped => exact grouped
  | leftChoice => cases legal with | logical _ first _ => exact first
  | rightChoice => cases legal with | logical _ _ second => exact second
  | setValue => cases legal with | set _ _ assigned => exact assigned
  | setOwner => cases legal with | set _ owner _ => exact owner
  | operand => cases legal with | unary _ operand => exact operand
  | firstExpr | firstStmt | firstMethod => exact legal _ (List.mem_cons_self ..)
  | otherExprs => exact fun e member => legal e (List.mem_cons_of_mem _ member)
  | block => cases legal with | block stated => exact stated
  | baseMethods | derivedMethods =>
    cases legal with
    | class_ _ _ names params bodies =>
      exact fun d member => ⟨names d member, params d member, bodies d member⟩
  | superclass =>
    cases legal with
    | class_ _ extended _ _ _ =>
      obtain ⟨id, superName, rfl, named⟩ := extended _ rfl
      exact .variable_ named
  | expression => cases legal with | expression stated => exact stated
  | function => cases legal with | function named params stated => exact ⟨named, params, stated⟩
  | ifCondition => cases legal with | ifThen head _ _ => exact head
  | ifBranch => cases legal with | ifThen _ first _ => exact first
  | condition => cases legal with | ifThenElse head _ _ _ _ => exact head
  | thenBranch => cases legal with | ifThenElse _ first _ _ _ => exact first
  | elseBranch => cases legal with | ifThenElse _ _ second _ _ => exact second
  | print_ => cases legal with | print_ stated => exact stated
  | returned => cases legal with | return_ _ returned => exact returned _ rfl
  | initializer => cases legal with | var_ _ initial => exact initial _ rfl
  | whileCondition => cases legal with | while_ head _ _ => exact head
  | whileBody => cases legal with | while_ _ repeated _ => exact repeated
  | otherStmts => exact fun s member => legal s (List.mem_cons_of_mem _ member)
  | body => exact legal.body
  | otherMethods => exact fun d member => legal d (List.mem_cons_of_mem _ member)

def reserved : List String := ["this", "super"]

theorem lexeme_not_reserved {t : Token} (named : t.Is [.identifier]) : t.lexeme ∉ reserved := by
  have kind := List.mem_singleton.mp named.kind
  have this := named.genuine.lexeme_ne_spelling kind .this_
  have super := named.genuine.lexeme_ne_spelling kind .super_
  simp only [Keyword.spelling] at this super
  simp [reserved, this, super]

/-- Which scopes hold `this`, and which `super`. -/
def marks (scopes : List Names) : List (Bool × Bool) :=
  scopes.map fun names => (names.contains "this", names.contains "super")

def Adjacent (marks : List (Bool × Bool)) : Prop :=
  ∀ (i : Nat) (m : Bool × Bool), marks[i]? = some m → m.2 = true →
    ∃ (j : Nat) (inner : Bool × Bool), i = j + 1 ∧ marks[j]? = some inner ∧ inner.1 = true

structure Nested (context : ClassContext) (marks : List (Bool × Bool)) : Prop where
  this : context ≠ .none → ∃ m ∈ marks, m.1 = true
  super : context = .derived → ∃ m ∈ marks, m.2 = true
  adjacent : Adjacent marks

theorem Nested.top : Nested .none (marks []) :=
  ⟨fun inside => absurd rfl inside, fun inside => (by cases inside), fun i m found => (by simp [marks] at found)⟩

theorem Nested.enter {context : ClassContext} {outer : List (Bool × Bool)} (nested : Nested context outer) (this : Bool) :
    Nested context ((this, false) :: outer) := by
  refine ⟨fun inside => ?_, fun inside => ?_, fun i m found super => ?_⟩
  · obtain ⟨m, member, held⟩ := nested.this inside
    exact ⟨m, List.mem_cons_of_mem _ member, held⟩
  · obtain ⟨m, member, held⟩ := nested.super inside
    exact ⟨m, List.mem_cons_of_mem _ member, held⟩
  · cases i with
    | zero =>
      cases found
      cases super
    | succ i =>
      obtain ⟨j, inner, rfl, within, held⟩ := nested.adjacent i m found super
      exact ⟨j + 1, inner, rfl, within, held⟩

theorem Nested.base {context : ClassContext} {outer : List (Bool × Bool)} (nested : Nested context outer) :
    Nested .base ((true, false) :: outer) :=
  ⟨fun _ => ⟨_, List.mem_cons_self .., rfl⟩, fun inside => (by cases inside), (nested.enter true).adjacent⟩

theorem Nested.derived {context : ClassContext} {outer : List (Bool × Bool)} (nested : Nested context outer) :
    Nested .derived ((true, false) :: (false, true) :: outer) := by
  refine ⟨fun _ => ⟨_, List.mem_cons_self .., rfl⟩, fun _ => ⟨(false, true), by simp, rfl⟩, fun i m found super => ?_⟩
  match i with
  | 0 =>
    cases found
    cases super
  | 1 => exact ⟨0, (true, false), rfl, rfl, rfl⟩
  | i + 2 =>
    obtain ⟨j, inner, rfl, within, held⟩ := nested.adjacent i m found super
    exact ⟨j + 2, inner, rfl, within, held⟩

def Settled (scopes : List Names) : Prop := ∀ names ∈ scopes, ∀ name, names.find? name ≠ some false

theorem Settled.tail {scopes : List Names} (settled : Settled scopes) : Settled scopes.tail :=
  fun names member => settled names (List.mem_of_mem_tail member)

theorem Settled.enter {scopes : List Names} {names : Names} (settled : Settled scopes)
    (complete : ∀ name, names.find? name ≠ some false) : Settled (names :: scopes) := by
  intro names' member
  rcases List.mem_cons.mp member with rfl | outer
  · exact complete
  · exact settled names' outer

theorem Settled.bind {scopes : List Names} (settled : Settled scopes) (name : String) :
    Settled (bindInnermost name scopes) := by
  cases scopes with
  | nil => exact settled
  | cons names outer =>
    refine Settled.enter settled.tail fun other => ?_
    rw [Names.find?_bind]
    split
    · simp
    · exact settled names (List.mem_cons_self ..) other

@[simp] theorem marks_this (scopes : List Names) : marks ([("this", true)] :: scopes) = (true, false) :: marks scopes := by
  simp [marks, Bindings.contains, Bindings.find?]

@[simp] theorem marks_super (scopes : List Names) :
    marks ([("super", true)] :: scopes) = (false, true) :: marks scopes := by
  simp [marks, Bindings.contains, Bindings.find?]

theorem marks_bind {name : String} (free : name ∉ reserved) (scopes : List Names) :
    marks (bindInnermost name scopes) = marks scopes := by
  cases scopes with
  | nil => rfl
  | cons names outer =>
    have this : name ≠ "this" := fun same => free (by simp [reserved, same])
    have super : name ≠ "super" := fun same => free (by simp [reserved, same])
    simp [marks, bindInnermost, Bindings.contains, Names.find?_bind, this, super]

theorem marks_declare {name : Token} (free : name.lexeme ∉ reserved) (w : Walk) :
    marks (w.declare name).scopes = marks w.scopes := by
  rw [Walk.scopes_declare]
  cases w.scopes with
  | nil => rfl
  | cons names outer =>
    have this : name.lexeme ≠ "this" := fun same => free (by simp [reserved, same])
    have super : name.lexeme ≠ "super" := fun same => free (by simp [reserved, same])
    by_cases held : names.contains name.lexeme = true
    · simp only [held, ↓reduceIte]
    · simp only [held]
      simp [marks, Bindings.contains, Bindings.find?_insert, this, super]

theorem tail_declare (w : Walk) (name : Token) : (w.declare name).scopes.tail = w.scopes.tail := by
  rw [Walk.scopes_declare]
  cases w.scopes <;> rfl

structure Shape (context : ClassContext) (scopes : List Names) : Prop where
  nested : Nested context (marks scopes)
  settled : Settled scopes

namespace Shape

variable {context : ClassContext} {scopes : List Names}

theorem top : Shape .none [] := ⟨.top, by simp [Settled]⟩

theorem enter (shape : Shape context scopes) : Shape context ([] :: scopes) :=
  ⟨shape.nested.enter false, shape.settled.enter (by simp [Bindings.find?])⟩

theorem base (shape : Shape context scopes) : Shape .base ([("this", true)] :: scopes) := by
  refine ⟨?_, shape.settled.enter (by simp [Bindings.find?])⟩
  rw [marks_this]
  exact shape.nested.base

theorem derived (shape : Shape context scopes) : Shape .derived ([("this", true)] :: [("super", true)] :: scopes) := by
  refine ⟨?_, (shape.settled.enter (by simp [Bindings.find?])).enter (by simp [Bindings.find?])⟩
  rw [marks_this, marks_super]
  exact shape.nested.derived

theorem bind {name : Token} (shape : Shape context scopes) (named : name.Is [.identifier]) :
    Shape context (bindInnermost name.lexeme scopes) := by
  refine ⟨?_, shape.settled.bind _⟩
  rw [marks_bind (lexeme_not_reserved named)]
  exact shape.nested

theorem bindAll {params : List Token} {w : Walk} (shape : Shape context w.scopes)
    (named : ∀ param ∈ params, param.Is [.identifier]) : Shape context (params.foldl Walk.bind w).scopes := by
  induction params generalizing w with
  | nil => exact shape
  | cons param rest ih =>
    refine ih ?_ fun param member => named param (List.mem_cons_of_mem _ member)
    rw [Walk.scopes_bind]
    exact shape.bind (named param (List.mem_cons_self ..))

theorem declare {stmt : Stmt} (shape : Shape context scopes) (legal : stmt.Legal) :
    Shape context (declareIn stmt scopes) := by
  cases legal with
  | class_ named _ _ _ _ => exact shape.bind named
  | function named _ _ => exact shape.bind named
  | var_ named _ => exact shape.bind named
  | _ => exact shape

end Shape

/-- What holds of context and scopes at a visit. In an initializer the innermost scope has a declaration that is not
    complete, and in the place of a superclass, where only a name can stand, the context runs ahead of the scopes. -/
def Visit.Shaped (v : Visit) : Prop :=
  match v.part with
  | .expr e =>
    ((∀ id name, e ≠ .variable_ id name) → Nested v.context.class_ (marks v.walk.scopes)) ∧
      Adjacent (marks v.walk.scopes) ∧ Settled v.walk.scopes.tail
  | .exprs _ => Nested v.context.class_ (marks v.walk.scopes) ∧ Settled v.walk.scopes.tail
  | _ => Shape v.context.class_ v.walk.scopes

section

variable {context : Context} {w w' : Walk}

theorem Visit.Shaped.compound {e : Expr} (shaped : Visit.Shaped ⟨context, .expr e, w⟩)
    (compound : ∀ id name, e ≠ .variable_ id name) :
    Nested context.class_ (marks w.scopes) ∧ Settled w.scopes.tail := ⟨shaped.1 compound, shaped.2.2⟩

theorem Visit.shaped_expr {e : Expr} (shape : Nested context.class_ (marks w.scopes) ∧ Settled w.scopes.tail)
    (same : w'.scopes = w.scopes) : Visit.Shaped ⟨context, .expr e, w'⟩ := by
  unfold Visit.Shaped
  rw [same]
  exact ⟨fun _ => shape.1, shape.1.adjacent, shape.2⟩

theorem Visit.shaped_exprs {es : List Expr} (shape : Nested context.class_ (marks w.scopes) ∧ Settled w.scopes.tail)
    (same : w'.scopes = w.scopes) : Visit.Shaped ⟨context, .exprs es, w'⟩ := by
  unfold Visit.Shaped
  rw [same]
  exact shape

theorem Shape.expr {e : Expr} (shape : Shape context.class_ w.scopes) (same : w'.scopes = w.scopes) :
    Visit.Shaped ⟨context, .expr e, w'⟩ := Visit.shaped_expr ⟨shape.nested, shape.settled.tail⟩ same

theorem Shape.stmt {s : Stmt} (shape : Shape context.class_ w.scopes) (same : w'.scopes = w.scopes) :
    Visit.Shaped ⟨context, .stmt s, w'⟩ := by
  unfold Visit.Shaped
  rw [same]
  exact shape

end

theorem Visit.Enters.shaped {v v' : Visit} (entered : v.Enters v') (legal : v.part.Legal) (shaped : v.Shaped) :
    v'.Shaped := by
  cases entered with
  | assigned | leftOperand | callee | owner | grouped | leftChoice | setValue | operand =>
    exact shaped_expr (shaped.compound (by simp)) rfl
  | rightOperand | rightChoice | setOwner => exact shaped_expr (shaped.compound (by simp)) (by simp)
  | arguments => exact shaped_exprs (shaped.compound (by simp)) (by simp)
  | firstExpr => exact shaped_expr shaped rfl
  | otherExprs => exact shaped_exprs shaped (by simp)
  | block => exact Shape.enter shaped
  | baseMethods =>
    cases legal with
    | class_ named _ _ _ _ =>
      have shape := (Shape.bind shaped named).base
      simpa only [Visit.Shaped, Walk.scopes_enter, Walk.scopes_bind] using shape
  | superclass =>
    cases legal with
    | class_ named extended _ _ _ =>
      obtain ⟨id, superName, rfl, -⟩ := extended _ rfl
      have adjacent := shaped.nested.adjacent
      refine ⟨fun other => absurd rfl (other id superName), ?_, ?_⟩
      · rw [scopes_checkSuperclass, Walk.scopes_bind, marks_bind (lexeme_not_reserved named)]
        exact adjacent
      · simpa [tail_bindInnermost] using Settled.tail shaped.settled
  | derivedMethods =>
    cases legal with
    | class_ named _ _ _ _ =>
      have shape := (Shape.bind shaped named).derived
      simpa only [Visit.Shaped, Walk.scopes_enter, scopes_walkSuperclass, Walk.scopes_bind] using shape
  | expression | ifCondition | condition | print_ | whileCondition => exact Shape.expr shaped rfl
  | function =>
    cases legal with
    | function named _ _ =>
      have shape := Shape.bind shaped named
      simpa only [Visit.Shaped, Walk.scopes_bind] using shape
  | ifBranch | thenBranch | whileBody => exact Shape.stmt shaped (by simp)
  | elseBranch =>
    cases legal with
    | ifThenElse _ first _ plain _ =>
      refine Shape.stmt shaped ?_
      rw [scopes_walkStmt _ _ _ first, scopes_walkExpr, declareIn_plain plain]
  | returned => exact Shape.expr shaped (by simp)
  | @initializer _ name _ w =>
    cases legal with
    | var_ named _ =>
      have same := marks_declare (lexeme_not_reserved named) w
      refine ⟨fun _ => same ▸ shaped.nested, same ▸ shaped.nested.adjacent, ?_⟩
      rw [tail_declare]
      exact shaped.settled.tail
  | firstStmt => exact Shape.stmt shaped rfl
  | otherStmts =>
    have first := legal _ (List.mem_cons_self ..)
    have shape := Shape.declare shaped first
    simpa only [Visit.Shaped, scopes_walkStmt _ _ _ first] using shape
  | body => exact (Shape.enter shaped).bindAll legal.params
  | firstMethod => exact shaped
  | otherMethods =>
    have first := legal _ (List.mem_cons_self ..)
    simpa only [Visit.Shaped, scopes_walkFunction _ _ _ first] using shaped

end Lox.Scope
