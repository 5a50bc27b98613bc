import Lox.Proofs.Grammar.Spelling
import Lox.Proofs.Tree.Words

namespace Lox.Grammar

variable {fits : Nat → Prop}

/-- The tokens are the words but for their lines. -/
def Wear (ts words : List Token) : Prop := ts.map Token.bare = words

theorem Wear.cons {ts words : List Token} {word : Token} (worn : Wear ts (word :: words)) :
    ∃ t us, ts = t :: us ∧ t.bare = word ∧ Wear us words := List.map_eq_cons_iff.mp worn

theorem Wear.append {ts first second : List Token} (worn : Wear ts (first ++ second)) :
    ∃ us vs, ts = us ++ vs ∧ Wear us first ∧ Wear vs second := List.map_eq_append_iff.mp worn

theorem Wear.nil {ts : List Token} (worn : Wear ts []) : ts = [] := List.map_eq_nil_iff.mp worn

theorem Wear.singleton {ts : List Token} {word : Token} (worn : Wear ts [word]) : ∃ t, ts = [t] ∧ t.bare = word := by
  obtain ⟨t, us, rfl, same, none⟩ := worn.cons
  rw [none.nil]
  exact ⟨t, rfl, same⟩

theorem Wear.snoc {ts words : List Token} {word : Token} (worn : Wear ts (words ++ [word])) :
    ∃ us t, ts = us ++ [t] ∧ Wear us words ∧ t.bare = word := by
  obtain ⟨us, vs, rfl, first, last⟩ := worn.append
  obtain ⟨t, rfl, same⟩ := last.singleton
  exact ⟨us, t, rfl, first, same⟩

theorem kind_of_bare {t : Token} {kind : Kind} (same : t.bare = kind.token) : t.kind = kind := by
  have kinds := congrArg Token.kind same
  cases kind <;> exact kinds

theorem Stands.again {t name named : Token} {kinds : List Kind} (stands : Stands name kinds named)
    (same : t.bare = named.bare) : Stands t kinds named := by
  have bare := same.trans stands.same.symm
  have kind : t.bare.kind = name.bare.kind := congrArg Token.kind bare
  refine ⟨?_, same⟩
  change t.bare.kind ∈ kinds
  rw [kind]
  exact stands.kind

theorem constantOf?_of_bare {t : Token} {value : Constant} (same : t.bare = value.word) : constantOf? t = some value := by
  change constantOf? t.bare = some value
  rw [same]
  cases value with
  | bool value => cases value <;> rfl
  | _ => rfl

theorem commaJoined_cons (first : List Token) {rest : List (List Token)} (more : rest ≠ []) :
    commaJoined (first :: rest) = first ++ Kind.token .comma :: commaJoined rest := by
  cases rest with
  | nil => exact absurd rfl more
  | cons second others => rfl

def ExprForm.words : ExprForm → List Token
  | .expression expr | .infix_ _ expr | .unary expr | .call expr | .primary expr => expr.words
  | .arguments exprs | .entries exprs => commaJoined (Expr.argumentsWords exprs)

theorem Level.operandForm_words (level : Level) (expr : Expr) : (level.operandForm expr).words = expr.words := by
  unfold Level.operandForm
  split <;> rfl

theorem Level.node_words (level : Level) (left right : Expr) (operator : Token) :
    (level.node left operator right).words = left.words ++ operator.bare :: right.words := by
  cases level <;> simp [Level.node, Expr.words]

theorem SpellsExpr.entries_words_ne_nil {exprs : List Expr} {ts : List Token}
    (spelled : SpellsExpr fits (.entries exprs) ts) :
    Expr.argumentsWords exprs ≠ [] := by
  cases spelled <;> simp [Expr.argumentsWords]

theorem SpellsExpr.respelled {form : ExprForm} {us : List Token} (spelled : SpellsExpr fits form us) :
    ∀ ts, Wear ts form.words → SpellsExpr fits form ts := by
  induction spelled with
  | unassigned _ ih => exact fun ts worn => .unassigned (ih ts worn)
  | called _ ih => exact fun ts worn => .called (ih ts worn)
  | primary _ ih => exact fun ts worn => .primary (ih ts worn)
  | someArguments short _ ih => exact fun ts worn => .someArguments short (ih ts worn)
  | lastEntry _ ih => exact fun ts worn => .lastEntry (ih ts worn)
  | operand _ ih =>
    intro ts worn
    rw [Level.operandForm_words] at ih
    exact .operand (ih ts worn)
  | assign target _ _ ih =>
    intro ts worn
    rw [ExprForm.words, Expr.words] at worn
    obtain ⟨name, us, rfl, naming, worn⟩ := worn.cons
    obtain ⟨equals, us, rfl, sign, worn⟩ := worn.cons
    exact .assign (target.again naming) (kind_of_bare sign) (ih us worn)
  | set _ _ target _ _ ih₁ ih₂ =>
    intro ts worn
    rw [ExprForm.words, Expr.words] at worn
    obtain ⟨us, vs, rfl, owner, worn⟩ := worn.append
    obtain ⟨dot, vs, rfl, point, worn⟩ := worn.cons
    obtain ⟨name, vs, rfl, naming, worn⟩ := worn.cons
    obtain ⟨equals, vs, rfl, sign, worn⟩ := worn.cons
    exact .set (ih₁ us owner) (kind_of_bare point) (target.again naming) (kind_of_bare sign) (ih₂ vs worn)
  | infix_ _ between _ ih₁ ih₂ =>
    intro ts worn
    rw [ExprForm.words, Level.node_words] at worn
    rw [Level.operandForm_words] at ih₂
    obtain ⟨us, vs, rfl, left, worn⟩ := worn.append
    obtain ⟨sign, vs, rfl, operator, right⟩ := worn.cons
    exact .infix_ (ih₁ us left) (between.again operator) (ih₂ vs right)
  | prefixed before _ ih =>
    intro ts worn
    rw [ExprForm.words, Expr.words] at worn
    obtain ⟨sign, us, rfl, operator, worn⟩ := worn.cons
    exact .prefixed (before.again operator) (ih us worn)
  | get _ _ property ih =>
    intro ts worn
    rw [ExprForm.words, Expr.words] at worn
    obtain ⟨us, vs, rfl, owner, worn⟩ := worn.append
    obtain ⟨dot, vs, rfl, point, worn⟩ := worn.cons
    obtain ⟨name, rfl, naming⟩ := worn.singleton
    exact .get (ih us owner) (kind_of_bare point) (property.again naming)
  | call _ _ _ closed ih₁ ih₂ =>
    intro ts worn
    rw [ExprForm.words, Expr.words] at worn
    obtain ⟨us, vs, rfl, callee, worn⟩ := worn.append
    obtain ⟨opening, vs, rfl, opened, worn⟩ := worn.cons
    obtain ⟨vs, closing, rfl, given, last⟩ := worn.snoc
    exact .call (ih₁ us callee) (kind_of_bare opened) (ih₂ vs given) (closed.again last)
  | noArguments =>
    intro ts worn
    rw [worn.nil]
    exact .noArguments
  | nextEntry _ _ entries ih₁ ih₂ =>
    intro ts worn
    rw [ExprForm.words, Expr.argumentsWords, commaJoined_cons _ entries.entries_words_ne_nil] at worn
    obtain ⟨us, vs, rfl, entry, worn⟩ := worn.append
    obtain ⟨comma, vs, rfl, sign, worn⟩ := worn.cons
    exact .nextEntry (ih₁ us entry) (kind_of_bare sign) (ih₂ vs worn)
  | constant _ =>
    intro ts worn
    obtain ⟨token, rfl, same⟩ := worn.singleton
    exact .constant (constantOf?_of_bare same)
  | super_ front _ named =>
    intro ts worn
    rw [ExprForm.words, Expr.words] at worn
    obtain ⟨word, us, rfl, keyword, worn⟩ := worn.cons
    obtain ⟨dot, us, rfl, point, worn⟩ := worn.cons
    obtain ⟨name, rfl, naming⟩ := worn.singleton
    exact .super_ (front.again keyword) (kind_of_bare point) (named.again naming)
  | this_ front =>
    intro ts worn
    obtain ⟨word, rfl, keyword⟩ := worn.singleton
    exact .this_ (front.again keyword)
  | variable_ front =>
    intro ts worn
    obtain ⟨name, rfl, naming⟩ := worn.singleton
    exact .variable_ (front.again naming)
  | grouping _ _ _ ih =>
    intro ts worn
    rw [ExprForm.words, Expr.words] at worn
    obtain ⟨opening, us, rfl, opened, worn⟩ := worn.cons
    obtain ⟨us, closing, rfl, inner, closed⟩ := worn.snoc
    exact .grouping (kind_of_bare opened) (ih us inner) (kind_of_bare closed)

def RespelledExpr (fits : Nat → Prop) (expr : Expr) : Prop :=
  ∀ ts, Wear ts expr.words → SpellsExpr fits (.expression expr) ts

def RespelledStmt (fits : Nat → Prop) (stmt : Stmt) : Prop :=
  ∀ ts, Wear ts stmt.words → SpellsStmt fits (.declaration stmt) ts

/-- The words of the tree spell it, at its place. A statement need not dangle as it did: the body of a loop with clauses
    may end up in a block. -/
def StmtForm.Respelled (fits : Nat → Prop) : StmtForm → Prop
  | .optional expr? => ∀ ts, Wear ts (expr?.elim [] Expr.words) → SpellsStmt fits (.optional expr?) ts
  | .initializer expr? =>
    ∀ ts, Wear ts (expr?.elim [] (Kind.token .equal :: ·.words)) → SpellsStmt fits (.initializer expr?) ts
  | .varDeclaration stmt => ∀ ts, Wear ts stmt.words → SpellsStmt fits (.varDeclaration stmt) ts
  | .expressionStatement stmt => ∀ ts, Wear ts stmt.words → SpellsStmt fits (.expressionStatement stmt) ts
  | .names params => ∀ ts, Wear ts (commaJoined (params.map fun param => [param.bare])) → SpellsStmt fits (.names params) ts
  | .parameters params =>
    ∀ ts, Wear ts (commaJoined (params.map fun param => [param.bare])) → SpellsStmt fits (.parameters params) ts
  | .forInitializer stmt? => ∀ stmt ∈ stmt?, RespelledStmt fits stmt
  | .forClauses clauses =>
    (∀ stmt ∈ clauses.initializer, RespelledStmt fits stmt) ∧ (∀ expr ∈ clauses.condition, RespelledExpr fits expr) ∧
      ∀ expr ∈ clauses.increment, RespelledExpr fits expr
  | .superclass expr? =>
    ∀ ts, Wear ts (expr?.elim [] (Kind.token .less :: ·.words)) → SpellsStmt fits (.superclass expr?) ts
  | .declaration stmt => RespelledStmt fits stmt
  | .methods list => ∀ ts, Wear ts (FunctionDecl.wordsAll list) → SpellsStmt fits (.methods list) ts
  | .function d => ∀ ts, Wear ts d.words → SpellsStmt fits (.function d) ts
  | .statement stmt dangling =>
    ∀ ts, Wear ts stmt.words → ∃ still, (still = true → dangling = true) ∧ SpellsStmt fits (.statement stmt still) ts
  | .block body => ∀ ts, Wear ts (Stmt.block body).words → SpellsStmt fits (.block body) ts
  | .declarations program => ∀ ts, Wear ts (Stmt.wordsAll program) → SpellsStmt fits (.declarations program) ts

namespace RespelledStmt

theorem of_statement {stmt : Stmt} {dangling : Bool} (again : StmtForm.Respelled fits (.statement stmt dangling)) :
    RespelledStmt fits stmt := by
  intro ts worn
  obtain ⟨still, -, spelled⟩ := again ts worn
  exact .stated spelled

theorem expression {expr : Expr} (value : RespelledExpr fits expr) :
    StmtForm.Respelled fits (.expressionStatement (.expression expr)) := by
  intro ts worn
  rw [Stmt.words] at worn
  obtain ⟨us, semicolon, rfl, worn, ended⟩ := worn.snoc
  exact .expressionStatement (value us worn) (kind_of_bare ended)

theorem noDeclarations : StmtForm.Respelled fits (.declarations []) := by
  intro ts worn
  rw [worn.nil]
  exact .noDeclarations

theorem moreDeclarations {stmt : Stmt} {program : List Stmt} (first : RespelledStmt fits stmt)
    (rest : StmtForm.Respelled fits (.declarations program)) :
    StmtForm.Respelled fits (.declarations (stmt :: program)) := by
  intro ts worn
  rw [Stmt.wordsAll] at worn
  obtain ⟨us, vs, rfl, here, others⟩ := worn.append
  exact .moreDeclarations (first us here) (rest vs others)

theorem block {body : List Stmt} (inner : StmtForm.Respelled fits (.declarations body)) :
    StmtForm.Respelled fits (.block body) := by
  intro ts worn
  rw [Stmt.words] at worn
  obtain ⟨opening, us, rfl, opened, worn⟩ := worn.cons
  obtain ⟨us, closing, rfl, worn, closed⟩ := worn.snoc
  exact .block (kind_of_bare opened) (inner us worn) (kind_of_bare closed)

/-- The word and the parenthesized condition that an `if` and a `while` begin with. -/
theorem worn_condition {kind : Kind} {condition : Expr} {ts words : List Token} (head : RespelledExpr fits condition)
    (worn : Wear ts (kind.token :: Kind.token .leftParen :: (condition.words ++ Kind.token .rightParen :: words))) :
    ∃ word opening us closing vs, ts = word :: opening :: (us ++ closing :: vs) ∧ word.kind = kind ∧
      opening.kind = .leftParen ∧ SpellsExpr fits (.expression condition) us ∧ closing.kind = .rightParen ∧
      Wear vs words := by
  obtain ⟨word, us, rfl, front, worn⟩ := worn.cons
  obtain ⟨opening, us, rfl, opened, worn⟩ := worn.cons
  obtain ⟨us, vs, rfl, tested, worn⟩ := worn.append
  obtain ⟨closing, vs, rfl, closed, worn⟩ := worn.cons
  exact ⟨word, opening, us, closing, vs, rfl, kind_of_bare front, kind_of_bare opened, head us tested, kind_of_bare closed,
    worn⟩

theorem while_ {condition : Expr} {body : Stmt} {dangling : Bool} (head : RespelledExpr fits condition)
    (repeated : StmtForm.Respelled fits (.statement body dangling)) :
    StmtForm.Respelled fits (.statement (.while_ condition body) dangling) := by
  intro ts worn
  rw [Stmt.words] at worn
  obtain ⟨word, opening, us, closing, vs, rfl, front, opened, tested, closed, worn⟩ := worn_condition head worn
  obtain ⟨still, weaker, body⟩ := repeated vs worn
  exact ⟨still, weaker, .whileLoop front opened tested closed body⟩

theorem ifThen {condition : Expr} {thenBranch : Stmt} {dangling : Bool} (head : RespelledExpr fits condition)
    (first : StmtForm.Respelled fits (.statement thenBranch dangling)) :
    StmtForm.Respelled fits (.statement (.ifThen condition thenBranch) true) := by
  intro ts worn
  rw [Stmt.words] at worn
  obtain ⟨word, opening, us, closing, vs, rfl, front, opened, tested, closed, worn⟩ := worn_condition head worn
  obtain ⟨still, -, branch⟩ := first vs worn
  exact ⟨true, id, .ifThen front opened tested closed branch⟩

theorem ifThenElse {condition : Expr} {thenBranch elseBranch : Stmt} {dangling : Bool} (head : RespelledExpr fits condition)
    (first : StmtForm.Respelled fits (.statement thenBranch false))
    (second : StmtForm.Respelled fits (.statement elseBranch dangling)) :
    StmtForm.Respelled fits (.statement (.ifThenElse condition thenBranch elseBranch) dangling) := by
  intro ts worn
  rw [Stmt.words] at worn
  obtain ⟨word, opening, us, closing, vs, rfl, front, opened, tested, closed, worn⟩ := worn_condition head worn
  obtain ⟨vs, ws, rfl, branch₁, worn⟩ := worn.append
  obtain ⟨else_, ws, rfl, otherwise, branch₂⟩ := worn.cons
  obtain ⟨still₁, weaker₁, branch₁⟩ := first vs branch₁
  obtain ⟨still₂, weaker₂, branch₂⟩ := second ws branch₂
  -- the first branch did not dangle, so it still does not
  cases still₁ with
  | true => exact absurd (weaker₁ rfl) (by decide)
  | false => exact ⟨still₂, weaker₂, .ifThenElse front opened tested closed branch₁ (kind_of_bare otherwise) branch₂⟩

theorem pair {first second : Stmt} {dangling : Bool} (before : RespelledStmt fits first)
    (after : RespelledStmt fits second) :
    StmtForm.Respelled fits (.statement (.block [first, second]) dangling) := by
  intro ts worn
  have inner : StmtForm.Respelled fits (.declarations [first, second]) :=
    moreDeclarations before (moreDeclarations after noDeclarations)
  exact ⟨false, nofun, .braced (block inner ts worn)⟩

theorem condition {expr? : Option Expr} (given : ∀ expr ∈ expr?, RespelledExpr fits expr) :
    RespelledExpr fits (expr?.getD (.constant (.bool true))) := by
  cases expr? with
  | some expr => exact given expr rfl
  | none =>
    intro ts worn
    obtain ⟨token, rfl, same⟩ := worn.singleton
    have stands : constantOf? token = some (.bool true) := constantOf?_of_bare same
    have called : SpellsExpr fits _ [token] := .called (.primary (.constant stands))
    exact .unassigned (.operand (.operand (.operand (.operand (.operand (.operand called))))))

theorem loop {clauses : ForClauses} {body : Stmt} {dangling : Bool} (head : StmtForm.Respelled fits (.forClauses clauses))
    (repeated : StmtForm.Respelled fits (.statement body dangling)) :
    StmtForm.Respelled fits (.statement (clauses.loop body) dangling) := by
  obtain ⟨initializer, test, increment⟩ := clauses
  obtain ⟨initial, given, step⟩ := head
  have unstepped {inner : Stmt} (again : StmtForm.Respelled fits (.statement inner dangling)) :
      StmtForm.Respelled fits (.statement (ForClauses.loop ⟨initializer, test, none⟩ inner) dangling) := by
    have looped := while_ (condition given) again
    cases initializer with
    | none => exact looped
    | some stmt => exact pair (initial stmt rfl) (of_statement looped)
  cases increment with
  | none => exact unstepped repeated
  | some expr =>
    have last : RespelledStmt fits (.expression expr) := fun ts worn =>
      .stated (.expressed (expression (step expr rfl) ts worn))
    exact unstepped (pair (of_statement repeated) last)

theorem varDeclaration {name named : Token} {initializer : Option Expr} (naming : Stands name [.identifier] named)
    (value : StmtForm.Respelled fits (.initializer initializer)) :
    StmtForm.Respelled fits (.varDeclaration (.var_ named initializer)) := by
  intro ts worn
  rw [Stmt.words] at worn
  obtain ⟨word, us, rfl, front, worn⟩ := worn.cons
  obtain ⟨name, us, rfl, same, worn⟩ := worn.cons
  obtain ⟨us, semicolon, rfl, worn, ended⟩ := worn.snoc
  exact .varDeclaration (kind_of_bare front) (naming.again same) (value us worn) (kind_of_bare ended)

theorem class_ {name named : Token} {superclass : Option Expr} {methods : List FunctionDecl}
    (naming : Stands name [.identifier] named) (extended : StmtForm.Respelled fits (.superclass superclass))
    (inner : StmtForm.Respelled fits (.methods methods)) : RespelledStmt fits (.class_ named superclass methods) := by
  intro ts worn
  rw [Stmt.words] at worn
  obtain ⟨word, us, rfl, front, worn⟩ := worn.cons
  obtain ⟨name, us, rfl, same, worn⟩ := worn.cons
  obtain ⟨us, vs, rfl, above, worn⟩ := worn.append
  obtain ⟨opening, vs, rfl, opened, worn⟩ := worn.cons
  obtain ⟨vs, closing, rfl, body, closed⟩ := worn.snoc
  exact .classDeclared (kind_of_bare front) (naming.again same) (extended us above) (kind_of_bare opened) (inner vs body)
    (kind_of_bare closed)

theorem function {name named : Token} {params : List Token} {body : List Stmt} (naming : Stands name [.identifier] named)
    (entries : StmtForm.Respelled fits (.parameters params)) (inner : StmtForm.Respelled fits (.block body)) :
    StmtForm.Respelled fits (.function (.mk named params body)) := by
  intro ts worn
  rw [FunctionDecl.words] at worn
  obtain ⟨name, us, rfl, same, worn⟩ := worn.cons
  obtain ⟨opening, us, rfl, opened, worn⟩ := worn.cons
  obtain ⟨us, vs, rfl, given, worn⟩ := worn.append
  obtain ⟨closing, vs, rfl, closed, worn⟩ := worn.cons
  exact .function (naming.again same) (kind_of_bare opened) (entries us given) (kind_of_bare closed) (inner vs worn)

theorem print_ {expr : Expr} (value : RespelledExpr fits expr) :
    StmtForm.Respelled fits (.statement (.print_ expr) false) := by
  intro ts worn
  rw [Stmt.words] at worn
  obtain ⟨word, us, rfl, front, worn⟩ := worn.cons
  obtain ⟨us, semicolon, rfl, worn, ended⟩ := worn.snoc
  exact ⟨false, by simp, .printing (kind_of_bare front) (value us worn) (kind_of_bare ended)⟩

theorem return_ {word keyword : Token} {value : Option Expr} (front : Stands word [.keyword .return_] keyword)
    (given : StmtForm.Respelled fits (.optional value)) :
    StmtForm.Respelled fits (.statement (.return_ keyword value) false) := by
  intro ts worn
  rw [Stmt.words] at worn
  obtain ⟨word, us, rfl, same, worn⟩ := worn.cons
  obtain ⟨us, semicolon, rfl, worn, ended⟩ := worn.snoc
  exact ⟨false, by simp, .returning (front.again same) (given us worn) (kind_of_bare ended)⟩

end RespelledStmt

theorem SpellsStmt.names_words_ne_nil {params ts : List Token} (spelled : SpellsStmt fits (.names params) ts) :
    (params.map fun param => [param.bare]) ≠ [] := by
  cases spelled <;> simp

theorem SpellsStmt.respelled {form : StmtForm} {us : List Token} (spelled : SpellsStmt fits form us) :
    form.Respelled fits := by
  induction spelled with
  | absent =>
    intro ts worn
    rw [worn.nil]
    exact .absent
  | present value => exact fun ts worn => .present (value.respelled ts worn)
  | uninitialized =>
    intro ts worn
    rw [worn.nil]
    exact .uninitialized
  | initialized _ value =>
    intro ts worn
    obtain ⟨equals, us, rfl, sign, worn⟩ := worn.cons
    exact .initialized (kind_of_bare sign) (value.respelled us worn)
  | varDeclaration _ naming _ _ ih => exact RespelledStmt.varDeclaration naming ih
  | expressionStatement value => exact RespelledStmt.expression value.respelled
  | lastName naming =>
    intro ts worn
    obtain ⟨name, rfl, named⟩ := worn.singleton
    exact .lastName (naming.again named)
  | nextName naming _ entries ih =>
    intro ts worn
    rw [List.map_cons, commaJoined_cons _ entries.names_words_ne_nil] at worn
    obtain ⟨name, us, rfl, named, worn⟩ := worn.cons
    obtain ⟨comma, us, rfl, sign, worn⟩ := worn.cons
    exact .nextName (naming.again named) (kind_of_bare sign) (ih us worn)
  | noParameters =>
    intro ts worn
    rw [worn.nil]
    exact .noParameters
  | someParameters short _ ih => exact fun ts worn => .someParameters short (ih ts worn)
  | noInitializer =>
    intro stmt same
    cases same
  | varInitializer _ ih =>
    intro stmt same ts worn
    cases same
    exact .varDeclared (ih ts worn)
  | exprInitializer _ ih =>
    intro stmt same ts worn
    cases same
    exact .stated (.expressed (ih ts worn))
  | forClauses _ _ second _ third _ ih₁ =>
    refine ⟨ih₁, ?_, ?_⟩
    · intro expr same
      cases same
      cases second with
      | present value => exact value.respelled
    · intro expr same
      cases same
      cases third with
      | present value => exact value.respelled
  | noSuperclass =>
    intro ts worn
    rw [worn.nil]
    exact .noSuperclass
  | someSuperclass _ naming =>
    intro ts worn
    obtain ⟨less, us, rfl, sign, worn⟩ := worn.cons
    obtain ⟨name, rfl, named⟩ := worn.singleton
    exact .someSuperclass (kind_of_bare sign) (naming.again named)
  | classDeclared _ naming _ _ _ _ ih₁ ih₂ => exact RespelledStmt.class_ naming ih₁ ih₂
  | functionDeclared _ _ ih =>
    intro ts worn
    rw [Stmt.words] at worn
    obtain ⟨word, us, rfl, front, worn⟩ := worn.cons
    exact .functionDeclared (kind_of_bare front) (ih us worn)
  | varDeclared _ ih => exact fun ts worn => .varDeclared (ih ts worn)
  | stated _ ih => exact RespelledStmt.of_statement ih
  | noMethods =>
    intro ts worn
    rw [worn.nil]
    exact .noMethods
  | moreMethods _ _ ih₁ ih₂ =>
    intro ts worn
    rw [FunctionDecl.wordsAll] at worn
    obtain ⟨us, vs, rfl, first, rest⟩ := worn.append
    exact .moreMethods (ih₁ us first) (ih₂ vs rest)
  | function naming _ _ _ _ ih₁ ih₂ => exact RespelledStmt.function naming ih₁ ih₂
  | block _ _ _ ih => exact RespelledStmt.block ih
  | forLoop _ _ _ ih₁ ih₂ => exact RespelledStmt.loop ih₁ ih₂
  | ifThen _ _ head _ _ ih => exact RespelledStmt.ifThen head.respelled ih
  | ifThenElse _ _ head _ _ _ _ ih₁ ih₂ => exact RespelledStmt.ifThenElse head.respelled ih₁ ih₂
  | printing _ value => exact RespelledStmt.print_ value.respelled
  | returning front _ _ ih => exact RespelledStmt.return_ front ih
  | whileLoop _ _ head _ _ ih => exact RespelledStmt.while_ head.respelled ih
  | braced _ ih => exact fun ts worn => ⟨false, by simp, .braced (ih ts worn)⟩
  | expressed _ ih => exact fun ts worn => ⟨false, by simp, .expressed (ih ts worn)⟩
  | noDeclarations => exact RespelledStmt.noDeclarations
  | moreDeclarations _ _ ih₁ ih₂ => exact RespelledStmt.moreDeclarations ih₁ ih₂

end Lox.Grammar
