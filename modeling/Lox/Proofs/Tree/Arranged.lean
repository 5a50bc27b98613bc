import Lox.Proofs.Tree.Legal

namespace Lox

mutual

/-- No branch and no loop body in the statement is a declaration. -/
def Stmt.isArranged : Stmt → Bool
  | .block body => Stmt.allArranged body
  | .class_ _ _ methods => FunctionDecl.allArranged methods
  | .expression _ | .print_ _ | .return_ _ _ | .var_ _ _ => true
  | .function declaration => declaration.isArranged
  | .ifThen _ thenBranch => thenBranch.declares?.isNone && thenBranch.isArranged
  | .ifThenElse _ thenBranch elseBranch =>
    (thenBranch.declares?.isNone && thenBranch.isArranged) && (elseBranch.declares?.isNone && elseBranch.isArranged)
  | .while_ _ body => body.declares?.isNone && body.isArranged

def Stmt.allArranged : List Stmt → Bool
  | [] => true
  | stmt :: rest => stmt.isArranged && Stmt.allArranged rest

def FunctionDecl.isArranged : FunctionDecl → Bool
  | .mk _ _ body => Stmt.allArranged body

def FunctionDecl.allArranged : List FunctionDecl → Bool
  | [] => true
  | method :: rest => method.isArranged && FunctionDecl.allArranged rest

end

theorem Stmt.allArranged_iff {stmts : List Stmt} :
    Stmt.allArranged stmts = true ↔ ∀ stmt ∈ stmts, stmt.isArranged = true := by
  induction stmts with
  | nil => simp [Stmt.allArranged]
  | cons stmt rest ih => simp [Stmt.allArranged, ih]

theorem FunctionDecl.allArranged_iff {methods : List FunctionDecl} :
    FunctionDecl.allArranged methods = true ↔ ∀ d ∈ methods, d.isArranged = true := by
  induction methods with
  | nil => simp [FunctionDecl.allArranged]
  | cons d rest ih => simp [FunctionDecl.allArranged, ih]

theorem FunctionDecl.isArranged_eq (d : FunctionDecl) : d.isArranged = Stmt.allArranged d.body := by
  cases d
  rfl

mutual

theorem Stmt.Legal.isArranged : ∀ {stmt : Stmt}, stmt.Legal → stmt.isArranged = true
  | .block body, legal => by
    cases legal with
    | block stated => exact Stmt.isArranged_of_legal stated
  | .class_ name superclass methods, legal => by
    cases legal with
    | class_ named extended names params bodies => exact FunctionDecl.isArranged_of_legal bodies
  | .expression _, _ => rfl
  | .function (.mk name params body), legal => by
    cases legal with
    | function named params stated => exact Stmt.isArranged_of_legal stated
  | .ifThen condition thenBranch, legal => by
    cases legal with
    | ifThen head first plain => simp [Stmt.isArranged, plain, first.isArranged]
  | .ifThenElse condition thenBranch elseBranch, legal => by
    cases legal with
    | ifThenElse head first second firstPlain secondPlain =>
      simp [Stmt.isArranged, firstPlain, secondPlain, first.isArranged, second.isArranged]
  | .print_ _, _ => rfl
  | .return_ _ _, _ => rfl
  | .var_ _ _, _ => rfl
  | .while_ condition body, legal => by
    cases legal with
    | while_ head repeated plain => simp [Stmt.isArranged, plain, repeated.isArranged]

theorem Stmt.isArranged_of_legal : ∀ {stmts : List Stmt}, (∀ stmt ∈ stmts, stmt.Legal) → Stmt.allArranged stmts = true
  | [], _ => rfl
  | stmt :: rest, legal => by
    have others : ∀ stmt ∈ rest, stmt.Legal := fun stmt member => legal stmt (List.mem_cons_of_mem _ member)
    have first : stmt.Legal := legal stmt (List.mem_cons_self ..)
    simp [Stmt.allArranged, first.isArranged, Stmt.isArranged_of_legal others]

theorem FunctionDecl.isArranged_of_legal : ∀ {methods : List FunctionDecl},
    (∀ d ∈ methods, ∀ stmt ∈ d.body, stmt.Legal) → FunctionDecl.allArranged methods = true
  | [], _ => rfl
  | .mk name params body :: rest, legal => by
    have others : ∀ d ∈ rest, ∀ stmt ∈ d.body, stmt.Legal := fun d member => legal d (List.mem_cons_of_mem _ member)
    have first : ∀ stmt ∈ body, stmt.Legal := legal (.mk name params body) (List.mem_cons_self ..)
    simp [FunctionDecl.allArranged, FunctionDecl.isArranged, Stmt.isArranged_of_legal first,
      FunctionDecl.isArranged_of_legal others]

end

namespace Grammar

def StmtPhrase.isArranged : StmtPhrase → Bool
  | .varDeclaration stmt | .classDeclaration stmt => stmt.isArranged
  | .expressionStatement stmt | .printStatement stmt | .returnStatement _ stmt | .statement stmt =>
    stmt.declares?.isNone && stmt.isArranged
  | .forInitializer stmt? | .declaration stmt? => Stmt.allArranged stmt?.toList
  | .forClauses clauses => Stmt.allArranged clauses.initializer.toList
  | .methods list => FunctionDecl.allArranged list
  | .function _ d => d.isArranged
  | .block stmts | .declarations stmts => Stmt.allArranged stmts
  | .optional _ _ | .initializer _ | .parametersFrom _ _ | .parameters _ | .superclass _ => true

theorem ForClauses.loop_isArranged {clauses : ForClauses} {body : Stmt}
    (initial : Stmt.allArranged clauses.initializer.toList = true)
    (repeated : (body.declares?.isNone && body.isArranged) = true) :
    ((clauses.loop body).declares?.isNone && (clauses.loop body).isArranged) = true := by
  obtain ⟨initializer, condition, increment⟩ := clauses
  simp only [Bool.and_eq_true] at repeated
  cases initializer <;> cases increment <;>
    simp_all [ForClauses.loop, Stmt.isArranged, Stmt.allArranged, Stmt.declares?]

theorem ReadsStmt.isArranged {phrase : StmtPhrase} {c c' : Cursor} (reads : ReadsStmt phrase c c') :
    phrase.isArranged = true := by
  induction reads with
  | forLoop _ _ _ ih₁ ih₂ => exact ForClauses.loop_isArranged ih₁ ih₂
  | blockMore _ _ _ ih₁ ih₂ | programMore _ _ ih₁ ih₂ =>
    simp only [StmtPhrase.isArranged, Stmt.allArranged_iff] at ih₁ ih₂ ⊢
    exact List.forall_mem_append.mpr ⟨ih₁, ih₂⟩
  | _ => simp_all [StmtPhrase.isArranged, Stmt.isArranged, Stmt.allArranged, Stmt.declares?, FunctionDecl.isArranged,
      FunctionDecl.allArranged]

end Grammar

theorem parseProgram_isArranged (tokens : List Token) (nextId : NodeId) :
    Stmt.allArranged (parseProgram tokens nextId).value = true :=
  (Grammar.reads_declarations (.ofTokens tokens nextId)).isArranged

end Lox
