import Lox.Proofs.Grammar.StatementReading
import Lox.Proofs.Scope.Visit

namespace Lox

mutual

/-- There is a loop in the statement, or in a function declared in it. -/
def Stmt.hasLoop : Stmt → Bool
  | .block body => Stmt.anyLoop body
  | .class_ _ _ methods => FunctionDecl.anyLoop methods
  | .expression _ | .print_ _ | .return_ _ _ | .var_ _ _ => false
  | .function declaration => declaration.hasLoop
  | .ifThen _ thenBranch => thenBranch.hasLoop
  | .ifThenElse _ thenBranch elseBranch => thenBranch.hasLoop || elseBranch.hasLoop
  | .while_ _ _ => true

def Stmt.anyLoop : List Stmt → Bool
  | [] => false
  | stmt :: rest => stmt.hasLoop || Stmt.anyLoop rest

def FunctionDecl.hasLoop : FunctionDecl → Bool
  | .mk _ _ body => Stmt.anyLoop body

def FunctionDecl.anyLoop : List FunctionDecl → Bool
  | [] => false
  | method :: rest => method.hasLoop || FunctionDecl.anyLoop rest

end

theorem Stmt.anyLoop_append (first second : List Stmt) :
    Stmt.anyLoop (first ++ second) = (Stmt.anyLoop first || Stmt.anyLoop second) := by
  induction first with
  | nil => rfl
  | cons stmt rest ih => simp only [List.cons_append, Stmt.anyLoop, ih, Bool.or_assoc]

def loopWords : List Kind := [.keyword .while_, .keyword .for_]

namespace Grammar

def Cursor.Unlooped (c : Cursor) : Prop := ∀ t ∈ c.pending, t.kind ∉ loopWords

section

variable {c c' : Cursor} {kind : Kind} {token : Token}

theorem Cursor.Leads.unlooped (led : c.Leads c') (free : c.Unlooped) : c'.Unlooped :=
  fun t member => free t (led.pending.subset member)

theorem Cursor.Unlooped.not_takes (free : c.Unlooped) (loops : kind ∈ loopWords) : ¬c.Takes [kind] token c' := by
  rintro ⟨isKind, pending, -⟩
  apply free token
  · rw [pending]
    exact List.mem_cons_self ..
  · rw [List.mem_singleton.mp isKind]
    exact loops

end

def StmtPhrase.hasLoop : StmtPhrase → Bool
  | .varDeclaration stmt | .expressionStatement stmt | .printStatement stmt | .returnStatement _ stmt
  | .classDeclaration stmt | .statement stmt => stmt.hasLoop
  | .declaration stmt? => Stmt.anyLoop stmt?.toList
  | .methods list => FunctionDecl.anyLoop list
  | .function _ d => d.hasLoop
  | .block stmts | .declarations stmts => Stmt.anyLoop stmts
  | .optional _ _ | .initializer _ | .parametersFrom _ _ | .parameters _ | .forInitializer _ | .forClauses _
  | .superclass _ => false

theorem ReadsStmt.hasLoop_eq_false {phrase : StmtPhrase} {c c' : Cursor} (reads : ReadsStmt phrase c c')
    (free : c.Unlooped) : phrase.hasLoop = false := by
  induction reads with
  | classDeclared front _ ih | varDeclared front _ ih =>
    simpa [StmtPhrase.hasLoop, Stmt.anyLoop] using ih (front.leads.unlooped free)
  | functionDeclared front _ ih =>
    simpa [StmtPhrase.hasLoop, Stmt.anyLoop, Stmt.hasLoop] using ih (front.leads.unlooped free)
  | stated _ _ ih => simpa [StmtPhrase.hasLoop, Stmt.anyLoop] using ih free
  | classDeclaration named extended opened _ _ _ ih =>
    have behind := opened.leads.unlooped (extended.leads.unlooped (named.leads.unlooped free))
    simpa [StmtPhrase.hasLoop, Stmt.hasLoop] using ih behind
  | methodsMore _ first _ ih₁ ih₂ =>
    have method := ih₁ free
    have others := ih₂ (first.leads.unlooped free)
    simp only [StmtPhrase.hasLoop] at method others
    simp only [StmtPhrase.hasLoop, FunctionDecl.anyLoop, method, others, Bool.or_false]
  | function named opened entries closed begun _ _ ih =>
    have start := (named.leads.trans opened.leads).unlooped free
    have within := ((entries.leads.trans closed.leads).trans begun.leads).unlooped start
    simpa [StmtPhrase.hasLoop, FunctionDecl.hasLoop] using ih within
  | forLoop front | whileLoop front => exact absurd front (free.not_takes (by decide))
  | ifThen front opened head closed _ _ ih =>
    have start := (front.leads.trans opened.leads).unlooped free
    simpa [StmtPhrase.hasLoop, Stmt.hasLoop] using ih ((head.leads.trans closed.leads).unlooped start)
  | ifThenElse front opened head closed first otherwise _ ih₁ ih₂ =>
    have start := (front.leads.trans opened.leads).unlooped free
    have middle := (head.leads.trans closed.leads).unlooped start
    have thenFree := ih₁ middle
    have elseFree := ih₂ ((first.leads.trans otherwise.leads).unlooped middle)
    simp only [StmtPhrase.hasLoop] at thenFree elseFree
    simp only [StmtPhrase.hasLoop, Stmt.hasLoop, thenFree, elseFree, Bool.or_false]
  | printing front _ ih | returning front _ ih => exact ih (front.leads.unlooped free)
  | braced front _ ih => simpa [StmtPhrase.hasLoop, Stmt.hasLoop] using ih (front.leads.unlooped free)
  | expressed _ _ ih => exact ih free
  | blockMore _ first _ ih₁ ih₂ | programMore first _ ih₁ ih₂ =>
    have firstFree := ih₁ free
    have others := ih₂ (first.leads.unlooped free)
    simp only [StmtPhrase.hasLoop] at firstFree others
    simp only [StmtPhrase.hasLoop, Stmt.anyLoop_append, firstFree, others, Bool.or_false]
  | _ => rfl

end Grammar

theorem parseProgram_anyLoop {tokens : List Token} (free : ∀ t ∈ tokens, t.kind ∉ loopWords) (nextId : NodeId) :
    Stmt.anyLoop (parseProgram tokens nextId).value = false := by
  apply (Grammar.reads_declarations (.ofTokens tokens nextId)).hasLoop_eq_false
  intro t member
  exact free t (List.takeWhile_subset _ member)

namespace Scope

def Part.hasLoop : Part → Bool
  | expr _ | exprs _ => false
  | stmt s => s.hasLoop
  | stmts ss => Stmt.anyLoop ss
  | function d => d.hasLoop
  | methods ds => FunctionDecl.anyLoop ds

theorem Visit.Enters.hasLoop_eq_false {v v' : Visit} (enters : v.Enters v') (free : v.part.hasLoop = false) :
    v'.part.hasLoop = false := by
  cases enters with
  | @body _ declaration _ =>
    cases declaration
    exact free
  | _ => simp_all [Part.hasLoop, Stmt.hasLoop, Stmt.anyLoop, FunctionDecl.anyLoop]

theorem Visits.hasLoop_eq_false {program : List Stmt} {v : Visit} (visited : Visits program v)
    (free : Stmt.anyLoop program = false) : v.part.hasLoop = false := by
  induction visited with
  | start => exact free
  | enter _ entered ih => exact entered.hasLoop_eq_false ih

end Scope
end Lox
