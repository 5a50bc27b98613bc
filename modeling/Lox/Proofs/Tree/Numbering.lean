import Lox.Proofs.Grammar.StatementReading

namespace Lox

mutual

def Expr.ids : Expr → List NodeId
  | .assign id _ value => value.ids ++ [id]
  | .binary left _ right => left.ids ++ right.ids
  | .call callee _ arguments => callee.ids ++ Expr.idsAll arguments
  | .get object _ => object.ids
  | .grouping inner => inner.ids
  | .constant _ => []
  | .logical left _ right => left.ids ++ right.ids
  | .set object _ value => object.ids ++ value.ids
  | .super_ id _ _ => [id]
  | .this_ id _ => [id]
  | .unary _ right => right.ids
  | .variable_ id _ => [id]

def Expr.idsAll : List Expr → List NodeId
  | [] => []
  | expr :: rest => expr.ids ++ Expr.idsAll rest

end

def Expr.idsOptional (expr : Option Expr) : List NodeId := expr.elim [] Expr.ids

mutual

def Stmt.ids : Stmt → List NodeId
  | .block body => Stmt.idsAll body
  | .class_ _ superclass methods => Expr.idsOptional superclass ++ FunctionDecl.idsAll methods
  | .expression expr => expr.ids
  | .function declaration => declaration.ids
  | .ifThen condition thenBranch => condition.ids ++ thenBranch.ids
  | .ifThenElse condition thenBranch elseBranch => condition.ids ++ (thenBranch.ids ++ elseBranch.ids)
  | .print_ expr => expr.ids
  | .return_ _ value => Expr.idsOptional value
  | .var_ _ initializer => Expr.idsOptional initializer
  | .while_ condition body => condition.ids ++ body.ids

def Stmt.idsAll : List Stmt → List NodeId
  | [] => []
  | stmt :: rest => stmt.ids ++ Stmt.idsAll rest

def FunctionDecl.ids : FunctionDecl → List NodeId
  | .mk _ _ body => Stmt.idsAll body

def FunctionDecl.idsAll : List FunctionDecl → List NodeId
  | [] => []
  | method :: rest => method.ids ++ FunctionDecl.idsAll rest

end

theorem Stmt.idsAll_append (first second : List Stmt) :
    Stmt.idsAll (first ++ second) = Stmt.idsAll first ++ Stmt.idsAll second := by
  induction first with
  | nil => simp [Stmt.idsAll]
  | cons stmt rest ih => simp [Stmt.idsAll, ih]

/-- Numbers from `low` on and below `high`, each of them once. -/
structure Numbered (low high : Nat) (ids : List Nat) : Prop where
  distinct : ids.Nodup
  within : ∀ id ∈ ids, low ≤ id ∧ id < high

namespace Numbered

variable {low middle high : Nat} {ids others : List Nat}

theorem nil (low high : Nat) : Numbered low high [] := ⟨List.nodup_nil, by simp⟩

theorem next (low : Nat) : Numbered low (low + 1) [low] := ⟨by simp, by simp⟩

theorem append (first : Numbered low middle ids) (second : Numbered middle high others) (lower : low ≤ middle)
    (upper : middle ≤ high) : Numbered low high (ids ++ others) := by
  refine ⟨List.nodup_append.mpr ⟨first.distinct, second.distinct, ?_⟩, fun id member => ?_⟩
  · intro a left b right same
    have before := (first.within a left).2
    have behind := (second.within b right).1
    omega
  · rcases List.mem_append.mp member with left | right
    · have := first.within id left
      omega
    · have := second.within id right
      omega

theorem perm (numbered : Numbered low high ids) (same : ids.Perm others) : Numbered low high others :=
  ⟨same.nodup numbered.distinct, fun id member => numbered.within id (same.symm.subset member)⟩

theorem widen {low' high' : Nat} (numbered : Numbered low high ids) (lower : low' ≤ low) (upper : high ≤ high') :
    Numbered low' high' ids := by
  refine ⟨numbered.distinct, fun id member => ?_⟩
  have := numbered.within id member
  omega

end Numbered

namespace Grammar

theorem Cursor.Takes.nextId {c next : Cursor} {kinds : List Kind} {token : Token} (taken : c.Takes kinds token next) :
    next.nextId = c.nextId := by
  obtain ⟨-, -, rest⟩ := taken
  rw [rest]

@[simp] theorem limit_nextId (c : Cursor) (count : Nat) (fault : SyntaxFault) :
    (limit c count fault).nextId = c.nextId := by
  unfold limit
  split <;> rfl

theorem Level.node_ids (level : Level) (left : Expr) (operator : Token) (right : Expr) :
    (level.node left operator right).ids = left.ids ++ right.ids := by
  cases level <;> rfl

def ExprPhrase.Numbered (low high : NodeId) : ExprPhrase → Prop
  | .expression expr | .infix_ _ expr | .operand _ expr | .unary expr | .primary expr =>
    Lox.Numbered low high expr.ids
  | .infixRest _ left expr | .callRest left expr =>
    ∀ first ≤ low, Lox.Numbered first low left.ids → Lox.Numbered first high expr.ids
  | .arguments exprs | .argumentsFrom _ exprs => Lox.Numbered low high (Expr.idsAll exprs)

theorem ReadsExpr.numbered {phrase : ExprPhrase} {c c' : Cursor} (reads : ReadsExpr phrase c c') :
    phrase.Numbered c.nextId c'.nextId := by
  induction reads with
  | unassigned _ _ ih | tighterOperand _ _ ih | unaryOperand _ _ ih | someArguments _ _ ih => exact ih
  | assignment target sign assigned ih₁ ih₂ =>
    have lower := target.leads.nextId
    rw [← sign.nextId] at lower
    exact (Lox.Numbered.append ih₂ (.next _) assigned.leads.nextId (Nat.le_succ _)).widen lower (Nat.le_refl _)
  | setting target sign assigned ih₁ ih₂ =>
    have upper := assigned.leads.nextId
    simp only [ExprPhrase.Numbered, sign.nextId] at ih₁ ih₂ upper ⊢
    exact Lox.Numbered.append ih₁ ih₂ target.leads.nextId upper
  | misassignment first sign assigned _ ih₁ _ =>
    have upper := assigned.leads.nextId
    rw [sign.nextId] at upper
    exact Lox.Numbered.widen ih₁ (Nat.le_refl _) upper
  | infix_ first _ ih₁ ih₂ | call _ first _ ih₁ ih₂ => exact ih₂ _ first.leads.nextId ih₁
  | infixEnd => exact fun _ _ left => left
  | infixMore sign next _ ih₁ ih₂ =>
    intro low lower left
    have upper := next.leads.nextId
    rw [sign.nextId] at ih₁ upper
    refine ih₂ low (Nat.le_trans lower upper) ?_
    rw [Level.node_ids]
    exact left.append ih₁ lower upper
  | prefixed sign _ ih =>
    rw [sign.nextId] at ih
    exact ih
  | callEnd => exact fun _ _ callee => callee
  | callGet sign property _ ih =>
    rw [property.nextId, sign.nextId] at ih
    exact ih
  | callOn sign entries closing _ ih₁ ih₂ =>
    intro low lower callee
    have upper := entries.leads.nextId
    rw [sign.nextId] at ih₁ upper
    rw [closing.nextId] at ih₂
    exact ih₂ low (Nat.le_trans lower upper) (callee.append ih₁ lower upper)
  | noArguments | constant => exact .nil ..
  | lastArgument _ _ ih => simpa [ExprPhrase.Numbered, Expr.idsAll] using ih
  | nextArgument entry sign entries ih₁ ih₂ =>
    have lower := entry.leads.nextId
    have upper := entries.leads.nextId
    rw [limit_nextId] at ih₁ lower
    rw [sign.nextId] at ih₂ upper
    exact Lox.Numbered.append ih₁ ih₂ lower upper
  | super_ front sign named =>
    rw [← front.nextId, ← sign.nextId, ← named.nextId]
    exact .next _
  | this_ front | variable_ front =>
    rw [← front.nextId]
    exact .next _
  | grouping front read closing ih => 
    rw [front.nextId] at ih
    rw [closing.nextId]
    exact ih

def ForClauses.ids (clauses : ForClauses) : List NodeId :=
  Stmt.idsAll clauses.initializer.toList ++ (Expr.idsOptional clauses.condition ++ Expr.idsOptional clauses.increment)

theorem ForClauses.loop_ids (clauses : ForClauses) (body : Stmt) :
    (clauses.ids ++ body.ids).Perm (clauses.loop body).ids := by
  obtain ⟨initializer, condition, increment⟩ := clauses
  have swapped : ∀ inner : List NodeId, (Expr.idsOptional condition ++ (inner ++ body.ids)).Perm
      ((condition.getD (.constant (.bool true))).ids ++ (body.ids ++ inner)) := by
    intro inner
    cases condition with
    | none => simpa [Expr.idsOptional, Expr.ids] using List.perm_append_comm
    | some expr => exact List.perm_append_comm.append_left _
  cases initializer with
  | none =>
    cases increment with
    | none => simpa [ids, loop, Stmt.ids, Stmt.idsAll, Expr.idsOptional] using swapped []
    | some expr => simpa [ids, loop, Stmt.ids, Stmt.idsAll, Expr.idsOptional] using swapped expr.ids
  | some stmt =>
    cases increment with
    | none => simpa [ids, loop, Stmt.ids, Stmt.idsAll, Expr.idsOptional] using (swapped []).append_left stmt.ids
    | some expr => simpa [ids, loop, Stmt.ids, Stmt.idsAll, Expr.idsOptional] using (swapped expr.ids).append_left stmt.ids

def StmtPhrase.Numbered (low high : NodeId) : StmtPhrase → Prop
  | .optional _ expr? | .initializer expr? | .superclass expr? => Lox.Numbered low high (Expr.idsOptional expr?)
  | .varDeclaration stmt | .expressionStatement stmt | .printStatement stmt | .returnStatement _ stmt
  | .classDeclaration stmt | .statement stmt => Lox.Numbered low high stmt.ids
  | .parametersFrom .. | .parameters _ => True
  | .forInitializer stmt? | .declaration stmt? => Lox.Numbered low high (Stmt.idsAll stmt?.toList)
  | .forClauses clauses => Lox.Numbered low high clauses.ids
  | .methods list => Lox.Numbered low high (FunctionDecl.idsAll list)
  | .function _ d => Lox.Numbered low high d.ids
  | .block body | .declarations body => Lox.Numbered low high (Stmt.idsAll body)

theorem ReadsStmt.numbered {phrase : StmtPhrase} {c c' : Cursor} (reads : ReadsStmt phrase c c') :
    phrase.Numbered c.nextId c'.nextId := by
  induction reads with
  | absent | uninitialized | noInitializer | noSuperclass | misread | methodsEnd | blockEnd | programEnd => exact .nil ..
  | present _ read => exact read.numbered
  | initialized sign value =>
    have numbered := value.numbered
    rw [sign.nextId] at numbered
    exact numbered
  | varDeclaration named _ ended ih =>
    rw [named.nextId] at ih
    rw [ended.nextId]
    exact ih
  | expressionStatement read ended | printStatement read ended =>
    rw [ended.nextId]
    exact read.numbered
  | returnStatement _ ended ih =>
    rw [ended.nextId]
    exact ih
  | lastParameter | nextParameter | noParameters | someParameters => trivial
  | varInitializer front _ ih | classDeclared front _ ih | varDeclared front _ ih =>
    rw [front.nextId] at ih
    simpa [StmtPhrase.Numbered, Stmt.idsAll] using ih
  | exprInitializer _ _ ih | stated _ _ ih => simpa [StmtPhrase.Numbered, Stmt.idsAll] using ih
  | forClauses opened first second ended third closed ih₁ ih₂ ih₃ =>
    have lower := first.leads.nextId
    have middle := second.leads.nextId
    have upper := third.leads.nextId
    rw [opened.nextId] at ih₁ lower
    rw [ended.nextId] at ih₃ upper
    rw [closed.nextId]
    exact Lox.Numbered.append ih₁ (Lox.Numbered.append ih₂ ih₃ middle upper) lower (Nat.le_trans middle upper)
  | someSuperclass sign named =>
    rw [← sign.nextId, ← named.nextId]
    exact .next _
  | functionDeclared front _ ih =>
    rw [front.nextId] at ih
    simpa [StmtPhrase.Numbered, Stmt.idsAll, Stmt.ids] using ih
  | classDeclaration named extended opened read closed ih₁ ih₂ =>
    have lower := extended.leads.nextId
    have upper := read.leads.nextId
    rw [named.nextId] at ih₁ lower
    rw [opened.nextId] at ih₂ upper
    rw [closed.nextId]
    exact Lox.Numbered.append ih₁ ih₂ lower upper
  | methodsMore _ first rest ih₁ ih₂ => exact Lox.Numbered.append ih₁ ih₂ first.leads.nextId rest.leads.nextId
  | function named opened entries closed begun read _ ih =>
    have lower := entries.leads.nextId
    rw [opened.nextId, named.nextId] at lower
    rw [begun.nextId, closed.nextId] at ih
    exact Lox.Numbered.widen ih lower (Nat.le_refl _)
  | @forLoop _ _ _ _ _ clauses body front head read ih₁ ih₂ =>
    have lower := head.leads.nextId
    rw [front.nextId] at ih₁ lower
    exact (Lox.Numbered.append ih₁ ih₂ lower read.leads.nextId).perm (clauses.loop_ids body)
  | ifThen front opened head closed first _ ih =>
    have lower := head.leads.nextId
    have upper := first.leads.nextId
    have numbered := head.numbered
    rw [opened.nextId, front.nextId] at numbered lower
    rw [closed.nextId] at ih upper
    exact Lox.Numbered.append numbered ih lower upper
  | ifThenElse front opened head closed first otherwise second ih₁ ih₂ =>
    have lower := head.leads.nextId
    have middle := first.leads.nextId
    have upper := second.leads.nextId
    have numbered := head.numbered
    rw [opened.nextId, front.nextId] at numbered lower
    rw [closed.nextId] at ih₁ middle
    rw [otherwise.nextId] at ih₂ upper
    exact Lox.Numbered.append numbered (Lox.Numbered.append ih₁ ih₂ middle upper) lower (Nat.le_trans middle upper)
  | printing front _ ih | returning front _ ih | braced front _ ih =>
    rw [front.nextId] at ih
    exact ih
  | whileLoop front opened head closed read ih =>
    have lower := head.leads.nextId
    have upper := read.leads.nextId
    have numbered := head.numbered
    rw [opened.nextId, front.nextId] at numbered lower
    rw [closed.nextId] at ih upper
    exact Lox.Numbered.append numbered ih lower upper
  | expressed _ _ ih => exact ih
  | blockMore _ first rest ih₁ ih₂ | programMore first rest ih₁ ih₂ =>
    simp only [StmtPhrase.Numbered, Stmt.idsAll_append]
    exact Lox.Numbered.append ih₁ ih₂ first.leads.nextId rest.leads.nextId

end Grammar

theorem parseProgram_numbered (tokens : List Token) (nextId : NodeId) :
    Numbered nextId (parseProgram tokens nextId).nextId (Stmt.idsAll (parseProgram tokens nextId).value) :=
  (Grammar.reads_declarations (.ofTokens tokens nextId)).numbered

theorem parseProgram_nextId_le (tokens : List Token) (nextId : NodeId) :
    nextId ≤ (parseProgram tokens nextId).nextId :=
  (Grammar.reads_declarations (.ofTokens tokens nextId)).leads.nextId

end Lox
