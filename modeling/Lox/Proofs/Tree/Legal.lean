import Lox.Proofs.Grammar.StatementReading
import Lox.Proofs.Token.Written

namespace Lox

structure Token.Is (t : Token) (kinds : List Kind) : Prop where
  kind : t.kind ∈ kinds
  genuine : t.Genuine

def unaryOperators : List Kind := [.bang, .minus]

def binaryOperators : List Kind :=
  [.bangEqual, .equalEqual, .greater, .greaterEqual, .less, .lessEqual, .minus, .plus, .slash, .star]

def logicalOperators : List Kind := [.keyword .or_, .keyword .and_]

def Constant.Legal (value : Constant) : Prop :=
  ∃ token : Token, token.Genuine ∧ Grammar.constantOf? token = some value

inductive Expr.Legal : Expr → Prop where
  | assign {id : NodeId} {name : Token} {value : Expr} (named : name.Is [.identifier]) (assigned : value.Legal) :
      Legal (.assign id name value)
  | binary {left right : Expr} {operator : Token} (sign : operator.Is binaryOperators) (first : left.Legal)
      (second : right.Legal) : Legal (.binary left operator right)
  | call {callee : Expr} {paren : Token} {arguments : List Expr} (closing : paren.Is [.rightParen])
      (called : callee.Legal) (given : ∀ argument ∈ arguments, argument.Legal) :
      Legal (.call callee paren arguments)
  | get {object : Expr} {name : Token} (named : name.Is [.identifier]) (owner : object.Legal) :
      Legal (.get object name)
  | grouping {inner : Expr} (grouped : inner.Legal) : Legal (.grouping inner)
  | constant {value : Constant} (stands : value.Legal) : Legal (.constant value)
  | logical {left right : Expr} {operator : Token} (word : operator.Is logicalOperators) (first : left.Legal)
      (second : right.Legal) : Legal (.logical left operator right)
  | set {object value : Expr} {name : Token} (named : name.Is [.identifier]) (owner : object.Legal)
      (assigned : value.Legal) : Legal (.set object name value)
  | super_ {id : NodeId} {keyword method : Token} (word : keyword.Is [.keyword .super_])
      (named : method.Is [.identifier]) : Legal (.super_ id keyword method)
  | this_ {id : NodeId} {keyword : Token} (word : keyword.Is [.keyword .this_]) : Legal (.this_ id keyword)
  | unary {operator : Token} {right : Expr} (sign : operator.Is unaryOperators) (operand : right.Legal) :
      Legal (.unary operator right)
  | variable_ {id : NodeId} {name : Token} (named : name.Is [.identifier]) : Legal (.variable_ id name)

/-- The name that a declaration binds; other statements bind none. -/
def Stmt.declares? : Stmt → Option Token
  | class_ name _ _ => some name
  | function declaration => some declaration.name
  | var_ name _ => some name
  | _ => none

inductive Stmt.Legal : Stmt → Prop where
  | block {body : List Stmt} (stated : ∀ stmt ∈ body, stmt.Legal) : Legal (.block body)
  | class_ {name : Token} {superclass : Option Expr} {methods : List FunctionDecl} (named : name.Is [.identifier])
      (extended : ∀ expr ∈ superclass, ∃ id superName, expr = .variable_ id superName ∧ superName.Is [.identifier])
      (names : ∀ method ∈ methods, method.name.Is [.identifier])
      (params : ∀ method ∈ methods, ∀ param ∈ method.params, param.Is [.identifier])
      (bodies : ∀ method ∈ methods, ∀ stmt ∈ method.body, stmt.Legal) : Legal (.class_ name superclass methods)
  | expression {expr : Expr} (stated : expr.Legal) : Legal (.expression expr)
  | function {declaration : FunctionDecl} (named : declaration.name.Is [.identifier])
      (params : ∀ param ∈ declaration.params, param.Is [.identifier])
      (stated : ∀ stmt ∈ declaration.body, stmt.Legal) : Legal (.function declaration)
  | ifThen {condition : Expr} {thenBranch : Stmt} (head : condition.Legal) (first : thenBranch.Legal)
      (plain : thenBranch.declares? = none) : Legal (.ifThen condition thenBranch)
  | ifThenElse {condition : Expr} {thenBranch elseBranch : Stmt} (head : condition.Legal)
      (first : thenBranch.Legal) (second : elseBranch.Legal) (firstPlain : thenBranch.declares? = none)
      (secondPlain : elseBranch.declares? = none) : Legal (.ifThenElse condition thenBranch elseBranch)
  | print_ {expr : Expr} (stated : expr.Legal) : Legal (.print_ expr)
  | return_ {keyword : Token} {value : Option Expr} (word : keyword.Is [.keyword .return_])
      (returned : ∀ expr ∈ value, expr.Legal) : Legal (.return_ keyword value)
  | var_ {name : Token} {initializer : Option Expr} (named : name.Is [.identifier])
      (initial : ∀ expr ∈ initializer, expr.Legal) : Legal (.var_ name initializer)
  | while_ {condition : Expr} {body : Stmt} (head : condition.Legal) (repeated : body.Legal)
      (plain : body.declares? = none) : Legal (.while_ condition body)

structure FunctionDecl.Legal (d : FunctionDecl) : Prop where
  named : d.name.Is [.identifier]
  params : ∀ param ∈ d.params, param.Is [.identifier]
  body : ∀ stmt ∈ d.body, stmt.Legal

theorem Stmt.Legal.of_declaration {d : FunctionDecl} (legal : d.Legal) : Stmt.Legal (.function d) :=
  .function legal.named legal.params legal.body

theorem Stmt.Legal.of_class {name : Token} {superclass : Option Expr} {methods : List FunctionDecl}
    (named : name.Is [.identifier])
    (extended : ∀ expr ∈ superclass, ∃ id superName, expr = .variable_ id superName ∧ superName.Is [.identifier])
    (legal : ∀ method ∈ methods, method.Legal) : Stmt.Legal (.class_ name superclass methods) :=
  .class_ named extended (fun method member => (legal method member).named)
    (fun method member => (legal method member).params) fun method member => (legal method member).body

namespace Grammar

def Cursor.Genuine (c : Cursor) : Prop := ∀ token ∈ c.pending, token.Genuine

theorem Cursor.Leads.genuine {c next : Cursor} (led : c.Leads next) (genuine : c.Genuine) : next.Genuine :=
  fun token member => genuine token (led.pending.subset member)

theorem Cursor.Genuine.limit {c : Cursor} {count : Nat} {fault : SyntaxFault} (genuine : c.Genuine) :
    (limit c count fault).Genuine := (Cursor.Leads.limit c count fault).genuine genuine

theorem Cursor.Takes.is {c next : Cursor} {kinds : List Kind} {token : Token} (taken : c.Takes kinds token next)
    (genuine : c.Genuine) : token.Is kinds := by
  refine ⟨taken.1, genuine token ?_⟩
  rw [taken.2.1]
  exact List.mem_cons_self ..

theorem Level.node_legal {level : Level} {left right : Expr} {operator : Token} (sign : operator.Is level.operators)
    (leftLegal : left.Legal) (rightLegal : right.Legal) : (level.node left operator right).Legal := by
  obtain ⟨kind, genuine⟩ := sign
  cases level
  case or | and => exact .logical ⟨(by decide : Level.operators _ ⊆ logicalOperators) kind, genuine⟩ leftLegal rightLegal
  all_goals exact .binary ⟨(by decide : Level.operators _ ⊆ binaryOperators) kind, genuine⟩ leftLegal rightLegal

def ExprPhrase.Legal : ExprPhrase → Prop
  | .expression expr | .infix_ _ expr | .operand _ expr | .unary expr | .primary expr => expr.Legal
  | .infixRest _ left expr | .callRest left expr => left.Legal → expr.Legal
  | .arguments exprs | .argumentsFrom _ exprs => ∀ expr ∈ exprs, expr.Legal

theorem ReadsExpr.legal {phrase : ExprPhrase} {c c' : Cursor} (reads : ReadsExpr phrase c c') (genuine : c.Genuine) :
    phrase.Legal := by
  induction reads with
  | unassigned _ _ ih | tighterOperand _ _ ih | unaryOperand _ _ ih | someArguments _ _ ih => exact ih genuine
  | assignment target sign assigned ih₁ ih₂ =>
    have behind := target.leads.genuine genuine
    cases ih₁ genuine with
    | variable_ named => exact .assign named (ih₂ (sign.leads.genuine behind))
  | setting target sign assigned ih₁ ih₂ =>
    have behind := target.leads.genuine genuine
    cases ih₁ genuine with
    | get named object => exact .set named object (ih₂ (sign.leads.genuine behind))
  | misassignment _ _ _ _ ih₁ _ => exact ih₁ genuine
  | infix_ first _ ih₁ ih₂ | call _ first _ ih₁ ih₂ => exact ih₂ (first.leads.genuine genuine) (ih₁ genuine)
  | infixEnd | callEnd => exact id
  | infixMore sign next _ ih₁ ih₂ =>
    intro left
    have behind := sign.leads.genuine genuine
    exact ih₂ (next.leads.genuine behind) (Level.node_legal (sign.is genuine) left (ih₁ behind))
  | prefixed sign _ ih => exact .unary (sign.is genuine) (ih (sign.leads.genuine genuine))
  | callGet sign property _ ih =>
    intro callee
    have behind := sign.leads.genuine genuine
    exact ih (property.leads.genuine behind) (.get (property.is behind) callee)
  | callOn sign entries closing _ ih₁ ih₂ =>
    intro callee
    have behind := sign.leads.genuine genuine
    have last := entries.leads.genuine behind
    exact ih₂ (closing.leads.genuine last) (.call (closing.is last) callee (ih₁ behind))
  | noArguments => simp [ExprPhrase.Legal]
  | lastArgument _ _ ih =>
    have entry := ih genuine.limit
    simpa [ExprPhrase.Legal] using entry
  | nextArgument entry sign _ ih₁ ih₂ =>
    have first := ih₁ genuine.limit
    have others := ih₂ (sign.leads.genuine (entry.leads.genuine genuine.limit))
    simpa [ExprPhrase.Legal] using And.intro first others
  | constant front stands => exact .constant ⟨_, (front.is genuine).genuine, stands⟩
  | super_ front sign named =>
    have behind := sign.leads.genuine (front.leads.genuine genuine)
    exact .super_ (front.is genuine) (named.is behind)
  | this_ front => exact .this_ (front.is genuine)
  | variable_ front => exact .variable_ (front.is genuine)
  | grouping front _ _ ih => exact .grouping (ih (front.leads.genuine genuine))

theorem block_pair_legal {first second : Stmt} (firstLegal : first.Legal) (secondLegal : second.Legal) :
    (Stmt.block [first, second]).Legal :=
  .block (by simp [firstLegal, secondLegal])

theorem ForClauses.loop_legal {clauses : ForClauses} {body : Stmt}
    (initial : ∀ stmt ∈ clauses.initializer, stmt.Legal) (head : ∀ expr ∈ clauses.condition, expr.Legal)
    (stepped : ∀ expr ∈ clauses.increment, expr.Legal) (repeated : body.Legal) (plain : body.declares? = none) :
    (clauses.loop body).Legal ∧ (clauses.loop body).declares? = none := by
  obtain ⟨initializer, condition, increment⟩ := clauses
  have condition : (condition.getD (.constant (.bool true))).Legal := by
    cases condition with
    | none => exact .constant ⟨⟨.keyword .true_, "true", none, 1⟩, Kind.Written.keyword .true_, rfl⟩
    | some expr => exact head expr rfl
  cases initializer with
  | none =>
    cases increment with
    | none => exact ⟨.while_ condition repeated plain, rfl⟩
    | some expr => exact ⟨.while_ condition (block_pair_legal repeated (.expression (stepped expr rfl))) rfl, rfl⟩
  | some stmt =>
    refine ⟨block_pair_legal (initial stmt rfl) ?_, rfl⟩
    cases increment with
    | none => exact .while_ condition repeated plain
    | some expr => exact .while_ condition (block_pair_legal repeated (.expression (stepped expr rfl))) rfl

def StmtPhrase.Legal : StmtPhrase → Prop
  | .optional _ expr? | .initializer expr? => ∀ expr ∈ expr?, expr.Legal
  | .superclass expr? => ∀ expr ∈ expr?, ∃ id name, expr = .variable_ id name ∧ name.Is [.identifier]
  | .varDeclaration stmt | .classDeclaration stmt => stmt.Legal
  | .expressionStatement stmt | .printStatement stmt | .statement stmt => stmt.Legal ∧ stmt.declares? = none
  | .returnStatement keyword stmt => keyword.Is [.keyword .return_] → stmt.Legal ∧ stmt.declares? = none
  | .parametersFrom _ params | .parameters params => ∀ param ∈ params, param.Is [.identifier]
  | .forInitializer stmt? | .declaration stmt? => ∀ stmt ∈ stmt?, stmt.Legal
  | .forClauses clauses =>
    (∀ stmt ∈ clauses.initializer, stmt.Legal) ∧ (∀ expr ∈ clauses.condition, expr.Legal) ∧
      ∀ expr ∈ clauses.increment, expr.Legal
  | .methods list => ∀ method ∈ list, method.Legal
  | .function _ d => d.Legal
  | .block body => ∀ stmt ∈ body, stmt.Legal
  | .declarations program => ∀ stmt ∈ program, stmt.Legal

theorem ReadsStmt.legal {phrase : StmtPhrase} {c c' : Cursor} (reads : ReadsStmt phrase c c') (genuine : c.Genuine) :
    phrase.Legal := by
  induction reads with
  | absent | uninitialized | noParameters | noInitializer | noSuperclass | misread | methodsEnd | blockEnd | programEnd =>
    simp [StmtPhrase.Legal]
  | present _ read => simpa [StmtPhrase.Legal, ExprPhrase.Legal] using read.legal genuine
  | initialized sign value =>
    simpa [StmtPhrase.Legal, ExprPhrase.Legal] using value.legal (sign.leads.genuine genuine)
  | varDeclaration named _ _ ih => exact .var_ (named.is genuine) (ih (named.leads.genuine genuine))
  | expressionStatement read _ => exact ⟨.expression (read.legal genuine), rfl⟩
  | printStatement read _ => exact ⟨.print_ (read.legal genuine), rfl⟩
  | returnStatement _ _ ih =>
    intro word
    exact ⟨.return_ word (ih genuine), rfl⟩
  | lastParameter entry _ => simpa [StmtPhrase.Legal] using entry.is genuine.limit
  | nextParameter entry sign _ ih =>
    have first := entry.is genuine.limit
    have others := ih (sign.leads.genuine (entry.leads.genuine genuine.limit))
    simpa [StmtPhrase.Legal] using And.intro first others
  | someParameters _ _ ih | expressed _ _ ih => exact ih genuine
  | varInitializer front _ ih | classDeclared front _ ih | varDeclared front _ ih =>
    simpa [StmtPhrase.Legal] using ih (front.leads.genuine genuine)
  | exprInitializer _ _ ih | stated _ _ ih => simpa [StmtPhrase.Legal] using (ih genuine).1
  | forClauses opened first second ended _ _ ih₁ ih₂ ih₃ =>
    have start := opened.leads.genuine genuine
    have middle := first.leads.genuine start
    have last := ended.leads.genuine (second.leads.genuine middle)
    exact ⟨ih₁ start, ih₂ middle, ih₃ last⟩
  | someSuperclass sign named =>
    rintro _ ⟨⟩
    exact ⟨_, _, rfl, named.is (sign.leads.genuine genuine)⟩
  | functionDeclared front _ ih =>
    simpa [StmtPhrase.Legal] using Stmt.Legal.of_declaration (ih (front.leads.genuine genuine))
  | classDeclaration named extended opened _ _ ih₁ ih₂ =>
    have behind := named.leads.genuine genuine
    have within := opened.leads.genuine (extended.leads.genuine behind)
    exact .of_class (named.is genuine) (ih₁ behind) (ih₂ within)
  | methodsMore _ first _ ih₁ ih₂ =>
    simpa [StmtPhrase.Legal] using And.intro (ih₁ genuine) (ih₂ (first.leads.genuine genuine))
  | function named opened entries closed begun _ ih₁ ih₂ =>
    have start := opened.leads.genuine (named.leads.genuine genuine)
    have within := begun.leads.genuine (closed.leads.genuine (entries.leads.genuine start))
    exact ⟨named.is genuine, ih₁ start, ih₂ within⟩
  | forLoop front head _ ih₁ ih₂ =>
    have start := front.leads.genuine genuine
    obtain ⟨initial, condition, stepped⟩ := ih₁ start
    obtain ⟨repeated, plain⟩ := ih₂ (head.leads.genuine start)
    exact ForClauses.loop_legal initial condition stepped repeated plain
  | ifThen front opened head closed _ _ ih =>
    have start := opened.leads.genuine (front.leads.genuine genuine)
    obtain ⟨first, plain⟩ := ih (closed.leads.genuine (head.leads.genuine start))
    exact ⟨.ifThen (head.legal start) first plain, rfl⟩
  | ifThenElse front opened head closed first otherwise _ ih₁ ih₂ =>
    have start := opened.leads.genuine (front.leads.genuine genuine)
    have middle := closed.leads.genuine (head.leads.genuine start)
    obtain ⟨firstLegal, firstPlain⟩ := ih₁ middle
    obtain ⟨secondLegal, secondPlain⟩ := ih₂ (otherwise.leads.genuine (first.leads.genuine middle))
    exact ⟨.ifThenElse (head.legal start) firstLegal secondLegal firstPlain secondPlain, rfl⟩
  | printing front _ ih => exact ih (front.leads.genuine genuine)
  | returning front _ ih => exact ih (front.leads.genuine genuine) (front.is genuine)
  | whileLoop front opened head closed _ ih =>
    have start := opened.leads.genuine (front.leads.genuine genuine)
    obtain ⟨repeated, plain⟩ := ih (closed.leads.genuine (head.leads.genuine start))
    exact ⟨.while_ (head.legal start) repeated plain, rfl⟩
  | braced front _ ih => exact ⟨.block (ih (front.leads.genuine genuine)), rfl⟩
  | blockMore _ first _ ih₁ ih₂ | programMore first _ ih₁ ih₂ =>
    intro stmt member
    rcases List.mem_append.mp member with here | later
    · exact ih₁ genuine stmt (Option.mem_toList.mp here)
    · exact ih₂ (first.leads.genuine genuine) stmt later

end Grammar

theorem parseProgram_legal {tokens : List Token} (genuine : ∀ t ∈ tokens, t.kind = .eof ∨ t.Genuine) (nextId : NodeId) :
    ∀ stmt ∈ (parseProgram tokens nextId).value, stmt.Legal := by
  have start : (Grammar.Cursor.ofTokens tokens nextId).Genuine := by
    intro token member
    have pending := List.all_eq_true.mp List.all_takeWhile token member
    have unended : token.kind ≠ .eof := by simpa [Token.isEof] using pending
    exact (genuine token (List.takeWhile_subset _ member)).resolve_left unended
  exact (Grammar.reads_declarations (.ofTokens tokens nextId)).legal start

end Lox
