import Lox.Proofs.Grammar.Spelling

namespace Lox.Grammar

def Short (quiet : Prop) (n : Nat) : Prop := quiet → n ≤ maxArity

namespace Cursor

variable {quiet : Prop} {c d e : Cursor} {token : Token} {kinds : List Kind}

def Silent (quiet : Prop) (c next : Cursor) : Prop := quiet → next.misreadings = c.misreadings

/-- Tokens with the property are read from here to there, or would have been by a quiet reading. -/
def Spans (quiet : Prop) (c next : Cursor) (spelled : List Token → Prop) : Prop :=
  ∃ ts, spelled ts ∧ (quiet → c.pending = ts ++ next.pending)

theorem Silent.split (silent : Silent quiet c e) (first : c.Leads d) (second : d.Leads e) :
    Silent quiet c d ∧ Silent quiet d e := by
  have same (known : quiet) : d.misreadings = c.misreadings := by
    have back := second.misreadings
    rw [silent known] at back
    exact (back.eq_of_length_le first.misreadings.length_le)
  refine ⟨same, fun known => ?_⟩
  rw [same known, silent known]

theorem Takes.silent (taken : c.Takes kinds token d) : d.misreadings = c.misreadings := by
  rw [taken.2.2]

theorem Takes.stands (taken : c.Takes kinds token d) : Stands token kinds token := .self taken.1

theorem Takes.kind {kind : Kind} (taken : c.Takes [kind] token d) : token.kind = kind :=
  List.mem_singleton.mp taken.1

theorem Silent.behind (silent : Silent quiet c e) (taken : c.Takes kinds token d) : Silent quiet d e := by
  intro known
  rw [silent known, taken.silent]

theorem Silent.not_quiet {misreading : Misreading} (silent : Silent quiet c e) (led : c.Leads d)
    (recorded : e.misreadings = misreading :: d.misreadings) : ¬ quiet := by
  intro known
  have longer := led.misreadings.length_le
  have same := congrArg List.length ((silent known).symm.trans recorded)
  rw [List.length_cons] at same
  omega

/-- What is read from here to there spells tokens with the property, if nothing is complained of. -/
structure Spells (quiet : Prop) (c next : Cursor) (spelled : List Token → Prop) : Prop where
  leads : c.Leads next
  spans : c.Silent quiet next → c.Spans quiet next spelled

def Followed (first second : List Token → Prop) (ts : List Token) : Prop := ∃ us vs, ts = us ++ vs ∧ first us ∧ second vs

namespace Spells

variable {spelled spelled' : List Token → Prop}

theorem imp (spells : c.Spells quiet d spelled) (weaker : ∀ ts, spelled ts → spelled' ts) : c.Spells quiet d spelled' := by
  refine ⟨spells.leads, fun silent => ?_⟩
  obtain ⟨ts, spelled, front⟩ := spells.spans silent
  exact ⟨ts, weaker ts spelled, front⟩

theorem stay (nothing : spelled []) : c.Spells quiet c spelled := ⟨.refl c, fun _ => ⟨[], nothing, fun _ => rfl⟩⟩

theorem andThen (first : c.Spells quiet d spelled) (second : d.Spells quiet e spelled') :
    c.Spells quiet e (Followed spelled spelled') := by
  refine ⟨first.leads.trans second.leads, fun silent => ?_⟩
  obtain ⟨before, after⟩ := silent.split first.leads second.leads
  obtain ⟨ts, spelled, front⟩ := first.spans before
  obtain ⟨us, spelled', behind⟩ := second.spans after
  refine ⟨ts ++ us, ⟨ts, us, rfl, spelled, spelled'⟩, fun known => ?_⟩
  rw [front known, behind known, List.append_assoc]

theorem numbered (spells : c.Spells quiet d spelled) : c.Spells quiet d.numbered spelled :=
  ⟨spells.leads.trans (.numbered d), spells.spans⟩

theorem behind (taken : c.Takes kinds token d) (rest : d.Spells quiet e fun ts => spelled (token :: ts)) :
    c.Spells quiet e spelled := by
  refine ⟨taken.leads.trans rest.leads, fun silent => ?_⟩
  obtain ⟨ts, spelled, front⟩ := rest.spans (silent.behind taken)
  refine ⟨token :: ts, spelled, fun known => ?_⟩
  rw [taken.2.1, front known]
  rfl

end Spells

theorem Takes.spells (taken : c.Takes kinds token d) : c.Spells quiet d (· = [token]) := .behind taken (.stay rfl)

theorem Takes.before {spelled : List Token → Prop} (taken : c.Takes kinds token d) (rest : d.Spells quiet e spelled) :
    c.Spells quiet e fun ts => ∃ us, ts = token :: us ∧ spelled us :=
  .behind taken (rest.imp fun us spelled => ⟨us, rfl, spelled⟩)

end Cursor

theorem Cursor.Silent.of_limit {quiet : Prop} {c next : Cursor} {count : Nat} {fault : SyntaxFault}
    (silent : Cursor.Silent quiet c next) (led : (limit c count fault).Leads next) :
    Cursor.Silent quiet (limit c count fault) next ∧ (quiet → count < maxArity ∧ limit c count fault = c) := by
  obtain ⟨first, second⟩ := silent.split (.limit c count fault) led
  refine ⟨second, fun known => ?_⟩
  have same := first known
  unfold limit at same ⊢
  split at same
  · simp [Cursor.record] at same
  · rename_i below
    simp [below, Nat.lt_of_not_le below]

theorem Cursor.Spells.limit {quiet : Prop} {c next : Cursor} {count : Nat} {fault : SyntaxFault}
    {spelled : List Token → Prop} (spells : (Grammar.limit c count fault).Spells quiet next spelled) :
    c.Spells quiet next fun ts => spelled ts ∧ Short quiet (count + 1) := by
  refine ⟨(Cursor.Leads.limit c count fault).trans spells.leads, fun silent => ?_⟩
  obtain ⟨quietly, allowed⟩ := silent.of_limit spells.leads
  obtain ⟨ts, spelled, front⟩ := spells.spans quietly
  refine ⟨ts, ⟨spelled, fun known => (allowed known).1⟩, fun known => ?_⟩
  rw [← front known, (allowed known).2]

theorem Cursor.Spells.recorded {quiet : Prop} {c d next : Cursor} {token : Token} {fault : SyntaxFault}
    {spelled : List Token → Prop} (spells : c.Spells quiet d spelled) (led : d.Leads next) :
    c.Spells quiet (next.record token fault) spelled := by
  refine ⟨spells.leads.trans (led.trans (.record ..)), fun silent => ?_⟩
  obtain ⟨before, after⟩ := silent.split spells.leads (led.trans (.record ..))
  obtain ⟨ts, spelled, -⟩ := spells.spans before
  exact ⟨ts, spelled, fun known => absurd known (after.not_quiet led rfl)⟩

def ExprPhrase.Spelled (quiet : Prop) (c next : Cursor) : ExprPhrase → Prop
  | .expression expr => c.Spells quiet next (SpellsExpr (Short quiet) (.expression expr))
  | .infix_ level expr => c.Spells quiet next (SpellsExpr (Short quiet) (.infix_ level expr))
  | .operand level expr => c.Spells quiet next (SpellsExpr (Short quiet) (level.operandForm expr))
  | .infixRest level left expr =>
    c.Spells quiet next fun us => ∀ ts, SpellsExpr (Short quiet) (.infix_ level left) ts →
      SpellsExpr (Short quiet) (.infix_ level expr) (ts ++ us)
  | .unary expr => c.Spells quiet next (SpellsExpr (Short quiet) (.unary expr))
  | .callRest callee expr =>
    c.Spells quiet next fun us => ∀ ts, SpellsExpr (Short quiet) (.call callee) ts →
      SpellsExpr (Short quiet) (.call expr) (ts ++ us)
  | .arguments exprs => c.Spells quiet next (SpellsExpr (Short quiet) (.arguments exprs))
  | .argumentsFrom count exprs =>
    c.Spells quiet next fun ts => SpellsExpr (Short quiet) (.entries exprs) ts ∧ Short quiet (count + exprs.length)
  | .primary expr => c.Spells quiet next (SpellsExpr (Short quiet) (.primary expr))

theorem ReadsExpr.spelled {quiet : Prop} {phrase : ExprPhrase} {c c' : Cursor} (reads : ReadsExpr phrase c c') :
    phrase.Spelled quiet c c' := by
  induction reads with
  | unassigned _ _ ih => exact ih.imp fun _ => .unassigned
  | assignment _ sign _ ih₁ ih₂ =>
    refine (ih₁.andThen (sign.before ih₂)).numbered.imp ?_
    rintro _ ⟨ts, _, rfl, target, us, rfl, value⟩
    obtain ⟨name, rfl, stands⟩ := target.name
    exact .assign stands sign.kind value
  | setting _ sign _ ih₁ ih₂ =>
    refine (ih₁.andThen (sign.before ih₂)).imp ?_
    rintro _ ⟨ts, _, rfl, target, us, rfl, value⟩
    obtain ⟨vs, dot, name, rfl, owner, point, stands⟩ := target.property
    simpa using SpellsExpr.set owner point stands sign.kind value
  | misassignment _ sign assigned _ ih₁ _ =>
    exact (ih₁.recorded (sign.leads.trans assigned.leads)).imp fun _ => .unassigned
  | infix_ _ _ ih₁ ih₂ =>
    refine (ih₁.andThen ih₂).imp ?_
    rintro _ ⟨ts, us, rfl, operand, whole⟩
    exact whole ts (.operand operand)
  | tighterOperand tighter _ ih =>
    simp only [ExprPhrase.Spelled, Level.operandForm, tighter]
    exact ih
  | unaryOperand tightest _ ih =>
    simp only [ExprPhrase.Spelled, Level.operandForm, tightest]
    exact ih
  | infixEnd | callEnd => exact .stay fun ts spelled => by rwa [List.append_nil]
  | infixMore sign _ _ ih₁ ih₂ =>
    refine (sign.before (ih₁.andThen ih₂)).imp ?_
    rintro _ ⟨_, rfl, us, vs, rfl, right, whole⟩ ts left
    simpa using whole _ (.infix_ left sign.stands right)
  | prefixed sign _ ih => exact .behind sign (ih.imp fun _ => .prefixed sign.stands)
  | call _ _ _ ih₁ ih₂ =>
    refine (ih₁.andThen ih₂).imp ?_
    rintro _ ⟨ts, us, rfl, primary, whole⟩
    exact .called (whole ts (.primary primary))
  | callGet sign property _ ih =>
    refine (sign.before (property.before ih)).imp ?_
    rintro _ ⟨_, rfl, us, rfl, whole⟩ ts owner
    simpa using whole _ (.get owner sign.kind property.stands)
  | callOn sign _ closing _ ih₁ ih₂ =>
    refine (sign.before (ih₁.andThen (closing.before ih₂))).imp ?_
    rintro _ ⟨_, rfl, us, _, rfl, given, vs, rfl, whole⟩ ts callee
    simpa using whole _ (.call callee sign.kind given closing.stands)
  | noArguments => exact .stay .noArguments
  | someArguments _ _ ih =>
    refine ih.imp fun ts ⟨spelled, short⟩ => ?_
    rw [Nat.zero_add] at short
    exact .someArguments short spelled
  | lastArgument _ _ ih => exact ih.limit.imp fun _ ⟨spelled, short⟩ => ⟨.lastEntry spelled, short⟩
  | nextArgument _ sign _ ih₁ ih₂ =>
    refine (ih₁.andThen (sign.before ih₂)).limit.imp ?_
    rintro _ ⟨⟨ts, _, rfl, entry, us, rfl, others, short⟩, -⟩
    refine ⟨.nextEntry entry sign.kind others, ?_⟩
    rwa [List.length_cons, Nat.add_comm (List.length _), ← Nat.add_assoc]
  | constant front stands => exact .behind front (.stay (.constant stands))
  | super_ front sign named =>
    exact .numbered (.behind front (.behind sign (.behind named (.stay (.super_ front.stands sign.kind named.stands)))))
  | this_ front => exact .numbered (.behind front (.stay (.this_ front.stands)))
  | variable_ front => exact .numbered (.behind front (.stay (.variable_ front.stands)))
  | grouping front _ closing ih =>
    refine (front.before (ih.andThen closing.spells)).imp ?_
    rintro _ ⟨_, rfl, ts, _, rfl, inner, rfl⟩
    exact .grouping front.kind inner closing.kind

def StmtPhrase.Spelled (quiet : Prop) (c next : Cursor) : StmtPhrase → Prop
  | .optional _ expr? => c.Spells quiet next (SpellsStmt (Short quiet) (.optional expr?))
  | .initializer expr? => c.Spells quiet next (SpellsStmt (Short quiet) (.initializer expr?))
  | .varDeclaration stmt =>
    ∀ word : Token, word.kind = .keyword .var_ →
      c.Spells quiet next fun ts => SpellsStmt (Short quiet) (.varDeclaration stmt) (word :: ts)
  | .expressionStatement stmt => c.Spells quiet next (SpellsStmt (Short quiet) (.expressionStatement stmt))
  | .printStatement stmt =>
    ∀ word : Token, word.kind = .keyword .print_ →
      c.Spells quiet next fun ts => SpellsStmt (Short quiet) (.statement stmt false) (word :: ts)
  | .returnStatement keyword stmt =>
    keyword.kind = .keyword .return_ →
      c.Spells quiet next fun ts => SpellsStmt (Short quiet) (.statement stmt false) (keyword :: ts)
  | .parametersFrom count params =>
    c.Spells quiet next fun ts => SpellsStmt (Short quiet) (.names params) ts ∧ Short quiet (count + params.length)
  | .parameters params => c.Spells quiet next (SpellsStmt (Short quiet) (.parameters params))
  | .forInitializer stmt? => c.Spells quiet next (SpellsStmt (Short quiet) (.forInitializer stmt?))
  | .forClauses clauses => c.Spells quiet next (SpellsStmt (Short quiet) (.forClauses clauses))
  | .superclass expr? => c.Spells quiet next (SpellsStmt (Short quiet) (.superclass expr?))
  | .declaration none => c.Spells quiet next fun ts => ts = [] ∧ ¬ quiet
  | .declaration (some stmt) => c.Spells quiet next (SpellsStmt (Short quiet) (.declaration stmt))
  | .classDeclaration stmt =>
    ∀ word : Token, word.kind = .keyword .class_ →
      c.Spells quiet next fun ts => SpellsStmt (Short quiet) (.declaration stmt) (word :: ts)
  | .methods ds => c.Spells quiet next (SpellsStmt (Short quiet) (.methods ds))
  | .function _ d => c.Spells quiet next (SpellsStmt (Short quiet) (.function d))
  | .statement stmt =>
    c.Spells quiet next fun ts =>
      ∃ dangling, SpellsStmt (Short quiet) (.statement stmt dangling) ts ∧ (dangling = true → next.Lacks [.keyword .else_])
  | .block body =>
    ∀ brace : Token, brace.kind = .leftBrace →
      c.Spells quiet next fun ts => SpellsStmt (Short quiet) (.block body) (brace :: ts)
  | .declarations program =>
    c.Spells quiet next (SpellsStmt (Short quiet) (.declarations program)) ∧ next.pending = []

theorem Cursor.Takes.not_lacks {c d : Cursor} {kinds : List Kind} {token : Token} (taken : c.Takes kinds token d) :
    ¬ c.Lacks kinds := by
  intro lacks
  refine lacks token ?_ taken.1
  rw [taken.2.1]
  rfl

section

variable {quiet : Prop} {c c₁ c₂ c₃ next : Cursor}

theorem Cursor.Spells.recovered {misreading : Misreading} (led : c.Leads next) :
    c.Spells quiet (next.recover misreading) fun ts => ts = [] ∧ ¬ quiet := by
  refine ⟨led.trans (.recover next misreading), fun silent => ?_⟩
  have loud := silent.not_quiet led rfl
  exact ⟨[], ⟨rfl, loud⟩, fun known => absurd known loud⟩

theorem spelled_nextParameter {count : Nat} {name comma : Token} {params : List Token}
    (entry : (limit c count .tooManyParameters).Takes [.identifier] name c₁) (sign : c₁.Takes [.comma] comma c₂)
    (entries : StmtPhrase.Spelled quiet c₂ c₃ (.parametersFrom (count + 1) params)) :
    StmtPhrase.Spelled quiet c c₃ (.parametersFrom count (name :: params)) := by
  refine (entry.before (sign.before entries)).limit.imp ?_
  rintro _ ⟨⟨_, rfl, ts, rfl, spelled, short⟩, -⟩
  refine ⟨.nextName entry.stands sign.kind spelled, ?_⟩
  rwa [List.length_cons, Nat.add_comm params.length, ← Nat.add_assoc]

theorem spelled_forClauses {c₄ c₅ c₆ : Cursor} {opening semicolon paren : Token} {initializer : Option Stmt}
    {condition increment : Option Expr} (opened : c.Takes [.leftParen] opening c₁)
    (first : StmtPhrase.Spelled quiet c₁ c₂ (.forInitializer initializer))
    (second : StmtPhrase.Spelled quiet c₂ c₃ (.optional .semicolon condition))
    (ended : c₃.Takes [.semicolon] semicolon c₄)
    (third : StmtPhrase.Spelled quiet c₄ c₅ (.optional .rightParen increment))
    (closed : c₅.Takes [.rightParen] paren c₆) :
    StmtPhrase.Spelled quiet c c₆ (.forClauses ⟨initializer, condition, increment⟩) := by
  refine (opened.before (first.andThen (second.andThen (ended.before (third.andThen closed.spells))))).imp ?_
  rintro _ ⟨_, rfl, ts, _, rfl, initial, us, _, rfl, tested, _, rfl, vs, _, rfl, stepped, rfl⟩
  exact .forClauses opened.kind initial tested ended.kind stepped closed.kind

theorem spelled_classDeclaration {c₄ c₅ : Cursor} {name opening closing : Token} {superclass : Option Expr}
    {methods : List FunctionDecl} (named : c.Takes [.identifier] name c₁)
    (extended : StmtPhrase.Spelled quiet c₁ c₂ (.superclass superclass)) (opened : c₂.Takes [.leftBrace] opening c₃)
    (read : StmtPhrase.Spelled quiet c₃ c₄ (.methods methods)) (closed : c₄.Takes [.rightBrace] closing c₅) :
    StmtPhrase.Spelled quiet c c₅ (.classDeclaration (.class_ name superclass methods)) := by
  intro word kind
  refine (named.before (extended.andThen (opened.before (read.andThen closed.spells)))).imp ?_
  rintro _ ⟨_, rfl, ts, _, rfl, above, _, rfl, us, _, rfl, body, rfl⟩
  exact .classDeclared kind named.stands above opened.kind body closed.kind

theorem spelled_function {c₄ c₅ c₆ : Cursor} {role : FunctionRole} {name opening paren brace : Token}
    {params : List Token} {body : List Stmt} (named : c.Takes [.identifier] name c₁)
    (opened : c₁.Takes [.leftParen] opening c₂) (entries : StmtPhrase.Spelled quiet c₂ c₃ (.parameters params))
    (closed : c₃.Takes [.rightParen] paren c₄) (begun : c₄.Takes [.leftBrace] brace c₅)
    (read : StmtPhrase.Spelled quiet c₅ c₆ (.block body)) :
    StmtPhrase.Spelled quiet c c₆ (.function role (.mk name params body)) := by
  have block : c₄.Spells quiet c₆ (SpellsStmt (Short quiet) (.block body)) := .behind begun (read brace begun.kind)
  refine (named.before (opened.before (entries.andThen (closed.before block)))).imp ?_
  rintro _ ⟨_, rfl, _, rfl, ts, _, rfl, given, us, rfl, body⟩
  exact .function named.stands opened.kind given closed.kind body

theorem spelled_forLoop {keyword : Token} {clauses : ForClauses} {body : Stmt}
    (front : c.Takes [.keyword .for_] keyword c₁) (head : StmtPhrase.Spelled quiet c₁ c₂ (.forClauses clauses))
    (read : StmtPhrase.Spelled quiet c₂ c₃ (.statement body)) :
    StmtPhrase.Spelled quiet c c₃ (.statement (clauses.loop body)) := by
  refine (front.before (head.andThen read)).imp ?_
  rintro _ ⟨_, rfl, ts, us, rfl, clauses, dangling, body, alone⟩
  exact ⟨dangling, .forLoop front.kind clauses body, alone⟩

/-- What stands in front of the body of a loop, or of the branches of a condition. -/
theorem spells_condition {c₄ : Cursor} {word : Kind} {keyword opening paren : Token} {condition : Expr}
    {spelled : List Token → Prop} (front : c.Takes [word] keyword c₁) (opened : c₁.Takes [.leftParen] opening c₂)
    (head : ReadsExpr (.expression condition) c₂ c₃) (closed : c₃.Takes [.rightParen] paren c₄)
    (read : c₄.Spells quiet next spelled) :
    c.Spells quiet next fun ts => ∃ us vs, ts = keyword :: opening :: (us ++ paren :: vs) ∧
      SpellsExpr (Short quiet) (.expression condition) us ∧ spelled vs := by
  refine (front.before (opened.before (head.spelled.andThen (closed.before read)))).imp ?_
  rintro _ ⟨_, rfl, _, rfl, us, _, rfl, head, vs, rfl, rest⟩
  exact ⟨us, vs, rfl, head, rest⟩

theorem spelled_ifThenElse {c₄ c₅ c₆ c₇ : Cursor} {keyword opening paren else_ : Token} {condition : Expr}
    {thenBranch elseBranch : Stmt} (front : c.Takes [.keyword .if_] keyword c₁)
    (opened : c₁.Takes [.leftParen] opening c₂) (head : ReadsExpr (.expression condition) c₂ c₃)
    (closed : c₃.Takes [.rightParen] paren c₄) (first : StmtPhrase.Spelled quiet c₄ c₅ (.statement thenBranch))
    (otherwise : c₅.Takes [.keyword .else_] else_ c₆) (second : StmtPhrase.Spelled quiet c₆ c₇ (.statement elseBranch)) :
    StmtPhrase.Spelled quiet c c₇ (.statement (.ifThenElse condition thenBranch elseBranch)) := by
  refine (spells_condition front opened head closed (first.andThen (otherwise.before second))).imp ?_
  rintro _ ⟨ts, _, rfl, head, us, _, rfl, ⟨dangling, body, alone⟩, vs, rfl, dangling', other, alone'⟩
  -- a branch that an `else` could be read into has none behind it
  cases dangling with
  | true => exact absurd (alone rfl) otherwise.not_lacks
  | false => exact ⟨dangling', .ifThenElse front.kind opened.kind head closed.kind body otherwise.kind other, alone'⟩

/-- A declaration is spelled in front of others, unless it was misread. -/
theorem spells_declared {stmt? : Option Stmt} (first : StmtPhrase.Spelled quiet c c₁ (.declaration stmt?)) :
    c.Spells quiet c₁ fun ts => ∀ program us, SpellsStmt (Short quiet) (.declarations program) us →
      SpellsStmt (Short quiet) (.declarations (stmt?.toList ++ program)) (ts ++ us) := by
  cases stmt? with
  | none =>
    refine first.imp ?_
    rintro _ ⟨rfl, -⟩ program us others
    exact others
  | some stmt => exact first.imp fun ts declared program us others => .moreDeclarations declared others

theorem spelled_blockMore {stmt? : Option Stmt} {body : List Stmt}
    (first : StmtPhrase.Spelled quiet c c₁ (.declaration stmt?)) (rest : StmtPhrase.Spelled quiet c₁ c₂ (.block body)) :
    StmtPhrase.Spelled quiet c c₂ (.block (stmt?.toList ++ body)) := by
  intro brace kind
  refine ((spells_declared first).andThen (rest brace kind)).imp ?_
  rintro _ ⟨ts, us, rfl, declared, others⟩
  cases others with
  | block opened others closed =>
    rw [← List.append_assoc]
    exact .block opened (declared _ _ others) closed

end

theorem ReadsStmt.spelled {quiet : Prop} {phrase : StmtPhrase} {c c' : Cursor} (reads : ReadsStmt phrase c c') :
    phrase.Spelled quiet c c' := by
  induction reads with
  | absent => exact .stay .absent
  | present _ read => exact read.spelled.imp fun _ => .present
  | uninitialized => exact .stay .uninitialized
  | initialized sign value => exact .behind sign (value.spelled.imp fun _ => .initialized sign.kind)
  | varDeclaration named _ ended ih =>
    intro word kind
    refine (named.before (ih.andThen ended.spells)).imp ?_
    rintro _ ⟨_, rfl, ts, _, rfl, value, rfl⟩
    exact .varDeclaration kind named.stands value ended.kind
  | expressionStatement read ended =>
    refine (read.spelled.andThen ended.spells).imp ?_
    rintro _ ⟨ts, _, rfl, value, rfl⟩
    exact .expressionStatement value ended.kind
  | printStatement read ended =>
    intro word kind
    refine (read.spelled.andThen ended.spells).imp ?_
    rintro _ ⟨ts, _, rfl, value, rfl⟩
    exact .printing kind value ended.kind
  | returnStatement _ ended ih =>
    intro kind
    refine (ih.andThen ended.spells).imp ?_
    rintro _ ⟨ts, _, rfl, value, rfl⟩
    exact .returning (.self (List.mem_singleton.mpr kind)) value ended.kind
  | lastParameter entry _ =>
    refine entry.spells.limit.imp ?_
    rintro _ ⟨rfl, short⟩
    exact ⟨.lastName entry.stands, short⟩
  | nextParameter entry sign _ ih => exact spelled_nextParameter entry sign ih
  | noParameters => exact .stay .noParameters
  | someParameters _ _ ih =>
    refine ih.imp fun ts ⟨spelled, short⟩ => ?_
    rw [Nat.zero_add] at short
    exact .someParameters short spelled
  | noInitializer front => exact .behind front (.stay (.noInitializer front.kind))
  | varInitializer front _ ih => exact .behind front ((ih _ front.kind).imp fun _ => .varInitializer)
  | exprInitializer _ _ ih => exact ih.imp fun _ => .exprInitializer
  | forClauses opened _ _ ended _ closed ih₁ ih₂ ih₃ => exact spelled_forClauses opened ih₁ ih₂ ended ih₃ closed
  | noSuperclass => exact .stay .noSuperclass
  | someSuperclass sign named =>
    exact .numbered (.behind sign (.behind named (.stay (.someSuperclass sign.kind named.stands))))
  | classDeclared front _ ih => exact .behind front (ih _ front.kind)
  | functionDeclared front _ ih => exact .behind front (ih.imp fun _ => .functionDeclared front.kind)
  | varDeclared front _ ih => exact .behind front ((ih _ front.kind).imp fun _ => .varDeclared)
  | stated _ _ ih => exact ih.imp fun _ ⟨_, spelled, _⟩ => .stated spelled
  | misread _ _ _ led => exact .recovered led
  | classDeclaration named _ opened _ closed ih₁ ih₂ => exact spelled_classDeclaration named ih₁ opened ih₂ closed
  | methodsEnd => exact .stay .noMethods
  | methodsMore _ _ _ ih₁ ih₂ =>
    refine (ih₁.andThen ih₂).imp ?_
    rintro _ ⟨ts, us, rfl, first, others⟩
    exact .moreMethods first others
  | function named opened _ closed begun _ ih₁ ih₂ => exact spelled_function named opened ih₁ closed begun ih₂
  | forLoop front _ _ ih₁ ih₂ => exact spelled_forLoop front ih₁ ih₂
  | ifThen front opened head closed _ alone ih =>
    refine (spells_condition front opened head closed ih).imp ?_
    rintro _ ⟨ts, us, rfl, head, dangling, body, -⟩
    exact ⟨true, .ifThen front.kind opened.kind head closed.kind body, fun _ => alone⟩
  | ifThenElse front opened head closed _ otherwise _ ih₁ ih₂ =>
    exact spelled_ifThenElse front opened head closed ih₁ otherwise ih₂
  | printing front _ ih => exact .behind front ((ih _ front.kind).imp fun _ spelled => ⟨false, spelled, nofun⟩)
  | returning front _ ih => exact .behind front ((ih front.kind).imp fun _ spelled => ⟨false, spelled, nofun⟩)
  | whileLoop front opened head closed _ ih =>
    refine (spells_condition front opened head closed ih).imp ?_
    rintro _ ⟨ts, us, rfl, head, dangling, body, alone⟩
    exact ⟨dangling, .whileLoop front.kind opened.kind head closed.kind body, alone⟩
  | braced front _ ih =>
    exact .behind front ((ih _ front.kind).imp fun _ spelled => ⟨false, .braced spelled, nofun⟩)
  | expressed _ _ ih => exact ih.imp fun _ spelled => ⟨false, .expressed spelled, nofun⟩
  | blockEnd closed => exact fun brace kind => .behind closed (.stay (.block kind .noDeclarations closed.kind))
  | blockMore _ _ _ ih₁ ih₂ => exact spelled_blockMore ih₁ ih₂
  | programEnd ended => exact ⟨.stay .noDeclarations, ended⟩
  | programMore _ _ ih₁ ih₂ =>
    refine ⟨((spells_declared ih₁).andThen ih₂.1).imp ?_, ih₂.2⟩
    rintro _ ⟨ts, us, rfl, declared, others⟩
    exact declared _ us others

end Lox.Grammar
