import Lox.Proofs.Grammar.Ebnf
import Lox.Proofs.Grammar.Rereading

namespace Lox

/-- A token for a number or a text has a value. -/
def Token.Valued (token : Token) : Prop := token.kind = .number ∨ token.kind = .string → token.literal.isSome

namespace Grammar

def kinds (ts : List Token) : List Kind := ts.map Token.kind

@[simp] theorem kinds_nil : kinds [] = [] := rfl

@[simp] theorem kinds_cons (token : Token) (ts : List Token) : kinds (token :: ts) = token.kind :: kinds ts := rfl

@[simp] theorem kinds_append (ts us : List Token) : kinds (ts ++ us) = kinds ts ++ kinds us := List.map_append

namespace Level

def rule : Level → Nonterminal
  | or => .logicOr
  | and => .logicAnd
  | equality => .equality
  | comparison => .comparison
  | term => .term
  | factor => .factor

def operandRule (level : Level) : Nonterminal :=
  match level.tighter? with
  | some next => next.rule
  | none => .unary

def operation : Level → Ebnf
  | or => .operation .logicAnd (.keyword .or_) []
  | and => .operation .equality (.keyword .and_) []
  | equality => .operation .comparison .bangEqual [.equalEqual]
  | comparison => .operation .term .greater [.greaterEqual, .less, .lessEqual]
  | term => .operation .factor .minus [.plus]
  | factor => .operation .unary .slash [.star]

theorem grammar_rule (level : Level) : grammar level.rule = .seq (.rule level.operandRule) (.many level.operation) := by
  cases level <;> rfl

theorem rule_mayRepeat (level : Level) (n : Nat) : level.rule.MayRepeat n := by
  cases level <;> exact nofun

end Level

theorem Derives.among {name : Nonterminal} {kind first : Kind} {others : List Kind} (among : kind ∈ first :: others) :
    Derives name (.choice (.terminal first) (others.map .terminal)) [kind] := by
  induction others generalizing first with
  | nil =>
    rw [List.mem_singleton.mp among]
    exact .terminal
  | cons second rest ih =>
    rcases List.mem_cons.mp among with same | among
    · rw [same]
      exact .left .terminal
    · exact .right (ih among)

theorem Level.derives_operation {name : Nonterminal} {level : Level} {kind : Kind} {ks : List Kind}
    (operator : kind ∈ level.operators) (operand : Derives name (.rule level.operandRule) ks) :
    Derives name level.operation (kind :: ks) := by
  cases level <;> exact .seq (.among operator) operand

def ExprForm.Derived (ts : List Token) : ExprForm → Prop
  | .expression _ => Derivable .assignment (kinds ts)
  | .infix_ level _ =>
    ∃ ks ls n, kinds ts = ks ++ ls ∧ Derives level.rule (.rule level.operandRule) ks ∧
      Derives level.rule (.times n level.operation) ls
  | .unary _ => Derivable .unary (kinds ts)
  | .call _ =>
    ∃ ks ls n, kinds ts = ks ++ ls ∧ Derivable .primary ks ∧ Derives .call (.times n .access) ls
  | .primary _ => Derivable .primary (kinds ts)
  | .arguments _ => Derives .call (.optional (.rule .arguments)) (kinds ts)
  | .entries exprs =>
    ∃ ks ls n, kinds ts = ks ++ ls ∧ Derivable .expression ks ∧
      Derives .arguments (.times n (.another (.rule .expression))) ls ∧ exprs.length = n + 1

theorem derivable_level {level : Level} {expr : Expr} {ts : List Token}
    (derived : (ExprForm.infix_ level expr).Derived ts) : Derivable level.rule (kinds ts) := by
  obtain ⟨ks, ls, n, split, first, repeated⟩ := derived
  unfold Derivable
  rw [level.grammar_rule, split]
  exact .seq first (.many (level.rule_mayRepeat n) repeated)

theorem derives_operand {name : Nonterminal} {level : Level} {expr : Expr} {ts : List Token}
    (derived : (level.operandForm expr).Derived ts) : Derives name (.rule level.operandRule) (kinds ts) := by
  unfold Level.operandForm at derived
  unfold Level.operandRule
  cases next : level.tighter? with
  | none =>
    rw [next] at derived
    exact .rule derived
  | some tighter =>
    rw [next] at derived
    exact .rule (derivable_level derived)

theorem derivable_call {expr : Expr} {ts : List Token} (derived : (ExprForm.call expr).Derived ts) :
    Derivable .call (kinds ts) := by
  obtain ⟨ks, ls, n, split, first, repeated⟩ := derived
  rw [split]
  exact .seq (.rule first) (.many nofun repeated)

theorem derivable_constant {token : Token} {value : Constant} (stands : constantOf? token = some value) :
    Derivable .primary (kinds [token]) := by
  unfold constantOf? at stands
  split at stands
  case h_1 kind =>
    rw [kinds_cons, kind]
    exact .right (.right (.right (.left .terminal)))
  case h_2 kind =>
    rw [kinds_cons, kind]
    exact .right (.right (.left .terminal))
  case h_3 kind =>
    rw [kinds_cons, kind]
    exact .right (.right (.right (.right (.left .terminal))))
  case h_4 kind =>
    rw [kinds_cons, kind]
    exact .left .terminal
  case h_5 kind =>
    rw [kinds_cons, kind]
    exact .right (.left .terminal)
  case h_6 => cases stands

theorem SpellsExpr.derived {form : ExprForm} {ts : List Token} (spelled : SpellsExpr (Short True) form ts) :
    form.Derived ts := by
  induction spelled with
  | unassigned _ ih => exact .right (.rule (derivable_level ih))
  | assign target sign _ ih =>
    simp only [ExprForm.Derived, kinds_cons, target.is, sign]
    exact .left (.seq .absent (.next (.next (.rule ih))))
  | set _ point target sign _ ih₁ ih₂ =>
    simp only [ExprForm.Derived, kinds_append, kinds_cons, point, target.is, sign]
    rw [List.append_cons]
    exact .left (.seq (.present (.last (.rule (derivable_call ih₁)))) (.next (.next (.rule ih₂))))
  | operand _ ih => exact ⟨_, [], 0, (List.append_nil _).symm, derives_operand ih, .never⟩
  | @infix_ level _ _ _ _ _ us _ between _ ih₁ ih₂ =>
    obtain ⟨ks, ls, n, split, first, repeated⟩ := ih₁
    refine ⟨ks, _, n + 1, ?_, first, repeated.times_snoc (level.derives_operation between.kind (derives_operand ih₂))⟩
    rw [kinds_append, split, List.append_assoc]
    rfl
  | prefixed before _ ih => exact .left (.seq (.among before.kind) (.rule ih))
  | called _ ih => exact .right (.rule (derivable_call ih))
  | primary _ ih => exact ⟨_, [], 0, (List.append_nil _).symm, ih, .never⟩
  | get _ point property ih =>
    obtain ⟨ks, ls, n, split, first, repeated⟩ := ih
    refine ⟨ks, _, n + 1, ?_, first, repeated.times_snoc (.right (.next .terminal))⟩
    rw [kinds_append, split, List.append_assoc]
    simp [point, property.is]
  | call _ opened _ closed ih₁ ih₂ =>
    obtain ⟨ks, ls, n, split, first, repeated⟩ := ih₁
    refine ⟨ks, _, n + 1, ?_, first, repeated.times_snoc (.left (.next (.last ih₂)))⟩
    rw [kinds_append, split, List.append_assoc]
    simp [opened, closed.is]
  | noArguments => exact .absent
  | someArguments short _ ih =>
    obtain ⟨ks, ls, n, split, first, repeated, length⟩ := ih
    simp only [ExprForm.Derived, split]
    refine .present (.rule (.seq (.rule first) (.many (fun _ => ?_) repeated)))
    rw [← length]
    exact short trivial
  | lastEntry _ ih => exact ⟨_, [], 0, (List.append_nil _).symm, .rule ih, .never, rfl⟩
  | nextEntry _ sign _ ih₁ ih₂ =>
    obtain ⟨ks, ls, n, split, first, repeated, length⟩ := ih₂
    refine ⟨_, _, n + 1, ?_, .rule ih₁, .again (.next (.rule first)) repeated, ?_⟩
    · rw [kinds_append, kinds_cons, sign, split]
      rfl
    · rw [List.length_cons, length]
  | constant stands => exact derivable_constant stands
  | super_ front point named =>
    simp only [ExprForm.Derived, kinds_cons, kinds_nil, front.is, point, named.is]
    exact .right (.right (.right (.right (.right (.right (.right (.right (.next (.next .terminal)))))))))
  | this_ front =>
    simp only [ExprForm.Derived, kinds_cons, kinds_nil, front.is]
    exact .right (.right (.right (.right (.right (.left .terminal)))))
  | variable_ front =>
    simp only [ExprForm.Derived, kinds_cons, kinds_nil, front.is]
    exact .right (.right (.right (.right (.right (.right (.left .terminal))))))
  | grouping opened _ closed ih =>
    simp only [ExprForm.Derived, kinds_cons, kinds_append, kinds_nil, opened, closed]
    exact .right (.right (.right (.right (.right (.right (.right (.left (.next (.last (.rule (.rule ih)))))))))))

def StmtForm.Derived (ts : List Token) : StmtForm → Prop
  | .optional _ => ∀ name, Derives name (.optional (.rule .expression)) (kinds ts)
  | .initializer _ => Derives .varDecl (.optional (.chain (.terminal .equal) [.rule .expression])) (kinds ts)
  | .varDeclaration _ => Derivable .varDecl (kinds ts)
  | .expressionStatement _ => Derivable .exprStmt (kinds ts)
  | .names params =>
    ∃ ls n, kinds ts = .identifier :: ls ∧ Derives .parameters (.times n (.another (.terminal .identifier))) ls ∧
      params.length = n + 1
  | .parameters _ => Derives .function (.optional (.rule .parameters)) (kinds ts)
  | .forInitializer _ => Derives .forStmt (.choice (.rule .varDecl) [.rule .exprStmt, .terminal .semicolon]) (kinds ts)
  | .forClauses _ => ∀ ls, Derivable .statement ls → Derivable .forStmt (.keyword .for_ :: (kinds ts ++ ls))
  | .superclass _ =>
    Derives .classDecl (.optional (.chain (.terminal .less) [.terminal .identifier])) (kinds ts)
  | .declaration _ => Derivable .declaration (kinds ts)
  | .methods _ => ∃ n, Derives .classDecl (.times n (.rule .function)) (kinds ts)
  | .function _ => Derivable .function (kinds ts)
  | .statement .. => Derivable .statement (kinds ts)
  | .block _ => Derivable .block (kinds ts)
  | .declarations _ => ∃ n, ∀ name, Derives name (.times n (.rule .declaration)) (kinds ts)

theorem SpellsStmt.derived {form : StmtForm} {ts : List Token} (spelled : SpellsStmt (Short True) form ts) :
    form.Derived ts := by
  induction spelled with
  | absent => exact fun name => .absent
  | present value => exact fun name => .present (.rule (.rule value.derived))
  | uninitialized | noParameters | noSuperclass => exact .absent
  | initialized sign value =>
    simp only [StmtForm.Derived, kinds_cons, sign]
    exact .present (.next (.rule (.rule value.derived)))
  | varDeclaration front naming _ ended ih =>
    simp only [StmtForm.Derived, kinds_cons, kinds_append, kinds_nil, front, naming.is, ended]
    exact .next (.next (.last ih))
  | expressionStatement value ended =>
    simp only [StmtForm.Derived, kinds_append, kinds_cons, kinds_nil, ended]
    exact .last (.rule (.rule value.derived))
  | lastName naming => exact ⟨[], 0, by rw [kinds_cons, naming.is, kinds_nil], .never, rfl⟩
  | nextName naming sign _ ih =>
    obtain ⟨ls, n, split, repeated, length⟩ := ih
    refine ⟨_, n + 1, ?_, .again (.next .terminal) repeated, by rw [List.length_cons, length]⟩
    rw [kinds_cons, kinds_cons, naming.is, sign, split]
    rfl
  | someParameters short _ ih =>
    obtain ⟨ls, n, split, repeated, length⟩ := ih
    simp only [StmtForm.Derived, split]
    refine .present (.rule (.next (.many (fun _ => ?_) repeated)))
    rw [← length]
    exact short trivial
  | noInitializer front =>
    simp only [StmtForm.Derived, kinds_cons, kinds_nil, front]
    exact .right (.right .terminal)
  | varInitializer _ ih | expressed _ ih => exact .left (.rule ih)
  | exprInitializer _ ih => exact .right (.left (.rule ih))
  | forClauses opened _ _ ended _ closed ih₁ ih₂ ih₃ =>
    intro ls body
    simp only [kinds_cons, kinds_append, kinds_nil, opened, ended, closed, List.cons_append, List.append_assoc]
    exact .next (.next (.seq ih₁ (.seq (ih₂ _) (.next (.seq (ih₃ _) (.next (.rule body)))))))
  | someSuperclass sign naming =>
    simp only [StmtForm.Derived, kinds_cons, kinds_nil, sign, naming.is]
    exact .present (.next .terminal)
  | classDeclared front naming _ opened _ closed ih₁ ih₂ =>
    obtain ⟨n, methods⟩ := ih₂
    simp only [StmtForm.Derived, kinds_cons, kinds_append, kinds_nil, front, naming.is, opened, closed]
    exact .left (.rule (.next (.next (.seq ih₁ (.next (.last (.many nofun methods)))))))
  | functionDeclared front _ ih =>
    simp only [StmtForm.Derived, kinds_cons, front]
    exact .right (.left (.rule (.next (.rule ih))))
  | varDeclared _ ih => exact .right (.right (.left (.rule ih)))
  | stated _ ih => exact .right (.right (.right (.rule ih)))
  | noMethods => exact ⟨0, .never⟩
  | moreMethods _ _ ih₁ ih₂ =>
    obtain ⟨n, methods⟩ := ih₂
    rw [StmtForm.Derived, kinds_append]
    exact ⟨n + 1, .again (.rule ih₁) methods⟩
  | function naming opened _ closed _ ih₁ ih₂ =>
    simp only [StmtForm.Derived, kinds_cons, kinds_append, naming.is, opened, closed]
    exact .next (.next (.seq ih₁ (.next (.rule ih₂))))
  | block opened _ closed ih =>
    obtain ⟨n, declared⟩ := ih
    simp only [StmtForm.Derived, kinds_cons, kinds_append, kinds_nil, opened, closed]
    exact .next (.last (.many nofun (declared _)))
  | forLoop front _ _ ih₁ ih₂ =>
    simp only [StmtForm.Derived, kinds_cons, kinds_append, front]
    exact .right (.left (.rule (ih₁ _ ih₂)))
  | ifThen front opened head closed _ ih =>
    simp only [StmtForm.Derived, kinds_cons, kinds_append, front, opened, closed]
    exact .right (.right (.left (.rule (.next (.next (.seq (.rule (.rule head.derived)) (.next (.alone (.rule ih)))))))))
  | ifThenElse front opened head closed _ otherwise _ ih₁ ih₂ =>
    simp only [StmtForm.Derived, kinds_cons, kinds_append, front, opened, closed, otherwise]
    exact .right (.right (.left (.rule (.next (.next (.seq (.rule (.rule head.derived))
      (.next (.seq (.rule ih₁) (.present (.next (.rule ih₂)))))))))))
  | printing front value ended =>
    simp only [StmtForm.Derived, kinds_cons, kinds_append, kinds_nil, front, ended]
    exact .right (.right (.right (.left (.rule (.next (.last (.rule (.rule value.derived))))))))
  | returning front _ ended ih =>
    simp only [StmtForm.Derived, kinds_cons, kinds_append, kinds_nil, front.is, ended]
    exact .right (.right (.right (.right (.left (.rule (.next (.last (ih _))))))))
  | whileLoop front opened head closed _ ih =>
    simp only [StmtForm.Derived, kinds_cons, kinds_append, front, opened, closed]
    exact .right (.right (.right (.right (.right (.left (.rule (.next (.next (.seq (.rule (.rule head.derived))
      (.next (.rule ih)))))))))))
  | braced _ ih => exact .right (.right (.right (.right (.right (.right (.rule ih))))))
  | noDeclarations => exact ⟨0, fun _ => .never⟩
  | moreDeclarations _ _ ih₁ ih₂ =>
    obtain ⟨n, declared⟩ := ih₂
    rw [StmtForm.Derived, kinds_append]
    exact ⟨n + 1, fun _ => .again (.rule ih₁) (declared _)⟩

def Ebnf.Fits (meets : Nonterminal → List Token → Prop) (name : Nonterminal) : Ebnf → List Token → Prop
  | .terminal kind, ts => ∃ token, ts = [token] ∧ token.kind = kind ∧ token.Valued
  | .rule other, ts => meets other ts
  | .seq first second, ts => ∃ us vs, ts = us ++ vs ∧ first.Fits meets name us ∧ second.Fits meets name vs
  | .alt first second, ts => first.Fits meets name ts ∨ second.Fits meets name ts
  | .optional inner, ts => ts = [] ∨ inner.Fits meets name ts
  | .many inner, ts =>
    ∃ tss : List (List Token), name.MayRepeat tss.length ∧ ts = tss.flatten ∧ ∀ us ∈ tss, inner.Fits meets name us
  | .times n inner, ts =>
    ∃ tss : List (List Token), tss.length = n ∧ ts = tss.flatten ∧ ∀ us ∈ tss, inner.Fits meets name us

theorem Derives.fits {meets : Nonterminal → List Token → Prop}
    (closed : ∀ name ts, (grammar name).Fits meets name ts → meets name ts) {name : Nonterminal} {right : Ebnf}
    {ks : List Kind} (derived : Derives name right ks) (ts : List Token) (same : kinds ts = ks)
    (valued : ∀ token ∈ ts, token.Valued) : right.Fits meets name ts := by
  induction derived generalizing ts with
  | terminal =>
    obtain ⟨token, rfl, kind⟩ := List.map_eq_singleton_iff.mp same
    exact ⟨token, rfl, kind, valued token (List.mem_singleton.mpr rfl)⟩
  | rule _ ih => exact closed _ _ (ih ts same valued)
  | seq _ _ ih₁ ih₂ =>
    obtain ⟨us, vs, rfl, first, second⟩ := List.map_eq_append_iff.mp same
    exact ⟨us, vs, rfl, ih₁ us first fun token inside => valued token (List.mem_append_left _ inside),
      ih₂ vs second fun token inside => valued token (List.mem_append_right _ inside)⟩
  | left _ ih => exact .inl (ih ts same valued)
  | right _ ih | present _ ih => exact .inr (ih ts same valued)
  | absent => exact .inl (List.map_eq_nil_iff.mp same)
  | many allowed _ ih =>
    obtain ⟨tss, length, rfl, each⟩ := ih ts same valued
    exact ⟨tss, by rw [length]; exact allowed, rfl, each⟩
  | never => exact ⟨[], rfl, List.map_eq_nil_iff.mp same, nofun⟩
  | again _ _ ih₁ ih₂ =>
    obtain ⟨us, vs, rfl, first, second⟩ := List.map_eq_append_iff.mp same
    have one := ih₁ us first fun token inside => valued token (List.mem_append_left _ inside)
    obtain ⟨tss, length, rfl, each⟩ := ih₂ vs second fun token inside => valued token (List.mem_append_right _ inside)
    refine ⟨us :: tss, by rw [List.length_cons, length], rfl, fun ws inside => ?_⟩
    rcases List.mem_cons.mp inside with rfl | inside
    · exact one
    · exact each ws inside

theorem fits_among {meets : Nonterminal → List Token → Prop} {name : Nonterminal} {first : Kind} {others : List Kind}
    {ts : List Token} (fits : (Ebnf.choice (.terminal first) (others.map .terminal)).Fits meets name ts) :
    ∃ token, ts = [token] ∧ token.kind ∈ first :: others := by
  induction others generalizing first with
  | nil =>
    obtain ⟨token, rfl, kind, -⟩ := fits
    exact ⟨token, rfl, List.mem_singleton.mpr kind⟩
  | cons second rest ih =>
    rcases fits with ⟨token, rfl, kind, -⟩ | fits
    · exact ⟨token, rfl, List.mem_cons.mpr (.inl kind)⟩
    · obtain ⟨token, rfl, kind⟩ := ih fits
      exact ⟨token, rfl, List.mem_cons_of_mem _ kind⟩

/-- Tokens that spell what a rule is for. -/
def Nonterminal.Spelled : Nonterminal → List Token → Prop
  | .program, ts =>
    ∃ program us stop, ts = us ++ [stop] ∧ stop.kind = .eof ∧ SpellsStmt (Short True) (.declarations program) us
  | .declaration, ts | .classDecl, ts | .funDecl, ts => ∃ stmt, SpellsStmt (Short True) (.declaration stmt) ts
  | .function, ts => ∃ d, SpellsStmt (Short True) (.function d) ts
  | .varDecl, ts => ∃ stmt, SpellsStmt (Short True) (.varDeclaration stmt) ts
  | .exprStmt, ts => ∃ stmt, SpellsStmt (Short True) (.expressionStatement stmt) ts
  | .statement, ts | .forStmt, ts | .ifStmt, ts | .printStmt, ts | .returnStmt, ts | .whileStmt, ts =>
    ∃ stmt dangling, SpellsStmt (Short True) (.statement stmt dangling) ts
  | .block, ts => ∃ body, SpellsStmt (Short True) (.block body) ts
  | .parameters, ts => ∃ params, SpellsStmt (Short True) (.parameters params) ts
  | .expression, ts | .assignment, ts => ∃ expr, SpellsExpr (Short True) (.expression expr) ts
  | .logicOr, ts => ∃ expr, SpellsExpr (Short True) (.infix_ .or expr) ts
  | .logicAnd, ts => ∃ expr, SpellsExpr (Short True) (.infix_ .and expr) ts
  | .equality, ts => ∃ expr, SpellsExpr (Short True) (.infix_ .equality expr) ts
  | .comparison, ts => ∃ expr, SpellsExpr (Short True) (.infix_ .comparison expr) ts
  | .term, ts => ∃ expr, SpellsExpr (Short True) (.infix_ .term expr) ts
  | .factor, ts => ∃ expr, SpellsExpr (Short True) (.infix_ .factor expr) ts
  | .unary, ts => ∃ expr, SpellsExpr (Short True) (.unary expr) ts
  | .call, ts => ∃ expr, SpellsExpr (Short True) (.call expr) ts
  | .arguments, ts => ∃ exprs, SpellsExpr (Short True) (.arguments exprs) ts
  | .primary, ts => ∃ expr, SpellsExpr (Short True) (.primary expr) ts

namespace Level

variable {level : Level} {ts us : List Token} {tss : List (List Token)}

theorem fits_operation (fits : level.operation.Fits Nonterminal.Spelled level.rule ts) :
    ∃ sign us right, ts = sign :: us ∧ sign.kind ∈ level.operators ∧
      SpellsExpr (Short True) (level.operandForm right) us := by
  cases level <;>
  · obtain ⟨_, us, rfl, chosen, right, spelled⟩ := fits
    obtain ⟨sign, rfl, among⟩ := fits_among chosen
    exact ⟨sign, us, right, rfl, among, spelled⟩

theorem spelled_operations {left : Expr} (first : SpellsExpr (Short True) (.infix_ level left) us)
    (each : ∀ ws ∈ tss, level.operation.Fits Nonterminal.Spelled level.rule ws) :
    ∃ whole, SpellsExpr (Short True) (.infix_ level whole) (us ++ tss.flatten) := by
  induction tss generalizing us left with
  | nil => exact ⟨left, by simpa using first⟩
  | cons ws rest ih =>
    obtain ⟨sign, vs, right, rfl, among, second⟩ := fits_operation (each ws List.mem_cons_self)
    obtain ⟨whole, spelled⟩ :=
      ih (.infix_ first (.self among) second) fun xs inside => each xs (List.mem_cons_of_mem _ inside)
    exact ⟨whole, by simpa using spelled⟩

theorem spelled_of_fits (level : Level) (fits : (grammar level.rule).Fits Nonterminal.Spelled level.rule ts) :
    level.rule.Spelled ts := by
  rw [level.grammar_rule] at fits
  obtain ⟨us, _, rfl, operand, tss, -, rfl, each⟩ := fits
  have first : ∃ left, SpellsExpr (Short True) (level.operandForm left) us := by
    cases level <;> exact operand
  obtain ⟨left, first⟩ := first
  have whole := spelled_operations (.operand first) each
  cases level <;> exact whole

end Level

section Fold

variable {ts us : List Token} {tss : List (List Token)}

theorem spelled_accesses {callee : Expr} (first : SpellsExpr (Short True) (.call callee) us)
    (each : ∀ ws ∈ tss, Ebnf.access.Fits Nonterminal.Spelled .call ws) :
    ∃ whole, SpellsExpr (Short True) (.call whole) (us ++ tss.flatten) := by
  induction tss generalizing us callee with
  | nil => exact ⟨callee, by simpa using first⟩
  | cons ws rest ih =>
    have others : ∀ xs ∈ rest, Ebnf.access.Fits Nonterminal.Spelled .call xs :=
      fun xs inside => each xs (List.mem_cons_of_mem _ inside)
    rcases each ws List.mem_cons_self with called | ⟨_, _, rfl, ⟨dot, rfl, point, -⟩, name, rfl, named, -⟩
    · obtain ⟨_, _, rfl, ⟨opening, rfl, opened, -⟩, vs, _, rfl, given, closing, rfl, closed, -⟩ := called
      have arguments : ∃ exprs, SpellsExpr (Short True) (.arguments exprs) vs := by
        rcases given with rfl | given
        · exact ⟨[], .noArguments⟩
        · exact given
      obtain ⟨exprs, arguments⟩ := arguments
      obtain ⟨whole, spelled⟩ :=
        ih (.call first opened arguments (.self (List.mem_singleton.mpr closed))) others
      exact ⟨whole, by simpa using spelled⟩
    · obtain ⟨whole, spelled⟩ := ih (.get first point (.self (List.mem_singleton.mpr named))) others
      exact ⟨whole, by simpa using spelled⟩

theorem spelled_entries {expr : Expr} (first : SpellsExpr (Short True) (.expression expr) us)
    (each : ∀ ws ∈ tss, (Ebnf.another (.rule .expression)).Fits Nonterminal.Spelled .arguments ws) :
    ∃ exprs, SpellsExpr (Short True) (.entries exprs) (us ++ tss.flatten) ∧ exprs.length = tss.length + 1 := by
  induction tss generalizing us expr with
  | nil => exact ⟨[expr], by simpa using first.lastEntry, rfl⟩
  | cons ws rest ih =>
    obtain ⟨_, vs, rfl, ⟨comma, rfl, sign, -⟩, second, spelled⟩ := each ws List.mem_cons_self
    obtain ⟨exprs, others, length⟩ := ih spelled fun xs inside => each xs (List.mem_cons_of_mem _ inside)
    exact ⟨expr :: exprs, by simpa using first.nextEntry sign others, by simp [length]⟩

theorem spelled_names {name : Token} (first : name.kind = .identifier)
    (each : ∀ ws ∈ tss, (Ebnf.another (.terminal .identifier)).Fits Nonterminal.Spelled .parameters ws) :
    ∃ params, SpellsStmt (Short True) (.names params) (name :: tss.flatten) ∧ params.length = tss.length + 1 := by
  have stands : Stands name [.identifier] name := .self (List.mem_singleton.mpr first)
  induction tss generalizing name with
  | nil => exact ⟨[name], .lastName stands, rfl⟩
  | cons ws rest ih =>
    obtain ⟨_, _, rfl, ⟨comma, rfl, sign, -⟩, second, rfl, named, -⟩ := each ws List.mem_cons_self
    obtain ⟨params, others, length⟩ :=
      ih named (fun xs inside => each xs (List.mem_cons_of_mem _ inside)) (.self (List.mem_singleton.mpr named))
    exact ⟨name :: params, .nextName stands sign others, by simp [length]⟩

theorem spelled_methods (each : ∀ ws ∈ tss, Nonterminal.function.Spelled ws) :
    ∃ methods, SpellsStmt (Short True) (.methods methods) tss.flatten := by
  induction tss with
  | nil => exact ⟨[], .noMethods⟩
  | cons ws rest ih =>
    obtain ⟨method, first⟩ := each ws List.mem_cons_self
    obtain ⟨methods, others⟩ := ih fun xs inside => each xs (List.mem_cons_of_mem _ inside)
    exact ⟨method :: methods, .moreMethods first others⟩

theorem spelled_declarations (each : ∀ ws ∈ tss, Nonterminal.declaration.Spelled ws) :
    ∃ program, SpellsStmt (Short True) (.declarations program) tss.flatten := by
  induction tss with
  | nil => exact ⟨[], .noDeclarations⟩
  | cons ws rest ih =>
    obtain ⟨stmt, first⟩ := each ws List.mem_cons_self
    obtain ⟨program, others⟩ := ih fun xs inside => each xs (List.mem_cons_of_mem _ inside)
    exact ⟨stmt :: program, .moreDeclarations first others⟩

/-- An `else` behind a dangling statement belongs to the last `if` that has none. -/
theorem spelled_dangling {fits : Nat → Prop} {form : StmtForm} {stmt other : Stmt} {dangling : Bool} {else_ : Token}
    (spelled : SpellsStmt fits form ts) (same : form = .statement stmt true) (sign : else_.kind = .keyword .else_)
    (second : SpellsStmt fits (.statement other dangling) us) :
    ∃ whole dangling', SpellsStmt fits (.statement whole dangling') (ts ++ else_ :: us) := by
  induction spelled generalizing stmt with
  | forLoop front head _ _ ih =>
    cases same
    obtain ⟨body, dangling', spelled⟩ := ih rfl
    exact ⟨_, dangling', by simpa using SpellsStmt.forLoop front head spelled⟩
  | @ifThen _ _ _ _ _ inner _ _ front opened head closed first ih =>
    cases inner with
    | true =>
      obtain ⟨then_, dangling', spelled⟩ := ih rfl
      exact ⟨_, true, by simpa using SpellsStmt.ifThen front opened head closed spelled⟩
    | false => exact ⟨_, dangling, by simpa using SpellsStmt.ifThenElse front opened head closed first sign second⟩
  | ifThenElse front opened head closed first otherwise _ _ ih =>
    cases same
    obtain ⟨otherwise', dangling', spelled⟩ := ih rfl
    exact ⟨_, dangling', by simpa using SpellsStmt.ifThenElse front opened head closed first otherwise spelled⟩
  | whileLoop front opened head closed _ ih =>
    cases same
    obtain ⟨body, dangling', spelled⟩ := ih rfl
    exact ⟨_, dangling', by simpa using SpellsStmt.whileLoop front opened head closed spelled⟩
  | _ => cases same

end Fold

theorem spelled_optional {ts : List Token} (given : ts = [] ∨ Nonterminal.expression.Spelled ts) :
    ∃ expr?, SpellsStmt (Short True) (.optional expr?) ts := by
  rcases given with rfl | ⟨expr, value⟩
  · exact ⟨none, .absent⟩
  · exact ⟨some expr, .present value⟩

theorem stands_self {token : Token} {kind : Kind} (same : token.kind = kind) : Stands token [kind] token :=
  .self (List.mem_singleton.mpr same)

theorem primary_spelled {ts : List Token} (fits : (grammar .primary).Fits Nonterminal.Spelled .primary ts) :
    Nonterminal.primary.Spelled ts := by
  have valued {token : Token} (kind : token.kind = .number ∨ token.kind = .string) (has : token.Valued) :
      ∃ value, constantOf? token = some value := by
    obtain ⟨literal, found⟩ := Option.isSome_iff_exists.mp (has kind)
    refine ⟨.ofLiteral literal, ?_⟩
    rcases kind with kind | kind <;> simp [constantOf?, kind, found]
  rcases fits with number | string | true_ | false_ | nil_ | this_ | name | grouping | super_
  · obtain ⟨token, rfl, kind, has⟩ := number
    obtain ⟨value, stands⟩ := valued (.inl kind) has
    exact ⟨_, .constant stands⟩
  · obtain ⟨token, rfl, kind, has⟩ := string
    obtain ⟨value, stands⟩ := valued (.inr kind) has
    exact ⟨_, .constant stands⟩
  · obtain ⟨token, rfl, kind, -⟩ := true_
    exact ⟨.constant (.bool true), .constant (by simp [constantOf?, kind])⟩
  · obtain ⟨token, rfl, kind, -⟩ := false_
    exact ⟨.constant (.bool false), .constant (by simp [constantOf?, kind])⟩
  · obtain ⟨token, rfl, kind, -⟩ := nil_
    exact ⟨.constant .nil, .constant (by simp [constantOf?, kind])⟩
  · obtain ⟨token, rfl, kind, -⟩ := this_
    exact ⟨.this_ 0 token, .this_ (stands_self kind)⟩
  · obtain ⟨token, rfl, kind, -⟩ := name
    exact ⟨.variable_ 0 token, .variable_ (stands_self kind)⟩
  · obtain ⟨_, _, rfl, ⟨opening, rfl, opened, -⟩, us, _, rfl, ⟨inner, read⟩, closing, rfl, closed, -⟩ := grouping
    exact ⟨_, .grouping opened read closed⟩
  · obtain ⟨_, _, rfl, ⟨word, rfl, front, -⟩, _, _, rfl, ⟨dot, rfl, point, -⟩, name, rfl, named, -⟩ := super_
    exact ⟨.super_ 0 word name, .super_ (stands_self front) point (stands_self named)⟩

theorem ifStmt_spelled {ts : List Token} (fits : (grammar .ifStmt).Fits Nonterminal.Spelled .ifStmt ts) :
    Nonterminal.ifStmt.Spelled ts := by
  obtain ⟨_, _, rfl, ⟨word, rfl, front, -⟩, _, _, rfl, ⟨opening, rfl, opened, -⟩, us, _, rfl, ⟨condition, head⟩,
    _, _, rfl, ⟨closing, rfl, closed, -⟩, vs, ws, rfl, ⟨then_, dangling, first⟩, otherwise⟩ := fits
  rcases otherwise with rfl | ⟨_, xs, rfl, ⟨else_, rfl, sign, -⟩, other, dangling', second⟩
  · exact ⟨_, true, by simpa using SpellsStmt.ifThen front opened head closed first⟩
  · cases dangling with
    | true =>
      obtain ⟨whole, inner, spelled⟩ := spelled_dangling first rfl sign second
      exact ⟨_, true, by simpa using SpellsStmt.ifThen front opened head closed spelled⟩
    | false => exact ⟨_, dangling', by simpa using SpellsStmt.ifThenElse front opened head closed first sign second⟩

theorem forStmt_spelled {ts : List Token} (fits : (grammar .forStmt).Fits Nonterminal.Spelled .forStmt ts) :
    Nonterminal.forStmt.Spelled ts := by
  obtain ⟨_, _, rfl, ⟨word, rfl, front, -⟩, _, _, rfl, ⟨opening, rfl, opened, -⟩, us, _, rfl, begun, vs, _, rfl, second,
    _, _, rfl, ⟨semicolon, rfl, ended, -⟩, ws, _, rfl, third, _, xs, rfl, ⟨closing, rfl, closed, -⟩,
    body, dangling, repeated⟩ := fits
  have first : ∃ stmt?, SpellsStmt (Short True) (.forInitializer stmt?) us := by
    rcases begun with ⟨stmt, spelled⟩ | ⟨stmt, spelled⟩ | ⟨token, rfl, kind, -⟩
    · exact ⟨some stmt, .varInitializer spelled⟩
    · exact ⟨some stmt, .exprInitializer spelled⟩
    · exact ⟨none, .noInitializer kind⟩
  obtain ⟨initializer, first⟩ := first
  obtain ⟨condition, second⟩ := spelled_optional second
  obtain ⟨increment, third⟩ := spelled_optional third
  have clauses := SpellsStmt.forClauses opened first second ended third closed
  exact ⟨_, dangling, by simpa using SpellsStmt.forLoop front clauses repeated⟩

theorem spelled_of_fits (name : Nonterminal) (ts : List Token) (fits : (grammar name).Fits Nonterminal.Spelled name ts) :
    name.Spelled ts := by
  cases name with
  | program =>
    obtain ⟨us, _, rfl, ⟨tss, -, rfl, each⟩, stop, rfl, ended, -⟩ := fits
    obtain ⟨program, spelled⟩ := spelled_declarations each
    exact ⟨program, _, stop, rfl, ended, spelled⟩
  | declaration =>
    rcases fits with declared | declared | ⟨stmt, declared⟩ | ⟨stmt, dangling, statement⟩
    · exact declared
    · exact declared
    · exact ⟨stmt, .varDeclared declared⟩
    · exact ⟨stmt, .stated statement⟩
  | classDecl =>
    obtain ⟨_, _, rfl, ⟨word, rfl, front, -⟩, _, _, rfl, ⟨token, rfl, kind, -⟩, us, _, rfl, extension, _, _, rfl,
      ⟨opening, rfl, opened, -⟩, _, _, rfl, ⟨tss, -, rfl, each⟩, closing, rfl, closed, -⟩ := fits
    obtain ⟨methods, body⟩ := spelled_methods each
    have extended : ∃ superclass, SpellsStmt (Short True) (.superclass superclass) us := by
      rcases extension with rfl | ⟨_, _, rfl, ⟨less, rfl, sign, -⟩, name, rfl, named, -⟩
      · exact ⟨none, .noSuperclass⟩
      · exact ⟨some (.variable_ 0 name), .someSuperclass sign (stands_self named)⟩
    obtain ⟨superclass, extended⟩ := extended
    exact ⟨_, .classDeclared front (stands_self kind) extended opened body closed⟩
  | funDecl =>
    obtain ⟨_, us, rfl, ⟨word, rfl, front, -⟩, d, declared⟩ := fits
    exact ⟨.function d, .functionDeclared front declared⟩
  | function =>
    obtain ⟨_, _, rfl, ⟨token, rfl, kind, -⟩, _, _, rfl, ⟨opening, rfl, opened, -⟩, us, _, rfl, given, _, vs, rfl,
      ⟨closing, rfl, closed, -⟩, body, block⟩ := fits
    have entries : ∃ params, SpellsStmt (Short True) (.parameters params) us := by
      rcases given with rfl | given
      · exact ⟨[], .noParameters⟩
      · exact given
    obtain ⟨params, entries⟩ := entries
    exact ⟨_, .function (stands_self kind) opened entries closed block⟩
  | varDecl =>
    obtain ⟨_, _, rfl, ⟨word, rfl, front, -⟩, _, _, rfl, ⟨token, rfl, kind, -⟩, us, _, rfl, given, semicolon, rfl,
      ended, -⟩ := fits
    have value : ∃ initializer, SpellsStmt (Short True) (.initializer initializer) us := by
      rcases given with rfl | ⟨_, vs, rfl, ⟨equals, rfl, sign, -⟩, expr, value⟩
      · exact ⟨none, .uninitialized⟩
      · exact ⟨some expr, .initialized sign value⟩
    obtain ⟨initializer, value⟩ := value
    exact ⟨_, .varDeclaration front (stands_self kind) value ended⟩
  | statement =>
    rcases fits with ⟨stmt, value⟩ | loop | condition | printed | returned | loop | ⟨body, block⟩
    · exact ⟨stmt, false, .expressed value⟩
    · exact loop
    · exact condition
    · exact printed
    · exact returned
    · exact loop
    · exact ⟨_, false, .braced block⟩
  | exprStmt =>
    obtain ⟨us, _, rfl, ⟨expr, value⟩, semicolon, rfl, ended, -⟩ := fits
    exact ⟨_, .expressionStatement value ended⟩
  | forStmt => exact forStmt_spelled fits
  | ifStmt => exact ifStmt_spelled fits
  | printStmt =>
    obtain ⟨_, _, rfl, ⟨word, rfl, front, -⟩, us, _, rfl, ⟨expr, value⟩, semicolon, rfl, ended, -⟩ := fits
    exact ⟨_, false, .printing front value ended⟩
  | returnStmt =>
    obtain ⟨_, _, rfl, ⟨word, rfl, front, -⟩, us, _, rfl, given, semicolon, rfl, ended, -⟩ := fits
    obtain ⟨value, given⟩ := spelled_optional given
    exact ⟨_, false, .returning (stands_self front) given ended⟩
  | whileStmt =>
    obtain ⟨_, _, rfl, ⟨word, rfl, front, -⟩, _, _, rfl, ⟨opening, rfl, opened, -⟩, us, _, rfl, ⟨condition, head⟩,
      _, vs, rfl, ⟨closing, rfl, closed, -⟩, body, dangling, repeated⟩ := fits
    exact ⟨_, dangling, .whileLoop front opened head closed repeated⟩
  | block =>
    obtain ⟨_, _, rfl, ⟨opening, rfl, opened, -⟩, _, _, rfl, ⟨tss, -, rfl, each⟩, closing, rfl, closed, -⟩ := fits
    obtain ⟨program, spelled⟩ := spelled_declarations each
    exact ⟨program, .block opened spelled closed⟩
  | parameters =>
    obtain ⟨_, _, rfl, ⟨token, rfl, kind, -⟩, tss, allowed, rfl, each⟩ := fits
    obtain ⟨params, names, length⟩ := spelled_names kind each
    refine ⟨params, .someParameters (fun _ => ?_) names⟩
    rw [length]
    exact allowed (.inl rfl)
  | expression => exact fits
  | assignment =>
    rcases fits with ⟨target, _, rfl, owner, _, _, rfl, ⟨name, rfl, named, -⟩, _, us, rfl, ⟨equals, rfl, sign, -⟩,
      value, assigned⟩ | ⟨expr, value⟩
    · rcases owner with rfl | ⟨vs, _, rfl, ⟨object, call⟩, dot, rfl, point, -⟩
      · exact ⟨.assign 0 name value, .assign (stands_self named) sign assigned⟩
      · exact ⟨_, by simpa using SpellsExpr.set call point (stands_self named) sign assigned⟩
    · exact ⟨expr, .unassigned value⟩
  | logicOr => exact Level.spelled_of_fits .or fits
  | logicAnd => exact Level.spelled_of_fits .and fits
  | equality => exact Level.spelled_of_fits .equality fits
  | comparison => exact Level.spelled_of_fits .comparison fits
  | term => exact Level.spelled_of_fits .term fits
  | factor => exact Level.spelled_of_fits .factor fits
  | unary =>
    rcases fits with ⟨_, us, rfl, chosen, right, operand⟩ | ⟨expr, call⟩
    · have either : (Ebnf.choice (.terminal .bang) ([.minus].map .terminal)).Fits Nonterminal.Spelled .unary _ := chosen
      obtain ⟨sign, rfl, among⟩ := fits_among either
      exact ⟨_, .prefixed (.self among) operand⟩
    · exact ⟨expr, .called call⟩
  | call =>
    obtain ⟨us, _, rfl, ⟨callee, first⟩, tss, -, rfl, each⟩ := fits
    exact spelled_accesses (.primary first) each
  | arguments =>
    obtain ⟨us, _, rfl, ⟨expr, first⟩, tss, allowed, rfl, each⟩ := fits
    obtain ⟨exprs, entries, length⟩ := spelled_entries first each
    refine ⟨exprs, .someArguments (fun _ => ?_) entries⟩
    rw [length]
    exact allowed (.inr rfl)
  | primary => exact primary_spelled fits

end Grammar

open Grammar

/-- For tokens that end with their only end token, nothing is recorded exactly if their kinds can be derived from the
    grammar with lists that are short enough. -/
theorem parseProgram_accepts_iff_derivable (body : List Token) (stop : Token) (nextId : NodeId)
    (ended : stop.kind = .eof) (inside : ∀ token ∈ body, token.kind ≠ .eof) (valued : ∀ token ∈ body, token.Valued) :
    (parseProgram (body ++ [stop]) nextId).misreadings = [] ↔ Derivable .program (kinds (body ++ [stop])) := by
  have before : (body ++ [stop]).takeWhile (!·.isEof) = body := by
    rw [List.takeWhile_append_of_pos]
    · simp [Token.isEof, ended]
    · intro token among
      simp [Token.isEof, inside token among]
  rw [parseProgram_silent_iff, before]
  constructor
  · rintro ⟨program, spelled⟩
    obtain ⟨n, declared⟩ := spelled.derived
    rw [kinds_append, kinds_cons, kinds_nil, ended]
    exact .last (.many nofun (declared .program))
  · intro derived
    have all : ∀ token ∈ body ++ [stop], token.Valued := by
      intro token among
      rcases List.mem_append.mp among with among | among
      · exact valued token among
      · rw [List.mem_singleton.mp among, Token.Valued, ended]
        exact nofun
    have fits := Derives.fits spelled_of_fits derived _ rfl all
    obtain ⟨program, us, last, split, -, spelled⟩ := spelled_of_fits .program _ fits
    rw [(List.append_inj' split rfl).1]
    exact ⟨program, spelled⟩

/-- A property can be assigned to, and a sum cannot. -/
theorem parseProgram_accepts_iff_derivable_targets :
    Derivable .program [.identifier, .dot, .identifier, .equal, .number, .semicolon, .eof] ∧
      ¬ Derivable .program [.identifier, .plus, .identifier, .equal, .number, .semicolon, .eof] := by
  let body (sign : Kind) : List Token :=
    [⟨.identifier, "a", none, 1⟩, ⟨sign, "", none, 1⟩, ⟨.identifier, "b", none, 1⟩, ⟨.equal, "=", none, 1⟩,
      ⟨.number, "1", some (.number .zero), 1⟩, ⟨.semicolon, ";", none, 1⟩]
  have inside (sign : Kind) (other : sign ≠ .eof) : ∀ token ∈ body sign, token.kind ≠ .eof := by
    simpa [body] using other
  have valued (sign : Kind) (other : sign ≠ .number ∧ sign ≠ .string) : ∀ token ∈ body sign, token.Valued := by
    simpa [body, Token.Valued] using other
  have accepts (sign : Kind) (other : sign ≠ .eof ∧ sign ≠ .number ∧ sign ≠ .string) :=
    parseProgram_accepts_iff_derivable (body sign) ⟨.eof, "", none, 1⟩ 0 rfl (inside sign other.1) (valued sign other.2)
  have property : (parseProgram (body .dot ++ [⟨.eof, "", none, 1⟩]) 0).misreadings = [] := by cbv
  have sum : (parseProgram (body .plus ++ [⟨.eof, "", none, 1⟩]) 0).misreadings =
      [⟨⟨.equal, "=", none, 1⟩, .assignmentTarget⟩] := by cbv
  refine ⟨(accepts .dot (by decide)).mp property, fun derived => ?_⟩
  have none := (accepts .plus (by decide)).mpr derived
  rw [sum] at none
  exact absurd none (List.cons_ne_nil _ _)

end Lox
