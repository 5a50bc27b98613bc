import Lox.Grammar.Statement
import Lox.Proofs.Grammar.ExpressionReading

namespace Lox.Grammar

def Cursor.recover (c : Cursor) (misreading : Misreading) : Cursor :=
  { c with pending := skip c.pending, misreadings := misreading :: c.misreadings }

inductive StmtPhrase where
  | optional (barring : Kind) (expr? : Option Expr)
  | initializer (expr? : Option Expr)
  | varDeclaration (stmt : Stmt)
  | expressionStatement (stmt : Stmt)
  | printStatement (stmt : Stmt)
  | returnStatement (keyword : Token) (stmt : Stmt)
  | parametersFrom (count : Nat) (params : List Token)
  | parameters (params : List Token)
  | forInitializer (stmt? : Option Stmt)
  | forClauses (clauses : ForClauses)
  | superclass (expr? : Option Expr)
  | declaration (stmt? : Option Stmt)
  | classDeclaration (stmt : Stmt)
  | methods (methods : List FunctionDecl)
  | function (role : FunctionRole) (declaration : FunctionDecl)
  | statement (stmt : Stmt)
  | block (body : List Stmt)
  | declarations (program : List Stmt)

abbrev statementStarts : List Kind :=
  [.keyword .for_, .keyword .if_, .keyword .print_, .keyword .return_, .keyword .while_, .leftBrace]

abbrev declarationStarts : List Kind := [.keyword .class_, .keyword .fun_, .keyword .var_]

inductive ReadsStmt : StmtPhrase → Cursor → Cursor → Prop where
  | absent {c next : Cursor} {barring : Kind} {token : Token} (seen : c.Takes [barring] token next) :
      ReadsStmt (.optional barring none) c c
  | present {c c₁ : Cursor} {barring : Kind} {expr : Expr} (unseen : c.Lacks [barring])
      (read : ReadsExpr (.expression expr) c c₁) : ReadsStmt (.optional barring (some expr)) c c₁
  | uninitialized {c : Cursor} (plain : c.Lacks [.equal]) : ReadsStmt (.initializer none) c c
  | initialized {c c₁ c₂ : Cursor} {equals : Token} {expr : Expr} (sign : c.Takes [.equal] equals c₁)
      (value : ReadsExpr (.expression expr) c₁ c₂) : ReadsStmt (.initializer (some expr)) c c₂
  | varDeclaration {c c₁ c₂ c₃ : Cursor} {name semicolon : Token} {initializer : Option Expr}
      (named : c.Takes [.identifier] name c₁) (value : ReadsStmt (.initializer initializer) c₁ c₂)
      (ended : c₂.Takes [.semicolon] semicolon c₃) : ReadsStmt (.varDeclaration (.var_ name initializer)) c c₃
  | expressionStatement {c c₁ c₂ : Cursor} {semicolon : Token} {expr : Expr}
      (read : ReadsExpr (.expression expr) c c₁) (ended : c₁.Takes [.semicolon] semicolon c₂) :
      ReadsStmt (.expressionStatement (.expression expr)) c c₂
  | printStatement {c c₁ c₂ : Cursor} {semicolon : Token} {expr : Expr}
      (read : ReadsExpr (.expression expr) c c₁) (ended : c₁.Takes [.semicolon] semicolon c₂) :
      ReadsStmt (.printStatement (.print_ expr)) c c₂
  | returnStatement {c c₁ c₂ : Cursor} {keyword semicolon : Token} {value : Option Expr}
      (read : ReadsStmt (.optional .semicolon value) c c₁) (ended : c₁.Takes [.semicolon] semicolon c₂) :
      ReadsStmt (.returnStatement keyword (.return_ keyword value)) c c₂
  | lastParameter {c c₁ : Cursor} {count : Nat} {name : Token}
      (entry : (limit c count .tooManyParameters).Takes [.identifier] name c₁) (ended : c₁.Lacks [.comma]) :
      ReadsStmt (.parametersFrom count [name]) c c₁
  | nextParameter {c c₁ c₂ c₃ : Cursor} {count : Nat} {name comma : Token} {params : List Token}
      (entry : (limit c count .tooManyParameters).Takes [.identifier] name c₁)
      (sign : c₁.Takes [.comma] comma c₂) (entries : ReadsStmt (.parametersFrom (count + 1) params) c₂ c₃) :
      ReadsStmt (.parametersFrom count (name :: params)) c c₃
  | noParameters {c next : Cursor} {paren : Token} (closing : c.Takes [.rightParen] paren next) :
      ReadsStmt (.parameters []) c c
  | someParameters {c c₁ : Cursor} {params : List Token} (opened : c.Lacks [.rightParen])
      (entries : ReadsStmt (.parametersFrom 0 params) c c₁) : ReadsStmt (.parameters params) c c₁
  | noInitializer {c c₁ : Cursor} {semicolon : Token} (front : c.Takes [.semicolon] semicolon c₁) :
      ReadsStmt (.forInitializer none) c c₁
  | varInitializer {c c₁ c₂ : Cursor} {keyword : Token} {stmt : Stmt}
      (front : c.Takes [.keyword .var_] keyword c₁) (read : ReadsStmt (.varDeclaration stmt) c₁ c₂) :
      ReadsStmt (.forInitializer (some stmt)) c c₂
  | exprInitializer {c c₁ : Cursor} {stmt : Stmt} (plain : c.Lacks [.semicolon, .keyword .var_])
      (read : ReadsStmt (.expressionStatement stmt) c c₁) : ReadsStmt (.forInitializer (some stmt)) c c₁
  | forClauses {c c₁ c₂ c₃ c₄ c₅ c₆ : Cursor} {opening semicolon paren : Token} {initializer : Option Stmt}
      {condition increment : Option Expr} (opened : c.Takes [.leftParen] opening c₁)
      (first : ReadsStmt (.forInitializer initializer) c₁ c₂)
      (second : ReadsStmt (.optional .semicolon condition) c₂ c₃) (ended : c₃.Takes [.semicolon] semicolon c₄)
      (third : ReadsStmt (.optional .rightParen increment) c₄ c₅) (closed : c₅.Takes [.rightParen] paren c₆) :
      ReadsStmt (.forClauses ⟨initializer, condition, increment⟩) c c₆
  | noSuperclass {c : Cursor} (plain : c.Lacks [.less]) : ReadsStmt (.superclass none) c c
  | someSuperclass {c c₁ c₂ : Cursor} {less name : Token} (sign : c.Takes [.less] less c₁)
      (named : c₁.Takes [.identifier] name c₂) :
      ReadsStmt (.superclass (some (.variable_ c₂.nextId name))) c c₂.numbered
  | classDeclared {c c₁ c₂ : Cursor} {keyword : Token} {stmt : Stmt}
      (front : c.Takes [.keyword .class_] keyword c₁) (read : ReadsStmt (.classDeclaration stmt) c₁ c₂) :
      ReadsStmt (.declaration (some stmt)) c c₂
  | functionDeclared {c c₁ c₂ : Cursor} {keyword : Token} {d : FunctionDecl}
      (front : c.Takes [.keyword .fun_] keyword c₁) (read : ReadsStmt (.function .function d) c₁ c₂) :
      ReadsStmt (.declaration (some (.function d))) c c₂
  | varDeclared {c c₁ c₂ : Cursor} {keyword : Token} {stmt : Stmt}
      (front : c.Takes [.keyword .var_] keyword c₁) (read : ReadsStmt (.varDeclaration stmt) c₁ c₂) :
      ReadsStmt (.declaration (some stmt)) c c₂
  | stated {c c₁ : Cursor} {stmt : Stmt} (plain : c.Lacks declarationStarts)
      (read : ReadsStmt (.statement stmt) c c₁) : ReadsStmt (.declaration (some stmt)) c c₁
  | misread {c next : Cursor} {misreading : Misreading} (pending : 0 < c.size)
      (refused : (declaration c pending).statement? = none)
      (recovered : (declaration c pending).next = next.recover misreading) (led : c.Leads next) :
      ReadsStmt (.declaration none) c (next.recover misreading)
  | classDeclaration {c c₁ c₂ c₃ c₄ c₅ : Cursor} {name opening closing : Token} {superclass : Option Expr}
      {methods : List FunctionDecl} (named : c.Takes [.identifier] name c₁)
      (extended : ReadsStmt (.superclass superclass) c₁ c₂) (opened : c₂.Takes [.leftBrace] opening c₃)
      (read : ReadsStmt (.methods methods) c₃ c₄) (closed : c₄.Takes [.rightBrace] closing c₅) :
      ReadsStmt (.classDeclaration (.class_ name superclass methods)) c c₅
  | methodsEnd {c : Cursor} (ended : (c.sees .rightBrace || c.atEnd) = true) : ReadsStmt (.methods []) c c
  | methodsMore {c c₁ c₂ : Cursor} {method : FunctionDecl} {methods : List FunctionDecl}
      (more : (c.sees .rightBrace || c.atEnd) = false) (first : ReadsStmt (.function .method method) c c₁)
      (rest : ReadsStmt (.methods methods) c₁ c₂) : ReadsStmt (.methods (method :: methods)) c c₂
  | function {c c₁ c₂ c₃ c₄ c₅ c₆ : Cursor} {role : FunctionRole} {name opening paren brace : Token}
      {params : List Token} {body : List Stmt} (named : c.Takes [.identifier] name c₁)
      (opened : c₁.Takes [.leftParen] opening c₂) (entries : ReadsStmt (.parameters params) c₂ c₃)
      (closed : c₃.Takes [.rightParen] paren c₄) (begun : c₄.Takes [.leftBrace] brace c₅)
      (read : ReadsStmt (.block body) c₅ c₆) : ReadsStmt (.function role (.mk name params body)) c c₆
  | forLoop {c c₁ c₂ c₃ : Cursor} {keyword : Token} {clauses : ForClauses} {body : Stmt}
      (front : c.Takes [.keyword .for_] keyword c₁) (head : ReadsStmt (.forClauses clauses) c₁ c₂)
      (read : ReadsStmt (.statement body) c₂ c₃) : ReadsStmt (.statement (clauses.loop body)) c c₃
  | ifThen {c c₁ c₂ c₃ c₄ c₅ : Cursor} {keyword opening paren : Token} {condition : Expr} {thenBranch : Stmt}
      (front : c.Takes [.keyword .if_] keyword c₁) (opened : c₁.Takes [.leftParen] opening c₂)
      (head : ReadsExpr (.expression condition) c₂ c₃) (closed : c₃.Takes [.rightParen] paren c₄)
      (first : ReadsStmt (.statement thenBranch) c₄ c₅) (alone : c₅.Lacks [.keyword .else_]) :
      ReadsStmt (.statement (.ifThen condition thenBranch)) c c₅
  | ifThenElse {c c₁ c₂ c₃ c₄ c₅ c₆ c₇ : Cursor} {keyword opening paren else_ : Token} {condition : Expr}
      {thenBranch elseBranch : Stmt} (front : c.Takes [.keyword .if_] keyword c₁)
      (opened : c₁.Takes [.leftParen] opening c₂) (head : ReadsExpr (.expression condition) c₂ c₃)
      (closed : c₃.Takes [.rightParen] paren c₄) (first : ReadsStmt (.statement thenBranch) c₄ c₅)
      (otherwise : c₅.Takes [.keyword .else_] else_ c₆) (second : ReadsStmt (.statement elseBranch) c₆ c₇) :
      ReadsStmt (.statement (.ifThenElse condition thenBranch elseBranch)) c c₇
  | printing {c c₁ c₂ : Cursor} {keyword : Token} {stmt : Stmt} (front : c.Takes [.keyword .print_] keyword c₁)
      (read : ReadsStmt (.printStatement stmt) c₁ c₂) : ReadsStmt (.statement stmt) c c₂
  | returning {c c₁ c₂ : Cursor} {keyword : Token} {stmt : Stmt} (front : c.Takes [.keyword .return_] keyword c₁)
      (read : ReadsStmt (.returnStatement keyword stmt) c₁ c₂) : ReadsStmt (.statement stmt) c c₂
  | whileLoop {c c₁ c₂ c₃ c₄ c₅ : Cursor} {keyword opening paren : Token} {condition : Expr} {body : Stmt}
      (front : c.Takes [.keyword .while_] keyword c₁) (opened : c₁.Takes [.leftParen] opening c₂)
      (head : ReadsExpr (.expression condition) c₂ c₃) (closed : c₃.Takes [.rightParen] paren c₄)
      (read : ReadsStmt (.statement body) c₄ c₅) : ReadsStmt (.statement (.while_ condition body)) c c₅
  | braced {c c₁ c₂ : Cursor} {brace : Token} {body : List Stmt} (front : c.Takes [.leftBrace] brace c₁)
      (read : ReadsStmt (.block body) c₁ c₂) : ReadsStmt (.statement (.block body)) c c₂
  | expressed {c c₁ : Cursor} {stmt : Stmt} (plain : c.Lacks statementStarts)
      (read : ReadsStmt (.expressionStatement stmt) c c₁) : ReadsStmt (.statement stmt) c c₁
  | blockEnd {c c₁ : Cursor} {brace : Token} (closed : c.Takes [.rightBrace] brace c₁) :
      ReadsStmt (.block []) c c₁
  | blockMore {c c₁ c₂ : Cursor} {stmt? : Option Stmt} {body : List Stmt} (more : c.Lacks [.rightBrace])
      (first : ReadsStmt (.declaration stmt?) c c₁) (rest : ReadsStmt (.block body) c₁ c₂) :
      ReadsStmt (.block (stmt?.toList ++ body)) c c₂
  | programEnd {c : Cursor} (ended : c.pending = []) : ReadsStmt (.declarations []) c c
  | programMore {c c₁ c₂ : Cursor} {stmt? : Option Stmt} {program : List Stmt}
      (first : ReadsStmt (.declaration stmt?) c c₁) (rest : ReadsStmt (.declarations program) c₁ c₂) :
      ReadsStmt (.declarations (stmt?.toList ++ program)) c c₂

theorem skipFrom_suffix (last : Token) (tokens : List Token) : skipFrom last tokens <:+ tokens := by
  induction tokens generalizing last with
  | nil => exact List.suffix_refl _
  | cons token rest ih =>
    unfold skipFrom
    split
    · exact List.suffix_refl _
    · exact (ih token).trans (List.suffix_cons _ _)

theorem skip_suffix (tokens : List Token) : skip tokens <:+ tokens := by
  cases tokens with
  | nil => exact List.suffix_refl _
  | cons token rest => exact (skipFrom_suffix token rest).trans (List.suffix_cons _ _)

theorem Cursor.Leads.recover (c : Cursor) (misreading : Misreading) : c.Leads (c.recover misreading) :=
  ⟨skip_suffix _, rfl, Nat.le_refl _, List.suffix_cons _ _⟩

theorem ReadsStmt.leads {phrase : StmtPhrase} {c c' : Cursor} (reads : ReadsStmt phrase c c') : c.Leads c' := by
  induction reads with
  | absent | uninitialized | noParameters | noSuperclass | methodsEnd | programEnd => exact .refl _
  | present _ read => exact read.leads
  | initialized sign value => exact sign.leads.trans value.leads
  | varDeclaration named _ ended ih => exact (named.leads.trans ih).trans ended.leads
  | expressionStatement read ended | printStatement read ended => exact read.leads.trans ended.leads
  | returnStatement _ ended ih => exact ih.trans ended.leads
  | lastParameter entry _ => exact (Cursor.Leads.limit ..).trans entry.leads
  | nextParameter entry sign _ ih =>
    exact (((Cursor.Leads.limit ..).trans entry.leads).trans sign.leads).trans ih
  | someParameters _ _ ih | exprInitializer _ _ ih | stated _ _ ih | expressed _ _ ih => exact ih
  | noInitializer front => exact front.leads
  | varInitializer front _ ih | classDeclared front _ ih | functionDeclared front _ ih | varDeclared front _ ih
  | printing front _ ih | returning front _ ih | braced front _ ih => exact front.leads.trans ih
  | forClauses opened _ _ ended _ closed ih₁ ih₂ ih₃ =>
    exact ((((opened.leads.trans ih₁).trans ih₂).trans ended.leads).trans ih₃).trans closed.leads
  | someSuperclass sign named => exact (sign.leads.trans named.leads).trans (.numbered _)
  | misread _ _ _ led => exact led.trans (.recover ..)
  | classDeclaration named _ opened _ closed ih₁ ih₂ =>
    exact (((named.leads.trans ih₁).trans opened.leads).trans ih₂).trans closed.leads
  | methodsMore _ _ _ ih₁ ih₂ | blockMore _ _ _ ih₁ ih₂ | programMore _ _ ih₁ ih₂ => exact ih₁.trans ih₂
  | function named opened _ closed begun _ ih₁ ih₂ =>
    exact ((((named.leads.trans opened.leads).trans ih₁).trans closed.leads).trans begun.leads).trans ih₂
  | forLoop front _ _ ih₁ ih₂ => exact (front.leads.trans ih₁).trans ih₂
  | ifThen front opened head closed _ _ ih | whileLoop front opened head closed _ ih =>
    exact (((front.leads.trans opened.leads).trans head.leads).trans closed.leads).trans ih
  | ifThenElse front opened head closed _ otherwise _ ih₁ ih₂ =>
    exact (((((front.leads.trans opened.leads).trans head.leads).trans closed.leads).trans ih₁).trans
      otherwise.leads).trans ih₂
  | blockEnd closed => exact closed.leads

section Sound

open Reading

theorem obeys_expression_then {c : Cursor} {gain : Nat} {α : Type} {Post : α → Cursor → Prop}
    {continuation : Expr → (next : Cursor) → next.size + 1 ≤ c.size → Reading next gain α}
    (continues : ∀ expr next progress, ReadsExpr (.expression expr) c next →
      (continuation expr next progress).Obeys Post) :
    ((expression c).andThen continuation).Obeys Post :=
  (expression_obeys c).andThen (fun _ _ read => read.leads) continues

theorem expressionUnless_obeys (kind : Kind) (c : Cursor) :
    (expressionUnless kind c).Obeys fun expr? next => ReadsStmt (.optional kind expr?) c next := by
  unfold expressionUnless
  split
  · rename_i seen
    obtain ⟨token, next, taken⟩ := Cursor.sees_eq_true.mp seen
    exact .absent taken
  · rename_i unseen
    refine Obeys.weaken (Obeys.map ((expression_obeys c).mono fun _ _ read => ?_))
    exact .present (Cursor.sees_eq_false.mp (Bool.eq_false_iff.mpr unseen)) read

def initializer (c : Cursor) : Reading c 0 (Option Expr) :=
  match c.accept? [.equal] with
  | none => .done none
  | some equals => .after equals ((expression equals.next).map some)

theorem initializer_obeys (c : Cursor) :
    (initializer c).Obeys fun expr? next => ReadsStmt (.initializer expr?) c next := by
  unfold initializer
  cases found : c.accept? [.equal] with
  | none => exact .uninitialized (Cursor.accept?_eq_none.mp found)
  | some equals =>
    have sign := equals.takes (Cursor.accept?_eq_some.mp found)
    exact Obeys.after (Obeys.map ((expression_obeys equals.next).mono fun _ _ read => .initialized sign read))

theorem varDeclaration_eq (c : Cursor) :
    varDeclaration c = (c.expect .identifier .variableName).andThen fun name c₁ _ =>
      (initializer c₁).andThen fun initializer c₂ _ =>
      (c₂.expect .semicolon .variableEnd).andThen fun _ _ _ => .done (.var_ name initializer) := rfl

theorem varDeclaration_obeys (c : Cursor) :
    (varDeclaration c).Obeys fun stmt next => ReadsStmt (.varDeclaration stmt) c next := by
  rw [varDeclaration_eq]
  refine obeys_expect_then fun name c₁ _ named => ?_
  refine (initializer_obeys c₁).andThen (fun _ _ read => read.leads) fun _ c₂ _ value => ?_
  exact obeys_expect_then fun _ c₃ _ ended => .varDeclaration named value ended

theorem expressionStatement_obeys (c : Cursor) :
    (expressionStatement c).Obeys fun stmt next => ReadsStmt (.expressionStatement stmt) c next :=
  obeys_expression_then fun _ _ _ read => obeys_expect_then fun _ _ _ ended => .expressionStatement read ended

theorem printStatement_obeys (c : Cursor) :
    (printStatement c).Obeys fun stmt next => ReadsStmt (.printStatement stmt) c next :=
  obeys_expression_then fun _ _ _ read => obeys_expect_then fun _ _ _ ended => .printStatement read ended

theorem returnStatement_obeys (keyword : Token) (c : Cursor) :
    (returnStatement keyword c).Obeys fun stmt next => ReadsStmt (.returnStatement keyword stmt) c next :=
  (expressionUnless_obeys .semicolon c).andThen (fun _ _ read => read.leads) fun _ _ _ read =>
    obeys_expect_then fun _ _ _ ended => .returnStatement read ended

theorem parametersFrom_obeys (count : Nat) (c : Cursor) :
    (parametersFrom count c).Obeys fun params next => ReadsStmt (.parametersFrom count params) c next := by
  induction size : c.size using Nat.strongRecOn generalizing count c with
  | ind n ih =>
    rw [parametersFrom]
    refine Obeys.ofSameSize (.limit ..) (obeys_expect_then fun first c₁ progress entry => ?_)
    cases found : c₁.accept? [.comma] with
    | none => exact .lastParameter entry (Cursor.accept?_eq_none.mp found)
    | some comma =>
      have sign := comma.takes (Cursor.accept?_eq_some.mp found)
      have shorter := comma.shorter
      rw [size_limit] at progress
      have rest := ih comma.next.size (by omega) (count + 1) comma.next rfl
      exact Obeys.after (Obeys.map (rest.mono fun _ _ entries => .nextParameter entry sign entries))

theorem parameters_obeys (c : Cursor) :
    (parameters c).Obeys fun params next => ReadsStmt (.parameters params) c next := by
  unfold parameters
  split
  · rename_i seen
    obtain ⟨paren, next, closing⟩ := Cursor.sees_eq_true.mp seen
    exact .noParameters closing
  · rename_i unseen
    refine Obeys.weaken ((parametersFrom_obeys 0 c).mono fun _ _ entries => ?_)
    exact .someParameters (Cursor.sees_eq_false.mp (Bool.eq_false_iff.mpr unseen)) entries

def forInitializer (c : Cursor) : Reading c 1 (Option Stmt) :=
  match c.accept? [.semicolon, .keyword .var_] with
  | none => (expressionStatement c).map some
  | some front =>
    if front.token.kind = .semicolon then .after front (.done none)
    else .after front ((varDeclaration front.next).map some)

theorem forInitializer_obeys (c : Cursor) :
    (forInitializer c).Obeys fun stmt? next => ReadsStmt (.forInitializer stmt?) c next := by
  unfold forInitializer
  cases found : c.accept? [.semicolon, .keyword .var_] with
  | none =>
    refine Obeys.map ((expressionStatement_obeys c).mono fun _ _ read => ?_)
    exact .exprInitializer (Cursor.accept?_eq_none.mp found) read
  | some front =>
    have kind := Cursor.accept?_eq_some.mp found
    simp only [List.mem_cons, List.not_mem_nil, or_false] at kind
    dsimp only
    split
    · rename_i semicolon
      exact .noInitializer (front.takes (by simp [semicolon]))
    · rename_i notSemicolon
      have word := kind.resolve_left notSemicolon
      refine Obeys.after (Obeys.map ((varDeclaration_obeys front.next).mono fun _ _ read => ?_))
      exact .varInitializer (front.takes (by simp [word])) read

theorem forClauses_eq (c : Cursor) :
    forClauses c = (c.expect .leftParen .forOpening).andThen fun _ c₁ _ =>
      (forInitializer c₁).andThen fun initializer c₂ _ =>
      (expressionUnless .semicolon c₂).andThen fun condition c₃ _ =>
      (c₃.expect .semicolon .loopConditionEnd).andThen fun _ c₄ _ =>
      (expressionUnless .rightParen c₄).andThen fun increment c₅ _ =>
      (c₅.expect .rightParen .forClosing).andThen fun _ _ _ => .done ⟨initializer, condition, increment⟩ := rfl

theorem forClauses_obeys (c : Cursor) :
    (forClauses c).Obeys fun clauses next => ReadsStmt (.forClauses clauses) c next := by
  rw [forClauses_eq]
  refine obeys_expect_then fun _ c₁ _ opened => ?_
  refine (forInitializer_obeys c₁).andThen (fun _ _ read => read.leads) fun _ c₂ _ first => ?_
  refine (expressionUnless_obeys .semicolon c₂).andThen (fun _ _ read => read.leads) fun _ c₃ _ second => ?_
  refine obeys_expect_then fun _ c₄ _ ended => ?_
  refine (expressionUnless_obeys .rightParen c₄).andThen (fun _ _ read => read.leads) fun _ c₅ _ third => ?_
  exact obeys_expect_then fun _ c₆ _ closed => .forClauses opened first second ended third closed

def superclass (c : Cursor) : Reading c 0 (Option Expr) :=
  match c.accept? [.less] with
  | none => .done none
  | some less =>
    .after less <|
      (less.next.expect .identifier .superclassName).andThen fun superclass c _ =>
      (.read (some (.variable_ c.nextId superclass)) c.numbered (by simp) : Reading c 0 (Option Expr))

theorem superclass_obeys (c : Cursor) :
    (superclass c).Obeys fun expr? next => ReadsStmt (.superclass expr?) c next := by
  unfold superclass
  cases found : c.accept? [.less] with
  | none => exact .noSuperclass (Cursor.accept?_eq_none.mp found)
  | some less =>
    have sign := less.takes (Cursor.accept?_eq_some.mp found)
    exact Obeys.after (obeys_expect_then fun name c₁ _ named => .someSuperclass sign named)

theorem classDeclaration_eq (c : Cursor) :
    classDeclaration c = (c.expect .identifier .className).andThen fun name c₁ _ =>
      (superclass c₁).andThen fun superclass c₂ _ =>
      (c₂.expect .leftBrace .classOpening).andThen fun _ c₃ _ =>
      (methods c₃).andThen fun methods c₄ _ =>
      (c₄.expect .rightBrace .classClosing).andThen fun _ _ _ => .done (.class_ name superclass methods) := by
  rw [classDeclaration]
  rfl

def declarationReading (c : Cursor) : Reading c 1 Stmt :=
  match c.accept? [.keyword .class_, .keyword .fun_, .keyword .var_] with
  | none => statement c
  | some front =>
    match front.token.kind with
    | .keyword .class_ => .after front (classDeclaration front.next)
    | .keyword .fun_ => .after front ((function .function front.next).map .function)
    | _ => .after front (varDeclaration front.next)

theorem declaration_eq (c : Cursor) (pending : 0 < c.size) :
    declaration c pending = .ofReading pending (declarationReading c) := by
  rw [declaration]
  rfl

mutual

theorem declarationReading_obeys (c : Cursor) :
    (declarationReading c).Obeys fun stmt next => ReadsStmt (.declaration (some stmt)) c next := by
  unfold declarationReading
  cases found : c.accept? [.keyword .class_, .keyword .fun_, .keyword .var_] with
  | none => exact (statement_obeys c).mono fun _ _ read => .stated (Cursor.accept?_eq_none.mp found) read
  | some front =>
    have shorter := front.shorter
    have kinds := Cursor.accept?_eq_some.mp found
    dsimp only
    split
    · rename_i kind
      exact Obeys.after ((classDeclaration_obeys front.next).mono fun _ _ read =>
        .classDeclared (front.takes (List.mem_singleton.mpr kind)) read)
    · rename_i kind
      exact Obeys.after (Obeys.map ((function_obeys .function front.next).mono fun _ _ read =>
        .functionDeclared (front.takes (List.mem_singleton.mpr kind)) read))
    · rename_i notClass notFun
      have word : front.token.kind = .keyword .var_ := by
        simp only [List.mem_cons, List.not_mem_nil, or_false] at kinds
        exact (kinds.resolve_left notClass).resolve_left notFun
      exact Obeys.after ((varDeclaration_obeys front.next).mono fun _ _ read =>
        .varDeclared (front.takes (List.mem_singleton.mpr word)) read)
termination_by 8 * c.size + 2

theorem reads_declaration (c : Cursor) (pending : 0 < c.size) :
    ReadsStmt (.declaration (declaration c pending).statement?) c (declaration c pending).next := by
  have obeys := declarationReading_obeys c
  have same := declaration_eq c pending
  generalize declarationReading c = reading at obeys same
  cases reading with
  | read stmt next progress =>
    rw [same]
    exact obeys
  | failed misreading next progress =>
    have refused : (declaration c pending).statement? = none := by rw [same]; rfl
    have recovered : (declaration c pending).next = next.recover misreading := by rw [same]; rfl
    rw [refused, recovered]
    exact .misread pending refused recovered obeys
termination_by 8 * c.size + 3

theorem classDeclaration_obeys (c : Cursor) :
    (classDeclaration c).Obeys fun stmt next => ReadsStmt (.classDeclaration stmt) c next := by
  rw [classDeclaration_eq]
  refine obeys_expect_then fun name c₁ _ named => ?_
  refine (superclass_obeys c₁).andThen (fun _ _ read => read.leads) fun _ c₂ _ extended => ?_
  refine obeys_expect_then fun _ c₃ progress opened => ?_
  refine (methods_obeys c₃).andThen (fun _ _ read => read.leads) fun _ c₄ _ read => ?_
  exact obeys_expect_then fun _ c₅ _ closed => .classDeclaration named extended opened read closed
termination_by 8 * c.size

theorem methods_obeys (c : Cursor) : (methods c).Obeys fun methods next => ReadsStmt (.methods methods) c next := by
  rw [methods]
  split
  · rename_i ended
    exact .methodsEnd ended
  · rename_i more
    refine Obeys.weaken ((function_obeys .method c).andThen (fun _ _ read => read.leads) fun method c₁ progress read => ?_)
    refine Obeys.map ((methods_obeys c₁).mono fun _ _ others => ?_)
    exact .methodsMore (Bool.eq_false_iff.mpr more) read others
termination_by 8 * c.size + 1

theorem function_obeys (role : FunctionRole) (c : Cursor) :
    (function role c).Obeys fun d next => ReadsStmt (.function role d) c next := by
  rw [function]
  refine obeys_expect_then fun name c₁ _ named => ?_
  refine obeys_expect_then fun _ c₂ _ opened => ?_
  refine (parameters_obeys c₂).andThen (fun _ _ read => read.leads) fun _ c₃ _ entries => ?_
  refine obeys_expect_then fun _ c₄ _ closed => ?_
  refine obeys_expect_then fun _ c₅ progress begun => ?_
  refine Obeys.map ((block_obeys c₅).mono fun _ _ read => ?_)
  exact .function named opened entries closed begun read
termination_by 8 * c.size

theorem statement_obeys (c : Cursor) : (statement c).Obeys fun stmt next => ReadsStmt (.statement stmt) c next := by
  rw [statement]
  cases found : c.accept? [.keyword .for_, .keyword .if_, .keyword .print_, .keyword .return_,
    .keyword .while_, .leftBrace] with
  | none => exact (expressionStatement_obeys c).mono fun _ _ read => .expressed (Cursor.accept?_eq_none.mp found) read
  | some front =>
    have kinds := Cursor.accept?_eq_some.mp found
    have shorter := front.shorter
    dsimp only
    split
    · rename_i kind
      refine Obeys.after ((forClauses_obeys _).andThen (fun _ _ read => read.leads) fun clauses c₁ progress head => ?_)
      refine Obeys.map ((statement_obeys c₁).mono fun _ _ read => ?_)
      exact .forLoop (front.takes (List.mem_singleton.mpr kind)) head read
    · rename_i kind
      have word := front.takes (List.mem_singleton.mpr kind)
      refine Obeys.after (obeys_expect_then fun _ c₁ _ opened => ?_)
      refine obeys_expression_then fun condition c₂ _ head => ?_
      refine obeys_expect_then fun _ c₃ progress closed => ?_
      refine (statement_obeys c₃).andThen (fun _ _ read => read.leads) fun thenBranch c₄ _ first => ?_
      cases found : c₄.accept? [.keyword .else_] with
      | none => exact .ifThen word opened head closed first (Cursor.accept?_eq_none.mp found)
      | some else_ =>
        have otherwise := else_.takes (Cursor.accept?_eq_some.mp found)
        have shorter' := else_.shorter
        refine Obeys.after (Obeys.map ((statement_obeys else_.next).mono fun _ _ second => ?_))
        exact .ifThenElse word opened head closed first otherwise second
    · rename_i kind
      refine Obeys.after ((printStatement_obeys _).mono fun _ _ read => ?_)
      exact .printing (front.takes (List.mem_singleton.mpr kind)) read
    · rename_i kind
      refine Obeys.after ((returnStatement_obeys ..).mono fun _ _ read => ?_)
      exact .returning (front.takes (List.mem_singleton.mpr kind)) read
    · rename_i kind
      refine Obeys.after (obeys_expect_then fun _ c₁ _ opened => ?_)
      refine obeys_expression_then fun condition c₂ _ head => ?_
      refine obeys_expect_then fun _ c₃ progress closed => ?_
      refine Obeys.map ((statement_obeys c₃).mono fun _ _ read => ?_)
      exact .whileLoop (front.takes (List.mem_singleton.mpr kind)) opened head closed read
    · rename_i notFor notIf notPrint notReturn notWhile
      have brace : front.token.kind = .leftBrace := by
        simp only [List.mem_cons, List.not_mem_nil, or_false] at kinds
        rcases kinds with kind | kind | kind | kind | kind | kind
        · exact (notFor kind).elim
        · exact (notIf kind).elim
        · exact (notPrint kind).elim
        · exact (notReturn kind).elim
        · exact (notWhile kind).elim
        · exact kind
      refine Obeys.after (Obeys.map ((block_obeys front.next).mono fun _ _ read => ?_))
      exact .braced (front.takes (List.mem_singleton.mpr brace)) read
termination_by 8 * c.size + 1

theorem block_obeys (c : Cursor) : (block c).Obeys fun body next => ReadsStmt (.block body) c next := by
  rw [block]
  cases found : c.accept? [.rightBrace] with
  | some brace => exact .blockEnd (brace.takes (Cursor.accept?_eq_some.mp found))
  | none =>
    dsimp only
    split
    · exact obeys_fail
    · rename_i ended
      have read := reads_declaration c (Cursor.size_pos ended)
      generalize declaration c (Cursor.size_pos ended) = declared at read ⊢
      obtain ⟨stmt?, next, shorter⟩ := declared
      have others := block_obeys next
      dsimp only at read ⊢
      generalize block next = reading at others ⊢
      cases reading with
      | read body last progress => exact .blockMore (Cursor.accept?_eq_none.mp found) read others
      | failed misreading last progress => exact read.leads.trans others
termination_by 8 * c.size + 4

end

theorem reads_declarations (c : Cursor) : ReadsStmt (.declarations (declarations c).1) c (declarations c).2 := by
  induction size : c.size using Nat.strongRecOn generalizing c with
  | ind n ih =>
    rw [declarations]
    split
    · rename_i ended
      exact .programEnd (Cursor.atEnd_iff.mp ended)
    · rename_i ended
      have read := reads_declaration c (Cursor.size_pos ended)
      generalize declaration c (Cursor.size_pos ended) = declared at read ⊢
      obtain ⟨stmt?, next, shorter⟩ := declared
      exact .programMore read (ih next.size (by omega) next rfl)

end Sound

def StmtPhrase.Yielded (c next : Cursor) : StmtPhrase → Prop
  | .optional barring expr? => (expressionUnless barring c).Yields expr? next
  | .initializer expr? => (Grammar.initializer c).Yields expr? next
  | .varDeclaration stmt => (Grammar.varDeclaration c).Yields stmt next
  | .expressionStatement stmt => (Grammar.expressionStatement c).Yields stmt next
  | .printStatement stmt => (Grammar.printStatement c).Yields stmt next
  | .returnStatement keyword stmt => (Grammar.returnStatement keyword c).Yields stmt next
  | .parametersFrom count params => (Grammar.parametersFrom count c).Yields params next
  | .parameters params => (Grammar.parameters c).Yields params next
  | .forInitializer stmt? => (Grammar.forInitializer c).Yields stmt? next
  | .forClauses clauses => (Grammar.forClauses c).Yields clauses next
  | .superclass expr? => (Grammar.superclass c).Yields expr? next
  | .declaration stmt? =>
    ∃ pending, (Grammar.declaration c pending).statement? = stmt? ∧ (Grammar.declaration c pending).next = next
  | .classDeclaration stmt => (Grammar.classDeclaration c).Yields stmt next
  | .methods list => (Grammar.methods c).Yields list next
  | .function role d => (Grammar.function role c).Yields d next
  | .statement stmt => (Grammar.statement c).Yields stmt next
  | .block body => (Grammar.block c).Yields body next
  | .declarations program => Grammar.declarations c = (program, next)

section Complete

open Reading

theorem yielded_declaration {c next : Cursor} {stmt : Stmt} (yields : (declarationReading c).Yields stmt next) :
    StmtPhrase.Yielded c next (.declaration (some stmt)) := by
  obtain ⟨progress, read⟩ := yields
  have pending : 0 < c.size := by omega
  refine ⟨pending, ?_⟩
  rw [declaration_eq, read]
  exact ⟨rfl, rfl⟩

theorem Cursor.Takes.among {c next : Cursor} {kind : Kind} {token : Token} (takes : c.Takes [kind] token next)
    (kinds : List Kind) (known : kind ∈ kinds) :
    ∃ front : c.Taken, front.token = token ∧ front.next = next ∧ front.token.kind = kind ∧ c.accept? kinds = some front := by
  obtain ⟨front, found, rfl, rfl⟩ := takes.taken
  have same := List.mem_singleton.mp (accept?_eq_some.mp found)
  exact ⟨front, rfl, rfl, same, accept?_eq_some.mpr (same ▸ known)⟩

variable {c c₁ c₂ c₃ c₄ next : Cursor} {keyword : Token} {stmt : Stmt}

theorem yields_absent {barring : Kind} {token : Token} (seen : c.Takes [barring] token next) :
    (expressionUnless barring c).Yields none c := by
  rw [expressionUnless, if_pos (Cursor.sees_eq_true.mpr ⟨_, _, seen⟩)]
  exact yields_done

theorem yields_present {barring : Kind} {expr : Expr} (unseen : c.Lacks [barring])
    (read : ReadsExpr (.expression expr) c next) : (expressionUnless barring c).Yields (some expr) next := by
  rw [expressionUnless, if_neg (by simp [Cursor.sees_eq_false.mpr unseen])]
  exact ((yields_expression_iff.mpr read).map some).weaken

theorem yields_uninitialized (plain : c.Lacks [.equal]) : (initializer c).Yields none c := by
  rw [initializer, Cursor.accept?_eq_none.mpr plain]
  exact yields_done

theorem yields_initialized {equals : Token} {expr : Expr} (sign : c.Takes [.equal] equals c₁)
    (value : ReadsExpr (.expression expr) c₁ next) : (initializer c).Yields (some expr) next := by
  obtain ⟨taken, found, rfl, rfl⟩ := sign.taken
  rw [initializer, found]
  exact Yields.after ((yields_expression_iff.mpr value).map some)

theorem yields_lastParameter {count : Nat} {name : Token}
    (entry : (limit c count .tooManyParameters).Takes [.identifier] name next) (ended : next.Lacks [.comma]) :
    (parametersFrom count c).Yields [name] next := by
  rw [parametersFrom]
  refine Yields.ofSameSize ((yields_expect entry).andThen fun _ => ?_)
  rw [Cursor.accept?_eq_none.mpr ended]
  exact yields_done

theorem yields_nextParameter {count : Nat} {name comma : Token} {params : List Token}
    (entry : (limit c count .tooManyParameters).Takes [.identifier] name c₁) (sign : c₁.Takes [.comma] comma c₂)
    (entries : (parametersFrom (count + 1) c₂).Yields params next) :
    (parametersFrom count c).Yields (name :: params) next := by
  rw [parametersFrom]
  refine Yields.ofSameSize ((yields_expect entry).andThen fun _ => ?_)
  obtain ⟨taken, found, rfl, rfl⟩ := sign.taken
  rw [found]
  exact Yields.after (entries.map _)

theorem yields_noParameters {paren : Token} (closing : c.Takes [.rightParen] paren next) : (parameters c).Yields [] c := by
  rw [parameters, if_pos (Cursor.sees_eq_true.mpr ⟨_, _, closing⟩)]
  exact yields_done

theorem yields_someParameters {params : List Token} (opened : c.Lacks [.rightParen])
    (entries : (parametersFrom 0 c).Yields params next) : (parameters c).Yields params next := by
  rw [parameters, if_neg (by simp [Cursor.sees_eq_false.mpr opened])]
  exact entries.weaken

theorem yields_noInitializer {semicolon : Token} (front : c.Takes [.semicolon] semicolon next) :
    (forInitializer c).Yields none next := by
  obtain ⟨taken, rfl, rfl, kind, accepted⟩ := front.among [.semicolon, .keyword .var_] (by decide)
  rw [forInitializer, accepted]
  simp only [kind, ↓reduceIte]
  exact Yields.after yields_done

theorem yields_varInitializer (front : c.Takes [.keyword .var_] keyword c₁) (read : (varDeclaration c₁).Yields stmt next) :
    (forInitializer c).Yields (some stmt) next := by
  obtain ⟨taken, rfl, rfl, word, accepted⟩ := front.among [.semicolon, .keyword .var_] (by decide)
  rw [forInitializer, accepted]
  simp only [word, reduceCtorEq, ↓reduceIte]
  exact Yields.after (read.map some)

theorem yields_exprInitializer (plain : c.Lacks [.semicolon, .keyword .var_])
    (read : (expressionStatement c).Yields stmt next) : (forInitializer c).Yields (some stmt) next := by
  rw [forInitializer, Cursor.accept?_eq_none.mpr plain]
  exact read.map some

theorem yields_noSuperclass (plain : c.Lacks [.less]) : (superclass c).Yields none c := by
  rw [superclass, Cursor.accept?_eq_none.mpr plain]
  exact yields_done

theorem yields_someSuperclass {less name : Token} (sign : c.Takes [.less] less c₁)
    (named : c₁.Takes [.identifier] name c₂) :
    (superclass c).Yields (some (.variable_ c₂.nextId name)) c₂.numbered := by
  obtain ⟨taken, found, rfl, rfl⟩ := sign.taken
  rw [superclass, found]
  exact Yields.after ((yields_expect named).andThen fun _ => ⟨_, rfl⟩)

theorem yields_classDeclared (front : c.Takes [.keyword .class_] keyword c₁)
    (read : (classDeclaration c₁).Yields stmt next) : (declarationReading c).Yields stmt next := by
  obtain ⟨taken, rfl, rfl, kind, accepted⟩ := front.among declarationStarts (by decide)
  rw [declarationReading, accepted]
  simp only [kind]
  exact Yields.after read

theorem yields_functionDeclared {d : FunctionDecl} (front : c.Takes [.keyword .fun_] keyword c₁)
    (read : (function .function c₁).Yields d next) : (declarationReading c).Yields (.function d) next := by
  obtain ⟨taken, rfl, rfl, kind, accepted⟩ := front.among declarationStarts (by decide)
  rw [declarationReading, accepted]
  simp only [kind]
  exact Yields.after (read.map _)

theorem yields_varDeclared (front : c.Takes [.keyword .var_] keyword c₁) (read : (varDeclaration c₁).Yields stmt next) :
    (declarationReading c).Yields stmt next := by
  obtain ⟨taken, rfl, rfl, kind, accepted⟩ := front.among declarationStarts (by decide)
  rw [declarationReading, accepted]
  simp only [kind]
  exact Yields.after read

theorem yields_stated (plain : c.Lacks declarationStarts) (read : (statement c).Yields stmt next) :
    (declarationReading c).Yields stmt next := by
  rw [declarationReading, Cursor.accept?_eq_none.mpr plain]
  exact read

theorem yields_methodsMore {method : FunctionDecl} {list : List FunctionDecl}
    (more : (c.sees .rightBrace || c.atEnd) = false) (first : (function .method c).Yields method c₁)
    (rest : (methods c₁).Yields list next) : (methods c).Yields (method :: list) next := by
  rw [methods, if_neg (by simp [more])]
  exact (first.andThen fun _ => rest.map _).weaken

theorem yields_forLoop {clauses : ForClauses} {body : Stmt} (front : c.Takes [.keyword .for_] keyword c₁)
    (head : (forClauses c₁).Yields clauses c₂) (read : (statement c₂).Yields body next) :
    (statement c).Yields (clauses.loop body) next := by
  obtain ⟨taken, rfl, rfl, kind, accepted⟩ := front.among statementStarts (by decide)
  rw [statement, accepted]
  simp only [kind]
  exact Yields.after (head.andThen fun _ => read.map _)

theorem yields_if {opening paren : Token} {condition : Expr} {thenBranch : Stmt} {c₅ : Cursor}
    (front : c.Takes [.keyword .if_] keyword c₁) (opened : c₁.Takes [.leftParen] opening c₂)
    (head : ReadsExpr (.expression condition) c₂ c₃) (closed : c₃.Takes [.rightParen] paren c₄)
    (first : (statement c₄).Yields thenBranch c₅)
    (rest : (match c₅.accept? [.keyword .else_] with
      | none => .done (.ifThen condition thenBranch)
      | some else_ => .after else_ ((statement else_.next).map (.ifThenElse condition thenBranch))
      : Reading c₅ 0 Stmt).Yields stmt next) :
    (statement c).Yields stmt next := by
  obtain ⟨taken, rfl, rfl, kind, accepted⟩ := front.among statementStarts (by decide)
  rw [statement, accepted]
  simp only [kind]
  refine Yields.after ((yields_expect opened).andThen fun _ => (yields_expression_iff.mpr head).andThen fun _ => ?_)
  exact (yields_expect closed).andThen fun _ => first.andThen fun _ => rest

theorem yields_printing (front : c.Takes [.keyword .print_] keyword c₁) (read : (printStatement c₁).Yields stmt next) :
    (statement c).Yields stmt next := by
  obtain ⟨taken, rfl, rfl, kind, accepted⟩ := front.among statementStarts (by decide)
  rw [statement, accepted]
  simp only [kind]
  exact Yields.after read

theorem yields_returning (front : c.Takes [.keyword .return_] keyword c₁)
    (read : (returnStatement keyword c₁).Yields stmt next) : (statement c).Yields stmt next := by
  obtain ⟨taken, rfl, rfl, kind, accepted⟩ := front.among statementStarts (by decide)
  rw [statement, accepted]
  simp only [kind]
  exact Yields.after read

theorem yields_whileLoop {opening paren : Token} {condition : Expr} {body : Stmt}
    (front : c.Takes [.keyword .while_] keyword c₁) (opened : c₁.Takes [.leftParen] opening c₂)
    (head : ReadsExpr (.expression condition) c₂ c₃) (closed : c₃.Takes [.rightParen] paren c₄)
    (read : (statement c₄).Yields body next) : (statement c).Yields (.while_ condition body) next := by
  obtain ⟨taken, rfl, rfl, kind, accepted⟩ := front.among statementStarts (by decide)
  rw [statement, accepted]
  simp only [kind]
  exact Yields.after ((yields_expect opened).andThen fun _ => (yields_expression_iff.mpr head).andThen fun _ =>
    (yields_expect closed).andThen fun _ => read.map _)

theorem yields_braced {brace : Token} {body : List Stmt} (front : c.Takes [.leftBrace] brace c₁)
    (read : (block c₁).Yields body next) : (statement c).Yields (.block body) next := by
  obtain ⟨taken, rfl, rfl, kind, accepted⟩ := front.among statementStarts (by decide)
  rw [statement, accepted]
  simp only [kind]
  exact Yields.after (read.map _)

theorem yields_expressed (plain : c.Lacks statementStarts) (read : (expressionStatement c).Yields stmt next) :
    (statement c).Yields stmt next := by
  rw [statement, Cursor.accept?_eq_none.mpr plain]
  exact read

theorem Cursor.not_atEnd (pending : 0 < c.size) : ¬ c.atEnd = true := by
  intro ended
  simp [Cursor.size, Cursor.atEnd_iff.mp ended] at pending

theorem yields_blockEnd {brace : Token} (closed : c.Takes [.rightBrace] brace next) : (block c).Yields [] next := by
  obtain ⟨taken, found, rfl, rfl⟩ := closed.taken
  rw [block, found]
  exact Yields.after yields_done

theorem yields_blockMore {stmt? : Option Stmt} {body : List Stmt} (more : c.Lacks [.rightBrace])
    (first : StmtPhrase.Yielded c c₁ (.declaration stmt?)) (rest : (block c₁).Yields body next) :
    (block c).Yields (stmt?.toList ++ body) next := by
  obtain ⟨pending, rfl, rfl⟩ := first
  obtain ⟨progress, read⟩ := rest
  rw [block, Cursor.accept?_eq_none.mpr more]
  simp only [Cursor.not_atEnd pending, Bool.false_eq_true, ↓reduceDIte]
  rw [read]
  exact ⟨_, rfl⟩

theorem yielded_programMore {stmt? : Option Stmt} {program : List Stmt}
    (first : StmtPhrase.Yielded c c₁ (.declaration stmt?)) (rest : declarations c₁ = (program, next)) :
    declarations c = (stmt?.toList ++ program, next) := by
  obtain ⟨pending, rfl, rfl⟩ := first
  rw [declarations, dif_neg (Cursor.not_atEnd pending)]
  simp only [rest]

theorem ReadsStmt.yielded {phrase : StmtPhrase} {c c' : Cursor} (reads : ReadsStmt phrase c c') :
    phrase.Yielded c c' := by
  induction reads with
  | absent seen => exact yields_absent seen
  | present unseen read => exact yields_present unseen read
  | uninitialized plain => exact yields_uninitialized plain
  | initialized sign value => exact yields_initialized sign value
  | varDeclaration named _ ended value =>
    simp only [StmtPhrase.Yielded, varDeclaration_eq] at value ⊢
    exact (yields_expect named).andThen fun _ => value.andThen fun _ =>
      (yields_expect ended).andThen fun _ => yields_done
  | expressionStatement read ended | printStatement read ended =>
    exact (yields_expression_iff.mpr read).andThen fun _ => (yields_expect ended).andThen fun _ => yields_done
  | returnStatement _ ended value =>
    exact Yields.andThen value fun _ => (yields_expect ended).andThen fun _ => yields_done
  | lastParameter entry ended => exact yields_lastParameter entry ended
  | nextParameter entry sign _ entries => exact yields_nextParameter entry sign entries
  | noParameters closing => exact yields_noParameters closing
  | someParameters opened _ entries => exact yields_someParameters opened entries
  | noInitializer front => exact yields_noInitializer front
  | varInitializer front _ read => exact yields_varInitializer front read
  | exprInitializer plain _ read => exact yields_exprInitializer plain read
  | forClauses opened _ _ ended _ closed first second third =>
    simp only [StmtPhrase.Yielded, forClauses_eq] at first second third ⊢
    exact (yields_expect opened).andThen fun _ => first.andThen fun _ => second.andThen fun _ =>
      (yields_expect ended).andThen fun _ => third.andThen fun _ =>
      (yields_expect closed).andThen fun _ => yields_done
  | noSuperclass plain => exact yields_noSuperclass plain
  | someSuperclass sign named => exact yields_someSuperclass sign named
  | classDeclared front _ read => exact yielded_declaration (yields_classDeclared front read)
  | functionDeclared front _ read => exact yielded_declaration (yields_functionDeclared front read)
  | varDeclared front _ read => exact yielded_declaration (yields_varDeclared front read)
  | stated plain _ read => exact yielded_declaration (yields_stated plain read)
  | misread pending refused recovered _ => exact ⟨pending, refused, recovered⟩
  | classDeclaration named _ opened _ closed extended read =>
    simp only [StmtPhrase.Yielded, classDeclaration_eq] at extended read ⊢
    exact (yields_expect named).andThen fun _ => extended.andThen fun _ => (yields_expect opened).andThen fun _ =>
      read.andThen fun _ => (yields_expect closed).andThen fun _ => yields_done
  | methodsEnd ended =>
    simp only [StmtPhrase.Yielded]
    rw [methods, if_pos ended]
    exact yields_done
  | methodsMore more _ _ first rest => exact yields_methodsMore more first rest
  | function named opened _ closed begun _ entries read =>
    simp only [StmtPhrase.Yielded] at entries read ⊢
    rw [Grammar.function]
    exact (yields_expect named).andThen fun _ => (yields_expect opened).andThen fun _ => entries.andThen fun _ =>
      (yields_expect closed).andThen fun _ => (yields_expect begun).andThen fun _ => read.map _
  | forLoop front _ _ head read => exact yields_forLoop front head read
  | ifThen front opened head closed _ alone first =>
    refine yields_if front opened head closed first ?_
    rw [Cursor.accept?_eq_none.mpr alone]
    exact yields_done
  | ifThenElse front opened head closed _ otherwise _ first second =>
    refine yields_if front opened head closed first ?_
    obtain ⟨taken, found, rfl, rfl⟩ := otherwise.taken
    rw [found]
    exact Yields.after (Yields.map _ second)
  | printing front _ read => exact yields_printing front read
  | returning front _ read => exact yields_returning front read
  | whileLoop front opened head closed _ read => exact yields_whileLoop front opened head closed read
  | braced front _ read => exact yields_braced front read
  | expressed plain _ read => exact yields_expressed plain read
  | blockEnd closed => exact yields_blockEnd closed
  | blockMore more _ _ first rest => exact yields_blockMore more first rest
  | programEnd ended =>
    simp only [StmtPhrase.Yielded]
    rw [declarations, dif_pos (Cursor.atEnd_iff.mpr ended)]
  | programMore _ _ first rest => exact yielded_programMore first rest

theorem declarations_eq_iff {c next : Cursor} {program : List Stmt} :
    declarations c = (program, next) ↔ ReadsStmt (.declarations program) c next := by
  constructor
  · intro read
    have reads := reads_declarations c
    rw [read] at reads
    exact reads
  · exact ReadsStmt.yielded

end Complete
end Lox.Grammar
