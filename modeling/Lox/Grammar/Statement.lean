import Lox.Grammar.Expression

namespace Lox.Grammar

def startsStatement : Kind → Bool
  | .keyword .class_ | .keyword .fun_ | .keyword .var_ | .keyword .for_ | .keyword .if_
  | .keyword .while_ | .keyword .print_ | .keyword .return_ => true
  | _ => false

/-- The tokens from the next place where a statement may begin: behind a semicolon, or before a word
    that starts a statement. `last` is the token in front of them. -/
def skipFrom (last : Token) : List Token → List Token
  | [] => []
  | token :: rest =>
    if last.kind = .semicolon ∨ startsStatement token.kind then token :: rest else skipFrom token rest

def skip : List Token → List Token
  | [] => []
  | token :: rest => skipFrom token rest

theorem length_skipFrom (last : Token) (tokens : List Token) :
    (skipFrom last tokens).length ≤ tokens.length := by
  induction tokens generalizing last with
  | nil => simp [skipFrom]
  | cons token rest ih =>
    unfold skipFrom
    split
    · exact Nat.le_refl _
    · exact Nat.le_succ_of_le (ih token)

theorem length_skip (tokens : List Token) : (skip tokens).length ≤ tokens.length - 1 := by
  cases tokens with
  | nil => simp [skip]
  | cons token rest => simpa [skip] using length_skipFrom token rest

/-- A declaration that was read, or `none` in place of one that was misread, and where reading goes
    on. -/
structure Declared (start : Cursor) where
  statement? : Option Stmt
  next : Cursor
  shorter : next.size < start.size

def Declared.ofReading {c : Cursor} (pending : 0 < c.size) : Reading c 1 Stmt → Declared c
  | .read statement next progress => ⟨some statement, next, by omega⟩
  | .failed misreading next progress =>
    { statement? := none
      next := { next with
        pending := skip next.pending
        misreadings := misreading :: next.misreadings }
      shorter := by
        have shorter := length_skip next.pending
        simp only [Cursor.size] at *
        omega }

def expressionUnless (kind : Kind) (c : Cursor) : Reading c 0 (Option Expr) :=
  if c.sees kind then .done none else ((expression c).map some).weaken

def varDeclaration (c : Cursor) : Reading c 1 Stmt :=
  (c.expect .identifier .variableName).andThen fun name c₁ _ =>
  (match c₁.accept? [.equal] with
    | none => .done none
    | some equals => .after equals ((expression equals.next).map some)
    : Reading c₁ 0 (Option Expr)).andThen fun initializer c₂ _ =>
  (c₂.expect .semicolon .variableEnd).andThen fun _ _ _ => .done (.var_ name initializer)

def expressionStatement (c : Cursor) : Reading c 1 Stmt :=
  (expression c).andThen fun expr c₁ _ =>
  (c₁.expect .semicolon .expressionEnd).andThen fun _ _ _ => .done (.expression expr)

def printStatement (c : Cursor) : Reading c 1 Stmt :=
  (expression c).andThen fun expr c₁ _ =>
  (c₁.expect .semicolon .printEnd).andThen fun _ _ _ => .done (.print_ expr)

def returnStatement (keyword : Token) (c : Cursor) : Reading c 0 Stmt :=
  (expressionUnless .semicolon c).andThen fun value c₁ _ =>
  (c₁.expect .semicolon .returnEnd).andThen fun _ _ _ => .done (.return_ keyword value)

def parametersFrom (count : Nat) (c : Cursor) : Reading c 1 (List Token) :=
  .ofSameSize (size_limit c count .tooManyParameters) <|
    ((limit c count .tooManyParameters).expect .identifier .parameterName).andThen fun first c₁ _ =>
    match c₁.accept? [.comma] with
    | none => .done [first]
    | some comma => .after comma <| (parametersFrom (count + 1) comma.next).map (first :: ·)
termination_by c.size
decreasing_by
  have := comma.shorter
  have := size_limit c count .tooManyParameters
  omega

def parameters (c : Cursor) : Reading c 0 (List Token) :=
  if c.sees .rightParen then .done [] else (parametersFrom 0 c).weaken

structure ForClauses where
  initializer : Option Stmt
  condition : Option Expr
  increment : Option Expr

def forClauses (c : Cursor) : Reading c 1 ForClauses :=
  (c.expect .leftParen .forOpening).andThen fun _ c₁ _ =>
  (match c₁.accept? [.semicolon, .keyword .var_] with
    | none => (expressionStatement c₁).map some
    | some front =>
      if front.token.kind = .semicolon then .after front (.done none)
      else .after front ((varDeclaration front.next).map some)
    : Reading c₁ 1 (Option Stmt)).andThen fun initializer c₂ _ =>
  (expressionUnless .semicolon c₂).andThen fun condition c₃ _ =>
  (c₃.expect .semicolon .loopConditionEnd).andThen fun _ c₄ _ =>
  (expressionUnless .rightParen c₄).andThen fun increment c₅ _ =>
  (c₅.expect .rightParen .forClosing).andThen fun _ _ _ => .done ⟨initializer, condition, increment⟩

/-- The statement that a `for` loop stands for. The increment runs in a block with the body, the loop
    in a block with the initializer; without a condition it runs on. -/
def ForClauses.loop (clauses : ForClauses) (body : Stmt) : Stmt :=
  let body := match clauses.increment with
    | none => body
    | some increment => .block [body, .expression increment]
  let loop := .while_ (clauses.condition.getD (.constant (.bool true))) body
  match clauses.initializer with
  | none => loop
  | some initializer => .block [initializer, loop]

mutual

def declaration (c : Cursor) (pending : 0 < c.size) : Declared c :=
  .ofReading pending <|
    match c.accept? [.keyword .class_, .keyword .fun_, .keyword .var_] with
    | none => statement c
    | some front =>
      match front.token.kind with
      | .keyword .class_ => .after front (classDeclaration front.next)
      | .keyword .fun_ => .after front ((function .function front.next).map .function)
      | _ => .after front (varDeclaration front.next)
termination_by 8 * c.size + 2
decreasing_by
  · omega
  · have := front.shorter; omega
  · have := front.shorter; omega

def classDeclaration (c : Cursor) : Reading c 1 Stmt :=
  (c.expect .identifier .className).andThen fun name c₁ _ =>
  (match c₁.accept? [.less] with
    | none => .done none
    | some less =>
      .after less <|
        (less.next.expect .identifier .superclassName).andThen fun superclass c _ =>
        (.read (some (.variable_ c.nextId superclass)) c.numbered c.numbered_le : Reading c 0 (Option Expr))
    : Reading c₁ 0 (Option Expr)).andThen fun superclass c₂ _ =>
  (c₂.expect .leftBrace .classOpening).andThen fun _ c₃ _ =>
  (methods c₃).andThen fun methods c₄ _ =>
  (c₄.expect .rightBrace .classClosing).andThen fun _ _ _ => .done (.class_ name superclass methods)
termination_by 8 * c.size
decreasing_by omega

def methods (c : Cursor) : Reading c 0 (List FunctionDecl) :=
  if c.sees .rightBrace || c.atEnd then .done []
  else
    ((function .method c).andThen fun method c₁ _ => (methods c₁).map (method :: ·)).weaken
termination_by 8 * c.size + 1
decreasing_by all_goals omega

def function (role : FunctionRole) (c : Cursor) : Reading c 1 FunctionDecl :=
  (c.expect .identifier (.functionName role)).andThen fun name c₁ _ =>
  (c₁.expect .leftParen (.parametersOpening role)).andThen fun _ c₂ _ =>
  (parameters c₂).andThen fun parameters c₃ _ =>
  (c₃.expect .rightParen .parametersClosing).andThen fun _ c₄ _ =>
  (c₄.expect .leftBrace (.bodyOpening role)).andThen fun _ c₅ _ =>
  (block c₅).map (.mk name parameters)
termination_by 8 * c.size
decreasing_by omega

def statement (c : Cursor) : Reading c 1 Stmt :=
  match c.accept? [.keyword .for_, .keyword .if_, .keyword .print_, .keyword .return_,
    .keyword .while_, .leftBrace] with
  | none => expressionStatement c
  | some front =>
    match front.token.kind with
    | .keyword .for_ =>
      .after front <|
        (forClauses front.next).andThen fun clauses c₁ _ => (statement c₁).map clauses.loop
    | .keyword .if_ =>
      .after front <|
        (front.next.expect .leftParen .ifOpening).andThen fun _ c₁ _ =>
        (expression c₁).andThen fun condition c₂ _ =>
        (c₂.expect .rightParen .ifClosing).andThen fun _ c₃ _ =>
        (statement c₃).andThen fun thenBranch c₄ _ =>
        match c₄.accept? [.keyword .else_] with
        | none => .done (.ifThen condition thenBranch)
        | some else_ => .after else_ ((statement else_.next).map (.ifThenElse condition thenBranch))
    | .keyword .print_ => .after front (printStatement front.next)
    | .keyword .return_ => .after front (returnStatement front.token front.next)
    | .keyword .while_ =>
      .after front <|
        (front.next.expect .leftParen .whileOpening).andThen fun _ c₁ _ =>
        (expression c₁).andThen fun condition c₂ _ =>
        (c₂.expect .rightParen .whileClosing).andThen fun _ c₃ _ =>
        (statement c₃).map (.while_ condition)
    | _ => .after front ((block front.next).map .block)
termination_by 8 * c.size + 1
decreasing_by
  all_goals have := front.shorter
  all_goals try have := else_.shorter
  all_goals omega

def block (c : Cursor) : Reading c 1 (List Stmt) :=
  match c.accept? [.rightBrace] with
  | some brace => .after brace (.done [])
  | none =>
    if ended : c.atEnd then c.fail 1 .blockClosing
    else
      match declaration c (Cursor.size_pos ended) with
      | ⟨first, next, shorter⟩ =>
        match block next with
        | .read rest last progress => .read (first.toList ++ rest) last (by omega)
        | .failed misreading last progress => .failed misreading last (by omega)
termination_by 8 * c.size + 3
decreasing_by all_goals omega

end

def declarations (c : Cursor) : List Stmt × Cursor :=
  if ended : c.atEnd then ([], c)
  else
    match declaration c (Cursor.size_pos ended) with
    | ⟨first, next, _⟩ =>
      let (rest, last) := declarations next
      (first.toList ++ rest, last)
termination_by c.size
decreasing_by assumption

end Lox.Grammar

namespace Lox

structure Parsed (α : Type) where
  value : α
  misreadings : List Misreading
  nextId : NodeId

/-- The statements of a program that could be read. Nodes are numbered from `nextId` on. -/
def parseProgram (tokens : List Token) (nextId : NodeId) : Parsed (List Stmt) :=
  let (program, last) := Grammar.declarations (.ofTokens tokens nextId)
  ⟨program, last.misreadings.reverse, last.nextId⟩

def parseExpression (tokens : List Token) (nextId : NodeId) : Parsed (Except Misreading Expr) :=
  match Grammar.wholeExpression (.ofTokens tokens nextId) with
  | .read expr last _ => ⟨.ok expr, last.misreadings.reverse, last.nextId⟩
  | .failed misreading last _ => ⟨.error misreading, last.misreadings.reverse, last.nextId⟩

end Lox
