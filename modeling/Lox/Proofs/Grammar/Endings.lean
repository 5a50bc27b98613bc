import Lox.Proofs.Grammar.Gluing
import Lox.Proofs.Grammar.AlikeReading

namespace Lox.Grammar

structure Ending where
  failure? : Option Misreading
  last : Cursor

namespace Ending

def andThen (ending : Ending) (more : Cursor → Ending) : Ending :=
  match ending.failure? with
  | none => more ending.last
  | some _ => ending

def recovered (ending : Ending) : Cursor :=
  match ending.failure? with
  | none => ending.last
  | some misreading => ending.last.recover misreading

@[simp] theorem andThen_none (c : Cursor) (more : Cursor → Ending) : (Ending.mk none c).andThen more = more c := rfl

@[simp] theorem andThen_stay (ending : Ending) : ending.andThen (Ending.mk none) = ending := by
  rcases ending with ⟨_ | _, last⟩ <;> rfl

end Ending

section

variable {c : Cursor} {gain more : Nat} {α β : Type}

def Reading.ending : Reading c gain α → Ending
  | .read _ next _ => ⟨none, next⟩
  | .failed misreading next _ => ⟨some misreading, next⟩

namespace Reading

variable {reading : Reading c gain α}

theorem Yields.ending {value : α} {next : Cursor} (yields : reading.Yields value next) : reading.ending = ⟨none, next⟩ := by
  obtain ⟨progress, rfl⟩ := yields
  rfl

@[simp] theorem ending_map (f : α → β) : (reading.map f).ending = reading.ending := by cases reading <;> rfl

@[simp] theorem ending_weaken : reading.weaken.ending = reading.ending := by cases reading <;> rfl

@[simp] theorem ending_after {total : Nat} [AtMostOne total] {taken : c.Taken} {reading : Reading taken.next gain α} :
    (Reading.after taken reading : Reading c total α).ending = reading.ending := by
  cases reading <;> rfl

theorem ending_andThen {next : α → (next : Cursor) → next.size + gain ≤ c.size → Reading next more β}
    {onward : Cursor → Ending} (same : ∀ value c₁ progress, (next value c₁ progress).ending = onward c₁) :
    (reading.andThen next).ending = reading.ending.andThen onward := by
  cases reading with
  | failed => rfl
  | read value c₁ progress =>
    change _ = onward c₁
    rw [← same value c₁ progress]
    unfold Reading.andThen
    dsimp only
    cases next value c₁ progress <;> rfl

theorem ending_finish {next : α → (next : Cursor) → next.size + gain ≤ c.size → Reading next more β}
    (same : ∀ value c₁ progress, (next value c₁ progress).ending = ⟨none, c₁⟩) :
    (reading.andThen next).ending = reading.ending := by
  rw [ending_andThen same, Ending.andThen_stay]

end Reading

theorem Cursor.Takes.expect_ending {kind : Kind} {token : Token} {next : Cursor} (taken : c.Takes [kind] token next)
    (fault : SyntaxFault) : (c.expect kind fault).ending = ⟨none, next⟩ :=
  (Reading.yields_expect taken).ending

theorem Cursor.Lacks.expect_ending {kind : Kind} (lacks : c.Lacks [kind]) (fault : SyntaxFault) :
    (c.expect kind fault).ending = ⟨some ⟨c.peek, fault⟩, c⟩ := by
  unfold Cursor.expect
  rw [Cursor.accept?_eq_none.mpr lacks]
  rfl

end

section

variable {c c₁ : Cursor} {word : Token}

open Reading

theorem expressionStatement_ending (c : Cursor) :
    (expressionStatement c).ending =
      (expression c).ending.andThen fun c₁ => (c₁.expect .semicolon .expressionEnd).ending :=
  ending_andThen fun _ _ _ => ending_finish fun _ _ _ => rfl

theorem printStatement_ending (c : Cursor) :
    (printStatement c).ending = (expression c).ending.andThen fun c₁ => (c₁.expect .semicolon .printEnd).ending :=
  ending_andThen fun _ _ _ => ending_finish fun _ _ _ => rfl

theorem returnStatement_ending (keyword : Token) (c : Cursor) :
    (returnStatement keyword c).ending =
      (expressionUnless .semicolon c).ending.andThen fun c₁ => (c₁.expect .semicolon .returnEnd).ending :=
  ending_andThen fun _ _ _ => ending_finish fun _ _ _ => rfl

theorem varDeclaration_ending (c : Cursor) :
    (varDeclaration c).ending =
      (c.expect .identifier .variableName).ending.andThen fun c₁ =>
      (initializer c₁).ending.andThen fun c₂ => (c₂.expect .semicolon .variableEnd).ending := by
  rw [varDeclaration_eq]
  exact ending_andThen fun _ _ _ => ending_andThen fun _ _ _ => ending_finish fun _ _ _ => rfl

theorem forClauses_ending (c : Cursor) :
    (forClauses c).ending =
      (c.expect .leftParen .forOpening).ending.andThen fun c₁ =>
      (forInitializer c₁).ending.andThen fun c₂ =>
      (expressionUnless .semicolon c₂).ending.andThen fun c₃ =>
      (c₃.expect .semicolon .loopConditionEnd).ending.andThen fun c₄ =>
      (expressionUnless .rightParen c₄).ending.andThen fun c₅ => (c₅.expect .rightParen .forClosing).ending := by
  rw [forClauses_eq]
  exact ending_andThen fun _ _ _ => ending_andThen fun _ _ _ => ending_andThen fun _ _ _ => ending_andThen fun _ _ _ =>
    ending_andThen fun _ _ _ => ending_finish fun _ _ _ => rfl

theorem forInitializer_none (taken : c.Takes [.semicolon] word c₁) : (forInitializer c).ending = ⟨none, c₁⟩ :=
  Yields.ending (ReadsStmt.noInitializer taken).yielded

theorem forInitializer_var (taken : c.Takes [.keyword .var_] word c₁) :
    (forInitializer c).ending = (varDeclaration c₁).ending := by
  obtain ⟨front, rfl, rfl, kind, accepted⟩ := taken.among [.semicolon, .keyword .var_] (by decide)
  unfold forInitializer
  rw [accepted]
  simp only [kind, reduceCtorEq, ↓reduceIte, ending_after, ending_map]

theorem forInitializer_expression (plain : c.Lacks [.semicolon, .keyword .var_]) :
    (forInitializer c).ending = (expressionStatement c).ending := by
  unfold forInitializer
  rw [Cursor.accept?_eq_none.mpr plain]
  exact ending_map _

/-- What can follow the first branch of an `if` statement. -/
def elseEnding (c : Cursor) : Ending :=
  match c.accept? [.keyword .else_] with
  | none => ⟨none, c⟩
  | some else_ => (statement else_.next).ending

theorem elseEnding_none (alone : c.Lacks [.keyword .else_]) : elseEnding c = ⟨none, c⟩ := by
  unfold elseEnding
  rw [Cursor.accept?_eq_none.mpr alone]

theorem elseEnding_some (taken : c.Takes [.keyword .else_] word c₁) : elseEnding c = (statement c₁).ending := by
  obtain ⟨front, found, rfl, rfl⟩ := taken.taken
  unfold elseEnding
  rw [found]

theorem statement_for (taken : c.Takes [.keyword .for_] word c₁) :
    (statement c).ending = (forClauses c₁).ending.andThen fun c₂ => (statement c₂).ending := by
  obtain ⟨front, rfl, rfl, kind, accepted⟩ := taken.among statementStarts (by decide)
  rw [statement, accepted]
  simp only [kind, ending_after]
  exact ending_andThen fun _ _ _ => ending_map _

theorem statement_if (taken : c.Takes [.keyword .if_] word c₁) :
    (statement c).ending =
      (c₁.expect .leftParen .ifOpening).ending.andThen fun c₂ =>
      (expression c₂).ending.andThen fun c₃ =>
      (c₃.expect .rightParen .ifClosing).ending.andThen fun c₄ => (statement c₄).ending.andThen elseEnding := by
  obtain ⟨front, rfl, rfl, kind, accepted⟩ := taken.among statementStarts (by decide)
  rw [statement, accepted]
  simp only [kind, ending_after]
  refine ending_andThen fun _ _ _ => ending_andThen fun _ _ _ => ending_andThen fun _ _ _ => ending_andThen fun _ c₅ _ => ?_
  unfold elseEnding
  cases c₅.accept? [.keyword .else_] with
  | none => rfl
  | some else_ => simp only [ending_after, ending_map]

theorem statement_print (taken : c.Takes [.keyword .print_] word c₁) :
    (statement c).ending = (printStatement c₁).ending := by
  obtain ⟨front, rfl, rfl, kind, accepted⟩ := taken.among statementStarts (by decide)
  rw [statement, accepted]
  simp only [kind, ending_after]

theorem statement_return (taken : c.Takes [.keyword .return_] word c₁) :
    (statement c).ending = (returnStatement word c₁).ending := by
  obtain ⟨front, rfl, rfl, kind, accepted⟩ := taken.among statementStarts (by decide)
  rw [statement, accepted]
  simp only [kind, ending_after]

theorem statement_while (taken : c.Takes [.keyword .while_] word c₁) :
    (statement c).ending =
      (c₁.expect .leftParen .whileOpening).ending.andThen fun c₂ =>
      (expression c₂).ending.andThen fun c₃ =>
      (c₃.expect .rightParen .whileClosing).ending.andThen fun c₄ => (statement c₄).ending := by
  obtain ⟨front, rfl, rfl, kind, accepted⟩ := taken.among statementStarts (by decide)
  rw [statement, accepted]
  simp only [kind, ending_after]
  exact ending_andThen fun _ _ _ => ending_andThen fun _ _ _ => ending_andThen fun _ _ _ => ending_map _

theorem statement_block (taken : c.Takes [.leftBrace] word c₁) : (statement c).ending = (block c₁).ending := by
  obtain ⟨front, rfl, rfl, kind, accepted⟩ := taken.among statementStarts (by decide)
  rw [statement, accepted]
  simp only [kind, ending_after, ending_map]

theorem statement_expression (plain : c.Lacks statementStarts) : (statement c).ending = (expressionStatement c).ending := by
  rw [statement, Cursor.accept?_eq_none.mpr plain]

theorem declaration_class (taken : c.Takes [.keyword .class_] word c₁) :
    (declarationReading c).ending = (classDeclaration c₁).ending := by
  obtain ⟨front, rfl, rfl, kind, accepted⟩ := taken.among declarationStarts (by decide)
  unfold declarationReading
  rw [accepted]
  simp only [kind, ending_after]

theorem declaration_function (taken : c.Takes [.keyword .fun_] word c₁) :
    (declarationReading c).ending = (function .function c₁).ending := by
  obtain ⟨front, rfl, rfl, kind, accepted⟩ := taken.among declarationStarts (by decide)
  unfold declarationReading
  rw [accepted]
  simp only [kind, ending_after, ending_map]

theorem declaration_var (taken : c.Takes [.keyword .var_] word c₁) :
    (declarationReading c).ending = (varDeclaration c₁).ending := by
  obtain ⟨front, rfl, rfl, kind, accepted⟩ := taken.among declarationStarts (by decide)
  unfold declarationReading
  rw [accepted]
  simp only [kind, ending_after]

theorem declaration_statement (plain : c.Lacks declarationStarts) :
    (declarationReading c).ending = (statement c).ending := by
  unfold declarationReading
  rw [Cursor.accept?_eq_none.mpr plain]

theorem classDeclaration_ending (c : Cursor) :
    (classDeclaration c).ending =
      (c.expect .identifier .className).ending.andThen fun c₁ =>
      (superclass c₁).ending.andThen fun c₂ =>
      (c₂.expect .leftBrace .classOpening).ending.andThen fun c₃ =>
      (methods c₃).ending.andThen fun c₄ => (c₄.expect .rightBrace .classClosing).ending := by
  rw [classDeclaration_eq]
  exact ending_andThen fun _ _ _ => ending_andThen fun _ _ _ => ending_andThen fun _ _ _ => ending_andThen fun _ _ _ =>
    ending_finish fun _ _ _ => rfl

theorem methods_more (pending : c.pending ≠ []) (plain : c.Lacks [.rightBrace]) :
    (methods c).ending = (function .method c).ending.andThen fun c₁ => (methods c₁).ending := by
  have more : ¬(c.sees .rightBrace || c.atEnd) = true := by
    rw [Cursor.sees_eq_false.mpr plain, Bool.false_or, Cursor.atEnd_iff]
    exact pending
  rw [methods, if_neg more, ending_weaken]
  exact ending_andThen fun _ _ _ => ending_map _

theorem function_ending (role : FunctionRole) (c : Cursor) :
    (function role c).ending =
      (c.expect .identifier (.functionName role)).ending.andThen fun c₁ =>
      (c₁.expect .leftParen (.parametersOpening role)).ending.andThen fun c₂ =>
      (parameters c₂).ending.andThen fun c₃ =>
      (c₃.expect .rightParen .parametersClosing).ending.andThen fun c₄ =>
      (c₄.expect .leftBrace (.bodyOpening role)).ending.andThen fun c₅ => (block c₅).ending := by
  rw [function]
  exact ending_andThen fun _ _ _ => ending_andThen fun _ _ _ => ending_andThen fun _ _ _ => ending_andThen fun _ _ _ =>
    ending_andThen fun _ _ _ => ending_map _

theorem declaration_next (c : Cursor) (pending : 0 < c.size) :
    (declaration c pending).next = (declarationReading c).ending.recovered := by
  rw [declaration_eq]
  cases declarationReading c <;> rfl

theorem block_more (pending : c.pending ≠ []) (plain : c.Lacks [.rightBrace]) :
    (block c).ending = (block (declarationReading c).ending.recovered).ending := by
  have more : ¬c.atEnd = true := by
    rw [Cursor.atEnd_iff]
    exact pending
  rw [block, Cursor.accept?_eq_none.mpr plain, ← declaration_next c (Cursor.size_pos more)]
  simp only [more, Bool.false_eq_true, ↓reduceDIte]
  cases block (declaration c (Cursor.size_pos more)).next <;> rfl

theorem declarations_more (pending : c.pending ≠ []) :
    (declarations c).2 = (declarations (declarationReading c).ending.recovered).2 := by
  have more : ¬c.atEnd = true := by
    rw [Cursor.atEnd_iff]
    exact pending
  rw [declarations, dif_neg more, ← declaration_next c (Cursor.size_pos more)]

end

structure Ending.Beside (ms ms' : List Misreading) (ending ending' : Ending) : Prop where
  failure : ending'.failure? = ending.failure?
  last : ending.last.Beside (.repeating ms ms') ending'.last

section

variable {ms ms' : List Misreading} {c c' : Cursor} {e e' : Ending}

theorem Reading.Paired.ending {deep : Bool} {gain : Nat} {α β : Type} {R : α → β → Prop} {reading : Reading c gain α}
    {reading' : Reading c' gain β} (paired : reading.Paired deep (.repeating ms ms') R reading') :
    reading.ending.Beside ms ms' reading'.ending := by
  cases paired.beside with
  | read _ cursors => exact ⟨rfl, cursors⟩
  | failed misreadings cursors => exact ⟨congrArg some (Comparison.alike_repeating.mp misreadings).symm, cursors⟩

theorem Ending.Beside.andThen {more more' : Cursor → Ending} (endings : e.Beside ms ms' e')
    (continues : ∀ {c c' : Cursor}, c.Beside (.repeating ms ms') c' → (more c).Beside ms ms' (more' c')) :
    (e.andThen more).Beside ms ms' (e'.andThen more') := by
  unfold Ending.andThen
  rw [endings.failure]
  cases e.failure? with
  | none => exact continues endings.last
  | some misreading => exact endings

theorem Ending.Beside.recovered (endings : e.Beside ms ms' e') : e.recovered.Beside (.repeating ms ms') e'.recovered := by
  unfold Ending.recovered
  rw [endings.failure]
  cases e.failure? with
  | none => exact endings.last
  | some misreading => exact endings.last.recover (Comparison.alike_repeating.mpr rfl)

variable (cursors : c.Beside (.repeating ms ms') c')
include cursors

theorem elseEnding_beside : (elseEnding c).Beside ms ms' (elseEnding c') := by
  unfold elseEnding
  rcases cursors.accept [.keyword .else_] with ⟨none, none'⟩ | ⟨else_, else_', some, some', -, next⟩
  · rw [none, none']
    exact ⟨rfl, cursors⟩
  · rw [some, some']
    exact (statement_paired next).ending

theorem methods_beside : (methods c).ending.Beside ms ms' (methods c').ending :=
  (methods_paired cursors).ending

theorem block_beside : (block c).ending.Beside ms ms' (block c').ending :=
  (block_paired cursors).ending

theorem expect_beside (kind : Kind) {fault : SyntaxFault} (stops : fault.stops = true) :
    (c.expect kind fault).ending.Beside ms ms' (c'.expect kind fault).ending :=
  (Reading.Paired.expect cursors kind stops : Reading.Paired true _ _ _ _).ending

end

/-- Reading has ended well, with `rest` in front and `new` recorded. -/
def Ending.Reads (ending : Ending) (c : Cursor) (rest : List Token) (new : List Misreading) : Prop :=
  ∃ c', ending = ⟨none, c'⟩ ∧ c.Arrives c' rest new

/-- Reading has failed with `rest` in front, and `new` was recorded before. -/
def Ending.Stumbles (ending : Ending) (c : Cursor) (rest : List Token) (new : List Misreading) : Prop :=
  ∃ c' fault, fault ≠ .assignmentTarget ∧ ending = ⟨some ⟨c'.peek, fault⟩, c'⟩ ∧ c.Arrives c' rest new

section

variable {c c₁ : Cursor} {rest rest' : List Token} {new : List Misreading} {e : Ending}
  {more : Cursor → Ending}

theorem Ending.Reads.after (reads : e.Reads c₁ rest new) (arrived : c.Arrives c₁ rest' []) : e.Reads c rest new := by
  obtain ⟨c', rfl, onward⟩ := reads
  exact ⟨c', rfl, onward.after arrived⟩

theorem Ending.Stumbles.after (stumbles : e.Stumbles c₁ rest new) (arrived : c.Arrives c₁ rest' []) :
    e.Stumbles c rest new := by
  obtain ⟨c', fault, other, rfl, onward⟩ := stumbles
  exact ⟨c', fault, other, rfl, onward.after arrived⟩

theorem Ending.Stumbles.andThen (stumbles : e.Stumbles c rest new) (more : Cursor → Ending) :
    (e.andThen more).Stumbles c rest new := by
  obtain ⟨c', fault, other, rfl, onward⟩ := stumbles
  exact ⟨c', fault, other, rfl, onward⟩

theorem Ending.Reads.andThen_reads (reads : e.Reads c rest new)
    (continues : ∀ {c₁ : Cursor}, c₁.pending = rest → (more c₁).Reads c₁ rest' []) :
    (e.andThen more).Reads c rest' new := by
  obtain ⟨c₁, rfl, arrived⟩ := reads
  obtain ⟨c₂, same, onward⟩ := continues arrived.pending
  exact ⟨c₂, same, arrived.trans onward⟩

theorem Ending.Reads.andThen_stumbles (reads : e.Reads c rest new)
    (continues : ∀ {c₁ : Cursor}, c₁.pending = rest → (more c₁).Stumbles c₁ rest' []) :
    (e.andThen more).Stumbles c rest' new := by
  obtain ⟨c₁, rfl, arrived⟩ := reads
  obtain ⟨c₂, fault, other, same, onward⟩ := continues arrived.pending
  exact ⟨c₂, fault, other, same, arrived.trans onward⟩

theorem Cursor.arrives_take {token : Token} (front : c.pending = token :: rest) :
    c.Takes [token.kind] token { c with pending := rest } ∧ c.Arrives { c with pending := rest } rest [] :=
  ⟨⟨List.mem_singleton.mpr rfl, front, rfl⟩, rfl, rfl, rfl⟩

theorem expect_reads {kind : Kind} {token : Token} (front : c.pending = token :: rest) (same : token.kind = kind)
    (fault : SyntaxFault) : (c.expect kind fault).ending.Reads c rest [] := by
  subst same
  obtain ⟨taken, arrived⟩ := Cursor.arrives_take front
  exact ⟨_, taken.expect_ending fault, arrived⟩

theorem expect_stumbles {kind : Kind} {fault : SyntaxFault} (front : c.pending = rest) (apart : Apart [kind] rest)
    (other : fault ≠ .assignmentTarget) : (c.expect kind fault).ending.Stumbles c rest [] :=
  ⟨c, fault, other, (apart.lacks front).expect_ending fault, front, rfl, rfl⟩

end

section

variable {c : Cursor}

theorem Reading.ending_andThen_failed {gain more : Nat} {α β : Type} {reading : Reading c gain α}
    {next : α → (next : Cursor) → next.size + gain ≤ c.size → Reading next more β} {misreading : Misreading}
    {last : Cursor} (failed : reading.ending = ⟨some misreading, last⟩) :
    (reading.andThen next).ending = ⟨some misreading, last⟩ := by
  cases reading with
  | read => cases failed
  | failed => exact failed

theorem primary_refuses (plain : c.Lacks primaryStarts) : (primary c).ending = ⟨some ⟨c.peek, .expression⟩, c⟩ := by
  rw [primary]
  cases found : c.take? with
  | none => rfl
  | some front =>
    have other : front.token.kind ∉ primaryStarts := plain front.token (by rw [front.front]; rfl)
    dsimp only
    split
    all_goals first
      | rfl
      | (rename_i kind; exact absurd (kind ▸ by decide) other)

theorem unary_refuses (plain : c.Lacks expressionStarts) : (unary c).ending = ⟨some ⟨c.peek, .expression⟩, c⟩ := by
  have unsigned : c.Lacks [.bang, .minus] := fun token front among =>
    plain token front (List.mem_append_left primaryStarts among : token.kind ∈ [.bang, .minus] ++ primaryStarts)
  have unstarted : c.Lacks primaryStarts := fun token front among =>
    plain token front (List.mem_append_right _ among : token.kind ∈ [.bang, .minus] ++ primaryStarts)
  rw [unary, Cursor.accept?_eq_none.mpr unsigned]
  exact Reading.ending_andThen_failed (primary_refuses unstarted)

theorem infix_refuses (plain : c.Lacks expressionStarts) (level : Level) :
    (infix_ level c).ending = ⟨some ⟨c.peek, .expression⟩, c⟩ := by
  rw [infix_]
  apply Reading.ending_andThen_failed
  rw [operand]
  split
  · rename_i tighter next
    have below := Level.rank_tighter next
    exact infix_refuses plain tighter
  · exact unary_refuses plain
termination_by level.rank

theorem expression_refuses (plain : c.Lacks expressionStarts) :
    (expression c).ending = ⟨some ⟨c.peek, .expression⟩, c⟩ := by
  rw [expression]
  exact Reading.ending_andThen_failed (infix_refuses plain .or)

theorem expression_stumbles {rest : List Token} (front : c.pending = rest) (apart : Apart expressionStarts rest) :
    (expression c).ending.Stumbles c rest [] :=
  ⟨c, .expression, by decide, expression_refuses (apart.lacks front), front, rfl, rfl⟩

end

section

variable {fits : Nat → Prop} (limits : Limits fits) {c : Cursor} {ts rest : List Token}
include limits

theorem SpellsExpr.reads {expr : Expr} (spelled : SpellsExpr fits (.expression expr) ts) (front : c.pending = ts ++ rest)
    (ends : Ends 8 rest) : (expression c).ending.Reads c rest [] := by
  obtain ⟨expr', c', read, -, reached⟩ := spelled.reread c rest front ends
  exact ⟨c', (yields_expression_iff.mpr read).ending, .of_reaches reached limits read.leads⟩

namespace SpellsStmt

theorem reads_optional {expr? : Option Expr} {closing : Token} (spelled : SpellsStmt fits (.optional expr?) ts)
    (front : c.pending = ts ++ closing :: rest) (kind : closing.kind ∈ [.semicolon, .rightParen]) :
    (expressionUnless closing.kind c).ending.Reads c (closing :: rest) [] := by
  obtain ⟨expr?', c', read, -, reached⟩ := spelled.reread c closing rest front kind
  exact ⟨c', Reading.Yields.ending read.yielded, .of_reaches reached limits read.leads⟩

theorem reads_parameters {params : List Token} {paren : Token} (spelled : SpellsStmt fits (.parameters params) ts)
    (front : c.pending = ts ++ paren :: rest) (kind : paren.kind = .rightParen) :
    (parameters c).ending.Reads c (paren :: rest) [] := by
  obtain ⟨params', c', read, -, reached⟩ := spelled.reread c paren rest front kind
  exact ⟨c', Reading.Yields.ending read.yielded, .of_reaches reached limits read.leads⟩

theorem reads_forInitializer {stmt? : Option Stmt} (spelled : SpellsStmt fits (.forInitializer stmt?) ts)
    (front : c.pending = ts ++ rest) : (forInitializer c).ending.Reads c rest [] := by
  obtain ⟨stmt?', c', read, -, reached⟩ := spelled.reread c rest front
  exact ⟨c', Reading.Yields.ending read.yielded, .of_reaches reached limits read.leads⟩

theorem reads_forClauses {clauses : ForClauses} (spelled : SpellsStmt fits (.forClauses clauses) ts)
    (front : c.pending = ts ++ rest) : (Grammar.forClauses c).ending.Reads c rest [] := by
  obtain ⟨clauses', c', read, -, reached⟩ := spelled.reread c rest front
  exact ⟨c', Reading.Yields.ending read.yielded, .of_reaches reached limits read.leads⟩

theorem reads_superclass {expr? : Option Expr} {brace : Token} (spelled : SpellsStmt fits (.superclass expr?) ts)
    (front : c.pending = ts ++ brace :: rest) (kind : brace.kind = .leftBrace) :
    (superclass c).ending.Reads c (brace :: rest) [] := by
  obtain ⟨expr?', c', read, -, reached⟩ := spelled.reread c brace rest front kind
  exact ⟨c', Reading.Yields.ending read.yielded, .of_reaches reached limits read.leads⟩

theorem reads_function {d : FunctionDecl} (spelled : SpellsStmt fits (.function d) ts) (role : FunctionRole)
    (front : c.pending = ts ++ rest) : (Grammar.function role c).ending.Reads c rest [] := by
  obtain ⟨d', c', read, -, reached⟩ := spelled.reread c role rest front
  exact ⟨c', Reading.Yields.ending read.yielded, .of_reaches reached limits read.leads⟩

theorem reads_statement {stmt : Stmt} {dangling : Bool} (spelled : SpellsStmt fits (.statement stmt dangling) ts)
    (front : c.pending = ts ++ rest) (ended : dangling = true → Apart [.keyword .else_] rest) :
    (statement c).ending.Reads c rest [] := by
  obtain ⟨stmt', c', read, -, reached⟩ := spelled.reread c rest front ended
  exact ⟨c', Reading.Yields.ending read.yielded, .of_reaches reached limits read.leads⟩

theorem reads_declaration {stmt : Stmt} (spelled : SpellsStmt fits (.declaration stmt) ts) (front : c.pending = ts ++ rest)
    (ended : Apart [.keyword .else_] rest) : (declarationReading c).ending.Reads c rest [] := by
  obtain ⟨stmt', c', read, -, reached⟩ := spelled.reread c rest front ended
  refine ⟨c', ?_, .of_reaches reached limits read.leads⟩
  obtain ⟨pending, declared, next⟩ := read.yielded
  rw [declaration_eq] at declared next
  cases declaring : declarationReading c with
  | failed misreading last progress =>
    rw [declaring] at declared
    cases declared
  | read value last progress =>
    rw [declaring] at next
    exact congrArg (Ending.mk none) next

end SpellsStmt

end

end Lox.Grammar
