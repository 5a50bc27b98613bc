import Lox.Proofs.Grammar.Gaps
import Lox.Proofs.Grammar.Relabelling
import Lox.Proofs.Tree.RoundTrip

namespace Lox.Grammar

variable {fits : Nat → Prop} {missing : Token} {c c₁ : Cursor} {xs ys rest : List Token}

def placeholder : List Token := [⟨.keyword .nil_, "nil", none, 1⟩, ⟨.semicolon, ";", none, 1⟩]

theorem SpellsStmt.placeholder : SpellsStmt fits (.statement (.expression (.constant .nil)) false) Grammar.placeholder :=
  have spelled : SpellsExpr fits (.call (.constant .nil)) [⟨.keyword .nil_, "nil", none, 1⟩] := .primary (.constant rfl)
  .expressed (.expressionStatement (.unassigned spelled.at_or) rfl)

theorem placeholder_reads (limits : Limits fits) (front : c.pending = placeholder ++ rest) :
    (declarationReading c).ending.Reads c rest [] := by
  have plain : c.Lacks declarationStarts := Cursor.lacks_of_pending front (by decide)
  rw [declaration_statement plain]
  exact SpellsStmt.placeholder.reads_statement limits front (by simp)

/-- The semicolon between `xs` and `ys` belongs to the clauses of a `for` loop. -/
def InClauses (fits : Nat → Prop) (missing : Token) (xs ys : List Token) : Prop :=
  ∃ clauses before xs' ys' behind, xs = before ++ xs' ∧ ys = ys' ++ behind ∧
    SpellsStmt fits (.forClauses clauses) (xs' ++ missing :: ys')

theorem InClauses.within (inside : InClauses fits missing xs ys) (front tail : List Token) :
    InClauses fits missing (front ++ xs) (ys ++ tail) := by
  obtain ⟨clauses, before, xs', ys', behind, rfl, rfl, spelled⟩ := inside
  exact ⟨clauses, front ++ before, xs', ys', behind ++ tail, (List.append_assoc ..).symm, List.append_assoc .., spelled⟩

inductive Repair (stop : Token) (behind : List Token) (clauses : Prop) (whole : List Token → Prop) :
    List Misreading → List Token → Prop where
  /-- The next statement is read as a part of the one with the gap. -/
  | goesOn {new : List Misreading} {onward : List Token} (refused : OneRefusal new) (remains : whole onward) :
      Repair stop behind clauses whole new onward
  /-- Reading fails at the gap, or somewhere behind it if that is in clauses. It goes on where a statement may begin. -/
  | givesUp {new : List Misreading} {tail : List Token} {fault : SyntaxFault} (refused : OneRefusal new)
      (inside : tail <:+ behind) (place : clauses ∨ tail = behind ∧ new = []) (other : fault ≠ .assignmentTarget) :
      Repair stop behind clauses whole (⟨tail.headD stop, fault⟩ :: new) (skip tail)

/-- How reading goes on behind a gap between `xs` and `ys`. The tokens `before` stand before the declaration with the gap.
    Put a placeholder in its place and the same is read, except that nothing is recorded about the gap. -/
structure Mends (fits : Nat → Prop) (missing : Token) (c : Cursor) (xs ys rest : List Token) (read : Cursor → Ending)
    (whole : List Token → Prop) (before : List Token) (found : List Misreading) (onward : List Token) : Prop where
  damaged : ∃ damaged ended stmt, xs = before ++ damaged ∧ ended <+: ys ∧
    SpellsStmt fits (.declaration stmt) (damaged ++ missing :: ended)
  repair : Repair c.stop (ys ++ rest) (InClauses fits missing xs ys)
    (fun onward => ∃ zs, onward = zs ++ rest ∧ whole (before ++ (placeholder ++ zs))) found onward
  beside : ∀ c' : Cursor, c'.stop = c.stop → c'.pending = before ++ (placeholder ++ onward) →
    (read c).Beside (found ++ c.misreadings) c'.misreadings (read c')

def Mended (fits : Nat → Prop) (missing : Token) (c : Cursor) (xs ys rest : List Token) (read : Cursor → Ending)
    (whole : List Token → Prop) : Prop :=
  ∃ before found onward, Mends fits missing c xs ys rest read whole before found onward

theorem Repair.mono {stop : Token} {behind onward : List Token} {clauses clauses' : Prop} {whole whole' : List Token → Prop}
    {found : List Misreading} (repair : Repair stop behind clauses whole found onward) (placed : clauses → clauses')
    (weaker : ∀ onward, whole onward → whole' onward) : Repair stop behind clauses' whole' found onward := by
  cases repair with
  | goesOn refused remains => exact .goesOn refused (weaker _ remains)
  | givesUp refused inside place other => exact .givesUp refused inside (place.imp_left placed) other

section

variable {read inner : Cursor → Ending} {whole whole₁ : List Token → Prop} {kinds : List Kind}

theorem apart_placeholder {before damaged onward zs : List Token} (same : xs = before ++ damaged)
    (apart : Apart kinds (xs ++ zs)) (other : .keyword .nil_ ∉ kinds) : Apart kinds (before ++ (placeholder ++ onward)) := by
  subst same
  cases before with
  | nil => exact .cons _ other
  | cons token before => exact .cons _ (apart token rfl)

/-- A reader that reads `front`, then the part with the gap, and then what follows without a look at what was read. -/
theorem Mended.within (front tail : List Token) (after : Ending → Ending)
    (mended : Mended fits missing c₁ xs ys (tail ++ rest) inner whole₁)
    (arrived : c.Arrives c₁ (xs ++ (ys ++ (tail ++ rest))) []) (same : read c = after (inner c₁))
    (apart : Apart kinds (xs ++ (ys ++ (tail ++ rest)))) (other : .keyword .nil_ ∉ kinds)
    (enters : ∀ {c : Cursor} {us : List Token}, c.pending = front ++ us → us ≠ [] → Apart kinds us →
      ∃ c₁, c.Arrives c₁ us [] ∧ read c = after (inner c₁))
    (respects : ∀ {ms ms' : List Misreading} {e e' : Ending}, e.Beside ms ms' e' → (after e).Beside ms ms' (after e'))
    (wholes : ∀ {us : List Token}, whole₁ us → whole (front ++ (us ++ tail))) :
    Mended fits missing c (front ++ xs) (ys ++ tail) rest read whole := by
  obtain ⟨before, found, onward, ⟨damaged, ended, stmt, split, inside, spelled⟩, repair, beside⟩ := mended
  refine ⟨front ++ before, found, onward, ⟨damaged, ended, stmt, ?_, ?_, spelled⟩, ?_, fun c' stop front' => ?_⟩
  · rw [split, List.append_assoc]
  · exact inside.trans (List.prefix_append _ _)
  · rw [← arrived.stop, List.append_assoc]
    refine repair.mono (·.within front tail) fun onward remains => ?_
    obtain ⟨zs, rfl, spelled'⟩ := remains
    refine ⟨zs ++ tail, (List.append_assoc ..).symm, ?_⟩
    have again := wholes spelled'
    simpa only [List.append_assoc] using again
  · rw [List.append_assoc] at front'
    obtain ⟨c₁', arrived', same'⟩ := enters front' (by simp [placeholder]) (apart_placeholder split apart other)
    have nested := beside c₁' (arrived'.stop.trans (stop.trans arrived.stop.symm)) arrived'.pending
    rw [arrived.misreadings, arrived'.misreadings, List.nil_append, List.nil_append] at nested
    rw [same, same']
    exact respects nested

theorem Mended.behind (front : List Token) (mended : Mended fits missing c₁ xs ys rest inner whole₁)
    (arrived : c.Arrives c₁ (xs ++ (ys ++ rest)) []) (same : read c = inner c₁) (apart : Apart kinds (xs ++ (ys ++ rest)))
    (other : .keyword .nil_ ∉ kinds)
    (enters : ∀ {c : Cursor} {us : List Token}, c.pending = front ++ us → Apart kinds us →
      ∃ c₁, c.Arrives c₁ us [] ∧ read c = inner c₁)
    (wholes : ∀ {us : List Token}, whole₁ us → whole (front ++ us)) :
    Mended fits missing c (front ++ xs) ys rest read whole := by
  have within : Mended fits missing c (front ++ xs) (ys ++ []) rest read whole :=
    Mended.within front [] id mended arrived same apart other (fun front _ => enters front) (fun beside => beside)
      fun spelled => by simpa using wholes spelled
  rwa [List.append_nil] at within

end

/-- A loop over declarations. -/
structure Loop (read : Cursor → Ending) : Prop where
  more : ∀ {c : Cursor}, c.pending ≠ [] → c.Lacks [.rightBrace] → read c = read (declarationReading c).ending.recovered
  beside : ∀ {ms ms' : List Misreading} {c c' : Cursor}, c.Beside (.repeating ms ms') c' → (read c).Beside ms ms' (read c')

theorem loop_block : Loop fun c => (block c).ending := ⟨block_more, block_beside⟩

theorem loop_declarations : Loop fun c => ⟨none, (declarations c).2⟩ where
  more pending _ := congrArg (Ending.mk none) (declarations_more pending)
  beside cursors := ⟨rfl, (declarations_paired cursors).2.2⟩

/-- Reading fails where the semicolon is missed or goes on to a known place, or it fails in clauses. -/
def Breaks (fits : Nat → Prop) (missing : Token) (e : Ending) (c : Cursor) (xs ys rest : List Token)
    (next? : Option (List Token)) : Prop :=
  e.Lapses c (ys ++ rest) next? ∨ InClauses fits missing xs ys ∧ e.Strays c (ys ++ rest)

section

variable {e : Ending} {next? : Option (List Token)} {whole : List Token → Prop}

theorem Ending.Stumbles.repair {tail : List Token} {new : List Misreading} {clauses : Prop}
    (stumbles : e.Stumbles c tail new)
    (refused : OneRefusal new) (inside : tail <:+ rest) (place : clauses ∨ tail = rest ∧ new = []) :
    ∃ found onward, Repair c.stop rest clauses whole found onward ∧ c.Arrives e.recovered onward found := by
  obtain ⟨c₁, fault, other, rfl, arrived⟩ := stumbles
  have peek : c₁.peek = tail.headD c.stop := by rw [Cursor.peek, arrived.stop, arrived.pending]
  rw [peek]
  refine ⟨_, _, .givesUp refused inside place other, ?_, arrived.stop, congrArg _ arrived.misreadings⟩
  exact congrArg skip arrived.pending

theorem Breaks.repair (breaks : Breaks fits missing e c xs ys rest next?) (remains : ∀ onward ∈ next?, whole onward) :
    ∃ found onward, Repair c.stop (ys ++ rest) (InClauses fits missing xs ys) whole found onward ∧
      c.Arrives e.recovered onward found := by
  rcases breaks with (stumbles | ⟨onward, known, new, refused, reads⟩) | ⟨placed, tail, new, inside, refused, stumbles⟩
  · exact stumbles.repair (.inl rfl) (List.suffix_refl _) (.inr ⟨rfl, rfl⟩)
  · obtain ⟨c₁, rfl, arrived⟩ := reads
    exact ⟨_, _, .goesOn refused (remains onward known), arrived⟩
  · exact stumbles.repair refused inside (.inl placed)

theorem Breaks.behind (breaks : Breaks fits missing e c₁ xs ys rest next?) (arrived : c.Arrives c₁ ts [])
    (front : List Token) :
    Breaks fits missing e c (front ++ xs) ys rest next? := by
  rcases breaks with lapses | ⟨placed, strays⟩
  · exact .inl (lapses.after arrived)
  · have placed' := placed.within front []
    rw [List.append_nil] at placed'
    exact .inr ⟨placed', strays.after arrived⟩

theorem Breaks.before {tail : List Token} (breaks : Breaks fits missing e c xs ys (tail ++ rest) none) :
    Breaks fits missing e c xs (ys ++ tail) rest next? := by
  unfold Breaks
  rw [List.append_assoc]
  rcases breaks with (stumbles | ⟨_, known, _⟩) | ⟨placed, strays⟩
  · exact .inl (.inl stumbles)
  · cases known
  · exact .inr ⟨placed.within [] tail, strays⟩

end

theorem Loop.mended {read : Cursor → Ending} (loop : Loop read) (limits : Limits fits) {stmt : Stmt} {us : List Token}
    {next? : Option (List Token)} {whole : List Token → Prop}
    (spelled : SpellsStmt fits (.declaration stmt) (xs ++ missing :: ys)) (pending : c.pending ≠ [])
    (plain : c.Lacks [.rightBrace]) (breaks : Breaks fits missing (declarationReading c).ending c xs ys (us ++ rest) next?)
    (remains : ∀ onward ∈ next?, ∃ zs, onward = zs ++ rest ∧ whole (placeholder ++ zs)) :
    Mended fits missing c xs (ys ++ us) rest read whole := by
  obtain ⟨found, onward, repair, arrived⟩ := breaks.repair remains
  refine ⟨[], found, onward, ⟨xs, ys, stmt, rfl, List.prefix_append _ _, spelled⟩, ?_, fun c' stop front => ?_⟩
  · rw [List.append_assoc]
    exact repair.mono (·.within [] us) fun _ => id
  · have plain' : c'.Lacks [.rightBrace] := Cursor.lacks_of_pending front (by decide)
    obtain ⟨c₁, same, arrived'⟩ := placeholder_reads limits front
    rw [loop.more pending plain, loop.more (by simp [front, placeholder]) plain', same]
    refine loop.beside (Cursor.beside_repeating.mpr
      ⟨arrived.pending.trans arrived'.pending.symm, ?_, [], arrived.misreadings, arrived'.misreadings⟩)
    exact arrived.stop.trans (stop.symm.trans arrived'.stop.symm)

theorem Apart.of_nil : Apart [] rest := by simp [Apart]

theorem Apart.gap {kinds : List Kind} (kind : missing.kind = .semicolon)
    (apart : Apart (.semicolon :: kinds) (xs ++ missing :: ys)) (rest : List Token) :
    xs ≠ [] ∧ Apart kinds (xs ++ rest) := by
  cases xs with
  | nil => exact absurd (List.mem_cons.mpr (.inl kind)) (apart missing rfl)
  | cons token xs => exact ⟨by simp, .cons _ fun among => apart token rfl (List.mem_cons_of_mem _ among)⟩

theorem SpellsStmt.apart_gap {form : StmtForm} {kinds : List Kind} (kind : missing.kind = .semicolon)
    (spelled : SpellsStmt fits form (xs ++ missing :: ys)) (starts : List Kind) (begins : form.starts = starts)
    (some : starts ≠ []) (other : ∀ kind ∈ .semicolon :: kinds, kind ∉ starts) (rest : List Token) :
    xs ≠ [] ∧ Apart kinds (xs ++ rest) := by
  have apart := spelled.apart starts begins some other []
  rw [List.append_nil] at apart
  exact apart.gap kind rest

theorem SpellsStmt.declarations_apart_gap {program : List Stmt} (kind : missing.kind = .semicolon)
    (spelled : SpellsStmt fits (.declarations program) (xs ++ missing :: ys)) (rest : List Token) :
    Apart [.keyword .else_] (xs ++ rest) := by
  have apart : Apart [.semicolon, .keyword .else_] (xs ++ missing :: ys) := by
    generalize whole : xs ++ missing :: ys = tokens at spelled
    cases spelled with
    | noDeclarations => simp at whole
    | moreDeclarations first others =>
      exact first.apart (declarationStarts ++ (statementStarts ++ expressionStarts)) rfl (by decide) (by decide) _
  exact (apart.gap kind rest).2

theorem SpellsStmt.expressed_or {stmt : Stmt} {ts : List Token} (spelled : SpellsStmt fits (.declaration stmt) ts) :
    (∃ stmt, SpellsStmt fits (.expressionStatement stmt) ts) ∨ ∃ token us, ts = token :: us ∧ token.kind ∈ halts := by
  cases spelled with
  | classDeclared front | functionDeclared front => exact .inr ⟨_, _, rfl, by rw [front]; decide⟩
  | varDeclared declared =>
    cases declared with
    | varDeclaration front => exact .inr ⟨_, _, rfl, by rw [front]; decide⟩
  | stated statement =>
    cases statement with
    | expressed value => exact .inl ⟨_, value⟩
    | braced block =>
      cases block with
      | block opened => exact .inr ⟨_, _, rfl, by rw [opened]; decide⟩
    | returning front => exact .inr ⟨_, _, rfl, by rw [front.is]; decide⟩
    | forLoop front | ifThen front | ifThenElse front | printing front | whileLoop front =>
      exact .inr ⟨_, _, rfl, by rw [front]; decide⟩

theorem SpellsStmt.follows {program : List Stmt} {us : List Token} (spelled : SpellsStmt fits (.declarations program) us)
    (closing : ∀ token ∈ rest.head?, token.kind = .rightBrace) :
    ∃ next?, Follows fits (us ++ rest) next? ∧ ∀ onward ∈ next?, Apart [.keyword .else_] onward ∧
      ∃ program zs, onward = zs ++ rest ∧ SpellsStmt fits (.declarations program) zs := by
  have halting : ∀ token ∈ rest.head?, token.kind ∈ halts := fun token front => by
    rw [closing token front]
    decide
  have alone : Apart [.keyword .else_] rest := fun token front => by
    rw [closing token front]
    decide
  cases spelled with
  | noDeclarations => exact ⟨none, .halt halting, by simp⟩
  | @moreDeclarations _ program _ zs first others =>
    rcases first.expressed_or with ⟨_, stated⟩ | ⟨token, ts, rfl, kind⟩
    · cases stated with
      | expressionStatement value ended =>
        refine ⟨some (zs ++ rest), ?_, ?_⟩
        · have follows : Follows fits _ (some (zs ++ rest)) := .value (.present value) ended
          simpa using follows
        · rintro _ ⟨⟩
          exact ⟨others.declarations_apart alone, program, zs, rfl, others⟩
    · refine ⟨none, .halt ?_, by simp⟩
      rintro _ ⟨⟩
      exact kind

section

variable (limits : Limits fits) {word name opening closing : Token} {ts us vs : List Token}

theorem Cursor.Arrives.enter (first : c.Arrives c₁ ts []) {c₂ : Cursor} (second : c₁.Arrives c₂ us []) :
    c.Arrives c₂ us [] :=
  first.trans second

theorem block_enters (opened : opening.kind = .leftBrace) (front : c.pending = opening :: us) :
    ∃ c₁, c.Arrives c₁ us [] ∧ (statement c).ending = (block c₁).ending := by
  obtain ⟨taken, arrived⟩ := Cursor.arrives_take front
  exact ⟨_, arrived, statement_block (opened ▸ taken)⟩

theorem fun_enters (keyword : word.kind = .keyword .fun_) (front : c.pending = word :: us) :
    ∃ c₁, c.Arrives c₁ us [] ∧ (declarationReading c).ending = (function .function c₁).ending := by
  obtain ⟨taken, arrived⟩ := Cursor.arrives_take front
  exact ⟨_, arrived, declaration_function (keyword ▸ taken)⟩

include limits

theorem for_enters {clauses : ForClauses} (keyword : word.kind = .keyword .for_)
    (head : SpellsStmt fits (.forClauses clauses) ts) (front : c.pending = word :: (ts ++ us)) :
    ∃ c₁, c.Arrives c₁ us [] ∧ (statement c).ending = (statement c₁).ending := by
  obtain ⟨taken, arrived⟩ := Cursor.arrives_take front
  obtain ⟨c₂, same, arrived₂⟩ := head.reads_forClauses limits arrived.pending
  refine ⟨c₂, arrived.enter arrived₂, ?_⟩
  rw [statement_for (keyword ▸ taken), same, Ending.andThen_none]

theorem if_enters {condition : Expr} (keyword : word.kind = .keyword .if_) (opened : opening.kind = .leftParen)
    (head : SpellsExpr fits (.expression condition) ts) (closed : closing.kind = .rightParen)
    (front : c.pending = word :: opening :: (ts ++ closing :: us)) :
    ∃ c₁, c.Arrives c₁ us [] ∧ (statement c).ending = (statement c₁).ending.andThen elseEnding := by
  obtain ⟨taken, arrived⟩ := Cursor.arrives_take front
  obtain ⟨c₂, same₂, arrived₂⟩ := expect_reads arrived.pending opened .ifOpening
  obtain ⟨c₃, same₃, arrived₃⟩ := head.reads limits arrived₂.pending (.of_kind _ closed rfl)
  obtain ⟨c₄, same₄, arrived₄⟩ := expect_reads arrived₃.pending closed .ifClosing
  refine ⟨c₄, ((arrived.enter arrived₂).enter arrived₃).enter arrived₄, ?_⟩
  rw [statement_if (keyword ▸ taken), same₂, Ending.andThen_none, same₃, Ending.andThen_none, same₄, Ending.andThen_none]

theorem else_enters {condition : Expr} {thenBranch : Stmt} {else_ : Token} (keyword : word.kind = .keyword .if_)
    (opened : opening.kind = .leftParen) (head : SpellsExpr fits (.expression condition) ts)
    (closed : closing.kind = .rightParen) (first : SpellsStmt fits (.statement thenBranch false) vs)
    (otherwise : else_.kind = .keyword .else_)
    (front : c.pending = word :: opening :: (ts ++ closing :: (vs ++ else_ :: us))) :
    ∃ c₁, c.Arrives c₁ us [] ∧ (statement c).ending = (statement c₁).ending := by
  obtain ⟨c₁, arrived, same⟩ := if_enters limits keyword opened head closed front
  obtain ⟨c₂, same₂, arrived₂⟩ := first.reads_statement limits arrived.pending (by simp)
  obtain ⟨taken, arrived₃⟩ := Cursor.arrives_take arrived₂.pending
  refine ⟨_, (arrived.enter arrived₂).enter arrived₃, ?_⟩
  rw [same, same₂, Ending.andThen_none, elseEnding_some (otherwise ▸ taken)]

theorem while_enters {condition : Expr} (keyword : word.kind = .keyword .while_) (opened : opening.kind = .leftParen)
    (head : SpellsExpr fits (.expression condition) ts) (closed : closing.kind = .rightParen)
    (front : c.pending = word :: opening :: (ts ++ closing :: us)) :
    ∃ c₁, c.Arrives c₁ us [] ∧ (statement c).ending = (statement c₁).ending := by
  obtain ⟨taken, arrived⟩ := Cursor.arrives_take front
  obtain ⟨c₂, same₂, arrived₂⟩ := expect_reads arrived.pending opened .whileOpening
  obtain ⟨c₃, same₃, arrived₃⟩ := head.reads limits arrived₂.pending (.of_kind _ closed rfl)
  obtain ⟨c₄, same₄, arrived₄⟩ := expect_reads arrived₃.pending closed .whileClosing
  refine ⟨c₄, ((arrived.enter arrived₂).enter arrived₃).enter arrived₄, ?_⟩
  rw [statement_while (keyword ▸ taken), same₂, Ending.andThen_none, same₃, Ending.andThen_none, same₄, Ending.andThen_none]

theorem function_enters {params : List Token} {brace : Token} (role : FunctionRole) (naming : name.kind = .identifier)
    (opened : opening.kind = .leftParen) (entries : SpellsStmt fits (.parameters params) ts)
    (closed : closing.kind = .rightParen) (begun : brace.kind = .leftBrace)
    (front : c.pending = name :: opening :: (ts ++ closing :: brace :: us)) :
    ∃ c₁, c.Arrives c₁ us [] ∧ (function role c).ending = (block c₁).ending := by
  obtain ⟨c₁, same₁, arrived₁⟩ := expect_reads front naming (.functionName role)
  obtain ⟨c₂, same₂, arrived₂⟩ := expect_reads arrived₁.pending opened (.parametersOpening role)
  obtain ⟨c₃, same₃, arrived₃⟩ := entries.reads_parameters limits arrived₂.pending closed
  obtain ⟨c₄, same₄, arrived₄⟩ := expect_reads arrived₃.pending closed .parametersClosing
  obtain ⟨c₅, same₅, arrived₅⟩ := expect_reads arrived₄.pending begun (.bodyOpening role)
  refine ⟨c₅, (((arrived₁.enter arrived₂).enter arrived₃).enter arrived₄).enter arrived₅, ?_⟩
  rw [function_ending, same₁, Ending.andThen_none, same₂, Ending.andThen_none, same₃, Ending.andThen_none, same₄,
    Ending.andThen_none, same₅, Ending.andThen_none]

theorem class_enters {superclass? : Option Expr} {brace : Token} (keyword : word.kind = .keyword .class_)
    (naming : name.kind = .identifier) (extended : SpellsStmt fits (.superclass superclass?) ts)
    (begun : brace.kind = .leftBrace) (front : c.pending = word :: name :: (ts ++ brace :: us)) :
    ∃ c₁, c.Arrives c₁ us [] ∧ (declarationReading c).ending =
      (methods c₁).ending.andThen fun c₂ => (c₂.expect .rightBrace .classClosing).ending := by
  obtain ⟨taken, arrived⟩ := Cursor.arrives_take front
  obtain ⟨c₁, same₁, arrived₁⟩ := expect_reads arrived.pending naming .className
  obtain ⟨c₂, same₂, arrived₂⟩ := extended.reads_superclass limits arrived₁.pending begun
  obtain ⟨c₃, same₃, arrived₃⟩ := expect_reads arrived₂.pending begun .classOpening
  refine ⟨c₃, ((arrived.enter arrived₁).enter arrived₂).enter arrived₃, ?_⟩
  rw [declaration_class (keyword ▸ taken), classDeclaration_ending, same₁, Ending.andThen_none, same₂, Ending.andThen_none,
    same₃, Ending.andThen_none]

theorem methods_enters {method : FunctionDecl} (first : SpellsStmt fits (.function method) ts)
    (front : c.pending = ts ++ us) : ∃ c₁, c.Arrives c₁ us [] ∧ (methods c).ending = (methods c₁).ending := by
  have plain : c.Lacks [.rightBrace] := (first.apart [.identifier] rfl (by decide) (by decide) us).lacks front
  obtain ⟨token, others, rfl, -⟩ := first.starts (by simp [StmtForm.starts])
  obtain ⟨c₁, same, arrived⟩ := first.reads_function limits .method front
  refine ⟨c₁, arrived, ?_⟩
  rw [methods_more (by simp [front]) plain, same, Ending.andThen_none]

theorem Loop.enters {read : Cursor → Ending} (loop : Loop read) {stmt : Stmt}
    (first : SpellsStmt fits (.declaration stmt) ts) (front : c.pending = ts ++ us) (alone : Apart [.keyword .else_] us) :
    ∃ c₁, c.Arrives c₁ us [] ∧ read c = read c₁ := by
  have plain : c.Lacks [.rightBrace] :=
    (first.apart (declarationStarts ++ (statementStarts ++ expressionStarts)) rfl (by decide) (by decide) us).lacks front
  obtain ⟨token, others, rfl, -⟩ := first.starts (by simp [StmtForm.starts, declarationStarts])
  obtain ⟨c₁, same, arrived⟩ := first.reads_declaration limits front alone
  refine ⟨c₁, arrived, ?_⟩
  rw [loop.more (by simp [front]) plain, same]
  rfl

end

def Broken (fits : Nat → Prop) (missing : Token) (c : Cursor) (xs ys rest : List Token) (next? : Option (List Token))
    (read : Cursor → Ending) (whole : List Token → Prop) : Prop :=
  Breaks fits missing (read c) c xs ys rest next? ∨ Mended fits missing c xs ys rest read whole

def StmtForm.Gapped (fits : Nat → Prop) (missing : Token) (xs ys : List Token) : StmtForm → Prop
  | .varDeclaration _ =>
    ∀ (c : Cursor) rest next?, c.pending = xs ++ (ys ++ rest) → Follows fits rest next? →
      (declarationReading c).ending.Lapses c (ys ++ rest) next?
  | .expressionStatement _ =>
    ∀ (c : Cursor) rest next?, c.pending = xs ++ (ys ++ rest) → Follows fits rest next? →
      (Grammar.expressionStatement c).ending.Lapses c (ys ++ rest) next?
  | .declaration _ =>
    ∀ (c : Cursor) rest next?, c.pending = xs ++ (ys ++ rest) → Follows fits rest next? →
      (∀ onward ∈ next?, Apart [.keyword .else_] onward) →
      Broken fits missing c xs ys rest next? (fun c => (declarationReading c).ending)
        fun ts => ∃ stmt, SpellsStmt fits (.declaration stmt) ts
  | .methods _ =>
    ∀ (c : Cursor) brace rest, c.pending = xs ++ (ys ++ brace :: rest) → brace.kind = .rightBrace →
      Mended fits missing c xs ys (brace :: rest) (fun c => (Grammar.methods c).ending)
        fun ts => ∃ ds, SpellsStmt fits (.methods ds) ts
  | .function _ =>
    ∀ (c : Cursor) role rest, c.pending = xs ++ (ys ++ rest) →
      Mended fits missing c xs ys rest (fun c => (Grammar.function role c).ending)
        fun ts => ∃ d, SpellsStmt fits (.function d) ts
  | .statement _ dangling =>
    ∀ (c : Cursor) rest next?, c.pending = xs ++ (ys ++ rest) → Follows fits rest next? →
      (∀ onward ∈ next?, Apart [.keyword .else_] onward) →
      Broken fits missing c xs ys rest next? (fun c => (Grammar.statement c).ending)
        fun ts => ∃ stmt, SpellsStmt fits (.statement stmt dangling) ts
  -- A block is read behind its opening brace.
  | .block _ =>
    ∃ opening us, xs = opening :: us ∧ opening.kind = .leftBrace ∧
      ∀ (c : Cursor) rest, c.pending = us ++ (ys ++ rest) →
        Mended fits missing c us ys rest (fun c => (Grammar.block c).ending)
          fun ts => ∃ body, SpellsStmt fits (.block body) (opening :: ts)
  | .declarations _ =>
    ∀ (read : Cursor → Ending), Loop read → ∀ (c : Cursor) rest, c.pending = xs ++ (ys ++ rest) →
      (∀ token ∈ rest.head?, token.kind = .rightBrace) →
      Mended fits missing c xs ys rest read fun ts => ∃ program, SpellsStmt fits (.declarations program) ts
  | _ => True

/-- Any of the semicolons may be the missing one. -/
def Gaps (fits : Nat → Prop) (missing : Token) (form : StmtForm) (ts : List Token) : Prop :=
  ∀ xs ys, ts = xs ++ missing :: ys → form.Gapped fits missing xs ys

section

variable {next? : Option (List Token)} {read inner : Cursor → Ending} {whole whole₁ : List Token → Prop} {kinds : List Kind}

theorem Broken.behind (front : List Token)
    (broken : ∀ {c₁ : Cursor}, c₁.pending = xs ++ (ys ++ rest) → Broken fits missing c₁ xs ys rest next? inner whole₁)
    (pending : c.pending = front ++ xs ++ (ys ++ rest)) (apart : Apart kinds (xs ++ (ys ++ rest)))
    (other : .keyword .nil_ ∉ kinds)
    (enters : ∀ {c : Cursor} {us : List Token}, c.pending = front ++ us → Apart kinds us →
      ∃ c₁, c.Arrives c₁ us [] ∧ read c = inner c₁)
    (wholes : ∀ {us : List Token}, whole₁ us → whole (front ++ us)) :
    Broken fits missing c (front ++ xs) ys rest next? read whole := by
  rw [List.append_assoc] at pending
  obtain ⟨c₁, arrived, same⟩ := enters pending apart
  rcases broken arrived.pending with breaks | mended
  · exact .inl (same ▸ breaks.behind arrived front)
  · exact .inr (mended.behind front arrived same apart other enters wholes)

/-- An `else` is not looked for behind a failure, and there is none behind a statement that was read. -/
theorem Breaks.andThen_else {e : Ending} (breaks : Breaks fits missing e c xs ys rest next?)
    (alone : ∀ onward ∈ next?, Apart [.keyword .else_] onward) :
    Breaks fits missing (e.andThen elseEnding) c xs ys rest next? := by
  rcases breaks with (stumbles | ⟨onward, known, new, refused, reads⟩) | ⟨placed, tail, new, inside, refused, stumbles⟩
  · exact .inl (.inl (stumbles.andThen _))
  · have reads' : (e.andThen elseEnding).Reads c onward new := reads.andThen_reads fun front =>
      ⟨_, elseEnding_none ((alone onward known).lacks front), front, rfl, rfl⟩
    exact .inl (.inr ⟨onward, known, new, refused, reads'⟩)
  · exact .inr ⟨placed, tail, new, inside, refused, stumbles.andThen _⟩

end

section

variable (limits : Limits fits) (kind : missing.kind = .semicolon) {word name named opening closing semicolon : Token}
  {stmt : Stmt} {expr : Expr} {dangling : Bool} {ts us vs : List Token}

theorem gaps_braced {body : List Stmt} (gaps : Gaps fits missing (.block body) ts) :
    Gaps fits missing (.statement (.block body) false) ts := by
  intro xs ys split c rest next? pending _ _
  obtain ⟨opening, xs, rfl, opened, inside⟩ := gaps xs ys split
  obtain ⟨c₁, arrived, same⟩ := block_enters opened pending
  have mended := inside c₁ rest arrived.pending
  refine .inr (mended.behind [opening] arrived same .of_nil (by simp) (fun front _ => block_enters opened front) ?_)
  rintro us ⟨body, spelled⟩
  exact ⟨_, .braced spelled⟩

include kind

theorem gaps_stated (statement : SpellsStmt fits (.statement stmt dangling) ts)
    (gaps : Gaps fits missing (.statement stmt dangling) ts) : Gaps fits missing (.declaration stmt) ts := by
  intro xs ys split c rest next? pending follows alone
  subst split
  have apart : Apart declarationStarts (xs ++ (ys ++ rest)) :=
    (statement.apart_gap kind (statementStarts ++ expressionStarts) rfl (by decide) (by decide) _).2
  refine Broken.behind [] (gaps xs ys rfl _ rest next? · follows alone) pending apart (by decide) ?_ ?_
  · intro c us front apart
    exact ⟨c, ⟨front, rfl, rfl⟩, declaration_statement (apart.lacks front)⟩
  · rintro us ⟨stmt, spelled⟩
    exact ⟨stmt, .stated spelled⟩

theorem gaps_functionDeclared {d : FunctionDecl} (keyword : word.kind = .keyword .fun_)
    (gaps : Gaps fits missing (.function d) ts) : Gaps fits missing (.declaration (.function d)) (word :: ts) := by
  intro xs ys split c rest next? pending _ _
  obtain ⟨xs, rfl, inside⟩ := split_behind kind (.cons keyword (by decide) .nil) (show [word] ++ ts = _ from split)
  obtain ⟨c₁, arrived, same⟩ := fun_enters keyword pending
  have mended := gaps xs ys inside c₁ .function rest arrived.pending
  refine .inr (mended.behind [word] arrived same .of_nil (by simp) (fun front _ => fun_enters keyword front) ?_)
  rintro us ⟨d, spelled⟩
  exact ⟨_, .functionDeclared keyword spelled⟩

theorem gaps_block {body : List Stmt} (opened : opening.kind = .leftBrace)
    (gaps : Gaps fits missing (.declarations body) ts) (closed : closing.kind = .rightBrace) :
    Gaps fits missing (.block body) (opening :: (ts ++ [closing])) := by
  intro xs ys split
  obtain ⟨xs, rfl, inside⟩ :=
    split_behind kind (.cons opened (by decide) .nil) (show [opening] ++ (ts ++ [closing]) = _ from split)
  refine ⟨opening, xs, rfl, opened, fun c rest pending => ?_⟩
  rcases split_append inside with ⟨ys, rfl, rfl⟩ | ⟨xs, rfl, behind⟩
  · have arrived : c.Arrives c (xs ++ (ys ++ ([closing] ++ rest))) [] := ⟨by simpa using pending, rfl, rfl⟩
    have mended := gaps xs ys rfl _ loop_block c ([closing] ++ rest) arrived.pending (by simp [closed])
    refine Mended.within [] [closing] id mended arrived rfl .of_nil (by simp) ?_ (fun beside => beside) ?_
    · intro c us front _ _
      exact ⟨c, ⟨front, rfl, rfl⟩, rfl⟩
    · rintro us ⟨body, spelled⟩
      exact ⟨body, .block opened spelled closed⟩
  · obtain ⟨-, rfl, -⟩ := split_last kind .nil behind
    simp [closed] at kind

include limits

theorem gaps_function {params : List Token} {body : List Stmt} (naming : Stands name [.identifier] named)
    (opened : opening.kind = .leftParen) (entries : SpellsStmt fits (.parameters params) ts)
    (closed : closing.kind = .rightParen) (gaps : Gaps fits missing (.block body) us) :
    Gaps fits missing (.function (.mk named params body)) (name :: opening :: (ts ++ closing :: us)) := by
  intro xs ys split c role rest pending
  have plain : Plain (name :: opening :: (ts ++ [closing])) :=
    .stands naming (by decide) (.cons opened (by decide) ((entries.plain rfl).append (.cons closed (by decide) .nil)))
  obtain ⟨xs, rfl, inside⟩ := split_behind kind plain (show _ ++ us = _ by simpa using split)
  obtain ⟨brace, xs, rfl, begun, inner⟩ := gaps xs ys inside
  have enters {c : Cursor} {us : List Token} (front : c.pending = name :: opening :: (ts ++ [closing, brace]) ++ us)
      (_ : Apart [] us) : ∃ c₁, c.Arrives c₁ us [] ∧ (Grammar.function role c).ending = (Grammar.block c₁).ending :=
    function_enters limits role naming.is opened entries closed begun (by simpa using front)
  have header : name :: opening :: (ts ++ [closing]) ++ brace :: xs = name :: opening :: (ts ++ [closing, brace]) ++ xs := by
    simp
  rw [header] at pending ⊢
  rw [List.append_assoc] at pending
  obtain ⟨c₁, arrived, same⟩ := enters pending .of_nil
  refine (inner c₁ rest arrived.pending).behind _ arrived same .of_nil (by simp) enters ?_
  rintro us ⟨body, spelled⟩
  exact ⟨_, by simpa using SpellsStmt.function naming opened entries closed spelled⟩

theorem gaps_moreMethods {method : FunctionDecl} {methods : List FunctionDecl}
    (first : SpellsStmt fits (.function method) ts)
    (gaps : Gaps fits missing (.function method) ts) (others : SpellsStmt fits (.methods methods) us)
    (gaps' : Gaps fits missing (.methods methods) us) : Gaps fits missing (.methods (method :: methods)) (ts ++ us) := by
  intro xs ys split c brace rest pending closing
  rcases split_append split with ⟨ys, rfl, rfl⟩ | ⟨xs, rfl, behind⟩
  · have enters {c : Cursor} {us : List Token} (front : c.pending = us) (some : us ≠ []) (apart : Apart [.rightBrace] us) :
        ∃ c₁, c.Arrives c₁ us [] ∧ (Grammar.methods c).ending =
          (Grammar.function .method c₁).ending.andThen fun c₂ => (Grammar.methods c₂).ending :=
      ⟨c, ⟨front, rfl, rfl⟩, methods_more (by rwa [front]) (apart.lacks front)⟩
    obtain ⟨some, apart⟩ : xs ≠ [] ∧ Apart [.rightBrace] (xs ++ (ys ++ (us ++ brace :: rest))) :=
      first.apart_gap kind [.identifier] rfl (by decide) (by decide) _
    obtain ⟨c₁, arrived, same⟩ := enters (by simpa using pending) (by simp [some]) apart
    have mended := gaps xs ys rfl c₁ .method (us ++ brace :: rest) arrived.pending
    refine Mended.within [] us (fun e => e.andThen fun c₂ => (Grammar.methods c₂).ending) mended arrived same apart
      (by decide) enters (fun beside => beside.andThen methods_beside) ?_
    rintro vs ⟨d, spelled⟩
    have more : SpellsStmt fits _ (vs ++ us) := .moreMethods spelled others
    exact ⟨_, more⟩
  · rw [List.append_assoc] at pending
    obtain ⟨c₁, arrived, same⟩ := methods_enters limits first pending
    have mended := gaps' xs ys behind c₁ brace rest arrived.pending closing
    refine mended.behind ts arrived same .of_nil (by simp) (fun front _ => methods_enters limits first front) ?_
    rintro vs ⟨ds, spelled⟩
    exact ⟨_, .moreMethods first spelled⟩

theorem gaps_classDeclared {superclass? : Option Expr} {methods : List FunctionDecl} (keyword : word.kind = .keyword .class_)
    (naming : Stands name [.identifier] named) (extended : SpellsStmt fits (.superclass superclass?) ts)
    (opened : opening.kind = .leftBrace) (gaps : Gaps fits missing (.methods methods) us)
    (closed : closing.kind = .rightBrace) :
    Gaps fits missing (.declaration (.class_ named superclass? methods))
      (word :: name :: (ts ++ opening :: (us ++ [closing]))) := by
  intro xs ys split c rest next? pending _ _
  have plain : Plain (word :: name :: (ts ++ [opening])) :=
    .cons keyword (by decide) (.stands naming (by decide) ((extended.plain rfl).append (.cons opened (by decide) .nil)))
  obtain ⟨xs, rfl, inside⟩ := split_behind kind plain (show _ ++ (us ++ [closing]) = _ by simpa using split)
  rcases split_append inside with ⟨ys, rfl, rfl⟩ | ⟨xs, rfl, behind⟩
  · have enters {c : Cursor} {us : List Token} (front : c.pending = word :: name :: (ts ++ [opening]) ++ us) :=
      class_enters limits keyword naming.is extended opened (show c.pending = _ by simpa using front)
    obtain ⟨c₁, arrived, same⟩ := enters (show c.pending = _ ++ (xs ++ (ys ++ ([closing] ++ rest))) by simpa using pending)
    have mended := gaps xs ys rfl c₁ closing rest arrived.pending closed
    refine .inr (Mended.within _ [closing] (fun e => e.andThen fun c₂ => (c₂.expect .rightBrace .classClosing).ending) mended
      arrived same .of_nil (by simp) (fun front _ _ => enters front) ?_ ?_)
    · exact fun beside => beside.andThen fun cursors => expect_beside cursors .rightBrace (by decide)
    · rintro us ⟨ds, spelled⟩
      exact ⟨_, by simpa using SpellsStmt.classDeclared keyword naming extended opened spelled closed⟩
  · obtain ⟨-, rfl, -⟩ := split_last kind .nil behind
    simp [closed] at kind

theorem gaps_forLoop (one : fits 1) {clauses : ForClauses} (keyword : word.kind = .keyword .for_)
    (head : SpellsStmt fits (.forClauses clauses) ts) (gaps : Gaps fits missing (.statement stmt dangling) us) :
    Gaps fits missing (.statement (clauses.loop stmt) dangling) (word :: (ts ++ us)) := by
  intro xs ys split c rest next? pending follows alone
  obtain ⟨xs, rfl, inside⟩ := split_behind kind (.cons keyword (by decide) .nil) (show [word] ++ (ts ++ us) = _ from split)
  rcases split_append inside with ⟨ys, rfl, rfl⟩ | ⟨xs, rfl, behind⟩
  · rw [List.append_assoc ys] at pending
    obtain ⟨taken, arrived⟩ := Cursor.arrives_take pending
    obtain ⟨tail, new, inside, refused, stumbles⟩ := forClauses_strays limits one kind head arrived.pending
    have failed := (stumbles.andThen fun c => (Grammar.statement c).ending).after arrived
    rw [← statement_for (keyword ▸ taken)] at failed
    rw [← List.append_assoc] at inside
    exact .inl (.inr ⟨⟨clauses, [word], xs, ys, us, rfl, rfl, head⟩, tail, new, inside, refused, failed⟩)
  · refine Broken.behind (word :: ts) (gaps xs ys behind _ rest next? · follows alone) pending .of_nil (by simp)
      (fun front _ => for_enters limits keyword head front) ?_
    rintro vs ⟨stmt, spelled⟩
    exact ⟨_, .forLoop keyword head spelled⟩

theorem gaps_whileLoop (keyword : word.kind = .keyword .while_) (opened : opening.kind = .leftParen)
    (head : SpellsExpr fits (.expression expr) ts) (closed : closing.kind = .rightParen)
    (gaps : Gaps fits missing (.statement stmt dangling) us) :
    Gaps fits missing (.statement (.while_ expr stmt) dangling) (word :: opening :: (ts ++ closing :: us)) := by
  intro xs ys split c rest next? pending follows alone
  have plain : Plain (word :: opening :: (ts ++ [closing])) :=
    .cons keyword (by decide) (.cons opened (by decide) (head.plain.append (.cons closed (by decide) .nil)))
  obtain ⟨xs, rfl, behind⟩ := split_behind kind plain (show _ ++ us = _ by simpa using split)
  refine Broken.behind _ (gaps xs ys behind _ rest next? · follows alone) pending .of_nil (by simp)
    (fun front _ => while_enters limits keyword opened head closed (by simpa using front)) ?_
  rintro vs ⟨stmt, spelled⟩
  exact ⟨_, by simpa using SpellsStmt.whileLoop keyword opened head closed spelled⟩

theorem gaps_ifThen (keyword : word.kind = .keyword .if_) (opened : opening.kind = .leftParen)
    (head : SpellsExpr fits (.expression expr) ts) (closed : closing.kind = .rightParen)
    (gaps : Gaps fits missing (.statement stmt dangling) us) :
    Gaps fits missing (.statement (.ifThen expr stmt) true) (word :: opening :: (ts ++ closing :: us)) := by
  intro xs ys split c rest next? pending follows alone
  have plain : Plain (word :: opening :: (ts ++ [closing])) :=
    .cons keyword (by decide) (.cons opened (by decide) (head.plain.append (.cons closed (by decide) .nil)))
  obtain ⟨xs, rfl, behind⟩ := split_behind kind plain (show _ ++ us = _ by simpa using split)
  have enters {c : Cursor} {us : List Token} (front : c.pending = word :: opening :: (ts ++ [closing]) ++ us) :=
    if_enters limits keyword opened head closed (show c.pending = _ by simpa using front)
  obtain ⟨c₁, arrived, same⟩ := enters (show c.pending = _ ++ (xs ++ (ys ++ rest)) by simpa using pending)
  rcases gaps xs ys behind c₁ rest next? arrived.pending follows alone with breaks | mended
  · have broken := (breaks.andThen_else alone).behind arrived (word :: opening :: (ts ++ [closing]))
    exact .inl (by rwa [← same] at broken)
  · refine .inr ?_
    rw [← List.append_nil ys]
    refine Mended.within _ [] (fun e => e.andThen elseEnding) mended arrived same .of_nil (by simp)
      (fun front _ _ => enters front) (fun beside => beside.andThen elseEnding_beside) ?_
    rintro vs ⟨stmt, spelled⟩
    exact ⟨_, by simpa using SpellsStmt.ifThen keyword opened head closed spelled⟩

theorem gaps_ifThenElse {else_ : Token} {stmt' : Stmt} (keyword : word.kind = .keyword .if_)
    (opened : opening.kind = .leftParen) (head : SpellsExpr fits (.expression expr) ts) (closed : closing.kind = .rightParen)
    (first : SpellsStmt fits (.statement stmt false) us) (gaps : Gaps fits missing (.statement stmt false) us)
    (otherwise : else_.kind = .keyword .else_) (second : SpellsStmt fits (.statement stmt' dangling) vs)
    (gaps' : Gaps fits missing (.statement stmt' dangling) vs) :
    Gaps fits missing (.statement (.ifThenElse expr stmt stmt') dangling)
      (word :: opening :: (ts ++ closing :: (us ++ else_ :: vs))) := by
  intro xs ys split c rest next? pending follows alone
  have plain : Plain (word :: opening :: (ts ++ [closing])) :=
    .cons keyword (by decide) (.cons opened (by decide) (head.plain.append (.cons closed (by decide) .nil)))
  obtain ⟨xs, rfl, inside⟩ := split_behind kind plain (show _ ++ (us ++ else_ :: vs) = _ by simpa using split)
  rcases split_append inside with ⟨ys, rfl, rfl⟩ | ⟨xs, rfl, later⟩
  · have enters {c : Cursor} {us : List Token} (front : c.pending = word :: opening :: (ts ++ [closing]) ++ us) :=
      if_enters limits keyword opened head closed (show c.pending = _ by simpa using front)
    obtain ⟨c₁, arrived, same⟩ := enters (show c.pending = _ ++ (xs ++ (ys ++ (else_ :: vs ++ rest))) by simpa using pending)
    -- No value begins with `else`, so the first branch is not read on into the second.
    have halting : Follows fits (else_ :: vs ++ rest) none := .halt (by simp [otherwise, halts])
    rcases gaps xs ys rfl c₁ _ none arrived.pending halting (by simp) with breaks | mended
    · have broken := (breaks.andThen_else (by simp)).behind arrived (word :: opening :: (ts ++ [closing]))
      rw [← same] at broken
      exact .inl (Breaks.before broken)
    · refine .inr (Mended.within _ (else_ :: vs) (fun e => e.andThen elseEnding) mended arrived same .of_nil (by simp)
        (fun front _ _ => enters front) (fun beside => beside.andThen elseEnding_beside) ?_)
      rintro us ⟨stmt, spelled⟩
      exact ⟨_, by simpa using SpellsStmt.ifThenElse keyword opened head closed spelled otherwise second⟩
  · obtain ⟨xs, rfl, behind⟩ := split_behind kind (.cons otherwise (by decide) .nil) (show [else_] ++ vs = _ from later)
    have header : word :: opening :: (ts ++ [closing]) ++ (us ++ ([else_] ++ xs)) =
        word :: opening :: (ts ++ closing :: (us ++ [else_])) ++ xs := by simp
    rw [header] at pending ⊢
    refine Broken.behind _ (gaps' xs ys behind _ rest next? · follows alone) pending .of_nil (by simp)
      (fun front _ => else_enters limits keyword opened head closed first otherwise (by simpa using front)) ?_
    rintro vs ⟨stmt, spelled⟩
    exact ⟨_, by simpa using SpellsStmt.ifThenElse keyword opened head closed first otherwise spelled⟩

theorem gaps_moreDeclarations {program : List Stmt} (first : SpellsStmt fits (.declaration stmt) ts)
    (gaps : Gaps fits missing (.declaration stmt) ts) (others : SpellsStmt fits (.declarations program) us)
    (gaps' : Gaps fits missing (.declarations program) us) :
    Gaps fits missing (.declarations (stmt :: program)) (ts ++ us) := by
  intro xs ys split read loop c rest pending closing
  rcases split_append split with ⟨ys, rfl, rfl⟩ | ⟨xs, rfl, behind⟩
  · obtain ⟨next?, follows, onwards⟩ := others.follows closing
    obtain ⟨some, apart⟩ : xs ≠ [] ∧ Apart [.rightBrace] (xs ++ (ys ++ (us ++ rest))) :=
      first.apart_gap kind (declarationStarts ++ (statementStarts ++ expressionStarts)) rfl (by decide) (by decide) _
    rw [List.append_assoc] at pending
    have more : c.pending ≠ [] := by simp [pending, some]
    have plain : c.Lacks [.rightBrace] := apart.lacks pending
    rcases gaps xs ys rfl c (us ++ rest) next? pending follows fun onward known => (onwards onward known).1 with
      breaks | mended
    · refine loop.mended limits first more plain breaks fun onward known => ?_
      obtain ⟨-, program, zs, rfl, spelled⟩ := onwards onward known
      exact ⟨zs, rfl, _, .moreDeclarations (.stated .placeholder) spelled⟩
    · have enters {c : Cursor} {us : List Token} (front : c.pending = us) (some : us ≠ []) (apart : Apart [.rightBrace] us) :
          ∃ c₁, c.Arrives c₁ us [] ∧ read c = read (declarationReading c₁).ending.recovered :=
        ⟨c, ⟨front, rfl, rfl⟩, loop.more (by rwa [front]) (apart.lacks front)⟩
      obtain ⟨c₁, arrived, same⟩ := enters pending (by simp [some]) apart
      refine Mended.within [] us (fun e => read e.recovered) mended ⟨pending, rfl, rfl⟩ (loop.more more plain) apart
        (by decide) enters (fun beside => loop.beside beside.recovered) ?_
      rintro vs ⟨stmt, spelled⟩
      have more : SpellsStmt fits _ (vs ++ us) := .moreDeclarations spelled others
      exact ⟨_, more⟩
  · rw [List.append_assoc] at pending
    subst behind
    have alone := others.declarations_apart_gap kind (ys ++ rest)
    obtain ⟨c₁, arrived, same⟩ := loop.enters limits first pending alone
    have mended := gaps' xs ys rfl read loop c₁ rest arrived.pending closing
    refine mended.behind ts arrived same alone (by decide) (fun front alone => loop.enters limits first front alone) ?_
    rintro vs ⟨program, spelled⟩
    exact ⟨_, .moreDeclarations first spelled⟩

theorem SpellsStmt.gaps (one : fits 1) {form : StmtForm} (spelled : SpellsStmt fits form ts) :
    Gaps fits missing form ts := by
  induction spelled with
  | @varDeclaration word name _ semicolon _ ts keyword naming value ended =>
    intro xs ys split c rest next? pending follows
    have plain : Plain (word :: name :: ts) := .cons keyword (by decide) (.stands naming (by decide) (value.plain rfl))
    obtain ⟨rfl, -, rfl⟩ := split_last kind plain split
    obtain ⟨taken, arrived⟩ := Cursor.arrives_take pending
    rw [declaration_var (keyword ▸ taken)]
    exact (varDeclaration_lapses limits one naming.is value follows rfl).after arrived
  | expressionStatement value ended =>
    intro xs ys split c rest next? pending follows
    obtain ⟨rfl, -, rfl⟩ := split_last kind value.plain split
    exact expressionStatement_lapses limits one value follows pending
  | classDeclared keyword naming extended opened _ closed _ ih =>
    exact gaps_classDeclared limits kind keyword naming extended opened ih closed
  | functionDeclared keyword _ ih => exact gaps_functionDeclared kind keyword ih
  | varDeclared _ ih =>
    intro xs ys split c rest next? pending follows _
    exact .inl (.inl (ih xs ys split c rest next? pending follows))
  | stated statement ih => exact gaps_stated kind statement ih
  | noMethods | noDeclarations =>
    intro xs ys split
    simp at split
  | moreMethods first others ih ih' => exact gaps_moreMethods limits kind first ih others ih'
  | function naming opened entries closed _ _ ih => exact gaps_function limits kind naming opened entries closed ih
  | block opened _ closed ih => exact gaps_block kind opened ih closed
  | forLoop keyword head _ _ ih => exact gaps_forLoop limits kind one keyword head ih
  | ifThen keyword opened head closed _ ih => exact gaps_ifThen limits kind keyword opened head closed ih
  | ifThenElse keyword opened head closed first otherwise second ih ih' =>
    exact gaps_ifThenElse limits kind keyword opened head closed first ih otherwise second ih'
  | @printing word semicolon _ ts keyword value ended =>
    intro xs ys split c rest next? pending follows _
    have plain : Plain (word :: ts) := .cons keyword (by decide) value.plain
    obtain ⟨rfl, -, rfl⟩ := split_last kind plain split
    obtain ⟨taken, arrived⟩ := Cursor.arrives_take pending
    refine .inl (.inl ?_)
    dsimp only
    rw [statement_print (keyword ▸ taken)]
    exact (printStatement_lapses limits one value follows rfl).after arrived
  | @returning word _ semicolon _ ts stands given ended =>
    intro xs ys split c rest next? pending follows _
    have plain : Plain (word :: ts) := .stands stands (by decide) (given.plain rfl)
    obtain ⟨rfl, -, rfl⟩ := split_last kind plain split
    obtain ⟨taken, arrived⟩ := Cursor.arrives_take pending
    refine .inl (.inl ?_)
    dsimp only
    rw [statement_return (stands.is ▸ taken)]
    exact (returnStatement_lapses limits one given follows rfl word).after arrived
  | whileLoop keyword opened head closed _ ih => exact gaps_whileLoop limits kind keyword opened head closed ih
  | braced _ ih => exact gaps_braced ih
  | @expressed _ ts value ih =>
    intro xs ys split c rest next? pending follows _
    have plain : c.Lacks statementStarts := by
      subst split
      exact (value.apart_gap kind expressionStarts rfl (by decide) (by decide) _).2.lacks pending
    refine .inl (.inl ?_)
    dsimp only
    rw [statement_expression plain]
    exact ih xs ys split c rest next? pending follows
  | moreDeclarations first others ih ih' => exact gaps_moreDeclarations limits kind first ih others ih'
  | _ =>
    intro xs ys split
    trivial

end

theorem OneRefusal.reverse {new : List Misreading} (refused : OneRefusal new) : new.reverse = new := by
  rcases refused with rfl | ⟨equals, rfl⟩ <;> rfl

structure Cascade (front back : List Token) (missing : Token) (nextId : NodeId) (before tail : List Token)
    (refusals : List Misreading) (fault : SyntaxFault) : Prop where
  damaged : ∃ damaged ended stmt, front = before ++ damaged ∧ ended <+: back.takeWhile (!·.isEof) ∧
    SpellsStmt (Short True) (.declaration stmt) (damaged ++ missing :: ended)
  inside : tail <:+ back.takeWhile (!·.isEof)
  refused : OneRefusal refusals
  place : InClauses (Short True) missing front (back.takeWhile (!·.isEof)) ∨
    tail = back.takeWhile (!·.isEof) ∧ refusals = []
  other : fault ≠ .assignmentTarget
  recorded : (parseProgram (front ++ back) nextId).misreadings =
    refusals ++ ⟨tail.headD (Cursor.ofTokens back nextId).stop, fault⟩ ::
      (parseProgram (before ++ placeholder ++ skip tail ++ [(Cursor.ofTokens back nextId).stop]) nextId).misreadings

section

variable {front back before tail onward : List Token} {nextId : NodeId} {found refusals : List Misreading}

theorem Mends.misreadings {whole : List Token → Prop}
    (mends : Mends fits missing c xs ys rest (fun c => ⟨none, (declarations c).2⟩) whole before found onward)
    (silent : c.misreadings = []) (nextId : NodeId) :
    (declarations c).2.misreadings.reverse =
      found.reverse ++ (declarations ⟨before ++ (placeholder ++ onward), c.stop, nextId, []⟩).2.misreadings.reverse := by
  have beside := mends.beside ⟨before ++ (placeholder ++ onward), c.stop, nextId, []⟩ rfl rfl
  obtain ⟨-, -, new, recorded, recorded'⟩ := Cursor.beside_repeating.mp beside.last
  rw [silent, List.append_nil] at recorded
  rw [recorded, recorded', List.reverse_append, List.append_nil]

theorem isEof_mended (inside : ∀ t ∈ before, t.isEof = false) (behind : tail <:+ back.takeWhile (!·.isEof)) :
    ∀ t ∈ before ++ placeholder ++ skip tail, t.isEof = false := by
  refine List.forall_mem_append.mpr ⟨List.forall_mem_append.mpr ⟨inside, by decide⟩, fun t among => ?_⟩
  exact Cursor.isEof_pending back 0 t (((skip_suffix tail).trans behind).subset among)

theorem Cascade.length_le_one_iff {fault : SyntaxFault}
    (cascade : Cascade front back missing nextId before tail refusals fault) (inside : ∀ t ∈ front, t.isEof = false) :
    (parseProgram (front ++ back) nextId).misreadings.length ≤ 1 ↔
      refusals = [] ∧ ∃ program, SpellsStmt (Short True) (.declarations program) (before ++ placeholder ++ skip tail) := by
  obtain ⟨damaged, ended, stmt, rfl, -⟩ := cascade.damaged
  have body := isEof_mended (List.forall_mem_append.mp inside).1 cascade.inside
  have taken : (before ++ placeholder ++ skip tail ++ [(Cursor.ofTokens back nextId).stop]).takeWhile (!·.isEof) = _ :=
    congrArg Cursor.pending (Cursor.ofTokens_snoc nextId body (Cursor.isEof_stop back nextId))
  have program := parseProgram_silent_iff (before ++ placeholder ++ skip tail ++ [(Cursor.ofTokens back nextId).stop]) nextId
  rw [taken] at program
  rw [cascade.recorded, ← program, List.length_append, List.length_cons, ← List.length_eq_zero_iff,
    ← List.length_eq_zero_iff]
  omega

theorem program_gap (kind : missing.kind = .semicolon) (inside : ∀ t ∈ front, t.isEof = false) {program : List Stmt}
    (spelled : SpellsStmt (Short True) (.declarations program) (front ++ missing :: back.takeWhile (!·.isEof))) :
    OneRefusal (parseProgram (front ++ back) nextId).misreadings ∨
      ∃ before tail refusals fault, Cascade front back missing nextId before tail refusals fault := by
  have limits : Limits (Short True) := fun _ short => short trivial
  have beginning : Cursor.ofTokens (front ++ back) nextId =
      ⟨front ++ back.takeWhile (!·.isEof), (Cursor.ofTokens back nextId).stop, nextId, []⟩ :=
    Cursor.ofTokens_append nextId inside
  obtain ⟨before, found, onward, mends⟩ := spelled.gaps limits kind (fun _ => by decide) front _ rfl _ loop_declarations
    (Cursor.ofTokens (front ++ back) nextId) [] (by rw [beginning, List.append_nil]) (by simp)
  have recorded : (parseProgram (front ++ back) nextId).misreadings = _ := mends.misreadings rfl nextId
  have damaged := mends.damaged
  have repair := mends.repair
  rw [beginning] at recorded repair
  rw [List.append_nil] at repair
  cases repair with
  | goesOn refused remains =>
    obtain ⟨zs, rfl, program, spelled'⟩ := remains
    rw [List.append_nil] at recorded
    obtain ⟨_, last, read, -, reached⟩ :=
      spelled'.reread.2 ⟨before ++ (placeholder ++ zs), (Cursor.ofTokens back nextId).stop, nextId, []⟩ rfl
    rw [declarations_eq_iff.mpr read, reached.2 limits, List.reverse_nil, List.append_nil, refused.reverse] at recorded
    exact .inl (recorded ▸ refused)
  | @givesUp refusals tail fault refused behind place other =>
    refine .inr ⟨before, tail, refusals, fault, damaged, behind, refused, place, other, ?_⟩
    obtain ⟨damaged, ended, stmt, rfl, -⟩ := damaged
    have body := isEof_mended (List.forall_mem_append.mp inside).1 behind
    rw [recorded, List.reverse_cons, refused.reverse, List.append_assoc, List.singleton_append, ← List.append_assoc before,
      ← Cursor.ofTokens_snoc nextId body (Cursor.isEof_stop back nextId)]
    rfl

/-- A missing semicolon is reported at most once if reading goes on across the gap. Otherwise the declaration with the gap is
    left, and there is only one report exactly if no target was refused before and a program remains. -/
theorem missing_semicolon_reported_once_iff (kind : missing.kind = .semicolon)
    (silent : (parseProgram (front ++ missing :: back) nextId).misreadings = []) :
    OneRefusal (parseProgram (front ++ back) nextId).misreadings ∨
      ∃ before tail refusals fault, Cascade front back missing nextId before tail refusals fault ∧
        ((parseProgram (front ++ back) nextId).misreadings.length ≤ 1 ↔
          refusals = [] ∧ ∃ program, SpellsStmt (Short True) (.declarations program)
            (before ++ placeholder ++ skip tail)) := by
  obtain ⟨program, spelled⟩ := (parseProgram_silent_iff _ _).mp silent
  rw [List.takeWhile_append] at spelled
  split at spelled
  case isFalse ended =>
    -- The end of the program stands before the semicolon.
    refine .inl (.inl ((parseProgram_silent_iff _ _).mpr ⟨program, ?_⟩))
    rwa [List.takeWhile_append, if_neg ended]
  case isTrue whole =>
    have inside : ∀ t ∈ front, t.isEof = false := by
      have all := Cursor.isEof_pending front nextId
      rwa [Cursor.ofTokens, (List.takeWhile_prefix _).eq_of_length whole] at all
    rw [List.takeWhile_cons_of_pos (by simp [Token.isEof, kind])] at spelled
    rcases program_gap kind inside spelled with refused | ⟨before, tail, refusals, fault, cascade⟩
    · exact .inl refused
    · exact .inr ⟨before, tail, refusals, fault, cascade, cascade.length_le_one_iff inside⟩

theorem missing_semicolon_reported_once_iff_print :
    (parseProgram ((Lexer.tokensOf "print 1").dropLast ++ ⟨.semicolon, ";", none, 1⟩ :: Lexer.tokensOf "print 2;")
        0).misreadings = [] ∧
      (parseProgram ((Lexer.tokensOf "print 1").dropLast ++ Lexer.tokensOf "print 2;") 0).misreadings =
        [⟨⟨.keyword .print_, "print", none, 1⟩, .printEnd⟩] ∧
      ∃ before tail fault, Cascade (Lexer.tokensOf "print 1").dropLast (Lexer.tokensOf "print 2;")
        ⟨.semicolon, ";", none, 1⟩ 0
          before tail [] fault ∧
        ∃ program, SpellsStmt (Short True) (.declarations program) (before ++ placeholder ++ skip tail) := by
  have silent : (parseProgram ((Lexer.tokensOf "print 1").dropLast ++
      ⟨.semicolon, ";", none, 1⟩ :: Lexer.tokensOf "print 2;") 0).misreadings = [] := by cbv
  have once : (parseProgram ((Lexer.tokensOf "print 1").dropLast ++ Lexer.tokensOf "print 2;") 0).misreadings =
      [⟨⟨.keyword .print_, "print", none, 1⟩, .printEnd⟩] := by cbv
  refine ⟨silent, once, ?_⟩
  rcases missing_semicolon_reported_once_iff rfl silent with refused | ⟨before, tail, refusals, fault, cascade, reported⟩
  · rw [once] at refused
    simp [OneRefusal] at refused
  · rw [once] at reported
    obtain ⟨rfl, remains⟩ := reported.mp (by simp)
    exact ⟨before, tail, fault, cascade, remains⟩

/-- The closing brace of the block is skipped with the declaration, and so the block is reported too. -/
theorem missing_semicolon_reported_twice :
    (parseProgram (Lexer.tokensOf "\x7b print 1; \x7d") 0).misreadings = [] ∧
      (parseProgram ((Lexer.tokensOf "\x7b print 1; \x7d").eraseIdx 3) 0).misreadings =
        [⟨⟨.rightBrace, "\x7d", none, 1⟩, .printEnd⟩, ⟨⟨.eof, "", none, 1⟩, .blockClosing⟩] := by
  constructor <;> cbv

end

end Lox.Grammar
