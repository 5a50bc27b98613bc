import Lox.Proofs.Grammar.Endings

namespace Lox.Grammar

variable {fits : Nat → Prop}

def Plain (ts : List Token) : Prop := ∀ token ∈ ts, token.kind ≠ .semicolon

namespace Plain

variable {ts us : List Token} {token : Token}

theorem nil : Plain [] := by simp [Plain]

theorem append (first : Plain ts) (second : Plain us) : Plain (ts ++ us) := List.forall_mem_append.mpr ⟨first, second⟩

theorem cons {kind : Kind} (same : token.kind = kind) (other : kind ≠ .semicolon) (plain : Plain ts) :
    Plain (token :: ts) :=
  List.forall_mem_cons.mpr ⟨same ▸ other, plain⟩

theorem stands {kinds : List Kind} {named : Token} (stands : Stands token kinds named) (other : .semicolon ∉ kinds)
    (plain : Plain ts) : Plain (token :: ts) :=
  List.forall_mem_cons.mpr ⟨fun same => other (same ▸ stands.kind), plain⟩

end Plain

theorem SpellsExpr.plain {form : ExprForm} {ts : List Token} (spelled : SpellsExpr fits form ts) : Plain ts := by
  induction spelled with
  | unassigned _ ih | operand _ ih | called _ ih | primary _ ih | someArguments _ _ ih | lastEntry _ ih => exact ih
  | assign target sign _ ih => exact .stands target (by decide) (.cons sign (by decide) ih)
  | set _ point target sign _ ih₁ ih₂ =>
    exact ih₁.append (.cons point (by decide) (.stands target (by decide) (.cons sign (by decide) ih₂)))
  | @infix_ level _ _ _ _ _ _ _ between _ ih₁ ih₂ =>
    exact ih₁.append (.stands between (by cases level <;> decide) ih₂)
  | prefixed before _ ih => exact .stands before (by decide) ih
  | get _ point property ih => exact ih.append (.cons point (by decide) (.stands property (by decide) .nil))
  | call _ opened _ closed ih₁ ih₂ =>
    exact ih₁.append (.cons opened (by decide) (ih₂.append (.stands closed (by decide) .nil)))
  | noArguments => exact .nil
  | nextEntry _ sign _ ih₁ ih₂ => exact ih₁.append (.cons sign (by decide) ih₂)
  | constant stands =>
    refine .cons rfl (fun same => ?_) .nil
    rw [constantOf?, same] at stands
    cases stands
  | super_ front point named => exact .stands front (by decide) (.cons point (by decide) (.stands named (by decide) .nil))
  | this_ front | variable_ front => exact .stands front (by decide) .nil
  | grouping opened _ closed ih => exact .cons opened (by decide) (ih.append (.cons closed (by decide) .nil))

def StmtForm.isPlain : StmtForm → Bool
  | .optional _ | .initializer _ | .names _ | .parameters _ | .superclass _ => true
  | _ => false

theorem SpellsStmt.plain {form : StmtForm} {ts : List Token} (spelled : SpellsStmt fits form ts)
    (simple : form.isPlain = true) : Plain ts := by
  induction spelled with
  | absent | uninitialized | noParameters | noSuperclass => exact .nil
  | present value => exact value.plain
  | initialized sign value => exact .cons sign (by decide) value.plain
  | lastName naming => exact .stands naming (by decide) .nil
  | nextName naming sign _ ih => exact .stands naming (by decide) (.cons sign (by decide) (ih rfl))
  | someParameters _ _ ih => exact ih rfl
  | someSuperclass sign naming => exact .cons sign (by decide) (.stands naming (by decide) .nil)
  | _ => cases simple

section

variable {ts us xs ys : List Token} {semicolon : Token}

theorem split_append (split : ts ++ us = xs ++ semicolon :: ys) :
    (∃ ys', ts = xs ++ semicolon :: ys' ∧ ys = ys' ++ us) ∨ ∃ xs', xs = ts ++ xs' ∧ us = xs' ++ semicolon :: ys := by
  rcases List.append_eq_append_iff.mp split with inside | ⟨ys', rfl, behind⟩
  · exact .inr inside
  · cases ys' with
    | nil => exact .inr ⟨[], by simp, behind.symm⟩
    | cons token ys' =>
      obtain ⟨rfl, rfl⟩ := List.cons.inj behind
      exact .inl ⟨ys', rfl, rfl⟩

theorem split_behind (kind : semicolon.kind = .semicolon) (plain : Plain ts) (split : ts ++ us = xs ++ semicolon :: ys) :
    ∃ xs', xs = ts ++ xs' ∧ us = xs' ++ semicolon :: ys := by
  rcases split_append split with ⟨ys', rfl, -⟩ | inside
  · exact absurd kind (plain semicolon (by simp))
  · exact inside

theorem split_last {last : Token} (kind : semicolon.kind = .semicolon) (plain : Plain ts)
    (split : ts ++ [last] = xs ++ semicolon :: ys) : xs = ts ∧ last = semicolon ∧ ys = [] := by
  obtain ⟨xs', rfl, behind⟩ := split_behind kind plain split
  cases xs' with
  | nil =>
    cases behind
    exact ⟨List.append_nil ts, rfl, rfl⟩
  | cons token xs' => simp at behind

/-- A clause or a simple statement ends with its only semicolon. -/
structure Closed (ts : List Token) : Prop where
  split : ∃ us semicolon, ts = us ++ [semicolon] ∧ Plain us

theorem SpellsStmt.closed_expressionStatement {stmt : Stmt} (spelled : SpellsStmt fits (.expressionStatement stmt) ts) :
    Closed ts := by
  cases spelled with
  | expressionStatement value => exact ⟨_, _, rfl, value.plain⟩

theorem SpellsStmt.closed_varDeclaration {stmt : Stmt} (spelled : SpellsStmt fits (.varDeclaration stmt) ts) :
    Closed ts := by
  cases spelled with
  | @varDeclaration word name _ _ _ us front naming value =>
    exact ⟨word :: name :: us, _, rfl, .cons front (by decide) (.stands naming (by decide) (value.plain rfl))⟩

theorem SpellsStmt.closed_forInitializer {stmt? : Option Stmt} (spelled : SpellsStmt fits (.forInitializer stmt?) ts) :
    Closed ts := by
  cases spelled with
  | noInitializer => exact ⟨[], _, rfl, .nil⟩
  | varInitializer first => exact first.closed_varDeclaration
  | exprInitializer first => exact first.closed_expressionStatement

theorem Closed.behind (closed : Closed (xs ++ semicolon :: ys)) (kind : semicolon.kind = .semicolon) : ys = [] := by
  obtain ⟨us, last, whole, plain⟩ := closed.split
  exact (split_last kind plain whole.symm).2.2

end

/-- Kinds that can follow a statement, except for those that begin an expression. None of them continues an expression. -/
def halts : List Kind := .rightBrace :: .keyword .else_ :: (declarationStarts ++ statementStarts)

/-- What follows the place of a missing semicolon: nothing that belongs to an expression, or a value up to the next
    semicolon. In the second case it is said what stands behind. -/
inductive Follows (fits : Nat → Prop) : List Token → Option (List Token) → Prop where
  | halt {rest : List Token} (halting : ∀ token ∈ rest.head?, token.kind ∈ halts) : Follows fits rest none
  | value {expr? : Option Expr} {us rest : List Token} {semicolon : Token} (value : SpellsStmt fits (.optional expr?) us)
      (ended : semicolon.kind = .semicolon) : Follows fits (us ++ semicolon :: rest) (some rest)

/-- Reading fails with `rest` in front, or it goes on to a place that is known. Then one target may be refused. -/
def Ending.Lapses (ending : Ending) (c : Cursor) (rest : List Token) (next? : Option (List Token)) : Prop :=
  ending.Stumbles c rest [] ∨ ∃ onward ∈ next?, ∃ new, OneRefusal new ∧ ending.Reads c onward new

/-- Reading fails at one of the tokens or behind them. One target may have been refused before. -/
def Ending.Strays (ending : Ending) (c : Cursor) (tokens : List Token) : Prop :=
  ∃ tail new, tail <:+ tokens ∧ OneRefusal new ∧ ending.Stumbles c tail new

section

variable {c c₁ : Cursor} {ts us rest : List Token} {next? : Option (List Token)} {e : Ending}

theorem Ending.Lapses.after (lapses : e.Lapses c₁ rest next?) (arrived : c.Arrives c₁ ts []) : e.Lapses c rest next? := by
  rcases lapses with stumbles | ⟨onward, known, new, refused, reads⟩
  · exact .inl (stumbles.after arrived)
  · exact .inr ⟨onward, known, new, refused, reads.after arrived⟩

theorem Apart.of_halting {kinds : List Kind} (halting : ∀ token ∈ rest.head?, token.kind ∈ halts)
    (other : ∀ kind ∈ kinds, kind ∉ halts) : Apart kinds rest :=
  fun token front among => other _ among (halting token front)

theorem Ends.of_halting (halting : ∀ token ∈ rest.head?, token.kind ∈ halts) : Ends 8 rest := by
  intro token front
  have kind := halting token front
  generalize token.kind = kind' at kind
  revert kind'
  decide

theorem SpellsExpr.apart {expr : Expr} {kinds : List Kind} (spelled : SpellsExpr fits (.expression expr) ts)
    (other : ∀ kind ∈ kinds, kind ∉ expressionStarts) (rest : List Token) : Apart kinds (ts ++ rest) := by
  obtain ⟨token, us, rfl, kind⟩ := spelled.starts (by simp)
  exact .cons _ fun among => other _ among kind

theorem Follows.apart_equal (follows : Follows fits rest next?) : Apart [.equal] rest := by
  cases follows with
  | halt halting => exact .of_halting halting (by decide)
  | value value ended =>
    cases value with
    | absent => exact .cons _ (by simp [ended])
    | present value => exact value.apart (by decide) _

theorem expressionUnless_unseen {kind : Kind} (front : c.pending = rest) (unseen : Apart [kind] rest) :
    (expressionUnless kind c).ending = (expression c).ending := by
  unfold expressionUnless
  rw [if_neg (by simp [Cursor.sees_eq_false.mpr (unseen.lacks front)]), Reading.ending_weaken, Reading.ending_map]

theorem expect_lapses {fault : SyntaxFault} (other : fault ≠ .assignmentTarget) (follows : Follows fits rest next?)
    (front : c.pending = rest) : (c.expect .semicolon fault).ending.Lapses c rest next? := by
  cases follows with
  | halt halting => exact .inl (expect_stumbles front (.of_halting halting (by decide)) other)
  | value value ended =>
    cases value with
    | absent => exact .inr ⟨_, rfl, [], .inl rfl, expect_reads front ended fault⟩
    | present value => exact .inl (expect_stumbles front (value.apart (by decide) _) other)

section

variable (limits : Limits fits)
include limits

/-- A value, and behind it one that may be absent. The second is read with the first, or the first is read up to it. -/
theorem value_reads (one : fits 1) {expr : Expr} {expr? : Option Expr} {closing : Token}
    (first : SpellsExpr fits (.expression expr) ts) (second : SpellsStmt fits (.optional expr?) us)
    (ended : looseness closing.kind = 8) (front : c.pending = ts ++ (us ++ closing :: rest)) :
    (∃ new, OneRefusal new ∧ (expression c).ending.Reads c (closing :: rest) new) ∨
      Apart [.semicolon] (us ++ closing :: rest) ∧ (expression c).ending.Reads c (us ++ closing :: rest) [] := by
  cases second with
  | absent => exact .inl ⟨[], .inl rfl, first.reads limits front (.of_kind _ rfl ended)⟩
  | present value =>
    by_cases begins : Begins glues us
    · obtain ⟨expr, c', new, read, refused, arrived⟩ :=
        first.reads_glued limits one value begins front (.of_kind _ rfl ended)
      exact .inl ⟨new, refused, c', (yields_expression_iff.mpr read).ending, arrived⟩
    · obtain ⟨token, others, rfl, kind⟩ := value.starts (by simp)
      have ends : Ends 8 (token :: others ++ closing :: rest) := by
        refine .cons _ ?_
        have other : token.kind ∉ glues := fun among => begins ⟨token, rfl, among⟩
        change token.kind ∈ expressionStarts at kind
        generalize token.kind = kind' at kind other
        revert kind'
        decide
      exact .inr ⟨value.apart (by decide) _, first.reads limits front ends⟩

theorem value_lapses (one : fits 1) {fault : SyntaxFault} (other : fault ≠ .assignmentTarget) {expr : Expr}
    (spelled : SpellsExpr fits (.expression expr) ts) (follows : Follows fits rest next?) (front : c.pending = ts ++ rest) :
    ((expression c).ending.andThen fun c₁ => (c₁.expect .semicolon fault).ending).Lapses c rest next? := by
  cases follows with
  | halt halting =>
    have reads := spelled.reads limits front (.of_halting halting)
    exact .inl (reads.andThen_stumbles fun front => expect_stumbles front (.of_halting halting (by decide)) other)
  | value second ended =>
    rcases value_reads limits one spelled second (by rw [ended]; rfl) front with ⟨new, refused, reads⟩ | ⟨apart, reads⟩
    · exact .inr ⟨_, rfl, new, refused, reads.andThen_reads fun front => expect_reads front ended fault⟩
    · exact .inl (reads.andThen_stumbles fun front => expect_stumbles front apart other)

theorem expressionStatement_lapses (one : fits 1) {expr : Expr} (spelled : SpellsExpr fits (.expression expr) ts)
    (follows : Follows fits rest next?) (front : c.pending = ts ++ rest) :
    (expressionStatement c).ending.Lapses c rest next? := by
  rw [expressionStatement_ending]
  exact value_lapses limits one (by decide) spelled follows front

theorem printStatement_lapses (one : fits 1) {expr : Expr} (spelled : SpellsExpr fits (.expression expr) ts)
    (follows : Follows fits rest next?) (front : c.pending = ts ++ rest) :
    (printStatement c).ending.Lapses c rest next? := by
  rw [printStatement_ending]
  exact value_lapses limits one (by decide) spelled follows front

theorem returnStatement_lapses (one : fits 1) {expr? : Option Expr} (spelled : SpellsStmt fits (.optional expr?) ts)
    (follows : Follows fits rest next?) (front : c.pending = ts ++ rest) (keyword : Token) :
    (returnStatement keyword c).ending.Lapses c rest next? := by
  rw [returnStatement_ending]
  cases spelled with
  | present value =>
    rw [expressionUnless_unseen front (value.apart (by decide) _)]
    exact value_lapses limits one (by decide) value follows front
  | absent =>
    rw [List.nil_append] at front
    cases follows with
    | halt halting =>
      rw [expressionUnless_unseen front (.of_halting halting (by decide))]
      exact .inl ((expression_stumbles front (.of_halting halting (by decide))).andThen _)
    | value value ended =>
      have reads := value.reads_optional limits front (by simp [ended])
      rw [ended] at reads
      exact .inr ⟨_, rfl, [], .inl rfl, reads.andThen_reads fun front => expect_reads front ended _⟩

theorem varDeclaration_lapses (one : fits 1) {expr? : Option Expr} {name : Token} (naming : name.kind = .identifier)
    (spelled : SpellsStmt fits (.initializer expr?) ts) (follows : Follows fits rest next?)
    (front : c.pending = name :: (ts ++ rest)) : (varDeclaration c).ending.Lapses c rest next? := by
  rw [varDeclaration_ending]
  obtain ⟨c₁, same, arrived⟩ := expect_reads front naming .variableName
  rw [same, Ending.andThen_none]
  refine Ending.Lapses.after ?_ arrived
  cases spelled with
  | uninitialized =>
    have plain := follows.apart_equal.lacks arrived.pending
    rw [Reading.Yields.ending (ReadsStmt.uninitialized plain).yielded]
    exact expect_lapses (by decide) follows arrived.pending
  | initialized sign value =>
    obtain ⟨taken, arrived'⟩ := Cursor.arrives_take arrived.pending
    obtain ⟨equals, found, -, next⟩ := (sign ▸ taken).taken
    unfold initializer
    rw [found]
    simp only [Reading.ending_after, Reading.ending_map]
    rw [next]
    exact (value_lapses limits one (by decide) value follows rfl).after arrived'

omit limits in
theorem Ending.Strays.after {tokens : List Token} (strays : e.Strays c₁ tokens) (arrived : c.Arrives c₁ ts []) :
    e.Strays c tokens := by
  obtain ⟨tail, new, inside, refused, stumbles⟩ := strays
  exact ⟨tail, new, inside, refused, stumbles.after arrived⟩

theorem forInitializer_lapses (one : fits 1) {stmt? : Option Stmt} {expr? : Option Expr} {missing semicolon : Token}
    (spelled : SpellsStmt fits (.forInitializer stmt?) (ts ++ [missing])) (value : SpellsStmt fits (.optional expr?) us)
    (ended : semicolon.kind = .semicolon) (front : c.pending = ts ++ (us ++ semicolon :: rest)) :
    (forInitializer c).ending.Lapses c (us ++ semicolon :: rest) (some rest) := by
  have follows : Follows fits (us ++ semicolon :: rest) (some rest) := .value value ended
  generalize whole : ts ++ [missing] = tokens at spelled
  cases spelled with
  | noInitializer =>
    obtain ⟨rfl, -⟩ := List.append_inj' (show ts ++ [missing] = [] ++ [_] from whole) rfl
    rw [List.nil_append] at front
    cases value with
    | absent =>
      obtain ⟨taken, arrived⟩ := Cursor.arrives_take front
      rw [forInitializer_none (ended ▸ taken)]
      exact .inr ⟨rest, rfl, [], .inl rfl, _, rfl, arrived⟩
    | present value =>
      rw [forInitializer_expression ((value.apart (by decide) _).lacks front), expressionStatement_ending]
      have reads := value.reads limits front (.of_kind _ ended rfl)
      exact .inr ⟨rest, rfl, [], .inl rfl, reads.andThen_reads fun front => expect_reads front ended _⟩
  | varInitializer first =>
    cases first with
    | @varDeclaration word name _ _ _ vs keyword naming value' =>
      obtain ⟨rfl, -⟩ := List.append_inj' (show ts ++ [missing] = (word :: name :: vs) ++ [_] from whole) rfl
      obtain ⟨taken, arrived⟩ := Cursor.arrives_take front
      rw [forInitializer_var (keyword ▸ taken)]
      exact (varDeclaration_lapses limits one naming.is value' follows rfl).after arrived
  | exprInitializer first =>
    cases first with
    | expressionStatement value' =>
      obtain ⟨rfl, -⟩ := List.append_inj' whole rfl
      rw [forInitializer_expression ((value'.apart (by decide) _).lacks front)]
      exact expressionStatement_lapses limits one value' follows front

theorem condition_stumbles {expr? : Option Expr} {closing : Token} {fault : SyntaxFault} (other : fault ≠ .assignmentTarget)
    (spelled : SpellsStmt fits (.optional expr?) us) (closed : closing.kind = .rightParen) (rest : List Token)
    (more : Cursor → Ending) :
    ∃ tail, tail <:+ us ++ closing :: rest ∧ ∀ {c : Cursor}, c.pending = us ++ closing :: rest →
      ((expressionUnless .semicolon c).ending.andThen fun c₁ => (c₁.expect .semicolon fault).ending.andThen more).Stumbles c
        tail [] := by
  cases spelled with
  | absent =>
    refine ⟨_, List.suffix_refl _, fun front => ?_⟩
    rw [expressionUnless_unseen front (.cons _ (by simp [closed]))]
    exact (expression_stumbles front (.cons _ (by rw [closed]; decide))).andThen _
  | present value =>
    refine ⟨closing :: rest, List.suffix_append _ _, fun front => ?_⟩
    rw [expressionUnless_unseen front (value.apart (by decide) _)]
    have reads := value.reads limits front (.of_kind _ closed rfl)
    have apart : Apart [.semicolon] (closing :: rest) := .cons _ (by simp [closed])
    exact reads.andThen_stumbles fun front => (expect_stumbles front apart other).andThen more

theorem conditions_stray (one : fits 1) {first? second? : Option Expr} {closing : Token} {fault : SyntaxFault}
    (other : fault ≠ .assignmentTarget) (first : SpellsStmt fits (.optional first?) ts)
    (second : SpellsStmt fits (.optional second?) us) (closed : closing.kind = .rightParen)
    (front : c.pending = ts ++ (us ++ closing :: rest)) (more : Cursor → Ending) :
    ((expressionUnless .semicolon c).ending.andThen fun c₁ => (c₁.expect .semicolon fault).ending.andThen more).Strays c
      (us ++ closing :: rest) := by
  cases first with
  | absent =>
    obtain ⟨tail, inside, stumbles⟩ := condition_stumbles limits other second closed rest more
    exact ⟨tail, [], inside, .inl rfl, stumbles front⟩
  | present value =>
    rw [expressionUnless_unseen front (value.apart (by decide) _)]
    rcases value_reads limits one value second (by rw [closed]; rfl) front with ⟨new, refused, reads⟩ | ⟨apart, reads⟩
    · have apart : Apart [.semicolon] (closing :: rest) := .cons _ (by simp [closed])
      have stumbles := reads.andThen_stumbles fun front => (expect_stumbles front apart other).andThen more
      exact ⟨_, new, List.suffix_append _ _, refused, stumbles⟩
    · have stumbles := reads.andThen_stumbles fun front => (expect_stumbles front apart other).andThen more
      exact ⟨_, [], List.suffix_refl _, .inl rfl, stumbles⟩

/-- The clauses of a `for` loop are not read if one of their semicolons is missing. -/
theorem forClauses_strays (one : fits 1) {clauses : ForClauses} {xs ys : List Token} {missing : Token}
    (kind : missing.kind = .semicolon) (spelled : SpellsStmt fits (.forClauses clauses) (xs ++ missing :: ys))
    (front : c.pending = xs ++ (ys ++ rest)) : (forClauses c).ending.Strays c (ys ++ rest) := by
  generalize whole : xs ++ missing :: ys = tokens at spelled
  cases spelled with
  | @forClauses opening semicolon closing _ _ _ ts us vs opened first second ended third closed =>
    obtain ⟨xs, rfl, inside⟩ := split_behind kind (.cons opened (by decide) .nil) (show [opening] ++ _ = _ from whole.symm)
    rw [List.singleton_append, List.cons_append] at front
    obtain ⟨c₁, same, arrived⟩ := expect_reads front opened .forOpening
    rw [forClauses_ending, same, Ending.andThen_none]
    have front₁ := arrived.pending
    refine Ending.Strays.after ?_ arrived
    rcases split_append (show ts ++ (us ++ semicolon :: (vs ++ [closing])) = xs ++ missing :: ys from inside) with
      ⟨ys', rfl, rfl⟩ | ⟨xs, rfl, later⟩
    · -- The first clause lacks its semicolon. Where it is read nevertheless, the last clause stands in place of the second.
      obtain rfl := first.closed_forInitializer.behind kind
      simp only [List.nil_append, List.append_assoc, List.cons_append] at front₁ ⊢
      rcases forInitializer_lapses limits one first second ended front₁ with stumbles | ⟨onward, known, new, refused, reads⟩
      · exact ⟨_, [], List.suffix_refl _, .inl rfl, stumbles.andThen _⟩
      · cases known
        have other : SyntaxFault.loopConditionEnd ≠ .assignmentTarget := by decide
        obtain ⟨tail, inside, stumbles⟩ := condition_stumbles limits other third closed rest _
        refine ⟨tail, new, inside.trans ⟨us ++ [semicolon], by simp⟩, refused, reads.andThen_stumbles stumbles⟩
    · obtain ⟨xs, rfl, last⟩ := split_behind kind (second.plain rfl) later
      have plain : Plain (vs ++ [closing]) := (third.plain rfl).append (.cons closed (by decide) .nil)
      rcases split_append (show [semicolon] ++ (vs ++ [closing]) = xs ++ missing :: ys from last) with
        ⟨ys', only, rfl⟩ | ⟨xs, rfl, behind⟩
      · obtain ⟨rfl, rfl, rfl⟩ := split_last kind .nil only
        simp only [List.append_nil, List.nil_append, List.append_assoc, List.singleton_append] at front₁ ⊢
        obtain ⟨c₂, same₂, arrived₂⟩ := first.reads_forInitializer limits front₁
        rw [same₂, Ending.andThen_none]
        have other : SyntaxFault.loopConditionEnd ≠ .assignmentTarget := by decide
        exact (conditions_stray limits one other second third closed arrived₂.pending _).after arrived₂
      · exact absurd kind (plain missing (by simp [behind]))

end

end

end Lox.Grammar
