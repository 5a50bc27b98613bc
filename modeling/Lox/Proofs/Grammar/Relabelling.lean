import Lox.Proofs.Grammar.StatementReading
import Lox.Proofs.Tree.Renaming

namespace Lox

namespace Renaming

def relabelling (ρ : Renaming) : Pairing where
  tokens t t' := t' = t
  names := ρ.Relabels
  refers _ id t id' t' := id' = id ∧ ρ.Relabels t t'
  kind := congrArg Token.kind
  lexeme := congrArg Token.lexeme
  tokens_names := @Relabels.of_eq ρ
  refers_names reference := reference.2

end Renaming

namespace Grammar

open Renaming (relabelling)

variable {ρ : Renaming}

/-- The same place, in front of tokens with some names changed. Nothing has been recorded so far. -/
structure Cursor.Relabels (ρ : Renaming) (c c' : Cursor) : Prop where
  pending : List.Forall₂ ρ.Relabels c.pending c'.pending
  stop : c'.stop = c.stop
  nextId : c'.nextId = c.nextId
  quiet : c.misreadings = []
  quiet' : c'.misreadings = []

/-- Reading again from the end: the place behind is given, and there is one in front from where it is reached. -/
def Cursor.Rereads (ρ : Renaming) (c next : Cursor) (reads : Cursor → Cursor → Prop) : Prop :=
  ∀ next', next.Relabels ρ next' → ∃ c', c.Relabels ρ c' ∧ reads c' next'

theorem limit_quiet {c : Cursor} {count : Nat} {fault : SyntaxFault} (quiet : (limit c count fault).misreadings = [])
    (d : Cursor) : limit d count fault = d := by
  unfold limit at quiet ⊢
  split at quiet
  · cases quiet
  · rename_i below
    rw [if_neg below]

namespace Cursor

variable {c c' c₁ next : Cursor} {kinds : List Kind} {token token' : Token} {reads reads' : Cursor → Cursor → Prop}

theorem Rereads.andThen (first : c.Rereads ρ c₁ reads) (second : c₁.Rereads ρ next reads') :
    c.Rereads ρ next (Relation.Comp reads reads') := by
  intro next' places
  obtain ⟨c₁', places₁, read₂⟩ := second next' places
  obtain ⟨c', places', read₁⟩ := first c₁' places₁
  exact ⟨c', places', c₁', read₁, read₂⟩

theorem Rereads.imp (reread : c.Rereads ρ next reads) (weaker : ∀ c' next', reads c' next' → reads' c' next') :
    c.Rereads ρ next reads' := by
  intro next' places
  obtain ⟨c', places', read⟩ := reread next' places
  exact ⟨c', places', weaker c' next' read⟩

theorem Rereads.stay {seen : Cursor → Prop} (kept : ∀ c', c.Relabels ρ c' → seen c') :
    c.Rereads ρ c fun c' next' => c' = next' ∧ seen c' :=
  fun c' places => ⟨c', places, rfl, kept c' places⟩

theorem Rereads.numbered : c.Rereads ρ c.numbered fun c' next' => c'.nextId = c.nextId ∧ c'.numbered = next' := by
  intro next' places
  refine ⟨{ next' with nextId := c.nextId }, ⟨places.pending, places.stop, rfl, places.quiet, places.quiet'⟩, rfl, ?_⟩
  unfold Cursor.numbered
  rw [← show next'.nextId = c.nextId + 1 from places.nextId]

theorem Rereads.limit (count : Nat) (fault : SyntaxFault) :
    c.Rereads ρ (limit c count fault) fun c' next' => Grammar.limit c' count fault = next' := by
  intro next' places
  have short := limit_quiet places.quiet
  rw [short] at places
  exact ⟨next', places, short next'⟩

theorem Takes.relabels (taken : c.Takes kinds token next) (relabels : ρ.Relabels token token') :
    c.Rereads ρ next fun c' next' => c'.Takes kinds token' next' := by
  intro next' places
  obtain ⟨pending, stop, nextId, quiet, quiet'⟩ := places
  obtain ⟨among, front, rest⟩ := taken
  rw [rest] at stop nextId quiet
  refine ⟨{ next' with pending := token' :: next'.pending }, ⟨?_, stop, nextId, quiet, quiet'⟩, ?_, rfl, rfl⟩
  · rw [front]
    exact .cons relabels pending
  · rw [relabels.kind]
    exact among

theorem Takes.again (taken : c.Takes kinds token next) : c.Rereads ρ next fun c' next' => c'.Takes kinds token next' :=
  taken.relabels (.inl rfl)

theorem Takes.forward (taken : c.Takes kinds token next) (places : c.Relabels ρ c') :
    ∃ token' next', c'.Takes kinds token' next' := by
  obtain ⟨among, front, rest⟩ := taken
  have pending := places.pending
  rw [front] at pending
  cases shown : c'.pending with
  | nil =>
    rw [shown] at pending
    cases pending
  | cons token' others =>
    rw [shown] at pending
    cases pending with
    | cons relabels _ => exact ⟨token', { c' with pending := others }, relabels.kind ▸ among, shown, rfl⟩

theorem Takes.seen (taken : c.Takes kinds token next) :
    c.Rereads ρ c fun c' next' => c' = next' ∧ ∃ token' behind, c'.Takes kinds token' behind :=
  .stay fun _ places => taken.forward places

theorem Lacks.relabels (lacks : c.Lacks kinds) (places : c.Relabels ρ c') : c'.Lacks kinds := by
  have pending := places.pending
  unfold Lacks at lacks ⊢
  generalize c.pending = tokens at pending lacks
  generalize c'.pending = tokens' at pending
  cases pending with
  | nil => exact nofun
  | cons relabels _ =>
    intro token' front
    cases front
    rw [relabels.kind]
    exact lacks _ rfl

theorem Lacks.again (lacks : c.Lacks kinds) : c.Rereads ρ c fun c' next' => c' = next' ∧ c'.Lacks kinds :=
  .stay fun _ places => lacks.relabels places

theorem Takes.followed (front : c.Takes kinds token c₁) (reread : c₁.Rereads ρ next reads)
    (build : ∀ {c' c₁' next' : Cursor}, c'.Takes kinds token c₁' → reads c₁' next' → reads' c' next') :
    c.Rereads ρ next reads' := (front.again.andThen reread).imp fun _ _ ⟨_, front', read'⟩ => build front' read'

theorem Lacks.followed (plain : c.Lacks kinds) (reread : c.Rereads ρ next reads)
    (build : ∀ {c' next' : Cursor}, c'.Lacks kinds → reads c' next' → reads' c' next') : c.Rereads ρ next reads' :=
  (plain.again.andThen reread).imp fun _ _ ⟨_, ⟨same, plain'⟩, read'⟩ => build plain' (same ▸ read')

theorem Relabels.sees (places : c.Relabels ρ c') (kind : Kind) : c'.sees kind = c.sees kind := by
  cases seen : c.sees kind with
  | true =>
    obtain ⟨token, next, taken⟩ := sees_eq_true.mp seen
    exact sees_eq_true.mpr (taken.forward places)
  | false => exact sees_eq_false.mpr ((sees_eq_false.mp seen).relabels places)

theorem Relabels.atEnd (places : c.Relabels ρ c') : c'.atEnd = c.atEnd := by
  have pending := places.pending
  unfold Cursor.atEnd
  generalize c.pending = tokens at pending
  generalize c'.pending = tokens' at pending
  cases pending <;> rfl

end Cursor

open Cursor (Rereads)

/-- Some scopes are left out of account: which names are changed does not matter to reading. -/
def RelabelsExpr (ρ : Renaming) (e e' : Expr) : Prop := ∃ rs, e.Alike ρ.relabelling rs e'

def RelabelsExprs (ρ : Renaming) (es es' : List Expr) : Prop := ∃ rs, Expr.AllAlike ρ.relabelling rs es es'

/-- What is read in place of a phrase, up to a place that is the same but for names. The expression on the left of a rest
    is determined by the whole. -/
def ExprPhrase.Reread (ρ : Renaming) (c next : Cursor) : ExprPhrase → Prop
  | .expression e => ∀ e', RelabelsExpr ρ e e' → c.Rereads ρ next (ReadsExpr (.expression e'))
  | .infix_ level e => ∀ e', RelabelsExpr ρ e e' → c.Rereads ρ next (ReadsExpr (.infix_ level e'))
  | .operand level e => ∀ e', RelabelsExpr ρ e e' → c.Rereads ρ next (ReadsExpr (.operand level e'))
  | .infixRest level left e => ∀ e', RelabelsExpr ρ e e' →
    ∃ left', RelabelsExpr ρ left left' ∧ c.Rereads ρ next (ReadsExpr (.infixRest level left' e'))
  | .unary e => ∀ e', RelabelsExpr ρ e e' → c.Rereads ρ next (ReadsExpr (.unary e'))
  | .callRest callee e => ∀ e', RelabelsExpr ρ e e' →
    ∃ callee', RelabelsExpr ρ callee callee' ∧ c.Rereads ρ next (ReadsExpr (.callRest callee' e'))
  | .arguments es => ∀ es', RelabelsExprs ρ es es' → c.Rereads ρ next (ReadsExpr (.arguments es'))
  | .argumentsFrom count es => ∀ es', RelabelsExprs ρ es es' → c.Rereads ρ next (ReadsExpr (.argumentsFrom count es'))
  | .primary e => ∀ e', RelabelsExpr ρ e e' → c.Rereads ρ next (ReadsExpr (.primary e'))

theorem Level.node_relabels {level : Level} {left right e' : Expr} {operator : Token}
    (relabels : RelabelsExpr ρ (level.node left operator right) e') :
    ∃ left' right', e' = level.node left' operator right' ∧ RelabelsExpr ρ left left' ∧ RelabelsExpr ρ right right' := by
  obtain ⟨rs, alike⟩ := relabels
  cases level
  case or | and =>
    cases alike with
    | logical first word second =>
      obtain rfl : _ = _ := word
      exact ⟨_, _, rfl, ⟨rs, first⟩, rs, second⟩
  all_goals
    cases alike with
    | binary first sign second =>
      obtain rfl : _ = _ := sign
      exact ⟨_, _, rfl, ⟨rs, first⟩, rs, second⟩

section

variable {c c₁ c₂ c₃ c₄ : Cursor} {equals paren : Token} {expr : Expr}

theorem relabelled_assignment {id : NodeId} {name : Token} {value : Expr}
    (target : ExprPhrase.Reread ρ c c₁ (.infix_ .or (.variable_ id name))) (sign : c₁.Takes [.equal] equals c₂)
    (assigned : ExprPhrase.Reread ρ c₂ c₃ (.expression value)) :
    ExprPhrase.Reread ρ c c₃.numbered (.expression (.assign c₃.nextId name value)) := by
  rintro e' ⟨rs, alike⟩
  cases alike with
  | assign reference alike =>
    obtain ⟨rfl, named⟩ := reference
    -- The target was read as a variable by itself, whose number the assignment does not keep.
    have variable_ := target (.variable_ id _) ⟨rs, .variable_ ⟨rfl, named⟩⟩
    refine (variable_.andThen (sign.again.andThen ((assigned _ ⟨rs, alike⟩).andThen .numbered))).imp ?_
    rintro _ _ ⟨_, target', _, sign', _, value', number, rfl⟩
    rw [← number]
    exact .assignment target' sign' value'

theorem relabelled_setting {object value : Expr} {name : Token}
    (target : ExprPhrase.Reread ρ c c₁ (.infix_ .or (.get object name))) (sign : c₁.Takes [.equal] equals c₂)
    (assigned : ExprPhrase.Reread ρ c₂ c₃ (.expression value)) :
    ExprPhrase.Reread ρ c c₃ (.expression (.set object name value)) := by
  rintro e' ⟨rs, alike⟩
  cases alike with
  | set owner named alike =>
    exact ((target _ ⟨rs, .get owner named⟩).andThen (sign.again.andThen (assigned _ ⟨rs, alike⟩))).imp
      fun _ _ ⟨_, target', _, sign', value'⟩ => .setting target' sign' value'

theorem relabelled_infixMore {level : Level} {left right : Expr} {operator : Token}
    (sign : c.Takes level.operators operator c₁) (operand : ExprPhrase.Reread ρ c₁ c₂ (.operand level right))
    (rest : ExprPhrase.Reread ρ c₂ c₃ (.infixRest level (level.node left operator right) expr)) :
    ExprPhrase.Reread ρ c c₃ (.infixRest level left expr) := by
  intro e' relabels
  obtain ⟨node', relabelsNode, others⟩ := rest e' relabels
  obtain ⟨left', right', rfl, relabelsLeft, relabelsRight⟩ := Level.node_relabels relabelsNode
  exact ⟨left', relabelsLeft, sign.followed ((operand right' relabelsRight).andThen others)
    fun sign' ⟨_, operand', rest'⟩ => .infixMore sign' operand' rest'⟩

theorem relabelled_callGet {callee : Expr} {dot name : Token} (sign : c.Takes [.dot] dot c₁)
    (property : c₁.Takes [.identifier] name c₂) (rest : ExprPhrase.Reread ρ c₂ c₃ (.callRest (.get callee name) expr)) :
    ExprPhrase.Reread ρ c c₃ (.callRest callee expr) := by
  intro e' relabels
  obtain ⟨access', ⟨rs, alike⟩, others⟩ := rest e' relabels
  cases alike with
  | get owner named =>
    obtain rfl : _ = _ := named
    exact ⟨_, ⟨rs, owner⟩, sign.followed (property.again.andThen others)
      fun sign' ⟨_, property', rest'⟩ => .callGet sign' property' rest'⟩

theorem relabelled_callOn {callee : Expr} {exprs : List Expr} {opening : Token} (sign : c.Takes [.leftParen] opening c₁)
    (entries : ExprPhrase.Reread ρ c₁ c₂ (.arguments exprs)) (closing : c₂.Takes [.rightParen] paren c₃)
    (rest : ExprPhrase.Reread ρ c₃ c₄ (.callRest (.call callee paren exprs) expr)) :
    ExprPhrase.Reread ρ c c₄ (.callRest callee expr) := by
  intro e' relabels
  obtain ⟨called', ⟨rs, alike⟩, others⟩ := rest e' relabels
  cases alike with
  | call owner closed given =>
    obtain rfl : _ = _ := closed
    exact ⟨_, ⟨rs, owner⟩, sign.followed ((entries _ ⟨rs, given⟩).andThen (closing.again.andThen others))
      fun sign' ⟨_, entries', _, closing', rest'⟩ => .callOn sign' entries' closing' rest'⟩

theorem relabelled_lastArgument {count : Nat}
    (entry : ExprPhrase.Reread ρ (limit c count .tooManyArguments) c₁ (.expression expr)) (ended : c₁.Lacks [.comma]) :
    ExprPhrase.Reread ρ c c₁ (.argumentsFrom count [expr]) := by
  rintro es' ⟨rs, alike⟩
  cases alike with
  | cons first others =>
    cases others
    refine ((Rereads.limit _ _).andThen ((entry _ ⟨rs, first⟩).andThen ended.again)).imp ?_
    rintro _ _ ⟨_, rfl, _, entry', rfl, ended'⟩
    exact .lastArgument entry' ended'

theorem relabelled_nextArgument {count : Nat} {exprs : List Expr} {comma : Token}
    (entry : ExprPhrase.Reread ρ (limit c count .tooManyArguments) c₁ (.expression expr))
    (sign : c₁.Takes [.comma] comma c₂) (entries : ExprPhrase.Reread ρ c₂ c₃ (.argumentsFrom (count + 1) exprs)) :
    ExprPhrase.Reread ρ c c₃ (.argumentsFrom count (expr :: exprs)) := by
  rintro es' ⟨rs, alike⟩
  cases alike with
  | cons first others =>
    have later := sign.again.andThen (entries _ ⟨rs, others⟩)
    refine ((Rereads.limit _ _).andThen ((entry _ ⟨rs, first⟩).andThen later)).imp ?_
    rintro _ _ ⟨_, rfl, _, entry', _, sign', entries'⟩
    exact .nextArgument entry' sign' entries'

theorem relabelled_super {keyword dot method : Token} (front : c.Takes [.keyword .super_] keyword c₁)
    (sign : c₁.Takes [.dot] dot c₂) (named : c₂.Takes [.identifier] method c₃) :
    ExprPhrase.Reread ρ c c₃.numbered (.primary (.super_ c₃.nextId keyword method)) := by
  rintro e' ⟨rs, alike⟩
  cases alike with
  | super_ reference method =>
    obtain ⟨rfl, word⟩ := reference
    obtain rfl : _ = _ := method
    refine ((front.relabels word).andThen (sign.again.andThen (named.again.andThen .numbered))).imp ?_
    rintro _ _ ⟨_, front', _, sign', _, named', number, rfl⟩
    rw [← number]
    exact .super_ front' sign' named'

theorem relabelled_this {keyword : Token} (front : c.Takes [.keyword .this_] keyword c₁) :
    ExprPhrase.Reread ρ c c₁.numbered (.primary (.this_ c₁.nextId keyword)) := by
  rintro e' ⟨rs, alike⟩
  cases alike with
  | this_ reference =>
    obtain ⟨rfl, word⟩ := reference
    refine ((front.relabels word).andThen .numbered).imp ?_
    rintro _ _ ⟨_, front', number, rfl⟩
    rw [← number]
    exact .this_ front'

theorem relabelled_variable {name : Token} (front : c.Takes [.identifier] name c₁) :
    ExprPhrase.Reread ρ c c₁.numbered (.primary (.variable_ c₁.nextId name)) := by
  rintro e' ⟨rs, alike⟩
  cases alike with
  | variable_ reference =>
    obtain ⟨rfl, word⟩ := reference
    refine ((front.relabels word).andThen .numbered).imp ?_
    rintro _ _ ⟨_, front', number, rfl⟩
    rw [← number]
    exact .variable_ front'

end

theorem ReadsExpr.reread {phrase : ExprPhrase} {c next : Cursor} (reads : ReadsExpr phrase c next) :
    phrase.Reread ρ c next := by
  induction reads with
  | unassigned _ plain ih =>
    intro e' relabels
    exact ((ih e' relabels).andThen plain.again).imp fun _ _ ⟨_, read, rfl, plain'⟩ => .unassigned read plain'
  | assignment _ sign _ ih₁ ih₂ => exact relabelled_assignment ih₁ sign ih₂
  | setting _ sign _ ih₁ ih₂ => exact relabelled_setting ih₁ sign ih₂
  | misassignment =>
    intro e' relabels next' places
    cases places.quiet
  | infix_ _ _ ih₁ ih₂ =>
    intro e' relabels
    obtain ⟨left', relabels', others⟩ := ih₂ e' relabels
    exact ((ih₁ left' relabels').andThen others).imp fun _ _ ⟨_, first', rest'⟩ => .infix_ first' rest'
  | tighterOperand tighter _ ih => exact fun e' relabels => (ih e' relabels).imp fun _ _ => .tighterOperand tighter
  | unaryOperand tightest _ ih => exact fun e' relabels => (ih e' relabels).imp fun _ _ => .unaryOperand tightest
  | infixEnd ended =>
    exact fun e' relabels => ⟨e', relabels, ended.again.imp fun _ _ ⟨same, ended'⟩ => same ▸ .infixEnd ended'⟩
  | infixMore sign _ _ ih₁ ih₂ => exact relabelled_infixMore sign ih₁ ih₂
  | prefixed sign _ ih =>
    rintro e' ⟨rs, alike⟩
    cases alike with
    | unary word alike =>
      obtain rfl : _ = _ := word
      exact sign.followed (ih _ ⟨rs, alike⟩) .prefixed
  | call plain _ _ ih₁ ih₂ =>
    intro e' relabels
    obtain ⟨callee', relabels', others⟩ := ih₂ e' relabels
    exact plain.followed ((ih₁ callee' relabels').andThen others) fun plain' ⟨_, first', rest'⟩ => .call plain' first' rest'
  | callEnd ended =>
    exact fun e' relabels => ⟨e', relabels, ended.again.imp fun _ _ ⟨same, ended'⟩ => same ▸ .callEnd ended'⟩
  | callGet sign property _ ih => exact relabelled_callGet sign property ih
  | callOn sign _ closing _ ih₁ ih₂ => exact relabelled_callOn sign ih₁ closing ih₂
  | noArguments closing =>
    rintro es' ⟨rs, alike⟩
    cases alike
    exact closing.seen.imp fun _ _ ⟨same, _, _, closing'⟩ => same ▸ .noArguments closing'
  | someArguments opened _ ih => exact fun es' relabels => opened.followed (ih es' relabels) .someArguments
  | lastArgument _ ended ih => exact relabelled_lastArgument ih ended
  | nextArgument _ sign _ ih₁ ih₂ => exact relabelled_nextArgument ih₁ sign ih₂
  | constant front stands =>
    rintro e' ⟨rs, alike⟩
    cases alike
    exact front.again.imp fun _ _ front' => .constant front' stands
  | super_ front sign named => exact relabelled_super front sign named
  | this_ front => exact relabelled_this front
  | variable_ front => exact relabelled_variable front
  | grouping front _ closing ih =>
    rintro e' ⟨rs, alike⟩
    cases alike with
    | grouping alike =>
      exact front.followed ((ih _ ⟨rs, alike⟩).andThen closing.again)
        fun front' ⟨_, inner', closing'⟩ => .grouping front' inner' closing'

def RelabelsStmt (ρ : Renaming) (s s' : Stmt) : Prop := ∃ rs, s.Alike ρ.relabelling rs s'

def RelabelsStmts (ρ : Renaming) (ss ss' : List Stmt) : Prop := ∃ rs, Stmt.AllAlike ρ.relabelling rs ss ss'

def RelabelsMethods (ρ : Renaming) (ds ds' : List FunctionDecl) : Prop :=
  ∃ rs, FunctionDecl.AllAlike ρ.relabelling rs ds ds'

structure ForClauses.Relabels (ρ : Renaming) (clauses clauses' : ForClauses) : Prop where
  initializer : Option.Rel (RelabelsStmt ρ) clauses.initializer clauses'.initializer
  condition : Option.Rel (RelabelsExpr ρ) clauses.condition clauses'.condition
  increment : Option.Rel (RelabelsExpr ρ) clauses.increment clauses'.increment

def StmtPhrase.Reread (ρ : Renaming) (c next : Cursor) : StmtPhrase → Prop
  | .optional barring e? => ∀ e?', Option.Rel (RelabelsExpr ρ) e? e?' → c.Rereads ρ next (ReadsStmt (.optional barring e?'))
  | .initializer e? => ∀ e?', Option.Rel (RelabelsExpr ρ) e? e?' → c.Rereads ρ next (ReadsStmt (.initializer e?'))
  | .varDeclaration s => ∀ s', RelabelsStmt ρ s s' → c.Rereads ρ next (ReadsStmt (.varDeclaration s'))
  | .expressionStatement s => ∀ s', RelabelsStmt ρ s s' → c.Rereads ρ next (ReadsStmt (.expressionStatement s'))
  | .printStatement s => ∀ s', RelabelsStmt ρ s s' → c.Rereads ρ next (ReadsStmt (.printStatement s'))
  | .returnStatement keyword s =>
    ∀ s', RelabelsStmt ρ s s' → c.Rereads ρ next (ReadsStmt (.returnStatement keyword s'))
  | .parametersFrom count params => ∀ params', List.Forall₂ ρ.Relabels params params' →
    c.Rereads ρ next (ReadsStmt (.parametersFrom count params'))
  | .parameters params => ∀ params', List.Forall₂ ρ.Relabels params params' →
    c.Rereads ρ next (ReadsStmt (.parameters params'))
  | .forInitializer s? => ∀ s?', Option.Rel (RelabelsStmt ρ) s? s?' → c.Rereads ρ next (ReadsStmt (.forInitializer s?'))
  | .forClauses clauses => ∀ clauses', clauses.Relabels ρ clauses' → c.Rereads ρ next (ReadsStmt (.forClauses clauses'))
  | .superclass e? => ∀ e?', Option.Rel (RelabelsExpr ρ) e? e?' → c.Rereads ρ next (ReadsStmt (.superclass e?'))
  | .declaration s? => ∀ s?', Option.Rel (RelabelsStmt ρ) s? s?' → c.Rereads ρ next (ReadsStmt (.declaration s?'))
  | .classDeclaration s => ∀ s', RelabelsStmt ρ s s' → c.Rereads ρ next (ReadsStmt (.classDeclaration s'))
  | .methods ds => ∀ ds', RelabelsMethods ρ ds ds' → c.Rereads ρ next (ReadsStmt (.methods ds'))
  | .function role d => ∀ rs d', d.Alike ρ.relabelling rs d' → c.Rereads ρ next (ReadsStmt (.function role d'))
  | .statement s => ∀ s', RelabelsStmt ρ s s' → c.Rereads ρ next (ReadsStmt (.statement s'))
  | .block body => ∀ body', RelabelsStmts ρ body body' → c.Rereads ρ next (ReadsStmt (.block body'))
  | .declarations program => ∀ program', RelabelsStmts ρ program program' →
    c.Rereads ρ next (ReadsStmt (.declarations program'))

def withIncrement (body : Stmt) : Option Expr → Stmt
  | none => body
  | some increment => .block [body, .expression increment]

theorem ForClauses.loop_relabels {clauses : ForClauses} {body s' : Stmt} (relabels : RelabelsStmt ρ (clauses.loop body) s') :
    ∃ clauses' body', s' = clauses'.loop body' ∧ clauses.Relabels ρ clauses' ∧ RelabelsStmt ρ body body' := by
  obtain ⟨initializer, condition, increment⟩ := clauses
  obtain ⟨rs, alike⟩ := relabels
  have conditionBack {rs : List Naming} {e' : Expr}
      (alike : (condition.getD (.constant (.bool true))).Alike ρ.relabelling rs e') :
      ∃ condition', e' = condition'.getD (.constant (.bool true)) ∧ Option.Rel (RelabelsExpr ρ) condition condition' := by
    cases condition with
    | none =>
      cases alike
      exact ⟨none, rfl, .none⟩
    | some e => exact ⟨some e', rfl, .some ⟨rs, alike⟩⟩
  have bodyBack {rs : List Naming} {s' : Stmt} (alike : (withIncrement body increment).Alike ρ.relabelling rs s') :
      ∃ body' increment', s' = withIncrement body' increment' ∧ Option.Rel (RelabelsExpr ρ) increment increment' ∧
        RelabelsStmt ρ body body' := by
    cases increment with
    | none => exact ⟨s', none, rfl, .none, rs, alike⟩
    | some e =>
      cases alike with
      | block r stated =>
        cases stated with
        | cons first others =>
          cases others with
          | cons second others =>
            cases others
            cases second with
            | expression second => exact ⟨_, some _, rfl, .some ⟨_, second⟩, _, first⟩
  cases initializer with
  | none =>
    cases alike with
    | while_ head repeated =>
      obtain ⟨condition', rfl, relabelsCondition⟩ := conditionBack head
      obtain ⟨body', increment', rfl, relabelsIncrement, relabelsBody⟩ := bodyBack repeated
      exact ⟨⟨none, condition', increment'⟩, body', rfl, ⟨.none, relabelsCondition, relabelsIncrement⟩, relabelsBody⟩
  | some first =>
    cases alike with
    | block r stated =>
      cases stated with
      | cons first others =>
        cases others with
        | cons loop others =>
          cases others
          cases loop with
          | while_ head repeated =>
            obtain ⟨condition', rfl, relabelsCondition⟩ := conditionBack head
            obtain ⟨body', increment', rfl, relabelsIncrement, relabelsBody⟩ := bodyBack repeated
            exact ⟨⟨some _, condition', increment'⟩, body', rfl, ⟨.some ⟨_, first⟩, relabelsCondition, relabelsIncrement⟩,
              relabelsBody⟩

theorem class_relabels {name : Token} {superclass : Option Expr} {methods : List FunctionDecl} {s' : Stmt}
    (relabels : RelabelsStmt ρ (.class_ name superclass methods) s') :
    ∃ superclass' methods', s' = .class_ name superclass' methods' ∧ Option.Rel (RelabelsExpr ρ) superclass superclass' ∧
      RelabelsMethods ρ methods methods' := by
  obtain ⟨rs, alike⟩ := relabels
  cases alike with
  | base fixes declared =>
    obtain rfl : _ = _ := fixes.tokens
    exact ⟨none, _, rfl, .none, _, declared⟩
  | derived fixes extended declared =>
    obtain rfl : _ = _ := fixes.tokens
    exact ⟨some _, _, rfl, .some ⟨rs, extended⟩, _, declared⟩

theorem declared_relabels {s? : Option Stmt} {body body' : List Stmt}
    (relabels : RelabelsStmts ρ (s?.toList ++ body) body') :
    ∃ s?' rest', body' = s?'.toList ++ rest' ∧ Option.Rel (RelabelsStmt ρ) s? s?' ∧ RelabelsStmts ρ body rest' := by
  cases s? with
  | none => exact ⟨none, body', rfl, .none, relabels⟩
  | some s =>
    obtain ⟨rs, alike⟩ := relabels
    cases alike with
    | cons here others => exact ⟨some _, _, rfl, .some ⟨rs, here⟩, rs, others⟩

section

variable {c c₁ c₂ c₃ c₄ c₅ c₆ next : Cursor} {keyword opening paren brace semicolon : Token}

theorem relabelled_varDeclaration {name : Token} {initializer : Option Expr} (named : c.Takes [.identifier] name c₁)
    (value : StmtPhrase.Reread ρ c₁ c₂ (.initializer initializer)) (ended : c₂.Takes [.semicolon] semicolon c₃) :
    StmtPhrase.Reread ρ c c₃ (.varDeclaration (.var_ name initializer)) := by
  rintro s' ⟨rs, alike⟩
  cases alike with
  | var_ declares initial =>
    have relabels : Option.Rel (RelabelsExpr ρ) _ _ := rel_imp (fun _ _ alike => ⟨rs, alike⟩) initial
    exact ((named.relabels declares.names).andThen ((value _ relabels).andThen ended.again)).imp
      fun _ _ ⟨_, named', _, value', ended'⟩ => .varDeclaration named' value' ended'

theorem relabelled_returnStatement {value : Option Expr} (read : StmtPhrase.Reread ρ c c₁ (.optional .semicolon value))
    (ended : c₁.Takes [.semicolon] semicolon c₂) :
    StmtPhrase.Reread ρ c c₂ (.returnStatement keyword (.return_ keyword value)) := by
  rintro s' ⟨rs, alike⟩
  cases alike with
  | return_ word returned =>
    obtain rfl : _ = _ := word
    have relabels : Option.Rel (RelabelsExpr ρ) _ _ := rel_imp (fun _ _ alike => ⟨rs, alike⟩) returned
    exact ((read _ relabels).andThen ended.again).imp fun _ _ ⟨_, read', ended'⟩ => .returnStatement read' ended'

theorem relabelled_lastParameter {count : Nat} {name : Token}
    (entry : (limit c count .tooManyParameters).Takes [.identifier] name c₁) (ended : c₁.Lacks [.comma]) :
    StmtPhrase.Reread ρ c c₁ (.parametersFrom count [name]) := by
  intro params' relabels
  cases relabels with
  | cons first others =>
    cases others
    refine ((Rereads.limit _ _).andThen ((entry.relabels first).andThen ended.again)).imp ?_
    rintro _ _ ⟨_, rfl, _, entry', rfl, ended'⟩
    exact .lastParameter entry' ended'

theorem relabelled_nextParameter {count : Nat} {name comma : Token} {params : List Token}
    (entry : (limit c count .tooManyParameters).Takes [.identifier] name c₁) (sign : c₁.Takes [.comma] comma c₂)
    (entries : StmtPhrase.Reread ρ c₂ c₃ (.parametersFrom (count + 1) params)) :
    StmtPhrase.Reread ρ c c₃ (.parametersFrom count (name :: params)) := by
  intro params' relabels
  cases relabels with
  | cons first others =>
    refine ((Rereads.limit _ _).andThen ((entry.relabels first).andThen (sign.again.andThen (entries _ others)))).imp ?_
    rintro _ _ ⟨_, rfl, _, entry', _, sign', entries'⟩
    exact .nextParameter entry' sign' entries'

theorem relabelled_forClauses {initializer : Option Stmt} {condition increment : Option Expr}
    (opened : c.Takes [.leftParen] opening c₁) (first : StmtPhrase.Reread ρ c₁ c₂ (.forInitializer initializer))
    (second : StmtPhrase.Reread ρ c₂ c₃ (.optional .semicolon condition)) (ended : c₃.Takes [.semicolon] semicolon c₄)
    (third : StmtPhrase.Reread ρ c₄ c₅ (.optional .rightParen increment)) (closed : c₅.Takes [.rightParen] paren c₆) :
    StmtPhrase.Reread ρ c c₆ (.forClauses ⟨initializer, condition, increment⟩) := by
  rintro ⟨initializer', condition', increment'⟩ ⟨relabels₁, relabels₂, relabels₃⟩
  have later := ended.again.andThen ((third _ relabels₃).andThen closed.again)
  refine (opened.again.andThen ((first _ relabels₁).andThen ((second _ relabels₂).andThen later))).imp ?_
  exact fun _ _ ⟨_, opened', _, first', _, second', _, ended', _, third', closed'⟩ =>
    .forClauses opened' first' second' ended' third' closed'

theorem relabelled_someSuperclass {less name : Token} (sign : c.Takes [.less] less c₁)
    (named : c₁.Takes [.identifier] name c₂) :
    StmtPhrase.Reread ρ c c₂.numbered (.superclass (some (.variable_ c₂.nextId name))) := by
  rintro e?' ⟨rs, alike⟩
  cases alike with
  | variable_ reference =>
    obtain ⟨rfl, word⟩ := reference
    refine (sign.again.andThen ((named.relabels word).andThen .numbered)).imp ?_
    rintro _ _ ⟨_, sign', _, named', number, rfl⟩
    rw [← number]
    exact .someSuperclass sign' named'

theorem relabelled_classDeclaration {name closing : Token} {superclass : Option Expr} {methods : List FunctionDecl}
    (named : c.Takes [.identifier] name c₁) (extended : StmtPhrase.Reread ρ c₁ c₂ (.superclass superclass))
    (opened : c₂.Takes [.leftBrace] opening c₃) (read : StmtPhrase.Reread ρ c₃ c₄ (.methods methods))
    (closed : c₄.Takes [.rightBrace] closing c₅) :
    StmtPhrase.Reread ρ c c₅ (.classDeclaration (.class_ name superclass methods)) := by
  intro s' relabels
  obtain ⟨superclass', methods', rfl, relabelsSuper, relabelsMethods⟩ := class_relabels relabels
  have later := opened.again.andThen ((read _ relabelsMethods).andThen closed.again)
  refine (named.again.andThen ((extended _ relabelsSuper).andThen later)).imp ?_
  exact fun _ _ ⟨_, named', _, extended', _, opened', _, read', closed'⟩ =>
    .classDeclaration named' extended' opened' read' closed'

theorem relabelled_methodsEnd (ended : (c.sees .rightBrace || c.atEnd) = true) : StmtPhrase.Reread ρ c c (.methods []) := by
  rintro ds' ⟨rs, alike⟩
  cases alike
  refine (Rereads.stay fun _ places => ?_).imp fun _ _ ⟨same, ended'⟩ => same ▸ .methodsEnd ended'
  rw [places.sees, places.atEnd]
  exact ended

theorem relabelled_methodsMore {method : FunctionDecl} {methods : List FunctionDecl}
    (more : (c.sees .rightBrace || c.atEnd) = false) (first : StmtPhrase.Reread ρ c c₁ (.function .method method))
    (rest : StmtPhrase.Reread ρ c₁ c₂ (.methods methods)) : StmtPhrase.Reread ρ c c₂ (.methods (method :: methods)) := by
  rintro ds' ⟨rs, alike⟩
  cases alike with
  | cons here others =>
    refine ((Rereads.stay fun _ places => ?_).andThen ((first rs _ here).andThen (rest _ ⟨rs, others⟩))).imp
      fun _ _ ⟨_, ⟨same, more'⟩, _, first', rest'⟩ => .methodsMore more' (same ▸ first') rest'
    rw [places.sees, places.atEnd]
    exact more

theorem relabelled_function {role : FunctionRole} {name : Token} {params : List Token} {body : List Stmt}
    (named : c.Takes [.identifier] name c₁) (opened : c₁.Takes [.leftParen] opening c₂)
    (entries : StmtPhrase.Reread ρ c₂ c₃ (.parameters params)) (closed : c₃.Takes [.rightParen] paren c₄)
    (begun : c₄.Takes [.leftBrace] brace c₅) (read : StmtPhrase.Reread ρ c₅ c₆ (.block body)) :
    StmtPhrase.Reread ρ c c₆ (.function role (.mk name params body)) := by
  intro rs d' alike
  cases alike with
  | mk r word declares stated =>
    obtain rfl : _ = _ := word
    have entries' := entries _ (declares.imp fun _ _ declared => declared.names)
    have later := closed.again.andThen (begun.again.andThen (read _ ⟨_, stated⟩))
    refine (named.again.andThen (opened.again.andThen (entries'.andThen later))).imp ?_
    exact fun _ _ ⟨_, named', _, opened', _, entries', _, closed', _, begun', read'⟩ =>
      .function named' opened' entries' closed' begun' read'

theorem relabelled_forLoop {clauses : ForClauses} {body : Stmt} (front : c.Takes [.keyword .for_] keyword c₁)
    (head : StmtPhrase.Reread ρ c₁ c₂ (.forClauses clauses)) (read : StmtPhrase.Reread ρ c₂ c₃ (.statement body)) :
    StmtPhrase.Reread ρ c c₃ (.statement (clauses.loop body)) := by
  intro s' relabels
  obtain ⟨clauses', body', rfl, relabelsClauses, relabelsBody⟩ := ForClauses.loop_relabels relabels
  exact (front.again.andThen ((head _ relabelsClauses).andThen (read _ relabelsBody))).imp
    fun _ _ ⟨_, front', _, head', read'⟩ => .forLoop front' head' read'

section

variable {condition : Expr} (opened : c₁.Takes [.leftParen] opening c₂) (head : ReadsExpr (.expression condition) c₂ c₃)
  (closed : c₃.Takes [.rightParen] paren c₄)

include opened head closed

theorem relabelled_ifThen {thenBranch : Stmt} (front : c.Takes [.keyword .if_] keyword c₁)
    (first : StmtPhrase.Reread ρ c₄ c₅ (.statement thenBranch)) (alone : c₅.Lacks [.keyword .else_]) :
    StmtPhrase.Reread ρ c c₅ (.statement (.ifThen condition thenBranch)) := by
  rintro s' ⟨rs, alike⟩
  cases alike with
  | ifThen tested branch =>
    have later := closed.again.andThen ((first _ ⟨rs, branch⟩).andThen alone.again)
    refine (front.again.andThen (opened.again.andThen ((head.reread _ ⟨rs, tested⟩).andThen later))).imp ?_
    rintro _ _ ⟨_, front', _, opened', _, head', _, closed', _, first', rfl, alone'⟩
    exact .ifThen front' opened' head' closed' first' alone'

theorem relabelled_ifThenElse {else_ : Token} {thenBranch elseBranch : Stmt} (front : c.Takes [.keyword .if_] keyword c₁)
    (first : StmtPhrase.Reread ρ c₄ c₅ (.statement thenBranch)) (otherwise : c₅.Takes [.keyword .else_] else_ c₆)
    (second : StmtPhrase.Reread ρ c₆ next (.statement elseBranch)) :
    StmtPhrase.Reread ρ c next (.statement (.ifThenElse condition thenBranch elseBranch)) := by
  rintro s' ⟨rs, alike⟩
  cases alike with
  | ifThenElse tested branch branch' =>
    have last := otherwise.again.andThen (second _ ⟨rs, branch'⟩)
    have later := closed.again.andThen ((first _ ⟨rs, branch⟩).andThen last)
    refine (front.again.andThen (opened.again.andThen ((head.reread _ ⟨rs, tested⟩).andThen later))).imp ?_
    exact fun _ _ ⟨_, front', _, opened', _, head', _, closed', _, first', _, otherwise', second'⟩ =>
      .ifThenElse front' opened' head' closed' first' otherwise' second'

theorem relabelled_whileLoop {body : Stmt} (front : c.Takes [.keyword .while_] keyword c₁)
    (read : StmtPhrase.Reread ρ c₄ c₅ (.statement body)) :
    StmtPhrase.Reread ρ c c₅ (.statement (.while_ condition body)) := by
  rintro s' ⟨rs, alike⟩
  cases alike with
  | while_ tested repeated =>
    have later := closed.again.andThen (read _ ⟨rs, repeated⟩)
    refine (front.again.andThen (opened.again.andThen ((head.reread _ ⟨rs, tested⟩).andThen later))).imp ?_
    exact fun _ _ ⟨_, front', _, opened', _, head', _, closed', read'⟩ => .whileLoop front' opened' head' closed' read'

end

theorem relabelled_blockMore {s? : Option Stmt} {body : List Stmt} (more : c.Lacks [.rightBrace])
    (first : StmtPhrase.Reread ρ c c₁ (.declaration s?)) (rest : StmtPhrase.Reread ρ c₁ c₂ (.block body)) :
    StmtPhrase.Reread ρ c c₂ (.block (s?.toList ++ body)) := by
  intro body' relabels
  obtain ⟨s?', rest', rfl, relabelsFirst, relabelsRest⟩ := declared_relabels relabels
  exact more.followed ((first _ relabelsFirst).andThen (rest _ relabelsRest))
    fun more' ⟨_, first', others'⟩ => .blockMore more' first' others'

theorem relabelled_programEnd (ended : c.pending = []) : StmtPhrase.Reread ρ c c (.declarations []) := by
  rintro program' ⟨rs, alike⟩
  cases alike
  refine (Rereads.stay fun _ places => ?_).imp fun _ _ ⟨same, ended'⟩ => same ▸ .programEnd ended'
  have pending := places.pending
  rw [ended] at pending
  exact List.forall₂_nil_left_iff.mp pending

theorem relabelled_programMore {s? : Option Stmt} {program : List Stmt}
    (first : StmtPhrase.Reread ρ c c₁ (.declaration s?)) (rest : StmtPhrase.Reread ρ c₁ c₂ (.declarations program)) :
    StmtPhrase.Reread ρ c c₂ (.declarations (s?.toList ++ program)) := by
  intro program' relabels
  obtain ⟨s?', rest', rfl, relabelsFirst, relabelsRest⟩ := declared_relabels relabels
  exact ((first _ relabelsFirst).andThen (rest _ relabelsRest)).imp fun _ _ ⟨_, first', others'⟩ =>
    .programMore first' others'

end

theorem ReadsStmt.reread {phrase : StmtPhrase} {c next : Cursor} (reads : ReadsStmt phrase c next) :
    phrase.Reread ρ c next := by
  induction reads with
  | absent seen =>
    rintro e?' ⟨⟩
    exact seen.seen.imp fun _ _ ⟨same, _, _, seen'⟩ => same ▸ .absent seen'
  | present unseen read =>
    rintro e?' ⟨relabels⟩
    exact unseen.followed (read.reread _ relabels) .present
  | uninitialized plain =>
    rintro e?' ⟨⟩
    exact plain.again.imp fun _ _ ⟨same, plain'⟩ => same ▸ .uninitialized plain'
  | initialized sign value =>
    rintro e?' ⟨relabels⟩
    exact sign.followed (value.reread _ relabels) .initialized
  | varDeclaration named _ ended ih => exact relabelled_varDeclaration named ih ended
  | expressionStatement read ended =>
    rintro s' ⟨rs, alike⟩
    cases alike with
    | expression alike =>
      exact ((read.reread _ ⟨rs, alike⟩).andThen ended.again).imp
        fun _ _ ⟨_, read', ended'⟩ => .expressionStatement read' ended'
  | printStatement read ended =>
    rintro s' ⟨rs, alike⟩
    cases alike with
    | print_ alike =>
      exact ((read.reread _ ⟨rs, alike⟩).andThen ended.again).imp
        fun _ _ ⟨_, read', ended'⟩ => .printStatement read' ended'
  | returnStatement _ ended ih => exact relabelled_returnStatement ih ended
  | lastParameter entry ended => exact relabelled_lastParameter entry ended
  | nextParameter entry sign _ ih => exact relabelled_nextParameter entry sign ih
  | noParameters closing =>
    rintro params' ⟨⟩
    exact closing.seen.imp fun _ _ ⟨same, _, _, closing'⟩ => same ▸ .noParameters closing'
  | someParameters opened _ ih =>
    intro params' relabels
    exact opened.followed (ih _ relabels) .someParameters
  | noInitializer front =>
    rintro s?' ⟨⟩
    exact front.again.imp fun _ _ => .noInitializer
  | varInitializer front _ ih =>
    rintro s?' ⟨relabels⟩
    exact front.followed (ih _ relabels) .varInitializer
  | exprInitializer plain _ ih =>
    rintro s?' ⟨relabels⟩
    exact plain.followed (ih _ relabels) .exprInitializer
  | forClauses opened _ _ ended _ closed ih₁ ih₂ ih₃ => exact relabelled_forClauses opened ih₁ ih₂ ended ih₃ closed
  | noSuperclass plain =>
    rintro e?' ⟨⟩
    exact plain.again.imp fun _ _ ⟨same, plain'⟩ => same ▸ .noSuperclass plain'
  | someSuperclass sign named => exact relabelled_someSuperclass sign named
  | classDeclared front _ ih =>
    rintro s?' ⟨relabels⟩
    exact front.followed (ih _ relabels) .classDeclared
  | functionDeclared front _ ih =>
    rintro s?' ⟨rs, alike⟩
    cases alike with
    | function named declared => exact front.followed (ih rs _ declared) .functionDeclared
  | varDeclared front _ ih =>
    rintro s?' ⟨relabels⟩
    exact front.followed (ih _ relabels) .varDeclared
  | stated plain _ ih =>
    rintro s?' ⟨relabels⟩
    exact plain.followed (ih _ relabels) .stated
  | misread =>
    intro s?' relabels next' places
    cases places.quiet
  | classDeclaration named _ opened _ closed ih₁ ih₂ => exact relabelled_classDeclaration named ih₁ opened ih₂ closed
  | methodsEnd ended => exact relabelled_methodsEnd ended
  | methodsMore more _ _ ih₁ ih₂ => exact relabelled_methodsMore more ih₁ ih₂
  | function named opened _ closed begun _ ih₁ ih₂ => exact relabelled_function named opened ih₁ closed begun ih₂
  | forLoop front _ _ ih₁ ih₂ => exact relabelled_forLoop front ih₁ ih₂
  | ifThen front opened head closed _ alone ih => exact relabelled_ifThen opened head closed front ih alone
  | ifThenElse front opened head closed _ otherwise _ ih₁ ih₂ =>
    exact relabelled_ifThenElse opened head closed front ih₁ otherwise ih₂
  | printing front _ ih => exact fun s' relabels => front.followed (ih s' relabels) .printing
  | returning front _ ih => exact fun s' relabels => front.followed (ih s' relabels) .returning
  | whileLoop front opened head closed _ ih => exact relabelled_whileLoop opened head closed front ih
  | braced front _ ih =>
    rintro s' ⟨rs, alike⟩
    cases alike with
    | block r stated => exact front.followed (ih _ ⟨_, stated⟩) .braced
  | expressed plain _ ih => exact fun s' relabels => plain.followed (ih s' relabels) .expressed
  | blockEnd closed =>
    rintro body' ⟨rs, alike⟩
    cases alike
    exact closed.again.imp fun _ _ => .blockEnd
  | blockMore more _ _ ih₁ ih₂ => exact relabelled_blockMore more ih₁ ih₂
  | programEnd ended => exact relabelled_programEnd ended
  | programMore _ _ ih₁ ih₂ => exact relabelled_programMore ih₁ ih₂

theorem Cursor.Relabels.refl {c : Cursor} (quiet : c.misreadings = []) : c.Relabels ρ c :=
  ⟨List.forall₂_same.mpr fun _ _ => .inl rfl, rfl, rfl, quiet, quiet⟩

theorem isEof_relabels {t t' : Token} (relabels : ρ.Relabels t t') : t'.isEof = t.isEof := by
  rw [Token.isEof, Token.isEof, relabels.kind]

theorem inside_relabels {ts ts' : List Token} (changed : List.Forall₂ ρ.Relabels ts ts')
    (inside : ∀ t ∈ ts, t.isEof = false) : ∀ t ∈ ts', t.isEof = false := by
  induction changed with
  | nil => exact nofun
  | cons relabels _ ih =>
    obtain ⟨first, others⟩ := List.forall_mem_cons.mp inside
    exact List.forall_mem_cons.mpr ⟨(isEof_relabels relabels).trans first, ih others⟩

theorem Cursor.ofTokens_append {ts rest : List Token} (nextId : NodeId) (inside : ∀ t ∈ ts, t.isEof = false) :
    Cursor.ofTokens (ts ++ rest) nextId =
      { Cursor.ofTokens rest nextId with pending := ts ++ rest.takeWhile (!·.isEof) } := by
  have all : ∀ t ∈ ts, (!t.isEof) = true := fun t member => by rw [inside t member]; rfl
  have absent : ts.find? Token.isEof = none := List.find?_eq_none.mpr fun t member => by simp [inside t member]
  unfold Cursor.ofTokens
  rw [List.takeWhile_append_of_pos all, List.find?_append, absent, Option.none_or]

theorem Cursor.ofTokens_snoc {ts : List Token} {stop : Token} (nextId : NodeId) (inside : ∀ t ∈ ts, t.isEof = false)
    (ended : stop.isEof = true) : Cursor.ofTokens (ts ++ [stop]) nextId = ⟨ts, stop, nextId, []⟩ := by
  rw [ofTokens_append nextId inside, List.takeWhile_cons_of_neg (by simp [ended]), List.append_nil, Cursor.ofTokens,
    List.find?_cons_of_pos ended]
  rfl

theorem Cursor.isEof_stop (tokens : List Token) (nextId : NodeId) : (Cursor.ofTokens tokens nextId).stop.isEof = true := by
  unfold Cursor.ofTokens
  cases found : tokens.find? Token.isEof with
  | none => rfl
  | some token => exact List.find?_some found

theorem Cursor.isEof_pending (tokens : List Token) (nextId : NodeId) :
    ∀ t ∈ (Cursor.ofTokens tokens nextId).pending, t.isEof = false := fun t member => by
  simpa using List.all_eq_true.mp List.all_takeWhile t member

theorem Cursor.Relabels.ofTokens {tokens : List Token} {nextId : NodeId} {c' : Cursor}
    (places : (Cursor.ofTokens tokens nextId).Relabels ρ c') :
    ∃ tokens', List.Forall₂ ρ.Relabels tokens tokens' ∧ Cursor.ofTokens tokens' nextId = c' := by
  let ts := tokens.takeWhile (!·.isEof)
  let rest := tokens.dropWhile (!·.isEof)
  have split : ts ++ rest = tokens := List.takeWhile_append_dropWhile
  have inside : ∀ t ∈ ts, t.isEof = false := fun t member => by
    simpa using List.all_eq_true.mp List.all_takeWhile t member
  have ended : rest.takeWhile (!·.isEof) = [] := by
    have stopped := List.head?_dropWhile_not (!·.isEof) tokens
    show (tokens.dropWhile (!·.isEof)).takeWhile (!·.isEof) = []
    cases front : tokens.dropWhile (!·.isEof) with
    | nil => rfl
    | cons t others =>
      rw [front] at stopped
      simp only [List.head?_cons, Bool.not_eq_false'] at stopped
      rw [List.takeWhile_cons_of_neg (by simp [stopped])]
  have pending : List.Forall₂ ρ.Relabels ts c'.pending := places.pending
  refine ⟨c'.pending ++ rest, ?_, ?_⟩
  · have joined : List.Forall₂ ρ.Relabels (ts ++ rest) (c'.pending ++ rest) :=
      List.rel_append pending (List.forall₂_same.mpr fun _ _ => .inl rfl)
    rwa [split] at joined
  · have stop := places.stop
    rw [← split, ofTokens_append nextId inside] at stop
    rw [ofTokens_append nextId (inside_relabels pending inside), ended, List.append_nil]
    obtain ⟨pending', stop', nextId', misreadings'⟩ := c'
    obtain rfl : stop' = _ := stop
    obtain rfl : nextId' = nextId := places.nextId
    obtain rfl : misreadings' = [] := places.quiet'
    rfl

end Grammar

open Grammar

theorem parseProgram_relabels {ρ : Renaming} {tokens : List Token} {nextId : NodeId} {program' : List Stmt}
    (quiet : (parseProgram tokens nextId).misreadings = [])
    (relabels : RelabelsStmts ρ (parseProgram tokens nextId).value program') :
    ∃ tokens', List.Forall₂ ρ.Relabels tokens tokens' ∧
      parseProgram tokens' nextId = ⟨program', [], (parseProgram tokens nextId).nextId⟩ := by
  have silent : (declarations (.ofTokens tokens nextId)).2.misreadings = [] := List.reverse_eq_nil_iff.mp quiet
  have reread := (reads_declarations (.ofTokens tokens nextId)).reread program' relabels
  obtain ⟨c', places, read'⟩ := reread _ (.refl silent)
  obtain ⟨tokens', changed, rfl⟩ := places.ofTokens
  refine ⟨tokens', changed, ?_⟩
  unfold parseProgram
  rw [declarations_eq_iff.mpr read']
  simp only [silent, List.reverse_nil]

end Lox
