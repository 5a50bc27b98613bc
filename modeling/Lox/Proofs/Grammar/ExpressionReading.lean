import Lox.Proofs.Grammar.Outcome

namespace Lox.Grammar

/-- What one of the readers of expressions has read; `infixRest` and `callRest` are given the expression on
    their left. -/
inductive ExprPhrase where
  | expression (expr : Expr)
  | infix_ (level : Level) (expr : Expr)
  | operand (level : Level) (expr : Expr)
  | infixRest (level : Level) (left expr : Expr)
  | unary (expr : Expr)
  | callRest (callee expr : Expr)
  | arguments (exprs : List Expr)
  | argumentsFrom (count : Nat) (exprs : List Expr)
  | primary (expr : Expr)

def constantOf? (token : Token) : Option Constant :=
  match token.kind with
  | .keyword .false_ => some (.bool false)
  | .keyword .true_ => some (.bool true)
  | .keyword .nil_ => some .nil
  | .number | .string => token.literal.map .ofLiteral
  | _ => none

def isTarget : Expr → Bool
  | .variable_ .. | .get .. => true
  | _ => false

inductive ReadsExpr : ExprPhrase → Cursor → Cursor → Prop where
  | unassigned {c c₁ : Cursor} {expr : Expr} (value : ReadsExpr (.infix_ .or expr) c c₁)
      (plain : c₁.Lacks [.equal]) : ReadsExpr (.expression expr) c c₁
  | assignment {c c₁ c₂ c₃ : Cursor} {id : NodeId} {name equals : Token} {value : Expr}
      (target : ReadsExpr (.infix_ .or (.variable_ id name)) c c₁) (sign : c₁.Takes [.equal] equals c₂)
      (assigned : ReadsExpr (.expression value) c₂ c₃) :
      ReadsExpr (.expression (.assign c₃.nextId name value)) c c₃.numbered
  | setting {c c₁ c₂ c₃ : Cursor} {object value : Expr} {name equals : Token}
      (target : ReadsExpr (.infix_ .or (.get object name)) c c₁) (sign : c₁.Takes [.equal] equals c₂)
      (assigned : ReadsExpr (.expression value) c₂ c₃) :
      ReadsExpr (.expression (.set object name value)) c c₃
  | misassignment {c c₁ c₂ c₃ : Cursor} {target value : Expr} {equals : Token}
      (first : ReadsExpr (.infix_ .or target) c c₁) (sign : c₁.Takes [.equal] equals c₂)
      (assigned : ReadsExpr (.expression value) c₂ c₃) (refused : isTarget target = false) :
      ReadsExpr (.expression target) c (c₃.record equals .assignmentTarget)
  | infix_ {c c₁ c₂ : Cursor} {level : Level} {left expr : Expr}
      (first : ReadsExpr (.operand level left) c c₁) (rest : ReadsExpr (.infixRest level left expr) c₁ c₂) :
      ReadsExpr (.infix_ level expr) c c₂
  | tighterOperand {c c₁ : Cursor} {level next : Level} {expr : Expr} (tighter : level.tighter? = some next)
      (read : ReadsExpr (.infix_ next expr) c c₁) : ReadsExpr (.operand level expr) c c₁
  | unaryOperand {c c₁ : Cursor} {level : Level} {expr : Expr} (tightest : level.tighter? = none)
      (read : ReadsExpr (.unary expr) c c₁) : ReadsExpr (.operand level expr) c c₁
  | infixEnd {c : Cursor} {level : Level} {left : Expr} (ended : c.Lacks level.operators) :
      ReadsExpr (.infixRest level left left) c c
  | infixMore {c c₁ c₂ c₃ : Cursor} {level : Level} {left right expr : Expr} {operator : Token}
      (sign : c.Takes level.operators operator c₁) (next : ReadsExpr (.operand level right) c₁ c₂)
      (rest : ReadsExpr (.infixRest level (level.node left operator right) expr) c₂ c₃) :
      ReadsExpr (.infixRest level left expr) c c₃
  | prefixed {c c₁ c₂ : Cursor} {operator : Token} {right : Expr}
      (sign : c.Takes [.bang, .minus] operator c₁) (operand : ReadsExpr (.unary right) c₁ c₂) :
      ReadsExpr (.unary (.unary operator right)) c c₂
  | call {c c₁ c₂ : Cursor} {callee expr : Expr} (plain : c.Lacks [.bang, .minus])
      (first : ReadsExpr (.primary callee) c c₁) (rest : ReadsExpr (.callRest callee expr) c₁ c₂) :
      ReadsExpr (.unary expr) c c₂
  | callEnd {c : Cursor} {callee : Expr} (ended : c.Lacks [.leftParen, .dot]) :
      ReadsExpr (.callRest callee callee) c c
  | callGet {c c₁ c₂ c₃ : Cursor} {callee expr : Expr} {dot name : Token} (sign : c.Takes [.dot] dot c₁)
      (property : c₁.Takes [.identifier] name c₂) (rest : ReadsExpr (.callRest (.get callee name) expr) c₂ c₃) :
      ReadsExpr (.callRest callee expr) c c₃
  | callOn {c c₁ c₂ c₃ c₄ : Cursor} {callee expr : Expr} {exprs : List Expr} {opening paren : Token}
      (sign : c.Takes [.leftParen] opening c₁) (entries : ReadsExpr (.arguments exprs) c₁ c₂)
      (closing : c₂.Takes [.rightParen] paren c₃)
      (rest : ReadsExpr (.callRest (.call callee paren exprs) expr) c₃ c₄) :
      ReadsExpr (.callRest callee expr) c c₄
  | noArguments {c next : Cursor} {paren : Token} (closing : c.Takes [.rightParen] paren next) :
      ReadsExpr (.arguments []) c c
  | someArguments {c c₁ : Cursor} {exprs : List Expr} (opened : c.Lacks [.rightParen])
      (entries : ReadsExpr (.argumentsFrom 0 exprs) c c₁) : ReadsExpr (.arguments exprs) c c₁
  | lastArgument {c c₁ : Cursor} {count : Nat} {expr : Expr}
      (entry : ReadsExpr (.expression expr) (limit c count .tooManyArguments) c₁) (ended : c₁.Lacks [.comma]) :
      ReadsExpr (.argumentsFrom count [expr]) c c₁
  | nextArgument {c c₁ c₂ c₃ : Cursor} {count : Nat} {expr : Expr} {exprs : List Expr} {comma : Token}
      (entry : ReadsExpr (.expression expr) (limit c count .tooManyArguments) c₁)
      (sign : c₁.Takes [.comma] comma c₂) (entries : ReadsExpr (.argumentsFrom (count + 1) exprs) c₂ c₃) :
      ReadsExpr (.argumentsFrom count (expr :: exprs)) c c₃
  | constant {c c₁ : Cursor} {token : Token} {value : Constant} (front : c.Takes [token.kind] token c₁)
      (stands : constantOf? token = some value) : ReadsExpr (.primary (.constant value)) c c₁
  | super_ {c c₁ c₂ c₃ : Cursor} {keyword dot method : Token} (front : c.Takes [.keyword .super_] keyword c₁)
      (sign : c₁.Takes [.dot] dot c₂) (named : c₂.Takes [.identifier] method c₃) :
      ReadsExpr (.primary (.super_ c₃.nextId keyword method)) c c₃.numbered
  | this_ {c c₁ : Cursor} {keyword : Token} (front : c.Takes [.keyword .this_] keyword c₁) :
      ReadsExpr (.primary (.this_ c₁.nextId keyword)) c c₁.numbered
  | variable_ {c c₁ : Cursor} {name : Token} (front : c.Takes [.identifier] name c₁) :
      ReadsExpr (.primary (.variable_ c₁.nextId name)) c c₁.numbered
  | grouping {c c₁ c₂ c₃ : Cursor} {inner : Expr} {opening paren : Token}
      (front : c.Takes [.leftParen] opening c₁) (read : ReadsExpr (.expression inner) c₁ c₂)
      (closing : c₂.Takes [.rightParen] paren c₃) : ReadsExpr (.primary (.grouping inner)) c c₃

theorem ReadsExpr.leads {phrase : ExprPhrase} {c c' : Cursor} (reads : ReadsExpr phrase c c') : c.Leads c' := by
  induction reads with
  | unassigned _ _ ih | tighterOperand _ _ ih | unaryOperand _ _ ih | someArguments _ _ ih => exact ih
  | assignment _ sign _ ih₁ ih₂ => exact ((ih₁.trans sign.leads).trans ih₂).trans (.numbered _)
  | setting _ sign _ ih₁ ih₂ => exact (ih₁.trans sign.leads).trans ih₂
  | misassignment _ sign _ _ ih₁ ih₂ => exact ((ih₁.trans sign.leads).trans ih₂).trans (.record ..)
  | infix_ _ _ ih₁ ih₂ => exact ih₁.trans ih₂
  | infixEnd | callEnd | noArguments => exact .refl _
  | infixMore sign _ _ ih₁ ih₂ => exact (sign.leads.trans ih₁).trans ih₂
  | prefixed sign _ ih => exact sign.leads.trans ih
  | call _ _ _ ih₁ ih₂ => exact ih₁.trans ih₂
  | callGet sign property _ ih => exact (sign.leads.trans property.leads).trans ih
  | callOn sign _ closing _ ih₁ ih₂ => exact ((sign.leads.trans ih₁).trans closing.leads).trans ih₂
  | lastArgument _ _ ih => exact (Cursor.Leads.limit ..).trans ih
  | nextArgument _ sign _ ih₁ ih₂ =>
    exact (((Cursor.Leads.limit ..).trans ih₁).trans sign.leads).trans ih₂
  | constant front => exact front.leads
  | super_ front sign named => exact ((front.leads.trans sign.leads).trans named.leads).trans (.numbered _)
  | this_ front | variable_ front => exact front.leads.trans (.numbered _)
  | grouping front _ closing ih => exact (front.leads.trans ih).trans closing.leads

section Sound

variable {c : Cursor}

open Reading

theorem obeys_assignTo {c₁ c₂ c₃ : Cursor} {target value : Expr} {equals : Token}
    (first : ReadsExpr (.infix_ .or target) c c₁) (sign : c₁.Takes [.equal] equals c₂)
    (assigned : ReadsExpr (.expression value) c₂ c₃) :
    (assignTo target equals value c₃).Obeys fun expr next => ReadsExpr (.expression expr) c next := by
  unfold assignTo
  split
  · exact .assignment first sign assigned
  · exact .setting first sign assigned
  · rename_i notVariable notGet
    refine .misassignment first sign assigned ?_
    cases target <;> simp [isTarget]
    · exact notGet _ _ rfl
    · exact notVariable _ _ rfl

theorem obeys_super_ (front : c.Taken) (kind : front.token.kind = .keyword .super_) :
    ((front.next.expect .dot .superDot).andThen fun _ c₁ _ =>
      (c₁.expect .identifier .superMethodName).andThen fun method c₂ _ =>
      (.read (.super_ c₂.nextId front.token method) c₂.numbered c₂.numbered_le : Reading c₂ 0 Expr)).Obeys
      fun expr next => ReadsExpr (.primary expr) c next := by
  refine obeys_expect_then fun dot c₁ _ sign => ?_
  refine obeys_expect_then fun method c₂ _ named => ?_
  exact .super_ (front.takes (by simp [kind])) sign named

theorem Level.rank_le (level : Level) : level.rank ≤ 5 := by cases level <;> decide

mutual

theorem expression_obeys (c : Cursor) : (expression c).Obeys fun expr next => ReadsExpr (.expression expr) c next := by
  rw [expression]
  refine (infix_obeys .or c).andThen (fun _ _ first => first.leads) fun target c₁ progress first => ?_
  cases found : c₁.accept? [.equal] with
  | none => exact .unassigned first (Cursor.accept?_eq_none.mp found)
  | some equals =>
    have shorter := equals.shorter
    have sign := equals.takes (Cursor.accept?_eq_some.mp found)
    refine Obeys.after ((expression_obeys equals.next).andThen (fun _ _ value => value.leads) ?_)
    exact fun value c₂ _ assigned => obeys_assignTo first sign assigned
termination_by 32 * c.size + 15
decreasing_by
  · simp [Level.rank]
  · omega

theorem infix_obeys (level : Level) (c : Cursor) :
    (infix_ level c).Obeys fun expr next => ReadsExpr (.infix_ level expr) c next := by
  rw [infix_]
  refine (operand_obeys level c).andThen (fun _ _ read => read.leads) fun left c₁ progress first => ?_
  exact (infixRest_obeys level left c₁).mono fun _ _ rest => .infix_ first rest
termination_by 32 * c.size + 2 * level.rank + 4

theorem operand_obeys (level : Level) (c : Cursor) :
    (operand level c).Obeys fun expr next => ReadsExpr (.operand level expr) c next := by
  rw [operand]
  split
  · rename_i next tighter
    have lower := Level.rank_tighter tighter
    exact (infix_obeys next c).mono fun _ _ read => .tighterOperand tighter read
  · rename_i tightest
    exact (unary_obeys c).mono fun _ _ read => .unaryOperand tightest read
termination_by 32 * c.size + 2 * level.rank + 3

theorem infixRest_obeys (level : Level) (left : Expr) (c : Cursor) :
    (infixRest level left c).Obeys fun expr next => ReadsExpr (.infixRest level left expr) c next := by
  rw [infixRest]
  cases found : c.accept? level.operators with
  | none => exact .infixEnd (Cursor.accept?_eq_none.mp found)
  | some operator =>
    have shorter := operator.shorter
    have ranked := level.rank_le
    have sign := operator.takes (Cursor.accept?_eq_some.mp found)
    refine Obeys.after ((operand_obeys level operator.next).andThen (fun _ _ read => read.leads) ?_)
    intro right c₁ progress next
    exact (infixRest_obeys level _ c₁).mono fun _ _ rest => .infixMore sign next rest
termination_by 32 * c.size

theorem unary_obeys (c : Cursor) : (unary c).Obeys fun expr next => ReadsExpr (.unary expr) c next := by
  rw [unary]
  cases found : c.accept? [.bang, .minus] with
  | some operator =>
    have shorter := operator.shorter
    have sign := operator.takes (Cursor.accept?_eq_some.mp found)
    exact Obeys.after (Obeys.map ((unary_obeys operator.next).mono fun _ _ read => .prefixed sign read))
  | none =>
    refine (primary_obeys c).andThen (fun _ _ read => read.leads) fun callee c₁ progress first => ?_
    refine (callRest_obeys callee c₁).mono fun _ _ rest => ?_
    exact .call (Cursor.accept?_eq_none.mp found) first rest
termination_by 32 * c.size + 2

theorem callRest_obeys (callee : Expr) (c : Cursor) :
    (callRest callee c).Obeys fun expr next => ReadsExpr (.callRest callee expr) c next := by
  rw [callRest]
  cases found : c.accept? [.leftParen, .dot] with
  | none => exact .callEnd (Cursor.accept?_eq_none.mp found)
  | some sign =>
    have shorter := sign.shorter
    have kind := Cursor.accept?_eq_some.mp found
    simp only [List.mem_cons, List.not_mem_nil, or_false] at kind
    dsimp only
    split
    · rename_i dot
      refine Obeys.after (obeys_expect_then fun name c₁ progress property => ?_)
      refine (callRest_obeys _ c₁).mono fun _ _ rest => ?_
      exact .callGet (sign.takes (by simp [dot])) property rest
    · rename_i notDot
      have opening : sign.token.kind = .leftParen := kind.resolve_right notDot
      refine Obeys.after ((arguments_obeys sign.next).andThen (fun _ _ read => read.leads) ?_)
      intro exprs c₁ progress read
      refine obeys_expect_then fun paren c₂ progress' closing => ?_
      refine (callRest_obeys _ c₂).mono fun _ _ rest => ?_
      exact .callOn (sign.takes (by simp [opening])) read closing rest
termination_by 32 * c.size

theorem arguments_obeys (c : Cursor) : (arguments c).Obeys fun exprs next => ReadsExpr (.arguments exprs) c next := by
  rw [arguments]
  split
  · rename_i seen
    obtain ⟨paren, next, closing⟩ := Cursor.sees_eq_true.mp seen
    exact .noArguments closing
  · rename_i unseen
    refine Obeys.weaken ((argumentsFrom_obeys 0 c).mono fun _ _ entries => ?_)
    exact .someArguments (Cursor.sees_eq_false.mp (Bool.eq_false_iff.mpr unseen)) entries
termination_by 32 * c.size + 17

theorem argumentsFrom_obeys (count : Nat) (c : Cursor) :
    (argumentsFrom count c).Obeys fun exprs next => ReadsExpr (.argumentsFrom count exprs) c next := by
  have same := size_limit c count .tooManyArguments
  rw [argumentsFrom]
  refine Obeys.ofSameSize (.limit ..) ((expression_obeys _).andThen (fun _ _ read => read.leads) ?_)
  intro first c₁ progress read
  cases found : c₁.accept? [.comma] with
  | none => exact .lastArgument read (Cursor.accept?_eq_none.mp found)
  | some comma =>
    have shorter := comma.shorter
    have sign := comma.takes (Cursor.accept?_eq_some.mp found)
    refine Obeys.after (Obeys.map ((argumentsFrom_obeys (count + 1) comma.next).mono fun _ _ rest => ?_))
    exact .nextArgument read sign rest
termination_by 32 * c.size + 16

theorem primary_obeys (c : Cursor) : (primary c).Obeys fun expr next => ReadsExpr (.primary expr) c next := by
  rw [primary]
  cases found : c.take? with
  | none => exact obeys_fail
  | some front =>
    have shorter := front.shorter
    have takes := front.takes (List.mem_singleton.mpr rfl)
    have led := takes.leads
    have constant {value : Constant} (stands : constantOf? front.token = some value) :
        ReadsExpr (.primary (.constant value)) c front.next := .constant takes stands
    dsimp only
    split
    · rename_i kind
      exact constant (by simp [constantOf?, kind])
    · rename_i kind
      exact constant (by simp [constantOf?, kind])
    · rename_i kind
      exact constant (by simp [constantOf?, kind])
    · rename_i kind
      split
      · rename_i literal spelled
        exact constant (by simp [constantOf?, kind, spelled])
      · exact Obeys.after (Cursor.Leads.refl _)
    · rename_i kind
      split
      · rename_i literal spelled
        exact constant (by simp [constantOf?, kind, spelled])
      · exact Obeys.after (Cursor.Leads.refl _)
    · exact Obeys.after (obeys_super_ front ‹_›)
    · rename_i kind
      exact .this_ (front.takes (by simp [kind]))
    · rename_i kind
      exact .variable_ (front.takes (by simp [kind]))
    · rename_i kind
      refine Obeys.after ((expression_obeys front.next).andThen (fun _ _ read => read.leads) fun inner c₁ _ read => ?_)
      refine obeys_expect_then fun paren c₂ _ closing => ?_
      exact .grouping (front.takes (by simp [kind])) read closing
    · exact obeys_fail
termination_by 32 * c.size + 1

end

theorem wholeExpression_obeys (c : Cursor) :
    (wholeExpression c).Obeys fun expr next => ReadsExpr (.expression expr) c next ∧ next.pending = [] := by
  refine (expression_obeys c).andThen (fun _ _ read => read.leads) fun expr next _ read => ?_
  split
  · rename_i ended
    exact ⟨read, Cursor.atEnd_iff.mp ended⟩
  · exact obeys_fail

end Sound

def ExprPhrase.Yielded (c next : Cursor) : ExprPhrase → Prop
  | .expression expr => (Grammar.expression c).Yields expr next
  | .infix_ level expr => (Grammar.infix_ level c).Yields expr next
  | .operand level expr => (Grammar.operand level c).Yields expr next
  | .infixRest level left expr => (Grammar.infixRest level left c).Yields expr next
  | .unary expr => (Grammar.unary c).Yields expr next
  | .callRest callee expr => (Grammar.callRest callee c).Yields expr next
  | .arguments exprs => (Grammar.arguments c).Yields exprs next
  | .argumentsFrom count exprs => (Grammar.argumentsFrom count c).Yields exprs next
  | .primary expr => (Grammar.primary c).Yields expr next

section Complete

open Reading

theorem yields_expression {c c₁ c₂ c₃ c₄ : Cursor} {target value expr : Expr} {equals : Token}
    (first : (infix_ .or c).Yields target c₁) (sign : c₁.Takes [.equal] equals c₂)
    (assigned : (expression c₂).Yields value c₃)
    (result : (assignTo target equals value c₃).Yields expr c₄) : (expression c).Yields expr c₄ := by
  rw [expression]
  refine first.andThen fun _ => ?_
  obtain ⟨taken, found, rfl, rfl⟩ := sign.taken
  rw [found]
  exact Yields.after (assigned.andThen fun _ => result)

theorem yields_constant {c c₁ : Cursor} {token : Token} {value : Constant}
    (front : c.Takes [token.kind] token c₁) (stands : constantOf? token = some value) :
    (primary c).Yields (.constant value) c₁ := by
  obtain ⟨taken, -, rfl, rfl⟩ := front.taken
  rw [primary, Cursor.take?_eq_some taken]
  unfold constantOf? at stands
  dsimp only
  split at stands <;> rename_i kind
  · cases stands
    simp only [kind]
    exact Yields.after yields_done
  · cases stands
    simp only [kind]
    exact Yields.after yields_done
  · cases stands
    simp only [kind]
    exact Yields.after yields_done
  · obtain ⟨literal, spelled, rfl⟩ := Option.map_eq_some_iff.mp stands
    simp only [kind, spelled]
    exact Yields.after yields_done
  · obtain ⟨literal, spelled, rfl⟩ := Option.map_eq_some_iff.mp stands
    simp only [kind, spelled]
    exact Yields.after yields_done
  · cases stands

theorem ReadsExpr.yielded {phrase : ExprPhrase} {c c' : Cursor} (reads : ReadsExpr phrase c c') :
    phrase.Yielded c c' := by
  induction reads with
  | unassigned _ plain first =>
    simp only [ExprPhrase.Yielded] at first ⊢
    rw [expression]
    refine first.andThen fun _ => ?_
    rw [Cursor.accept?_eq_none.mpr plain]
    exact yields_done
  | assignment _ sign _ first assigned | setting _ sign _ first assigned =>
    exact yields_expression first sign assigned ⟨_, rfl⟩
  | @misassignment _ _ _ _ target _ _ _ sign _ refused first assigned =>
    refine yields_expression first sign assigned ?_
    cases target <;> first | exact ⟨_, rfl⟩ | simp [isTarget] at refused
  | infix_ _ _ first rest =>
    simp only [ExprPhrase.Yielded] at first rest ⊢
    rw [Grammar.infix_]
    exact first.andThen fun _ => rest
  | tighterOperand tighter _ read =>
    simp only [ExprPhrase.Yielded] at read ⊢
    rw [operand]
    split
    · rename_i next' tighter'
      cases tighter.symm.trans tighter'
      exact read
    · rename_i tightest
      cases tighter.symm.trans tightest
  | unaryOperand tightest _ read =>
    simp only [ExprPhrase.Yielded] at read ⊢
    rw [operand]
    split
    · rename_i next tighter
      cases tightest.symm.trans tighter
    · exact read
  | infixEnd ended =>
    simp only [ExprPhrase.Yielded]
    rw [infixRest, Cursor.accept?_eq_none.mpr ended]
    exact yields_done
  | infixMore sign _ _ next rest =>
    simp only [ExprPhrase.Yielded] at next rest ⊢
    obtain ⟨taken, found, rfl, rfl⟩ := sign.taken
    rw [infixRest, found]
    exact Yields.after (next.andThen fun _ => rest)
  | prefixed sign _ read =>
    simp only [ExprPhrase.Yielded] at read ⊢
    obtain ⟨taken, found, rfl, rfl⟩ := sign.taken
    rw [Grammar.unary, found]
    exact Yields.after (read.map _)
  | call plain _ _ first rest =>
    simp only [ExprPhrase.Yielded] at first rest ⊢
    rw [Grammar.unary, Cursor.accept?_eq_none.mpr plain]
    exact first.andThen fun _ => rest
  | callEnd ended =>
    simp only [ExprPhrase.Yielded]
    rw [callRest, Cursor.accept?_eq_none.mpr ended]
    exact yields_done
  | @callGet c _ _ _ _ _ _ _ sign property _ rest =>
    simp only [ExprPhrase.Yielded] at rest ⊢
    obtain ⟨taken, found, rfl, rfl⟩ := sign.taken
    have dot := List.mem_singleton.mp (Cursor.accept?_eq_some.mp found)
    have accepted : c.accept? [.leftParen, .dot] = some taken := Cursor.accept?_eq_some.mpr (by simp [dot])
    rw [callRest, accepted]
    simp only [dot, ↓reduceIte]
    exact Yields.after ((yields_expect property).andThen fun _ => rest)
  | @callOn c _ _ _ _ _ _ _ _ _ sign _ closing _ entries rest =>
    simp only [ExprPhrase.Yielded] at entries rest ⊢
    obtain ⟨taken, found, rfl, rfl⟩ := sign.taken
    have opening := List.mem_singleton.mp (Cursor.accept?_eq_some.mp found)
    have accepted : c.accept? [.leftParen, .dot] = some taken := Cursor.accept?_eq_some.mpr (by simp [opening])
    rw [callRest, accepted]
    simp only [opening, reduceCtorEq, ↓reduceIte]
    exact Yields.after (entries.andThen fun _ => (yields_expect closing).andThen fun _ => rest)
  | noArguments closing =>
    simp only [ExprPhrase.Yielded]
    rw [Grammar.arguments, if_pos (Cursor.sees_eq_true.mpr ⟨_, _, closing⟩)]
    exact yields_done
  | someArguments opened _ entries =>
    simp only [ExprPhrase.Yielded] at entries ⊢
    rw [Grammar.arguments, if_neg (by simp [Cursor.sees_eq_false.mpr opened])]
    exact entries.weaken
  | lastArgument _ ended entry =>
    simp only [ExprPhrase.Yielded] at entry ⊢
    rw [argumentsFrom]
    refine Yields.ofSameSize (entry.andThen fun _ => ?_)
    rw [Cursor.accept?_eq_none.mpr ended]
    exact yields_done
  | nextArgument _ sign _ entry entries =>
    simp only [ExprPhrase.Yielded] at entry entries ⊢
    rw [argumentsFrom]
    refine Yields.ofSameSize (entry.andThen fun _ => ?_)
    obtain ⟨taken, found, rfl, rfl⟩ := sign.taken
    rw [found]
    exact Yields.after (entries.map _)
  | constant front stands => exact yields_constant front stands
  | super_ front sign named =>
    simp only [ExprPhrase.Yielded]
    obtain ⟨taken, found, rfl, rfl⟩ := front.taken
    rw [primary, Cursor.take?_eq_some taken]
    simp only [List.mem_singleton.mp (Cursor.accept?_eq_some.mp found)]
    exact Yields.after ((yields_expect sign).andThen fun _ => (yields_expect named).andThen fun _ => ⟨_, rfl⟩)
  | this_ front | variable_ front =>
    simp only [ExprPhrase.Yielded]
    obtain ⟨taken, found, rfl, rfl⟩ := front.taken
    rw [primary, Cursor.take?_eq_some taken]
    simp only [List.mem_singleton.mp (Cursor.accept?_eq_some.mp found)]
    exact Yields.after ⟨_, rfl⟩
  | grouping front _ closing read =>
    simp only [ExprPhrase.Yielded] at read ⊢
    obtain ⟨taken, found, rfl, rfl⟩ := front.taken
    rw [primary, Cursor.take?_eq_some taken]
    simp only [List.mem_singleton.mp (Cursor.accept?_eq_some.mp found)]
    exact Yields.after (read.andThen fun _ => (yields_expect closing).andThen fun _ => yields_done)

theorem yields_expression_iff {c next : Cursor} {expr : Expr} :
    (expression c).Yields expr next ↔ ReadsExpr (.expression expr) c next :=
  ⟨(expression_obeys c).of_yields, ReadsExpr.yielded⟩

end Complete
end Lox.Grammar
