import Lox.Proofs.Machine.Execution
import Lox.Proofs.Machine.Place

namespace Lox

def Outcome.Ended {α : Type} (outcome : Outcome α) : Prop := outcome.machine? ≠ none

namespace Run

variable {α β : Type} {action : Run α} {next : α → Run β} {m : Machine}

theorem ended_value (result : α) (m : Machine) : (Outcome.value result m).Ended := Option.some_ne_none m

theorem ended_fault (fault : Fault) (m : Machine) : (Outcome.fault fault m : Outcome α).Ended := Option.some_ne_none m

theorem ended_read (f : Machine → α) (m : Machine) : (read f m).Ended := ended_value (f m) m

theorem ended_onStore (f : Store → α × Store) (m : Machine) : (onStore f m).Ended := ended_value _ _

theorem ended_tryRead (f : Machine → Except Fault α) (m : Machine) : (tryRead f m).Ended := by
  unfold tryRead
  split
  · apply ended_value
  · apply ended_fault

theorem ended_bind (first : (action m).Ended) (rest : ∀ result m₁, action m = .value result m₁ → (next result m₁).Ended) :
    ((action >>= next) m).Ended := by
  cases done : action m with
  | value result m₁ =>
    rw [bind_value done]
    exact rest result m₁ done
  | fault fault m₁ =>
    rw [bind_fault done]
    apply ended_fault
  | outOfFuel =>
    rw [done] at first
    exact absurd rfl first

theorem ended_assignIn (find : Machine → Except Fault ScopeId) (name : String) (value : Value) (m : Machine) :
    (assignIn find name value m).Ended := by
  apply ended_bind (ended_tryRead find m)
  intro scope m₁ _
  apply ended_value

theorem ended_within {environment : Environment} (inner : (action { m with environment := environment }).Ended) :
    (within environment action m).Ended := by
  unfold within
  split
  · apply ended_value
  · apply ended_fault
  · rename_i spent
    exact absurd (by rw [spent]; rfl) inner

theorem ended_deeper (inner : (action m.deepened).Ended) : (deeper action m).Ended := by
  unfold deeper
  split
  · apply ended_value
  · apply ended_fault
  · rename_i spent
    exact absurd (by rw [Machine.deepened, spent]; rfl) inner

theorem ended_nested {action : Run Value} (paren : Token) (inner : m.depth < maxCallDepth → (action m.deepened).Ended) :
    (nested paren action m).Ended := by
  by_cases deep : maxCallDepth ≤ m.depth
  · have refused : nested paren action m = .fault (.stackOverflow paren) m := by
      show (if maxCallDepth ≤ m.depth then fail (.stackOverflow paren) else deeper action) m = _
      rw [if_pos deep]
      rfl
    rw [refused]
    apply ended_fault
  · have shallow := Nat.not_le.mp deep
    rw [nested_shallow shallow]
    exact ended_deeper (inner shallow)

theorem ended_property (object : Identity) (of : Class) (name : Token) (m : Machine) :
    (property object of name m).Ended := by
  apply ended_bind (ended_read _ m)
  intro field m₁ _
  cases field with
  | some value => apply ended_value
  | none =>
    cases of.findMethod? name.lexeme with
    | some method => apply ended_onStore
    | none => apply ended_fault

theorem ended_superMethod (id : NodeId) (method : Token) (m : Machine) : (superMethod id method m).Ended := by
  apply ended_bind (ended_tryRead _ m)
  rintro ⟨superclass, object, of⟩ m₁ _
  cases found : superclass.findMethod? method.lexeme with
  | some closure =>
    simp only [found]
    apply ended_onStore
  | none =>
    simp only [found]
    apply ended_fault

theorem ended_bindClass (name : Token) (methods : List FunctionDecl) (superclass : Option Class) (m : Machine) :
    (bindClass name methods superclass m).Ended := by
  apply ended_bind (ended_read _ m)
  intro current m₁ _
  apply ended_bind (ended_onStore _ m₁)
  intro _ m₂ _
  have entered : (methodEnvironment current superclass m₂).Ended := by
    cases superclass <;> apply ended_value
  apply ended_bind entered
  intro environment m₃ _
  apply ended_bind (ended_onStore _ m₃)
  intro identity m₄ _
  apply ended_assignIn

theorem ended_instantiate {invoke : Invoke} {c : Class} {arguments : List Value}
    (inner : ∀ initializer, c.initializer? = some initializer →
      (invoke (m.store.construct initializer c).1 arguments
        { m with store := (m.store.construct initializer c).2 }).Ended) :
    (instantiate invoke c arguments m).Ended := by
  cases found : c.initializer? with
  | none =>
    unfold instantiate
    rw [found]
    apply ended_bind (ended_onStore _ m)
    intro object m₁ _
    apply ended_value
  | some initializer =>
    rw [instantiate_some found]
    apply ended_bind (inner initializer found)
    intro _ m₁ _
    apply ended_value

theorem ended_call {invoke : Invoke} {callee : Value} {arguments : List Value} (paren : Token)
    (inner : ∀ f m₁, callee.Calls arguments m f m₁ → (invoke f arguments m₁).Ended) :
    (call invoke callee paren arguments m).Ended := by
  unfold call
  cases known : callee.arity? with
  | none => apply ended_fault
  | some arity =>
    by_cases fits : arguments.length = arity
    · simp only [fits, ne_eq, not_true, ↓reduceIte]
      subst fits
      cases callee with
      | native f =>
        apply ended_bind (ended_value _ _)
        intro reading m₁ _
        apply ended_value
      | function identity f =>
        apply ended_nested
        intro shallow
        exact inner _ _ (.function (Option.some.inj known).symm shallow)
      | class_ c =>
        apply ended_nested
        intro shallow
        apply ended_instantiate
        intro initializer found
        exact inner _ _ (.class_ (Option.some.inj known).symm shallow found)
      | _ => apply ended_fault
    · simp only [fits, ne_eq, not_false_eq_true, ↓reduceIte]
      apply ended_fault

end Run

namespace Activity

variable {a b : Activity}

def Ended (a : Activity) : Prop := a.machine? ≠ none

def Spent (a : Activity) : Prop :=
  match a.task with
  | .invoke _ _ => a.fuel = 0
  | .loop turns _ _ => turns = 0
  | _ => False

theorem ended_expr {n : Nat} {e : Expr} {m : Machine} (spawned : ∀ b, Spawns ⟨n, .expr e, m⟩ b → b.Ended) :
    (e.evaluate (Closure.invoke n) m).Ended := by
  cases e with
  | assign id name value =>
    rw [Expr.evaluate]
    apply Run.ended_bind (spawned _ .assigned)
    intro x m₁ _
    apply Run.ended_bind (Run.ended_assignIn _ _ _ m₁)
    intro _ m₂ _
    apply Run.ended_value
  | binary left operator right =>
    rw [Expr.evaluate]
    apply Run.ended_bind (spawned _ .leftOperand)
    intro x m₁ first
    apply Run.ended_bind (spawned _ (.rightOperand first))
    intro y m₂ _
    apply Run.ended_tryRead
  | call callee paren arguments =>
    rw [Expr.evaluate]
    apply Run.ended_bind (spawned _ .callee)
    intro x m₁ first
    apply Run.ended_bind (spawned _ (.arguments first))
    intro xs m₂ given
    apply Run.ended_call
    intro f m₃ calls
    exact spawned _ (.call first given calls)
  | get object name =>
    rw [Expr.evaluate]
    apply Run.ended_bind (spawned _ .owner)
    intro x m₁ _
    split
    · apply Run.ended_property
    · apply Run.ended_fault
  | grouping inner =>
    rw [Expr.evaluate]
    exact spawned _ .grouped
  | constant value =>
    rw [Expr.evaluate]
    apply Run.ended_value
  | logical left operator right =>
    rw [Expr.evaluate]
    apply Run.ended_bind (spawned _ .leftChoice)
    intro x m₁ first
    by_cases decided : isDecided operator x
    · rw [if_pos decided]
      apply Run.ended_value
    · rw [if_neg decided]
      exact spawned _ (.rightChoice first (Bool.not_eq_true _ ▸ decided))
  | set object name value =>
    rw [Expr.evaluate]
    apply Run.ended_bind (spawned _ .setOwner)
    intro x m₁ first
    split
    · apply Run.ended_bind (spawned _ (.setValue first))
      intro y m₂ _
      apply Run.ended_value
    · apply Run.ended_fault
  | super_ id keyword method =>
    rw [Expr.evaluate]
    apply Run.ended_superMethod
  | this_ _ _ | variable_ _ _ =>
    rw [Expr.evaluate]
    apply Run.ended_tryRead
  | unary operator right =>
    rw [Expr.evaluate]
    apply Run.ended_bind (spawned _ .operand)
    intro x m₁ _
    apply Run.ended_tryRead

theorem ended_superclass {n : Nat} {name : Token} {superclass : Option Expr} {methods : List FunctionDecl} {m : Machine}
    (spawned : ∀ b, Spawns ⟨n, .stmt (.class_ name superclass methods), m⟩ b → b.Ended) :
    (Run.superclass (Closure.invoke n) name superclass m).Ended := by
  cases superclass with
  | none => apply Run.ended_value
  | some e =>
    apply Run.ended_bind (spawned _ .superclass)
    intro x m₁ _
    split
    · apply Run.ended_value
    · split <;> apply Run.ended_fault

theorem ended_stmt {n : Nat} {s : Stmt} {m : Machine} (spawned : ∀ b, Spawns ⟨n, .stmt s, m⟩ b → b.Ended) :
    (s.execute n (Closure.invoke n) m).Ended := by
  cases s with
  | block body =>
    rw [Stmt.execute]
    exact Run.ended_within (spawned _ .block)
  | class_ name superclass methods =>
    rw [Stmt.execute, Run.defineClass_eq]
    have defined := Run.ended_bind (ended_superclass spawned) fun above m₁ _ => Run.ended_bindClass name methods above m₁
    apply Run.ended_bind defined
    intro _ m₁ _
    apply Run.ended_value
  | expression e =>
    rw [Stmt.execute]
    apply Run.ended_bind (spawned _ .expression)
    intro x m₁ _
    apply Run.ended_value
  | function declaration =>
    rw [Stmt.execute]
    apply Run.ended_value
  | ifThen condition thenBranch =>
    rw [Stmt.execute]
    apply Run.ended_bind (spawned _ .ifCondition)
    intro x m₁ first
    by_cases holds : x.isTruthy
    · rw [if_pos holds]
      exact spawned _ (.ifBranch first holds)
    · rw [if_neg holds]
      apply Run.ended_value
  | ifThenElse condition thenBranch elseBranch =>
    rw [Stmt.execute]
    apply Run.ended_bind (spawned _ .condition)
    intro x m₁ first
    by_cases holds : x.isTruthy
    · rw [if_pos holds]
      exact spawned _ (.thenBranch first holds)
    · rw [if_neg holds]
      exact spawned _ (.elseBranch first (Bool.not_eq_true _ ▸ holds))
  | print_ e =>
    rw [Stmt.execute]
    apply Run.ended_bind (spawned _ .print_)
    intro x m₁ _
    apply Run.ended_value
  | return_ keyword value =>
    rw [Stmt.execute]
    have valued : (Run.optional (Closure.invoke n) value m).Ended := by
      cases value with
      | none => apply Run.ended_value
      | some e => exact spawned _ .returned
    apply Run.ended_bind valued
    intro x m₁ _
    apply Run.ended_value
  | var_ name initializer =>
    rw [Stmt.execute]
    have valued : (Run.optional (Closure.invoke n) initializer m).Ended := by
      cases initializer with
      | none => apply Run.ended_value
      | some e => exact spawned _ .initializer
    apply Run.ended_bind valued
    intro x m₁ _
    apply Run.ended_value
  | while_ condition body =>
    rw [Stmt.execute]
    exact spawned _ .turns

theorem ended_of_spawned (unspent : ¬a.Spent) (spawned : ∀ b, a.Spawns b → b.Ended) : a.Ended := by
  obtain ⟨n, task, m⟩ := a
  cases task with
  | expr e => exact ended_expr spawned
  | exprs es =>
    show (Expr.evaluateAll (Closure.invoke n) es m).Ended
    cases es with
    | nil => apply Run.ended_value
    | cons e rest =>
      apply Run.ended_bind (spawned _ .firstExpr)
      intro x m₁ first
      apply Run.ended_bind (spawned _ (.otherExprs first))
      intro xs m₂ _
      apply Run.ended_value
  | stmt s => exact ended_stmt spawned
  | stmts ss =>
    show (Stmt.executeAll n (Closure.invoke n) ss m).Ended
    cases ss with
    | nil => apply Run.ended_value
    | cons s rest =>
      apply Run.ended_bind (spawned _ .firstStmt)
      intro flow m₁ first
      cases flow with
      | normal => exact spawned _ (.otherStmts first)
      | return_ x => apply Run.ended_value
  | loop turns condition body =>
    cases turns with
    | zero => exact absurd rfl unspent
    | succ turns =>
      show (Run.loop (turns + 1) _ _ m).Ended
      rw [Run.loop_succ]
      apply Run.ended_bind (spawned _ .loopCondition)
      intro x m₁ first
      by_cases holds : x.isTruthy
      · rw [if_pos holds]
        apply Run.ended_bind (spawned _ (.loopBody first holds))
        intro flow m₂ turned
        cases flow with
        | normal => exact spawned _ (.otherTurns first holds turned)
        | return_ y => apply Run.ended_value
      · rw [if_neg holds]
        apply Run.ended_value
  | invoke f arguments =>
    cases n with
    | zero => exact absurd rfl unspent
    | succ n =>
      show (Closure.invoke (n + 1) f arguments m).Ended
      rw [Closure.invoke]
      apply Run.ended_bind (Run.ended_onStore _ m)
      intro environment m₁ entered
      cases entered
      have body : (Stmt.executeAll n (Closure.invoke n) f.declaration.body (m.entered f arguments)).Ended :=
        spawned _ .body
      apply Run.ended_bind (Run.ended_within body)
      intro flow m₂ _
      split
      · apply Run.ended_tryRead
      · cases flow <;> apply Run.ended_value
  | program p =>
    show (Run.program n p m).Ended
    cases p with
    | nil => apply Run.ended_value
    | cons s rest =>
      apply Run.ended_bind (spawned _ .firstOfProgram)
      intro flow m₁ first
      exact spawned _ (.othersOfProgram first)

def Fuelled (a : Activity) : Prop :=
  match a.task with
  | .invoke _ _ => maxCallDepth < a.fuel + a.machine.depth
  | _ => maxCallDepth ≤ a.fuel + a.machine.depth

/-- The code still to be run, a loop apart. -/
noncomputable def size (a : Activity) : Nat :=
  match a.task with
  | .expr e => sizeOf e
  | .exprs es => sizeOf es
  | .stmt s => sizeOf s
  | .stmts ss => sizeOf ss
  | .loop _ _ _ => 0
  | .invoke f _ => sizeOf f.declaration.body + 1
  | .program p => sizeOf p

def Loops (a : Activity) : Prop :=
  match a.task with
  | .stmt (.while_ _ _) => True
  | .loop _ _ _ => True
  | _ => False

theorem Spawns.fuelled (spawns : a.Spawns b) (fuelled : a.Fuelled) : b.Fuelled := by
  have depth := spawns.depth
  cases spawns <;> simp only [Fuelled] at depth fuelled ⊢ <;> omega

theorem Spawns.size_lt (spawns : a.Spawns b) (straight : ¬a.Loops) : (∃ f arguments, b.task = .invoke f arguments) ∨
    b.size < a.size := by
  cases spawns with
  | call => exact .inl ⟨_, _, rfl⟩
  | turns | loopCondition | loopBody | otherTurns => exact absurd trivial straight
  | _ =>
    right
    simp only [size]
    simp +arith

theorem During.after {c : Activity} (spawns : a.Spawns b) (during : b.During c) : a.During c := by
  induction during with
  | start => exact .spawned .start spawns
  | spawned _ spawns' ih => exact .spawned ih spawns'

theorem Fuelled.unspent (fuelled : a.Fuelled) (bounded : a.machine.depth ≤ maxCallDepth) (straight : ¬a.Loops) :
    ¬a.Spent := by
  obtain ⟨n, task, m⟩ := a
  cases task with
  | invoke f arguments =>
    simp only [Fuelled, Spent] at fuelled bounded ⊢
    omega
  | loop => exact absurd trivial straight
  | _ => exact id

/-- What comes to no loop ends. By induction on the room for further calls, and for one depth on the code to be run. -/
theorem ended_of_straight (a : Activity) (bounded : a.machine.depth ≤ maxCallDepth) (fuelled : a.Fuelled)
    (straight : ∀ b, a.During b → ¬b.Loops) : a.Ended := by
  apply ended_of_spawned (fuelled.unspent bounded (straight a .start))
  intro b spawns
  apply ended_of_straight b (spawns.depth_le bounded) (spawns.fuelled fuelled)
  intro c during
  exact straight c (.after spawns during)
termination_by (maxCallDepth - a.machine.depth, a.size)
decreasing_by
  have depth := spawns.depth
  rcases spawns.size_lt (straight a .start) with ⟨f, arguments, called⟩ | smaller
  · rw [called] at depth
    exact Prod.Lex.left _ _ (by omega)
  · split at depth
    · exact Prod.Lex.left _ _ (by omega)
    · rw [depth]
      exact Prod.Lex.right _ smaller

end Activity
end Lox
