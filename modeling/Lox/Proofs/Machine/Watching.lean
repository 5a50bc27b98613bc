import Lox.Proofs.Machine.Termination

namespace Lox

namespace Closure

def runBody (fuel : Nat) (invoke : Invoke) (f : Closure) (arguments : List Value) : Run Value := do
  let environment ← Run.onStore (f.enter arguments)
  let flow ← Run.within environment (Stmt.executeAll fuel invoke f.declaration.body)
  if f.isInitializer then Run.tryRead (·.store.getAt f.environment 0 "this")
  else match flow with
    | .normal => return .nil
    | .return_ value => return value

theorem invoke_succ (fuel : Nat) (f : Closure) (arguments : List Value) :
    invoke (fuel + 1) f arguments = f.runBody fuel (invoke fuel) arguments := rfl

open Classical in
/-- Runs functions as usual, but only those that are expected. -/
noncomputable def watched (expected : Nat → Closure → List Value → Machine → Prop) (other : Invoke) : Nat → Invoke
  | 0 => fun f arguments m => if expected 0 f arguments m then .outOfFuel else other f arguments m
  | fuel + 1 => fun f arguments m =>
    if expected (fuel + 1) f arguments m then f.runBody fuel (watched expected other fuel) arguments m
    else other f arguments m

end Closure

namespace Run

variable {α β : Type} {action action' : Run α} {next next' : α → Run β} {m : Machine}

theorem bind_agree (first : action' m = action m) (rest : ∀ x m₁, action m = .value x m₁ → next' x m₁ = next x m₁) :
    (action' >>= next') m = (action >>= next) m := by
  cases done : action m with
  | value x m₁ => rw [bind_value done, bind_value (first.trans done), rest x m₁ done]
  | fault fault m₁ => rw [bind_fault done, bind_fault (first.trans done)]
  | outOfFuel => rw [bind_outOfFuel done, bind_outOfFuel (first.trans done)]

theorem bind_agree_left (first : action' m = action m) : (action' >>= next) m = (action >>= next) m :=
  bind_agree first fun _ _ _ => rfl

theorem within_agree {environment : Environment}
    (same : action' { m with environment := environment } = action { m with environment := environment }) :
    within environment action' m = within environment action m := by
  unfold within
  rw [same]

theorem nested_agree {paren : Token} {action action' : Run Value}
    (same : m.depth < maxCallDepth → action' m.deepened = action m.deepened) :
    nested paren action' m = nested paren action m := by
  by_cases shallow : m.depth < maxCallDepth
  · rw [nested_shallow shallow, nested_shallow shallow]
    unfold deeper
    rw [← Machine.deepened, same shallow]
  · show (if maxCallDepth ≤ m.depth then _ else _ : Run Value) m = (if maxCallDepth ≤ m.depth then _ else _ : Run Value) m
    rw [if_pos (Nat.not_lt.mp shallow), if_pos (Nat.not_lt.mp shallow)]

theorem call_agree {invoke invoke' : Invoke} {x : Value} {paren : Token} {xs : List Value}
    (same : ∀ f m₁, x.Calls xs m f m₁ → invoke' f xs m₁ = invoke f xs m₁) :
    call invoke' x paren xs m = call invoke x paren xs m := by
  unfold call
  cases taken : x.arity? with
  | none => rfl
  | some arity =>
    dsimp only
    by_cases fits : xs.length = arity
    · rw [if_neg (not_not_intro fits), if_neg (not_not_intro fits)]
      cases x with
      | function identity f =>
        cases taken
        exact nested_agree fun shallow => same f _ (.function fits shallow)
      | class_ c =>
        cases taken
        refine nested_agree fun shallow => ?_
        cases found : c.initializer? with
        | none =>
          unfold instantiate
          rw [found]
        | some initializer =>
          rw [instantiate_some found, instantiate_some found]
          exact bind_agree_left (same _ _ (.class_ fits shallow found))
      | _ => rfl
    · rw [if_pos fits, if_pos fits]

end Run

def Activity.Expected (expected : Nat → Closure → List Value → Machine → Prop) (a : Activity) : Prop :=
  ∀ n f arguments m, a.During ⟨n, .invoke f arguments, m⟩ → expected n f arguments m

section

variable {expected : Nat → Closure → List Value → Machine → Prop} {n : Nat} {invoke : Invoke}

theorem Activity.Expected.spawned {a b : Activity} (met : a.Expected expected) (spawns : a.Spawns b) :
    b.Expected expected := fun _ _ _ _ during => met _ _ _ _ (.after spawns during)

def Invoke.Usual (expected : Nat → Closure → List Value → Machine → Prop) (n : Nat) (invoke : Invoke) : Prop :=
  ∀ f arguments m, Activity.Expected expected ⟨n, .invoke f arguments, m⟩ →
    invoke f arguments m = Closure.invoke n f arguments m

mutual

theorem Expr.evaluate_usual (usual : invoke.Usual expected n) :
    ∀ (e : Expr) (m : Machine), Activity.Expected expected ⟨n, .expr e, m⟩ →
      e.evaluate invoke m = e.evaluate (Closure.invoke n) m
  | .assign id name value, m, met => by
    rw [Expr.evaluate, Expr.evaluate]
    exact Run.bind_agree_left (value.evaluate_usual usual m (met.spawned .assigned))
  | .binary left operator right, m, met => by
    rw [Expr.evaluate, Expr.evaluate]
    refine Run.bind_agree (left.evaluate_usual usual m (met.spawned .leftOperand)) fun x m₁ first => ?_
    exact Run.bind_agree_left (right.evaluate_usual usual m₁ (met.spawned (.rightOperand first)))
  | .call callee paren arguments, m, met => by
    -- Only here is a function run, and only if the call is let through.
    rw [Expr.evaluate, Expr.evaluate]
    refine Run.bind_agree (callee.evaluate_usual usual m (met.spawned .callee)) fun x m₁ first => ?_
    refine Run.bind_agree (Expr.evaluateAll_usual usual arguments m₁ (met.spawned (.arguments first))) fun xs m₂ given => ?_
    exact Run.call_agree fun f m₃ calls => usual f xs m₃ (met.spawned (.call first given calls))
  | .get object name, m, met => by
    rw [Expr.evaluate, Expr.evaluate]
    exact Run.bind_agree_left (object.evaluate_usual usual m (met.spawned .owner))
  | .grouping inner, m, met => by
    rw [Expr.evaluate, Expr.evaluate]
    exact inner.evaluate_usual usual m (met.spawned .grouped)
  | .constant _, m, met | .super_ _ _ _, m, met | .this_ _ _, m, met | .variable_ _ _, m, met => by
    rw [Expr.evaluate, Expr.evaluate]
  | .logical left operator right, m, met => by
    rw [Expr.evaluate, Expr.evaluate]
    refine Run.bind_agree (left.evaluate_usual usual m (met.spawned .leftChoice)) fun x m₁ first => ?_
    cases decided : isDecided operator x with
    | true => rfl
    | false => exact right.evaluate_usual usual m₁ (met.spawned (.rightChoice first decided))
  | .set object name value, m, met => by
    rw [Expr.evaluate, Expr.evaluate]
    refine Run.bind_agree (object.evaluate_usual usual m (met.spawned .setOwner)) fun x m₁ first => ?_
    cases x with
    | instance_ identity c => exact Run.bind_agree_left (value.evaluate_usual usual m₁ (met.spawned (.setValue first)))
    | _ => rfl
  | .unary operator right, m, met => by
    rw [Expr.evaluate, Expr.evaluate]
    exact Run.bind_agree_left (right.evaluate_usual usual m (met.spawned .operand))

theorem Expr.evaluateAll_usual (usual : invoke.Usual expected n) :
    ∀ (es : List Expr) (m : Machine), Activity.Expected expected ⟨n, .exprs es, m⟩ →
      Expr.evaluateAll invoke es m = Expr.evaluateAll (Closure.invoke n) es m
  | [], m, met => by rw [Expr.evaluateAll, Expr.evaluateAll]
  | e :: rest, m, met => by
    rw [Expr.evaluateAll, Expr.evaluateAll]
    refine Run.bind_agree (e.evaluate_usual usual m (met.spawned .firstExpr)) fun x m₁ first => ?_
    exact Run.bind_agree_left (Expr.evaluateAll_usual usual rest m₁ (met.spawned (.otherExprs first)))

end

theorem Run.loop_usual {condition : Expr} {body : Stmt}
    (tests : ∀ m, Activity.Expected expected ⟨n, .expr condition, m⟩ →
      condition.evaluate invoke m = condition.evaluate (Closure.invoke n) m)
    (runs : ∀ m, Activity.Expected expected ⟨n, .stmt body, m⟩ →
      body.execute n invoke m = body.execute n (Closure.invoke n) m)
    (turns : Nat) (m : Machine) (met : Activity.Expected expected ⟨n, .loop turns condition body, m⟩) :
    Run.loop turns (condition.evaluate invoke) (body.execute n invoke) m =
      Run.loop turns (condition.evaluate (Closure.invoke n)) (body.execute n (Closure.invoke n)) m := by
  induction turns generalizing m with
  | zero => rfl
  | succ turns ih =>
    rw [Run.loop_succ, Run.loop_succ]
    refine Run.bind_agree (tests m (met.spawned .loopCondition)) fun x m₁ first => ?_
    cases holds : x.isTruthy with
    | false => rfl
    | true =>
      refine Run.bind_agree (runs m₁ (met.spawned (.loopBody first holds))) fun flow m₂ turned => ?_
      cases flow with
      | normal => exact ih m₂ (met.spawned (.otherTurns first holds turned))
      | return_ y => rfl

mutual

theorem Stmt.execute_usual (usual : invoke.Usual expected n) :
    ∀ (s : Stmt) (m : Machine), Activity.Expected expected ⟨n, .stmt s, m⟩ →
      s.execute n invoke m = s.execute n (Closure.invoke n) m
  | .block body, m, met => by
    rw [Stmt.execute, Stmt.execute]
    exact Run.within_agree (Stmt.executeAll_usual usual body _ (met.spawned .block))
  | .class_ name none methods, m, met => by
    rw [Stmt.execute, Stmt.execute, Run.defineClass_eq, Run.defineClass_eq]
    rfl
  | .class_ name (some superclass) methods, m, met => by
    rw [Stmt.execute, Stmt.execute, Run.defineClass_eq, Run.defineClass_eq]
    have evaluated := superclass.evaluate_usual usual m (met.spawned .superclass)
    exact Run.bind_agree_left (Run.bind_agree_left (Run.bind_agree_left evaluated))
  | .expression e, m, met => by
    rw [Stmt.execute, Stmt.execute]
    exact Run.bind_agree_left (e.evaluate_usual usual m (met.spawned .expression))
  | .function declaration, m, met => by rw [Stmt.execute, Stmt.execute]
  | .ifThen condition thenBranch, m, met => by
    rw [Stmt.execute, Stmt.execute]
    refine Run.bind_agree (condition.evaluate_usual usual m (met.spawned .ifCondition)) fun x m₁ first => ?_
    cases holds : x.isTruthy with
    | false => rfl
    | true => exact thenBranch.execute_usual usual m₁ (met.spawned (.ifBranch first holds))
  | .ifThenElse condition thenBranch elseBranch, m, met => by
    rw [Stmt.execute, Stmt.execute]
    refine Run.bind_agree (condition.evaluate_usual usual m (met.spawned .condition)) fun x m₁ first => ?_
    cases holds : x.isTruthy with
    | false => exact elseBranch.execute_usual usual m₁ (met.spawned (.elseBranch first holds))
    | true => exact thenBranch.execute_usual usual m₁ (met.spawned (.thenBranch first holds))
  | .print_ e, m, met => by
    rw [Stmt.execute, Stmt.execute]
    exact Run.bind_agree_left (e.evaluate_usual usual m (met.spawned .print_))
  | .return_ _ none, m, met | .var_ _ none, m, met => by
    rw [Stmt.execute, Stmt.execute]
    rfl
  | .return_ keyword (some e), m, met => by
    rw [Stmt.execute, Stmt.execute]
    exact Run.bind_agree_left (e.evaluate_usual usual m (met.spawned .returned))
  | .var_ name (some e), m, met => by
    rw [Stmt.execute, Stmt.execute]
    exact Run.bind_agree_left (e.evaluate_usual usual m (met.spawned .initializer))
  | .while_ condition body, m, met => by
    rw [Stmt.execute, Stmt.execute]
    exact Run.loop_usual (condition.evaluate_usual usual) (body.execute_usual usual) n m (met.spawned .turns)

theorem Stmt.executeAll_usual (usual : invoke.Usual expected n) :
    ∀ (ss : List Stmt) (m : Machine), Activity.Expected expected ⟨n, .stmts ss, m⟩ →
      Stmt.executeAll n invoke ss m = Stmt.executeAll n (Closure.invoke n) ss m
  | [], m, met => by rw [Stmt.executeAll, Stmt.executeAll]
  | s :: rest, m, met => by
    rw [Stmt.executeAll, Stmt.executeAll]
    refine Run.bind_agree (s.execute_usual usual m (met.spawned .firstStmt)) fun flow m₁ first => ?_
    cases flow with
    | normal => exact Stmt.executeAll_usual usual rest m₁ (met.spawned (.otherStmts first))
    | return_ x => rfl

end

theorem Closure.watched_usual (expected : Nat → Closure → List Value → Machine → Prop) (other : Invoke) (n : Nat) :
    (Closure.watched expected other n).Usual expected n := by
  induction n with
  | zero =>
    intro f arguments m met
    exact if_pos (met _ _ _ _ .start)
  | succ n ih =>
    intro f arguments m met
    rw [invoke_succ]
    refine (if_pos (met _ _ _ _ .start)).trans ?_
    exact Run.bind_agree_left (Run.within_agree (Stmt.executeAll_usual ih _ _ (met.spawned .body)))

end

def Run.programWith (fuel : Nat) (invoke : Invoke) : List Stmt → Run Unit
  | [] => return ()
  | stmt :: rest => do
    let _ ← stmt.execute fuel invoke
    programWith fuel invoke rest

theorem Run.program_watched {expected : Nat → Closure → List Value → Machine → Prop} (other : Invoke) {fuel : Nat}
    {program : List Stmt} {m : Machine} (met : Activity.Expected expected ⟨fuel, .program program, m⟩) :
    Run.programWith fuel (Closure.watched expected other fuel) program m = Run.program fuel program m := by
  induction program generalizing m with
  | nil => rfl
  | cons s rest ih =>
    have usual := Closure.watched_usual expected other fuel
    refine Run.bind_agree (s.execute_usual usual m (met.spawned .firstOfProgram)) fun flow m₁ first => ?_
    exact ih (met.spawned (.othersOfProgram first))

end Lox
