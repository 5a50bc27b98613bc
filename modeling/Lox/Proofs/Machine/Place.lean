import Lox.Proofs.Machine.Frame

namespace Lox

namespace Machine

structure SamePlace (m m' : Machine) : Prop where
  globals : m'.globals = m.globals
  environment : m'.environment = m.environment
  depth : m'.depth = m.depth

variable {m m' m'' : Machine}

theorem SamePlace.refl (m : Machine) : m.SamePlace m := ⟨rfl, rfl, rfl⟩

theorem SamePlace.trans (first : m.SamePlace m') (second : m'.SamePlace m'') : m.SamePlace m'' :=
  ⟨second.globals.trans first.globals, second.environment.trans first.environment, second.depth.trans first.depth⟩

theorem SamePlace.deeper (same : m.deepened.SamePlace m') : m.SamePlace { m' with depth := m'.depth - 1 } := by
  refine ⟨same.globals, same.environment, ?_⟩
  show m'.depth - 1 = m.depth
  rw [same.depth]
  rfl

end Machine

def Frame.place : Frame where
  Related := Machine.SamePlace
  refl := .refl
  trans := .trans
  store _ _ _ := ⟨rfl, rfl, rfl⟩
  print _ _ := ⟨rfl, rfl, rfl⟩
  clock _ _ := ⟨rfl, rfl, rfl⟩
  within _ _ _ same := ⟨same.globals, rfl, same.depth⟩
  deeper _ _ same := same.deeper

def Run.Restores {α : Type} (action : Run α) : Prop := ∀ m m', (action m).machine? = some m' → m.SamePlace m'

def Invoke.Restores (invoke : Invoke) : Prop := ∀ f arguments, (invoke f arguments).Restores

section

variable {α : Type} {action : Run α} {invoke : Invoke}

theorem Run.Restores.keeps (restores : action.Restores) : action.Keeps .place := restores

theorem Invoke.Restores.keeps (calls : invoke.Restores) : invoke.Keeps .place := calls

theorem Run.Restores.of_value {result : α} {m m' : Machine} (restores : action.Restores)
    (done : action m = .value result m') : m.SamePlace m' := restores.keeps.of_value done

theorem Run.Restores.of_fault {fault : Fault} {m m' : Machine} (restores : action.Restores)
    (failed : action m = .fault fault m') : m.SamePlace m' := restores.keeps.of_fault failed

theorem Run.Restores.within (restores : action.Restores) (environment : Environment) :
    (Run.within environment action).Restores := restores.keeps.within environment

theorem Run.restores_call (calls : invoke.Restores) (callee : Value) (paren : Token) (arguments : List Value) :
    (Run.call invoke callee paren arguments).Restores := Run.keeps_call calls.keeps callee paren arguments

theorem Expr.evaluate_restores (calls : invoke.Restores) (e : Expr) : (e.evaluate invoke).Restores :=
  Expr.evaluate_keeps calls.keeps e

theorem Expr.evaluateAll_restores (calls : invoke.Restores) (es : List Expr) : (Expr.evaluateAll invoke es).Restores :=
  Expr.evaluateAll_keeps calls.keeps es

theorem Stmt.execute_restores (calls : invoke.Restores) (fuel : Nat) (s : Stmt) : (s.execute fuel invoke).Restores :=
  Stmt.execute_keeps calls.keeps fuel s

theorem Stmt.executeAll_restores (calls : invoke.Restores) (fuel : Nat) (ss : List Stmt) :
    (Stmt.executeAll fuel invoke ss).Restores := Stmt.executeAll_keeps calls.keeps fuel ss

end

theorem Closure.invoke_restores (n : Nat) : (Closure.invoke n).Restores := (Closure.invoke_keeps n : Invoke.Keeps .place _)

theorem Run.restores_program (n : Nat) (program : List Stmt) : (Run.program n program).Restores :=
  (Run.keeps_program n program : Run.Keeps .place _)

theorem Expr.samePlace {n : Nat} {e : Expr} {x : Value} {m m₁ : Machine}
    (done : e.evaluate (Closure.invoke n) m = .value x m₁) : m.SamePlace m₁ :=
  (Expr.evaluate_restores (Closure.invoke_restores n) e).of_value done

theorem Stmt.samePlace {n : Nat} {s : Stmt} {flow : Flow} {m m₁ : Machine}
    (done : s.execute n (Closure.invoke n) m = .value flow m₁) : m.SamePlace m₁ :=
  (Stmt.execute_restores (Closure.invoke_restores n) n s).of_value done

/-- The machine as it is at some moment of an activity: when something that goes on in it begins or ends, or when a
    call has just been let through. -/
inductive Activity.Passes (a : Activity) : Machine → Prop where
  | begins {b : Activity} (during : a.During b) : Passes a b.machine
  | ends {b : Activity} {m : Machine} (during : a.During b) (ended : b.machine? = some m) : Passes a m
  | called {n : Nat} {callee : Expr} {paren : Token} {arguments : List Expr} {x : Value} {xs : List Value}
      {m m₁ m₂ : Machine} (during : a.During ⟨n, .expr (.call callee paren arguments), m⟩)
      (first : callee.evaluate (Closure.invoke n) m = .value x m₁)
      (given : Expr.evaluateAll (Closure.invoke n) arguments m₁ = .value xs m₂)
      (fits : x.arity? = some xs.length) (counted : ∀ f, x ≠ .native f) (shallow : m₂.depth < maxCallDepth) :
      Passes a m₂.deepened

namespace Activity

variable {a b : Activity} {m : Machine}

theorem machine?_samePlace (ended : a.machine? = some m) : a.machine.SamePlace m := Frame.place.machine?_related ended

theorem Spawns.depth (spawns : a.Spawns b) :
    match b.task with
    | .invoke _ _ => a.machine.depth < maxCallDepth ∧ b.machine.depth = a.machine.depth + 1
    | _ => b.machine.depth = a.machine.depth := by
  cases spawns with
  | rightOperand first | arguments first | rightChoice first | setValue first | otherExprs first | ifBranch first
  | thenBranch first | elseBranch first | loopBody first => exact (Expr.samePlace first).depth
  | otherTurns first _ turned => exact (Stmt.samePlace turned).depth.trans (Expr.samePlace first).depth
  | otherStmts first | othersOfProgram first => exact (Stmt.samePlace first).depth
  | @call n callee paren arguments x xs f m m₁ m₂ m₃ first given calls =>
    have values := ((Expr.evaluateAll_restores (Closure.invoke_restores n) arguments).of_value given).depth
    have before : m₂.depth = m.depth := values.trans (Expr.samePlace first).depth
    show m.depth < maxCallDepth ∧ m₃.depth = m.depth + 1
    rw [← before]
    cases calls with
    | function fits shallow | class_ fits shallow found => exact ⟨shallow, rfl⟩
  | _ => rfl

theorem Spawns.depth_le (spawns : a.Spawns b) (bounded : a.machine.depth ≤ maxCallDepth) :
    b.machine.depth ≤ maxCallDepth := by
  have depth := spawns.depth
  split at depth <;> omega

theorem Spawns.le_depth (spawns : a.Spawns b) : a.machine.depth ≤ b.machine.depth := by
  have depth := spawns.depth
  split at depth <;> omega

theorem During.le_depth (during : a.During b) : a.machine.depth ≤ b.machine.depth := by
  induction during with
  | start => exact Nat.le_refl _
  | spawned _ spawns ih => exact Nat.le_trans ih spawns.le_depth

theorem During.depth_le (during : a.During b) (bounded : a.machine.depth ≤ maxCallDepth) :
    b.machine.depth ≤ maxCallDepth := by
  induction during with
  | start => exact bounded
  | spawned _ spawns ih => exact spawns.depth_le ih

theorem Passes.depth_le (passes : a.Passes m) (bounded : a.machine.depth ≤ maxCallDepth) : m.depth ≤ maxCallDepth := by
  cases passes with
  | begins during => exact during.depth_le bounded
  | ends during ended =>
    rw [(machine?_samePlace ended).depth]
    exact during.depth_le bounded
  | called during first given fits counted shallow => exact shallow

end Activity
end Lox
