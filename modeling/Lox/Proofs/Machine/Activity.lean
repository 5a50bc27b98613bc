import Lox.Machine.Execution

namespace Lox

inductive Task where
  | expr (expr : Expr)
  | exprs (exprs : List Expr)
  | stmt (stmt : Stmt)
  | stmts (stmts : List Stmt)
  /-- So many turns of a loop. -/
  | loop (turns : Nat) (condition : Expr) (body : Stmt)
  | invoke (closure : Closure) (arguments : List Value)
  | program (program : List Stmt)

structure Activity where
  fuel : Nat
  task : Task
  /-- The machine when the task begins. -/
  machine : Machine

def Outcome.fault? {α : Type} : Outcome α → Option Fault
  | value _ _ => none
  | fault f _ => some f
  | outOfFuel => none

def Activity.fault? (a : Activity) : Option Fault :=
  match a.task with
  | .expr e => (e.evaluate (Closure.invoke a.fuel) a.machine).fault?
  | .exprs es => (Expr.evaluateAll (Closure.invoke a.fuel) es a.machine).fault?
  | .stmt s => (s.execute a.fuel (Closure.invoke a.fuel) a.machine).fault?
  | .stmts ss => (Stmt.executeAll a.fuel (Closure.invoke a.fuel) ss a.machine).fault?
  | .loop turns condition body =>
    (Run.loop turns (condition.evaluate (Closure.invoke a.fuel)) (body.execute a.fuel (Closure.invoke a.fuel))
      a.machine).fault?
  | .invoke f arguments => (Closure.invoke a.fuel f arguments a.machine).fault?
  | .program p => (Run.program a.fuel p a.machine).fault?

namespace Machine

def deepened (m : Machine) : Machine := { m with depth := m.depth + 1 }

def inside (m : Machine) (enclosing : Environment) : Machine :=
  { m with environment := (m.store.childOf enclosing).1, store := (m.store.childOf enclosing).2 }

def entered (m : Machine) (f : Closure) (arguments : List Value) : Machine :=
  { m with environment := (f.enter arguments m.store).1, store := (f.enter arguments m.store).2 }

end Machine

def Store.construct (s : Store) (initializer : Closure) (c : Class) : Closure × Store :=
  s.instantiate.2.bindMethod initializer s.instantiate.1 c

/-- A call of the value comes to the body of a function. -/
inductive Value.Calls : Value → List Value → Machine → Closure → Machine → Prop where
  | function {identity : Identity} {f : Closure} {arguments : List Value} {m : Machine}
      (fits : arguments.length = f.arity) (shallow : m.depth < maxCallDepth) :
      Calls (.function identity f) arguments m f m.deepened
  | class_ {c : Class} {initializer : Closure} {arguments : List Value} {m : Machine}
      (fits : arguments.length = c.arity) (shallow : m.depth < maxCallDepth)
      (found : c.initializer? = some initializer) :
      Calls (.class_ c) arguments m (m.store.construct initializer c).1
        { m.deepened with store := (m.store.construct initializer c).2 }

/-- On the way, the first activity comes to the second. -/
inductive Activity.Spawns : Activity → Activity → Prop where
  | assigned {n : Nat} {id : NodeId} {name : Token} {value : Expr} {m : Machine} :
      Spawns ⟨n, .expr (.assign id name value), m⟩ ⟨n, .expr value, m⟩
  | leftOperand {n : Nat} {left right : Expr} {operator : Token} {m : Machine} :
      Spawns ⟨n, .expr (.binary left operator right), m⟩ ⟨n, .expr left, m⟩
  | rightOperand {n : Nat} {left right : Expr} {operator : Token} {x : Value} {m m₁ : Machine}
      (first : left.evaluate (Closure.invoke n) m = .value x m₁) :
      Spawns ⟨n, .expr (.binary left operator right), m⟩ ⟨n, .expr right, m₁⟩
  | callee {n : Nat} {callee : Expr} {paren : Token} {arguments : List Expr} {m : Machine} :
      Spawns ⟨n, .expr (.call callee paren arguments), m⟩ ⟨n, .expr callee, m⟩
  | arguments {n : Nat} {callee : Expr} {paren : Token} {arguments : List Expr} {x : Value} {m m₁ : Machine}
      (first : callee.evaluate (Closure.invoke n) m = .value x m₁) :
      Spawns ⟨n, .expr (.call callee paren arguments), m⟩ ⟨n, .exprs arguments, m₁⟩
  | call {n : Nat} {callee : Expr} {paren : Token} {arguments : List Expr} {x : Value} {xs : List Value}
      {f : Closure} {m m₁ m₂ m₃ : Machine} (first : callee.evaluate (Closure.invoke n) m = .value x m₁)
      (given : Expr.evaluateAll (Closure.invoke n) arguments m₁ = .value xs m₂) (calls : x.Calls xs m₂ f m₃) :
      Spawns ⟨n, .expr (.call callee paren arguments), m⟩ ⟨n, .invoke f xs, m₃⟩
  | owner {n : Nat} {object : Expr} {name : Token} {m : Machine} :
      Spawns ⟨n, .expr (.get object name), m⟩ ⟨n, .expr object, m⟩
  | grouped {n : Nat} {inner : Expr} {m : Machine} : Spawns ⟨n, .expr (.grouping inner), m⟩ ⟨n, .expr inner, m⟩
  | leftChoice {n : Nat} {left right : Expr} {operator : Token} {m : Machine} :
      Spawns ⟨n, .expr (.logical left operator right), m⟩ ⟨n, .expr left, m⟩
  | rightChoice {n : Nat} {left right : Expr} {operator : Token} {x : Value} {m m₁ : Machine}
      (first : left.evaluate (Closure.invoke n) m = .value x m₁) (undecided : isDecided operator x = false) :
      Spawns ⟨n, .expr (.logical left operator right), m⟩ ⟨n, .expr right, m₁⟩
  | setOwner {n : Nat} {object value : Expr} {name : Token} {m : Machine} :
      Spawns ⟨n, .expr (.set object name value), m⟩ ⟨n, .expr object, m⟩
  | setValue {n : Nat} {object value : Expr} {name : Token} {identity : Identity} {c : Class} {m m₁ : Machine}
      (first : object.evaluate (Closure.invoke n) m = .value (.instance_ identity c) m₁) :
      Spawns ⟨n, .expr (.set object name value), m⟩ ⟨n, .expr value, m₁⟩
  | operand {n : Nat} {operator : Token} {right : Expr} {m : Machine} :
      Spawns ⟨n, .expr (.unary operator right), m⟩ ⟨n, .expr right, m⟩
  | firstExpr {n : Nat} {expr : Expr} {rest : List Expr} {m : Machine} :
      Spawns ⟨n, .exprs (expr :: rest), m⟩ ⟨n, .expr expr, m⟩
  | otherExprs {n : Nat} {expr : Expr} {rest : List Expr} {x : Value} {m m₁ : Machine}
      (first : expr.evaluate (Closure.invoke n) m = .value x m₁) :
      Spawns ⟨n, .exprs (expr :: rest), m⟩ ⟨n, .exprs rest, m₁⟩
  | block {n : Nat} {body : List Stmt} {m : Machine} :
      Spawns ⟨n, .stmt (.block body), m⟩ ⟨n, .stmts body, m.inside m.environment⟩
  | superclass {n : Nat} {name : Token} {superclass : Expr} {methods : List FunctionDecl} {m : Machine} :
      Spawns ⟨n, .stmt (.class_ name (some superclass) methods), m⟩ ⟨n, .expr superclass, m⟩
  | expression {n : Nat} {expr : Expr} {m : Machine} : Spawns ⟨n, .stmt (.expression expr), m⟩ ⟨n, .expr expr, m⟩
  | ifCondition {n : Nat} {condition : Expr} {thenBranch : Stmt} {m : Machine} :
      Spawns ⟨n, .stmt (.ifThen condition thenBranch), m⟩ ⟨n, .expr condition, m⟩
  | ifBranch {n : Nat} {condition : Expr} {thenBranch : Stmt} {x : Value} {m m₁ : Machine}
      (first : condition.evaluate (Closure.invoke n) m = .value x m₁) (holds : x.isTruthy = true) :
      Spawns ⟨n, .stmt (.ifThen condition thenBranch), m⟩ ⟨n, .stmt thenBranch, m₁⟩
  | condition {n : Nat} {condition : Expr} {thenBranch elseBranch : Stmt} {m : Machine} :
      Spawns ⟨n, .stmt (.ifThenElse condition thenBranch elseBranch), m⟩ ⟨n, .expr condition, m⟩
  | thenBranch {n : Nat} {condition : Expr} {thenBranch elseBranch : Stmt} {x : Value} {m m₁ : Machine}
      (first : condition.evaluate (Closure.invoke n) m = .value x m₁) (holds : x.isTruthy = true) :
      Spawns ⟨n, .stmt (.ifThenElse condition thenBranch elseBranch), m⟩ ⟨n, .stmt thenBranch, m₁⟩
  | elseBranch {n : Nat} {condition : Expr} {thenBranch elseBranch : Stmt} {x : Value} {m m₁ : Machine}
      (first : condition.evaluate (Closure.invoke n) m = .value x m₁) (fails : x.isTruthy = false) :
      Spawns ⟨n, .stmt (.ifThenElse condition thenBranch elseBranch), m⟩ ⟨n, .stmt elseBranch, m₁⟩
  | print_ {n : Nat} {expr : Expr} {m : Machine} : Spawns ⟨n, .stmt (.print_ expr), m⟩ ⟨n, .expr expr, m⟩
  | returned {n : Nat} {keyword : Token} {expr : Expr} {m : Machine} :
      Spawns ⟨n, .stmt (.return_ keyword (some expr)), m⟩ ⟨n, .expr expr, m⟩
  | initializer {n : Nat} {name : Token} {expr : Expr} {m : Machine} :
      Spawns ⟨n, .stmt (.var_ name (some expr)), m⟩ ⟨n, .expr expr, m⟩
  | turns {n : Nat} {condition : Expr} {body : Stmt} {m : Machine} :
      Spawns ⟨n, .stmt (.while_ condition body), m⟩ ⟨n, .loop n condition body, m⟩
  | loopCondition {n turns : Nat} {condition : Expr} {body : Stmt} {m : Machine} :
      Spawns ⟨n, .loop (turns + 1) condition body, m⟩ ⟨n, .expr condition, m⟩
  | loopBody {n turns : Nat} {condition : Expr} {body : Stmt} {x : Value} {m m₁ : Machine}
      (first : condition.evaluate (Closure.invoke n) m = .value x m₁) (holds : x.isTruthy = true) :
      Spawns ⟨n, .loop (turns + 1) condition body, m⟩ ⟨n, .stmt body, m₁⟩
  | otherTurns {n turns : Nat} {condition : Expr} {body : Stmt} {x : Value} {m m₁ m₂ : Machine}
      (first : condition.evaluate (Closure.invoke n) m = .value x m₁) (holds : x.isTruthy = true)
      (turned : body.execute n (Closure.invoke n) m₁ = .value .normal m₂) :
      Spawns ⟨n, .loop (turns + 1) condition body, m⟩ ⟨n, .loop turns condition body, m₂⟩
  | firstStmt {n : Nat} {stmt : Stmt} {rest : List Stmt} {m : Machine} :
      Spawns ⟨n, .stmts (stmt :: rest), m⟩ ⟨n, .stmt stmt, m⟩
  | otherStmts {n : Nat} {stmt : Stmt} {rest : List Stmt} {m m₁ : Machine}
      (first : stmt.execute n (Closure.invoke n) m = .value .normal m₁) :
      Spawns ⟨n, .stmts (stmt :: rest), m⟩ ⟨n, .stmts rest, m₁⟩
  | body {n : Nat} {f : Closure} {arguments : List Value} {m : Machine} :
      Spawns ⟨n + 1, .invoke f arguments, m⟩ ⟨n, .stmts f.declaration.body, m.entered f arguments⟩
  | firstOfProgram {n : Nat} {stmt : Stmt} {rest : List Stmt} {m : Machine} :
      Spawns ⟨n, .program (stmt :: rest), m⟩ ⟨n, .stmt stmt, m⟩
  | othersOfProgram {n : Nat} {stmt : Stmt} {rest : List Stmt} {flow : Flow} {m m₁ : Machine}
      (first : stmt.execute n (Closure.invoke n) m = .value flow m₁) :
      Spawns ⟨n, .program (stmt :: rest), m⟩ ⟨n, .program rest, m₁⟩

/-- Everything that goes on in an activity, itself included. -/
inductive Activity.During (a : Activity) : Activity → Prop where
  | start : During a a
  | spawned {b c : Activity} (reached : During a b) (spawns : b.Spawns c) : During a c

def Activity.Shows (a : Activity) (lines : Array Line) : Prop := ∃ b, a.During b ∧ b.machine.lines = lines

theorem Outcome.fault?_eq_some {α : Type} {outcome : Outcome α} {f : Fault} :
    outcome.fault? = some f ↔ ∃ m, outcome = .fault f m := by
  cases outcome <;> simp [Outcome.fault?]

namespace Run

variable {α β : Type} {action : Run α} {next : α → Run β} {m m₁ : Machine} {result : α} {fault : Fault}

theorem bind_value (done : action m = .value result m₁) : (action >>= next) m = next result m₁ := by
  show Run.bind action next m = _
  rw [Run.bind, done]

theorem bind_fault (failed : action m = .fault fault m₁) : (action >>= next) m = .fault fault m₁ := by
  show Run.bind action next m = _
  rw [Run.bind, failed]

theorem bind_outOfFuel (spent : action m = .outOfFuel) : (action >>= next) m = .outOfFuel := by
  show Run.bind action next m = _
  rw [Run.bind, spent]

theorem read_eq {f : Machine → α} : read f m = .value (f m) m := rfl

theorem onStore_eq {f : Store → α × Store} : onStore f m = .value (f m.store).1 { m with store := (f m.store).2 } := rfl

theorem nested_shallow {paren : Token} {action : Run Value} (shallow : m.depth < maxCallDepth) :
    nested paren action m = deeper action m := by
  show (if maxCallDepth ≤ m.depth then fail (.stackOverflow paren) else deeper action) m = _
  rw [if_neg (Nat.not_le.mpr shallow)]

theorem deeper_fault (failed : action m.deepened = .fault fault m₁) :
    deeper action m = .fault fault { m₁ with depth := m₁.depth - 1 } := by
  unfold deeper
  rw [← Machine.deepened, failed]

theorem within_fault {environment : Environment}
    (failed : action { m with environment := environment } = .fault fault m₁) :
    within environment action m = .fault fault { m₁ with environment := m.environment } := by
  unfold within
  rw [failed]

theorem instantiate_some {invoke : Invoke} {c : Class} {initializer : Closure} {arguments : List Value}
    (found : c.initializer? = some initializer) :
    instantiate invoke c arguments m =
      (invoke (m.store.construct initializer c).1 arguments >>= fun _ => Run.pure (.instance_ m.store.instantiate.1 c))
        { m with store := (m.store.construct initializer c).2 } := by
  unfold instantiate
  rw [found]
  rfl

theorem loop_succ (turns : Nat) (condition : Run Value) (body : Run Flow) :
    loop (turns + 1) condition body = (condition >>= fun x => if x.isTruthy then
      body >>= fun flow => match flow with
        | .normal => loop turns condition body
        | .return_ y => Run.pure (.return_ y)
      else Run.pure .normal : Run Flow) := by
  funext m
  show _ = Run.bind _ _ _
  rw [loop, Run.bind]
  cases condition m with
  | fault fault m₁ => rfl
  | outOfFuel => rfl
  | value x m₁ =>
    dsimp only
    split
    · show _ = Run.bind _ _ _
      rw [Run.bind]
      cases body m₁ with
      | fault fault m₂ => rfl
      | outOfFuel => rfl
      | value flow m₂ => cases flow <;> rfl
    · rfl

end Run

theorem Value.Calls.fails {x : Value} {xs : List Value} {f : Closure} {invoke : Invoke} {paren : Token} {fault : Fault}
    {m m₁ m₂ : Machine} (calls : x.Calls xs m f m₁) (failed : invoke f xs m₁ = .fault fault m₂) :
    Run.call invoke x paren xs m = .fault fault { m₂ with depth := m₂.depth - 1 } := by
  cases calls with
  | @function identity f _ _ fits shallow =>
    unfold Run.call
    simp only [Value.arity?, fits, ne_eq, not_true, ↓reduceIte]
    rw [Run.nested_shallow shallow]
    exact Run.deeper_fault failed
  | @class_ c initializer _ _ fits shallow found =>
    unfold Run.call
    simp only [Value.arity?, fits, ne_eq, not_true, ↓reduceIte]
    rw [Run.nested_shallow shallow]
    apply Run.deeper_fault
    rw [Run.instantiate_some found]
    exact Run.bind_fault failed

theorem Activity.Spawns.fails {a b : Activity} {fault : Fault} (spawns : a.Spawns b) (failed : b.fault? = some fault) :
    a.fault? = some fault := by
  cases spawns with
  | assigned | leftOperand | callee | owner | leftChoice | setOwner | operand =>
    obtain ⟨last, failed⟩ := Outcome.fault?_eq_some.mp failed
    simp only [Activity.fault?, Expr.evaluate]
    rw [Run.bind_fault failed]
    rfl
  | rightOperand first | arguments first =>
    obtain ⟨last, failed⟩ := Outcome.fault?_eq_some.mp failed
    simp only [Activity.fault?, Expr.evaluate]
    rw [Run.bind_value first, Run.bind_fault failed]
    rfl
  | call first given calls =>
    obtain ⟨last, failed⟩ := Outcome.fault?_eq_some.mp failed
    simp only [Activity.fault?, Expr.evaluate]
    rw [Run.bind_value first, Run.bind_value given, calls.fails failed]
    rfl
  | grouped =>
    simp only [Activity.fault?, Expr.evaluate]
    exact failed
  | rightChoice first undecided =>
    simp only [Activity.fault?, Expr.evaluate]
    rw [Run.bind_value first, undecided]
    exact failed
  | setValue first =>
    obtain ⟨last, failed⟩ := Outcome.fault?_eq_some.mp failed
    simp only [Activity.fault?, Expr.evaluate]
    rw [Run.bind_value first]
    dsimp only
    rw [Run.bind_fault failed]
    rfl
  | firstExpr =>
    obtain ⟨last, failed⟩ := Outcome.fault?_eq_some.mp failed
    simp only [Activity.fault?, Expr.evaluateAll]
    rw [Run.bind_fault failed]
    rfl
  | otherExprs first =>
    obtain ⟨last, failed⟩ := Outcome.fault?_eq_some.mp failed
    simp only [Activity.fault?, Expr.evaluateAll]
    rw [Run.bind_value first, Run.bind_fault failed]
    rfl
  | block =>
    obtain ⟨last, failed⟩ := Outcome.fault?_eq_some.mp failed
    simp only [Activity.fault?, Stmt.execute]
    rw [Run.bind_value Run.read_eq, Run.bind_value Run.onStore_eq, Run.within_fault failed]
    rfl
  | @superclass n name superclass methods m =>
    obtain ⟨last, failed⟩ := Outcome.fault?_eq_some.mp failed
    have named : Run.superclass (Closure.invoke n) name (some superclass) m = .fault fault last := Run.bind_fault failed
    have defined : Run.defineClass (Closure.invoke n) name (some superclass) methods m = .fault fault last :=
      Run.bind_fault named
    simp only [Activity.fault?, Stmt.execute]
    rw [Run.bind_fault defined]
    rfl
  | expression | ifCondition | condition | print_ =>
    obtain ⟨last, failed⟩ := Outcome.fault?_eq_some.mp failed
    simp only [Activity.fault?, Stmt.execute]
    rw [Run.bind_fault failed]
    rfl
  | ifBranch first holds | thenBranch first holds =>
    simp only [Activity.fault?, Stmt.execute]
    rw [Run.bind_value first, if_pos holds]
    exact failed
  | elseBranch first fails =>
    simp only [Activity.fault?, Stmt.execute]
    rw [Run.bind_value first, if_neg (by simp [fails])]
    exact failed
  | returned | initializer =>
    obtain ⟨last, failed⟩ := Outcome.fault?_eq_some.mp failed
    simp only [Activity.fault?, Stmt.execute, Run.optional]
    rw [Run.bind_fault failed]
    rfl
  | turns => exact failed
  | loopCondition =>
    obtain ⟨last, failed⟩ := Outcome.fault?_eq_some.mp failed
    simp only [Activity.fault?, Run.loop]
    rw [failed]
    rfl
  | loopBody first holds =>
    obtain ⟨last, failed⟩ := Outcome.fault?_eq_some.mp failed
    simp only [Activity.fault?, Run.loop]
    rw [first]
    simp only [holds, ↓reduceIte]
    rw [failed]
    rfl
  | otherTurns first holds turned =>
    simp only [Activity.fault?, Run.loop]
    rw [first]
    simp only [holds, ↓reduceIte]
    rw [turned]
    exact failed
  | firstStmt =>
    obtain ⟨last, failed⟩ := Outcome.fault?_eq_some.mp failed
    simp only [Activity.fault?, Stmt.executeAll]
    rw [Run.bind_fault failed]
    rfl
  | otherStmts first =>
    simp only [Activity.fault?, Stmt.executeAll]
    rw [Run.bind_value first]
    exact failed
  | body =>
    obtain ⟨last, failed⟩ := Outcome.fault?_eq_some.mp failed
    simp only [Activity.fault?, Closure.invoke]
    rw [Run.bind_value Run.onStore_eq, Run.bind_fault (Run.within_fault failed)]
    rfl
  | firstOfProgram =>
    obtain ⟨last, failed⟩ := Outcome.fault?_eq_some.mp failed
    simp only [Activity.fault?, Run.program, Run.execute]
    rw [Run.bind_fault failed]
    rfl
  | othersOfProgram first =>
    simp only [Activity.fault?, Run.program, Run.execute]
    rw [Run.bind_value first]
    exact failed

theorem Activity.During.fails {a b : Activity} {fault : Fault} (during : a.During b) (failed : b.fault? = some fault) :
    a.fault? = some fault := by
  induction during with
  | start => exact failed
  | spawned _ spawns ih => exact ih (spawns.fails failed)

end Lox
