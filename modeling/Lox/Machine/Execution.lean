import Lox.Machine.Evaluation

namespace Lox

/-- How a statement ended: the next one follows, or the function it stands in returns. -/
inductive Flow where
  | normal
  | return_ (value : Value)

namespace Run

/-- Runs `body` as long as `condition` holds. Fuel limits only what the text of a program does not: the turns of a loop,
    and calls inside calls. -/
def loop : Nat → Run Value → Run Flow → Machine → Outcome Flow
  | 0, _, _, _ => .outOfFuel
  | fuel + 1, condition, body, m =>
    match condition m with
    | .value value m =>
      if value.isTruthy then
        match body m with
        | .value .normal m => loop fuel condition body m
        | .value (.return_ value) m => .value (.return_ value) m
        | .fault fault m => .fault fault m
        | .outOfFuel => .outOfFuel
      else .value .normal m
    | .fault fault m => .fault fault m
    | .outOfFuel => .outOfFuel

def optional (invoke : Invoke) : Option Expr → Run Value
  | none => return .nil
  | some expr => expr.evaluate invoke

def superclass (invoke : Invoke) (name : Token) : Option Expr → Run (Option Class)
  | none => return none
  | some expr => do
    match ← expr.evaluate invoke with
    | .class_ c => return some c
    | _ =>
      match expr with
      | .variable_ _ superName => fail (.notClass superName)
      | _ => fail (.notClass name)

/-- The methods of a class, the last of those with one name. -/
def methodTable (environment : Environment) (methods : List FunctionDecl) : Bindings Closure :=
  methods.foldl (fun table d => table.insert d.name.lexeme ⟨d, environment, d.isInitializer⟩) []

/-- Declares a class. Its name is bound to `nil` until the class is made, and `super` is bound in an
    environment around the methods. -/
def defineClass (invoke : Invoke) (name : Token) (superclassExpr : Option Expr)
    (methods : List FunctionDecl) : Run Unit := do
  let superclass ← superclass invoke name superclassExpr
  let current ← read Machine.environment
  onStore fun s => ((), s.define current name.lexeme .nil)
  let environment ← match superclass with
    | none => pure current
    | some c => onStore fun s =>
      let (environment, s) := s.childOf current
      (environment, s.define environment "super" (.class_ c))
  let identity ← onStore Store.fresh
  let value : Value := .class_ (.make identity name.lexeme (methodTable environment methods) superclass)
  assignIn (·.store.locate current name) name.lexeme value

end Run

mutual

def Stmt.execute (fuel : Nat) (invoke : Invoke) : Stmt → Run Flow
  | .block body => do
    let current ← Run.read Machine.environment
    let environment ← Run.onStore (·.childOf current)
    Run.within environment (Stmt.executeAll fuel invoke body)
  | .class_ name superclass methods => do
    Run.defineClass invoke name superclass methods
    return .normal
  | .expression expr => do
    let _ ← expr.evaluate invoke
    return .normal
  | .function declaration => do
    let current ← Run.read Machine.environment
    Run.onStore fun s =>
      let (identity, s) := s.fresh
      (.normal, s.define current declaration.name.lexeme (.function identity ⟨declaration, current, false⟩))
  | .ifThen condition thenBranch => do
    if (← condition.evaluate invoke).isTruthy then thenBranch.execute fuel invoke else return .normal
  | .ifThenElse condition thenBranch elseBranch => do
    if (← condition.evaluate invoke).isTruthy then thenBranch.execute fuel invoke
    else elseBranch.execute fuel invoke
  | .print_ expr => do
    let value ← expr.evaluate invoke
    Run.modify (·.write (.out value.display))
    return .normal
  | .return_ _ value => return .return_ (← Run.optional invoke value)
  | .var_ name initializer => do
    let value ← Run.optional invoke initializer
    let current ← Run.read Machine.environment
    Run.onStore fun s => (.normal, s.define current name.lexeme value)
  | .while_ condition body => Run.loop fuel (condition.evaluate invoke) (body.execute fuel invoke)

def Stmt.executeAll (fuel : Nat) (invoke : Invoke) : List Stmt → Run Flow
  | [] => return .normal
  | stmt :: rest => do
    match ← stmt.execute fuel invoke with
    | .normal => Stmt.executeAll fuel invoke rest
    | .return_ value => return .return_ value

end

namespace Closure

def enter (f : Closure) (arguments : List Value) (s : Store) : Environment × Store :=
  let (environment, s) := s.childOf f.environment
  let bound := f.declaration.params.zip arguments
  (environment, bound.foldl (fun s (param, value) => s.define environment param.lexeme value) s)

/-- Runs the body of a function. An initializer gives the instance it was run on, whatever it
    returns. -/
def invoke : Nat → Invoke
  | 0 => fun _ _ => Run.outOfFuel
  | fuel + 1 => fun f arguments => do
    let environment ← Run.onStore (f.enter arguments)
    let flow ← Run.within environment (Stmt.executeAll fuel (invoke fuel) f.declaration.body)
    if f.isInitializer then Run.tryRead (·.store.getAt f.environment 0 "this")
    else match flow with
      | .normal => return .nil
      | .return_ value => return value

end Closure

namespace Run

def evaluate (fuel : Nat) (expr : Expr) : Run Value := expr.evaluate (Closure.invoke fuel)

def execute (fuel : Nat) (stmt : Stmt) : Run Flow := stmt.execute fuel (Closure.invoke fuel)

/-- Runs the statements of a program; a `return` among them has no effect. -/
def program (fuel : Nat) : List Stmt → Run Unit
  | [] => return ()
  | stmt :: rest => do
    let _ ← execute fuel stmt
    program fuel rest

end Run
end Lox
