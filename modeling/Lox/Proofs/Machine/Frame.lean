import Lox.Proofs.Machine.Activity
import Lox.Proofs.Machine.Growth

namespace Lox

def Outcome.machine? {α : Type} : Outcome α → Option Machine
  | value _ m => some m
  | fault _ m => some m
  | outOfFuel => none

namespace Store

@[simp] theorem size_define (s : Store) (environment : Environment) (name : String) (value : Value) :
    (s.define environment name value).scopes.size = s.scopes.size := size_bind ..

@[simp] theorem size_fresh (s : Store) : s.fresh.2.scopes.size = s.scopes.size := rfl

@[simp] theorem size_instantiate (s : Store) : s.instantiate.2.scopes.size = s.scopes.size := rfl

@[simp] theorem size_setField (s : Store) (object : Identity) (name : String) (value : Value) :
    (s.setField object name value).scopes.size = s.scopes.size := rfl

@[simp] theorem size_bindMethod (s : Store) (method : Closure) (object : Identity) (of : Class) :
    (s.bindMethod method object of).2.scopes.size = s.scopes.size + 1 :=
  (size_define ..).trans (s.size_childOf method.environment)

end Store

@[simp] theorem Closure.size_enter (f : Closure) (arguments : List Value) (s : Store) :
    (f.enter arguments s).2.scopes.size = s.scopes.size + 1 := by
  have defined : ∀ (bound : List (Token × Value)) (environment : Environment) (s : Store),
      (bound.foldl (fun s entry => s.define environment entry.1.lexeme entry.2) s).scopes.size = s.scopes.size := by
    intro bound environment
    induction bound with
    | nil => exact fun _ => rfl
    | cons entry rest ih => exact fun s => (ih _).trans (s.size_define ..)
  exact (defined ..).trans (s.size_childOf f.environment)

/-- A relation between machines that each step of the machine keeps to. Scopes are never taken out of the store. -/
structure Frame where
  Related : Machine → Machine → Prop
  refl : ∀ m, Related m m
  trans : ∀ {m m' m''}, Related m m' → Related m' m'' → Related m m''
  store : ∀ m s, m.store.scopes.size ≤ s.scopes.size → Related m { m with store := s }
  print : ∀ m text, Related m (m.write (.out text))
  clock : ∀ m clock, Related m { m with clock := clock }
  /-- In another environment and back again. -/
  within : ∀ m environment m', Related { m with environment := environment } m' →
    Related m { m' with environment := m.environment }
  /-- One call deeper and back again. -/
  deeper : ∀ m m', Related m.deepened m' → Related m { m' with depth := m'.depth - 1 }

namespace Run

variable {frame : Frame} {α β : Type}

def Keeps (frame : Frame) (action : Run α) : Prop := ∀ m m', (action m).machine? = some m' → frame.Related m m'

theorem Keeps.of_value {action : Run α} {result : α} {m m' : Machine} (keeps : action.Keeps frame)
    (done : action m = .value result m') : frame.Related m m' := by
  apply keeps m m'
  rw [done]
  rfl

theorem Keeps.of_fault {action : Run α} {fault : Fault} {m m' : Machine} (keeps : action.Keeps frame)
    (failed : action m = .fault fault m') : frame.Related m m' := by
  apply keeps m m'
  rw [failed]
  rfl

theorem keeps_pure (result : α) : (pure result : Run α).Keeps frame := by
  intro m m' ended
  cases ended
  exact frame.refl m

theorem keeps_fail (fault : Fault) : (fail fault : Run α).Keeps frame := by
  intro m m' ended
  cases ended
  exact frame.refl m

theorem keeps_outOfFuel : (outOfFuel : Run α).Keeps frame := by
  intro m m' ended
  cases ended

theorem Keeps.bind {action : Run α} {next : α → Run β} (first : action.Keeps frame)
    (rest : ∀ result, (next result).Keeps frame) : (action >>= next).Keeps frame := by
  intro m m' ended
  cases done : action m with
  | value result m₁ =>
    rw [bind_value done] at ended
    exact frame.trans (first.of_value done) (rest result m₁ m' ended)
  | fault fault m₁ =>
    rw [bind_fault done] at ended
    cases ended
    exact first.of_fault done
  | outOfFuel =>
    rw [bind_outOfFuel done] at ended
    cases ended

theorem keeps_read (f : Machine → α) : (read f).Keeps frame := by
  intro m m' ended
  cases ended
  exact frame.refl m

theorem keeps_tryRead (f : Machine → Except Fault α) : (tryRead f).Keeps frame := by
  intro m m' ended
  unfold tryRead at ended
  split at ended <;> cases ended <;> exact frame.refl m

theorem keeps_onStore {f : Store → α × Store} (swells : ∀ s : Store, s.scopes.size ≤ (f s).2.scopes.size) :
    (onStore f).Keeps frame := by
  intro m m' ended
  cases ended
  exact frame.store m _ (swells m.store)

theorem keeps_print (text : String) : (modify (·.write (.out text))).Keeps frame := by
  intro m m' ended
  cases ended
  exact frame.print m text

theorem keeps_readClock : readClock.Keeps frame := by
  intro m m' ended
  cases ended
  exact frame.clock m _

theorem keeps_assignIn (find : Machine → Except Fault ScopeId) (name : String) (value : Value) :
    (assignIn find name value).Keeps frame := by
  apply (keeps_tryRead find).bind
  intro scope
  exact keeps_onStore fun s => by simp

theorem Keeps.within {action : Run α} (keeps : action.Keeps frame) (environment : Environment) :
    (within environment action).Keeps frame := by
  intro m m' ended
  unfold Run.within at ended
  split at ended
  · rename_i done
    cases ended
    exact frame.within m environment _ (keeps.of_value done)
  · rename_i failed
    cases ended
    exact frame.within m environment _ (keeps.of_fault failed)
  · cases ended

theorem Keeps.deeper {action : Run α} (keeps : action.Keeps frame) : (deeper action).Keeps frame := by
  intro m m' ended
  unfold Run.deeper at ended
  split at ended
  · rename_i done
    cases ended
    exact frame.deeper m _ (keeps.of_value done)
  · rename_i failed
    cases ended
    exact frame.deeper m _ (keeps.of_fault failed)
  · cases ended

theorem keeps_boundMethod (method : Closure) (object : Identity) (of : Class) :
    (boundMethod method object of).Keeps frame :=
  keeps_onStore fun s => (by simp : s.scopes.size ≤ (s.bindMethod method object of).2.fresh.2.scopes.size)

theorem keeps_property (object : Identity) (of : Class) (name : Token) : (property object of name).Keeps frame := by
  apply (keeps_read _).bind
  intro field
  cases field with
  | some value => apply keeps_pure
  | none =>
    dsimp only
    split
    · apply keeps_boundMethod
    · apply keeps_fail

theorem keeps_superMethod (id : NodeId) (method : Token) : (superMethod id method).Keeps frame := by
  apply (keeps_tryRead _).bind
  rintro ⟨superclass, object, of⟩
  dsimp only
  split
  · apply keeps_boundMethod
  · apply keeps_fail

theorem keeps_bindMethod (method : Closure) (object : Identity) (of : Class) :
    (onStore (·.bindMethod method object of)).Keeps frame := keeps_onStore fun s => by simp

def methodEnvironment (current : Environment) : Option Class → Run Environment
  | none => return current
  | some c =>
    onStore fun s => ((s.childOf current).1, (s.childOf current).2.define (s.childOf current).1 "super" (.class_ c))

def bindClass (name : Token) (methods : List FunctionDecl) (superclass : Option Class) : Run Unit := do
  let current ← read Machine.environment
  onStore fun s => ((), s.define current name.lexeme .nil)
  let environment ← methodEnvironment current superclass
  let identity ← onStore Store.fresh
  assignIn (·.store.locate current name) name.lexeme
    (.class_ (.make identity name.lexeme (methodTable environment methods) superclass))

theorem defineClass_eq {invoke : Invoke} (name : Token) (superclass : Option Expr) (methods : List FunctionDecl) :
    defineClass invoke name superclass methods = Run.superclass invoke name superclass >>= bindClass name methods := by
  unfold defineClass
  congr 1
  funext above
  cases above <;> rfl

theorem keeps_bindClass (name : Token) (methods : List FunctionDecl) (superclass : Option Class) :
    (bindClass name methods superclass).Keeps frame := by
  apply (keeps_read _).bind
  intro current
  apply (keeps_onStore fun s => by simp).bind
  intro _
  have entered : (methodEnvironment current superclass).Keeps frame := by
    unfold methodEnvironment
    split
    · apply keeps_pure
    · exact keeps_onStore fun s => by simp
  apply entered.bind
  intro environment
  apply (keeps_onStore fun s => by simp).bind
  intro identity
  apply keeps_assignIn

end Run

/-- A relation between actions that holds again of what is built from related ones. -/
structure Congruence where
  Related : {α : Type} → Run α → Run α → Prop
  /-- A step that no call and no loop is part of. -/
  step : ∀ {α} {action : Run α}, (∀ frame, action.Keeps frame) → Related action action
  spent : ∀ {α} (other : Run α), Related .outOfFuel other
  bind : ∀ {α β} {action other : Run α} {next next' : α → Run β}, Related action other →
    (∀ result, Related (next result) (next' result)) → Related (action >>= next) (other >>= next')
  within : ∀ {α} {action other : Run α}, Related action other → ∀ environment,
    Related (.within environment action) (.within environment other)
  deeper : ∀ {α} {action other : Run α}, Related action other → Related (.deeper action) (.deeper other)

namespace Congruence

variable {C : Congruence} {α : Type}

theorem pure (result : α) : C.Related (Run.pure result) (Run.pure result) := C.step fun _ => Run.keeps_pure result

theorem fail (fault : Fault) : C.Related (Run.fail fault : Run α) (Run.fail fault) := C.step fun _ => Run.keeps_fail fault

theorem nested {action other : Run Value} (alike : C.Related action other) (paren : Token) :
    C.Related (Run.nested paren action) (Run.nested paren other) := by
  apply C.bind (C.step fun _ => Run.keeps_read Machine.depth)
  intro depth
  by_cases deep : maxCallDepth ≤ depth
  · rw [if_pos deep, if_pos deep]
    apply fail
  · rw [if_neg deep, if_neg deep]
    exact C.deeper alike

theorem loop {condition condition' : Run Value} {body body' : Run Flow} (tests : C.Related condition condition')
    (runs : C.Related body body') {turns turns' : Nat} (more : turns ≤ turns') :
    C.Related (Run.loop turns condition body) (Run.loop turns' condition' body') := by
  induction turns generalizing turns' with
  | zero => exact C.spent _
  | succ turns ih =>
    obtain ⟨turns', rfl⟩ : ∃ k, turns' = k + 1 := ⟨turns' - 1, by omega⟩
    rw [Run.loop_succ, Run.loop_succ]
    apply C.bind tests
    intro x
    by_cases holds : x.isTruthy
    · rw [if_pos holds, if_pos holds]
      apply C.bind runs
      intro flow
      cases flow with
      | normal => exact ih (by omega)
      | return_ y => apply pure
    · rw [if_neg holds, if_neg holds]
      apply pure

def Calls (C : Congruence) (invoke invoke' : Invoke) : Prop :=
  ∀ f arguments, C.Related (invoke f arguments) (invoke' f arguments)

section

variable {invoke invoke' : Invoke}

theorem instantiate (calls : C.Calls invoke invoke') (c : Class) (arguments : List Value) :
    C.Related (Run.instantiate invoke c arguments) (Run.instantiate invoke' c arguments) := by
  apply C.bind (C.step fun _ => Run.keeps_onStore fun s => by simp)
  intro object
  cases c.initializer? with
  | none => apply pure
  | some initializer =>
    apply C.bind (C.step fun _ => Run.keeps_bindMethod initializer object c)
    intro bound
    apply C.bind (calls bound arguments)
    intro _
    apply pure

theorem call (calls : C.Calls invoke invoke') (callee : Value) (paren : Token) (arguments : List Value) :
    C.Related (Run.call invoke callee paren arguments) (Run.call invoke' callee paren arguments) := by
  unfold Run.call
  split
  · apply fail
  · split
    · apply fail
    · split
      · apply C.bind (C.step fun _ => Run.keeps_readClock)
        intro reading
        apply pure
      · exact nested (calls _ arguments) paren
      · exact nested (instantiate calls _ arguments) paren
      · apply fail

mutual

theorem evaluate (calls : C.Calls invoke invoke') : ∀ e : Expr, C.Related (e.evaluate invoke) (e.evaluate invoke')
  | .assign id name value => by
    rw [Expr.evaluate, Expr.evaluate]
    apply C.bind (evaluate calls value)
    intro x
    apply C.bind (C.step fun _ => Run.keeps_assignIn _ _ _)
    intro _
    apply pure
  | .binary left operator right => by
    rw [Expr.evaluate, Expr.evaluate]
    apply C.bind (evaluate calls left)
    intro x
    apply C.bind (evaluate calls right)
    intro y
    exact C.step fun _ => Run.keeps_tryRead _
  | .call callee paren arguments => by
    rw [Expr.evaluate, Expr.evaluate]
    apply C.bind (evaluate calls callee)
    intro x
    apply C.bind (evaluateAll calls arguments)
    intro xs
    exact call calls x paren xs
  | .get object name => by
    rw [Expr.evaluate, Expr.evaluate]
    apply C.bind (evaluate calls object)
    intro x
    split
    · exact C.step fun _ => Run.keeps_property _ _ _
    · apply fail
  | .grouping inner => by
    rw [Expr.evaluate, Expr.evaluate]
    exact evaluate calls inner
  | .constant value => by
    rw [Expr.evaluate, Expr.evaluate]
    apply pure
  | .logical left operator right => by
    rw [Expr.evaluate, Expr.evaluate]
    apply C.bind (evaluate calls left)
    intro x
    by_cases decided : isDecided operator x
    · rw [if_pos decided, if_pos decided]
      apply pure
    · rw [if_neg decided, if_neg decided]
      exact evaluate calls right
  | .set object name value => by
    rw [Expr.evaluate, Expr.evaluate]
    apply C.bind (evaluate calls object)
    intro x
    split
    · apply C.bind (evaluate calls value)
      intro y
      exact C.step fun _ => Run.keeps_onStore fun s => by simp
    · apply fail
  | .super_ id keyword method => by
    rw [Expr.evaluate, Expr.evaluate]
    exact C.step fun _ => Run.keeps_superMethod id method
  | .this_ id name | .variable_ id name => by
    rw [Expr.evaluate, Expr.evaluate]
    exact C.step fun _ => Run.keeps_tryRead _
  | .unary operator right => by
    rw [Expr.evaluate, Expr.evaluate]
    apply C.bind (evaluate calls right)
    intro x
    exact C.step fun _ => Run.keeps_tryRead _

theorem evaluateAll (calls : C.Calls invoke invoke') :
    ∀ es : List Expr, C.Related (Expr.evaluateAll invoke es) (Expr.evaluateAll invoke' es)
  | [] => by
    rw [Expr.evaluateAll, Expr.evaluateAll]
    apply pure
  | e :: rest => by
    rw [Expr.evaluateAll, Expr.evaluateAll]
    apply C.bind (evaluate calls e)
    intro x
    apply C.bind (evaluateAll calls rest)
    intro xs
    apply pure

end

theorem optional (calls : C.Calls invoke invoke') (e : Option Expr) :
    C.Related (Run.optional invoke e) (Run.optional invoke' e) := by
  cases e with
  | none => apply pure
  | some e => exact evaluate calls e

theorem superclass (calls : C.Calls invoke invoke') (name : Token) (e : Option Expr) :
    C.Related (Run.superclass invoke name e) (Run.superclass invoke' name e) := by
  cases e with
  | none => apply pure
  | some e =>
    apply C.bind (evaluate calls e)
    intro x
    split
    · apply pure
    · split <;> apply fail

mutual

theorem execute (calls : C.Calls invoke invoke') {fuel fuel' : Nat} (more : fuel ≤ fuel') :
    ∀ s : Stmt, C.Related (s.execute fuel invoke) (s.execute fuel' invoke')
  | .block body => by
    rw [Stmt.execute, Stmt.execute]
    apply C.bind (C.step fun _ => Run.keeps_read _)
    intro current
    apply C.bind (C.step fun _ => Run.keeps_onStore fun s => by simp)
    intro environment
    exact C.within (executeAll calls more body) environment
  | .class_ name above methods => by
    rw [Stmt.execute, Stmt.execute, Run.defineClass_eq, Run.defineClass_eq]
    have defined := C.bind (superclass calls name above) fun c => C.step fun _ => Run.keeps_bindClass name methods c
    apply C.bind defined
    intro _
    apply pure
  | .expression e => by
    rw [Stmt.execute, Stmt.execute]
    apply C.bind (evaluate calls e)
    intro x
    apply pure
  | .function declaration => by
    rw [Stmt.execute, Stmt.execute]
    apply C.bind (C.step fun _ => Run.keeps_read _)
    intro current
    exact C.step fun _ => Run.keeps_onStore fun s => by simp
  | .ifThen condition thenBranch => by
    rw [Stmt.execute, Stmt.execute]
    apply C.bind (evaluate calls condition)
    intro x
    by_cases holds : x.isTruthy
    · rw [if_pos holds, if_pos holds]
      exact execute calls more thenBranch
    · rw [if_neg holds, if_neg holds]
      apply pure
  | .ifThenElse condition thenBranch elseBranch => by
    rw [Stmt.execute, Stmt.execute]
    apply C.bind (evaluate calls condition)
    intro x
    by_cases holds : x.isTruthy
    · rw [if_pos holds, if_pos holds]
      exact execute calls more thenBranch
    · rw [if_neg holds, if_neg holds]
      exact execute calls more elseBranch
  | .print_ e => by
    rw [Stmt.execute, Stmt.execute]
    apply C.bind (evaluate calls e)
    intro x
    apply C.bind (C.step fun _ => Run.keeps_print _)
    intro _
    apply pure
  | .return_ keyword value => by
    rw [Stmt.execute, Stmt.execute]
    apply C.bind (optional calls value)
    intro x
    apply pure
  | .var_ name initializer => by
    rw [Stmt.execute, Stmt.execute]
    apply C.bind (optional calls initializer)
    intro x
    apply C.bind (C.step fun _ => Run.keeps_read _)
    intro current
    exact C.step fun _ => Run.keeps_onStore fun s => by simp
  | .while_ condition body => by
    rw [Stmt.execute, Stmt.execute]
    exact loop (evaluate calls condition) (execute calls more body) more

theorem executeAll (calls : C.Calls invoke invoke') {fuel fuel' : Nat} (more : fuel ≤ fuel') :
    ∀ ss : List Stmt, C.Related (Stmt.executeAll fuel invoke ss) (Stmt.executeAll fuel' invoke' ss)
  | [] => by
    rw [Stmt.executeAll, Stmt.executeAll]
    apply pure
  | s :: rest => by
    rw [Stmt.executeAll, Stmt.executeAll]
    apply C.bind (execute calls more s)
    intro flow
    cases flow with
    | normal => exact executeAll calls more rest
    | return_ x => apply pure

end

end

theorem invoke {n n' : Nat} (more : n ≤ n') : C.Calls (Closure.invoke n) (Closure.invoke n') := by
  induction n generalizing n' with
  | zero => exact fun _ _ => C.spent _
  | succ n ih =>
    obtain ⟨n', rfl⟩ : ∃ k, n' = k + 1 := ⟨n' - 1, by omega⟩
    have fewer : n ≤ n' := by omega
    intro f arguments
    rw [Closure.invoke, Closure.invoke]
    apply C.bind (C.step fun _ => Run.keeps_onStore fun s => by simp)
    intro environment
    apply C.bind (C.within (executeAll (ih fewer) fewer f.declaration.body) environment)
    intro flow
    split
    · exact C.step fun _ => Run.keeps_tryRead _
    · split <;> apply pure

theorem program {n n' : Nat} (more : n ≤ n') (program : List Stmt) :
    C.Related (Run.program n program) (Run.program n' program) := by
  induction program with
  | nil => apply pure
  | cons s rest ih =>
    apply C.bind (execute (invoke more) more s)
    intro _
    exact ih

end Congruence

def Frame.congruence (frame : Frame) : Congruence where
  Related action _ := action.Keeps frame
  step keeps := keeps frame
  spent _ := Run.keeps_outOfFuel
  bind := Run.Keeps.bind
  within := Run.Keeps.within
  deeper := Run.Keeps.deeper

theorem Run.Keeps.loop {condition : Run Value} {body : Run Flow} (tests : condition.Keeps frame) (runs : body.Keeps frame)
    (turns : Nat) : Run.Keeps frame (Run.loop turns condition body) :=
  @Congruence.loop frame.congruence condition condition body body tests runs turns turns turns.le_refl

def Invoke.Keeps (frame : Frame) (invoke : Invoke) : Prop := frame.congruence.Calls invoke invoke

section

variable {invoke : Invoke} (calls : invoke.Keeps frame)

include calls

theorem Run.keeps_call (callee : Value) (paren : Token) (arguments : List Value) :
    (Run.call invoke callee paren arguments).Keeps frame := Congruence.call calls callee paren arguments

theorem Run.keeps_superclass (name : Token) (e : Option Expr) : (Run.superclass invoke name e).Keeps frame :=
  Congruence.superclass calls name e

theorem Expr.evaluate_keeps (e : Expr) : (e.evaluate invoke).Keeps frame := Congruence.evaluate calls e

theorem Expr.evaluateAll_keeps (es : List Expr) : (Expr.evaluateAll invoke es).Keeps frame := Congruence.evaluateAll calls es

theorem Stmt.execute_keeps (fuel : Nat) (s : Stmt) : (s.execute fuel invoke).Keeps frame :=
  Congruence.execute calls fuel.le_refl s

theorem Stmt.executeAll_keeps (fuel : Nat) (ss : List Stmt) : (Stmt.executeAll fuel invoke ss).Keeps frame :=
  Congruence.executeAll calls fuel.le_refl ss

end

theorem Closure.invoke_keeps (n : Nat) : (Closure.invoke n).Keeps frame := Congruence.invoke n.le_refl

theorem Run.keeps_program (n : Nat) (program : List Stmt) : (Run.program n program).Keeps frame :=
  Congruence.program (C := frame.congruence) n.le_refl program

def Activity.machine? (a : Activity) : Option Machine :=
  match a.task with
  | .expr e => (e.evaluate (Closure.invoke a.fuel) a.machine).machine?
  | .exprs es => (Expr.evaluateAll (Closure.invoke a.fuel) es a.machine).machine?
  | .stmt s => (s.execute a.fuel (Closure.invoke a.fuel) a.machine).machine?
  | .stmts ss => (Stmt.executeAll a.fuel (Closure.invoke a.fuel) ss a.machine).machine?
  | .loop turns condition body =>
    (Run.loop turns (condition.evaluate (Closure.invoke a.fuel)) (body.execute a.fuel (Closure.invoke a.fuel))
      a.machine).machine?
  | .invoke f arguments => (Closure.invoke a.fuel f arguments a.machine).machine?
  | .program p => (Run.program a.fuel p a.machine).machine?

theorem Frame.machine?_related (frame : Frame) {a : Activity} {m : Machine} (ended : a.machine? = some m) :
    frame.Related a.machine m := by
  have calls : (Closure.invoke a.fuel).Keeps frame := Closure.invoke_keeps a.fuel
  obtain ⟨n, task, start⟩ := a
  cases task with
  | expr e => exact Expr.evaluate_keeps calls e start m ended
  | exprs es => exact Expr.evaluateAll_keeps calls es start m ended
  | stmt s => exact Stmt.execute_keeps calls n s start m ended
  | stmts ss => exact Stmt.executeAll_keeps calls n ss start m ended
  | loop turns condition body =>
    exact (Expr.evaluate_keeps calls condition).loop (Stmt.execute_keeps calls n body) turns start m ended
  | invoke f arguments => exact calls f arguments start m ended
  | program p => exact Run.keeps_program n p start m ended

/-- The frame does not look at where the machine is. -/
structure Frame.Placeless (frame : Frame) : Prop where
  environment : ∀ m environment, frame.Related m { m with environment := environment }
  depth : ∀ m, frame.Related m m.deepened

namespace Frame.Placeless

variable {frame : Frame} {a b : Activity}

theorem moved (placeless : frame.Placeless) (m : Machine) (environment : Environment) {s : Store}
    (swells : m.store.scopes.size ≤ s.scopes.size) : frame.Related m { m with environment := environment, store := s } :=
  frame.trans (frame.store m s swells) (placeless.environment { m with store := s } environment)

theorem calls (placeless : frame.Placeless) {x : Value} {xs : List Value} {f : Closure} {m m₁ : Machine}
    (calls : x.Calls xs m f m₁) : frame.Related m m₁ := by
  cases calls with
  | function => exact placeless.depth m
  | @class_ c initializer =>
    apply frame.trans (placeless.depth m) (frame.store m.deepened _ _)
    show m.store.scopes.size ≤ (m.store.instantiate.2.bindMethod initializer m.store.instantiate.1 c).2.scopes.size
    simp

theorem spawns (placeless : frame.Placeless) (spawns : a.Spawns b) : frame.Related a.machine b.machine := by
  have evaluated {n : Nat} {e : Expr} {x : Value} {m m₁ : Machine}
      (done : e.evaluate (Closure.invoke n) m = .value x m₁) : frame.Related m m₁ :=
    (Expr.evaluate_keeps (Closure.invoke_keeps n) e).of_value done
  have executed {n : Nat} {s : Stmt} {flow : Flow} {m m₁ : Machine}
      (done : s.execute n (Closure.invoke n) m = .value flow m₁) : frame.Related m m₁ :=
    (Stmt.execute_keeps (Closure.invoke_keeps n) n s).of_value done
  cases spawns with
  | rightOperand first | arguments first | rightChoice first | setValue first | otherExprs first | ifBranch first
  | thenBranch first | elseBranch first | loopBody first => exact evaluated first
  | otherTurns first _ turned => exact frame.trans (evaluated first) (executed turned)
  | otherStmts first | othersOfProgram first => exact executed first
  | @call n callee paren arguments x xs f m m₁ m₂ m₃ first given calls =>
    have values : frame.Related m₁ m₂ := (Expr.evaluateAll_keeps (Closure.invoke_keeps n) arguments).of_value given
    exact frame.trans (evaluated first) (frame.trans values (placeless.calls calls))
  | block | body => exact placeless.moved _ _ (by simp)
  | _ => exact frame.refl _

theorem during (placeless : frame.Placeless) (during : a.During b) : frame.Related a.machine b.machine := by
  induction during with
  | start => exact frame.refl _
  | spawned _ spawns ih => exact frame.trans ih (placeless.spawns spawns)

end Frame.Placeless

end Lox
