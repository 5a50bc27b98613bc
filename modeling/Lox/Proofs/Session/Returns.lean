import Mathlib
import Lox.Proofs.Machine.Watching
import Lox.Proofs.Session.Located

namespace Lox

open Scope (Visit Visits)

mutual

/-- The values of the `return` statements in a statement. Those in functions declared there are not its own. -/
def Stmt.returns : Stmt → List (Option Expr)
  | .block body => Stmt.returnsAll body
  | .class_ _ _ _ => []
  | .expression _ => []
  | .function _ => []
  | .ifThen _ thenBranch => thenBranch.returns
  | .ifThenElse _ thenBranch elseBranch => thenBranch.returns ++ elseBranch.returns
  | .print_ _ => []
  | .return_ _ value => [value]
  | .var_ _ _ => []
  | .while_ _ body => body.returns

def Stmt.returnsAll : List Stmt → List (Option Expr)
  | [] => []
  | stmt :: rest => stmt.returns ++ Stmt.returnsAll rest

end

namespace Scope

/-- Where a `return` with this value may stand. -/
def FunctionContext.Permits (role : FunctionContext) (value : Option Expr) : Prop :=
  role ≠ .none ∧ (role = .initializer → value = Option.none)

theorem permits_of_clean {context : Context} {keyword : Token} {value : Option Expr} {w : Walk}
    (clean : (walkStmt context (.return_ keyword value) w).misuses = []) : context.function.Permits value := by
  -- The walk has complained, if at all, before it comes to the value.
  have led := walkOptional_leads context value (checkReturn context keyword value w)
  have inside := ((Walk.Leads.complainIf ..).before led).not_complained clean
  have bare := led.not_complained clean
  refine ⟨of_decide_eq_false inside, fun initializer => ?_⟩
  simpa [initializer] using bare

mutual

theorem permits_returns {context : Context} : ∀ (s : Stmt) (w : Walk), (walkStmt context s w).misuses = [] →
    ∀ value ∈ s.returns, context.function.Permits value
  | .block body, w, clean => by
    rw [walkStmt] at clean
    exact permits_returnsAll body (w.enter []) clean
  | .class_ _ _ _, w, clean => by simp [Stmt.returns]
  | .expression _, w, clean => by simp [Stmt.returns]
  | .function _, w, clean => by simp [Stmt.returns]
  | .ifThen condition thenBranch, w, clean => by
    rw [walkStmt] at clean
    exact permits_returns thenBranch _ clean
  | .ifThenElse condition thenBranch elseBranch, w, clean => by
    rw [walkStmt] at clean
    have before := (walkStmt_leads context elseBranch _).clean clean
    intro value member
    rcases List.mem_append.mp member with first | second
    · exact permits_returns thenBranch _ before value first
    · exact permits_returns elseBranch _ clean value second
  | .print_ _, w, clean => by simp [Stmt.returns]
  | .return_ keyword value, w, clean => by
    intro other member
    rw [List.mem_singleton.mp member]
    exact permits_of_clean clean
  | .var_ _ _, w, clean => by simp [Stmt.returns]
  | .while_ condition body, w, clean => by
    rw [walkStmt] at clean
    exact permits_returns body _ clean

theorem permits_returnsAll {context : Context} : ∀ (ss : List Stmt) (w : Walk), (walkStmts context ss w).misuses = [] →
    ∀ value ∈ Stmt.returnsAll ss, context.function.Permits value
  | [], w, clean => by simp [Stmt.returnsAll]
  | s :: rest, w, clean => by
    rw [walkStmts] at clean
    have before := (walkStmts_leads context rest _).clean clean
    intro value member
    rcases List.mem_append.mp member with first | second
    · exact permits_returns s w before value first
    · exact permits_returnsAll rest _ clean value second

end

end Scope

/-- The flow returns, if it does, what one of the values came to. -/
def Flow.Among (invoke : Invoke) (values : List (Option Expr)) (flow : Flow) : Prop :=
  ∀ x, flow = .return_ x → ∃ value ∈ values, ∃ m m', Run.optional invoke value m = .value x m'

theorem Flow.among_normal {invoke : Invoke} {values : List (Option Expr)} : Flow.normal.Among invoke values := by
  intro x returned
  cases returned

theorem Flow.Among.mono {invoke : Invoke} {values others : List (Option Expr)} {flow : Flow}
    (among : flow.Among invoke values) (more : values ⊆ others) : flow.Among invoke others := by
  intro x returned
  obtain ⟨value, member, evaluated⟩ := among x returned
  exact ⟨value, more member, evaluated⟩

theorem Run.within_eq_value {α : Type} {environment : Environment} {action : Run α} {result : α} {m m' : Machine}
    (done : Run.within environment action m = .value result m') :
    ∃ m₁, action { m with environment := environment } = .value result m₁ := by
  unfold Run.within at done
  split at done
  · rename_i ended
    cases done
    exact ⟨_, ended⟩
  · cases done
  · cases done

theorem Run.loop_among {invoke : Invoke} {values : List (Option Expr)} {condition : Run Value} {body : Run Flow}
    (runs : ∀ {m m' flow}, body m = .value flow m' → flow.Among invoke values) (turns : Nat) :
    ∀ {m m' : Machine} {flow : Flow}, Run.loop turns condition body m = .value flow m' → flow.Among invoke values := by
  induction turns with
  | zero =>
    intro m m' flow done
    cases done
  | succ turns ih =>
    intro m m' flow done
    rw [Run.loop_succ] at done
    obtain ⟨x, m₁, -, done⟩ := Run.bind_eq_value done
    split at done
    · obtain ⟨first, m₂, ran, done⟩ := Run.bind_eq_value done
      cases first with
      | normal => exact ih done
      | return_ y =>
        cases done
        exact runs ran
    · cases done
      exact Flow.among_normal

section

variable {fuel : Nat} {invoke : Invoke}

mutual

theorem Stmt.execute_among : ∀ (s : Stmt) {m m' : Machine} {flow : Flow}, s.execute fuel invoke m = .value flow m' →
    flow.Among invoke s.returns
  | .block body, m, m', flow, done => by
    rw [Stmt.execute] at done
    obtain ⟨m₁, ended⟩ := Run.within_eq_value done
    exact Stmt.executeAll_among body ended
  | .class_ _ _ _, m, m', flow, done | .expression _, m, m', flow, done | .print_ _, m, m', flow, done
  | .var_ _ _, m, m', flow, done => by
    rw [Stmt.execute] at done
    obtain ⟨_, m₁, -, ended⟩ := Run.bind_eq_value done
    cases ended
    exact Flow.among_normal
  | .function declaration, m, m', flow, done => by
    rw [Stmt.execute] at done
    cases done
    exact Flow.among_normal
  | .ifThen condition thenBranch, m, m', flow, done => by
    rw [Stmt.execute] at done
    obtain ⟨x, m₁, -, ended⟩ := Run.bind_eq_value done
    split at ended
    · exact thenBranch.execute_among ended
    · cases ended
      exact Flow.among_normal
  | .ifThenElse condition thenBranch elseBranch, m, m', flow, done => by
    rw [Stmt.execute] at done
    obtain ⟨x, m₁, -, ended⟩ := Run.bind_eq_value done
    split at ended
    · exact (thenBranch.execute_among ended).mono (List.subset_append_left ..)
    · exact (elseBranch.execute_among ended).mono (List.subset_append_right ..)
  | .return_ keyword value, m, m', flow, done => by
    rw [Stmt.execute] at done
    obtain ⟨x, m₁, evaluated, ended⟩ := Run.bind_eq_value done
    cases ended
    intro y returned
    cases returned
    exact ⟨value, List.mem_singleton_self _, m, m', evaluated⟩
  | .while_ condition body, m, m', flow, done => by
    rw [Stmt.execute] at done
    exact Run.loop_among body.execute_among fuel done

theorem Stmt.executeAll_among : ∀ (ss : List Stmt) {m m' : Machine} {flow : Flow},
    Stmt.executeAll fuel invoke ss m = .value flow m' → flow.Among invoke (Stmt.returnsAll ss)
  | [], m, m', flow, done => by
    rw [Stmt.executeAll] at done
    cases done
    exact Flow.among_normal
  | s :: rest, m, m', flow, done => by
    rw [Stmt.executeAll] at done
    obtain ⟨first, m₁, executed, ended⟩ := Run.bind_eq_value done
    cases first with
    | normal => exact (Stmt.executeAll_among rest ended).mono (List.subset_append_right ..)
    | return_ x =>
      cases ended
      exact (s.execute_among executed).mono (List.subset_append_left ..)

end

end

theorem Stmt.execute_eq_normal {s : Stmt} {fuel : Nat} {invoke : Invoke} {m m' : Machine} {flow : Flow}
    (none : s.returns = []) (done : s.execute fuel invoke m = .value flow m') : flow = .normal := by
  cases flow with
  | normal => rfl
  | return_ x =>
    obtain ⟨value, member, -⟩ := s.execute_among done x rfl
    rw [none] at member
    cases member

theorem Flow.Among.eq_nil {flow : Flow} {invoke : Invoke} {values : List (Option Expr)} (among : flow.Among invoke values)
    (bare : ∀ value ∈ values, value = none) : flow = .normal ∨ flow = .return_ .nil := by
  cases flow with
  | normal => exact .inl rfl
  | return_ x =>
    obtain ⟨value, member, m, m', evaluated⟩ := among x rfl
    rw [bare value member] at evaluated
    cases evaluated
    exact .inr rfl

theorem Scope.returns_eq_nil {program : List Stmt} (clean : (resolve program).misuses = []) :
    ∀ stmt ∈ program, stmt.returns = [] := by
  have permitted := permits_returnsAll program .start (List.reverse_eq_nil_iff.mp clean)
  clear clean
  induction program with
  | nil => simp
  | cons first rest ih =>
    rw [Stmt.returnsAll] at permitted
    refine List.forall_mem_cons.mpr ⟨?_, ih fun value member => permitted value (List.mem_append_right _ member)⟩
    exact List.eq_nil_iff_forall_not_mem.mpr fun value member =>
      (permitted value (List.mem_append_left _ member)).1 rfl

theorem Run.bind_assoc {α β γ : Type} (action : Run α) (next : α → Run β) (last : β → Run γ) (m : Machine) :
    ((action >>= next) >>= last) m = (action >>= fun x => next x >>= last) m := by
  show Run.bind (Run.bind action next) last m = Run.bind action (fun x => Run.bind (next x) last) m
  unfold Run.bind
  cases action m <;> rfl

theorem Run.executeAll_eq_program {program : List Stmt} (none : ∀ stmt ∈ program, stmt.returns = []) (fuel : Nat)
    (m : Machine) : Stmt.executeAll fuel (Closure.invoke fuel) program m =
      (Run.program fuel program >>= fun _ => Run.pure Flow.normal) m := by
  induction program generalizing m with
  | nil =>
    rw [Stmt.executeAll]
    rfl
  | cons first rest ih =>
    obtain ⟨here, others⟩ := List.forall_mem_cons.mp none
    rw [Stmt.executeAll, Run.program, Run.bind_assoc]
    refine Run.bind_agree rfl fun flow m₁ done => ?_
    rw [Stmt.execute_eq_normal here done]
    exact ih others m₁

theorem Scope.Visits.method {program : List Stmt} {context : Context} {methods : List FunctionDecl} {d : FunctionDecl}
    {w : Walk} (visited : Visits program ⟨context, .methods methods, w⟩) (listed : d ∈ methods) :
    ∃ w', Visits program ⟨{ context with function := roleOf d }, .function d, w'⟩ := by
  induction methods generalizing w with
  | nil => cases listed
  | cons first rest ih =>
    rcases List.mem_cons.mp listed with rfl | later
    · exact ⟨w, visited.enter .firstMethod⟩
    · exact ih (visited.enter .otherMethods) later

theorem Scope.Visits.role {program : List Stmt} {context : Context} {name : Token} {superclass : Option Expr}
    {methods : List FunctionDecl} {d : FunctionDecl} {w : Walk}
    (visited : Visits program ⟨context, .stmt (.class_ name superclass methods), w⟩) (listed : d ∈ methods) :
    ∃ context' w', Visits program ⟨context', .function d, w'⟩ ∧ context'.function = roleOf d := by
  cases superclass with
  | none =>
    obtain ⟨w', visited'⟩ := (visited.enter .baseMethods).method listed
    exact ⟨_, w', visited', rfl⟩
  | some e =>
    obtain ⟨w', visited'⟩ := (visited.enter .derivedMethods).method listed
    exact ⟨_, w', visited', rfl⟩

/-- A function that is run as an initializer was walked over as one. -/
def Closure.Titled (programs : List (List Stmt)) (f : Closure) : Prop :=
  f.isInitializer = true → ∃ program ∈ programs, ∃ context w,
    Visits program ⟨context, .function f.declaration, w⟩ ∧ context.function = .initializer

theorem Closure.titled_function (programs : List (List Stmt)) (d : FunctionDecl) (environment : Environment) :
    Closure.Titled programs ⟨d, environment, false⟩ := by
  intro initializer
  cases initializer

def Made.titled (programs : List (List Stmt)) : Made where
  function := Closure.Titled programs
  method := Closure.Titled programs
  superclass _ _ := True

theorem Made.titled_cons (program : List Stmt) (programs : List (List Stmt)) :
    (Made.titled programs).Within (.titled (program :: programs)) := by
  have wider {f : Closure} (titled : f.Titled programs) : f.Titled (program :: programs) := by
    intro initializer
    obtain ⟨other, listed, visited⟩ := titled initializer
    exact ⟨other, List.mem_cons_of_mem _ listed, visited⟩
  exact ⟨wider, wider, fun _ => trivial⟩

/-- As an initializer, the function ends without a `return` or with a bare one. -/
def Closure.EndsPlainly (n : Nat) (f : Closure) (xs : List Value) (m : Machine) : Prop :=
  f.isInitializer = true → ∀ k flow m', n = k + 1 →
    Stmt.executeAll k (Closure.invoke k) f.declaration.body (m.entered f xs) = .value flow m' →
    flow = .normal ∨ flow = .return_ .nil

namespace Session

variable {readings : Nat → Number} {s s' ready : Session} {programs : List (List Stmt)} {source : String}
  {program : List Stmt} {fuel : Nat}

theorem interpret_sound {world : Setting} (visited : world.known ⟨.top, .stmts program, .start⟩)
    (active : world.active ⟨fuel, .program program, s.machine⟩) (sound : s.machine.Sound world)
    (here : s.machine.environment = world.globals) (ran : s.interpret fuel program = some s') :
    s'.machine.globals = s.machine.globals ∧ s'.machine.store.Sound world := by
  have ensures := Run.program_ensures program visited rfl active sound here
  unfold interpret at ran
  split at ran
  · rename_i done
    cases ran
    obtain ⟨-, sound', -⟩ := ensures.of_value done
    exact ⟨sound'.globals.trans sound.globals.symm, sound'.store⟩
  · rename_i failed
    cases ran
    obtain ⟨-, sound', -⟩ := ensures.of_fault failed
    exact ⟨sound'.globals.trans sound.globals.symm, sound'.store⟩
  · cases ran

theorem Consistent.titled_method (consistent : s.Consistent (program :: programs)) {n : Nat} {name : Token}
    {superclass : Option Expr} {methods : List FunctionDecl} {m : Machine}
    (during : Activity.During ⟨fuel, .program program, s.machine⟩ ⟨n, .stmt (.class_ name superclass methods), m⟩)
    (environment : Environment) {d : FunctionDecl} (listed : d ∈ methods) :
    Closure.Titled (program :: programs) ⟨d, environment, d.isInitializer⟩ := by
  intro initializer
  -- That the declaration was walked over is known without roles.
  obtain ⟨-, context, w, ⟨other, accepted, visited⟩, -⟩ := consistent.during_sound during
  obtain ⟨context', w', visited', role⟩ := visited.role listed
  exact ⟨other, accepted, context', w', visited', role.trans (if_pos initializer)⟩

def Consistent.titledSetting (consistent : s.Consistent (program :: programs)) (fuel : Nat) : Setting :=
  { consistent.setting ⟨fuel, .program program, s.machine⟩ with
    made := .titled (program :: programs)
    declares := fun _ => Closure.titled_function _ _ _
    defines := fun during _ => ⟨fun _ listed => consistent.titled_method during _ listed, fun _ _ => trivial⟩
    binds := fun _ titled => titled }

def Titled (s : Session) (programs : List (List Stmt)) : Prop :=
  ∀ world : Setting, (∀ program ∈ programs, ∀ v, Visits program v → world.known v) →
    world.globals = s.machine.globals → (Made.titled programs).Within world.made → s.machine.store.Sound world

theorem Titled.unchanged (titled : s.Titled programs) (globals : s'.machine.globals = s.machine.globals)
    (store : s'.machine.store = s.machine.store) : s'.Titled programs := by
  intro world known same made
  rw [store]
  exact titled world known (same.trans globals) made

theorem Titled.prepare {references : List Scope.Reference} (titled : s.Titled programs)
    (prepares : s.Prepares s' references) : s'.Titled programs := by
  obtain ⟨⟨lines, machine⟩, -, -⟩ := prepares
  exact titled.unchanged (by rw [machine]) (by rw [machine])

theorem Titled.machine_sound (titled : s.Titled programs) (consistent : s.Consistent (program :: programs)) (fuel : Nat) :
    s.machine.Sound (consistent.titledSetting fuel) := by
  refine ⟨rfl, rfl, consistent.root, titled _ (fun other listed v visited => ?_) rfl (Made.titled_cons program programs)⟩
  exact ⟨other, List.mem_cons_of_mem _ listed, visited⟩

theorem Titled.interpret (titled : s.Titled programs) (consistent : s.Consistent (program :: programs))
    (ran : s.interpret fuel program = some s') : s'.Titled (program :: programs) := by
  have visited : (consistent.titledSetting fuel).known ⟨.top, .stmts program, .start⟩ :=
    ⟨program, List.mem_cons_self .., .start⟩
  obtain ⟨globals, sound⟩ := interpret_sound visited .start (titled.machine_sound consistent fuel) consistent.environment ran
  intro world known same made
  refine sound.transfer ⟨?_, same.trans globals, made⟩
  rintro v ⟨other, listed, visited⟩
  exact known other listed v visited

theorem History.titled (past : History readings s programs) : s.Titled programs := by
  induction past with
  | start => exact fun world _ _ _ => start_sound readings world
  | reset _ ih | takeLines _ ih => exact ih.unchanged rfl rfl
  | refused _ refused ran ih =>
    obtain ⟨references, prepares⟩ := run_refused refused ran
    exact ih.prepare prepares
  | accepted past accepted ran ih =>
    rw [run_accepted accepted] at ran
    exact (ih.prepare (accept?_eq_some accepted).1).interpret (past.consistent.accept accepted) ran

theorem Consistent.returns_nil (consistent : s.Consistent programs) (listed : program ∈ programs) {d : FunctionDecl}
    {context : Scope.Context} {w : Scope.Walk} (visited : Visits program ⟨context, .function d, w⟩)
    (initializer : context.function = .initializer) {n : Nat} {invoke : Invoke} {m m' : Machine} {flow : Flow}
    (done : Stmt.executeAll n invoke d.body m = .value flow m') : flow = .normal ∨ flow = .return_ .nil := by
  have clean := (consistent.resolved listed (visited.enter .body)).clean
  have permitted := Scope.permits_returnsAll d.body _ clean
  exact (Stmt.executeAll_among d.body done).eq_nil fun value member => (permitted value member).2 initializer

theorem Titled.endsPlainly (titled : s.Titled programs) (consistent : s.Consistent (program :: programs)) {n : Nat}
    {f : Closure} {xs : List Value} {m : Machine}
    (during : Activity.During ⟨fuel, .program program, s.machine⟩ ⟨n, .invoke f xs, m⟩) : f.EndsPlainly n xs m := by
  intro initializer k flow m' same done
  have active : (consistent.titledSetting fuel).active ⟨fuel, .program program, s.machine⟩ := Activity.During.start
  have begun : Activity.Sound (consistent.titledSetting fuel) ⟨fuel, .program program, s.machine⟩ :=
    ⟨titled.machine_sound consistent fuel, _, _, ⟨program, List.mem_cons_self .., .start⟩, rfl, consistent.environment⟩
  obtain ⟨-, ⟨-, -, -, -, -, role⟩, -⟩ := (during.sound active begun).2
  obtain ⟨other, listed, context, w, visited, here⟩ := role initializer
  exact consistent.returns_nil listed visited here done

/-- Programs without misuses return only where that has an effect. Their own statements never do, and an initializer, whose
    value is the instance in any case, never returns another. -/
theorem returns_obeyed :
    (∀ program, (Scope.resolve program).misuses = [] →
      (∀ stmt ∈ program, ∀ fuel invoke m flow m', stmt.execute fuel invoke m = .value flow m' → flow = .normal) ∧
      ∀ fuel m, Stmt.executeAll fuel (Closure.invoke fuel) program m =
        (Run.program fuel program >>= fun _ => Run.pure Flow.normal) m) ∧
    ∀ readings s programs source program ready fuel, History readings s programs →
      s.accept? source = some (program, ready) →
      (∀ n f xs m, Activity.During ⟨fuel, .program program, ready.machine⟩ ⟨n, .invoke f xs, m⟩ → f.EndsPlainly n xs m) ∧
      ∀ other, Run.programWith fuel (Closure.watched Closure.EndsPlainly other fuel) program ready.machine =
        Run.program fuel program ready.machine := by
  refine ⟨fun program clean => ?_, fun readings s programs source program ready fuel past accepted => ?_⟩
  · have none := Scope.returns_eq_nil clean
    refine ⟨fun stmt member fuel invoke m flow m' done => ?_, Run.executeAll_eq_program none⟩
    exact Stmt.execute_eq_normal (none stmt member) done
  · have titled := past.titled.prepare (accept?_eq_some accepted).1
    have consistent := past.consistent.accept accepted
    have plain (n f xs m) (during : Activity.During ⟨fuel, .program program, ready.machine⟩ ⟨n, .invoke f xs, m⟩) :
        f.EndsPlainly n xs m := titled.endsPlainly consistent during
    exact ⟨plain, fun other => Run.program_watched other plain⟩

theorem returns_obeyed_bare : ∃ (ready : Session) (program : List Stmt) (f : Closure) (m m' : Machine),
    (Session.start fun _ => .zero).accept? "class A \x7b init(a) \x7b if (a) return; \x7d \x7d A(true);" =
      some (program, ready) ∧
    Activity.During ⟨2, .program program, ready.machine⟩ ⟨2, .invoke f [.bool true], m⟩ ∧ f.isInitializer = true ∧
    Stmt.executeAll 1 (Closure.invoke 1) f.declaration.body (m.entered f [.bool true]) = .value (.return_ .nil) m' ∧
    f.EndsPlainly 2 [.bool true] m ∧
    ∀ stmt ∈ program, ∀ fuel invoke m flow m', stmt.execute fuel invoke m = .value flow m' → flow = .normal := by
  let name (lexeme : String) : Token := ⟨.identifier, lexeme, none, 1⟩
  let paren : Token := ⟨.rightParen, ")", none, 1⟩
  let method : FunctionDecl :=
    .mk (name "init") [name "a"] [.ifThen (.variable_ 0 (name "a")) (.return_ ⟨.keyword .return_, "return", none, 1⟩ none)]
  let program : List Stmt := [.class_ (name "A") none [method],
    .expression (.call (.variable_ 1 (name "A")) paren [.constant (.bool true)])]
  let ready : Session := ⟨(Machine.start fun _ => .zero).setDistance 0 0, .clear, 2⟩
  have accepted : (Session.start fun _ => .zero).accept? "class A \x7b init(a) \x7b if (a) return; \x7d \x7d A(true);" =
      some (program, ready) := by cbv
  let made : Class := .base 0 "A" [("init", ⟨method, .root 0, true⟩)]
  let m₁ : Machine := { ready.machine with store := ⟨#[[("clock", .native .clock), ("A", .class_ made)]], #[], 1⟩ }
  have first : Stmt.execute 2 (Closure.invoke 2) (.class_ (name "A") none [method]) ready.machine =
    .value .normal m₁ := by rfl
  have callee : Expr.evaluate (Closure.invoke 2) (.variable_ 1 (name "A")) m₁ = .value (.class_ made) m₁ := by rfl
  have reached := (Activity.During.start (a := ⟨2, .program program, ready.machine⟩)).spawned (.othersOfProgram first)
  have called := ((reached.spawned .firstOfProgram).spawned .expression).spawned
    (.call callee rfl (.class_ rfl (by decide) rfl))
  have clean : (Scope.resolve program).misuses = [] := by cbv
  obtain ⟨tops, runs⟩ := returns_obeyed
  exact ⟨ready, program, _, _, _, accepted, called, rfl, rfl, (runs _ _ _ _ _ _ 2 .start accepted).1 _ _ _ _ called,
    (tops program clean).1⟩

end Session

end Lox
