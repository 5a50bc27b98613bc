import Lox.Proofs.Machine.AlikeEvaluation
import Lox.Proofs.Machine.Place
import Lox.Proofs.Machine.Execution

namespace Lox

inductive Flow.Alike (p : Pairing) (world : List Naming) : Flow → Flow → Prop where
  | normal : Alike p world .normal .normal
  | return_ {x x' : Value} (values : x.Alike p world x') : Alike p world (.return_ x) (.return_ x')

section

variable {p : Pairing} {world rs : List Naming} {m m' : Machine}

theorem Outcome.Alike.bindEnvironment {β β' : Type} {S : List Naming → β → β' → Prop} {next : Environment → Run β}
    {next' : Environment → Run β'} (machines : m.Alike p world rs m')
    (rest : Outcome.Alike p world rs S (next m.environment m) (next' m.environment m')) :
    Outcome.Alike p world rs S ((Run.read Machine.environment >>= next) m)
      ((Run.read Machine.environment >>= next') m') := by
  rw [Run.bind_value Run.read_eq, Run.bind_value Run.read_eq, machines.environment]
  exact rest

theorem Run.define_alike {α : Type} {R : List Naming → α → α → Prop} {name name' : String} {x x' : Value} {result : α}
    (machines : m.Alike p world rs m') (renamed : name' = Naming.out rs 0 name) (values : x.Alike p world x')
    (results : R world result result) :
    Outcome.Alike p world rs R (Run.onStore (fun s => (result, s.define m.environment name x)) m)
      (Run.onStore (fun s => (result, s.define m.environment name' x')) m') :=
  .onStore machines (List.prefix_refl _) (machines.store.bind machines.named.innermost renamed values) results

theorem Run.loop_alike {condition condition' : Run Value} {body body' : Run Flow}
    (tests : ∀ {world : List Naming} {m m' : Machine}, m.Alike p world rs m' →
      Outcome.Alike p world rs (Value.Alike p) (condition m) (condition' m'))
    (runs : ∀ {world : List Naming} {m m' : Machine}, m.Alike p world rs m' →
      Outcome.Alike p world rs (Flow.Alike p) (body m) (body' m'))
    (turns : Nat) (machines : m.Alike p world rs m') :
    Outcome.Alike p world rs (Flow.Alike p) (Run.loop turns condition body m) (Run.loop turns condition' body' m') := by
  induction turns generalizing world m m' with
  | zero => exact .outOfFuel
  | succ turns ih =>
    rw [Run.loop_succ, Run.loop_succ]
    apply (tests machines).bind
    intro world₁ x x' m₁ m₁' _ _ machines₁ values
    rw [values.isTruthy]
    split
    · apply (runs machines₁).bind
      intro world₂ flow flow' m₂ m₂' _ _ machines₂ flows
      cases flows with
      | normal => exact ih machines₂
      | return_ values => exact .done machines₂ (.return_ values)
    · exact .done machines₁ .normal

theorem Run.methodTable_alike {environment : Environment} {methods methods' : List FunctionDecl}
    (declared : FunctionDecl.AllAlike p (.id :: rs) methods methods') (named : environment.Named world rs)
    (method : String) :
    Option.Rel (Closure.MethodAlike p world) ((Run.methodTable environment methods).find? method)
      ((Run.methodTable environment methods').find? method) := by
  have all : ∀ (methods methods' : List FunctionDecl) (table table' : Bindings Closure),
      FunctionDecl.AllAlike p (.id :: rs) methods methods' →
      Option.Rel (Closure.MethodAlike p world) (table.find? method) (table'.find? method) →
      Option.Rel (Closure.MethodAlike p world)
        ((methods.foldl (fun table d => table.insert d.name.lexeme ⟨d, environment, d.isInitializer⟩) table).find? method)
        ((methods'.foldl (fun table d => table.insert d.name.lexeme ⟨d, environment, d.isInitializer⟩) table').find?
          method) := by
    intro methods
    induction methods with
    | nil =>
      intro methods' table table' declared tables
      cases declared
      exact tables
    | cons d rest ih =>
      intro methods' table table' declared tables
      cases declared with
      | @cons _ _ d' _ rest' first others =>
        apply ih rest' _ _ others
        rw [Bindings.find?_insert, Bindings.find?_insert, p.lexeme first.named]
        split
        · exact .some ⟨rfl, first.isInitializer, rs, named, first⟩
        · exact tables
  exact all methods methods' [] [] declared .none

/-- The namings of the scopes around the methods of a class, that of `this` apart. -/
def Naming.aroundMethods (rs : List Naming) (derived : Bool) : List Naming := if derived then .id :: rs else rs

theorem Run.methodEnvironment_alike {above above' : Option Class} (machines : m.Alike p world rs m')
    (supers : Option.Rel (Class.Alike p world) above above') :
    Outcome.Alike p world rs
      (fun world₁ environment environment' => environment' = environment ∧
        environment.Named world₁ (Naming.aroundMethods rs above.isSome))
      (Run.methodEnvironment m.environment above m) (Run.methodEnvironment m.environment above' m') := by
  cases supers with
  | none => exact .done machines ⟨rfl, machines.named⟩
  | some classes =>
    unfold Run.methodEnvironment
    apply Outcome.Alike.onStore machines (List.prefix_append world [.id])
    · exact machines.store.childWith m.environment "super" (.class_ classes)
    · exact ⟨machines.store.childOf_eq _, machines.store.childOf_named .id machines.named⟩

theorem Store.locate_innermost {s : Store} {environment : Environment} {name : Token}
    (bound : (s.lookup? environment.scope name.lexeme).isSome = true) :
    s.locate environment name = .ok environment.scope := by
  cases environment with
  | root scope | child scope enclosing =>
    have bound : (s.lookup? scope name.lexeme).isSome = true := bound
    simp [Store.locate, Store.locate?, bound, Environment.scope]

theorem Run.methodEnvironment_bound {above : Option Class} {current environment : Environment} {m₁ : Machine}
    {scope : ScopeId} {name : String} (done : Run.methodEnvironment current above m = .value environment m₁)
    (bound : (m.store.lookup? scope name).isSome = true) : (m₁.store.lookup? scope name).isSome = true := by
  cases above with
  | none =>
    cases done
    exact bound
  | some c =>
    cases done
    have grows : m.store.Grows none ((m.store.childOf current).2.bind m.store.scopes.size "super" (.class_ c)) :=
      .childWith ..
    exact grows.bound scope name bound

theorem Run.bindClass_alike {name name' : Token} {above above' : Option Class} {methods methods' : List FunctionDecl}
    (machines : m.Alike p world rs m') (named : p.Fixes rs name name')
    (supers : Option.Rel (Class.Alike p world) above above')
    (declared : FunctionDecl.AllAlike p (.id :: Naming.aroundMethods rs above.isSome) methods methods') :
    Outcome.Alike p world rs (fun _ _ _ => True) (Run.bindClass name methods above m)
      (Run.bindClass name' methods' above' m') := by
  have inside : m.environment.scope < m.store.scopes.size := by
    rw [← machines.store.length]
    exact (List.getElem?_eq_some_iff.mp machines.named.innermost).1
  apply Outcome.Alike.bindEnvironment machines
  have unset : Outcome.Alike p world rs (fun _ _ _ => True)
      (Run.onStore (fun s => ((), s.define m.environment name.lexeme .nil)) m)
      (Run.onStore (fun s => ((), s.define m.environment name'.lexeme .nil)) m') :=
    Run.define_alike machines named.lexeme .nil trivial
  apply unset.bind
  intro world₁ _ _ m₁ m₁' grown₁ defined machines₁ _
  -- The name is bound in the innermost scope from here on, so that is where it is found in the end.
  have here : m₁.environment = m.environment := by
    cases defined
    rfl
  have bound₁ : (m₁.store.lookup? m.environment.scope name.lexeme).isSome = true := by
    cases defined
    show ((m.store.bind m.environment.scope name.lexeme .nil).lookup? _ _).isSome = true
    rw [Store.lookup?_bind, if_pos ⟨rfl, rfl, inside⟩]
    rfl
  have supers₁ : Option.Rel (Class.Alike p world₁) above above' := rel_imp (fun _ _ classes => classes.grow grown₁) supers
  have entered := Run.methodEnvironment_alike machines₁ supers₁
  rw [here] at entered
  apply entered.bind
  rintro world₂ environment _ m₂ m₂' grown₂ made machines₂ ⟨rfl, around⟩
  have bound₂ := Run.methodEnvironment_bound made bound₁
  have numbered : Outcome.Alike p world₂ rs (fun _ identity identity' => identity' = identity)
      (Run.onStore Store.fresh m₂) (Run.onStore Store.fresh m₂') :=
    .onStore machines₂ (List.prefix_refl _) machines₂.store.fresh machines₂.store.identity
  apply numbered.bind
  rintro world₃ identity _ m₃ m₃' grown₃ fresh machines₃ rfl
  have bound₃ : (m₃.store.lookup? m.environment.scope name.lexeme).isSome = true := by
    cases fresh
    exact bound₂
  have innermost := Naming.kept (grown₁.trans (grown₂.trans grown₃)) machines.named.innermost
  have bound₃' : (m₃'.store.lookup? m.environment.scope name'.lexeme).isSome = true := by
    rw [named.lexeme, rel_isSome (machines₃.store.bound _ _ innermost name.lexeme)]
    exact bound₃
  have tables := Run.methodTable_alike declared (around.grow grown₃)
  apply Outcome.Alike.assignIn machines₃
  · rw [p.lexeme named.tokens]
    cases supers₁ with
    | none => exact .class_ (.base tables)
    | some classes => exact .class_ (.derived tables (classes.grow (grown₂.trans grown₃)))
  · rw [Store.locate_innermost bound₃, Store.locate_innermost bound₃']
    exact .ok ⟨rfl, _, innermost, named.lexeme⟩

end

section

variable {p : Pairing} {invoke : Invoke}

theorem Run.optional_alike {world rs : List Naming} {m m' : Machine} {e e' : Option Expr} (calls : invoke.Alike p)
    (exprs : Option.Rel (Expr.Alike p rs) e e') (machines : m.Alike p world rs m') :
    Outcome.Alike p world rs (Value.Alike p) (Run.optional invoke e m) (Run.optional invoke e' m') := by
  cases exprs with
  | none => exact .done machines .nil
  | some alike => exact Expr.evaluate_alike calls alike machines

theorem Run.superclass_alike {world rs : List Naming} {m m' : Machine} {name name' : Token} {e? e'? : Option Expr}
    (calls : invoke.Alike p) (named : p.tokens name name') (extended : Option.Rel (Expr.Alike p rs) e? e'?)
    (machines : m.Alike p world rs m') :
    Outcome.Alike p world rs
      (fun world above above' => above.isSome = e?.isSome ∧ Option.Rel (Class.Alike p world) above above')
      (Run.superclass invoke name e? m) (Run.superclass invoke name' e'? m') := by
  cases extended with
  | none => exact .done machines ⟨rfl, .none⟩
  | @some e e' exprs =>
  apply (Expr.evaluate_alike calls exprs machines).bind
  intro world₁ x x' m₁ m₁' _ _ machines₁ values
  cases values with
  | class_ classes => exact .done machines₁ ⟨rfl, .some classes⟩
  | _ =>
    cases exprs with
    | variable_ reference => exact .failed machines₁ (.notClass (p.refers_names reference))
    | _ => exact .failed machines₁ (.notClass (p.tokens_names named))

theorem Run.defineClass_alike {world rs : List Naming} {m m' : Machine} {name name' : Token} {e? e'? : Option Expr}
    {methods methods' : List FunctionDecl} (calls : invoke.Alike p) (named : p.Fixes rs name name')
    (extended : Option.Rel (Expr.Alike p rs) e? e'?)
    (declared : FunctionDecl.AllAlike p (.id :: Naming.aroundMethods rs e?.isSome) methods methods')
    (machines : m.Alike p world rs m') :
    Outcome.Alike p world rs (fun _ _ _ => True) (Run.defineClass invoke name e? methods m)
      (Run.defineClass invoke name' e'? methods' m') := by
  rw [Run.defineClass_eq, Run.defineClass_eq]
  apply (Run.superclass_alike calls named.tokens extended machines).bind
  rintro world₁ above above' m₁ m₁' - - machines₁ ⟨derived, supers⟩
  rw [← derived] at declared
  exact Run.bindClass_alike machines₁ named supers declared

mutual

theorem Stmt.execute_alike (calls : invoke.Alike p) (fuel : Nat) :
    ∀ {s s' : Stmt} {world rs : List Naming} {m m' : Machine}, s.Alike p rs s' → m.Alike p world rs m' →
    Outcome.Alike p world rs (Flow.Alike p) (s.execute fuel invoke m) (s'.execute fuel invoke m')
  | _, _, world, rs, m, m', .block r stated, machines => by
    rw [Stmt.execute, Stmt.execute]
    apply Outcome.Alike.bindEnvironment machines
    have grown : world <+: world ++ [r] := List.prefix_append _ _
    have entered := machines.withStore grown (machines.store.childOf r m.environment)
    rw [Run.bind_value Run.onStore_eq, Run.bind_value Run.onStore_eq, machines.store.childOf_eq]
    apply Outcome.Alike.weaken ?_ grown
    apply Outcome.Alike.within entered
    exact Stmt.executeAll_alike calls fuel stated (entered.within (machines.store.childOf_named r machines.named))
  | _, _, world, rs, m, m', .base named declared, machines => by
    rw [Stmt.execute, Stmt.execute]
    apply (Run.defineClass_alike calls named .none declared machines).bind
    intro world₁ _ _ m₁ m₁' _ _ machines₁ _
    exact .done machines₁ .normal
  | _, _, world, rs, m, m', .derived named extended declared, machines => by
    rw [Stmt.execute, Stmt.execute]
    apply (Run.defineClass_alike calls named (.some extended) declared machines).bind
    intro world₁ _ _ m₁ m₁' _ _ machines₁ _
    exact .done machines₁ .normal
  | _, _, world, rs, m, m', .expression stated, machines => by
    rw [Stmt.execute, Stmt.execute]
    apply (Expr.evaluate_alike calls stated machines).bind
    intro world₁ _ _ m₁ m₁' _ _ machines₁ _
    exact .done machines₁ .normal
  | _, _, world, rs, m, m', .function named declared, machines => by
    rw [Stmt.execute, Stmt.execute]
    apply Outcome.Alike.bindEnvironment machines
    have stores := machines.store.fresh
    apply Outcome.Alike.onStore machines (List.prefix_refl _)
    · apply stores.bind machines.named.innermost named.lexeme
      rw [show m'.store.fresh.1 = m.store.fresh.1 from machines.store.identity]
      exact .function ⟨rfl, rfl, _, machines.named, declared⟩
    · exact .normal
  | _, _, world, rs, m, m', .ifThen head first, machines => by
    rw [Stmt.execute, Stmt.execute]
    apply (Expr.evaluate_alike calls head machines).bind
    intro world₁ x x' m₁ m₁' _ _ machines₁ values
    rw [values.isTruthy]
    split
    · exact Stmt.execute_alike calls fuel first machines₁
    · exact .done machines₁ .normal
  | _, _, world, rs, m, m', .ifThenElse head first second, machines => by
    rw [Stmt.execute, Stmt.execute]
    apply (Expr.evaluate_alike calls head machines).bind
    intro world₁ x x' m₁ m₁' _ _ machines₁ values
    rw [values.isTruthy]
    split
    · exact Stmt.execute_alike calls fuel first machines₁
    · exact Stmt.execute_alike calls fuel second machines₁
  | _, _, world, rs, m, m', .print_ stated, machines => by
    rw [Stmt.execute, Stmt.execute]
    apply (Expr.evaluate_alike calls stated machines).bind
    intro world₁ x x' m₁ m₁' _ _ machines₁ values
    rw [values.display]
    exact .done (machines₁.write _) .normal
  | _, _, world, rs, m, m', .return_ word returned, machines => by
    rw [Stmt.execute, Stmt.execute]
    apply (Run.optional_alike calls returned machines).bind
    intro world₁ x x' m₁ m₁' _ _ machines₁ values
    exact .done machines₁ (.return_ values)
  | _, _, world, rs, m, m', .var_ named initial, machines => by
    rw [Stmt.execute, Stmt.execute]
    apply (Run.optional_alike calls initial machines).bind
    intro world₁ x x' m₁ m₁' _ _ machines₁ values
    apply Outcome.Alike.bindEnvironment machines₁
    exact Run.define_alike machines₁ named.lexeme values .normal
  | _, _, world, rs, m, m', .while_ head repeated, machines => by
    rw [Stmt.execute, Stmt.execute]
    exact Run.loop_alike (fun machines => Expr.evaluate_alike calls head machines)
      (fun machines => Stmt.execute_alike calls fuel repeated machines) fuel machines

theorem Stmt.executeAll_alike (calls : invoke.Alike p) (fuel : Nat) :
    ∀ {ss ss' : List Stmt} {world rs : List Naming} {m m' : Machine}, Stmt.AllAlike p rs ss ss' → m.Alike p world rs m' →
    Outcome.Alike p world rs (Flow.Alike p) (Stmt.executeAll fuel invoke ss m) (Stmt.executeAll fuel invoke ss' m')
  | _, _, world, rs, m, m', .nil, machines => by
    rw [Stmt.executeAll]
    exact .done machines .normal
  | _, _, world, rs, m, m', .cons first others, machines => by
    rw [Stmt.executeAll, Stmt.executeAll]
    apply (Stmt.execute_alike calls fuel first machines).bind
    intro world₁ flow flow' m₁ m₁' _ _ machines₁ flows
    cases flows with
    | normal => exact Stmt.executeAll_alike calls fuel others machines₁
    | return_ values => exact .done machines₁ (.return_ values)

end

end

section

variable {p : Pairing} {world rs : List Naming} {m m' : Machine}

theorem Store.Alike.defineAll {r : Naming} {environment : Environment} {params params' : List Token} {xs xs' : List Value}
    {s s' : Store} (stores : s.Alike p world s') (here : world[environment.scope]? = some r)
    (entries : List.Forall₂ (p.Declares (r :: rs)) params params') (given : List.Forall₂ (Value.Alike p world) xs xs') :
    ((params.zip xs).foldl (fun s (param, value) => s.define environment param.lexeme value) s).Alike p world
      ((params'.zip xs').foldl (fun s (param, value) => s.define environment param.lexeme value) s') := by
  induction entries generalizing s s' xs xs' with
  | nil => exact stores
  | cons declares _ ih =>
    cases given with
    | nil => exact stores
    | cons values others => exact ih (stores.bind here declares.lexeme values) others

theorem Store.Alike.enter {f f' : Closure} {xs xs' : List Value} {s s' : Store} (stores : s.Alike p world s')
    (closures : f.Alike p world f') (given : List.Forall₂ (Value.Alike p world) xs xs') :
    ∃ r rs, (f'.enter xs' s').1 = (f.enter xs s).1 ∧ (f.enter xs s).1.Named (world ++ [r]) (r :: rs) ∧
      (f.enter xs s).2.Alike p (world ++ [r]) (f'.enter xs' s').2 ∧
      Stmt.AllAlike p (r :: rs) f.declaration.body f'.declaration.body := by
  obtain ⟨rs, named, declared⟩ := closures.declaration
  obtain ⟨declaration, environment, isInitializer⟩ := f
  obtain ⟨declaration', environment', isInitializer'⟩ := f'
  obtain rfl : environment' = environment := closures.environment
  cases declared with
  | mk r title entries stated =>
    have same := stores.childOf_eq environment'
    have inner := stores.childOf_named r named
    have grown := Value.Alike.growAll given (List.prefix_append world [r])
    refine ⟨r, rs, same, inner, ?_, stated⟩
    unfold Closure.enter
    dsimp only [FunctionDecl.params]
    rw [same]
    exact (stores.childOf r environment').defineAll inner.innermost entries grown

theorem Closure.invoke_alike (fuel : Nat) : (Closure.invoke fuel).Alike p := by
  induction fuel with
  | zero => exact fun _ _ _ => .outOfFuel
  | succ fuel ih =>
    intro world rs f f' xs xs' m m' closures given machines
    have entered : Outcome.Alike p world rs
        (fun world environment environment' => environment' = environment ∧ ∃ rs, environment.Named world rs ∧
          Stmt.AllAlike p rs f.declaration.body f'.declaration.body)
        (Run.onStore (f.enter xs) m) (Run.onStore (f'.enter xs') m') := by
      obtain ⟨r, rs', same, named, stores, stated⟩ := machines.store.enter closures given
      exact .onStore machines (List.prefix_append world [r]) stores ⟨same, r :: rs', named, stated⟩
    rw [Closure.invoke]
    apply entered.bind
    rintro world₁ environment environment' m₁ m₁' grown - machines₁ ⟨rfl, rs', named, stated⟩
    apply (Outcome.Alike.within machines₁ (Stmt.executeAll_alike ih fuel stated (machines₁.within named))).bind
    intro world₂ flow flow' m₂ m₂' grown₂ _ machines₂ flows
    rw [closures.isInitializer]
    by_cases initializer : f.isInitializer = true
    · obtain ⟨rs₀, made, -⟩ := closures.declaration
      have reserved : "this" ∈ Scope.reserved := by decide
      rw [if_pos initializer, if_pos initializer, closures.environment]
      exact .tryRead machines₂ (machines₂.store.getAt_reserved (made.grow (grown.trans grown₂)) 0 reserved)
    · rw [if_neg initializer, if_neg initializer]
      cases flows with
      | normal => exact .done machines₂ .nil
      | return_ values => exact .done machines₂ values

theorem Run.program_alike (fuel : Nat) {program program' : List Stmt} (stated : Stmt.AllAlike p rs program program')
    (machines : m.Alike p world rs m') :
    Outcome.Alike p world rs (fun _ _ _ => True) (Run.program fuel program m) (Run.program fuel program' m') := by
  induction program generalizing program' world m m' with
  | nil =>
    cases stated
    exact .done machines trivial
  | cons stmt rest ih =>
    cases stated with
    | cons first others =>
      apply (Stmt.execute_alike (Closure.invoke_alike fuel) fuel first machines).bind
      intro world₁ _ _ m₁ m₁' _ _ machines₁ _
      exact ih others machines₁

end
end Lox
