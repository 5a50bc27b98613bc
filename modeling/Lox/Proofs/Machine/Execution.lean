import Lox.Proofs.Machine.Evaluation

namespace Lox

variable {world : Setting}

def Flow.Sound (world : Setting) (s : Store) : Flow → Prop
  | .normal => True
  | .return_ x => x.Sound world s

structure Flow.Ends (world : Setting) (scopes : List Scope.Names) (flow : Flow) (m : Machine) : Prop where
  sound : flow.Sound world m.store
  fit : flow = .normal → m.Matches world scopes

namespace Run

variable {m : Machine} {n : Nat} {context : Scope.Context} {w : Scope.Walk} {scopes : List Scope.Names}
  {free : Option ScopeId}

theorem Ensures.ends {action : Run Flow} (fit : m.Matches world scopes)
    (ensures : action.Ensures world none m fun flow m' => flow.Sound world m'.store) :
    action.Ensures world free m (Flow.Ends world scopes) :=
  (ensures.mono fun _ _ kept _ sound => ⟨sound, fun _ => fit.kept kept⟩).weaken

theorem loop_ensures {condition : Expr} {body : Stmt} (calls : CallsEnsured world n)
    (visited : world.known ⟨context, .expr condition, w⟩)
    (turned : ∀ {m : Machine}, world.active ⟨n, .stmt body, m⟩ → m.Sound world → m.Matches world w.scopes →
      (body.execute n (Closure.invoke n)).Ensures world (some m.environment.scope) m (Flow.Ends world w.scopes))
    (turns : Nat) : ∀ {m : Machine}, world.active ⟨n, .loop turns condition body, m⟩ → m.Sound world →
      m.Matches world w.scopes →
      Ensures world (some m.environment.scope) (loop turns (condition.evaluate (Closure.invoke n))
        (body.execute n (Closure.invoke n))) m (Flow.Ends world w.scopes) := by
  induction turns with
  | zero => exact fun _ _ _ => trivial
  | succ turns ih =>
    intro m active sound fit
    rw [loop_succ]
    have tested := Expr.evaluate_ensures calls condition visited (world.spawns active .loopCondition) sound fit
    refine tested.bindFramed fun x m₁ done kept sound₁ _ => ?_
    rw [← kept.environment]
    split
    · rename_i holds
      have body := turned (world.spawns active (.loopBody done holds)) sound₁ (fit.kept kept)
      refine body.bind fun flow m₂ executed kept₂ sound₂ ends => ?_
      cases flow with
      | normal =>
        rw [← kept₂.environment]
        exact ih (world.spawns active (.otherTurns done holds executed)) sound₂ (ends.fit rfl)
      | return_ y => exact Ensures.pure sound₂ ⟨ends.sound, fun returned => by cases returned⟩
    · exact Ensures.pure sound₁ ⟨trivial, fun _ => fit.kept kept⟩

theorem methodTable_find? {environment : Environment} {methods : List FunctionDecl} {name : String} {f : Closure}
    (found : (methodTable environment methods).find? name = some f) :
    ∃ d ∈ methods, f = ⟨d, environment, d.isInitializer⟩ := by
  have all : ∀ (methods : List FunctionDecl) (table : Bindings Closure),
      (methods.foldl (fun table d => table.insert d.name.lexeme ⟨d, environment, d.isInitializer⟩) table).find? name =
        some f → table.find? name = some f ∨ ∃ d ∈ methods, f = ⟨d, environment, d.isInitializer⟩ := by
    intro methods
    induction methods with
    | nil => exact fun _ => .inl
    | cons d rest ih =>
      intro table found
      rcases ih _ found with earlier | ⟨d', listed, same⟩
      · rw [Bindings.find?_insert] at earlier
        split at earlier
        · exact .inr ⟨d, List.mem_cons_self .., (Option.some.inj earlier).symm⟩
        · exact .inl earlier
      · exact .inr ⟨d', List.mem_cons_of_mem _ listed, same⟩
  rcases all methods [] found with nothing | declared
  · cases nothing
  · exact declared

theorem methods_known {methods : List FunctionDecl} (visited : world.known ⟨context, .methods methods, w⟩) :
    ∀ d ∈ methods, ∃ context' w', world.known ⟨context', .function d, w'⟩ ∧ w'.scopes = w.scopes := by
  induction methods generalizing w with
  | nil => exact fun d listed => (by cases listed)
  | cons d rest ih =>
    intro d' listed
    rcases List.mem_cons.mp listed with rfl | later
    · exact ⟨_, _, world.enters visited .firstMethod, rfl⟩
    · obtain ⟨context', w', known, scopes⟩ := ih (world.enters visited .otherMethods) d' later
      have legal := (world.resolved visited).legal d (List.mem_cons_self ..)
      exact ⟨context', w', known, scopes.trans (Scope.scopes_walkFunction _ d w legal)⟩

theorem superclass_ensures {name : Token} {superclass : Option Expr} {methods : List FunctionDecl}
    (visited : world.known ⟨context, .stmt (.class_ name superclass methods), w⟩) (sound : m.Sound world)
    (fit : m.Matches world w.scopes) :
    (Run.superclass (Closure.invoke n) name superclass).Ensures world none m fun result m' =>
      superclass = none ∧ result = none ∨ ∃ e c, superclass = some e ∧ result = some c ∧ c.Sound world m'.store := by
  cases superclass with
  | none => exact Ensures.pure sound (.inl ⟨rfl, rfl⟩)
  | some e =>
    obtain ⟨id, superName, rfl, -⟩ : ∃ id superName, e = .variable_ id superName ∧ superName.Is [.identifier] := by
      cases (world.resolved visited).legal with
      | class_ _ extended _ _ _ => exact extended e rfl
    have read : (Expr.evaluate (Closure.invoke n) (.variable_ id superName)).Ensures world none m fun x m' =>
        x.Sound world m'.store := by
      rw [Expr.evaluate]
      exact lookUp_ensures sound (Machine.lookUp_superclass visited sound fit.fits)
    refine Ensures.bind read fun x m' _ _ sound' found => ?_
    dsimp only
    split
    · exact .pure sound' (.inr ⟨_, _, rfl, rfl, found⟩)
    · exact .fail sound' (Setting.excuses_of_ne (by simp))

theorem class_sound {methods : List FunctionDecl} {outer : List Scope.Names} {environment : Environment} {s : Store}
    (visited : world.known ⟨context, .methods methods, w⟩) (scopes : w.scopes = [("this", true)] :: outer)
    (fits : s.Fits world.globals environment outer)
    (made : ∀ d ∈ methods, world.made.method ⟨d, environment, d.isInitializer⟩) {name : String} {f : Closure}
    (found : (methodTable environment methods).find? name = some f) : f.SoundMethod world s := by
  obtain ⟨d, listed, rfl⟩ := methodTable_find? found
  obtain ⟨context', w', known, same⟩ := methods_known visited d listed
  exact ⟨context', w', outer, known, same.trans scopes, fits, made d listed⟩

theorem makeClass_ensures {name : Token} {make : Identity → Class} (sound : m.Sound world) (fit : m.Matches world scopes)
    (ordinary : name.lexeme ∉ Scope.reserved) (of : ∀ identity, (make identity).Sound world m.store)
    (bound : (m.store.lookup? m.environment.scope name.lexeme).isSome = true) :
    (onStore Store.fresh >>= fun identity => Run.assignIn (·.store.locate m.environment name) name.lexeme
      (.class_ (make identity))).Ensures world none m fun _ m' => m'.Matches world scopes := by
  have renumbered : m.store.Grows none m.store.fresh.2 := .of_scopes rfl
  have located : m.store.fresh.2.locate m.environment name = .ok m.environment.scope := by
    have found : (m.store.fresh.2.lookup? m.environment.scope name.lexeme).isSome = true := bound
    cases here : m.environment <;> simp_all [Store.locate, Store.locate?, Environment.scope]
  have assigned : (Run.assignIn (·.store.locate m.environment name) name.lexeme
      (.class_ (make m.store.fresh.1))).Ensures world none { m with store := m.store.fresh.2 } fun _ _ => True := by
    refine .assignIn (sound.onStore renumbered sound.store.fresh) ordinary ((of _).grow renumbered)
      (fun scope found => ?_) fun fault failed => ?_
    · rw [located] at found
      cases found
      exact bound
    · rw [located] at failed
      cases failed
  have joined : ∀ m', ({ m with store := m.store.fresh.2 } : Machine).Kept none m' → m.Kept none m' :=
    fun m' kept => ⟨kept.environment, renumbered.trans kept.store⟩
  exact (assigned.mono fun _ m' kept _ _ => fit.kept (joined m' kept)).after rfl joined

theorem defineClass_ensures {name : Token} {superclass : Option Expr} {methods : List FunctionDecl}
    (visited : world.known ⟨context, .stmt (.class_ name superclass methods), w⟩)
    (active : world.active ⟨n, .stmt (.class_ name superclass methods), m⟩) (sound : m.Sound world)
    (fit : m.Matches world w.scopes) :
    (Run.defineClass (Closure.invoke n) name superclass methods).Ensures world (some m.environment.scope) m fun _ m' =>
      m'.Matches world (Scope.bindInnermost name.lexeme w.scopes) := by
  have ordinary : name.lexeme ∉ Scope.reserved := by
    cases (world.resolved visited).legal with
    | class_ named _ _ _ _ => exact Scope.lexeme_not_reserved named
  refine (superclass_ensures visited sound fit).bindFramed fun result m₁ evaluated kept sound₁ extended => ?_
  obtain ⟨methodsMade, superMade⟩ := world.defines active evaluated
  rw [← kept.environment]
  have inside := sound₁.scope_inside (fit.kept kept)
  have defined : m₁.store.Grows (some m₁.environment.scope) (m₁.store.define m₁.environment name.lexeme .nil) :=
    .define ordinary .nil
  have bound : ((m₁.store.define m₁.environment name.lexeme .nil).lookup? m₁.environment.scope name.lexeme).isSome =
      true := by
    rw [Store.define, Store.lookup?_bind, if_pos ⟨rfl, rfl, inside⟩]
    rfl
  have sound₂ := sound₁.onStore defined (sound₁.store.bind defined (trivial : Value.Sound world _ .nil))
  have fit₂ := (fit.kept kept).define ordinary .nil
  rcases extended with ⟨rfl, rfl⟩ | ⟨e, c, rfl, rfl, above⟩
  · have of : ∀ identity, (Class.base identity name.lexeme (methodTable m₁.environment methods)).Sound world
        (m₁.store.define m₁.environment name.lexeme .nil) := fun identity method f found =>
      class_sound (world.enters visited .baseMethods) (by simp) fit₂.fits methodsMade found
    exact (makeClass_ensures sound₂ fit₂ ordinary of bound).after rfl fun m' kept' =>
      ⟨kept'.environment, defined.trans kept'.store.weaken⟩
  · have size : (m₁.store.define m₁.environment name.lexeme .nil).scopes.size = m₁.store.scopes.size := Store.size_bind ..
    rw [Machine.methodEnvironment, ← size] at methodsMade
    rw [← size] at superMade
    have held : (Value.class_ c).Sound world (m₁.store.define m₁.environment name.lexeme .nil) := above.grow defined
    have child : (m₁.store.define m₁.environment name.lexeme .nil).Grows none _ :=
      .childWith m₁.environment "super" (.class_ c)
    have around := fit₂.fits.grow child
    have of : ∀ identity, (Class.derived identity name.lexeme (methodTable
        (.child (m₁.store.define m₁.environment name.lexeme .nil).scopes.size m₁.environment) methods) c).Sound world
        _ := fun identity =>
      ⟨fun method f found => class_sound (world.enters visited .derivedMethods) (by simp)
        (Store.Fits.cons_iff.mpr ⟨_, _, rfl, .childSuper _ m₁.environment c, around⟩) methodsMade found,
        Class.Sound.grow held child⟩
    have super : ∀ c', "super" = "super" → Value.class_ c = .class_ c' →
        world.made.superclass (m₁.store.define m₁.environment name.lexeme .nil).scopes.size c' := by
      rintro c' - ⟨⟩
      exact superMade c rfl
    have sound₃ := sound₂.onStore child (sound₂.store.childWith m₁.environment "super" held super)
    exact (makeClass_ensures sound₃ (fit₂.kept ⟨rfl, child⟩) ordinary of (child.bound _ _ bound)).after rfl fun m' kept' =>
      ⟨kept'.environment, defined.trans (child.trans kept'.store).weaken⟩

theorem defineAll_matches {params : List Token} : ∀ {xs : List Value} {m : Machine} {w : Scope.Walk},
    xs.length = params.length → m.Sound world → m.Matches world w.scopes → (∀ param ∈ params, param.Is [.identifier]) →
    (∀ x ∈ xs, x.Sound world m.store) →
    let s := (params.zip xs).foldl (fun s (param, x) => s.define m.environment param.lexeme x) m.store
    m.store.Grows (some m.environment.scope) s ∧ ({ m with store := s } : Machine).Sound world ∧
      ({ m with store := s } : Machine).Matches world (params.foldl Scope.Walk.bind w).scopes := by
  induction params with
  | nil => exact fun _ sound fit _ _ => ⟨.refl .., sound, fit⟩
  | cons param rest ih =>
    intro xs m w fitting sound fit named given
    cases xs with
    | nil => cases fitting
    | cons x xs =>
      have ordinary := Scope.lexeme_not_reserved (named param (List.mem_cons_self ..))
      have grows : m.store.Grows (some m.environment.scope) (m.store.define m.environment param.lexeme x) :=
        .define ordinary x
      have store := sound.store.bind grows ((given x (List.mem_cons_self ..)).grow grows)
      have fit' := fit.define ordinary x
      rw [← Scope.Walk.scopes_bind] at fit'
      obtain ⟨grows', sound', fit''⟩ := ih (Nat.succ.inj fitting) (sound.onStore grows store) fit'
        (fun param member => named param (List.mem_cons_of_mem _ member))
        fun x member => (given x (List.mem_cons_of_mem _ member)).grow grows
      exact ⟨grows.trans grows', sound', fit''⟩

theorem entered_matches {f : Closure} {xs : List Value} (sound : m.Sound world)
    (visited : world.known ⟨context, .function f.declaration, w⟩)
    (fits : m.store.Fits world.globals f.environment w.scopes) (given : ∀ x ∈ xs, x.Sound world m.store)
    (fitting : xs.length = f.arity) :
    m.store.Grows none (m.entered f xs).store ∧ (m.entered f xs).Sound world ∧
      (m.entered f xs).Matches world (f.declaration.params.foldl Scope.Walk.bind (w.enter [])).scopes := by
  have child : m.store.Grows none (m.inside f.environment).store := .childOf f.environment
  have named := (world.resolved visited).legal.params
  obtain ⟨grows, sound', fit⟩ := defineAll_matches (w := w.enter []) fitting (sound.inside f.environment)
    (Machine.matches_inside fits) named fun x member => (given x member).grow child
  exact ⟨child.inside grows (Nat.le_refl _), sound', fit⟩

theorem optional_ensures {value : Option Expr} (calls : CallsEnsured world n)
    (visited : ∀ e, value = some e → world.known ⟨context, .expr e, w⟩)
    (active : ∀ e, value = some e → world.active ⟨n, .expr e, m⟩) (sound : m.Sound world)
    (fit : m.Matches world w.scopes) :
    (Run.optional (Closure.invoke n) value).Ensures world none m fun x m' => x.Sound world m'.store := by
  cases value with
  | none => exact .pure sound trivial
  | some e => exact Expr.evaluate_ensures calls e (visited e rfl) (active e rfl) sound fit

end Run

section

variable {n : Nat}

mutual

theorem Stmt.execute_ensures (calls : Run.CallsEnsured world n) : ∀ (s : Stmt) {context : Scope.Context}
    {w : Scope.Walk} {m : Machine}, world.known ⟨context, .stmt s, w⟩ → world.active ⟨n, .stmt s, m⟩ → m.Sound world →
    m.Matches world w.scopes → (s.execute n (Closure.invoke n)).Ensures world (some m.environment.scope) m
      (Flow.Ends world (Scope.walkStmt context s w).scopes)
  | .block body, context, w, m, visited, active, sound, fit => by
    rw [Scope.scopes_walkStmt _ _ _ (world.resolved visited).legal, Stmt.execute]
    have within := executeAll_ensures calls body (world.enters visited .block) (world.spawns active .block)
      (sound.inside m.environment) (Machine.matches_inside fit.fits)
    have inner : (Run.within (m.inside m.environment).environment
        (Stmt.executeAll n (Closure.invoke n) body)).Ensures world (some m.store.scopes.size)
        { m with store := (m.inside m.environment).store } fun flow m' => flow.Sound world m'.store :=
      .within (within.mono fun _ _ _ _ ends => ends.sound)
    exact .ends fit (inner.after rfl fun _ kept =>
      ⟨kept.environment, (Store.Grows.childOf m.environment).inside kept.store (Nat.le_refl _)⟩)
  | .class_ name superclass methods, context, w, m, visited, active, sound, fit => by
    rw [Scope.scopes_walkStmt _ _ _ (world.resolved visited).legal, Stmt.execute]
    exact (Run.defineClass_ensures visited active sound fit).bind fun _ m₁ _ _ sound₁ fit₁ =>
      .pure sound₁ ⟨trivial, fun _ => fit₁⟩
  | .expression expr, context, w, m, visited, active, sound, fit => by
    rw [Scope.scopes_walkStmt _ _ _ (world.resolved visited).legal, Stmt.execute]
    have stated := Expr.evaluate_ensures calls expr (world.enters visited .expression) (world.spawns active .expression)
      sound fit
    exact .ends fit (stated.bind fun _ m₁ _ _ sound₁ _ => .pure sound₁ trivial)
  | .function declaration, context, w, m, visited, active, sound, fit => by
    rw [Scope.scopes_walkStmt _ _ _ (world.resolved visited).legal, Stmt.execute]
    have ordinary : declaration.name.lexeme ∉ Scope.reserved := by
      cases (world.resolved visited).legal with
      | function named _ _ => exact Scope.lexeme_not_reserved named
    have renumbered : m.store.Grows none m.store.fresh.2 := .of_scopes rfl
    have fit₁ : ({ m with store := m.store.fresh.2 } : Machine).Matches world w.scopes := fit.kept ⟨rfl, renumbered⟩
    have fit₂ := fit₁.define ordinary (.function m.store.fresh.1 ⟨declaration, m.environment, false⟩)
    have defined : m.store.fresh.2.Grows (some m.environment.scope) (m.store.fresh.2.define m.environment _
        (.function m.store.fresh.1 ⟨declaration, m.environment, false⟩)) := .define ordinary _
    have closure : Closure.Sound world _ ⟨declaration, m.environment, false⟩ :=
      ⟨_, _, world.enters visited .function, by rw [Scope.Walk.scopes_bind]; exact fit₂.fits,
        (fun wrong => by cases wrong), world.declares active⟩
    exact .bind_read (.onStore sound (renumbered.weaken.trans defined) (sound.store.fresh.bind defined closure)
      ⟨trivial, fun _ => fit₂⟩)
  | .ifThen condition thenBranch, context, w, m, visited, active, sound, fit => by
    have legal := (world.resolved visited).legal
    have behind := Scope.scopes_walkStmt context _ w legal
    rw [Stmt.execute]
    have tested := Expr.evaluate_ensures calls condition (world.enters visited .ifCondition)
      (world.spawns active .ifCondition) sound fit
    refine tested.bindFramed fun x m₁ done kept sound₁ _ => ?_
    rw [← kept.environment]
    split
    · rename_i holds
      rw [Scope.walkStmt]
      exact execute_ensures calls thenBranch (world.enters visited .ifBranch)
        (world.spawns active (.ifBranch done holds)) sound₁ (by rw [Scope.scopes_walkExpr]; exact fit.kept kept)
    · rw [behind]
      exact .pure sound₁ ⟨trivial, fun _ => fit.kept kept⟩
  | .ifThenElse condition thenBranch elseBranch, context, w, m, visited, active, sound, fit => by
    have legal := (world.resolved visited).legal
    have behind : (Scope.walkStmt context thenBranch (Scope.walkExpr context condition w)).scopes = w.scopes := by
      cases legal with
      | ifThenElse _ first _ plain _ =>
        rw [Scope.scopes_walkStmt _ _ _ first, Scope.declareIn_plain plain, Scope.scopes_walkExpr]
    rw [Stmt.execute]
    have tested := Expr.evaluate_ensures calls condition (world.enters visited .condition)
      (world.spawns active .condition) sound fit
    refine tested.bindFramed fun x m₁ done kept sound₁ _ => ?_
    rw [← kept.environment]
    split
    · rename_i holds
      have chosen := execute_ensures calls thenBranch (world.enters visited .thenBranch)
        (world.spawns active (.thenBranch done holds)) sound₁ (by rw [Scope.scopes_walkExpr]; exact fit.kept kept)
      rw [behind] at chosen
      rw [Scope.scopes_walkStmt _ _ _ legal]
      exact chosen
    · rename_i fails
      rw [Scope.walkStmt]
      exact execute_ensures calls elseBranch (world.enters visited .elseBranch)
        (world.spawns active (.elseBranch done (Bool.not_eq_true _ ▸ fails))) sound₁ (by rw [behind]; exact fit.kept kept)
  | .print_ expr, context, w, m, visited, active, sound, fit => by
    rw [Scope.scopes_walkStmt _ _ _ (world.resolved visited).legal, Stmt.execute]
    have shown := Expr.evaluate_ensures calls expr (world.enters visited .print_) (world.spawns active .print_) sound fit
    refine .ends fit (shown.bind fun x m₁ _ _ sound₁ _ => ?_)
    have written : (Run.modify (·.write (.out x.display))).Ensures world none m₁ fun _ _ => True :=
      .modify ⟨rfl, .refl ..⟩ ⟨sound₁.globals, sound₁.distances, sound₁.root, sound₁.store⟩ trivial
    exact written.bind fun _ m₂ _ _ sound₂ _ => .pure sound₂ trivial
  | .return_ keyword value, context, w, m, visited, active, sound, fit => by
    rw [Scope.scopes_walkStmt _ _ _ (world.resolved visited).legal, Stmt.execute]
    have entered : ∀ e, value = some e → world.known ⟨context, .expr e, Scope.checkReturn context keyword value w⟩ := by
      rintro e rfl
      exact world.enters visited .returned
    have spawned : ∀ e, value = some e → world.active ⟨n, .expr e, m⟩ := by
      rintro e rfl
      exact world.spawns active .returned
    have returned := Run.optional_ensures calls entered spawned sound (by rw [Scope.scopes_checkReturn]; exact fit)
    exact .ends fit (returned.bind fun x m₁ _ _ sound₁ new => .pure sound₁ new)
  | .var_ name initializer, context, w, m, visited, active, sound, fit => by
    rw [Scope.scopes_walkStmt _ _ _ (world.resolved visited).legal, Stmt.execute]
    have ordinary : name.lexeme ∉ Scope.reserved := by
      cases (world.resolved visited).legal with
      | var_ named _ => exact Scope.lexeme_not_reserved named
    have new : ∀ names outer, w.scopes = names :: outer → names.contains name.lexeme = false :=
      fun names outer scopes => (world.resolved visited).declares_new rfl scopes
    have entered : ∀ e, initializer = some e → world.known ⟨context, .expr e, w.declare name⟩ := by
      rintro e rfl
      exact world.enters visited .initializer
    have spawned : ∀ e, initializer = some e → world.active ⟨n, .expr e, m⟩ := by
      rintro e rfl
      exact world.spawns active .initializer
    have initial := Run.optional_ensures calls entered spawned sound (fit.declare ordinary new)
    refine initial.bindFramed fun x m₁ _ kept sound₁ found => .bind_read ?_
    rw [← kept.environment]
    have defined : m₁.store.Grows (some m₁.environment.scope) (m₁.store.define m₁.environment name.lexeme x) :=
      .define ordinary x
    exact .onStore sound₁ defined (sound₁.store.bind defined (found.grow defined))
      ⟨trivial, fun _ => (fit.kept kept).define ordinary x⟩
  | .while_ condition body, context, w, m, visited, active, sound, fit => by
    have legal := (world.resolved visited).legal
    have behind : (Scope.walkStmt context body (Scope.walkExpr context condition w)).scopes = w.scopes := by
      cases legal with
      | while_ _ repeated plain =>
        rw [Scope.scopes_walkStmt _ _ _ repeated, Scope.declareIn_plain plain, Scope.scopes_walkExpr]
    rw [Scope.scopes_walkStmt _ _ _ legal, Stmt.execute]
    refine Run.loop_ensures calls (world.enters visited .whileCondition) (fun active₁ sound₁ fit₁ => ?_) n
      (world.spawns active .turns) sound fit
    have turned := execute_ensures calls body (world.enters visited .whileBody) active₁ sound₁
      (by rw [Scope.scopes_walkExpr]; exact fit₁)
    rw [behind] at turned
    exact turned

theorem Stmt.executeAll_ensures (calls : Run.CallsEnsured world n) : ∀ (ss : List Stmt) {context : Scope.Context}
    {w : Scope.Walk} {m : Machine}, world.known ⟨context, .stmts ss, w⟩ → world.active ⟨n, .stmts ss, m⟩ →
    m.Sound world → m.Matches world w.scopes →
    (Stmt.executeAll n (Closure.invoke n) ss).Ensures world (some m.environment.scope) m
      (Flow.Ends world (Scope.walkStmts context ss w).scopes)
  | [], context, w, m, visited, active, sound, fit => by
    rw [Stmt.executeAll, Scope.walkStmts]
    exact .pure sound ⟨trivial, fun _ => fit⟩
  | stmt :: rest, context, w, m, visited, active, sound, fit => by
    rw [Stmt.executeAll, Scope.walkStmts]
    have first := execute_ensures calls stmt (world.enters visited .firstStmt) (world.spawns active .firstStmt) sound fit
    refine first.bind fun flow m₁ done kept sound₁ ends => ?_
    cases flow with
    | normal =>
      rw [← kept.environment]
      exact executeAll_ensures calls rest (world.enters visited .otherStmts) (world.spawns active (.otherStmts done))
        sound₁ (ends.fit rfl)
    | return_ x => exact .pure sound₁ ⟨ends.sound, fun returned => by cases returned⟩

end

end

theorem Closure.Sound.this {f : Closure} {s : Store} (sound : f.Sound world s) (initializer : f.isInitializer = true) :
    ∃ object c, s.lookup? f.environment.scope "this" = some (.instance_ object c) ∧
      s.getAt f.environment 0 "this" = .ok (.instance_ object c) := by
  obtain ⟨context, w, -, fits, this, -⟩ := sound
  obtain ⟨names, outer, scopes, held⟩ := this initializer
  have innermost : w.scopes[0]? = some names := by rw [scopes]; rfl
  obtain ⟨target, object, c, out, found, read⟩ := fits.getThis innermost held
  have same : f.environment.ancestor? 0 = some f.environment := by cases f.environment <;> rfl
  rw [same] at out
  cases out
  exact ⟨object, c, found, read⟩

theorem Closure.body_ensures {n : Nat} {f : Closure} {xs : List Value} {m : Machine} (calls : Run.CallsEnsured world n)
    (active : world.active ⟨n + 1, .invoke f xs, m⟩) (sound : m.Sound world) (closure : f.Sound world m.store)
    (given : ∀ x ∈ xs, x.Sound world m.store) (fitting : xs.length = f.arity) :
    m.store.Grows none (m.entered f xs).store ∧
      (Stmt.executeAll n (invoke n) f.declaration.body).Ensures world (some m.store.scopes.size) (m.entered f xs)
        fun flow m' => flow.Sound world m'.store := by
  obtain ⟨context, w, visited, fits, -⟩ := closure
  obtain ⟨grows, sound₁, fit⟩ := Run.entered_matches sound visited fits given fitting
  have body := Stmt.executeAll_ensures calls f.declaration.body (world.enters visited .body) (world.spawns active .body)
    sound₁ fit
  exact ⟨grows, body.mono fun _ _ _ _ ends => ends.sound⟩

theorem Closure.invoke_ensures (n : Nat) : Run.CallsEnsured world n := by
  induction n with
  | zero => exact fun _ _ _ _ _ _ _ _ => trivial
  | succ n calls =>
    intro f xs m active sound closure given fitting
    obtain ⟨grows, body⟩ := body_ensures calls active sound closure given fitting
    have inner : (Run.within (m.entered f xs).environment (Stmt.executeAll n (invoke n) f.declaration.body)).Ensures world
        (some m.store.scopes.size) { m with store := (m.entered f xs).store } fun flow m' => flow.Sound world m'.store :=
      .within body
    refine Run.Ensures.after (inner.bind fun flow m₂ _ kept₂ sound₂ returned => ?_) rfl fun _ kept =>
      ⟨kept.environment, grows.inside kept.store (Nat.le_refl _)⟩
    split
    · rename_i initializer
      obtain ⟨object, c, found, read⟩ := ((closure.grow grows).grow kept₂.store).this initializer
      refine .tryRead sound₂ (fun x same => ?_) fun fault failed => ?_
      · rw [read] at same
        cases same
        exact sound₂.store.scopes _ _ _ found
      · rw [read] at failed
        cases failed
    · cases flow with
      | normal => exact .pure sound₂ trivial
      | return_ x => exact .pure sound₂ returned

theorem Run.program_ensures {n : Nat} {context : Scope.Context} (program : List Stmt) : ∀ {w : Scope.Walk} {m : Machine},
    world.known ⟨context, .stmts program, w⟩ → w.scopes = [] → world.active ⟨n, .program program, m⟩ → m.Sound world →
    m.environment = world.globals → (Run.program n program).Ensures world (some world.globals.scope) m fun _ _ => True := by
  induction program with
  | nil => exact fun _ _ _ sound _ => .pure sound trivial
  | cons stmt rest ih =>
    intro w m visited top active sound here
    have fit : m.Matches world w.scopes := Machine.matches_top top here
    have first := Stmt.execute_ensures (Closure.invoke_ensures n) stmt (world.enters visited .firstStmt)
      (world.spawns active .firstOfProgram) sound fit
    rw [here] at first
    refine Ensures.bind first fun flow m₁ done kept sound₁ _ => ?_
    have legal := (world.resolved visited).legal stmt (List.mem_cons_self ..)
    refine ih (world.enters visited .otherStmts) ?_ (world.spawns active (.othersOfProgram done)) sound₁
      (kept.environment.trans here)
    rw [Scope.scopes_walkStmt _ _ _ legal, top, Scope.declareIn_nil]

end Lox
