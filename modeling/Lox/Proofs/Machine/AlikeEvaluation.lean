import Lox.Proofs.Machine.Activity
import Lox.Proofs.Machine.Alike

namespace Lox

/-- Outcomes that correspond. New scopes may have come into the world. -/
inductive Outcome.Alike (p : Pairing) (world rs : List Naming) {α β : Type} (R : List Naming → α → β → Prop) :
    Outcome α → Outcome β → Prop where
  | value {world₁ : List Naming} {x : α} {x' : β} {m m' : Machine} (grown : world <+: world₁)
      (machines : m.Alike p world₁ rs m') (results : R world₁ x x') : Alike p world rs R (.value x m) (.value x' m')
  | fault {world₁ : List Naming} {fault fault' : Fault} {m m' : Machine} (grown : world <+: world₁)
      (machines : m.Alike p world₁ rs m') (faults : fault.Alike p fault') :
      Alike p world rs R (.fault fault m) (.fault fault' m')
  | outOfFuel : Alike p world rs R .outOfFuel .outOfFuel

namespace Outcome.Alike

variable {p : Pairing} {world world₁ rs rs' : List Naming} {α α' β β' : Type} {R : List Naming → α → α' → Prop}
  {S : List Naming → β → β' → Prop} {m m' : Machine}

theorem of_value {outcome : Outcome α} {outcome' : Outcome α'} {x : α} {m₁ : Machine}
    (alike : Outcome.Alike p world rs R outcome outcome') (done : outcome = .value x m₁) :
    ∃ world₁ x' m₁', outcome' = .value x' m₁' ∧ world <+: world₁ ∧ m₁.Alike p world₁ rs m₁' ∧ R world₁ x x' := by
  subst done
  cases alike with
  | value grown machines results => exact ⟨_, _, _, rfl, grown, machines, results⟩

theorem weaken {outcome : Outcome α} {outcome' : Outcome α'} (alike : Outcome.Alike p world₁ rs R outcome outcome')
    (grown : world <+: world₁) : Outcome.Alike p world rs R outcome outcome' := by
  cases alike with
  | value grown₁ machines results => exact .value (grown.trans grown₁) machines results
  | fault grown₁ machines faults => exact .fault (grown.trans grown₁) machines faults
  | outOfFuel => exact .outOfFuel

theorem bind {action : Run α} {action' : Run α'} {next : α → Run β} {next' : α' → Run β'}
    (first : Outcome.Alike p world rs R (action m) (action' m'))
    (rest : ∀ {world₁ : List Naming} {x : α} {x' : α'} {m₁ m₁' : Machine}, world <+: world₁ → action m = .value x m₁ →
      m₁.Alike p world₁ rs m₁' → R world₁ x x' → Outcome.Alike p world₁ rs S (next x m₁) (next' x' m₁')) :
    Outcome.Alike p world rs S ((action >>= next) m) ((action' >>= next') m') := by
  show Outcome.Alike p world rs S (Run.bind action next m) (Run.bind action' next' m')
  unfold Run.bind
  generalize done : action m = outcome at first
  generalize action' m' = outcome' at first
  cases first with
  | value grown machines results => exact (rest grown done machines results).weaken grown
  | fault grown machines faults => exact .fault grown machines faults
  | outOfFuel => exact .outOfFuel

theorem done {x : α} {x' : α'} (machines : m.Alike p world rs m') (results : R world x x') :
    Outcome.Alike p world rs R (.value x m) (.value x' m') := .value (List.prefix_refl _) machines results

theorem failed {fault fault' : Fault} (machines : m.Alike p world rs m') (faults : fault.Alike p fault') :
    Outcome.Alike p world rs R (.fault fault m) (.fault fault' m') := .fault (List.prefix_refl _) machines faults

theorem tryRead {f : Machine → Except Fault α} {f' : Machine → Except Fault α'} (machines : m.Alike p world rs m')
    (answers : p.Answers (R world) (f m) (f' m')) : Outcome.Alike p world rs R (Run.tryRead f m) (Run.tryRead f' m') := by
  unfold Run.tryRead
  generalize f m = answer at answers
  generalize f' m' = answer' at answers
  cases answers with
  | ok results => exact .done machines results
  | error faults => exact .failed machines faults

theorem onStore {f : Store → α × Store} {f' : Store → α' × Store} (machines : m.Alike p world rs m')
    (grown : world <+: world₁) (stores : (f m.store).2.Alike p world₁ (f' m'.store).2)
    (results : R world₁ (f m.store).1 (f' m'.store).1) :
    Outcome.Alike p world rs R (Run.onStore f m) (Run.onStore f' m') :=
  .value grown (machines.withStore grown stores) results

theorem assignIn {find find' : Machine → Except Fault ScopeId} {name name' : String} {x x' : Value}
    (machines : m.Alike p world rs m') (values : x.Alike p world x')
    (answers : p.Answers (Store.Alike.Finds world name name') (find m) (find' m')) :
    Outcome.Alike p world rs (fun _ _ _ => True) (Run.assignIn find name x m) (Run.assignIn find' name' x' m') := by
  have found : Outcome.Alike p world rs
      (fun world₁ scope scope' => world₁ = world ∧ Store.Alike.Finds world name name' scope scope')
      (Run.tryRead find m) (Run.tryRead find' m') := by
    apply tryRead machines
    exact answers.imp fun _ _ finds => ⟨rfl, finds⟩
  apply found.bind
  intro world₁ scope scope' m₁ m₁' _ _ machines₁ results
  obtain ⟨rfl, rfl, r, here, renamed⟩ := results
  exact .onStore machines₁ (List.prefix_refl _) (machines₁.store.bind here renamed values) trivial

theorem within {action : Run α} {action' : Run α'} {environment : Environment} (machines : m.Alike p world rs m')
    (inner : Outcome.Alike p world rs' R (action { m with environment := environment })
      (action' { m' with environment := environment })) :
    Outcome.Alike p world rs R (Run.within environment action m) (Run.within environment action' m') := by
  have back {world₁ : List Naming} {m₁ m₁' : Machine} (grown : world <+: world₁) (machines₁ : m₁.Alike p world₁ rs' m₁') :
      Machine.Alike p world₁ rs { m₁ with environment := m.environment } { m₁' with environment := m'.environment } := by
    rw [machines.environment]
    exact machines₁.within (machines.named.grow grown)
  unfold Run.within
  generalize action { m with environment := environment } = outcome at inner
  generalize action' { m' with environment := environment } = outcome' at inner
  cases inner with
  | value grown machines₁ results => exact .value grown (back grown machines₁) results
  | fault grown machines₁ faults => exact .fault grown (back grown machines₁) faults
  | outOfFuel => exact .outOfFuel

end Outcome.Alike

theorem Machine.Alike.atDepth {p : Pairing} {world rs : List Naming} {m m' : Machine} {depth depth' : Nat}
    (machines : m.Alike p world rs m') (same : depth' = depth) :
    Machine.Alike p world rs { m with depth := depth } { m' with depth := depth' } :=
  ⟨machines.globals, machines.top, machines.environment, machines.named, same, machines.lines, machines.clock,
    machines.store, machines.agrees⟩

theorem Machine.Alike.deepened {p : Pairing} {world rs : List Naming} {m m' : Machine} (machines : m.Alike p world rs m') :
    m.deepened.Alike p world rs m'.deepened := machines.atDepth (congrArg (· + 1) machines.depth)

namespace Run

variable {p : Pairing} {world rs : List Naming} {m m' : Machine}

theorem deeper_alike {α α' : Type} {R : List Naming → α → α' → Prop} {action : Run α} {action' : Run α'}
    (inner : Outcome.Alike p world rs R (action m.deepened) (action' m'.deepened)) :
    Outcome.Alike p world rs R (deeper action m) (deeper action' m') := by
  have back {world₁ : List Naming} {m₁ m₁' : Machine} (machines₁ : m₁.Alike p world₁ rs m₁') :
      Machine.Alike p world₁ rs { m₁ with depth := m₁.depth - 1 } { m₁' with depth := m₁'.depth - 1 } :=
    machines₁.atDepth (congrArg (· - 1) machines₁.depth)
  unfold deeper
  unfold Machine.deepened at inner
  generalize action { m with depth := m.depth + 1 } = outcome at inner
  generalize action' { m' with depth := m'.depth + 1 } = outcome' at inner
  cases inner with
  | value grown machines₁ results => exact .value grown (back machines₁) results
  | fault grown machines₁ faults => exact .fault grown (back machines₁) faults
  | outOfFuel => exact .outOfFuel

theorem nested_alike {paren paren' : Token} {action action' : Run Value} (machines : m.Alike p world rs m')
    (closing : p.tokens paren paren')
    (inner : m.depth < maxCallDepth →
      Outcome.Alike p world rs (Value.Alike p) (action m.deepened) (action' m'.deepened)) :
    Outcome.Alike p world rs (Value.Alike p) (nested paren action m) (nested paren' action' m') := by
  by_cases deep : maxCallDepth ≤ m.depth
  · have refused (t : Token) (a : Run Value) (m : Machine) (deep : maxCallDepth ≤ m.depth) :
        nested t a m = .fault (.stackOverflow t) m := by
      show (if maxCallDepth ≤ m.depth then fail (.stackOverflow t) else deeper a) m = _
      rw [if_pos deep]
      rfl
    rw [refused _ _ _ deep, refused _ _ m' (machines.depth ▸ deep)]
    exact .failed machines (.stackOverflow (p.tokens_names closing))
  · have shallow := Nat.not_le.mp deep
    rw [nested_shallow shallow, nested_shallow (machines.depth ▸ shallow)]
    exact deeper_alike (inner shallow)

theorem boundMethod_alike {f f' : Closure} {c c' : Class} (machines : m.Alike p world rs m')
    (methods : f.MethodAlike p world f') (object : Identity) (classes : c.Alike p world c') :
    Outcome.Alike p world rs (Value.Alike p) (boundMethod f object c m) (boundMethod f' object c' m') := by
  obtain ⟨closures, stores⟩ := machines.store.bindMethod methods object classes
  apply Outcome.Alike.onStore machines (List.prefix_append world [.id])
  · exact stores.fresh
  · have same : (m'.store.bindMethod f' object c').2.fresh.1 = (m.store.bindMethod f object c).2.fresh.1 := stores.identity
    show (Value.function _ _).Alike p _ (.function _ _)
    rw [same]
    exact .function closures

theorem property_alike {c c' : Class} {name name' : Token} (machines : m.Alike p world rs m') (object : Identity)
    (classes : c.Alike p world c') (named : p.tokens name name') :
    Outcome.Alike p world rs (Value.Alike p) (property object c name m) (property object c' name' m') := by
  have fields := machines.store.fields object name.lexeme
  simp only [property, p.lexeme named]
  rw [bind_value read_eq, bind_value read_eq]
  generalize m.store.field? object name.lexeme = field at fields
  generalize m'.store.field? object name.lexeme = field' at fields
  cases fields with
  | some values => exact .done machines values
  | none =>
    have methods := classes.findMethod name.lexeme
    dsimp only
    generalize c.findMethod? name.lexeme = method at methods
    generalize c'.findMethod? name.lexeme = method' at methods
    cases methods with
    | some related => exact boundMethod_alike machines related object classes
    | none => exact .failed machines (.undefinedProperty (p.tokens_names named))

theorem superMethod_alike {id id' : NodeId} {keyword keyword' method method' : Token} (machines : m.Alike p world rs m')
    (reference : p.refers rs id keyword id' keyword') (named : p.tokens method method') :
    Outcome.Alike p world rs (Value.Alike p) (superMethod id method m) (superMethod id' method' m') := by
  have started : Outcome.Alike p world rs (fun world₁ start start' => start.1.Alike p world₁ start'.1 ∧
      start'.2.1 = start.2.1 ∧ start.2.2.Alike p world₁ start'.2.2)
      (tryRead (·.lookUpSuper id) m) (tryRead (·.lookUpSuper id') m') :=
    .tryRead machines (machines.lookUpSuper reference)
  apply started.bind
  rintro world₁ ⟨above, object, c⟩ ⟨above', object', c'⟩ m₁ m₁' - - machines₁ ⟨supers, rfl, classes⟩
  have methods := supers.findMethod method.lexeme
  dsimp only
  rw [p.lexeme named]
  generalize above.findMethod? method.lexeme = found at methods
  generalize above'.findMethod? method.lexeme = found' at methods
  cases methods with
  | some related => exact boundMethod_alike machines₁ related _ classes
  | none => exact .failed machines₁ (.undefinedProperty (p.tokens_names named))

end Run

def Invoke.Alike (p : Pairing) (invoke : Invoke) : Prop :=
  ∀ {world rs : List Naming} {f f' : Closure} {xs xs' : List Value} {m m' : Machine}, f.Alike p world f' →
    List.Forall₂ (Value.Alike p world) xs xs' → m.Alike p world rs m' →
    Outcome.Alike p world rs (Value.Alike p) (invoke f xs m) (invoke f' xs' m')

section

variable {p : Pairing} {world rs : List Naming} {m m' : Machine} {invoke : Invoke}

theorem Value.Alike.growAll {world₁ : List Naming} {xs xs' : List Value} (alike : List.Forall₂ (Value.Alike p world) xs xs')
    (grown : world <+: world₁) : List.Forall₂ (Value.Alike p world₁) xs xs' :=
  alike.imp fun _ _ values => values.grow grown

theorem Store.Alike.construct {s s' : Store} {f f' : Closure} {c c' : Class} (stores : s.Alike p world s')
    (methods : f.MethodAlike p world f') (classes : c.Alike p world c') :
    (s.construct f c).1.Alike p (world ++ [.id]) (s'.construct f' c').1 ∧
      (s.construct f c).2.Alike p (world ++ [.id]) (s'.construct f' c').2 := by
  have same : s'.instantiate.1 = s.instantiate.1 := stores.objects
  unfold Store.construct
  rw [same]
  exact stores.instantiate.bindMethod methods _ classes

theorem Run.instantiate_alike {c c' : Class} {xs xs' : List Value} (calls : invoke.Alike p)
    (machines : m.Alike p world rs m') (classes : c.Alike p world c') (given : List.Forall₂ (Value.Alike p world) xs xs') :
    Outcome.Alike p world rs (Value.Alike p) (Run.instantiate invoke c xs m) (Run.instantiate invoke c' xs' m') := by
  have found := classes.findMethod initializerName
  have same : m'.store.instantiate.1 = m.store.instantiate.1 := machines.store.objects
  rcases initializer : c.initializer? with _ | f <;> rcases initializer' : c'.initializer? with _ | f' <;>
    rw [← Class.initializer?, ← Class.initializer?, initializer, initializer'] at found
  · unfold Run.instantiate
    rw [initializer, initializer']
    have made : Outcome.Alike p world rs (fun _ object object' => object' = object)
        (Run.onStore Store.instantiate m) (Run.onStore Store.instantiate m') :=
      .onStore machines (List.prefix_refl _) machines.store.instantiate same
    apply made.bind
    rintro world₁ object _ m₁ m₁' grown - machines₁ rfl
    exact .done machines₁ (.instance_ (classes.grow grown))
  · cases found
  · cases found
  · cases found with
    | some methods =>
      obtain ⟨closures, stores⟩ := machines.store.construct methods classes
      have grown : world <+: world ++ [.id] := List.prefix_append _ _
      rw [Run.instantiate_some initializer, Run.instantiate_some initializer', same]
      apply Outcome.Alike.weaken ?_ grown
      apply (calls closures (Value.Alike.growAll given grown) (machines.withStore grown stores)).bind
      intro world₁ _ _ m₁ m₁' grown₁ _ machines₁ _
      exact .done machines₁ (.instance_ (classes.grow (grown.trans grown₁)))

theorem Run.call_alike {x x' : Value} {paren paren' : Token} {xs xs' : List Value} (calls : invoke.Alike p)
    (machines : m.Alike p world rs m') (callees : x.Alike p world x') (closing : p.tokens paren paren')
    (given : List.Forall₂ (Value.Alike p world) xs xs') :
    Outcome.Alike p world rs (Value.Alike p) (Run.call invoke x paren xs m) (Run.call invoke x' paren' xs' m') := by
  have shown := p.tokens_names closing
  unfold Run.call
  rw [callees.arity, ← given.length_eq]
  cases known : x.arity? with
  | none => exact .failed machines (.notCallable shown)
  | some arity =>
    dsimp only
    by_cases fits : xs.length = arity
    · simp only [fits, ne_eq, not_true, ↓reduceIte]
      have deeper : m.deepened.Alike p world rs m'.deepened := machines.deepened
      cases callees with
      | @native f =>
        cases f
        refine .value (List.prefix_refl _) ?_ ?_
        · exact ⟨machines.globals, machines.top, machines.environment, machines.named, machines.depth, machines.lines,
            by rw [machines.clock], machines.store, machines.agrees⟩
        · rw [machines.clock]
          exact .number
      | function closures => exact Run.nested_alike machines closing fun _ => calls closures given deeper
      | class_ classes => exact Run.nested_alike machines closing fun _ => Run.instantiate_alike calls deeper classes given
      | _ => exact .failed machines (.notCallable shown)
    · simp only [fits, ne_eq, not_false_eq_true, ↓reduceIte]
      exact .failed machines (.argumentMismatch shown)

mutual

theorem Expr.evaluate_alike (calls : invoke.Alike p) : ∀ {e e' : Expr} {world rs : List Naming} {m m' : Machine},
    e.Alike p rs e' → m.Alike p world rs m' →
    Outcome.Alike p world rs (Value.Alike p) (e.evaluate invoke m) (e'.evaluate invoke m')
  | _, _, world, rs, m, m', .assign reference assigned, machines => by
    rw [Expr.evaluate, Expr.evaluate]
    apply (Expr.evaluate_alike calls assigned machines).bind
    intro world₁ x x' m₁ m₁' _ _ machines₁ values
    apply (Outcome.Alike.assignIn machines₁ values (machines₁.locate reference)).bind
    intro world₂ _ _ m₂ m₂' grown _ machines₂ _
    exact .done machines₂ (values.grow grown)
  | _, _, world, rs, m, m', .binary first sign second, machines => by
    rw [Expr.evaluate, Expr.evaluate]
    apply (Expr.evaluate_alike calls first machines).bind
    intro world₁ x x' m₁ m₁' _ _ machines₁ lefts
    apply (Expr.evaluate_alike calls second machines₁).bind
    intro world₂ y y' m₂ m₂' grown _ machines₂ rights
    exact .tryRead machines₂ (applyBinary_alike sign (lefts.grow grown) rights)
  | _, _, world, rs, m, m', .call called closing given, machines => by
    rw [Expr.evaluate, Expr.evaluate]
    apply (Expr.evaluate_alike calls called machines).bind
    intro world₁ x x' m₁ m₁' _ _ machines₁ callees
    apply (Expr.evaluateAll_alike calls given machines₁).bind
    intro world₂ xs xs' m₂ m₂' grown _ machines₂ values
    exact Run.call_alike calls machines₂ (callees.grow grown) closing values
  | _, _, world, rs, m, m', .get owner named, machines => by
    rw [Expr.evaluate, Expr.evaluate]
    apply (Expr.evaluate_alike calls owner machines).bind
    intro world₁ x x' m₁ m₁' _ _ machines₁ owners
    cases owners with
    | instance_ classes => exact Run.property_alike machines₁ _ classes named
    | _ => exact .failed machines₁ (.notInstance (p.tokens_names named))
  | _, _, world, rs, m, m', .grouping grouped, machines => by
    rw [Expr.evaluate, Expr.evaluate]
    exact Expr.evaluate_alike calls grouped machines
  | _, _, world, rs, m, m', .constant, machines => by
    rw [Expr.evaluate]
    exact .done machines (Value.Alike.ofConstant _)
  | _, _, world, rs, m, m', .logical first word second, machines => by
    rw [Expr.evaluate, Expr.evaluate]
    apply (Expr.evaluate_alike calls first machines).bind
    intro world₁ x x' m₁ m₁' _ _ machines₁ lefts
    rw [isDecided_alike word lefts]
    split
    · exact .done machines₁ lefts
    · exact Expr.evaluate_alike calls second machines₁
  | _, _, world, rs, m, m', .set owner named assigned, machines => by
    rw [Expr.evaluate, Expr.evaluate]
    apply (Expr.evaluate_alike calls owner machines).bind
    intro world₁ x x' m₁ m₁' _ _ machines₁ owners
    cases owners with
    | instance_ classes =>
      apply (Expr.evaluate_alike calls assigned machines₁).bind
      intro world₂ y y' m₂ m₂' _ _ machines₂ values
      rw [p.lexeme named]
      exact .onStore machines₂ (List.prefix_refl _) (machines₂.store.setField _ _ values) values
    | _ => exact .failed machines₁ (.notInstance (p.tokens_names named))
  | _, _, world, rs, m, m', .super_ reference named, machines => by
    rw [Expr.evaluate, Expr.evaluate]
    exact Run.superMethod_alike machines reference named
  | _, _, world, rs, m, m', .this_ reference, machines | _, _, world, rs, m, m', .variable_ reference, machines => by
    rw [Expr.evaluate, Expr.evaluate]
    exact .tryRead machines (machines.lookUp reference)
  | _, _, world, rs, m, m', .unary sign operand, machines => by
    rw [Expr.evaluate, Expr.evaluate]
    apply (Expr.evaluate_alike calls operand machines).bind
    intro world₁ x x' m₁ m₁' _ _ machines₁ values
    exact .tryRead machines₁ (applyUnary_alike sign values)

theorem Expr.evaluateAll_alike (calls : invoke.Alike p) :
    ∀ {es es' : List Expr} {world rs : List Naming} {m m' : Machine}, Expr.AllAlike p rs es es' → m.Alike p world rs m' →
    Outcome.Alike p world rs (fun world => List.Forall₂ (Value.Alike p world)) (Expr.evaluateAll invoke es m)
      (Expr.evaluateAll invoke es' m')
  | _, _, world, rs, m, m', .nil, machines => by
    rw [Expr.evaluateAll]
    exact .done machines .nil
  | _, _, world, rs, m, m', .cons first others, machines => by
    rw [Expr.evaluateAll, Expr.evaluateAll]
    apply (Expr.evaluate_alike calls first machines).bind
    intro world₁ x x' m₁ m₁' _ _ machines₁ values
    apply (Expr.evaluateAll_alike calls others machines₁).bind
    intro world₂ xs xs' m₂ m₂' grown _ machines₂ more
    exact .done machines₂ (.cons (values.grow grown) more)

end

end
end Lox
