import Mathlib
import Lox.Proofs.Machine.Watching
import Lox.Proofs.Scope.Distances
import Lox.Proofs.Scope.Misuses
import Lox.Proofs.Session.Located

namespace Lox

open Scope (Visit Visits)

namespace Class

def methods : Class → Bindings Closure
  | base _ _ methods => methods
  | derived _ _ methods _ => methods

/-- The class and those above it. -/
def ancestry : Class → List Class
  | base identity name methods => [base identity name methods]
  | derived identity name methods superclass => derived identity name methods superclass :: superclass.ancestry

/-- The method is that of the first class upwards to have one of the name. -/
def Nearest (c : Class) (name : String) (f : Closure) : Prop :=
  ∃ below k above, c.ancestry = below ++ k :: above ∧ k.methods.find? name = some f ∧
    ∀ other ∈ below, other.methods.find? name = none

theorem findMethod?_eq (c : Class) (name : String) :
    c.findMethod? name = c.ancestry.findSome? (·.methods.find? name) := by
  induction c with
  | base identity own methods => simp [findMethod?, ancestry, Class.methods]
  | derived identity own methods superclass ih =>
    rw [findMethod?, ih, ancestry, List.findSome?_cons, Class.methods]
    cases methods.find? name <;> rfl

theorem findMethod?_eq_none_iff {c : Class} {name : String} :
    c.findMethod? name = none ↔ ∀ k ∈ c.ancestry, k.methods.find? name = none := by
  rw [findMethod?_eq, List.findSome?_eq_none_iff]

theorem findMethod?_eq_some_iff {c : Class} {name : String} {f : Closure} :
    c.findMethod? name = some f ↔ c.Nearest name f := by
  rw [findMethod?_eq, List.findSome?_eq_some_iff, Nearest]

end Class

theorem Run.bindClass_some {name : Token} {methods : List FunctionDecl} {c : Class} {m : Machine}
    (inside : m.environment.scope < m.store.scopes.size) : ∃ m', Run.bindClass name methods (some c) m = .value () m' ∧
      m'.store.lookup? m.environment.scope name.lexeme = some (.class_
        (.derived m.store.nextIdentity name.lexeme (Run.methodTable (m.store.childOf m.environment).1 methods) c)) ∧
      m'.store.scopes.size = m.store.scopes.size + 1 := by
  have located (s : Store) (bound : (s.lookup? m.environment.scope name.lexeme).isSome = true) :
      s.locate m.environment name = .ok m.environment.scope := by
    unfold Store.locate
    cases around : m.environment with
    | root scope | child scope enclosing =>
      rw [around] at bound
      simp [Store.locate?, show (s.lookup? scope name.lexeme).isSome = true from bound, Environment.scope]
  let before := m.store.define m.environment name.lexeme .nil
  let inner := (before.childOf m.environment).1
  let after := ((before.childOf m.environment).2.define inner "super" (.class_ c)).fresh
  have size : before.scopes.size = m.store.scopes.size := Store.size_bind ..
  -- the name is bound to `nil` when the class is assigned to it
  have bound : after.2.lookup? m.environment.scope name.lexeme = some .nil := by
    show ((before.childOf m.environment).2.bind before.scopes.size "super" _).lookup? _ _ = _
    rw [Store.lookup?_childWith, size, if_neg fun new => absurd new.1 (Nat.ne_of_gt inside)]
    exact (Store.lookup?_bind ..).trans (if_pos ⟨rfl, rfl, inside⟩)
  have grown : after.2.scopes.size = m.store.scopes.size + 1 := by
    show ((before.childOf m.environment).2.bind _ _ _).scopes.size = _
    rw [Store.size_bind, Store.size_childOf, size]
  have found := located after.2 (by rw [bound]; rfl)
  let made := Class.make after.1 name.lexeme (Run.methodTable inner methods) (some c)
  refine ⟨{ m with store := after.2.bind m.environment.scope name.lexeme (.class_ made) }, ?_, ?_, ?_⟩
  · unfold Run.bindClass Run.methodEnvironment
    rw [Run.bind_value Run.read_eq, Run.bind_value Run.onStore_eq, Run.bind_value Run.onStore_eq,
      Run.bind_value Run.onStore_eq]
    have target : Run.tryRead (·.store.locate m.environment name) ({ m with store := after.2 } : Machine) =
        .value m.environment.scope { m with store := after.2 } := by
      simp only [Run.tryRead]
      rw [found]
    exact Run.bind_value target
  · rw [Store.lookup?_bind, if_pos ⟨rfl, rfl, grown ▸ Nat.lt_succ_of_lt inside⟩]
    show some (Value.class_ (.derived _ _ (Run.methodTable (.child before.scopes.size m.environment) methods) c)) = _
    rw [size]
    rfl
  · rw [Store.size_bind, grown]

theorem Run.superclass_some {invoke : Invoke} {name : Token} {e : Expr} {c : Class} {m m₁ : Machine}
    (evaluated : e.evaluate invoke m = .value (.class_ c) m₁) :
    Run.superclass invoke name (some e) m = .value (some c) m₁ := by
  unfold Run.superclass
  exact Run.bind_value evaluated

namespace Activity.Derives

variable {a b : Activity} {D : Stmt} {c : Class} {inner : Environment}

theorem begins_le (derives : a.Derives D c inner) : a.begins ≤ inner.scope := by
  cases derives with
  | intro evaluated => exact (endsBy_of_value evaluated).begins_le

theorem during (derives : a.Derives D c inner) (during : a.During b) : b = a ∨ b.EndsBy inner.scope := by
  cases derives with
  | intro evaluated =>
    rcases during.start_or_spawned with rfl | ⟨b', spawns, inside⟩
    · exact .inl rfl
    · cases spawns with
      | superclass => exact .inr (inside.endsBy (endsBy_of_value evaluated))

theorem outcome {name : Token} {e : Expr} {methods : List FunctionDecl}
    (derives : a.Derives (.class_ name (some e) methods) c inner)
    (inside : a.machine.environment.scope < a.machine.store.scopes.size) :
    ∃ identity m', (Stmt.class_ name (some e) methods).execute a.fuel (Closure.invoke a.fuel) a.machine = .value .normal m' ∧
      m'.store.lookup? a.machine.environment.scope name.lexeme =
        some (.class_ (.derived identity name.lexeme (Run.methodTable inner methods) c)) ∧
      m'.store.scopes.size = inner.scope + 1 := by
  cases derives with
  | @intro n _ _ _ _ m m₁ evaluated =>
    have around : m₁.environment = m.environment := (Expr.samePlace evaluated).environment
    have grown : m.store.scopes.size ≤ m₁.store.scopes.size := (endsBy_of_value evaluated).begins_le
    have inside' : m₁.environment.scope < m₁.store.scopes.size := by
      rw [around]
      exact Nat.lt_of_lt_of_le inside grown
    obtain ⟨m', bound, found, size⟩ := @Run.bindClass_some name methods c m₁ inside'
    refine ⟨_, m', ?_, (congrArg (m'.store.lookup? ·.scope name.lexeme) around.symm).trans found, size⟩
    rw [Stmt.execute, Run.defineClass_eq]
    have done : (Run.superclass (Closure.invoke n) name (some e) >>= Run.bindClass name methods) m = .value () m' :=
      (Run.bind_value (Run.superclass_some evaluated)).trans bound
    exact Run.bind_value done

theorem lt_of_endsBy {size : Nat} (derives : a.Derives D c inner)
    (inside : a.machine.environment.scope < a.machine.store.scopes.size) (ends : a.EndsBy size) : inner.scope < size := by
  obtain ⟨m, ended, before⟩ := ends
  obtain ⟨name, e, methods, n, m₀, rfl, rfl⟩ :
      ∃ name e methods n m₀, D = .class_ name (some e) methods ∧ a = ⟨n, .stmt D, m₀⟩ := by
    cases derives
    exact ⟨_, _, _, _, _, rfl, rfl⟩
  obtain ⟨identity, m', done, -, size⟩ := derives.outcome inside
  simp only [machine?] at ended
  rw [done] at ended
  cases ended
  exact Nat.lt_of_lt_of_le (by rw [size]; exact Nat.lt_succ_self _) before

end Activity.Derives

section

variable {launches : List Launch} {globals : Environment} {a a' : Activity} {D D' : Stmt} {c c' : Class}
  {inner inner' : Environment}

theorem Coherent.derives_unique (coherent : Coherent globals launches) (happened : Happened launches a)
    (happened' : Happened launches a') (derives : a.Derives D c inner) (derives' : a'.Derives D' c' inner')
    (same : inner.scope = inner'.scope) : a = a' ∧ c = c' := by
  have inside {a : Activity} {D : Stmt} {c : Class} {inner : Environment} (happened : Happened launches a)
      (derives : a.Derives D c inner) : a.machine.environment.scope < a.machine.store.scopes.size := by
    cases derives
    exact (coherent.recorded _ happened).inside _ rfl
  have equal : a = a' := by
    rcases coherent.apart a a' happened happened' with during | during | ends | ends
    · rcases derives.during during with equal | ends
      · exact equal.symm
      · exact absurd same.symm (Nat.ne_of_lt (derives'.lt_of_endsBy (inside happened' derives') ends))
    · rcases derives'.during during with equal | ends
      · exact equal
      · exact absurd same (Nat.ne_of_lt (derives.lt_of_endsBy (inside happened derives) ends))
    · have earlier := derives.lt_of_endsBy (inside happened derives) ends
      exact absurd same (Nat.ne_of_lt (Nat.lt_of_lt_of_le earlier derives'.begins_le))
    · have earlier := derives'.lt_of_endsBy (inside happened' derives') ends
      exact absurd same.symm (Nat.ne_of_lt (Nat.lt_of_lt_of_le earlier derives.begins_le))
  subst equal
  cases derives with
  | intro evaluated =>
    cases derives' with
    | intro evaluated' =>
      cases evaluated.symm.trans evaluated'
      exact ⟨rfl, rfl⟩

end

theorem Scope.Visits.legal {program : List Stmt} {v : Visit} (legal : ∀ stmt ∈ program, stmt.Legal)
    (visited : Visits program v) : v.part.Legal := by
  induction visited with
  | start => exact legal
  | enter _ entered ih => exact entered.legal ih

theorem Stmt.declared_unreserved {body : List Stmt} (legal : ∀ stmt ∈ body, stmt.Legal) :
    ∀ name ∈ Stmt.declared body, name ∉ Scope.reserved := by
  intro name member
  obtain ⟨token, declared, rfl⟩ := List.mem_map.mp member
  obtain ⟨stmt, listed, found⟩ := List.mem_filterMap.mp declared
  cases legal stmt listed with
  | class_ named | function named | var_ named =>
    cases found
    exact Scope.lexeme_not_reserved named
  | _ => cases found

theorem Position.scopes_unreserved {p : Position} (legal : p.node.part.Legal) (plain : p.node.isClass = false) :
    ∀ names ∈ p.scopes, ∀ name ∈ names, name ∉ Scope.reserved := by
  have function {d : FunctionDecl} (legal : d.Legal) (k : Nat) :
      ∀ name ∈ d.params.map Token.lexeme ++ Stmt.declared (d.body.take k), name ∉ Scope.reserved := by
    intro name member
    rcases List.mem_append.mp member with param | declared
    · obtain ⟨token, listed, rfl⟩ := List.mem_map.mp param
      exact Scope.lexeme_not_reserved (legal.params token listed)
    · exact Stmt.declared_unreserved (fun stmt inside => legal.body stmt (List.mem_of_mem_take inside)) name declared
  obtain ⟨n, i⟩ := p
  intro names member
  cases n with
  | function d | method d =>
    obtain rfl := List.mem_singleton.mp member
    exact function legal (i + 1)
  | program | expr => cases member
  | stmt s =>
    cases s with
    | block body =>
      cases legal with
      | block stated =>
        obtain rfl := List.mem_singleton.mp member
        exact Stmt.declared_unreserved fun stmt inside => stated stmt (List.mem_of_mem_take inside)
    | class_ name superclass methods => cases plain
    | _ => cases member

section

variable {program : List Stmt} {n : Node} {path : Path}

theorem Occurs.legal (legal : ∀ stmt ∈ program, stmt.Legal) (occurs : Occurs program n path) : n.part.Legal := by
  obtain ⟨v, visited, part, -⟩ := Visits.occurs (Stmt.isArranged_of_legal legal) occurs
  exact part ▸ visited.legal legal

theorem Occurs.legal_around (legal : ∀ stmt ∈ program, stmt.Legal) (occurs : Occurs program n path) :
    ∀ p ∈ path, p.node.part.Legal := by
  induction occurs with
  | here => simp
  | inside within _ ih => exact List.forall_mem_cons.mpr ⟨Occurs.legal legal within, ih⟩

theorem Occurs.name_or_method (legal : ∀ stmt ∈ program, stmt.Legal) (occurs : Occurs program n path) :
    (∃ id name, n = .expr (.variable_ id name)) ∨
      ∀ p ∈ path, ∀ name e methods, p ≠ ⟨.stmt (.class_ name (some e) methods), 0⟩ := by
  induction occurs with
  | here => exact .inr (by simp)
  | @inside n c path i within child ih =>
    rcases ih with ⟨id, name, rfl⟩ | outside
    · cases child
    · by_cases superclass : ∃ name e methods, (⟨n, i⟩ : Position) = ⟨.stmt (.class_ name (some e) methods), 0⟩
      · obtain ⟨name, e, methods, same⟩ := superclass
        cases same
        cases child
        cases Occurs.legal legal within with
        | class_ _ extended =>
          obtain ⟨id, superName, rfl, -⟩ := extended e rfl
          exact .inl ⟨id, superName, rfl⟩
      · refine .inr (List.forall_mem_cons.mpr ⟨fun name e methods same => superclass ⟨name, e, methods, same⟩, outside⟩)

end

variable {launches : List Launch} {globals : Environment}

/-- In the methods of a class, the first scope with `this` is that of the instance. The next is that of `super`, which
    an execution of the declaration has made. -/
theorem Traced.derived {path : Path} {environment : Environment} {name : Token} {e : Expr} {methods : List FunctionDecl}
    (traced : Traced launches globals path environment)
    (around : path.class? = some (.stmt (.class_ name (some e) methods))) (legal : ∀ p ∈ path, p.node.part.Legal)
    (outside : ∀ p ∈ path, ∀ name e methods, p ≠ ⟨.stmt (.class_ name (some e) methods), 0⟩) :
    ∃ j t a c inner, path.scopes.findIdx? ("this" ∈ ·) = some j ∧ path.scopes.findIdx? ("super" ∈ ·) = some (j + 1) ∧
      environment.ancestor? j = some (.child t inner) ∧ Happened launches a ∧
      a.Derives (.class_ name (some e) methods) c inner := by
  induction path generalizing environment with
  | nil => cases around
  | cons p outer ih =>
    obtain ⟨enclosing, traced, wraps⟩ := traced
    rw [List.forall_mem_cons] at legal outside
    rw [Path.class?_cons] at around
    rw [Path.scopes_cons]
    split at around
    · obtain ⟨n, i⟩ := p
      cases around
      cases wraps with
      | plain closed =>
        cases i with
        | zero => exact absurd rfl (outside.1 name e methods)
        | succ i => cases closed
      | scope k opened => cases i <;> cases opened
      | @derived a _ _ _ c _ inner t i happened derives =>
        exact ⟨0, t, a, c, inner, rfl, rfl, by simp [Environment.ancestor?], happened, derives⟩
    · rename_i plain
      obtain ⟨j, t, a, c, inner, this, super, out, rest⟩ := ih traced around legal.2 outside.2
      cases wraps with
      | plain closed =>
        rw [closed, List.nil_append]
        exact ⟨j, t, a, c, inner, this, super, out, rest⟩
      | @scope _ _ names k opened =>
        have unreserved := Position.scopes_unreserved legal.1 (Bool.not_eq_true _ ▸ plain) names (by simp [opened])
        have thisNot : "this" ∉ names := fun member => unreserved _ member (by simp [Scope.reserved])
        have superNot : "super" ∉ names := fun member => unreserved _ member (by simp [Scope.reserved])
        refine ⟨j + 1, t, a, c, inner, ?_, ?_, out, rest⟩
        · simp [opened, List.findIdx?_cons, thisNot, this]
        · simp [opened, List.findIdx?_cons, superNot, super]
      | derived => exact absurd rfl plain

theorem Environment.ancestor?_succ {environment inner : Environment} {t : ScopeId} {j : Nat}
    (out : environment.ancestor? j = some (.child t inner)) : environment.ancestor? (j + 1) = some inner := by
  induction environment generalizing j with
  | root scope =>
    cases j with
    | zero => simp [ancestor?] at out
    | succ j => cases out
  | child scope enclosing ih =>
    cases j with
    | zero =>
      rw [ancestor?] at out
      cases out
      cases inner <;> rfl
    | succ j => exact ih out

/-- The environment is that of an instance, or inside it, if the path leads into a class with a superclass. Around the
    instance is what an execution of the declaration has made, and no class but the superclass of then is `super` there. -/
def Path.Inherits (launches : List Launch) (path : Path) (environment : Environment) (m : Machine) : Prop :=
  ∀ name e methods, path.class? = some (.stmt (.class_ name (some e) methods)) → ∃ j t a c inner,
    path.DeclaresAt "this" j ∧ environment.ancestor? j = some (.child t inner) ∧
    Happened launches a ∧ a.Derives (.class_ name (some e) methods) c inner ∧
    ∀ k, m.store.lookup? inner.scope "super" = some (.class_ k) → k = c

def Closure.Inherits (launches : List Launch) (f : Closure) (m : Machine) : Prop :=
  ∃ launch ∈ launches, ∃ path,
    (Occurs launch.program (.function f.declaration) path ∨ Occurs launch.program (.method f.declaration) path) ∧
    path.Inherits launches f.environment m

theorem Coherent.super_eq {a b : Activity} {D : Stmt} {c k : Class} {inner : Environment}
    (coherent : Coherent globals launches) (happened : Happened launches a) (derives : a.Derives D c inner)
    (now : Happened launches b) (found : b.machine.store.lookup? inner.scope "super" = some (.class_ k)) : k = c := by
  obtain ⟨n, name, e, methods, m, m₁, happened', evaluated, scope⟩ := (coherent.recorded b now).supers inner.scope k found
  rcases Run.superclass_eq_value evaluated with ⟨none, -⟩ | ⟨_, _, same, same', evaluated⟩
  · cases none
  · cases same
    cases same'
    exact (coherent.derives_unique happened happened' derives (.intro evaluated) scope).2.symm

theorem Coherent.inherits {a : Activity} {launch : Launch} {n : Node} {path : Path} {environment : Environment}
    (coherent : Coherent globals launches) (now : Happened launches a) (legal : ∀ stmt ∈ launch.program, stmt.Legal)
    (occurs : Occurs launch.program n path) (compound : ∀ id name, n ≠ .expr (.variable_ id name))
    (traced : Traced launches globals path environment) : path.Inherits launches environment a.machine := by
  intro name e methods around
  have outside := (occurs.name_or_method legal).resolve_left fun ⟨id, name, same⟩ => compound id name same
  obtain ⟨j, t, b, c, inner, this, -, out, happened, derives⟩ := traced.derived around (occurs.legal_around legal) outside
  exact ⟨j, t, b, c, inner, Path.declaresAt_iff.mpr this, out, happened, derives, fun k =>
    coherent.super_eq happened derives now⟩

theorem Coherent.invoked_inherits {n : Nat} {f : Closure} {xs : List Value} {m : Machine}
    (coherent : Coherent globals launches) (legal : ∀ launch ∈ launches, ∀ stmt ∈ launch.program, stmt.Legal)
    (now : Happened launches ⟨n, .invoke f xs, m⟩) : f.Inherits launches m := by
  have stands : f.Stands launches globals :=
    Made.function_stands ((coherent.recorded _ now).invoked f xs rfl) fun a happened _ => coherent.located a happened
  rcases stands with ⟨launch, listed, path, occurs, traced⟩ | ⟨launch, listed, path, occurs, traced⟩
  · exact ⟨launch, listed, path, .inl occurs, coherent.inherits now (legal launch listed) occurs (by simp) traced⟩
  · exact ⟨launch, listed, path, .inr occurs, coherent.inherits now (legal launch listed) occurs (by simp) traced⟩

section

variable {m : Machine} {id : NodeId} {method : Token} {c of : Class} {object : Identity}

theorem Run.superMethod_some {f : Closure} (found : m.lookUpSuper id = .ok (c, object, of))
    (nearest : c.findMethod? method.lexeme = some f) : ∃ k m', Run.superMethod id method m =
      .value (.function k { f with environment := .child m.store.scopes.size f.environment }) m' ∧
        m'.store.lookup? m.store.scopes.size "this" = some (.instance_ object of) := by
  have read : Run.tryRead (·.lookUpSuper id) m = .value (c, object, of) m := by
    rw [Run.tryRead, found]
  refine ⟨m.store.nextIdentity, { m with store := (m.store.bindMethod f object of).2.fresh.2 }, ?_, ?_⟩
  · unfold Run.superMethod
    rw [Run.bind_value read]
    simp only [nearest]
    rfl
  · show ((m.store.childOf f.environment).2.bind m.store.scopes.size "this" _).lookup? _ _ = _
    rw [Store.lookup?_childWith, if_pos ⟨rfl, rfl⟩]

theorem Run.superMethod_none (found : m.lookUpSuper id = .ok (c, object, of))
    (missing : c.findMethod? method.lexeme = none) :
    Run.superMethod id method m = .fault (.undefinedProperty method) m := by
  have read : Run.tryRead (·.lookUpSuper id) m = .value (c, object, of) m := by
    rw [Run.tryRead, found]
  unfold Run.superMethod
  rw [Run.bind_value read]
  simp only [missing]
  rfl

end

namespace Session

variable {readings : Nat → Number} {s ready : Session} {source : String} {program : List Stmt} {programs : List (List Stmt)}

theorem Consistent.place_unique {e : Expr} {id : NodeId} {first second : List Stmt} {path path' : Path}
    (consistent : s.Consistent programs) (firstListed : first ∈ programs) (secondListed : second ∈ programs)
    (leaf : e.operands = []) (numbered : id ∈ e.ids) (occurs : Occurs first (.expr e) path)
    (occurs' : Occurs second (.expr e) path') : second = first ∧ path' = path := by
  obtain rfl := consistent.apart first firstListed second secondListed id (occurs.ids_subset numbered)
    (occurs'.ids_subset numbered)
  refine ⟨rfl, occurs'.unique occurs (consistent.distinct first firstListed) ?_ numbered⟩
  rw [Node.children, leaf, List.map_nil]

theorem Consistent.super_placed {id : NodeId} {keyword method : Token} {path : Path} (consistent : s.Consistent programs)
    (listed : program ∈ programs) (occurs : Occurs program (.expr (.super_ id keyword method)) path) :
    ∃ name e methods, path.class? = some (.stmt (.class_ name (some e) methods)) := by
  have arranged := Stmt.isArranged_of_legal (consistent.legal program listed)
  have fine := (Scope.clean_iff_fine arranged).mp (consistent.clean program listed) _ _ occurs
  cases around : path.class? with
  | none => exact absurd (.superOutsideClass around) fine
  | some n =>
    obtain ⟨name, superclass, methods, rfl⟩ := Path.class?_eq_some around
    cases superclass with
    | none => exact absurd (.superWithoutSuperclass around) fine
    | some e => exact ⟨name, e, methods, rfl⟩

/-- What `super` finds: the class that an execution of the declaration around it had for a superclass, and the instance that
    is `this`. -/
theorem Chronicle.lookUpSuper {launches : List Launch} {n fuel : Nat} {id : NodeId} {keyword method : Token} {m : Machine}
    (past : Chronicle readings s launches) (accepted : s.accept? source = some (program, ready))
    (evaluating : Activity.During ⟨fuel, .program program, ready.machine⟩ ⟨n, .expr (.super_ id keyword method), m⟩) :
    ∃ launch ∈ ⟨fuel, program, ready.machine⟩ :: launches, ∃ path name e methods j t a c inner object of,
      Occurs launch.program (.expr (.super_ id keyword method)) path ∧
      path.class? = some (.stmt (.class_ name (some e) methods)) ∧
      path.DeclaresAt "this" j ∧ m.environment.ancestor? j = some (.child t inner) ∧
      Happened (⟨fuel, program, ready.machine⟩ :: launches) a ∧ a.Derives (.class_ name (some e) methods) c inner ∧
      m.store.lookup? t "this" = some (.instance_ object of) ∧ m.lookUpSuper id = .ok (c, object, of) := by
  have consistent : ready.Consistent (program :: launches.map Launch.program) := past.history.consistent.accept accepted
  have coherent := past.launch accepted fuel
  have happened : Happened (⟨fuel, program, ready.machine⟩ :: launches) ⟨n, .expr (.super_ id keyword method), m⟩ :=
    ⟨_, List.mem_cons_self .., evaluating⟩
  -- where the expression stands, and what the walk has found there
  obtain ⟨launch, listed, path, occurs, traced⟩ := coherent.located _ happened
  have member : launch.program ∈ program :: launches.map Launch.program := List.mem_map_of_mem (f := Launch.program) listed
  have legal := consistent.legal _ member
  have sound := consistent.during_sound evaluating
  obtain ⟨context, w, ⟨other, otherListed, visited⟩, fit⟩ := sound.compound (by simp)
  obtain ⟨⟨context', part, w'⟩, visited', rfl, mirrors⟩ := Visits.occurs (Stmt.isArranged_of_legal legal) occurs
  obtain ⟨rfl, same⟩ := consistent.visit_unique otherListed member visited visited' (by simp [Scope.Part.ids, Expr.ids]) rfl
  cases same
  obtain ⟨name, e, methods, around⟩ := consistent.super_placed member occurs
  have outside := (occurs.name_or_method legal).resolve_left (by simp)
  obtain ⟨j, t, a, c, inner, this, super, out, happened', derives⟩ :=
    traced.derived around (occurs.legal_around legal) outside
  -- the distance leads to the scope that the execution has made
  obtain ⟨distance, outerNames, innerNames, known, outerPlace, binds, innerPlace, binds'⟩ :=
    (consistent.resolved member visited).super_bound
  obtain rfl : distance = j := by
    have spelled : keyword.lexeme = "super" := by
      cases occurs.legal legal with
      | super_ word _ => exact word.genuine.lexeme_keyword (List.mem_singleton.mp word.kind)
    have located := (consistent.resolved member visited).located id keyword rfl
    rw [known, spelled] at located
    exact Nat.succ.inj (Option.some.inj (located.trans ((Scope.Mirrors.findIdx? mirrors "super").trans super)))
  obtain ⟨target, superclass, targetOut, foundSuper, readSuper⟩ := fit.fits.getSuper outerPlace binds
  obtain ⟨target', object, of, targetOut', foundThis, readThis⟩ := fit.fits.getThis innerPlace binds'
  cases out.symm.trans targetOut'
  cases (Environment.ancestor?_succ out).symm.trans targetOut
  -- the class in that scope was put there by an execution of a declaration, which is the same one
  obtain rfl := coherent.super_eq happened' derives happened foundSuper
  exact ⟨launch, listed, path, name, e, methods, distance, t, a, superclass, inner, object, of, occurs, around,
    Path.declaresAt_iff.mpr this, out, happened', derives, foundThis,
    Machine.lookUpSuper_eq (sound.1.distances ▸ known) readSuper readThis⟩

/-- Where `super` is evaluated, it stands at one place, in a class that is declared with a superclass. The running method
    was made by one execution of that declaration. The method found is the nearest, upwards from what was the superclass in
    that execution, and it is bound to the instance that is `this` at the place. If there is none, the run ends there. A run
    is the same if it goes on only where functions have the environments of their classes, and no `super` fails otherwise. -/
theorem super_dispatch {launches : List Launch} (past : Chronicle readings s launches)
    (accepted : s.accept? source = some (program, ready)) (fuel : Nat) :
    (∀ n id keyword method m,
      Activity.During ⟨fuel, .program program, ready.machine⟩ ⟨n, .expr (.super_ id keyword method), m⟩ →
      ∃ text path name e methods a c inner j t object of,
        -- the place, and the class around it
        text ∈ program :: launches.map Launch.program ∧ Occurs text (.expr (.super_ id keyword method)) path ∧
        (∀ text' ∈ program :: launches.map Launch.program, ∀ path',
          Occurs text' (.expr (.super_ id keyword method)) path' → text' = text ∧ path' = path) ∧
        path.class? = some (.stmt (.class_ name (some e) methods)) ∧
        -- the execution of its declaration, which made the class and its methods in their environment
        Happened (⟨fuel, program, ready.machine⟩ :: launches) a ∧ a.Derives (.class_ name (some e) methods) c inner ∧
        (∃ identity m', (Stmt.class_ name (some e) methods).execute a.fuel (Closure.invoke a.fuel) a.machine =
            .value .normal m' ∧
          m'.store.lookup? a.machine.environment.scope name.lexeme =
            some (.class_ (.derived identity name.lexeme (Run.methodTable inner methods) c))) ∧
        (∀ a' D c', Happened (⟨fuel, program, ready.machine⟩ :: launches) a' → a'.Derives D c' inner → a' = a) ∧
        -- the instance
        path.DeclaresAt "this" j ∧ m.environment.ancestor? j = some (.child t inner) ∧
        m.store.lookup? t "this" = some (.instance_ object of) ∧
        -- the method
        (∀ f, c.Nearest method.lexeme f →
          ∃ identity scope m', Expr.evaluate (Closure.invoke n) (.super_ id keyword method) m =
              .value (.function identity { f with environment := .child scope f.environment }) m' ∧
            m'.store.lookup? scope "this" = some (.instance_ object of)) ∧
        ((∃ m', Expr.evaluate (Closure.invoke n) (.super_ id keyword method) m = .fault (.undefinedProperty method) m') ↔
          ∀ k ∈ c.ancestry, k.methods.find? method.lexeme = none) ∧
        ((∀ k ∈ c.ancestry, k.methods.find? method.lexeme = none) →
          ∃ m', Run.program fuel program ready.machine = .fault (.undefinedProperty method) m')) ∧
    (∀ other, Run.programWith fuel (Closure.watched
        (fun _ f _ m => f.Inherits (⟨fuel, program, ready.machine⟩ :: launches) m) other fuel) program ready.machine =
      Run.program fuel program ready.machine) ∧
    ∀ breach m, Run.program fuel program ready.machine = .fault (.unexpected breach) m →
      ∃ p ∈ program :: launches.map Launch.program, ∃ v id name value, Visits p v ∧
        v.part = .expr (.assign id name value) ∧ v.walk.isInitializing name = true ∧ breach = .unbound name.lexeme 0 := by
  have consistent : ready.Consistent (program :: launches.map Launch.program) := past.history.consistent.accept accepted
  have coherent := past.launch accepted fuel
  refine ⟨fun n id keyword method m evaluating => ?_, fun other => Run.program_watched other fun n f xs m during => ?_,
    fun breach m => consistent.internal_fault_assigns⟩
  · obtain ⟨launch, listed, path, name, e, methods, j, t, a, c, inner, object, of, occurs, around, declares, out, happened,
      derives, this, found⟩ := past.lookUpSuper accepted evaluating
    have member : launch.program ∈ program :: launches.map Launch.program :=
      List.mem_map_of_mem (f := Launch.program) listed
    have inside : a.machine.environment.scope < a.machine.store.scopes.size := by
      cases derives
      exact (coherent.recorded _ happened).inside _ rfl
    obtain ⟨identity, m', done, bound, -⟩ := derives.outcome inside
    refine ⟨launch.program, path, name, e, methods, a, c, inner, j, t, object, of, member, occurs, ?_, around, happened,
      derives, ⟨identity, m', done, bound⟩, ?_, declares, out, this, ?_, ?_, ?_⟩
    · intro text' listed' path' occurs'
      exact consistent.place_unique member listed' rfl (List.mem_singleton.mpr rfl) occurs occurs'
    · intro a' D c' happened' derives'
      exact (coherent.derives_unique happened' happened derives' derives rfl).1
    · intro f nearest
      obtain ⟨identity, m', evaluated, bound⟩ := Run.superMethod_some found (Class.findMethod?_eq_some_iff.mpr nearest)
      exact ⟨identity, _, m', by rw [Expr.evaluate]; exact evaluated, bound⟩
    · rw [← Class.findMethod?_eq_none_iff, Expr.evaluate]
      constructor
      · rintro ⟨m', failed⟩
        cases nearest : c.findMethod? method.lexeme with
        | none => rfl
        | some f =>
          obtain ⟨identity, m'', evaluated, -⟩ := Run.superMethod_some found nearest
          cases failed.symm.trans evaluated
      · exact fun missing => ⟨m, Run.superMethod_none found missing⟩
    · intro missing
      have failed := Run.superMethod_none found (Class.findMethod?_eq_none_iff.mpr missing)
      refine Outcome.fault?_eq_some.mp (evaluating.fails (Outcome.fault?_eq_some.mpr ⟨m, ?_⟩))
      rw [Expr.evaluate]
      exact failed
  · refine coherent.invoked_inherits (fun launch listed => ?_) ⟨_, List.mem_cons_self .., during⟩
    exact consistent.legal _ (List.mem_map_of_mem (f := Launch.program) listed)

/-- The method of `A` is found from `B`, although `A` is another class by then. -/
theorem super_dispatch_rebound : ∃ (s ready : Session) (program : List Stmt) (keyword method : Token) (m : Machine),
    s.accept? "class A { m() {} } class B < A { m() { super.m; } } A = B; B().m();" = some (program, ready) ∧
    Activity.During ⟨2, .program program, ready.machine⟩ ⟨1, .expr (.super_ 1 keyword method), m⟩ ∧
    ∃ (path : Path) (name : Token) (e : Expr) (methods : List FunctionDecl) (a : Activity) (c : Class) (inner : Environment),
      Occurs program (.expr (.super_ 1 keyword method)) path ∧
      path.class? = some (.stmt (.class_ name (some e) methods)) ∧
      a.Derives (.class_ name (some e) methods) c inner ∧ ¬∀ k ∈ c.ancestry, k.methods.find? method.lexeme = none := by
  let a : Token := ⟨.identifier, "A", none, 1⟩
  let b : Token := ⟨.identifier, "B", none, 1⟩
  let name : Token := ⟨.identifier, "m", none, 1⟩
  let paren : Token := ⟨.rightParen, ")", none, 1⟩
  let keyword : Token := ⟨.keyword .super_, "super", none, 1⟩
  let made : FunctionDecl := .mk name [] []
  let extending : FunctionDecl := .mk name [] [.expression (.super_ 1 keyword name)]
  let callee : Expr := .get (.call (.variable_ 5 b) paren []) name
  let program : List Stmt := [.class_ a none [made], .class_ b (some (.variable_ 0 a)) [extending],
    .expression (.assign 4 a (.variable_ 3 b)), .expression (.call callee paren [])]
  let ready : Session := ⟨(Machine.start fun _ => .zero).setDistance 1 2, .clear, 6⟩
  have accepted : (Session.start fun _ => .zero).accept?
      "class A { m() {} } class B < A { m() { super.m; } } A = B; B().m();" = some (program, ready) := by cbv
  -- what the store holds after each of the declarations, after the assignment and when the method is called
  let above : Class := .base 0 "A" [("m", ⟨made, .root 0, false⟩)]
  let below : Class := .derived 1 "B" [("m", ⟨extending, .child 1 (.root 0), false⟩)] above
  let state (scopes : Array (Bindings Value)) (objects : Array (Bindings Value)) (next : Identity) : Machine :=
    { ready.machine with store := ⟨scopes, objects, next⟩ }
  let outermost (x : Class) (rest : Bindings Value) : Bindings Value :=
    ("clock", .native .clock) :: ("A", .class_ x) :: rest
  let m₁ := state #[outermost above []] #[] 1
  let m₂ := state #[outermost above [("B", .class_ below)], [("super", .class_ above)]] #[] 2
  let m₃ := state #[outermost below [("B", .class_ below)], [("super", .class_ above)]] #[] 2
  let m₄ := state
    #[outermost below [("B", .class_ below)], [("super", .class_ above)], [("this", .instance_ 0 below)]] #[[]] 3
  have first : Stmt.execute 2 (Closure.invoke 2) (.class_ a none [made]) ready.machine = .value .normal m₁ := by rfl
  have second : Stmt.execute 2 (Closure.invoke 2) (.class_ b (some (.variable_ 0 a)) [extending]) m₁ =
    .value .normal m₂ := by rfl
  have third : Stmt.execute 2 (Closure.invoke 2) (.expression (.assign 4 a (.variable_ 3 b))) m₂ =
    .value .normal m₃ := by rfl
  have bound : callee.evaluate (Closure.invoke 2) m₃ =
      .value (.function 2 ⟨extending, .child 2 (.child 1 (.root 0)), false⟩) m₄ := by rfl
  have last := ((Activity.During.start (a := ⟨2, .program program, ready.machine⟩).spawned
    (.othersOfProgram first)).spawned (.othersOfProgram second)).spawned (.othersOfProgram third)
  have called := ((last.spawned .firstOfProgram).spawned .expression).spawned (.call bound rfl (.function rfl (by decide)))
  have evaluating := ((called.spawned .body).spawned .firstStmt).spawned .expression
  obtain ⟨text, path, name, e, methods, a, c, inner, j, t, object, of, listed, occurs, -, around, -, derives, -, -, -, -, -,
    -, undefined, -⟩ := (super_dispatch .start accepted 2).1 _ _ _ _ _ evaluating
  cases List.mem_singleton.mp listed
  refine ⟨_, ready, _, _, _, _, accepted, evaluating, path, name, e, methods, a, c, inner, occurs, around, derives, ?_⟩
  rintro missing
  obtain ⟨m', failed⟩ := undefined.mpr missing
  cases failed

end Session

end Lox
