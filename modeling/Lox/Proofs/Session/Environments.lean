import Mathlib
import Lox.Proofs.Machine.Watching
import Lox.Proofs.Session.History

namespace Lox

open Scope (Visit Visits)

/-- The visit is that of the superclass of the class with this name. The walk has the name declared for good by then. -/
def Scope.Extends (program : List Stmt) (v : Visit) (name : String) : Prop :=
  ∃ context token superclass methods w,
    Visits program ⟨context, .stmt (.class_ token (some superclass) methods), w⟩ ∧ token.lexeme = name ∧
    v = ⟨{ context with class_ := .derived }, .expr superclass, checkSuperclass token superclass (w.bind token)⟩

/-- The chain of environments follows the scopes: it is as long, with the globals behind, and binds all names
    declared for good but for those that the innermost one may lack. -/
structure Machine.Follows (m : Machine) (scopes : List Scope.Names) (lacks : String → Prop) : Prop where
  length : m.environment.scopes.length = scopes.length + 1
  globals : m.environment.ancestor? scopes.length = some m.globals
  bound : ∀ i names name, scopes[i]? = some names → names.find? name = some true → (i = 0 → ¬ lacks name) →
    ∃ environment value, m.environment.ancestor? i = some environment ∧
      m.store.lookup? environment.scope name = some value
  this : ∀ i names, scopes[i]? = some names → names.contains "this" = true →
    ∃ environment object c, m.environment.ancestor? i = some environment ∧
      m.store.lookup? environment.scope "this" = some (.instance_ object c)
  super : ∀ i names, scopes[i]? = some names → names.contains "super" = true →
    (∃ environment c, m.environment.ancestor? i = some environment ∧
      m.store.lookup? environment.scope "super" = some (.class_ c)) ∧
    ∃ j inner, i = j + 1 ∧ scopes[j]? = some inner ∧ inner.contains "this" = true

/-- A reference with a distance finds its value there, and `super` its class and its instance. -/
def Machine.Answers (m : Machine) : Expr → Prop
  | .variable_ id name => (m.distances[id]?).isSome = true → ∃ x, m.lookUp id name = .ok x
  | .this_ id keyword => ∃ x, m.lookUp id keyword = .ok x
  | .super_ id _ _ => ∃ found, m.lookUpSuper id = .ok found
  | _ => True

section

variable {world : Setting} {m : Machine} {context : Scope.Context} {w : Scope.Walk} {scopes : List Scope.Names}

theorem Scope.adjacent_super {names : Scope.Names} {i : Nat} (adjacent : Scope.Adjacent (Scope.marks scopes))
    (place : scopes[i]? = some names) (held : names.contains "super" = true) :
    ∃ j inner, i = j + 1 ∧ scopes[j]? = some inner ∧ inner.contains "this" = true := by
  have mark : (Scope.marks scopes)[i]? = some (names.contains "this", names.contains "super") := by
    simp [Scope.marks, place]
  obtain ⟨j, inner, rfl, found, this⟩ := adjacent i _ mark held
  simp only [Scope.marks, List.getElem?_map, Option.map_eq_some_iff] at found
  obtain ⟨names', place', rfl⟩ := found
  exact ⟨j, names', rfl, place', this⟩

/-- Scopes that have what other scopes have declared for good, but for names that the innermost one may lack. -/
structure Scope.Covers (scopes' scopes : List Scope.Names) (lacks : String → Prop) : Prop where
  length : scopes'.length = scopes.length
  declared : ∀ i names, scopes[i]? = some names → ∃ names', scopes'[i]? = some names' ∧
    (∀ name, names.find? name = some true → (i = 0 → ¬ lacks name) → names'.find? name = some true) ∧
    ∀ name ∈ Scope.reserved, names.contains name = true → names'.contains name = true

theorem Scope.Covers.refl (scopes : List Scope.Names) (lacks : String → Prop) : Scope.Covers scopes scopes lacks :=
  ⟨rfl, fun _ names place => ⟨names, place, fun _ found _ => found, fun _ _ held => held⟩⟩

theorem Scope.Covers.bindInnermost {name : String} {lacks : String → Prop} (scopes : List Scope.Names)
    (ordinary : name ∉ Scope.reserved) (lacking : lacks name) :
    Scope.Covers scopes (Scope.bindInnermost name scopes) lacks := by
  cases scopes with
  | nil => exact .refl [] lacks
  | cons innermost outer =>
    refine ⟨rfl, fun i names place => ?_⟩
    cases i with
    | succ i => exact ⟨names, place, fun _ found _ => found, fun _ _ held => held⟩
    | zero =>
      cases place
      refine ⟨innermost, rfl, fun other found present => ?_, fun other member held => ?_⟩
      · have different : name ≠ other := fun same => present rfl (same ▸ lacking)
        rwa [Scope.Names.find?_bind, if_neg different] at found
      · have different : name ≠ other := fun same => ordinary (same ▸ member)
        rwa [Bindings.contains, Scope.Names.find?_bind, if_neg different] at held

theorem Machine.Matches.follows {scopes' : List Scope.Names} {lacks : String → Prop} (fit : m.Matches world scopes')
    (sound : m.Sound world) (covers : Scope.Covers scopes' scopes lacks)
    (adjacent : Scope.Adjacent (Scope.marks scopes)) : m.Follows scopes lacks := by
  obtain ⟨scope, root, -⟩ := sound.root
  refine ⟨?_, ?_, fun i names name place declared present => ?_, fun i names place held => ?_,
    fun i names place held => ⟨?_, Scope.adjacent_super adjacent place held⟩⟩
  · rw [fit.fits.length, covers.length, root]
    rfl
  · rw [sound.globals, ← covers.length]
    exact fit.fits.globals_behind
  · obtain ⟨names', place', bound, -⟩ := covers.declared i names place
    obtain ⟨target, value, out, found, -⟩ := fit.fits.getAt place' (bound name declared present)
    exact ⟨target, value, out, found⟩
  · obtain ⟨names', place', -, reserved⟩ := covers.declared i names place
    obtain ⟨target, object, c, out, found, -⟩ := fit.fits.getThis place' (reserved "this" (by decide) held)
    exact ⟨target, object, c, out, found⟩
  · obtain ⟨names', place', -, reserved⟩ := covers.declared i names place
    obtain ⟨target, c, out, found, -⟩ := fit.fits.getSuper place' (reserved "super" (by decide) held)
    exact ⟨target, c, out, found⟩

theorem Machine.answers {e : Expr} (visited : world.known ⟨context, .expr e, w⟩) (sound : m.Sound world)
    (fits : m.store.Fits world.globals m.environment w.scopes) : m.Answers e := by
  cases e with
  | variable_ id name =>
    intro known
    rcases Machine.lookUp_variable visited sound fits with ⟨x, found, -⟩ | ⟨unknown, -⟩
    · exact ⟨x, found⟩
    · rw [unknown] at known
      cases known
  | this_ id keyword =>
    obtain ⟨object, c, found, -⟩ := Machine.lookUp_this visited sound fits
    exact ⟨_, found⟩
  | super_ id keyword method =>
    obtain ⟨superclass, object, c, found, -⟩ := Machine.lookUpSuper_of_visited visited sound fits
    exact ⟨_, found⟩
  | _ => trivial

theorem Activity.Sound.follows {n : Nat} {e : Expr} (sound : Activity.Sound world ⟨n, .expr e, m⟩) :
    ∃ v, world.known v ∧ v.part = .expr e ∧ m.Answers e ∧ ∀ lacks : String → Prop,
      (∀ context token methods w, world.known ⟨context, .stmt (.class_ token (some e) methods), w⟩ →
        v = ⟨{ context with class_ := .derived }, .expr e, Scope.checkSuperclass token e (w.bind token)⟩ →
        lacks token.lexeme) → m.Follows v.walk.scopes lacks := by
  obtain ⟨machine, ⟨context, w, visited, fit⟩ | ⟨name, methods, context, w, visited, fit⟩⟩ := sound
  · have adjacent := (world.resolved visited).shaped.2.1
    exact ⟨_, visited, rfl, Machine.answers visited machine fit.fits, fun lacks _ => fit.follows machine (.refl ..) adjacent⟩
  · have entered := world.enters visited .superclass
    have adjacent := (world.resolved entered).shaped.2.1
    cases (world.resolved visited).legal with
    | class_ named extended _ _ _ =>
      obtain ⟨id, superName, rfl, -⟩ := extended e rfl
      refine ⟨_, entered, rfl, fun known => ?_, fun lacks lacking => fit.follows machine ?_ adjacent⟩
      · rcases Machine.lookUp_superclass visited machine fit.fits with ⟨x, found, -⟩ | ⟨unknown, -⟩
        · exact ⟨x, found⟩
        · rw [unknown] at known
          cases known
      · rw [Scope.scopes_checkSuperclass, Scope.Walk.scopes_bind]
        exact .bindInnermost _ (Scope.lexeme_not_reserved named) (lacking _ _ _ _ visited rfl)

theorem Activity.Sound.body_follows {n : Nat} {f : Closure} {xs : List Value}
    (sound : Activity.Sound world ⟨n, .invoke f xs, m⟩) : ∃ v, world.known v ∧ v.part = .stmts f.declaration.body ∧
      (m.entered f xs).Follows v.walk.scopes fun _ => False := by
  obtain ⟨machine, ⟨context, w, visited, fits, -⟩, given, fitting⟩ := sound
  obtain ⟨-, machine', fit⟩ := Run.entered_matches machine visited fits given fitting
  have entered := world.enters visited .body
  exact ⟨_, entered, rfl, fit.follows machine' (.refl ..) (world.resolved entered).shaped.nested.adjacent⟩

end

/-- Whenever an expression is evaluated, the environments follow the scopes of its visit, except that the name of a class
    is not bound while its superclass is looked up. So every reference with a distance finds its value, every `super` its
    class and its instance, and the end of every initializer its instance. A run is the same if it goes on only where the
    body of a function begins in environments that follow the scopes, and it has internal faults from assignments only. -/
theorem Session.environments_follow_scopes {readings : Nat → Number} {s ready : Session} {source : String}
    {program : List Stmt} {programs : List (List Stmt)} (past : s.History readings programs)
    (accepted : s.accept? source = some (program, ready)) (fuel : Nat) :
    (∀ n e m, Activity.During ⟨fuel, .program program, ready.machine⟩ ⟨n, .expr e, m⟩ → m.Answers e ∧
      ∃ p ∈ program :: programs, ∃ v, Visits p v ∧ v.part = .expr e ∧ m.Follows v.walk.scopes (Scope.Extends p v) ∧
        (e.ids ≠ [] → ∀ p' ∈ program :: programs, ∀ v', Visits p' v' → v'.part = .expr e → p' = p ∧ v' = v)) ∧
    (∀ n f xs m, Activity.During ⟨fuel, .program program, ready.machine⟩ ⟨n + 1, .invoke f xs, m⟩ →
      f.isInitializer = true → ∀ flow m', Stmt.executeAll n (Closure.invoke n) f.declaration.body (m.entered f xs) =
        .value flow m' → ∃ object c, m'.store.getAt f.environment 0 "this" = .ok (.instance_ object c)) ∧
    (∀ other, Run.programWith fuel (Closure.watched (fun _ f xs m => ∃ p ∈ program :: programs, ∃ v, Visits p v ∧
        v.part = .stmts f.declaration.body ∧ (m.entered f xs).Follows v.walk.scopes fun _ => False) other fuel)
      program ready.machine = Run.program fuel program ready.machine) ∧
    ∀ breach m, Run.program fuel program ready.machine = .fault (.unexpected breach) m →
      ∃ p ∈ program :: programs, ∃ v id name value, Visits p v ∧ v.part = .expr (.assign id name value) ∧
        v.walk.isInitializing name = true ∧ breach = .unbound name.lexeme 0 := by
  have consistent := past.consistent.accept accepted
  refine ⟨fun n e m during => ?_, fun n f xs m during initializer flow m' done => ?_,
    fun other => Run.program_watched other fun n f xs m during => ?_, fun breach m => consistent.internal_fault_assigns⟩
  · obtain ⟨v, ⟨p, listed, visited⟩, part, answers, follows⟩ := (consistent.during_sound during).follows
    refine ⟨answers, p, listed, v, visited, part, follows _ ?_, fun numbered p' listed' v' visited' part' => ?_⟩
    · rintro context token methods w ⟨p', listed', extending⟩ rfl
      have numbered : e.ids ≠ [] := by
        cases (consistent.resolved listed' extending).legal with
        | class_ _ extended _ _ _ =>
          obtain ⟨id, superName, rfl, -⟩ := extended e rfl
          simp [Expr.ids]
      obtain ⟨rfl, -⟩ := consistent.visit_unique listed listed' visited (extending.enter .superclass) numbered rfl
      exact ⟨context, token, e, methods, w, extending, rfl, rfl⟩
    · rw [← part] at part'
      refine consistent.visit_unique listed' listed visited' visited ?_ part'
      rw [part', part]
      exact numbered
  · obtain ⟨machine, closure, given, fitting⟩ := consistent.during_sound during
    obtain ⟨grows, body⟩ := Closure.body_ensures (Closure.invoke_ensures n) during machine closure given fitting
    obtain ⟨kept, -⟩ := body.of_value done
    obtain ⟨object, c, -, read⟩ := ((closure.grow grows).grow kept.store).this initializer
    exact ⟨object, c, read⟩
  · obtain ⟨v, ⟨p, listed, visited⟩, part, follows⟩ := (consistent.during_sound during).body_follows
    exact ⟨p, listed, v, visited, part, follows⟩

theorem Session.environments_follow_scopes_inner_block : ∃ (s ready : Session) (program : List Stmt) (m : Machine),
    s.accept? "{ var a = true; { print a; } }" = some (program, ready) ∧
    Activity.During ⟨1, .program program, ready.machine⟩ ⟨1, .expr (.variable_ 0 ⟨.identifier, "a", none, 1⟩), m⟩ ∧
    (m.distances[0]?).isSome = true ∧ (∃ x, m.lookUp 0 ⟨.identifier, "a", none, 1⟩ = .ok x) ∧
    ∃ v, Visits program v ∧ v.walk.scopes.length = 2 ∧ m.Follows v.walk.scopes (Scope.Extends program v) := by
  let a : Token := ⟨.identifier, "a", none, 1⟩
  let ready : Session := ⟨(Machine.start fun _ => .zero).setDistance 0 1, .clear, 1⟩
  let program : List Stmt := [.block [.var_ a (some (.constant (.bool true))), .block [.print_ (.variable_ 0 a)]]]
  have accepted : (Session.start fun _ => .zero).accept? "{ var a = true; { print a; } }" = some (program, ready) := by cbv
  have block : Activity.During ⟨1, .program program, ready.machine⟩ _ :=
    (Activity.During.start.spawned .firstOfProgram).spawned .block
  have inner := ((block.spawned (.otherStmts rfl)).spawned .firstStmt).spawned .block
  have during := (inner.spawned .firstStmt).spawned .print_
  obtain ⟨answers, p, listed, v, visited, part, follows, -⟩ :=
    (environments_follow_scopes .start accepted 1).1 _ _ _ during
  cases List.mem_singleton.mp listed
  refine ⟨_, _, _, _, accepted, during, by decide, answers (by decide), v, visited, ?_, follows⟩
  have length := follows.length
  exact Nat.succ.inj length.symm

/-- A class is declared before its superclass is looked up, and bound after. -/
theorem Session.superclass_before_binding : ∃ (s ready : Session) (program : List Stmt) (e : Expr) (m : Machine) (v : Visit),
    s.History (fun _ => .zero) [] ∧
    s.accept? "{ class A {} class B < A {} }" = some (program, ready) ∧
    Activity.During ⟨1, .program program, ready.machine⟩ ⟨1, .expr e, m⟩ ∧ Visits program v ∧ v.part = .expr e ∧
    (∀ v', Visits program v' → v'.part = .expr e → v' = v) ∧ ¬ m.Follows v.walk.scopes fun _ => False := by
  let a : Token := ⟨.identifier, "A", none, 1⟩
  let b : Token := ⟨.identifier, "B", none, 1⟩
  let declarations : List Stmt := [.class_ a none [], .class_ b (some (.variable_ 0 a)) []]
  let ready : Session := ⟨(Machine.start fun _ => .zero).setDistance 0 0, .clear, 1⟩
  have accepted : (Session.start fun _ => .zero).accept? "{ class A {} class B < A {} }" =
      some ([.block declarations], ready) := by cbv
  have visited : Visits [.block declarations] _ :=
    ((((Visits.start.enter .firstStmt).enter .block).enter .otherStmts).enter .firstStmt).enter .superclass
  have block : Activity.During ⟨1, .program [.block declarations], ready.machine⟩ _ :=
    (Activity.During.start.spawned .firstOfProgram).spawned .block
  have during := ((block.spawned (.otherStmts rfl)).spawned .firstStmt).spawned .superclass
  refine ⟨_, _, _, _, _, _, .start, accepted, during, visited, rfl, fun v' visited' part => ?_, fun follows => ?_⟩
  · exact visited'.unique visited (by decide) (by rw [part]; exact List.cons_ne_nil _ _) part
  · obtain ⟨environment, value, out, found⟩ := follows.bound 0 _ "B" rfl rfl fun _ => id
    cases out
    cases found

end Lox
