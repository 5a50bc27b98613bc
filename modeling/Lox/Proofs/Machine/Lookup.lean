import Lox.Proofs.Machine.Rules

namespace Lox

open Scope (Visit)

namespace Store.Fits

variable {s : Store} {globals environment : Environment} {scopes : List Scope.Names} {names : Scope.Names}

theorem getThis {distance : Nat} (fits : s.Fits globals environment scopes) (place : scopes[distance]? = some names)
    (held : names.contains "this" = true) :
    ∃ target object c, environment.ancestor? distance = some target ∧
      s.lookup? target.scope "this" = some (.instance_ object c) ∧
      s.getAt environment distance "this" = .ok (.instance_ object c) := by
  obtain ⟨target, out, holds⟩ := fits.ancestor place
  obtain ⟨object, c, found⟩ := holds.this held
  exact ⟨target, object, c, out, found, by simp [Store.getAt, Store.ancestor, out, found]⟩

theorem getSuper {distance : Nat} (fits : s.Fits globals environment scopes) (place : scopes[distance]? = some names)
    (held : names.contains "super" = true) :
    ∃ target c, environment.ancestor? distance = some target ∧ s.lookup? target.scope "super" = some (.class_ c) ∧
      s.getAt environment distance "super" = .ok (.class_ c) := by
  obtain ⟨target, out, holds⟩ := fits.ancestor place
  obtain ⟨c, found⟩ := holds.super held
  exact ⟨target, c, out, found, by simp [Store.getAt, Store.ancestor, out, found]⟩

end Store.Fits

namespace Machine

variable {world : Setting} {m : Machine} {context : Scope.Context} {w : Scope.Walk} {scopes : List Scope.Names}
  {id : NodeId}

theorem lookUp_of_bound {name : Token} (sound : m.Sound world)
    (fits : m.store.Fits world.globals m.environment scopes)
    (bound : ∀ distance, world.distances[id]? = some distance →
      ∃ names, scopes[distance]? = some names ∧ names.find? name.lexeme = some true) :
    (∃ value, m.lookUp id name = .ok value ∧ value.Sound world m.store) ∨
      m.distances[id]? = none ∧ m.lookUp id name = .error (.undefinedVariable name) := by
  unfold lookUp
  rw [sound.distances]
  cases known : world.distances[id]? with
  | some distance =>
    obtain ⟨names, place, declared⟩ := bound distance known
    obtain ⟨target, value, -, found, read⟩ := fits.getAt place declared
    exact .inl ⟨value, read, sound.store.scopes _ _ _ found⟩
  | none =>
    obtain ⟨scope, root, -⟩ := sound.root
    simp only [Store.get, sound.globals, root, Store.get?]
    cases found : m.store.lookup? scope name.lexeme with
    | some value => exact .inl ⟨value, rfl, sound.store.scopes _ _ _ found⟩
    | none => exact .inr ⟨trivial, rfl⟩

theorem lookUp_variable {name : Token} (visited : world.known ⟨context, .expr (.variable_ id name), w⟩)
    (sound : m.Sound world) (fits : m.store.Fits world.globals m.environment w.scopes) :
    (∃ value, m.lookUp id name = .ok value ∧ value.Sound world m.store) ∨
      m.distances[id]? = none ∧ m.lookUp id name = .error (.undefinedVariable name) :=
  lookUp_of_bound sound fits fun _ known => (world.resolved visited).variable_bound known

theorem lookUp_superclass {name superName : Token} {methods : List FunctionDecl}
    (visited : world.known ⟨context, .stmt (.class_ name (some (.variable_ id superName)) methods), w⟩)
    (sound : m.Sound world) (fits : m.store.Fits world.globals m.environment w.scopes) :
    (∃ value, m.lookUp id superName = .ok value ∧ value.Sound world m.store) ∨
      m.distances[id]? = none ∧ m.lookUp id superName = .error (.undefinedVariable superName) := by
  refine lookUp_of_bound sound fits fun distance known => ?_
  have different := (world.resolved visited).superclass_ne
  obtain ⟨names, place, declared⟩ := (world.resolved (world.enters visited .superclass)).variable_bound known
  rw [Scope.scopes_checkSuperclass, Scope.Walk.scopes_bind] at place
  cases scopes : w.scopes with
  | nil =>
    rw [scopes] at place
    simp [Scope.bindInnermost] at place
  | cons innermost outer =>
    rw [scopes] at place
    cases distance with
    | zero =>
      cases place
      rw [Scope.Names.find?_bind, if_neg (Ne.symm different)] at declared
      exact ⟨innermost, rfl, declared⟩
    | succ distance => exact ⟨names, place, declared⟩

theorem lookUp_this {keyword : Token} (visited : world.known ⟨context, .expr (.this_ id keyword), w⟩)
    (sound : m.Sound world) (fits : m.store.Fits world.globals m.environment w.scopes) :
    ∃ object c, m.lookUp id keyword = .ok (.instance_ object c) ∧ c.Sound world m.store := by
  obtain ⟨distance, names, known, place, held, spelled⟩ := (world.resolved visited).this_bound
  obtain ⟨target, object, c, -, found, read⟩ := fits.getThis place held
  refine ⟨object, c, ?_, sound.store.scopes _ _ _ found⟩
  unfold lookUp
  rw [sound.distances, known, spelled]
  exact read

theorem lookUpSuper_eq {superclass c : Class} {object : Identity} {distance : Nat}
    (known : m.distances[id]? = some (distance + 1))
    (super : m.store.getAt m.environment (distance + 1) "super" = .ok (.class_ superclass))
    (this : m.store.getAt m.environment distance "this" = .ok (.instance_ object c)) :
    m.lookUpSuper id = .ok (superclass, object, c) := by
  unfold lookUpSuper
  rw [known]
  show (m.store.getAt m.environment (distance + 1) "super" >>= _) = _
  rw [super]
  show (m.store.getAt m.environment distance "this" >>= _) = _
  rw [this]
  rfl

theorem lookUpSuper_of_visited {keyword method : Token}
    (visited : world.known ⟨context, .expr (.super_ id keyword method), w⟩) (sound : m.Sound world)
    (fits : m.store.Fits world.globals m.environment w.scopes) :
    ∃ superclass object c, m.lookUpSuper id = .ok (superclass, object, c) ∧ superclass.Sound world m.store ∧
      c.Sound world m.store := by
  obtain ⟨distance, outer, inner, known, place, super, innerPlace, this⟩ := (world.resolved visited).super_bound
  obtain ⟨target, superclass, -, foundSuper, readSuper⟩ := fits.getSuper place super
  obtain ⟨target', object, c, -, foundThis, readThis⟩ := fits.getThis innerPlace this
  refine ⟨superclass, object, c, ?_, sound.store.scopes _ _ _ foundSuper, sound.store.scopes _ _ _ foundThis⟩
  exact lookUpSuper_eq (by rw [sound.distances, known]) readSuper readThis

theorem locate_assign {name : Token} {value : Expr} (visited : world.known ⟨context, .expr (.assign id name value), w⟩)
    (sound : m.Sound world) (fit : m.Matches world w.scopes) :
    (w.isInitializing name = false ∧ ∃ scope, m.locate id name = .ok scope ∧
      (m.store.lookup? scope name.lexeme).isSome = true) ∨
    (w.isInitializing name = false ∧ m.locate id name = .error (.undefinedVariable name)) ∨
    (w.isInitializing name = true ∧ m.locate id name = .error (.unexpected (.unbound name.lexeme 0))) := by
  have resolved := world.resolved visited
  unfold locate
  rw [sound.distances]
  cases initializing : w.isInitializing name with
  | true =>
    refine .inr (.inr ⟨rfl, ?_⟩)
    obtain ⟨known, names, outer, scopes, undeclared⟩ := resolved.assign_initializing initializing
    rw [known]
    have unbound := fit.tight names outer scopes name.lexeme (by simp [undeclared])
    have self : m.environment.ancestor? 0 = some m.environment := by cases m.environment <;> rfl
    simp [Store.locateAt, Store.ancestor, self, unbound]
  | false =>
    cases known : world.distances[id]? with
    | some distance =>
      obtain ⟨names, place, declared⟩ := resolved.assign_bound known initializing
      obtain ⟨target, x, out, found, -⟩ := fit.fits.getAt place declared
      exact .inl ⟨rfl, target.scope, by simp [Store.locateAt, Store.ancestor, out, found], by simp [found]⟩
    | none =>
      obtain ⟨scope, root, -⟩ := sound.root
      simp only [Store.locate, sound.globals, root, Store.locate?]
      cases found : m.store.lookup? scope name.lexeme with
      | some x => exact .inl ⟨trivial, scope, rfl, by simp [found]⟩
      | none => exact .inr (.inl ⟨trivial, rfl⟩)

end Machine
end Lox
