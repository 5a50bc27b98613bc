import Lox.Proofs.Machine.Activity
import Lox.Proofs.Machine.Growth
import Lox.Proofs.Scope.Resolved

namespace Lox

open Scope (Visit)

/-- What has come of the declarations that were run: functions with their environments, methods as they are before they
    are bound to an instance, and the superclass for which a scope was made. -/
structure Made where
  function : Closure → Prop
  method : Closure → Prop
  superclass : ScopeId → Class → Prop

namespace Made

def any : Made := ⟨fun _ => True, fun _ => True, fun _ _ => True⟩

structure Within (made made' : Made) : Prop where
  function : ∀ {f}, made.function f → made'.function f
  method : ∀ {f}, made.method f → made'.method f
  superclass : ∀ {scope c}, made.superclass scope c → made'.superclass scope c

theorem within_any (made : Made) : made.Within .any := ⟨fun _ => trivial, fun _ => trivial, fun _ => trivial⟩

end Made

def Machine.methodEnvironment (m : Machine) : Option Class → Environment
  | none => m.environment
  | some _ => .child m.store.scopes.size m.environment

/-- What stays as it is while a program runs. -/
structure Setting where
  /-- The visits of the walk over the programs run so far. -/
  known : Visit → Prop
  globals : Environment
  distances : Std.TreeMap NodeId Nat
  /-- What goes on in the run. -/
  active : Activity → Prop
  enters : ∀ {v v' : Visit}, known v → v.Enters v' → known v'
  resolved : ∀ {v : Visit}, known v → v.Resolved distances
  spawns : ∀ {a b : Activity}, active a → a.Spawns b → active b
  made : Made
  declares : ∀ {n : Nat} {d : FunctionDecl} {m : Machine}, active ⟨n, .stmt (.function d), m⟩ →
    made.function ⟨d, m.environment, false⟩
  defines : ∀ {n : Nat} {name : Token} {superclass : Option Expr} {methods : List FunctionDecl} {above : Option Class}
    {m m₁ : Machine}, active ⟨n, .stmt (.class_ name superclass methods), m⟩ →
    Run.superclass (Closure.invoke n) name superclass m = .value above m₁ →
    (∀ d ∈ methods, made.method ⟨d, m₁.methodEnvironment above, d.isInitializer⟩) ∧
      ∀ c, above = some c → made.superclass m₁.store.scopes.size c
  binds : ∀ {f : Closure} (scope : ScopeId), made.method f →
    made.function { f with environment := .child scope f.environment }

variable (world : Setting)

def Closure.Sound (s : Store) (f : Closure) : Prop :=
  ∃ context w, world.known ⟨context, .function f.declaration, w⟩ ∧ s.Fits world.globals f.environment w.scopes ∧
    (f.isInitializer = true → ∃ names outer, w.scopes = names :: outer ∧ names.contains "this" = true) ∧
    world.made.function f

def Closure.SoundMethod (s : Store) (f : Closure) : Prop :=
  ∃ context w outer, world.known ⟨context, .function f.declaration, w⟩ ∧ w.scopes = [("this", true)] :: outer ∧
    s.Fits world.globals f.environment outer ∧ world.made.method f

def Class.Sound (s : Store) : Class → Prop
  | .base _ _ methods => ∀ name f, methods.find? name = some f → f.SoundMethod world s
  | .derived _ _ methods superclass =>
    (∀ name f, methods.find? name = some f → f.SoundMethod world s) ∧ superclass.Sound s

def Value.Sound (s : Store) : Value → Prop
  | .function _ f => f.Sound world s
  | .class_ c => c.Sound world s
  | .instance_ _ c => c.Sound world s
  | _ => True

structure Store.Sound (s : Store) : Prop where
  scopes : ∀ scope name value, s.lookup? scope name = some value → value.Sound world s
  fields : ∀ object name value, s.field? object name = some value → value.Sound world s
  supers : ∀ scope c, s.lookup? scope "super" = some (.class_ c) → world.made.superclass scope c

structure Machine.Sound (m : Machine) : Prop where
  globals : m.globals = world.globals
  distances : m.distances = world.distances
  root : ∃ scope, world.globals = .root scope ∧ scope < m.store.scopes.size
  store : m.store.Sound world

variable {world}

section

variable {free : Option ScopeId} {s s' : Store}

theorem Closure.Sound.grow {f : Closure} (sound : f.Sound world s) (grows : s.Grows free s') : f.Sound world s' := by
  obtain ⟨context, w, known, fits, this, made⟩ := sound
  exact ⟨context, w, known, fits.grow grows, this, made⟩

theorem Closure.SoundMethod.grow {f : Closure} (sound : f.SoundMethod world s) (grows : s.Grows free s') :
    f.SoundMethod world s' := by
  obtain ⟨context, w, outer, known, scopes, fits, made⟩ := sound
  exact ⟨context, w, outer, known, scopes, fits.grow grows, made⟩

theorem Class.Sound.grow {c : Class} (sound : c.Sound world s) (grows : s.Grows free s') : c.Sound world s' := by
  induction c with
  | base identity name methods => exact fun name f found => (sound name f found).grow grows
  | derived identity name methods superclass ih =>
    exact ⟨fun name f found => (sound.1 name f found).grow grows, ih sound.2⟩

theorem Class.Sound.findMethod {c : Class} {name : String} {f : Closure} (sound : c.Sound world s)
    (found : c.findMethod? name = some f) : f.SoundMethod world s := by
  induction c with
  | base identity className methods => exact sound name f found
  | derived identity className methods superclass ih =>
    rw [Class.findMethod?, Option.or_eq_some_iff] at found
    rcases found with here | ⟨-, above⟩
    · exact sound.1 name f here
    · exact ih sound.2 above

theorem Value.Sound.grow {value : Value} (sound : value.Sound world s) (grows : s.Grows free s') :
    value.Sound world s' := by
  cases value with
  | function identity f => exact Closure.Sound.grow sound grows
  | class_ c | instance_ _ c => exact Class.Sound.grow sound grows
  | _ => trivial

theorem Store.Sound.update (sound : s.Sound world) (grows : s.Grows free s')
    (scopes : ∀ scope name value, s'.lookup? scope name = some value →
      s.lookup? scope name = some value ∨ value.Sound world s')
    (fields : ∀ object name value, s'.field? object name = some value →
      s.field? object name = some value ∨ value.Sound world s')
    (supers : ∀ scope c, s.scopes.size ≤ scope → s'.lookup? scope "super" = some (.class_ c) →
      world.made.superclass scope c) : s'.Sound world := by
  refine ⟨fun scope name value found => ?_, fun object name value found => ?_, fun scope c found => ?_⟩
  · rcases scopes scope name value found with old | new
    · exact (sound.scopes scope name value old).grow grows
    · exact new
  · rcases fields object name value found with old | new
    · exact (sound.fields object name value old).grow grows
    · exact new
  · by_cases old : scope < s.scopes.size
    · rw [grows.reserved scope old "super" (by decide)] at found
      exact sound.supers scope c found
    · exact supers scope c (Nat.not_lt.mp old) found

theorem Store.Sound.bind {scope : ScopeId} {name : String} {value : Value} (sound : s.Sound world)
    (grows : s.Grows free (s.bind scope name value)) (new : value.Sound world (s.bind scope name value)) :
    (s.bind scope name value).Sound world := by
  refine sound.update grows (fun other otherName found lookup => ?_) (fun _ _ _ found => .inl found)
    fun other c outside found => ?_
  · rw [Store.lookup?_bind] at lookup
    split at lookup
    · cases lookup
      exact .inr new
    · exact .inl lookup
  · rw [Store.lookup?_outside (by simpa using outside)] at found
    cases found

theorem Store.Sound.childOf (sound : s.Sound world) (enclosing : Environment) :
    (s.childOf enclosing).2.Sound world := by
  have grows : s.Grows none (s.childOf enclosing).2 := .childOf enclosing
  refine sound.update grows (fun scope name value found => ?_) (fun _ _ _ found => .inl found)
    fun scope c outside found => ?_
  · rw [Store.lookup?_childOf] at found
    exact .inl found
  · rw [Store.lookup?_childOf, Store.lookup?_outside outside] at found
    cases found

theorem Store.Grows.of_scopes (same : s'.scopes = s.scopes) : s.Grows free s' :=
  .of_lookup (Nat.le_of_eq (by rw [same])) fun scope _ name => by simp [Store.lookup?, same]

theorem Store.Sound.of_scopes (sound : s.Sound world) (same : s'.scopes = s.scopes)
    (fields : ∀ object name value, s'.field? object name = some value →
      s.field? object name = some value ∨ value.Sound world s) : s'.Sound world := by
  have grows : s.Grows none s' := .of_scopes same
  refine sound.update grows (fun scope name value found => ?_) (fun object name value found => ?_)
    fun scope c outside found => ?_
  · simp only [Store.lookup?, same] at found
    exact .inl found
  · exact (fields object name value found).imp_right fun new => new.grow grows
  · rw [Store.lookup?_outside (by rw [same]; exact outside)] at found
    cases found

theorem Store.Sound.fresh (sound : s.Sound world) : s.fresh.2.Sound world :=
  sound.of_scopes rfl fun _ _ _ => .inl

theorem Store.Sound.instantiate (sound : s.Sound world) : s.instantiate.2.Sound world := by
  refine sound.of_scopes rfl fun object name value found => .inl ?_
  unfold Store.instantiate Store.field? at found
  dsimp only at found
  rw [Array.getElem?_push] at found
  split at found
  · simp [Bindings.find?] at found
  · exact found

theorem Store.Sound.setField {object : Identity} {name : String} {value : Value} (sound : s.Sound world)
    (new : value.Sound world s) : (s.setField object name value).Sound world := by
  refine sound.of_scopes rfl fun other otherName found lookup => ?_
  unfold Store.setField Store.field? at lookup
  dsimp only at lookup
  rw [Array.getElem?_modify] at lookup
  split at lookup
  · rename_i here
    subst here
    cases fields : s.objects[object]? with
    | none =>
      rw [fields] at lookup
      cases lookup
    | some bindings =>
      rw [fields, Option.map_some, Option.getD_some, Bindings.find?_insert] at lookup
      split at lookup
      · cases lookup
        exact .inr new
      · exact .inl (by rw [Store.field?, fields]; exact lookup)
  · exact .inl lookup

theorem Store.Sound.childWith {value : Value} (sound : s.Sound world) (enclosing : Environment) (name : String)
    (new : value.Sound world s) (super : ∀ c, name = "super" → value = .class_ c → world.made.superclass s.scopes.size c) :
    ((s.childOf enclosing).2.bind s.scopes.size name value).Sound world := by
  have grows : s.Grows none ((s.childOf enclosing).2.bind s.scopes.size name value) := .childWith ..
  refine sound.update grows (fun scope other found lookup => ?_) (fun _ _ _ found => .inl found)
    fun scope c outside found => ?_
  · rw [Store.lookup?_childWith] at lookup
    split at lookup
    · cases lookup
      exact .inr (new.grow grows)
    · exact .inl lookup
  · rw [Store.lookup?_childWith] at found
    split at found
    · rename_i here
      exact here.1 ▸ super c here.2 (Option.some.inj found)
    · rw [Store.lookup?_outside outside] at found
      cases found

theorem Store.Sound.bindMethod {method : Closure} {c : Class} (sound : s.Sound world) (object : Identity)
    (fitting : method.SoundMethod world s) (instance_ : c.Sound world s) :
    s.Grows none (s.bindMethod method object c).2 ∧ (s.bindMethod method object c).2.Sound world ∧
      (s.bindMethod method object c).1.Sound world (s.bindMethod method object c).2 := by
  have grows : s.Grows none (s.bindMethod method object c).2 := .childWith method.environment ..
  have this : (Value.instance_ object c).Sound world s := instance_
  refine ⟨grows, sound.childWith method.environment "this" this (by simp), ?_⟩
  obtain ⟨context, w, outer, known, scopes, fits, made⟩ := fitting
  refine ⟨context, w, known, ?_, fun _ => ⟨_, _, scopes, by simp [Bindings.contains, Bindings.find?]⟩, world.binds _ made⟩
  rw [scopes]
  exact ⟨.childThis s method.environment object c, fits.grow grows⟩

structure Setting.Within (world world' : Setting) : Prop where
  known : ∀ v, world.known v → world'.known v
  globals : world'.globals = world.globals
  made : world.made.Within world'.made

variable {world' : Setting}

theorem Class.Sound.transfer {c : Class} (sound : c.Sound world s) (within : world.Within world') : c.Sound world' s := by
  have method : ∀ f : Closure, f.SoundMethod world s → f.SoundMethod world' s := by
    rintro f ⟨context, w, outer, known, scopes, fits, made⟩
    exact ⟨context, w, outer, within.known _ known, scopes, within.globals ▸ fits, within.made.method made⟩
  induction c with
  | base identity name methods => exact fun name f found => method f (sound name f found)
  | derived identity name methods superclass ih =>
    exact ⟨fun name f found => method f (sound.1 name f found), ih sound.2⟩

theorem Value.Sound.transfer {value : Value} (sound : value.Sound world s) (within : world.Within world') :
    value.Sound world' s := by
  cases value with
  | function identity f =>
    obtain ⟨context, w, known, fits, this, made⟩ := sound
    exact ⟨context, w, within.known _ known, within.globals ▸ fits, this, within.made.function made⟩
  | class_ c | instance_ _ c => exact Class.Sound.transfer sound within
  | _ => trivial

theorem Store.Sound.transfer (sound : s.Sound world) (within : world.Within world') : s.Sound world' :=
  ⟨fun scope name value found => (sound.scopes scope name value found).transfer within,
    fun object name value found => (sound.fields object name value found).transfer within,
    fun scope c found => within.made.superclass (sound.supers scope c found)⟩

end
end Lox
