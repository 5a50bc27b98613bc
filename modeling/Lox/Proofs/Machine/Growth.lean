import Lox.Store
import Lox.Proofs.Scope.Shape

namespace Lox

namespace Store

theorem lookup?_bind (s : Store) (scope other : ScopeId) (name otherName : String) (value : Value) :
    (s.bind scope name value).lookup? other otherName =
      if scope = other ∧ name = otherName ∧ scope < s.scopes.size then some value else s.lookup? other otherName := by
  unfold lookup? bind
  dsimp only
  rw [Array.getElem?_modify]
  by_cases here : scope = other
  · subst here
    by_cases inside : scope < s.scopes.size
    · simp [inside, Bindings.find?_insert]
    · simp [inside]
  · simp [here]

@[simp] theorem size_bind (s : Store) (scope : ScopeId) (name : String) (value : Value) :
    (s.bind scope name value).scopes.size = s.scopes.size := by
  simp [bind]

theorem lookup?_outside {s : Store} {scope : ScopeId} (outside : s.scopes.size ≤ scope) (name : String) :
    s.lookup? scope name = none := by
  simp [lookup?, Array.getElem?_eq_none outside, Bindings.find?]

@[simp] theorem lookup?_childOf (s : Store) (enclosing : Environment) (scope : ScopeId) (name : String) :
    (s.childOf enclosing).2.lookup? scope name = s.lookup? scope name := by
  unfold childOf lookup?
  dsimp only
  rw [Array.getElem?_push]
  split
  · rename_i new
    simp [new, Bindings.find?]
  · rfl

@[simp] theorem size_childOf (s : Store) (enclosing : Environment) :
    (s.childOf enclosing).2.scopes.size = s.scopes.size + 1 := by
  simp [childOf]

theorem lookup?_childWith (s : Store) (enclosing : Environment) (name : String) (value : Value) (scope : ScopeId)
    (other : String) :
    ((s.childOf enclosing).2.bind s.scopes.size name value).lookup? scope other =
      if s.scopes.size = scope ∧ name = other then some value else s.lookup? scope other := by
  rw [lookup?_bind, lookup?_childOf]
  simp

/-- How a store can change. Only the free scope, if there is one, may get new names. -/
structure Grows (free : Option ScopeId) (s s' : Store) : Prop where
  size : s.scopes.size ≤ s'.scopes.size
  bound : ∀ scope name, (s.lookup? scope name).isSome = true → (s'.lookup? scope name).isSome = true
  reserved : ∀ scope < s.scopes.size, ∀ name ∈ Scope.reserved, s'.lookup? scope name = s.lookup? scope name
  framed : ∀ scope < s.scopes.size, free ≠ some scope → ∀ name, s.lookup? scope name = none →
    s'.lookup? scope name = none

namespace Grows

variable {free : Option ScopeId} {s s' s'' : Store}

theorem refl (free : Option ScopeId) (s : Store) : Grows free s s :=
  ⟨Nat.le_refl _, fun _ _ => id, fun _ _ _ _ => rfl, fun _ _ _ _ => id⟩

theorem trans (first : Grows free s s') (second : Grows free s' s'') : Grows free s s'' := by
  refine ⟨Nat.le_trans first.size second.size, ?_, ?_, ?_⟩
  · exact fun scope name bound => second.bound scope name (first.bound scope name bound)
  · intro scope inside name member
    rw [second.reserved scope (Nat.lt_of_lt_of_le inside first.size) name member, first.reserved scope inside name member]
  · intro scope inside other name absent
    exact second.framed scope (Nat.lt_of_lt_of_le inside first.size) other name (first.framed scope inside other name absent)

theorem weaken (grows : Grows none s s') : Grows free s s' :=
  ⟨grows.size, grows.bound, grows.reserved, fun scope inside _ => grows.framed scope inside (by simp)⟩

theorem of_lookup (size : s.scopes.size ≤ s'.scopes.size)
    (same : ∀ scope < s.scopes.size, ∀ name, s'.lookup? scope name = s.lookup? scope name) : Grows free s s' := by
  refine ⟨size, fun scope name bound => ?_, fun scope inside name _ => same scope inside name,
    fun scope inside _ name absent => (same scope inside name).trans absent⟩
  by_cases inside : scope < s.scopes.size
  · rw [same scope inside name]
    exact bound
  · rw [lookup?_outside (Nat.not_lt.mp inside)] at bound
    cases bound

theorem inside {scope : ScopeId} (first : Grows none s s') (second : Grows (some scope) s' s'')
    (new : s.scopes.size ≤ scope) : Grows none s s'' := by
  refine ⟨Nat.le_trans first.size second.size, ?_, ?_, ?_⟩
  · exact fun scope name bound => second.bound scope name (first.bound scope name bound)
  · intro scope inside name member
    rw [second.reserved scope (Nat.lt_of_lt_of_le inside first.size) name member, first.reserved scope inside name member]
  · intro other inside _ name absent
    have older : some scope ≠ some other := by
      rintro ⟨⟩
      exact absurd inside (Nat.not_lt.mpr new)
    exact second.framed other (Nat.lt_of_lt_of_le inside first.size) older name
      (first.framed other inside (by simp) name absent)

theorem define {scope : ScopeId} {name : String} (ordinary : name ∉ Scope.reserved) (value : Value) :
    Grows (some scope) s (s.bind scope name value) := by
  refine ⟨by simp, fun other otherName bound => ?_, fun other inside otherName member => ?_, ?_⟩
  · rw [lookup?_bind]
    split
    · rfl
    · exact bound
  · have different : name ≠ otherName := fun same => ordinary (same ▸ member)
    rw [lookup?_bind, if_neg (by simp [different])]
  · intro other inside different otherName absent
    have elsewhere : scope ≠ other := fun same => different (same ▸ rfl)
    rw [lookup?_bind, if_neg (by simp [elsewhere])]
    exact absent

theorem assign {scope : ScopeId} {name : String} (ordinary : name ∉ Scope.reserved) (value : Value)
    (bound : (s.lookup? scope name).isSome = true) : Grows none s (s.bind scope name value) := by
  have defined : Grows (some scope) s (s.bind scope name value) := define ordinary value
  refine ⟨defined.size, defined.bound, defined.reserved, fun other inside _ otherName absent => ?_⟩
  rw [lookup?_bind]
  split
  · rename_i here
    obtain ⟨rfl, rfl, -⟩ := here
    rw [absent] at bound
    cases bound
  · exact absent

theorem childOf (enclosing : Environment) : Grows free s (s.childOf enclosing).2 :=
  of_lookup (by simp) fun scope _ name => by simp

theorem childWith (enclosing : Environment) (name : String) (value : Value) :
    Grows free s ((s.childOf enclosing).2.bind s.scopes.size name value) := by
  refine of_lookup (by simp) fun scope inside other => ?_
  rw [lookup?_childWith, if_neg (by omega)]

end Grows

structure Holds (s : Store) (scope : ScopeId) (names : Scope.Names) : Prop where
  inside : scope < s.scopes.size
  bound : ∀ name, names.find? name = some true → (s.lookup? scope name).isSome = true
  this : names.contains "this" = true → ∃ object of, s.lookup? scope "this" = some (.instance_ object of)
  super : names.contains "super" = true → ∃ c, s.lookup? scope "super" = some (.class_ c)

theorem Holds.grow {free : Option ScopeId} {s s' : Store} {scope : ScopeId} {names : Scope.Names}
    (holds : s.Holds scope names) (grows : s.Grows free s') : s'.Holds scope names := by
  refine ⟨Nat.lt_of_lt_of_le holds.inside grows.size, ?_, fun held => ?_, fun held => ?_⟩
  · exact fun name declared => grows.bound scope name (holds.bound name declared)
  · rw [grows.reserved scope holds.inside "this" (by decide)]
    exact holds.this held
  · rw [grows.reserved scope holds.inside "super" (by decide)]
    exact holds.super held

theorem Holds.childThis (s : Store) (enclosing : Environment) (object : Identity) (c : Class) :
    ((s.childOf enclosing).2.bind s.scopes.size "this" (.instance_ object c)).Holds s.scopes.size [("this", true)] := by
  refine ⟨by simp, fun name declared => ?_, fun _ => ⟨object, c, ?_⟩, fun held => ?_⟩
  · have this : "this" = name := Decidable.byContradiction fun other => by simp [Bindings.find?, other] at declared
    rw [lookup?_childWith, if_pos ⟨rfl, this⟩]
    rfl
  · rw [lookup?_childWith, if_pos ⟨rfl, rfl⟩]
  · simp [Bindings.contains, Bindings.find?] at held

theorem Holds.childSuper (s : Store) (enclosing : Environment) (c : Class) :
    ((s.childOf enclosing).2.bind s.scopes.size "super" (.class_ c)).Holds s.scopes.size [("super", true)] := by
  refine ⟨by simp, fun name declared => ?_, fun held => ?_, fun _ => ⟨c, ?_⟩⟩
  · have super : "super" = name := Decidable.byContradiction fun other => by simp [Bindings.find?, other] at declared
    rw [lookup?_childWith, if_pos ⟨rfl, super⟩]
    rfl
  · simp [Bindings.contains, Bindings.find?] at held
  · rw [lookup?_childWith, if_pos ⟨rfl, rfl⟩]

/-- A chain of environments matches the scopes of the walk one by one, and behind them come the globals. -/
def Fits (s : Store) (globals : Environment) : Environment → List Scope.Names → Prop
  | environment, [] => environment = globals
  | .child scope enclosing, names :: outer => s.Holds scope names ∧ s.Fits globals enclosing outer
  | .root _, _ :: _ => False

namespace Fits

variable {s s' : Store} {globals environment : Environment} {scopes : List Scope.Names} {names : Scope.Names}
  {outer : List Scope.Names}

theorem grow {free : Option ScopeId} (fits : s.Fits globals environment scopes) (grows : s.Grows free s') :
    s'.Fits globals environment scopes := by
  induction scopes generalizing environment with
  | nil =>
    cases environment <;> exact fits
  | cons names outer ih =>
    cases environment with
    | root scope => exact fits
    | child scope enclosing => exact ⟨fits.1.grow grows, ih fits.2⟩

theorem nil_iff : s.Fits globals environment [] ↔ environment = globals := by
  cases environment <;> exact Iff.rfl

theorem cons_iff : s.Fits globals environment (names :: outer) ↔
    ∃ scope enclosing, environment = .child scope enclosing ∧ s.Holds scope names ∧
      s.Fits globals enclosing outer := by
  cases environment with
  | root scope => simp [Fits]
  | child scope enclosing =>
    constructor
    · rintro ⟨holds, rest⟩
      exact ⟨scope, enclosing, rfl, holds, rest⟩
    · rintro ⟨_, _, ⟨⟩, holds, rest⟩
      exact ⟨holds, rest⟩

theorem holds (fits : s.Fits globals environment (names :: outer)) : s.Holds environment.scope names := by
  obtain ⟨scope, enclosing, rfl, holds, -⟩ := cons_iff.mp fits
  exact holds

theorem ancestor {distance : Nat} (fits : s.Fits globals environment scopes)
    (place : scopes[distance]? = some names) :
    ∃ target, environment.ancestor? distance = some target ∧ s.Holds target.scope names := by
  induction scopes generalizing environment distance with
  | nil => simp at place
  | cons innermost outer ih =>
    obtain ⟨scope, enclosing, rfl, holds, rest⟩ := cons_iff.mp fits
    cases distance with
    | zero =>
      cases place
      exact ⟨_, rfl, holds⟩
    | succ distance =>
      obtain ⟨target, out, holds⟩ := ih rest place
      exact ⟨target, out, holds⟩

theorem globals_behind (fits : s.Fits globals environment scopes) :
    environment.ancestor? scopes.length = some globals := by
  induction scopes generalizing environment with
  | nil =>
    rw [nil_iff.mp fits]
    cases globals <;> rfl
  | cons innermost outer ih =>
    obtain ⟨scope, enclosing, rfl, -, rest⟩ := cons_iff.mp fits
    exact ih rest

theorem length (fits : s.Fits globals environment scopes) :
    environment.scopes.length = scopes.length + globals.scopes.length := by
  induction scopes generalizing environment with
  | nil =>
    rw [nil_iff.mp fits]
    simp
  | cons innermost outer ih =>
    obtain ⟨scope, enclosing, rfl, -, rest⟩ := cons_iff.mp fits
    simp only [Environment.scopes, List.length_cons, ih rest]
    omega

theorem getAt {distance : Nat} {name : String} (fits : s.Fits globals environment scopes)
    (place : scopes[distance]? = some names) (declared : names.find? name = some true) :
    ∃ target value, environment.ancestor? distance = some target ∧ s.lookup? target.scope name = some value ∧
      s.getAt environment distance name = .ok value := by
  obtain ⟨target, out, holds⟩ := fits.ancestor place
  obtain ⟨value, found⟩ := Option.isSome_iff_exists.mp (holds.bound name declared)
  exact ⟨target, value, out, found, by simp [Store.getAt, Store.ancestor, out, found]⟩

end Fits
end Store
end Lox
