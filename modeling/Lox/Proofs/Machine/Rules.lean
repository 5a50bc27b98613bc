import Lox.Proofs.Machine.Soundness

namespace Lox

/-- The activity has the value for a variable that is still in its own declaration. -/
inductive Setting.Premature (world : Setting) : Activity → Breach → Prop where
  | intro {n : Nat} {id : NodeId} {name : Token} {value : Expr} {x : Value} {m m₁ : Machine} {context : Scope.Context}
      {w : Scope.Walk} (visited : world.known ⟨context, .expr (.assign id name value), w⟩)
      (initializing : w.isInitializing name = true)
      (valued : value.evaluate (Closure.invoke n) m = .value x m₁) :
      Premature world ⟨n, .expr (.assign id name value), m⟩ (.unbound name.lexeme 0)

def Setting.Excuses (world : Setting) (fault : Fault) : Prop :=
  ∀ breach, fault = .unexpected breach → ∃ a, world.active a ∧ world.Premature a breach

theorem Setting.excuses_of_ne {world : Setting} {fault : Fault} (ordinary : ∀ breach, fault ≠ .unexpected breach) :
    world.Excuses fault := fun breach same => absurd same (ordinary breach)

namespace Machine

structure Kept (free : Option ScopeId) (m m' : Machine) : Prop where
  environment : m'.environment = m.environment
  store : m.store.Grows free m'.store

/-- The environments match the scopes of the walk, and the innermost one binds no more than is declared for good. -/
structure Matches (world : Setting) (m : Machine) (scopes : List Scope.Names) : Prop where
  fits : m.store.Fits world.globals m.environment scopes
  tight : ∀ names outer, scopes = names :: outer → ∀ name, names.find? name ≠ some true →
    m.store.lookup? m.environment.scope name = none

namespace Kept

variable {free : Option ScopeId} {m m' m'' : Machine}

theorem refl (free : Option ScopeId) (m : Machine) : Kept free m m := ⟨rfl, .refl ..⟩

theorem trans (first : Kept free m m') (second : Kept free m' m'') : Kept free m m'' :=
  ⟨second.environment.trans first.environment, first.store.trans second.store⟩

theorem weaken (kept : Kept none m m') : Kept free m m' := ⟨kept.environment, kept.store.weaken⟩

end Kept

variable {world : Setting} {m m' : Machine} {scopes : List Scope.Names}

theorem Matches.kept (fit : m.Matches world scopes) (kept : Kept none m m') : m'.Matches world scopes := by
  refine ⟨?_, fun names outer same name undeclared => ?_⟩
  · rw [kept.environment]
    exact fit.fits.grow kept.store
  · subst same
    have inside := fit.fits.holds.inside
    rw [kept.environment]
    exact kept.store.framed _ inside (by simp) name (fit.tight names outer rfl name undeclared)

theorem matches_top (top : scopes = []) (here : m.environment = world.globals) : m.Matches world scopes := by
  subst top
  exact ⟨Store.Fits.nil_iff.mpr here, fun _ _ same => by cases same⟩

theorem matches_inside {enclosing : Environment} (fits : m.store.Fits world.globals enclosing scopes) :
    (m.inside enclosing).Matches world ([] :: scopes) := by
  refine ⟨⟨⟨?_, ?_, ?_, ?_⟩, fits.grow (Store.Grows.childOf enclosing : m.store.Grows none _)⟩, ?_⟩
  · show m.store.scopes.size < (m.store.childOf enclosing).2.scopes.size
    simp
  · intro name declared
    simp [Bindings.find?] at declared
  · intro held
    simp [Bindings.contains, Bindings.find?] at held
  · intro held
    simp [Bindings.contains, Bindings.find?] at held
  · intro names outer same name _
    show (m.store.childOf enclosing).2.lookup? m.store.scopes.size name = none
    rw [Store.lookup?_childOf, Store.lookup?_outside (Nat.le_refl _)]

theorem Matches.define {name : String} (fit : m.Matches world scopes) (ordinary : name ∉ Scope.reserved) (value : Value) :
    ({ m with store := m.store.define m.environment name value } : Machine).Matches world
      (Scope.bindInnermost name scopes) := by
  have grows : m.store.Grows (some m.environment.scope) (m.store.define m.environment name value) := .define ordinary value
  have this : name ≠ "this" := fun same => ordinary (by simp [Scope.reserved, same])
  have super : name ≠ "super" := fun same => ordinary (by simp [Scope.reserved, same])
  cases scopes with
  | nil => exact ⟨Store.Fits.nil_iff.mpr (Store.Fits.nil_iff.mp fit.fits), fun names outer same => by cases same⟩
  | cons names outer =>
    obtain ⟨scope, enclosing, here, holds, rest⟩ := Store.Fits.cons_iff.mp fit.fits
    have lookup : ∀ other, (m.store.define m.environment name value).lookup? scope other =
        if name = other then some value else m.store.lookup? scope other := by
      intro other
      rw [here, Store.define, Environment.scope, Store.lookup?_bind]
      simp [holds.inside]
    refine ⟨Store.Fits.cons_iff.mpr ⟨scope, enclosing, here, ⟨(holds.grow grows).inside, ?_, ?_, ?_⟩, rest.grow grows⟩, ?_⟩
    · intro other declared
      rw [Scope.Names.find?_bind] at declared
      rw [lookup]
      split
      · rfl
      · rename_i different
        rw [if_neg different] at declared
        exact holds.bound other declared
    · intro held
      rw [Bindings.contains, Scope.Names.find?_bind, if_neg this] at held
      exact (holds.grow grows).this held
    · intro held
      rw [Bindings.contains, Scope.Names.find?_bind, if_neg super] at held
      exact (holds.grow grows).super held
    · rintro _ _ ⟨⟩ other undeclared
      rw [Scope.Names.find?_bind] at undeclared
      have absent := fit.tight names outer rfl other
      dsimp only
      rw [here] at absent ⊢
      rw [Environment.scope, ← here, lookup]
      split
      · rename_i same
        simp [same] at undeclared
      · rename_i different
        rw [if_neg different] at undeclared
        exact absent undeclared

theorem Matches.declare {w : Scope.Walk} {name : Token} (fit : m.Matches world w.scopes)
    (ordinary : name.lexeme ∉ Scope.reserved)
    (new : ∀ names outer, w.scopes = names :: outer → names.contains name.lexeme = false) :
    m.Matches world (w.declare name).scopes := by
  have this : name.lexeme ≠ "this" := fun same => ordinary (by simp [Scope.reserved, same])
  have super : name.lexeme ≠ "super" := fun same => ordinary (by simp [Scope.reserved, same])
  rw [Scope.Walk.scopes_declare]
  cases scopes : w.scopes with
  | nil =>
    rw [scopes] at fit
    exact fit
  | cons names outer =>
    rw [scopes] at fit
    have fresh := new names outer scopes
    dsimp only
    rw [if_neg (by simp [fresh])]
    obtain ⟨scope, enclosing, here, holds, rest⟩ := Store.Fits.cons_iff.mp fit.fits
    refine ⟨Store.Fits.cons_iff.mpr ⟨scope, enclosing, here, ⟨holds.inside, ?_, ?_, ?_⟩, rest⟩, ?_⟩
    · intro other declared
      rw [Bindings.find?_insert] at declared
      split at declared
      · cases declared
      · exact holds.bound other declared
    · intro held
      rw [Bindings.contains, Bindings.find?_insert, if_neg this] at held
      exact holds.this held
    · intro held
      rw [Bindings.contains, Bindings.find?_insert, if_neg super] at held
      exact holds.super held
    · rintro _ _ ⟨⟩ other undeclared
      refine fit.tight names outer rfl other fun declared => undeclared ?_
      have different : name.lexeme ≠ other := by
        rintro rfl
        simp [Bindings.contains, declared] at fresh
      rw [Bindings.find?_insert, if_neg different]
      exact declared

theorem Sound.onStore {s : Store} {free : Option ScopeId} (sound : m.Sound world) (grows : m.store.Grows free s)
    (store : s.Sound world) : ({ m with store := s } : Machine).Sound world := by
  obtain ⟨scope, root, inside⟩ := sound.root
  exact ⟨sound.globals, sound.distances, ⟨scope, root, Nat.lt_of_lt_of_le inside grows.size⟩, store⟩

theorem Sound.inEnvironment (sound : m.Sound world) (environment : Environment) :
    ({ m with environment := environment } : Machine).Sound world :=
  ⟨sound.globals, sound.distances, sound.root, sound.store⟩

theorem Sound.atDepth (sound : m.Sound world) (depth : Nat) : ({ m with depth := depth } : Machine).Sound world :=
  ⟨sound.globals, sound.distances, sound.root, sound.store⟩

theorem Sound.scope_inside (sound : m.Sound world) (fit : m.Matches world scopes) :
    m.environment.scope < m.store.scopes.size := by
  cases scopes with
  | cons names outer => exact fit.fits.holds.inside
  | nil =>
    obtain ⟨scope, root, inside⟩ := sound.root
    rw [Store.Fits.nil_iff.mp fit.fits, root]
    exact inside

theorem Sound.inside (sound : m.Sound world) (enclosing : Environment) : (m.inside enclosing).Sound world :=
  (sound.onStore (Store.Grows.childOf enclosing : m.store.Grows none _) (sound.store.childOf enclosing)).inEnvironment _

end Machine

namespace Run

variable {α β : Type} {world : Setting} {free : Option ScopeId} {m : Machine} {Post : α → Machine → Prop}
  {Post' : β → Machine → Prop}

/-- The action keeps to what a sound machine may do, and `Post` holds of its result. -/
def Ensures (world : Setting) (free : Option ScopeId) (action : Run α) (m : Machine) (Post : α → Machine → Prop) : Prop :=
  match action m with
  | .value result m' => m.Kept free m' ∧ m'.Sound world ∧ Post result m'
  | .fault fault m' => m.Kept free m' ∧ m'.Sound world ∧ world.Excuses fault
  | .outOfFuel => True

namespace Ensures

theorem of_value {action : Run α} {result : α} {m' : Machine} (ensures : action.Ensures world free m Post)
    (done : action m = .value result m') : m.Kept free m' ∧ m'.Sound world ∧ Post result m' := by
  unfold Ensures at ensures
  rw [done] at ensures
  exact ensures

theorem of_fault {action : Run α} {fault : Fault} {m' : Machine} (ensures : action.Ensures world free m Post)
    (failed : action m = .fault fault m') : m.Kept free m' ∧ m'.Sound world ∧ world.Excuses fault := by
  unfold Ensures at ensures
  rw [failed] at ensures
  exact ensures

theorem mono {Post₂ : α → Machine → Prop} {action : Run α} (ensures : action.Ensures world free m Post)
    (weaker : ∀ result m', m.Kept free m' → m'.Sound world → Post result m' → Post₂ result m') :
    action.Ensures world free m Post₂ := by
  unfold Ensures at ensures ⊢
  split
  · rename_i done
    rw [done] at ensures
    obtain ⟨kept, sound, post⟩ := ensures
    exact ⟨kept, sound, weaker _ _ kept sound post⟩
  · rename_i failed
    rw [failed] at ensures
    exact ensures
  · trivial

theorem weaken {action : Run α} (ensures : action.Ensures world none m Post) : action.Ensures world free m Post := by
  unfold Ensures at ensures ⊢
  split
  · rename_i done
    rw [done] at ensures
    exact ⟨ensures.1.weaken, ensures.2⟩
  · rename_i failed
    rw [failed] at ensures
    exact ⟨ensures.1.weaken, ensures.2⟩
  · trivial

theorem pure {result : α} (sound : m.Sound world) (post : Post result m) :
    (Pure.pure result : Run α).Ensures world free m Post := ⟨.refl .., sound, post⟩

/-- A first step is done, and what is left keeps to the rules. It may have a scope of its own to fill, as long as that
    does not show from before the step. -/
theorem after {action action' : Run α} {free' : Option ScopeId} {m' : Machine}
    (rest : action'.Ensures world free' m' Post) (same : action m = action' m')
    (joined : ∀ m'', m'.Kept free' m'' → m.Kept free m'') : action.Ensures world free m Post := by
  unfold Ensures at rest ⊢
  rw [same]
  split
  · rename_i done
    rw [done] at rest
    exact ⟨joined _ rest.1, rest.2⟩
  · rename_i failed
    rw [failed] at rest
    exact ⟨joined _ rest.1, rest.2⟩
  · trivial

theorem bindIn {action : Run α} {next : α → Run β} (first : action.Ensures world free m Post)
    (second : ∀ result m', action m = .value result m' → m.Kept free m' → m'.Sound world → Post result m' →
      ∃ free', (∀ m'', m'.Kept free' m'' → m.Kept free m'') ∧ (next result).Ensures world free' m' Post') :
    (action >>= next).Ensures world free m Post' := by
  unfold Ensures at first
  split at first
  · rename_i result m' done
    obtain ⟨kept, sound, post⟩ := first
    obtain ⟨free', joined, rest⟩ := second result m' done kept sound post
    exact rest.after (bind_value done) joined
  · rename_i failed
    unfold Ensures
    rw [bind_fault failed]
    exact first
  · rename_i exhausted
    unfold Ensures
    rw [bind_outOfFuel exhausted]
    trivial

theorem bind {action : Run α} {next : α → Run β} (first : action.Ensures world free m Post)
    (second : ∀ result m', action m = .value result m' → m.Kept free m' → m'.Sound world → Post result m' →
      (next result).Ensures world free m' Post') : (action >>= next).Ensures world free m Post' :=
  bindIn first fun result m' done kept sound post => ⟨free, fun _ => kept.trans, second result m' done kept sound post⟩

theorem bindFramed {action : Run α} {next : α → Run β} (first : action.Ensures world none m Post)
    (second : ∀ result m', action m = .value result m' → m.Kept none m' → m'.Sound world → Post result m' →
      (next result).Ensures world free m' Post') : (action >>= next).Ensures world free m Post' := by
  have framed : action.Ensures world free m fun result m' => m.Kept none m' ∧ Post result m' :=
    (first.mono fun _ _ kept _ post => ⟨kept, post⟩).weaken
  exact framed.bind fun result m' done _ sound post => second result m' done post.1 sound post.2

theorem bind_read {f : Machine → α} {next : α → Run β} (rest : (next (f m)).Ensures world free m Post') :
    (Run.read f >>= next).Ensures world free m Post' := rest

theorem fail {fault : Fault} (sound : m.Sound world) (excused : world.Excuses fault) :
    (Run.fail fault : Run α).Ensures world free m Post := ⟨.refl .., sound, excused⟩

theorem tryRead {f : Machine → Except Fault α} (sound : m.Sound world) (read : ∀ result, f m = .ok result → Post result m)
    (failed : ∀ fault, f m = .error fault → world.Excuses fault) : (Run.tryRead f).Ensures world free m Post := by
  unfold Ensures Run.tryRead
  cases found : f m with
  | ok result => exact ⟨.refl .., sound, read result found⟩
  | error fault => exact ⟨.refl .., sound, failed fault found⟩

theorem onStore {f : Store → α × Store} (sound : m.Sound world) (grows : m.store.Grows free (f m.store).2)
    (store : (f m.store).2.Sound world) (post : Post (f m.store).1 { m with store := (f m.store).2 }) :
    (Run.onStore f).Ensures world free m Post := ⟨⟨rfl, grows⟩, sound.onStore grows store, post⟩

theorem modify {f : Machine → Machine} {Post : Unit → Machine → Prop} (kept : m.Kept free (f m))
    (sound : (f m).Sound world) (post : Post () (f m)) : (Run.modify f).Ensures world free m Post :=
  ⟨kept, sound, post⟩

theorem readClock (sound : m.Sound world) : Run.readClock.Ensures world free m fun _ _ => True :=
  ⟨⟨rfl, .refl ..⟩, ⟨sound.globals, sound.distances, sound.root, sound.store⟩, trivial⟩

theorem assignIn {find : Machine → Except Fault ScopeId} {name : String} {value : Value} (sound : m.Sound world)
    (ordinary : name ∉ Scope.reserved) (new : value.Sound world m.store)
    (located : ∀ scope, find m = .ok scope → (m.store.lookup? scope name).isSome = true)
    (failed : ∀ fault, find m = .error fault → world.Excuses fault) :
    (Run.assignIn find name value).Ensures world none m fun _ _ => True := by
  have read : (Run.tryRead find).Ensures world none m fun scope m' =>
      m' = m ∧ (m.store.lookup? scope name).isSome = true :=
    tryRead sound (fun scope found => ⟨rfl, located scope found⟩) failed
  refine bind read ?_
  rintro scope _ - - - ⟨rfl, bound⟩
  have grows := Store.Grows.assign ordinary value bound
  exact onStore sound grows (sound.store.bind grows (new.grow grows)) trivial

theorem within {action : Run α} {environment : Environment} (ensures :
      action.Ensures world free { m with environment := environment } fun result m' =>
        Post result { m' with environment := m.environment }) :
    (Run.within environment action).Ensures world free m Post := by
  unfold Ensures at ensures ⊢
  unfold Run.within
  generalize action { m with environment := environment } = outcome at ensures ⊢
  cases outcome with
  | value _ m' | fault _ m' => exact ⟨⟨rfl, ensures.1.store⟩, ensures.2.1.inEnvironment _, ensures.2.2⟩
  | outOfFuel => trivial

theorem deeper {action : Run α} (ensures : action.Ensures world free m.deepened fun result m' =>
      Post result { m' with depth := m'.depth - 1 }) : (Run.deeper action).Ensures world free m Post := by
  unfold Ensures at ensures ⊢
  unfold Run.deeper
  rw [← Machine.deepened]
  generalize action m.deepened = outcome at ensures ⊢
  cases outcome with
  | value _ m' | fault _ m' => exact ⟨⟨ensures.1.environment, ensures.1.store⟩, ensures.2.1.atDepth _, ensures.2.2⟩
  | outOfFuel => trivial

end Ensures
end Run
end Lox
