import Lox.Proofs.Machine.Lookup

namespace Lox

theorem numbers_error {operator : Token} {left right : Value} {fault : Fault}
    (failed : numbers operator left right = .error fault) : fault = .typeMismatch operator .numbers := by
  unfold numbers at failed
  split at failed <;> cases failed
  rfl

theorem map_numbers_error {operator : Token} {left right : Value} {f : Number × Number → Value} {fault : Fault}
    (failed : (numbers operator left right).map f = .error fault) : ∃ demand, fault = .typeMismatch operator demand := by
  cases given : numbers operator left right with
  | ok pair =>
    rw [given] at failed
    cases failed
  | error fault' =>
    rw [given] at failed
    cases failed
    exact ⟨_, numbers_error given⟩

theorem applyBinary_error {operator : Token} {left right : Value} {fault : Fault}
    (legal : operator.kind ∈ binaryOperators) (failed : applyBinary operator left right = .error fault) :
    ∃ demand, fault = .typeMismatch operator demand := by
  unfold applyBinary at failed
  split at failed
  case h_1 =>
    split at failed <;> cases failed
    exact ⟨_, rfl⟩
  case h_9 | h_10 => cases failed
  case h_11 =>
    simp only [binaryOperators, List.mem_cons, List.not_mem_nil, or_false] at legal
    simp_all
  all_goals exact map_numbers_error failed

theorem applyUnary_error {operator : Token} {right : Value} {fault : Fault} (legal : operator.kind ∈ unaryOperators)
    (failed : applyUnary operator right = .error fault) : ∃ demand, fault = .typeMismatch operator demand := by
  unfold applyUnary at failed
  split at failed
  case h_1 => cases failed
  case h_2 =>
    split at failed <;> cases failed
    exact ⟨_, rfl⟩
  case h_3 =>
    simp only [unaryOperators, List.mem_cons, List.not_mem_nil, or_false] at legal
    simp_all

variable {world : Setting}

theorem applyBinary_sound {operator : Token} {left right x : Value} {s : Store}
    (done : applyBinary operator left right = .ok x) : x.Sound world s := by
  have arithmetic : ∀ f : Number × Number → Value, (∀ pair, (f pair).Sound world s) →
      (numbers operator left right).map f = .ok x → x.Sound world s := by
    intro f plain mapped
    cases given : numbers operator left right with
    | error fault =>
      rw [given] at mapped
      cases mapped
    | ok pair =>
      rw [given] at mapped
      cases mapped
      exact plain pair
  unfold applyBinary at done
  split at done
  case h_1 => split at done <;> cases done <;> trivial
  case h_9 | h_10 =>
    cases done
    trivial
  case h_11 => cases done
  all_goals
    refine arithmetic _ (fun pair => ?_) done
    trivial

theorem applyUnary_sound {operator : Token} {right x : Value} {s : Store}
    (done : applyUnary operator right = .ok x) : x.Sound world s := by
  unfold applyUnary at done
  split at done
  case h_1 =>
    cases done
    trivial
  case h_2 =>
    split at done
    · cases done
      trivial
    · cases done
  case h_3 => cases done

theorem Value.sound_ofConstant (constant : Constant) (s : Store) : (Value.ofConstant constant).Sound world s := by
  cases constant <;> trivial

namespace Run

variable {m : Machine}

theorem boundMethod_ensures {method : Closure} {object : Identity} {c : Class} (sound : m.Sound world)
    (fitting : method.SoundMethod world m.store) (of : c.Sound world m.store) :
    (boundMethod method object c).Ensures world none m fun x m' => x.Sound world m'.store := by
  obtain ⟨grows, store, bound⟩ := sound.store.bindMethod object fitting of
  have renumbered : ∀ s : Store, s.Grows none s.fresh.2 := fun s => .of_scopes rfl
  exact Ensures.onStore sound (grows.trans (renumbered _)) store.fresh (Closure.Sound.grow bound (renumbered _))

theorem property_ensures {object : Identity} {c : Class} {name : Token} (sound : m.Sound world)
    (of : c.Sound world m.store) :
    (property object c name).Ensures world none m fun x m' => x.Sound world m'.store := by
  refine Ensures.bind_read ?_
  split
  · rename_i value found
    exact .pure sound (sound.store.fields _ _ _ found)
  · split
    · rename_i method found
      exact boundMethod_ensures sound (of.findMethod found) of
    · exact .fail sound (Setting.excuses_of_ne (by simp))

theorem superMethod_ensures {context : Scope.Context} {w : Scope.Walk} {id : NodeId} {keyword method : Token}
    (visited : world.known ⟨context, .expr (.super_ id keyword method), w⟩) (sound : m.Sound world)
    (fits : m.store.Fits world.globals m.environment w.scopes) :
    (superMethod id method).Ensures world none m fun x m' => x.Sound world m'.store := by
  obtain ⟨superclass, object, c, found, above, of⟩ := Machine.lookUpSuper_of_visited visited sound fits
  have read : (tryRead (·.lookUpSuper id)).Ensures world none m fun start m' =>
      start = (superclass, object, c) ∧ m' = m := by
    refine Ensures.tryRead sound (fun start same => ⟨?_, rfl⟩) fun fault failed => ?_
    · rw [found] at same
      exact (Except.ok.inj same).symm
    · rw [found] at failed
      cases failed
  refine Ensures.bind read ?_
  rintro _ _ - - - ⟨rfl, rfl⟩
  dsimp only
  split
  · rename_i closure method
    exact boundMethod_ensures sound (above.findMethod method) of
  · exact .fail sound (Setting.excuses_of_ne (by simp))

theorem lookUp_ensures {id : NodeId} {name : Token} (sound : m.Sound world)
    (outcome : (∃ value, m.lookUp id name = .ok value ∧ value.Sound world m.store) ∨
      m.distances[id]? = none ∧ m.lookUp id name = .error (.undefinedVariable name)) :
    (tryRead (·.lookUp id name)).Ensures world none m fun x m' => x.Sound world m'.store := by
  refine Ensures.tryRead sound (fun x found => ?_) fun fault failed => ?_
  · rcases outcome with ⟨value, read, of⟩ | ⟨-, missing⟩
    · rw [read] at found
      cases found
      exact of
    · rw [missing] at found
      cases found
  · rcases outcome with ⟨value, read, -⟩ | ⟨-, missing⟩
    · rw [read] at failed
      cases failed
    · rw [missing] at failed
      cases failed
      exact Setting.excuses_of_ne (by simp)

def CallsEnsured (world : Setting) (n : Nat) : Prop :=
  ∀ (f : Closure) (xs : List Value) (m : Machine), world.active ⟨n, .invoke f xs, m⟩ → m.Sound world →
    f.Sound world m.store → (∀ x ∈ xs, x.Sound world m.store) → xs.length = f.arity →
    (Closure.invoke n f xs).Ensures world none m fun x m' => x.Sound world m'.store

theorem nested_ensures {paren : Token} {action : Run Value} (sound : m.Sound world)
    (ensures : m.depth < maxCallDepth →
      action.Ensures world none m.deepened fun x m' => x.Sound world m'.store) :
    (nested paren action).Ensures world none m fun x m' => x.Sound world m'.store := by
  refine Ensures.bind_read ?_
  split
  · exact .fail sound (Setting.excuses_of_ne (by simp))
  · rename_i shallow
    exact (ensures (Nat.not_le.mp shallow)).deeper

theorem construct_sound {initializer : Closure} {c : Class} (sound : m.Sound world)
    (found : c.initializer? = some initializer) (of : c.Sound world m.store) :
    m.store.Grows none (m.store.construct initializer c).2 ∧ (m.store.construct initializer c).2.Sound world ∧
      (m.store.construct initializer c).1.Sound world (m.store.construct initializer c).2 := by
  have made : m.store.Grows none m.store.instantiate.2 := .of_scopes rfl
  have initial := (Class.Sound.findMethod of found).grow made
  obtain ⟨grows, store, bound⟩ := sound.store.instantiate.bindMethod m.store.instantiate.1 initial (of.grow made)
  exact ⟨made.trans grows, store, bound⟩

theorem instantiate_ensures {n : Nat} {c : Class} {xs : List Value} (calls : CallsEnsured world n) (sound : m.Sound world)
    (of : c.Sound world m.store) (given : ∀ x ∈ xs, x.Sound world m.store) (fitting : xs.length = c.arity)
    (reached : ∀ initializer, c.initializer? = some initializer →
      world.active ⟨n, .invoke (m.store.construct initializer c).1 xs,
        { m with store := (m.store.construct initializer c).2 }⟩) :
    (instantiate (Closure.invoke n) c xs).Ensures world none m fun x m' => x.Sound world m'.store := by
  cases found : c.initializer? with
  | none =>
    have made : m.store.Grows none m.store.instantiate.2 := .of_scopes rfl
    have same : instantiate (Closure.invoke n) c xs m =
        Run.pure (.instance_ m.store.instantiate.1 c) { m with store := m.store.instantiate.2 } := by
      unfold instantiate
      rw [found]
      rfl
    refine Ensures.after ?_ same fun _ kept => ⟨kept.environment, made.trans kept.store⟩
    exact Ensures.pure (sound.onStore made sound.store.instantiate) (Class.Sound.grow of made)
  | some initializer =>
    obtain ⟨grows, store, bound⟩ := construct_sound sound found of
    have arity : xs.length = (m.store.construct initializer c).1.arity := by
      rw [fitting, Class.arity, found]
      rfl
    have body := calls _ xs _ (reached initializer found) (sound.onStore grows store) bound
      (fun x member => (given x member).grow grows) arity
    refine Ensures.after ?_ (instantiate_some found) fun _ kept => ⟨kept.environment, grows.trans kept.store⟩
    exact body.bind fun _ m' _ kept sound' _ => .pure sound' (Class.Sound.grow of (grows.trans kept.store))

theorem call_ensures {n : Nat} {x : Value} {xs : List Value} {paren : Token} (calls : CallsEnsured world n)
    (sound : m.Sound world) (callee : x.Sound world m.store) (given : ∀ x ∈ xs, x.Sound world m.store)
    (reached : ∀ f m', x.Calls xs m f m' → world.active ⟨n, .invoke f xs, m'⟩) :
    (call (Closure.invoke n) x paren xs).Ensures world none m fun y m' => y.Sound world m'.store := by
  unfold call
  split
  · exact .fail sound (Setting.excuses_of_ne (by simp))
  · rename_i arity takes
    split
    · exact .fail sound (Setting.excuses_of_ne (by simp))
    · rename_i fitting
      have fits : xs.length = arity := Decidable.not_not.mp fitting
      split
      · exact (Ensures.readClock sound).bind fun _ m' _ _ sound' _ => .pure sound' trivial
      · rename_i identity f
        cases takes
        refine nested_ensures sound fun shallow => ?_
        exact calls f xs m.deepened (reached f _ (.function fits shallow)) (sound.atDepth _) callee given fits
      · rename_i c
        cases takes
        refine nested_ensures sound fun shallow => ?_
        exact instantiate_ensures calls (sound.atDepth _) callee given fits fun initializer found =>
          reached _ _ (.class_ fits shallow found)
      · exact .fail sound (Setting.excuses_of_ne (by simp))

end Run

section

variable {n : Nat}

mutual

theorem Expr.evaluate_ensures (calls : Run.CallsEnsured world n) : ∀ (e : Expr) {context : Scope.Context}
    {w : Scope.Walk} {m : Machine}, world.known ⟨context, .expr e, w⟩ → world.active ⟨n, .expr e, m⟩ → m.Sound world →
    m.Matches world w.scopes →
    (e.evaluate (Closure.invoke n)).Ensures world none m fun x m' => x.Sound world m'.store
  | .assign id name value, context, w, m, visited, active, sound, fit => by
    rw [Expr.evaluate]
    have assigned := evaluate_ensures calls value (world.enters visited .assigned) (world.spawns active .assigned) sound fit
    refine assigned.bind fun x m₁ done kept sound₁ new => ?_
    have outcome := Machine.locate_assign visited sound₁ (fit.kept kept)
    have ordinary : name.lexeme ∉ Scope.reserved := by
      cases (world.resolved visited).legal with
      | assign named _ => exact Scope.lexeme_not_reserved named
    refine (Run.Ensures.assignIn sound₁ ordinary new ?_ ?_).bind fun _ m₂ _ kept₂ sound₂ _ =>
      .pure sound₂ (new.grow kept₂.store)
    · intro scope found
      rcases outcome with ⟨-, scope', located, bound⟩ | ⟨-, failed⟩ | ⟨-, failed⟩
      · rw [located] at found
        cases found
        exact bound
      · rw [failed] at found
        cases found
      · rw [failed] at found
        cases found
    · intro fault failing
      rcases outcome with ⟨-, scope', located, -⟩ | ⟨-, failed⟩ | ⟨initializing, failed⟩
      · rw [located] at failing
        cases failing
      · rw [failed] at failing
        cases failing
        exact Setting.excuses_of_ne (by simp)
      · rw [failed] at failing
        cases failing
        rintro _ ⟨⟩
        exact ⟨_, active, .intro visited initializing done⟩
  | .binary left operator right, context, w, m, visited, active, sound, fit => by
    rw [Expr.evaluate]
    have sign : operator.kind ∈ binaryOperators := by
      cases (world.resolved visited).legal with
      | binary sign _ _ => exact sign.kind
    have first :=
      evaluate_ensures calls left (world.enters visited .leftOperand) (world.spawns active .leftOperand) sound fit
    refine first.bind fun x m₁ done kept sound₁ _ => ?_
    have second := evaluate_ensures calls right (world.enters visited .rightOperand)
      (world.spawns active (.rightOperand done)) sound₁ (by rw [Scope.scopes_walkExpr]; exact fit.kept kept)
    refine second.bind fun y m₂ _ _ sound₂ _ => ?_
    refine .tryRead sound₂ (fun z result => applyBinary_sound result) fun fault failed => ?_
    obtain ⟨demand, rfl⟩ := applyBinary_error sign failed
    exact Setting.excuses_of_ne (by simp)
  | .call callee paren arguments, context, w, m, visited, active, sound, fit => by
    rw [Expr.evaluate]
    have first := evaluate_ensures calls callee (world.enters visited .callee) (world.spawns active .callee) sound fit
    refine first.bind fun x m₁ done kept sound₁ called => ?_
    have second := evaluateAll_ensures calls arguments (world.enters visited .arguments)
      (world.spawns active (.arguments done)) sound₁ (by rw [Scope.scopes_walkExpr]; exact fit.kept kept)
    refine second.bind fun xs m₂ given kept₂ sound₂ values => ?_
    exact Run.call_ensures calls sound₂ (called.grow kept₂.store) values fun f m₃ reached =>
      world.spawns active (.call done given reached)
  | .get object name, context, w, m, visited, active, sound, fit => by
    rw [Expr.evaluate]
    have owner := evaluate_ensures calls object (world.enters visited .owner) (world.spawns active .owner) sound fit
    refine owner.bind fun x m₁ _ _ sound₁ found => ?_
    split
    · exact Run.property_ensures sound₁ found
    · exact .fail sound₁ (Setting.excuses_of_ne (by simp))
  | .grouping inner, context, w, m, visited, active, sound, fit => by
    rw [Expr.evaluate]
    exact evaluate_ensures calls inner (world.enters visited .grouped) (world.spawns active .grouped) sound fit
  | .constant value, context, w, m, visited, active, sound, fit => by
    rw [Expr.evaluate]
    exact .pure sound (Value.sound_ofConstant ..)
  | .logical left operator right, context, w, m, visited, active, sound, fit => by
    rw [Expr.evaluate]
    have first := evaluate_ensures calls left (world.enters visited .leftChoice) (world.spawns active .leftChoice) sound fit
    refine first.bind fun x m₁ done kept sound₁ found => ?_
    split
    · exact .pure sound₁ found
    · rename_i undecided
      exact evaluate_ensures calls right (world.enters visited .rightChoice)
        (world.spawns active (.rightChoice done (Bool.not_eq_true _ ▸ undecided))) sound₁
        (by rw [Scope.scopes_walkExpr]; exact fit.kept kept)
  | .set object name value, context, w, m, visited, active, sound, fit => by
    rw [Expr.evaluate]
    have owner := evaluate_ensures calls object (world.enters visited .setOwner) (world.spawns active .setOwner) sound
      (by rw [Scope.scopes_walkExpr]; exact fit)
    refine owner.bind fun x m₁ done kept sound₁ _ => ?_
    split
    · have assigned := evaluate_ensures calls value (world.enters visited .setValue)
        (world.spawns active (.setValue done)) sound₁ (fit.kept kept)
      refine assigned.bind fun y m₂ _ _ sound₂ new => ?_
      have grows : ∀ object, m₂.store.Grows none (m₂.store.setField object name.lexeme y) := fun _ => .of_scopes rfl
      exact .onStore sound₂ (grows _) (sound₂.store.setField new) (new.grow (grows _))
    · exact .fail sound₁ (Setting.excuses_of_ne (by simp))
  | .super_ id keyword method, context, w, m, visited, active, sound, fit => by
    rw [Expr.evaluate]
    exact Run.superMethod_ensures visited sound fit.fits
  | .this_ id keyword, context, w, m, visited, active, sound, fit => by
    rw [Expr.evaluate]
    obtain ⟨object, c, found, of⟩ := Machine.lookUp_this visited sound fit.fits
    refine .tryRead sound (fun x same => ?_) fun fault failed => ?_
    · rw [found] at same
      cases same
      exact of
    · rw [found] at failed
      cases failed
  | .unary operator right, context, w, m, visited, active, sound, fit => by
    rw [Expr.evaluate]
    have sign : operator.kind ∈ unaryOperators := by
      cases (world.resolved visited).legal with
      | unary sign _ => exact sign.kind
    have operand := evaluate_ensures calls right (world.enters visited .operand) (world.spawns active .operand) sound fit
    refine operand.bind fun x m₁ _ _ sound₁ _ => ?_
    refine .tryRead sound₁ (fun z result => applyUnary_sound result) fun fault failed => ?_
    obtain ⟨demand, rfl⟩ := applyUnary_error sign failed
    exact Setting.excuses_of_ne (by simp)
  | .variable_ id name, context, w, m, visited, active, sound, fit => by
    rw [Expr.evaluate]
    exact Run.lookUp_ensures sound (Machine.lookUp_variable visited sound fit.fits)

theorem Expr.evaluateAll_ensures (calls : Run.CallsEnsured world n) : ∀ (es : List Expr) {context : Scope.Context}
    {w : Scope.Walk} {m : Machine}, world.known ⟨context, .exprs es, w⟩ → world.active ⟨n, .exprs es, m⟩ → m.Sound world →
    m.Matches world w.scopes →
    (Expr.evaluateAll (Closure.invoke n) es).Ensures world none m fun xs m' => ∀ x ∈ xs, x.Sound world m'.store
  | [], context, w, m, visited, active, sound, fit => by
    rw [Expr.evaluateAll]
    exact .pure sound (by simp)
  | expr :: rest, context, w, m, visited, active, sound, fit => by
    rw [Expr.evaluateAll]
    have first := evaluate_ensures calls expr (world.enters visited .firstExpr) (world.spawns active .firstExpr) sound fit
    refine first.bind fun x m₁ done kept sound₁ new => ?_
    have others := evaluateAll_ensures calls rest (world.enters visited .otherExprs)
      (world.spawns active (.otherExprs done)) sound₁ (by rw [Scope.scopes_walkExpr]; exact fit.kept kept)
    refine others.bind fun xs m₂ _ kept₂ sound₂ values => .pure sound₂ fun y member => ?_
    rcases List.mem_cons.mp member with rfl | listed
    · exact new.grow kept₂.store
    · exact values y listed

end

end
end Lox
