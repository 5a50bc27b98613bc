import Lox.Proofs.Machine.Place

namespace Lox

def Frame.size : Frame where
  Related m m' := m.store.scopes.size ≤ m'.store.scopes.size
  refl _ := Nat.le_refl _
  trans := Nat.le_trans
  store _ _ swells := swells
  print _ _ := Nat.le_refl _
  clock _ _ := Nat.le_refl _
  within _ _ _ swells := swells
  deeper _ _ swells := swells

theorem Frame.placeless_size : Frame.size.Placeless := ⟨fun _ _ => Nat.le_refl _, fun _ => Nat.le_refl _⟩

namespace Run

variable {α β : Type} {action : Run α} {next : α → Run β} {m m' : Machine}

theorem machine?_first (rest : ∀ result, (next result).Keeps .size) (ended : ((action >>= next) m).machine? = some m') :
    ∃ m₁, (action m).machine? = some m₁ ∧ m₁.store.scopes.size ≤ m'.store.scopes.size := by
  cases done : action m with
  | value result m₁ =>
    rw [bind_value done] at ended
    exact ⟨m₁, rfl, rest result m₁ m' ended⟩
  | fault fault m₁ =>
    rw [bind_fault done] at ended
    cases ended
    exact ⟨_, rfl, Nat.le_refl _⟩
  | outOfFuel =>
    rw [bind_outOfFuel done] at ended
    cases ended

theorem machine?_within {environment : Environment} (ended : (within environment action m).machine? = some m') :
    ∃ m₁, (action { m with environment := environment }).machine? = some m₁ ∧ m'.store = m₁.store := by
  unfold within at ended
  split at ended
  · rename_i result m₁ done
    cases ended
    exact ⟨m₁, by rw [done]; rfl, rfl⟩
  · rename_i fault m₁ failed
    cases ended
    exact ⟨m₁, by rw [failed]; rfl, rfl⟩
  · cases ended

theorem machine?_deeper (ended : (deeper action m).machine? = some m') :
    ∃ m₁, (action m.deepened).machine? = some m₁ ∧ m'.store = m₁.store := by
  unfold deeper at ended
  rw [← Machine.deepened] at ended
  split at ended
  · rename_i result m₁ done
    cases ended
    exact ⟨m₁, by rw [done]; rfl, rfl⟩
  · rename_i fault m₁ failed
    cases ended
    exact ⟨m₁, by rw [failed]; rfl, rfl⟩
  · cases ended

theorem machine?_superclass {invoke : Invoke} {name : Token} {e : Expr}
    (ended : (superclass invoke name (some e) m).machine? = some m') :
    ∃ m₁, (e.evaluate invoke m).machine? = some m₁ ∧ m₁.store.scopes.size ≤ m'.store.scopes.size := by
  refine machine?_first (fun x => ?_) ended
  split
  · exact keeps_pure _
  · split <;> exact keeps_fail _

end Run

theorem Closure.machine?_body {n : Nat} {f : Closure} {arguments : List Value} {m m' : Machine}
    (ended : (Closure.invoke (n + 1) f arguments m).machine? = some m') :
    ∃ m₁, (Stmt.executeAll n (Closure.invoke n) f.declaration.body (m.entered f arguments)).machine? = some m₁ ∧
      m₁.store.scopes.size ≤ m'.store.scopes.size := by
  simp only [Closure.invoke] at ended
  rw [Run.bind_value Run.onStore_eq] at ended
  obtain ⟨m₁, within, le⟩ : ∃ m₁, (Run.within _ _ _).machine? = some m₁ ∧ m₁.store.scopes.size ≤ m'.store.scopes.size := by
    refine Run.machine?_first (fun flow => ?_) ended
    split
    · exact Run.keeps_tryRead _
    · split <;> exact Run.keeps_pure _
  obtain ⟨m₂, body, same⟩ := Run.machine?_within within
  exact ⟨m₂, body, by rw [← same]; exact le⟩

theorem Value.Calls.machine? {x : Value} {xs : List Value} {f : Closure} {invoke : Invoke} {paren : Token}
    {m m₁ m' : Machine} (calls : x.Calls xs m f m₁) (ended : (Run.call invoke x paren xs m).machine? = some m') :
    ∃ m₂, (invoke f xs m₁).machine? = some m₂ ∧ m₂.store.scopes.size ≤ m'.store.scopes.size := by
  cases calls with
  | @function identity f _ _ fits shallow =>
    unfold Run.call at ended
    simp only [Value.arity?, fits, ne_eq, not_true, ↓reduceIte] at ended
    rw [Run.nested_shallow shallow] at ended
    obtain ⟨m₂, body, same⟩ := Run.machine?_deeper ended
    exact ⟨m₂, body, Nat.le_of_eq (by rw [same])⟩
  | @class_ c initializer _ _ fits shallow found =>
    unfold Run.call at ended
    simp only [Value.arity?, fits, ne_eq, not_true, ↓reduceIte] at ended
    rw [Run.nested_shallow shallow] at ended
    obtain ⟨m₂, made, same⟩ := Run.machine?_deeper ended
    rw [Run.instantiate_some found] at made
    obtain ⟨m₃, body, before⟩ := Run.machine?_first (fun _ => Run.keeps_pure _) made
    exact ⟨m₃, body, by rw [same]; exact before⟩

theorem Value.Calls.size_le {x : Value} {xs : List Value} {f : Closure} {m m₁ : Machine} (calls : x.Calls xs m f m₁) :
    m.store.scopes.size ≤ m₁.store.scopes.size := Frame.placeless_size.calls calls

theorem Value.Calls.unique {x : Value} {xs : List Value} {f f' : Closure} {m m₁ m₁' : Machine} (calls : x.Calls xs m f m₁)
    (calls' : x.Calls xs m f' m₁') : f = f' ∧ m₁ = m₁' := by
  cases calls with
  | function =>
    cases calls'
    exact ⟨rfl, rfl⟩
  | class_ _ _ found =>
    cases calls' with
    | class_ _ _ found' =>
      cases found.symm.trans found'
      exact ⟨rfl, rfl⟩

namespace Activity

def begins (a : Activity) : Nat := a.machine.store.scopes.size

/-- The activity has ended when there are so many scopes, or before. -/
def EndsBy (a : Activity) (size : Nat) : Prop := ∃ m, a.machine? = some m ∧ m.store.scopes.size ≤ size

variable {a b c : Activity} {size : Nat}

theorem EndsBy.mono {later : Nat} (ends : a.EndsBy size) (le : size ≤ later) : a.EndsBy later := by
  obtain ⟨m, ended, before⟩ := ends
  exact ⟨m, ended, Nat.le_trans before le⟩

theorem EndsBy.begins_le (ends : a.EndsBy size) : a.begins ≤ size := by
  obtain ⟨m, ended, before⟩ := ends
  exact Nat.le_trans (Frame.size.machine?_related ended) before

theorem endsBy_of_value {n : Nat} {e : Expr} {x : Value} {m m₁ : Machine}
    (done : e.evaluate (Closure.invoke n) m = .value x m₁) : EndsBy ⟨n, .expr e, m⟩ m₁.store.scopes.size :=
  ⟨m₁, by simp only [machine?, done, Outcome.machine?], Nat.le_refl _⟩

theorem endsBy_of_values {n : Nat} {es : List Expr} {xs : List Value} {m m₁ : Machine}
    (done : Expr.evaluateAll (Closure.invoke n) es m = .value xs m₁) : EndsBy ⟨n, .exprs es, m⟩ m₁.store.scopes.size :=
  ⟨m₁, by simp only [machine?, done, Outcome.machine?], Nat.le_refl _⟩

theorem endsBy_of_flow {n : Nat} {s : Stmt} {flow : Flow} {m m₁ : Machine}
    (done : s.execute n (Closure.invoke n) m = .value flow m₁) : EndsBy ⟨n, .stmt s, m⟩ m₁.store.scopes.size :=
  ⟨m₁, by simp only [machine?, done, Outcome.machine?], Nat.le_refl _⟩

theorem Spawns.begins_le (spawns : a.Spawns b) : a.begins ≤ b.begins := Frame.placeless_size.spawns spawns

theorem Spawns.endsBy (spawns : a.Spawns b) (ends : a.EndsBy size) : b.EndsBy size := by
  obtain ⟨last, ended, before⟩ := ends
  suffices inner : ∃ m₁, b.machine? = some m₁ ∧ m₁.store.scopes.size ≤ last.store.scopes.size by
    obtain ⟨m₁, ended₁, le⟩ := inner
    exact ⟨m₁, ended₁, Nat.le_trans le before⟩
  have calls (n : Nat) : (Closure.invoke n).Keeps .size := Closure.invoke_keeps n
  have evaluates (n : Nat) (e : Expr) : (e.evaluate (Closure.invoke n)).Keeps .size := Expr.evaluate_keeps (calls n) e
  have executes (n : Nat) (s : Stmt) : (s.execute n (Closure.invoke n)).Keeps .size := Stmt.execute_keeps (calls n) n s
  cases spawns with
  | assigned =>
    simp only [machine?, Expr.evaluate] at ended
    exact Run.machine?_first (fun _ => (Run.keeps_assignIn _ _ _).bind fun _ => Run.keeps_pure _) ended
  | leftOperand =>
    simp only [machine?, Expr.evaluate] at ended
    exact Run.machine?_first (fun _ => (evaluates _ _).bind fun _ => Run.keeps_tryRead _) ended
  | rightOperand first =>
    simp only [machine?, Expr.evaluate] at ended
    rw [Run.bind_value first] at ended
    exact Run.machine?_first (fun _ => Run.keeps_tryRead _) ended
  | callee =>
    simp only [machine?, Expr.evaluate] at ended
    refine Run.machine?_first (fun _ => ?_) ended
    exact (Expr.evaluateAll_keeps (calls _) _).bind fun _ => Run.keeps_call (calls _) _ _ _
  | arguments first =>
    simp only [machine?, Expr.evaluate] at ended
    rw [Run.bind_value first] at ended
    exact Run.machine?_first (fun _ => Run.keeps_call (calls _) _ _ _) ended
  | call first given called =>
    simp only [machine?, Expr.evaluate] at ended
    rw [Run.bind_value first, Run.bind_value given] at ended
    exact called.machine? ended
  | owner =>
    simp only [machine?, Expr.evaluate] at ended
    refine Run.machine?_first (fun x => ?_) ended
    split
    · exact Run.keeps_property _ _ _
    · exact Run.keeps_fail _
  | grouped =>
    simp only [machine?, Expr.evaluate] at ended
    exact ⟨last, ended, Nat.le_refl _⟩
  | leftChoice =>
    simp only [machine?, Expr.evaluate] at ended
    refine Run.machine?_first (fun x => ?_) ended
    split
    · exact Run.keeps_pure _
    · exact evaluates _ _
  | rightChoice first undecided =>
    simp only [machine?, Expr.evaluate] at ended
    rw [Run.bind_value first, undecided] at ended
    exact ⟨last, ended, Nat.le_refl _⟩
  | setOwner =>
    simp only [machine?, Expr.evaluate] at ended
    refine Run.machine?_first (fun x => ?_) ended
    split
    · exact (evaluates _ _).bind fun _ => Run.keeps_onStore fun _ => by simp
    · exact Run.keeps_fail _
  | setValue first =>
    simp only [machine?, Expr.evaluate] at ended
    rw [Run.bind_value first] at ended
    exact Run.machine?_first (fun _ => Run.keeps_onStore fun _ => by simp) ended
  | operand =>
    simp only [machine?, Expr.evaluate] at ended
    exact Run.machine?_first (fun _ => Run.keeps_tryRead _) ended
  | firstExpr =>
    simp only [machine?, Expr.evaluateAll] at ended
    exact Run.machine?_first (fun _ => (Expr.evaluateAll_keeps (calls _) _).bind fun _ => Run.keeps_pure _) ended
  | otherExprs first =>
    simp only [machine?, Expr.evaluateAll] at ended
    rw [Run.bind_value first] at ended
    exact Run.machine?_first (fun _ => Run.keeps_pure _) ended
  | block =>
    simp only [machine?, Stmt.execute] at ended
    rw [Run.bind_value Run.read_eq, Run.bind_value Run.onStore_eq] at ended
    obtain ⟨m₁, inner, same⟩ := Run.machine?_within ended
    exact ⟨m₁, inner, Nat.le_of_eq (by rw [same])⟩
  | superclass =>
    simp only [machine?, Stmt.execute, Run.defineClass_eq] at ended
    obtain ⟨m₁, defined, le₁⟩ := Run.machine?_first (fun _ => Run.keeps_pure _) ended
    obtain ⟨m₂, above, le₂⟩ := Run.machine?_first (fun _ => Run.keeps_bindClass _ _ _) defined
    obtain ⟨m₃, evaluated, le₃⟩ := Run.machine?_superclass above
    exact ⟨m₃, evaluated, Nat.le_trans le₃ (Nat.le_trans le₂ le₁)⟩
  | expression =>
    simp only [machine?, Stmt.execute] at ended
    exact Run.machine?_first (fun _ => Run.keeps_pure _) ended
  | ifCondition =>
    simp only [machine?, Stmt.execute] at ended
    refine Run.machine?_first (fun x => ?_) ended
    split
    · exact executes _ _
    · exact Run.keeps_pure _
  | ifBranch first holds | thenBranch first holds =>
    simp only [machine?, Stmt.execute] at ended
    rw [Run.bind_value first, if_pos holds] at ended
    exact ⟨last, ended, Nat.le_refl _⟩
  | condition =>
    simp only [machine?, Stmt.execute] at ended
    refine Run.machine?_first (fun x => ?_) ended
    split <;> exact executes _ _
  | elseBranch first fails =>
    simp only [machine?, Stmt.execute] at ended
    rw [Run.bind_value first, if_neg (by simp [fails])] at ended
    exact ⟨last, ended, Nat.le_refl _⟩
  | print_ =>
    simp only [machine?, Stmt.execute] at ended
    exact Run.machine?_first (fun _ => (Run.keeps_print _).bind fun _ => Run.keeps_pure _) ended
  | returned =>
    simp only [machine?, Stmt.execute, Run.optional] at ended
    exact Run.machine?_first (fun _ => Run.keeps_pure _) ended
  | initializer =>
    simp only [machine?, Stmt.execute, Run.optional] at ended
    exact Run.machine?_first (fun _ => (Run.keeps_read _).bind fun _ => Run.keeps_onStore fun _ => by simp) ended
  | turns => exact ⟨last, ended, Nat.le_refl _⟩
  | loopCondition =>
    simp only [machine?, Run.loop_succ] at ended
    refine Run.machine?_first (fun x => ?_) ended
    split
    · refine (executes _ _).bind fun flow => ?_
      cases flow with
      | normal => exact (evaluates _ _).loop (executes _ _) _
      | return_ x => exact Run.keeps_pure _
    · exact Run.keeps_pure _
  | loopBody first holds =>
    simp only [machine?, Run.loop_succ] at ended
    rw [Run.bind_value first, if_pos holds] at ended
    refine Run.machine?_first (fun flow => ?_) ended
    cases flow with
    | normal => exact (evaluates _ _).loop (executes _ _) _
    | return_ x => exact Run.keeps_pure _
  | otherTurns first holds turned =>
    simp only [machine?, Run.loop_succ] at ended
    rw [Run.bind_value first, if_pos holds, Run.bind_value turned] at ended
    exact ⟨last, ended, Nat.le_refl _⟩
  | firstStmt =>
    simp only [machine?, Stmt.executeAll] at ended
    refine Run.machine?_first (fun flow => ?_) ended
    cases flow with
    | normal => exact Stmt.executeAll_keeps (calls _) _ _
    | return_ x => exact Run.keeps_pure _
  | otherStmts first =>
    simp only [machine?, Stmt.executeAll] at ended
    rw [Run.bind_value first] at ended
    exact ⟨last, ended, Nat.le_refl _⟩
  | body => exact Closure.machine?_body ended
  | firstOfProgram =>
    simp only [machine?, Run.program, Run.execute] at ended
    exact Run.machine?_first (fun _ => Run.keeps_program _ _) ended
  | othersOfProgram first =>
    simp only [machine?, Run.program, Run.execute] at ended
    rw [Run.bind_value first] at ended
    exact ⟨last, ended, Nat.le_refl _⟩

theorem Spawns.apart (first : a.Spawns b) (second : a.Spawns c) :
    b = c ∨ b.EndsBy c.begins ∨ c.EndsBy b.begins := by
  cases first <;> cases second
  -- One of them begins where the other has ended.
  case leftOperand.rightOperand done | callee.arguments done | leftChoice.rightChoice _ done | setOwner.setValue done
      | firstExpr.otherExprs done | ifCondition.ifBranch _ done | condition.thenBranch _ done | condition.elseBranch _ done
      | loopCondition.loopBody _ done =>
    exact .inr (.inl (endsBy_of_value done))
  case rightOperand.leftOperand done | arguments.callee done | rightChoice.leftChoice done _ | setValue.setOwner done
      | otherExprs.firstExpr done | ifBranch.ifCondition done _ | thenBranch.condition done _ | elseBranch.condition done _
      | loopBody.loopCondition done _ =>
    exact .inr (.inr (endsBy_of_value done))
  case firstStmt.otherStmts done | firstOfProgram.othersOfProgram done => exact .inr (.inl (endsBy_of_flow done))
  case otherStmts.firstStmt done | othersOfProgram.firstOfProgram done => exact .inr (.inr (endsBy_of_flow done))
  -- A third thing goes on in between.
  case callee.call calls given done =>
    exact .inr (.inl ((endsBy_of_value done).mono (Nat.le_trans (endsBy_of_values given).begins_le calls.size_le)))
  case call.callee done given calls =>
    exact .inr (.inr ((endsBy_of_value done).mono (Nat.le_trans (endsBy_of_values given).begins_le calls.size_le)))
  case loopCondition.otherTurns _ turned done =>
    exact .inr (.inl ((endsBy_of_value done).mono (endsBy_of_flow turned).begins_le))
  case otherTurns.loopCondition done _ turned =>
    exact .inr (.inr ((endsBy_of_value done).mono (endsBy_of_flow turned).begins_le))
  -- Both begin where a third thing has ended.
  case rightOperand.rightOperand done _ _ done' | arguments.arguments done _ _ done' | setValue.setValue done _ _ _ done'
      | otherExprs.otherExprs done _ _ done' | rightChoice.rightChoice done _ _ _ _ done'
      | ifBranch.ifBranch done _ _ _ _ done' | thenBranch.thenBranch done _ _ _ _ done'
      | elseBranch.elseBranch done _ _ _ _ done' | loopBody.loopBody done _ _ _ _ done'
      | otherStmts.otherStmts done _ done' | othersOfProgram.othersOfProgram done _ _ done' =>
    cases done.symm.trans done'
    exact .inl rfl
  case thenBranch.elseBranch done holds _ _ fails done' | elseBranch.thenBranch done fails _ _ holds done' =>
    cases done.symm.trans done'
    cases holds.symm.trans fails
  case arguments.call done _ _ _ _ _ _ calls given done' =>
    cases done.symm.trans done'
    exact .inr (.inl ((endsBy_of_values given).mono calls.size_le))
  case call.arguments done given calls _ _ done' =>
    cases done.symm.trans done'
    exact .inr (.inr ((endsBy_of_values given).mono calls.size_le))
  case call.call done given calls _ _ _ _ _ _ calls' given' done' =>
    cases done.symm.trans done'
    cases given.symm.trans given'
    obtain ⟨rfl, rfl⟩ := calls.unique calls'
    exact .inl rfl
  case loopBody.otherTurns done _ _ _ _ _ turned done' =>
    cases done.symm.trans done'
    exact .inr (.inl (endsBy_of_flow turned))
  case otherTurns.loopBody done _ turned _ _ _ done' =>
    cases done.symm.trans done'
    exact .inr (.inr (endsBy_of_flow turned))
  case otherTurns.otherTurns done _ turned _ _ _ _ turned' done' =>
    cases done.symm.trans done'
    cases turned.symm.trans turned'
    exact .inl rfl
  all_goals exact .inl rfl

theorem During.begins_le (during : a.During b) : a.begins ≤ b.begins := Frame.placeless_size.during during

theorem During.endsBy (during : a.During b) (ends : a.EndsBy size) : b.EndsBy size := by
  induction during with
  | start => exact ends
  | spawned _ spawns ih => exact spawns.endsBy ih

theorem During.start_or_spawned (during : a.During b) : b = a ∨ ∃ c, a.Spawns c ∧ c.During b := by
  induction during with
  | start => exact .inl rfl
  | spawned _ spawns ih =>
    rcases ih with rfl | ⟨c, first, during⟩
    · exact .inr ⟨_, spawns, .start⟩
    · exact .inr ⟨c, first, during.spawned spawns⟩

theorem During.apart (first : a.During b) (second : a.During c) :
    b.During c ∨ c.During b ∨ b.EndsBy c.begins ∨ c.EndsBy b.begins := by
  induction first with
  | start => exact .inl second
  | @spawned d b _ spawns ih =>
    rcases ih with inside | around | before | behind
    · rcases inside.start_or_spawned with rfl | ⟨e, other, inside⟩
      · exact .inr (.inl (.spawned .start spawns))
      · rcases spawns.apart other with rfl | before | behind
        · exact .inl inside
        · exact .inr (.inr (.inl (before.mono inside.begins_le)))
        · exact .inr (.inr (.inr (inside.endsBy behind)))
    · exact .inr (.inl (around.spawned spawns))
    · exact .inr (.inr (.inl (spawns.endsBy before)))
    · exact .inr (.inr (.inr (behind.mono spawns.begins_le)))

end Activity
end Lox
