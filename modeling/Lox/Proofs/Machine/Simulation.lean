import Lox.Proofs.Machine.Execution

namespace Lox

open Scope (Part)

variable {world : Setting}

def Setting.Meets (world : Setting) (part : Part) (m : Machine) : Prop :=
  ∃ context w, world.known ⟨context, part, w⟩ ∧ m.Matches world w.scopes

/-- What holds when an activity begins. A superclass is evaluated in the scopes of its class declaration. -/
def Activity.Sound (world : Setting) (a : Activity) : Prop :=
  a.machine.Sound world ∧ match a.task with
    | .expr e => world.Meets (.expr e) a.machine ∨
      ∃ name methods, world.Meets (.stmt (.class_ name (some e) methods)) a.machine
    | .exprs es => world.Meets (.exprs es) a.machine
    | .stmt s => world.Meets (.stmt s) a.machine
    | .stmts ss => world.Meets (.stmts ss) a.machine
    | .loop _ condition body => world.Meets (.stmt (.while_ condition body)) a.machine
    | .invoke f xs => f.Sound world a.machine.store ∧ (∀ x ∈ xs, x.Sound world a.machine.store) ∧ xs.length = f.arity
    | .program p => ∃ context w, world.known ⟨context, .stmts p, w⟩ ∧ w.scopes = [] ∧ a.machine.environment = world.globals

section

variable {n : Nat} {m m₁ : Machine} {context : Scope.Context} {w : Scope.Walk} {whole part : Part}
  {next : Scope.Context → Scope.Walk → Scope.Walk}

theorem Activity.Sound.compound {e : Expr} (sound : Activity.Sound world ⟨n, .expr e, m⟩)
    (compound : ∀ id name, e ≠ .variable_ id name) : world.Meets (.expr e) m := by
  obtain ⟨-, met | ⟨name, methods, context, w, visited, -⟩⟩ := sound
  · exact met
  · cases (world.resolved visited).legal with
    | class_ _ extended _ _ _ =>
      obtain ⟨id, superName, rfl, -⟩ := extended e rfl
      exact absurd rfl (compound id superName)

theorem Expr.evaluate_value {e : Expr} {x : Value} (visited : world.known ⟨context, .expr e, w⟩)
    (active : world.active ⟨n, .expr e, m⟩) (sound : m.Sound world) (fit : m.Matches world w.scopes)
    (done : e.evaluate (Closure.invoke n) m = .value x m₁) :
    m₁.Sound world ∧ m₁.Matches world w.scopes ∧ x.Sound world m₁.store := by
  have ensures := Expr.evaluate_ensures (Closure.invoke_ensures n) e visited active sound fit
  obtain ⟨kept, sound₁, new⟩ := ensures.of_value done
  exact ⟨sound₁, fit.kept kept, new⟩

/-- A part entered in the scopes of the whole. -/
theorem Setting.Meets.enter (met : world.Meets whole m)
    (enters : ∀ context w, Scope.Visit.Enters ⟨context, whole, w⟩ ⟨context, part, next context w⟩)
    (scopes : ∀ context w, (next context w).scopes = w.scopes) : world.Meets part m := by
  obtain ⟨context, w, visited, fit⟩ := met
  exact ⟨context, _, world.enters visited (enters _ _), by rwa [scopes]⟩

theorem Setting.Meets.evaluated {e : Expr} {x : Value} (met : world.Meets whole m)
    (enters : ∀ context w, Scope.Visit.Enters ⟨context, whole, w⟩ ⟨context, .expr e, next context w⟩)
    (scopes : ∀ context w, (next context w).scopes = w.scopes) (active : world.active ⟨n, .expr e, m⟩)
    (sound : m.Sound world) (done : e.evaluate (Closure.invoke n) m = .value x m₁) :
    m₁.Sound world ∧ world.Meets whole m₁ ∧ x.Sound world m₁.store := by
  obtain ⟨context, w, visited, fit⟩ := met
  obtain ⟨sound₁, fit₁, new⟩ := Expr.evaluate_value (world.enters visited (enters _ _)) active sound
    (by rwa [scopes]) done
  exact ⟨sound₁, ⟨context, w, visited, by rwa [scopes] at fit₁⟩, new⟩

theorem Stmt.execute_value {s : Stmt} {flow : Flow} (visited : world.known ⟨context, .stmt s, w⟩)
    (active : world.active ⟨n, .stmt s, m⟩) (sound : m.Sound world) (fit : m.Matches world w.scopes)
    (done : s.execute n (Closure.invoke n) m = .value flow m₁) :
    m₁.environment = m.environment ∧ m₁.Sound world ∧ flow.Ends world (Scope.walkStmt context s w).scopes m₁ := by
  have ensures := Stmt.execute_ensures (Closure.invoke_ensures n) s visited active sound fit
  obtain ⟨kept, sound₁, ends⟩ := ensures.of_value done
  exact ⟨kept.environment, sound₁, ends⟩

theorem Value.Calls.sound {x : Value} {xs : List Value} {f : Closure} (calls : x.Calls xs m f m₁) (sound : m.Sound world)
    (callee : x.Sound world m.store) (given : ∀ x ∈ xs, x.Sound world m.store) :
    Activity.Sound world ⟨n, .invoke f xs, m₁⟩ := by
  cases calls with
  | function fits shallow => exact ⟨sound.atDepth _, callee, given, fits⟩
  | class_ fits shallow found =>
    obtain ⟨grows, store, bound⟩ := Run.construct_sound sound found callee
    refine ⟨(sound.onStore grows store).atDepth _, bound, fun x member => (given x member).grow grows, ?_⟩
    rw [fits, Class.arity, found]
    rfl

end

theorem Activity.Spawns.sound {a b : Activity} (spawns : a.Spawns b) (active : world.active a) (sound : a.Sound world) :
    b.Sound world := by
  cases spawns with
  | assigned | leftOperand | callee | owner | grouped | leftChoice | setOwner | operand =>
    exact ⟨sound.1, .inl ((sound.compound (by simp)).enter (fun _ _ => by constructor) (by simp))⟩
  | rightOperand first | rightChoice first _ | setValue first =>
    obtain ⟨sound₁, met, -⟩ := (sound.compound (by simp)).evaluated (fun _ _ => by constructor) (by simp)
      (world.spawns active (by constructor)) sound.1 first
    exact ⟨sound₁, .inl (met.enter (fun _ _ => by constructor) (by simp))⟩
  | arguments first =>
    obtain ⟨sound₁, met, -⟩ := (sound.compound (by simp)).evaluated (fun _ _ => .callee) (fun _ _ => rfl)
      (world.spawns active .callee) sound.1 first
    exact ⟨sound₁, met.enter (fun _ _ => .arguments) (by simp)⟩
  | call first given calls =>
    obtain ⟨sound₁, met, callee⟩ := (sound.compound (by simp)).evaluated (fun _ _ => .callee) (fun _ _ => rfl)
      (world.spawns active .callee) sound.1 first
    obtain ⟨context, w, visited, fit⟩ := met.enter (fun _ _ => .arguments) (by simp)
    have ensures := Expr.evaluateAll_ensures (Closure.invoke_ensures _) _ visited (world.spawns active (.arguments first))
      sound₁ fit
    obtain ⟨kept, sound₂, values⟩ := ensures.of_value given
    exact calls.sound sound₂ (callee.grow kept.store) values
  | firstExpr | expression | ifCondition | condition | print_ | returned | loopCondition =>
    exact ⟨sound.1, .inl (sound.2.enter (fun _ _ => by constructor) (by simp))⟩
  | otherExprs first | ifBranch first _ | thenBranch first _ | loopBody first _ =>
    obtain ⟨sound₁, met, -⟩ := sound.2.evaluated (fun _ _ => by constructor) (by simp)
      (world.spawns active (by constructor)) sound.1 first
    exact ⟨sound₁, met.enter (fun _ _ => by constructor) (by simp)⟩
  | @block n body m =>
    obtain ⟨sound, context, w, visited, fit⟩ := sound
    exact ⟨sound.inside _, _, _, world.enters visited .block, Machine.matches_inside fit.fits⟩
  | superclass =>
    obtain ⟨sound, context, w, visited, fit⟩ := sound
    exact ⟨sound, .inr ⟨_, _, context, w, visited, fit⟩⟩
  | elseBranch first fails =>
    obtain ⟨sound, context, w, visited, fit⟩ := sound
    obtain ⟨sound₁, fit₁, -⟩ := Expr.evaluate_value (world.enters visited .condition)
      (world.spawns active .condition) sound fit first
    refine ⟨sound₁, _, _, world.enters visited .elseBranch, ?_⟩
    cases (world.resolved visited).legal with
    | ifThenElse _ legal _ plain _ =>
      rw [Scope.scopes_walkStmt _ _ _ legal, Scope.declareIn_plain plain, Scope.scopes_walkExpr]
      exact fit₁
  | initializer =>
    obtain ⟨sound, context, w, visited, fit⟩ := sound
    refine ⟨sound, .inl ⟨_, _, world.enters visited .initializer, fit.declare ?_ ?_⟩⟩
    · cases (world.resolved visited).legal with
      | var_ named _ => exact Scope.lexeme_not_reserved named
    · exact fun names outer scopes => (world.resolved visited).declares_new rfl scopes
  | turns => exact sound
  | otherTurns first holds turned =>
    obtain ⟨sound, context, w, visited, fit⟩ := sound
    obtain ⟨sound₁, fit₁, -⟩ := Expr.evaluate_value (world.enters visited .whileCondition)
      (world.spawns active .loopCondition) sound fit first
    obtain ⟨-, sound₂, ends⟩ := Stmt.execute_value (world.enters visited .whileBody)
      (world.spawns active (.loopBody first holds)) sound₁ (by simpa using fit₁) turned
    refine ⟨sound₂, context, w, visited, ?_⟩
    have fit₂ := ends.fit rfl
    cases (world.resolved visited).legal with
    | while_ _ legal plain =>
      rw [Scope.scopes_walkStmt _ _ _ legal, Scope.declareIn_plain plain, Scope.scopes_walkExpr] at fit₂
      exact fit₂
  | firstStmt =>
    obtain ⟨sound, context, w, visited, fit⟩ := sound
    exact ⟨sound, _, _, world.enters visited .firstStmt, fit⟩
  | otherStmts first =>
    obtain ⟨sound, context, w, visited, fit⟩ := sound
    obtain ⟨-, sound₁, ends⟩ := Stmt.execute_value (world.enters visited .firstStmt)
      (world.spawns active .firstStmt) sound fit first
    exact ⟨sound₁, _, _, world.enters visited .otherStmts, ends.fit rfl⟩
  | body =>
    obtain ⟨sound, ⟨context, w, visited, fits, -⟩, given, fitting⟩ := sound
    obtain ⟨-, sound₁, fit⟩ := Run.entered_matches sound visited fits given fitting
    exact ⟨sound₁, _, _, world.enters visited .body, fit⟩
  | firstOfProgram =>
    obtain ⟨sound, context, w, visited, top, here⟩ := sound
    exact ⟨sound, _, _, world.enters visited .firstStmt, Machine.matches_top top here⟩
  | othersOfProgram first =>
    obtain ⟨sound, context, w, visited, top, here⟩ := sound
    obtain ⟨same, sound₁, -⟩ := Stmt.execute_value (world.enters visited .firstStmt)
      (world.spawns active .firstOfProgram) sound (Machine.matches_top top here) first
    have legal := (world.resolved visited).legal _ (List.mem_cons_self ..)
    refine ⟨sound₁, _, _, world.enters visited .otherStmts, ?_, same.trans here⟩
    rw [Scope.scopes_walkStmt _ _ _ legal, top, Scope.declareIn_nil]

theorem Activity.During.sound {a b : Activity} (during : a.During b) (active : world.active a) (sound : a.Sound world) :
    world.active b ∧ b.Sound world := by
  induction during with
  | start => exact ⟨active, sound⟩
  | spawned _ spawns ih => exact ⟨world.spawns ih.1 spawns, spawns.sound ih.1 ih.2⟩

end Lox
