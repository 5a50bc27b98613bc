import Mathlib
import Lox.Proofs.Session.Environments

namespace Lox

open Scope (Visit Visits)

section

variable {world : Setting} {m m₁ : Machine} {n : Nat} {id : NodeId} {name : Token} {value : Expr} {x : Value}
  {context : Scope.Context} {w : Scope.Walk}

theorem Expr.assign_premature (visited : world.known ⟨context, .expr (.assign id name value), w⟩)
    (active : world.active ⟨n, .expr (.assign id name value), m⟩) (sound : m.Sound world)
    (fit : m.Matches world w.scopes) (initializing : w.isInitializing name = true)
    (done : value.evaluate (Closure.invoke n) m = .value x m₁) :
    Expr.evaluate (Closure.invoke n) (.assign id name value) m = .fault (.unexpected (.unbound name.lexeme 0)) m₁ := by
  obtain ⟨sound₁, fit₁, -⟩ := Expr.evaluate_value (world.enters visited .assigned) (world.spawns active .assigned)
    sound fit done
  have unbound : m₁.locate id name = .error (.unexpected (.unbound name.lexeme 0)) := by
    rcases Machine.locate_assign visited sound₁ fit₁ with ⟨complete, -⟩ | ⟨complete, -⟩ | ⟨-, failed⟩
    · rw [initializing] at complete
      cases complete
    · rw [initializing] at complete
      cases complete
    · exact failed
  have located : Run.assignIn (·.locate id name) name.lexeme x m₁ = .fault (.unexpected (.unbound name.lexeme 0)) m₁ := by
    refine Run.bind_fault ?_
    rw [Run.tryRead, unbound]
  rw [Expr.evaluate, Run.bind_value done]
  exact Run.bind_fault located

end

/-- A run ends with an internal fault exactly if it comes to an assignment to a local variable within the initializer
    of that variable, and the assigned value can be computed. The fault is then that the variable is not found. -/
theorem Session.internal_fault_iff {readings : Nat → Number} {s ready : Session} {source : String}
    {program : List Stmt} {programs : List (List Stmt)} (past : s.History readings programs)
    (accepted : s.accept? source = some (program, ready)) (fuel : Nat) (breach : Breach) :
    (∃ m, Run.program fuel program ready.machine = .fault (.unexpected breach) m) ↔
      ∃ n id name value m x m₁, Activity.During ⟨fuel, .program program, ready.machine⟩
          ⟨n, .expr (.assign id name value), m⟩ ∧
        (∃ p ∈ program :: programs, ∃ v, Visits p v ∧ v.part = .expr (.assign id name value) ∧
          v.walk.isInitializing name = true) ∧
        value.evaluate (Closure.invoke n) m = .value x m₁ ∧ breach = .unbound name.lexeme 0 := by
  have consistent := past.consistent.accept accepted
  constructor
  · rintro ⟨m, failed⟩
    exact consistent.internal_fault failed
  · rintro ⟨n, id, name, value, m, x, m₁, during, ⟨p, listed, v, visited, part, initializing⟩, valued, rfl⟩
    have sound := consistent.during_sound during
    obtain ⟨context, w, known, fit⟩ := sound.compound (by simp)
    have ⟨p', listed', visited'⟩ := known
    have numbered : (Expr.assign id name value).ids ≠ [] := by simp [Expr.ids]
    obtain ⟨-, rfl⟩ := consistent.visit_unique listed' listed visited' visited numbered part.symm
    have failed := Expr.assign_premature known during sound.1 fit initializing valued
    refine Outcome.fault?_eq_some.mp (during.fails ?_)
    exact Outcome.fault?_eq_some.mpr ⟨m₁, failed⟩

theorem Session.internal_fault_own_initializer : ∃ (s ready : Session) (program : List Stmt) (m : Machine),
    s.accept? "{ var a = a = nil; print a; }" = some (program, ready) ∧
    Run.program 1 program ready.machine = .fault (.unexpected (.unbound "a" 0)) m := by
  let a : Token := ⟨.identifier, "a", none, 1⟩
  let ready : Session := ⟨((Machine.start fun _ => .zero).setDistance 1 0).setDistance 2 0, .clear, 3⟩
  let program : List Stmt :=
    [.block [.var_ a (some (.assign 1 a (.constant .nil))), .print_ (.variable_ 2 a)]]
  have accepted : (Session.start fun _ => .zero).accept? "{ var a = a = nil; print a; }" = some (program, ready) := by cbv
  have visited : Visits program _ := (((Visits.start.enter .firstStmt).enter .block).enter .firstStmt).enter .initializer
  have during : Activity.During ⟨1, .program program, ready.machine⟩ _ :=
    (((Activity.During.start.spawned .firstOfProgram).spawned .block).spawned .firstStmt).spawned .initializer
  obtain ⟨m, failed⟩ := (internal_fault_iff .start accepted 1 (.unbound "a" 0)).mpr
    ⟨_, _, _, _, _, _, _, during, ⟨program, List.mem_singleton.mpr rfl, _, visited, rfl, rfl⟩, rfl, rfl⟩
  exact ⟨_, _, _, m, accepted, failed⟩

end Lox
