import Lox.Proofs.Machine.Termination

namespace Lox

def Outcome.onMachine {α : Type} (change : Machine → Machine) : Outcome α → Outcome α
  | .value result m => .value result (change m)
  | .fault why m => .fault why (change m)
  | .outOfFuel => .outOfFuel

namespace Run

variable {α β : Type}

/-- Whatever the first action comes to, the second comes to as well. -/
def Extends (action wider : Run α) : Prop := ∀ m, (action m).Ended → wider m = action m

theorem Extends.refl (action : Run α) : action.Extends action := fun _ _ => rfl

theorem extends_outOfFuel (wider : Run α) : (outOfFuel : Run α).Extends wider := fun _ ended => absurd rfl ended

theorem Extends.bind {action wider : Run α} {next next' : α → Run β} (first : action.Extends wider)
    (rest : ∀ result, (next result).Extends (next' result)) : (action >>= next).Extends (wider >>= next') := by
  intro m ended
  cases done : action m with
  | value result m₁ =>
    have same : wider m = .value result m₁ := by
      rw [first m, done]
      rw [done]
      apply ended_value
    rw [bind_value done] at ended ⊢
    rw [bind_value same]
    exact rest result m₁ ended
  | fault fault m₁ =>
    have same : wider m = .fault fault m₁ := by
      rw [first m, done]
      rw [done]
      apply ended_fault
    rw [bind_fault done, bind_fault same]
  | outOfFuel =>
    rw [bind_outOfFuel done] at ended
    exact absurd rfl ended

theorem Extends.around {action wider : Run α} (wide : action.Extends wider) (enter : Machine → Machine)
    (leave : Machine → Outcome α → Outcome α) (spent : ∀ m, leave m .outOfFuel = .outOfFuel) :
    Extends (fun m => leave m (action (enter m))) (fun m => leave m (wider (enter m))) := by
  intro m ended
  have inner : (action (enter m)).Ended := by
    intro nothing
    cases done : action (enter m) with
    | value result m₁ | fault fault m₁ =>
      rw [done] at nothing
      cases nothing
    | outOfFuel =>
      simp only [done, spent] at ended
      exact ended rfl
  simp only [wide (enter m) inner]

theorem Extends.within {action wider : Run α} (wide : action.Extends wider) (environment : Environment) :
    (within environment action).Extends (within environment wider) :=
  wide.around (fun m => { m with environment := environment })
    (fun m => .onMachine fun m₁ => { m₁ with environment := m.environment }) fun _ => rfl

theorem Extends.deeper {action wider : Run α} (wide : action.Extends wider) : (deeper action).Extends (deeper wider) :=
  wide.around Machine.deepened (fun _ => .onMachine fun m₁ => { m₁ with depth := m₁.depth - 1 }) fun _ => rfl

end Run

def extending : Congruence where
  Related := Run.Extends
  step _ := Run.Extends.refl _
  spent := Run.extends_outOfFuel
  bind := Run.Extends.bind
  within := Run.Extends.within
  deeper := Run.Extends.deeper

theorem Run.extends_program {n n' : Nat} (more : n ≤ n') (program : List Stmt) :
    (Run.program n program).Extends (Run.program n' program) := Congruence.program (C := extending) more program

end Lox
