import Mathlib.Logic.Function.Iterate
import Mathlib.Logic.Relation
import Mathlib.Tactic.Choose
import Lox.Proofs.Grammar.StatementReading
import Lox.Proofs.Machine.Fuel

namespace Lox

def Outcome.backIn {α : Type} (environment : Environment) : Outcome α → Outcome α
  | value result m => value result { m with environment := environment }
  | fault f m => fault f { m with environment := environment }
  | outOfFuel => outOfFuel

namespace Run

variable {α β : Type}

/-- With enough fuel, the action comes to the outcome. -/
def ComesTo (action : Nat → Run α) (m : Machine) (outcome : Outcome α) : Prop :=
  outcome.Ended ∧ ∃ fuel, action fuel m = outcome

def NeverEnds (action : Nat → Run α) (m : Machine) : Prop := ∀ fuel, action fuel m = .outOfFuel

def Steady (action : Nat → Run α) : Prop := ∀ fuel fuel', fuel ≤ fuel' → (action fuel).Extends (action fuel')

theorem steady_const (action : Run α) : Steady fun _ => action := fun _ _ _ => .refl action

theorem steady_evaluate (e : Expr) : Steady fun fuel => evaluate fuel e := fun _ _ more =>
  Congruence.evaluate (C := extending) (Congruence.invoke more) e

theorem steady_execute (s : Stmt) : Steady fun fuel => execute fuel s := fun _ _ more =>
  Congruence.execute (C := extending) (Congruence.invoke more) more s

theorem not_ended_outOfFuel : ¬(Outcome.outOfFuel : Outcome α).Ended := fun ended => ended rfl

section

variable {action : Nat → Run α} {next : Nat → α → Run β} {m : Machine}

theorem comesTo_of_ended {fuel : Nat} (ended : (action fuel m).Ended) : ComesTo action m (action fuel m) :=
  ⟨ended, fuel, rfl⟩

theorem comesTo_or_neverEnds (action : Nat → Run α) (m : Machine) :
    (∃ outcome, ComesTo action m outcome) ∨ NeverEnds action m := by
  by_cases ended : ∃ fuel, (action fuel m).Ended
  · obtain ⟨fuel, ended⟩ := ended
    exact .inl ⟨_, comesTo_of_ended ended⟩
  · right
    intro fuel
    cases done : action fuel m with
    | value result m₁ => exact absurd ⟨fuel, by rw [done]; exact ended_value _ _⟩ ended
    | fault fault m₁ => exact absurd ⟨fuel, by rw [done]; exact ended_fault _ _⟩ ended
    | outOfFuel => rfl

theorem ComesTo.eq_of_ended {outcome : Outcome α} {fuel : Nat} (comes : ComesTo action m outcome) (steady : Steady action)
    (ended : (action fuel m).Ended) : action fuel m = outcome := by
  obtain ⟨ended', fuel', rfl⟩ := comes
  rcases Nat.le_total fuel fuel' with more | more
  · exact (steady _ _ more m ended).symm
  · exact steady _ _ more m ended'

theorem ComesTo.eq_or_outOfFuel {outcome : Outcome α} (comes : ComesTo action m outcome) (steady : Steady action)
    (fuel : Nat) : action fuel m = outcome ∨ action fuel m = .outOfFuel := by
  cases done : action fuel m with
  | outOfFuel => exact .inr rfl
  | value result m₁ => exact .inl (done ▸ comes.eq_of_ended steady (by rw [done]; exact ended_value _ _))
  | fault fault m₁ => exact .inl (done ▸ comes.eq_of_ended steady (by rw [done]; exact ended_fault _ _))

theorem ComesTo.eventually {outcome : Outcome α} (comes : ComesTo action m outcome) (steady : Steady action) :
    ∃ enough, ∀ fuel, enough ≤ fuel → action fuel m = outcome := by
  obtain ⟨ended, enough, rfl⟩ := comes
  exact ⟨enough, fun fuel more => steady _ _ more m ended⟩

theorem ComesTo.not_neverEnds {outcome : Outcome α} (comes : ComesTo action m outcome) : ¬NeverEnds action m := by
  obtain ⟨ended, fuel, rfl⟩ := comes
  intro never
  rw [never fuel] at ended
  exact not_ended_outOfFuel ended

theorem comesTo_pure {result : α} {outcome : Outcome α} :
    ComesTo (fun _ => Run.pure result) m outcome ↔ outcome = .value result m := by
  constructor
  · rintro ⟨-, -, rfl⟩
    rfl
  · rintro rfl
    exact ⟨ended_value _ _, 0, rfl⟩

theorem not_neverEnds_pure {result : α} : ¬NeverEnds (fun _ => Run.pure result) m := fun never => by
  cases never 0

theorem comesTo_bind (steady : Steady action) (steady' : ∀ result, Steady fun fuel => next fuel result)
    {outcome : Outcome β} :
    ComesTo (fun fuel => action fuel >>= next fuel) m outcome ↔
      (∃ result m₁, ComesTo action m (.value result m₁) ∧ ComesTo (fun fuel => next fuel result) m₁ outcome) ∨
        ∃ fault m₁, ComesTo action m (.fault fault m₁) ∧ outcome = .fault fault m₁ := by
  constructor
  · rintro ⟨ended, fuel, done⟩
    cases first : action fuel m with
    | value result m₁ =>
      dsimp only at done
      rw [bind_value first] at done
      exact .inl ⟨result, m₁, ⟨ended_value _ _, fuel, first⟩, ended, fuel, done⟩
    | fault fault m₁ =>
      dsimp only at done
      rw [bind_fault first] at done
      exact .inr ⟨fault, m₁, ⟨ended_fault _ _, fuel, first⟩, done.symm⟩
    | outOfFuel =>
      dsimp only at done
      rw [bind_outOfFuel first] at done
      exact absurd (done ▸ ended) not_ended_outOfFuel
  · rintro (⟨result, m₁, first, rest⟩ | ⟨fault, m₁, first, rfl⟩)
    · obtain ⟨enough, first⟩ := first.eventually steady
      obtain ⟨enough', rest'⟩ := rest.eventually (steady' result)
      refine ⟨rest.1, max enough enough', ?_⟩
      dsimp only
      rw [bind_value (first _ (Nat.le_max_left ..)), rest' _ (Nat.le_max_right ..)]
    · obtain ⟨ended, fuel, first⟩ := first
      exact ⟨ended_fault _ _, fuel, bind_fault first⟩

theorem neverEnds_bind (steady : Steady action) (steady' : ∀ result, Steady fun fuel => next fuel result) :
    NeverEnds (fun fuel => action fuel >>= next fuel) m ↔
      NeverEnds action m ∨
        ∃ result m₁, ComesTo action m (.value result m₁) ∧ NeverEnds (fun fuel => next fuel result) m₁ := by
  constructor
  · intro never
    have whole := fun outcome (comes : ComesTo _ m outcome) => comes.not_neverEnds never
    rcases comesTo_or_neverEnds action m with ⟨first, comes⟩ | first
    · right
      cases first with
      | value result m₁ =>
        refine ⟨result, m₁, comes, ?_⟩
        rcases comesTo_or_neverEnds (fun fuel => next fuel result) m₁ with ⟨outcome, rest⟩ | rest
        · exact absurd ((comesTo_bind steady steady').mpr (.inl ⟨result, m₁, comes, rest⟩)) (whole _)
        · exact rest
      | fault fault m₁ =>
        exact absurd ((comesTo_bind steady steady').mpr (.inr ⟨fault, m₁, comes, rfl⟩)) (whole _)
      | outOfFuel => exact absurd comes.1 not_ended_outOfFuel
    · exact .inl first
  · rintro (first | ⟨result, m₁, first, rest⟩) fuel
    · exact bind_outOfFuel (first fuel)
    · rcases first.eq_or_outOfFuel steady fuel with done | spent
      · exact (bind_value done).trans (rest fuel)
      · exact bind_outOfFuel spent

end

section Loop

variable {tests : Machine → Outcome Value → Prop} {turns : Machine → Outcome Flow → Prop} {m m₁ m₂ : Machine}

/-- What a loop comes to, told by what its condition and its turns come to. -/
inductive Repeats (tests : Machine → Outcome Value → Prop) (turns : Machine → Outcome Flow → Prop) :
    Machine → Outcome Flow → Prop where
  | untested {m m₁ : Machine} {fault : Fault} (tested : tests m (.fault fault m₁)) :
      Repeats tests turns m (.fault fault m₁)
  | ended {m m₁ : Machine} {x : Value} (tested : tests m (.value x m₁)) (fails : x.isTruthy = false) :
      Repeats tests turns m (.value .normal m₁)
  | failed {m m₁ m₂ : Machine} {x : Value} {fault : Fault} (tested : tests m (.value x m₁)) (holds : x.isTruthy = true)
      (turned : turns m₁ (.fault fault m₂)) : Repeats tests turns m (.fault fault m₂)
  | returned {m m₁ m₂ : Machine} {x y : Value} (tested : tests m (.value x m₁)) (holds : x.isTruthy = true)
      (turned : turns m₁ (.value (.return_ y) m₂)) : Repeats tests turns m (.value (.return_ y) m₂)
  | again {m m₁ m₂ : Machine} {x : Value} {outcome : Outcome Flow} (tested : tests m (.value x m₁))
      (holds : x.isTruthy = true) (turned : turns m₁ (.value .normal m₂)) (rest : Repeats tests turns m₂ outcome) :
      Repeats tests turns m outcome

def Turn (tests : Machine → Outcome Value → Prop) (turns : Machine → Outcome Flow → Prop) (m m' : Machine) : Prop :=
  ∃ x m₁, tests m (.value x m₁) ∧ x.isTruthy = true ∧ turns m₁ (.value .normal m')

/-- A loop does not end: after some turns its condition or a turn does not, or every turn is followed by another. -/
def RepeatsForEver (tests : Machine → Outcome Value → Prop) (turns : Machine → Outcome Flow → Prop)
    (testsForEver turnsForEver : Machine → Prop) (m : Machine) : Prop :=
  (∃ m', Relation.ReflTransGen (Turn tests turns) m m' ∧
    (testsForEver m' ∨ ∃ x m₁, tests m' (.value x m₁) ∧ x.isTruthy = true ∧ turnsForEver m₁)) ∨
  ∃ machines : Nat → Machine, machines 0 = m ∧ ∀ i, Turn tests turns (machines i) (machines (i + 1))

variable {condition : Nat → Run Value} {body : Nat → Run Flow}

theorem repeats_of_loop {fuel count : Nat} {outcome : Outcome Flow}
    (done : loop count (condition fuel) (body fuel) m = outcome) (ended : outcome.Ended) :
    Repeats (ComesTo condition) (ComesTo body) m outcome := by
  induction count generalizing m with
  | zero => exact absurd (done ▸ ended) not_ended_outOfFuel
  | succ count ih =>
    rw [loop_succ] at done
    cases tested : condition fuel m with
    | fault fault m₁ =>
      rw [bind_fault tested] at done
      exact done ▸ .untested ⟨ended_fault _ _, fuel, tested⟩
    | outOfFuel =>
      rw [bind_outOfFuel tested] at done
      exact absurd (done ▸ ended) not_ended_outOfFuel
    | value x m₁ =>
      have test : ComesTo condition m (.value x m₁) := ⟨ended_value _ _, fuel, tested⟩
      rw [bind_value tested] at done
      by_cases holds : x.isTruthy
      · rw [if_pos holds] at done
        cases turned : body fuel m₁ with
        | fault fault m₂ =>
          rw [bind_fault turned] at done
          exact done ▸ .failed test holds ⟨ended_fault _ _, fuel, turned⟩
        | outOfFuel =>
          rw [bind_outOfFuel turned] at done
          exact absurd (done ▸ ended) not_ended_outOfFuel
        | value flow m₂ =>
          have turn : ComesTo body m₁ (.value flow m₂) := ⟨ended_value _ _, fuel, turned⟩
          rw [bind_value turned] at done
          cases flow with
          | normal => exact .again test holds turn (ih done)
          | return_ y => exact done ▸ .returned test holds turn
      · rw [if_neg holds] at done
        exact done ▸ .ended test (Bool.eq_false_iff.mpr holds)

theorem Repeats.eventually {outcome : Outcome Flow} (repeats : Repeats (ComesTo condition) (ComesTo body) m outcome)
    (steady : Steady condition) (steady' : Steady body) :
    ∃ enough, ∀ fuel count, enough ≤ fuel → enough ≤ count →
      loop count (condition fuel) (body fuel) m = outcome := by
  have counted {count enough : Nat} (more : enough + 1 ≤ count) : ∃ k, count = k + 1 ∧ enough ≤ k :=
    ⟨count - 1, by omega, by omega⟩
  induction repeats with
  | untested tested =>
    obtain ⟨enough, tested⟩ := tested.eventually steady
    refine ⟨enough + 1, fun fuel count more more' => ?_⟩
    obtain ⟨count, rfl, -⟩ := counted more'
    rw [loop_succ, bind_fault (tested fuel (by omega))]
  | ended tested fails =>
    obtain ⟨enough, tested⟩ := tested.eventually steady
    refine ⟨enough + 1, fun fuel count more more' => ?_⟩
    obtain ⟨count, rfl, -⟩ := counted more'
    rw [loop_succ, bind_value (tested fuel (by omega)), if_neg (by simp [fails])]
    rfl
  | failed tested holds turned =>
    obtain ⟨enough, tested⟩ := tested.eventually steady
    obtain ⟨enough', turned⟩ := turned.eventually steady'
    refine ⟨max enough enough' + 1, fun fuel count more more' => ?_⟩
    obtain ⟨count, rfl, -⟩ := counted more'
    rw [loop_succ, bind_value (tested fuel (by omega)), if_pos holds, bind_fault (turned fuel (by omega))]
  | returned tested holds turned =>
    obtain ⟨enough, tested⟩ := tested.eventually steady
    obtain ⟨enough', turned⟩ := turned.eventually steady'
    refine ⟨max enough enough' + 1, fun fuel count more more' => ?_⟩
    obtain ⟨count, rfl, -⟩ := counted more'
    rw [loop_succ, bind_value (tested fuel (by omega)), if_pos holds, bind_value (turned fuel (by omega))]
    rfl
  | again tested holds turned _ ih =>
    obtain ⟨enough, tested⟩ := tested.eventually steady
    obtain ⟨enough', turned⟩ := turned.eventually steady'
    obtain ⟨enough'', rest⟩ := ih
    refine ⟨max (max enough enough') enough'' + 1, fun fuel count more more' => ?_⟩
    obtain ⟨count, rfl, further⟩ := counted more'
    rw [loop_succ, bind_value (tested fuel (by omega)), if_pos holds, bind_value (turned fuel (by omega))]
    exact rest fuel count (by omega) (by omega)

theorem Repeats.outcome_ended {outcome : Outcome Flow} (repeats : Repeats (ComesTo condition) (ComesTo body) m outcome) :
    outcome.Ended := by
  induction repeats with
  | untested | failed => exact ended_fault _ _
  | ended | returned => exact ended_value _ _
  | again _ _ _ _ ih => exact ih

theorem comesTo_loop (steady : Steady condition) (steady' : Steady body) {outcome : Outcome Flow} :
    ComesTo (fun fuel => loop fuel (condition fuel) (body fuel)) m outcome ↔
      Repeats (ComesTo condition) (ComesTo body) m outcome := by
  constructor
  · rintro ⟨ended, fuel, done⟩
    exact repeats_of_loop done ended
  · intro repeats
    obtain ⟨enough, done⟩ := repeats.eventually steady steady'
    exact ⟨repeats.outcome_ended, enough, done enough enough (Nat.le_refl _) (Nat.le_refl _)⟩

theorem loop_turn (turn : Turn (ComesTo condition) (ComesTo body) m m₁) (steady : Steady condition)
    (steady' : Steady body) (fuel count : Nat) :
    loop (count + 1) (condition fuel) (body fuel) m = .outOfFuel ∨
      loop (count + 1) (condition fuel) (body fuel) m = loop count (condition fuel) (body fuel) m₁ := by
  obtain ⟨x, m₂, tested, holds, turned⟩ := turn
  rw [loop_succ]
  rcases tested.eq_or_outOfFuel steady fuel with done | spent
  · rw [bind_value done, if_pos holds]
    rcases turned.eq_or_outOfFuel steady' fuel with done' | spent'
    · exact .inr (bind_value done')
    · exact .inl (bind_outOfFuel spent')
  · exact .inl (bind_outOfFuel spent)

theorem RepeatsForEver.loop_eq (forEver : RepeatsForEver (ComesTo condition) (ComesTo body) (NeverEnds condition)
      (NeverEnds body) m) (steady : Steady condition) (steady' : Steady body) (fuel count : Nat) :
    loop count (condition fuel) (body fuel) m = .outOfFuel := by
  rcases forEver with ⟨m', reached, stuck⟩ | ⟨machines, rfl, turn⟩
  · induction reached using Relation.ReflTransGen.head_induction_on generalizing count with
    | refl =>
      cases count with
      | zero => rfl
      | succ count =>
        rw [loop_succ]
        rcases stuck with never | ⟨x, m₁, tested, holds, never⟩
        · exact bind_outOfFuel (never fuel)
        · rcases tested.eq_or_outOfFuel steady fuel with done | spent
          · rw [bind_value done, if_pos holds]
            exact bind_outOfFuel (never fuel)
          · exact bind_outOfFuel spent
    | head turn _ ih =>
      cases count with
      | zero => rfl
      | succ count => exact (loop_turn turn steady steady' fuel count).elim id (·.trans (ih count))
  · generalize 0 = i
    induction count generalizing i with
    | zero => rfl
    | succ count ih => exact (loop_turn (turn i) steady steady' fuel count).elim id (·.trans (ih (i + 1)))

theorem turn_of_neverEnds (steady : Steady condition) (steady' : Steady body)
    (never : NeverEnds (fun fuel => loop fuel (condition fuel) (body fuel)) m) (tests : ¬NeverEnds condition m)
    (turns : ∀ x m₁, ComesTo condition m (.value x m₁) → x.isTruthy = true → ¬NeverEnds body m₁) :
    ∃ m', Turn (ComesTo condition) (ComesTo body) m m' ∧
      NeverEnds (fun fuel => loop fuel (condition fuel) (body fuel)) m' := by
  have endless : ∀ outcome, ¬Repeats (ComesTo condition) (ComesTo body) m outcome := fun outcome repeats =>
    ((comesTo_loop steady steady').mpr repeats).not_neverEnds never
  obtain ⟨first, tested⟩ := (comesTo_or_neverEnds condition m).resolve_right tests
  cases first with
  | outOfFuel => exact absurd tested.1 not_ended_outOfFuel
  | fault fault m₁ => exact absurd (.untested tested) (endless _)
  | value x m₁ =>
    by_cases holds : x.isTruthy
    · obtain ⟨second, turned⟩ := (comesTo_or_neverEnds body m₁).resolve_right (turns x m₁ tested holds)
      cases second with
      | outOfFuel => exact absurd turned.1 not_ended_outOfFuel
      | fault fault m₂ => exact absurd (.failed tested holds turned) (endless _)
      | value flow m₂ =>
        cases flow with
        | return_ y => exact absurd (.returned tested holds turned) (endless _)
        | normal =>
          refine ⟨m₂, ⟨x, m₁, tested, holds, turned⟩, ?_⟩
          refine (comesTo_or_neverEnds _ m₂).resolve_left ?_
          rintro ⟨outcome, rest⟩
          exact endless outcome (.again tested holds turned ((comesTo_loop steady steady').mp rest))
    · exact absurd (.ended tested (Bool.eq_false_iff.mpr holds)) (endless _)

theorem neverEnds_loop (steady : Steady condition) (steady' : Steady body) :
    NeverEnds (fun fuel => loop fuel (condition fuel) (body fuel)) m ↔
      RepeatsForEver (ComesTo condition) (ComesTo body) (NeverEnds condition) (NeverEnds body) m := by
  refine ⟨fun never => ?_, fun forEver fuel => forEver.loop_eq steady steady' fuel fuel⟩
  by_cases stuck : ∃ m', Relation.ReflTransGen (Turn (ComesTo condition) (ComesTo body)) m m' ∧
      (NeverEnds condition m' ∨
        ∃ x m₁, ComesTo condition m' (.value x m₁) ∧ x.isTruthy = true ∧ NeverEnds body m₁)
  · exact .inl stuck
  · right
    -- Behind any number of turns there is another one, and the loop still does not end.
    let Here := { m' : Machine // Relation.ReflTransGen (Turn (ComesTo condition) (ComesTo body)) m m' ∧
      NeverEnds (fun fuel => loop fuel (condition fuel) (body fuel)) m' }
    have step : ∀ here : Here, ∃ next : Here, Turn (ComesTo condition) (ComesTo body) here.1 next.1 := by
      rintro ⟨m', reached, never'⟩
      have unstuck := not_exists.mp stuck m'
      obtain ⟨m'', turn, never''⟩ := turn_of_neverEnds steady steady' never'
        (fun tests => unstuck ⟨reached, .inl tests⟩)
        (fun x m₁ tested holds turns => unstuck ⟨reached, .inr ⟨x, m₁, tested, holds, turns⟩⟩)
      exact ⟨⟨m'', reached.tail turn, never''⟩, turn⟩
    choose next turn using step
    refine ⟨fun i => (next^[i] ⟨m, .refl, never⟩).1, rfl, fun i => ?_⟩
    have further := turn (next^[i] ⟨m, .refl, never⟩)
    rwa [← Function.iterate_succ_apply' next] at further

end Loop

section Pair

variable {first second : Stmt} {m : Machine}

theorem within_eq {α : Type} (environment : Environment) (action : Run α) (m : Machine) :
    within environment action m = (action { m with environment := environment }).backIn m.environment := by
  unfold within
  cases action { m with environment := environment } <;> rfl

theorem execute_block (fuel : Nat) (body : List Stmt) (m : Machine) :
    execute fuel (.block body) m =
      (Stmt.executeAll fuel (Closure.invoke fuel) body (m.inside m.environment)).backIn m.environment := by
  unfold execute
  rw [Stmt.execute]
  exact within_eq _ _ { m with store := (m.store.childOf m.environment).2 }

def sequel (second : Stmt) (fuel : Nat) : Flow → Run Flow
  | .normal => execute fuel second
  | .return_ x => Run.pure (.return_ x)

theorem executeAll_pair (fuel : Nat) (first second : Stmt) :
    Stmt.executeAll fuel (Closure.invoke fuel) [first, second] = (execute fuel first >>= sequel second fuel) := by
  have alone : Stmt.executeAll fuel (Closure.invoke fuel) [second] = execute fuel second := by
    funext m
    rw [Stmt.executeAll]
    cases done : second.execute fuel (Closure.invoke fuel) m with
    | value flow m₁ =>
      rw [bind_value done, execute, done]
      cases flow <;> rfl
    | fault fault m₁ => rw [bind_fault done, execute, done]
    | outOfFuel => rw [bind_outOfFuel done, execute, done]
  rw [Stmt.executeAll]
  congr 1
  funext flow
  cases flow with
  | normal => exact alone
  | return_ x => rfl

theorem steady_sequel (second : Stmt) (flow : Flow) : Steady fun fuel => sequel second fuel flow := by
  cases flow with
  | normal => exact steady_execute second
  | return_ x => exact steady_const _

theorem ended_backIn {α : Type} {environment : Environment} {outcome : Outcome α} :
    (outcome.backIn environment).Ended ↔ outcome.Ended := by
  cases outcome <;> simp [Outcome.backIn, Outcome.Ended, Outcome.machine?]

theorem comesTo_block {outcome : Outcome Flow} :
    ComesTo (fun fuel => execute fuel (.block [first, second])) m outcome ↔
      ∃ inner, ComesTo (fun fuel => execute fuel first >>= sequel second fuel) (m.inside m.environment) inner ∧
        outcome = inner.backIn m.environment := by
  constructor
  · rintro ⟨ended, fuel, rfl⟩
    dsimp only at ended ⊢
    rw [execute_block, executeAll_pair] at ended ⊢
    exact ⟨_, ⟨ended_backIn.mp ended, fuel, rfl⟩, rfl⟩
  · rintro ⟨inner, ⟨ended, fuel, rfl⟩, rfl⟩
    refine ⟨ended_backIn.mpr ended, fuel, ?_⟩
    dsimp only
    rw [execute_block, executeAll_pair]

theorem neverEnds_block :
    NeverEnds (fun fuel => execute fuel (.block [first, second])) m ↔
      NeverEnds (fun fuel => execute fuel first >>= sequel second fuel) (m.inside m.environment) := by
  refine forall_congr' fun fuel => ?_
  dsimp only
  rw [execute_block, executeAll_pair]
  cases (execute fuel first >>= sequel second fuel) (m.inside m.environment) <;> simp [Outcome.backIn]

end Pair

end Run

namespace Grammar.ForClauses

open Run

variable {clauses : ForClauses} {body : Stmt} {m : Machine}

def Tests (clauses : ForClauses) (m : Machine) (outcome : Outcome Value) : Prop :=
  match clauses.condition with
  | none => outcome = .value (.bool true) m
  | some condition => ComesTo (fun fuel => evaluate fuel condition) m outcome

def TestsForEver (clauses : ForClauses) (m : Machine) : Prop :=
  ∃ condition, clauses.condition = some condition ∧ NeverEnds (fun fuel => evaluate fuel condition) m

/-- What a turn comes to: the body, and behind it the increment unless the body fails or returns. If there is an
    increment, the two have a new scope to themselves. -/
inductive Turns (clauses : ForClauses) (body : Stmt) (m : Machine) : Outcome Flow → Prop where
  | uncounted {outcome : Outcome Flow} (absent : clauses.increment = none)
      (ran : ComesTo (fun fuel => execute fuel body) m outcome) : Turns clauses body m outcome
  | failed {increment : Expr} {fault : Fault} {m₁ : Machine} (present : clauses.increment = some increment)
      (ran : ComesTo (fun fuel => execute fuel body) (m.inside m.environment) (.fault fault m₁)) :
      Turns clauses body m (.fault fault { m₁ with environment := m.environment })
  | returned {increment : Expr} {x : Value} {m₁ : Machine} (present : clauses.increment = some increment)
      (ran : ComesTo (fun fuel => execute fuel body) (m.inside m.environment) (.value (.return_ x) m₁)) :
      Turns clauses body m (.value (.return_ x) { m₁ with environment := m.environment })
  | miscounted {increment : Expr} {fault : Fault} {m₁ m₂ : Machine} (present : clauses.increment = some increment)
      (ran : ComesTo (fun fuel => execute fuel body) (m.inside m.environment) (.value .normal m₁))
      (counted : ComesTo (fun fuel => evaluate fuel increment) m₁ (.fault fault m₂)) :
      Turns clauses body m (.fault fault { m₂ with environment := m.environment })
  | counted {increment : Expr} {x : Value} {m₁ m₂ : Machine} (present : clauses.increment = some increment)
      (ran : ComesTo (fun fuel => execute fuel body) (m.inside m.environment) (.value .normal m₁))
      (counted : ComesTo (fun fuel => evaluate fuel increment) m₁ (.value x m₂)) :
      Turns clauses body m (.value .normal { m₂ with environment := m.environment })

inductive TurnsForEver (clauses : ForClauses) (body : Stmt) (m : Machine) : Prop where
  | uncounted (absent : clauses.increment = none) (never : NeverEnds (fun fuel => execute fuel body) m)
  | body {increment : Expr} (present : clauses.increment = some increment)
      (never : NeverEnds (fun fuel => execute fuel body) (m.inside m.environment))
  | increment {increment : Expr} {m₁ : Machine} (present : clauses.increment = some increment)
      (ran : ComesTo (fun fuel => execute fuel body) (m.inside m.environment) (.value .normal m₁))
      (never : NeverEnds (fun fuel => evaluate fuel increment) m₁)

/-- What the whole loop comes to. An initializer is run once, in a scope around all turns. -/
inductive RunsTo (clauses : ForClauses) (body : Stmt) (m : Machine) : Outcome Flow → Prop where
  | uninitialized {outcome : Outcome Flow} (absent : clauses.initializer = none)
      (repeats : Repeats clauses.Tests (clauses.Turns body) m outcome) : RunsTo clauses body m outcome
  | failed {initializer : Stmt} {fault : Fault} {m₁ : Machine} (present : clauses.initializer = some initializer)
      (ran : ComesTo (fun fuel => execute fuel initializer) (m.inside m.environment) (.fault fault m₁)) :
      RunsTo clauses body m (.fault fault { m₁ with environment := m.environment })
  | initialized {initializer : Stmt} {m₁ : Machine} {outcome : Outcome Flow}
      (present : clauses.initializer = some initializer)
      (ran : ComesTo (fun fuel => execute fuel initializer) (m.inside m.environment) (.value .normal m₁))
      (repeats : Repeats clauses.Tests (clauses.Turns body) m₁ outcome) :
      RunsTo clauses body m (outcome.backIn m.environment)

inductive RunsForEver (clauses : ForClauses) (body : Stmt) (m : Machine) : Prop where
  | uninitialized (absent : clauses.initializer = none)
      (forEver : RepeatsForEver clauses.Tests (clauses.Turns body) clauses.TestsForEver (clauses.TurnsForEver body) m)
  | initializer {initializer : Stmt} (present : clauses.initializer = some initializer)
      (never : NeverEnds (fun fuel => execute fuel initializer) (m.inside m.environment))
  | initialized {initializer : Stmt} {m₁ : Machine} (present : clauses.initializer = some initializer)
      (ran : ComesTo (fun fuel => execute fuel initializer) (m.inside m.environment) (.value .normal m₁))
      (forEver : RepeatsForEver clauses.Tests (clauses.Turns body) clauses.TestsForEver (clauses.TurnsForEver body) m₁)

def test (clauses : ForClauses) : Expr := clauses.condition.getD (.constant (.bool true))

def turn (clauses : ForClauses) (body : Stmt) : Stmt :=
  match clauses.increment with
  | none => body
  | some increment => .block [body, .expression increment]

theorem loop_eq (clauses : ForClauses) (body : Stmt) :
    clauses.loop body = match clauses.initializer with
      | none => .while_ clauses.test (clauses.turn body)
      | some initializer => .block [initializer, .while_ clauses.test (clauses.turn body)] := rfl

theorem evaluate_true :
    (fun fuel => evaluate fuel (.constant (.bool true))) = fun _ => Run.pure (Value.bool true) := by
  funext fuel
  unfold evaluate
  rw [Expr.evaluate]
  rfl

theorem tests_eq : clauses.Tests = ComesTo fun fuel => evaluate fuel clauses.test := by
  funext m outcome
  unfold Tests test
  cases clauses.condition with
  | some condition => rfl
  | none => rw [Option.getD_none, evaluate_true, comesTo_pure]

theorem testsForEver_eq : clauses.TestsForEver = NeverEnds fun fuel => evaluate fuel clauses.test := by
  funext m
  unfold TestsForEver test
  cases clauses.condition with
  | some condition => simp
  | none => simp [evaluate_true, not_neverEnds_pure]

theorem execute_expression (fuel : Nat) (e : Expr) :
    execute fuel (.expression e) = (evaluate fuel e >>= fun _ => Run.pure .normal) := by
  unfold execute evaluate
  rw [Stmt.execute]
  rfl

theorem turns_eq : clauses.Turns body = ComesTo fun fuel => execute fuel (clauses.turn body) := by
  funext m outcome
  refine propext ?_
  cases written : clauses.increment with
  | none =>
    have same : clauses.turn body = body := by rw [turn, written]
    rw [same]
    constructor
    · intro turns
      cases turns with
      | uncounted _ ran => exact ran
      | failed present | returned present | miscounted present | counted present => cases written.symm.trans present
    · exact .uncounted written
  | some increment =>
    have same : clauses.turn body = .block [body, .expression increment] := by rw [turn, written]
    have counts {m₁ : Machine} {inner : Outcome Flow} :
        ComesTo (fun fuel => sequel (.expression increment) fuel .normal) m₁ inner ↔
          (∃ x m₂, ComesTo (fun fuel => evaluate fuel increment) m₁ (.value x m₂) ∧ inner = .value .normal m₂) ∨
            ∃ fault m₂, ComesTo (fun fuel => evaluate fuel increment) m₁ (.fault fault m₂) ∧ inner = .fault fault m₂ := by
      simp only [sequel, execute_expression]
      rw [comesTo_bind (steady_evaluate increment) fun _ => steady_const _]
      simp only [comesTo_pure]
    rw [same, comesTo_block]
    simp only [comesTo_bind (steady_execute body) (steady_sequel _)]
    constructor
    · intro turns
      cases turns with
      | uncounted absent => cases written.symm.trans absent
      | failed present ran => exact ⟨_, .inr ⟨_, _, ran, rfl⟩, rfl⟩
      | returned present ran => exact ⟨_, .inl ⟨_, _, ran, comesTo_pure.mpr rfl⟩, rfl⟩
      | miscounted present ran counted =>
        cases written.symm.trans present
        exact ⟨_, .inl ⟨_, _, ran, counts.mpr (.inr ⟨_, _, counted, rfl⟩)⟩, rfl⟩
      | counted present ran counted =>
        cases written.symm.trans present
        exact ⟨_, .inl ⟨_, _, ran, counts.mpr (.inl ⟨_, _, counted, rfl⟩)⟩, rfl⟩
    · rintro ⟨inner, ⟨flow, m₁, ran, rest⟩ | ⟨fault, m₁, ran, rfl⟩, rfl⟩
      · cases flow with
        | return_ x =>
          cases comesTo_pure.mp rest
          exact .returned written ran
        | normal =>
          rcases counts.mp rest with ⟨x, m₂, counted, rfl⟩ | ⟨fault, m₂, counted, rfl⟩
          · exact .counted written ran counted
          · exact .miscounted written ran counted
      · exact .failed written ran

theorem turnsForEver_eq : clauses.TurnsForEver body = NeverEnds fun fuel => execute fuel (clauses.turn body) := by
  funext m
  refine propext ?_
  cases written : clauses.increment with
  | none =>
    have same : clauses.turn body = body := by rw [turn, written]
    rw [same]
    constructor
    · intro forEver
      cases forEver with
      | uncounted _ never => exact never
      | body present | increment present => cases written.symm.trans present
    · exact .uncounted written
  | some increment =>
    have same : clauses.turn body = .block [body, .expression increment] := by rw [turn, written]
    have counts {m₁ : Machine} : NeverEnds (fun fuel => sequel (.expression increment) fuel .normal) m₁ ↔
        NeverEnds (fun fuel => evaluate fuel increment) m₁ := by
      simp only [sequel, execute_expression]
      rw [neverEnds_bind (steady_evaluate increment) fun _ => steady_const _]
      simp only [not_neverEnds_pure, and_false, exists_false, or_false]
    rw [same, neverEnds_block, neverEnds_bind (steady_execute body) (steady_sequel _)]
    constructor
    · intro forEver
      cases forEver with
      | uncounted absent => cases written.symm.trans absent
      | body present never => exact .inl never
      | increment present ran never =>
        cases written.symm.trans present
        exact .inr ⟨_, _, ran, counts.mpr never⟩
    · rintro (never | ⟨flow, m₁, ran, never⟩)
      · exact .body written never
      · cases flow with
        | normal => exact .increment written ran (counts.mp never)
        | return_ x => exact absurd never not_neverEnds_pure

theorem comesTo_while {outcome : Outcome Flow} :
    ComesTo (fun fuel => execute fuel (.while_ clauses.test (clauses.turn body))) m outcome ↔
      Repeats clauses.Tests (clauses.Turns body) m outcome := by
  rw [tests_eq, turns_eq, ← comesTo_loop (steady_evaluate _) (steady_execute _)]
  simp only [execute, Stmt.execute]
  rfl

theorem neverEnds_while :
    NeverEnds (fun fuel => execute fuel (.while_ clauses.test (clauses.turn body))) m ↔
      RepeatsForEver clauses.Tests (clauses.Turns body) clauses.TestsForEver (clauses.TurnsForEver body) m := by
  rw [tests_eq, turns_eq, testsForEver_eq, turnsForEver_eq, ← neverEnds_loop (steady_evaluate _) (steady_execute _)]
  simp only [execute, Stmt.execute]
  rfl

def Plain (clauses : ForClauses) : Prop :=
  ∀ initializer, clauses.initializer = some initializer →
    (∃ name value, initializer = .var_ name value) ∨ ∃ e, initializer = .expression e

theorem Plain.not_returns (plain : clauses.Plain) {initializer : Stmt}
    (present : clauses.initializer = some initializer) {x : Value} {m₁ : Machine} :
    ¬ComesTo (fun fuel => execute fuel initializer) m (.value (.return_ x) m₁) := by
  rintro ⟨-, fuel, done⟩
  rcases plain initializer present with ⟨name, value, rfl⟩ | ⟨e, rfl⟩
  · dsimp only [execute] at done
    rw [Stmt.execute] at done
    cases valued : optional (Closure.invoke fuel) value m with
    | value y m₂ =>
      rw [bind_value valued] at done
      cases done
    | fault fault m₂ =>
      rw [bind_fault valued] at done
      cases done
    | outOfFuel =>
      rw [bind_outOfFuel valued] at done
      cases done
  · dsimp only at done
    rw [execute_expression] at done
    cases valued : evaluate fuel e m with
    | value y m₂ =>
      rw [bind_value valued] at done
      cases done
    | fault fault m₂ =>
      rw [bind_fault valued] at done
      cases done
    | outOfFuel =>
      rw [bind_outOfFuel valued] at done
      cases done

theorem comesTo_loop_iff (plain : clauses.Plain) {outcome : Outcome Flow} :
    ComesTo (fun fuel => execute fuel (clauses.loop body)) m outcome ↔ clauses.RunsTo body m outcome := by
  rw [loop_eq]
  cases written : clauses.initializer with
  | none =>
    dsimp only
    rw [comesTo_while]
    constructor
    · exact .uninitialized written
    · intro runs
      cases runs with
      | uninitialized _ repeats => exact repeats
      | failed present | initialized present => cases written.symm.trans present
  | some initializer =>
    dsimp only
    simp only [comesTo_block, comesTo_bind (steady_execute initializer) (steady_sequel _)]
    constructor
    · rintro ⟨inner, ⟨flow, m₁, ran, rest⟩ | ⟨fault, m₁, ran, rfl⟩, rfl⟩
      · cases flow with
        | return_ x => exact absurd ran (plain.not_returns written)
        | normal => exact .initialized written ran (comesTo_while.mp rest)
      · exact .failed written ran
    · intro runs
      cases runs with
      | uninitialized absent => cases written.symm.trans absent
      | failed present ran =>
        cases written.symm.trans present
        exact ⟨_, .inr ⟨_, _, ran, rfl⟩, rfl⟩
      | initialized present ran repeats =>
        cases written.symm.trans present
        exact ⟨_, .inl ⟨_, _, ran, comesTo_while.mpr repeats⟩, rfl⟩

theorem neverEnds_loop_iff (plain : clauses.Plain) :
    NeverEnds (fun fuel => execute fuel (clauses.loop body)) m ↔ clauses.RunsForEver body m := by
  rw [loop_eq]
  cases written : clauses.initializer with
  | none =>
    dsimp only
    rw [neverEnds_while]
    constructor
    · exact .uninitialized written
    · intro runs
      cases runs with
      | uninitialized _ forEver => exact forEver
      | initializer present | initialized present => cases written.symm.trans present
  | some initializer =>
    dsimp only
    rw [neverEnds_block, neverEnds_bind (steady_execute initializer) (steady_sequel _)]
    constructor
    · rintro (never | ⟨flow, m₁, ran, never⟩)
      · exact .initializer written never
      · cases flow with
        | return_ x => exact absurd ran (plain.not_returns written)
        | normal => exact .initialized written ran (neverEnds_while.mp never)
    · intro runs
      cases runs with
      | uninitialized absent => cases written.symm.trans absent
      | initializer present never =>
        cases written.symm.trans present
        exact .inl never
      | initialized present ran forEver =>
        cases written.symm.trans present
        exact .inr ⟨_, _, ran, neverEnds_while.mpr forEver⟩

end Grammar.ForClauses

namespace Grammar

variable {c c₁ c₂ next : Cursor}

theorem ReadsStmt.plain {clauses : ForClauses} (reads : ReadsStmt (.forClauses clauses) c next) : clauses.Plain := by
  cases reads with
  | forClauses _ first =>
    intro initializer present
    cases present
    cases first with
    | varInitializer _ read =>
      cases read
      exact .inl ⟨_, _, rfl⟩
    | exprInitializer _ read =>
      cases read
      exact .inr ⟨_, rfl⟩

theorem Cursor.Takes.token_eq {kinds kinds' : List Kind} {token token' : Token} (taken : c.Takes kinds token c₁)
    (taken' : c.Takes kinds' token' c₂) : token = token' :=
  (List.cons.inj (taken.2.1.symm.trans taken'.2.1)).1

theorem Cursor.Takes.next_eq {kinds kinds' : List Kind} {token token' : Token} (taken : c.Takes kinds token c₁)
    (taken' : c.Takes kinds' token' c₂) : c₁ = c₂ := by
  rw [taken.2.2, taken'.2.2, (List.cons.inj (taken.2.1.symm.trans taken'.2.1)).2]

theorem ReadsStmt.of_for {keyword : Token} {stmt : Stmt} (front : c.Takes [.keyword .for_] keyword c₁)
    (reads : ReadsStmt (.statement stmt) c next) :
    ∃ clauses body c₂, ReadsStmt (.forClauses clauses) c₁ c₂ ∧ ReadsStmt (.statement body) c₂ next ∧
      stmt = clauses.loop body := by
  have word : keyword.kind = .keyword .for_ := List.mem_singleton.mp front.1
  cases reads with
  | forLoop front' head read =>
    cases front.next_eq front'
    exact ⟨_, _, _, head, read, rfl⟩
  | ifThen front' | ifThenElse front' | printing front' | returning front' | whileLoop front' | braced front' =>
    have other := front'.1
    rw [← front.token_eq front', word] at other
    simp at other
  | expressed plain =>
    refine absurd ?_ (plain keyword (by rw [front.2.1]; rfl))
    rw [word]
    decide

/-- A `for` statement, wherever it is read, comes to what it says as it is written, on every machine; and it never ends
    just if it does not as it is written. -/
theorem for_statement_as_written {keyword : Token} {stmt : Stmt} (front : c.Takes [.keyword .for_] keyword c₁)
    (read : (statement c).Yields stmt next) :
    ∃ clauses body c₂, (forClauses c₁).Yields clauses c₂ ∧ (statement c₂).Yields body next ∧
      ∀ m, (∀ outcome, Run.ComesTo (fun fuel => Run.execute fuel stmt) m outcome ↔ clauses.RunsTo body m outcome) ∧
        (Run.NeverEnds (fun fuel => Run.execute fuel stmt) m ↔ clauses.RunsForEver body m) := by
  have reads := (statement_obeys c).of_yields read
  obtain ⟨clauses, body, c₂, head, inner, rfl⟩ := reads.of_for front
  refine ⟨clauses, body, c₂, head.yielded, inner.yielded, fun m => ⟨fun outcome => ?_, ?_⟩⟩
  · exact ForClauses.comesTo_loop_iff head.plain
  · exact ForClauses.neverEnds_loop_iff head.plain

theorem for_statement_as_written_once : ∃ (c c₁ c₂ next : Cursor) (keyword : Token) (stmt body : Stmt)
    (clauses : ForClauses) (m m' : Machine),
    c.Takes [.keyword .for_] keyword c₁ ∧ (statement c).Yields stmt next ∧ (forClauses c₁).Yields clauses c₂ ∧
      (statement c₂).Yields body next ∧ clauses.RunsTo body m (.value .normal m') ∧ m'.lines = #[.out "true"] := by
  -- for (a = true; a; a = false) print a;
  let a : Token := ⟨.identifier, "a", none, 1⟩
  let semicolon : Token := ⟨.semicolon, ";", none, 1⟩
  let equals : Token := ⟨.equal, "=", none, 1⟩
  let word : Token := ⟨.keyword .for_, "for", none, 1⟩
  let tokens : List Token := [⟨.leftParen, "(", none, 1⟩, a, equals, ⟨.keyword .true_, "true", none, 1⟩, semicolon, a,
    semicolon, a, equals, ⟨.keyword .false_, "false", none, 1⟩, ⟨.rightParen, ")", none, 1⟩,
    ⟨.keyword .print_, "print", none, 1⟩, a, semicolon]
  let stop : Token := ⟨.eof, "", none, 1⟩
  let stmt : Stmt := .block [.expression (.assign 1 a (.constant (.bool true))), .while_ (.variable_ 2 a)
    (.block [.print_ (.variable_ 5 a), .expression (.assign 4 a (.constant (.bool false)))])]
  let m : Machine := ⟨.root 0, .root 0, 0, ∅, ⟨#[[("a", .nil)]], #[], 0⟩, #[], ⟨fun _ => .zero, 0⟩⟩
  have front : Cursor.Takes ⟨word :: tokens, stop, 0, []⟩ [.keyword .for_] word ⟨tokens, stop, 0, []⟩ :=
    ⟨by decide, rfl, rfl⟩
  have read : (statement ⟨word :: tokens, stop, 0, []⟩).Yields stmt ⟨[], stop, 6, []⟩ := ⟨by decide, by cbv⟩
  obtain ⟨clauses, body, c₂, head, inner, meaning⟩ := for_statement_as_written front read
  -- Fuel for two turns is enough: one turn of the loop, and one more test of its condition.
  have ran : Run.execute 2 stmt m =
      .value .normal { m with store := ⟨#[[("a", .bool false)], [], []], #[], 0⟩, lines := #[.out "true"] } := by cbv
  exact ⟨_, _, _, _, _, _, _, _, m, _, front, read, head, inner,
    ((meaning m).1 _).mp ⟨Run.ended_value _ _, 2, ran⟩, rfl⟩

end Grammar
end Lox
