import Lox.Proofs.Machine.Fuel
import Lox.Proofs.Session.Place
import Lox.Proofs.Session.Steps
import Lox.Proofs.Tree.Loops

namespace Lox.Session

variable {readings : Nat → Number} {s ready : Session} {source : String} {program : List Stmt}
  {programs : List (List Stmt)} {fuel : Nat}

/-- No token of the text begins a loop. -/
def isUnlooped (source : String) : Bool :=
  ((Lexer.scan source).filterMap Lexed.token?).all fun t => t.kind ∉ loopWords

theorem accept?_anyLoop (accepted : s.accept? source = some (program, ready)) (free : isUnlooped source = true) :
    Stmt.anyLoop program = false := by
  obtain ⟨lines, flags, parsed⟩ := s.parse_scan source
  unfold accept? at accepted
  dsimp only at accepted
  split at accepted
  · cases accepted
  split at accepted
  · cases accepted
  · cases accepted
    rw [parsed]
    exact parseProgram_anyLoop (fun t member => of_decide_eq_true (List.all_eq_true.mp free t member)) _

theorem Consistent.not_loops {b : Activity} (consistent : s.Consistent (program :: programs))
    (free : ∀ p ∈ program :: programs, Stmt.anyLoop p = false)
    (during : Activity.During ⟨fuel, .program program, s.machine⟩ b) : ¬b.Loops := by
  have unmet {condition : Expr} {body : Stmt} {m : Machine} :
      ¬(consistent.setting ⟨fuel, .program program, s.machine⟩).Meets (.stmt (.while_ condition body)) m := by
    rintro ⟨context, w, ⟨p, listed, visited⟩, -⟩
    have none := visited.hasLoop_eq_false (free p listed)
    cases none
  obtain ⟨-, sound⟩ := consistent.during_sound during
  obtain ⟨n, task, m⟩ := b
  cases task with
  | stmt stmt =>
    cases stmt with
    | while_ condition body => exact absurd sound unmet
    | _ => exact id
  | loop turns condition body => exact absurd sound unmet
  | _ => exact id

theorem Consistent.program_ended (consistent : s.Consistent (program :: programs))
    (free : ∀ p ∈ program :: programs, Stmt.anyLoop p = false) (rests : s.machine.depth = 0) (ample : maxCallDepth ≤ fuel) :
    (Run.program fuel program s.machine).Ended := by
  apply Activity.ended_of_straight ⟨fuel, .program program, s.machine⟩
  · show s.machine.depth ≤ maxCallDepth
    omega
  · show maxCallDepth ≤ fuel + s.machine.depth
    omega
  · intro b during
    exact consistent.not_loops free during

theorem interpret_of_ended (ended : (Run.program fuel program s.machine).Ended) :
    ∃ s', ∀ fuel', fuel ≤ fuel' → s.interpret fuel' program = some s' := by
  have wide {fuel' : Nat} (more : fuel ≤ fuel') :
      Run.program fuel' program s.machine = Run.program fuel program s.machine :=
    Run.extends_program more program s.machine ended
  cases outcome : Run.program fuel program s.machine with
  | value result m =>
    refine ⟨{ s with machine := m }, fun fuel' more => ?_⟩
    rw [interpret, wide more, outcome]
  | fault fault m =>
    refine ⟨({ s with machine := m } : Session).report (.runtime fault), fun fuel' more => ?_⟩
    rw [interpret, wide more, outcome]
  | outOfFuel =>
    rw [outcome] at ended
    exact absurd rfl ended

theorem History.step_ends {next : Step} (past : s.History readings programs)
    (free : ∀ p ∈ programs, Stmt.anyLoop p = false) (unlooped : ∀ source, next = .run source → isUnlooped source = true) :
    ∃ s' programs', (∀ fuel, maxCallDepth ≤ fuel → s.step fuel next = some s') ∧ s'.History readings programs' ∧
      ∀ p ∈ programs', Stmt.anyLoop p = false := by
  cases next with
  | reset => exact ⟨_, programs, fun _ _ => rfl, past.reset, free⟩
  | run source =>
    cases accepted : s.accept? source with
    | none =>
      obtain ⟨s', ran⟩ := run_of_refused accepted
      exact ⟨s', programs, fun fuel _ => ran fuel, past.refused accepted (ran 0), free⟩
    | some result =>
      obtain ⟨program, ready⟩ := result
      have both : ∀ p ∈ program :: programs, Stmt.anyLoop p = false :=
        List.forall_mem_cons.mpr ⟨accept?_anyLoop accepted (unlooped source rfl), free⟩
      have rests : ready.machine.depth = 0 :=
        (accept?_eq_some accepted).1.samePlace.depth.trans past.depth_eq_zero
      have ended := (past.consistent.accept accepted).program_ended both rests (Nat.le_refl _)
      obtain ⟨s', ran⟩ := interpret_of_ended ended
      have runs (fuel : Nat) (ample : maxCallDepth ≤ fuel) : s.run fuel source = some s' := by
        rw [run_accepted accepted, ran fuel ample]
      exact ⟨s', program :: programs, runs, past.accepted accepted (runs _ (Nat.le_refl _)), both⟩

/-- A session whose texts have no loop ends, however its programs call one another, and with one result whatever fuel
    there is beyond the limit on nested calls. -/
theorem unlooped_terminates (readings : Nat → Number) (list : List Step)
    (unlooped : ∀ source, .run source ∈ list → isUnlooped source = true) :
    ∃ s, ∀ fuel, maxCallDepth ≤ fuel → (Session.start readings).steps fuel list = some s := by
  have goes_on : ∀ (list : List Step) (s : Session) (programs : List (List Stmt)), s.History readings programs →
      (∀ p ∈ programs, Stmt.anyLoop p = false) → (∀ source, .run source ∈ list → isUnlooped source = true) →
      ∃ s', ∀ fuel, maxCallDepth ≤ fuel → s.steps fuel list = some s' := by
    intro list
    induction list with
    | nil => exact fun s _ _ _ _ => ⟨s, fun _ _ => rfl⟩
    | cons next rest ih =>
      intro s programs past free unlooped
      have first : ∀ source, next = .run source → isUnlooped source = true := fun source here =>
        unlooped source (here ▸ List.mem_cons_self ..)
      obtain ⟨s₁, programs₁, stepped, past₁, free₁⟩ := past.step_ends free first
      obtain ⟨s', ends⟩ := ih s₁ programs₁ past₁ free₁ fun source listed => unlooped source (List.mem_cons_of_mem _ listed)
      refine ⟨s', fun fuel ample => ?_⟩
      rw [steps, stepped fuel ample]
      exact ends fuel ample
  exact goes_on list _ [] .start (by simp) unlooped

theorem unlooped_terminates_recursion :
    isUnlooped "class A { init() { A(); } } fun f() { f(); } f();" = true ∧ isUnlooped "A();" = true ∧
    ∃ s, ∀ fuel, maxCallDepth ≤ fuel → (Session.start fun _ => .zero).steps fuel
      [.run "class A { init() { A(); } } fun f() { f(); } f();", .reset, .run "A();"] = some s := by
  have first : isUnlooped "class A { init() { A(); } } fun f() { f(); } f();" = true := by cbv
  have second : isUnlooped "A();" = true := by cbv
  refine ⟨first, second, unlooped_terminates _ _ fun source listed => ?_⟩
  simp only [List.mem_cons, Step.run.injEq, reduceCtorEq, List.not_mem_nil, or_false, false_or] at listed
  rcases listed with rfl | rfl
  · exact first
  · exact second

end Lox.Session
