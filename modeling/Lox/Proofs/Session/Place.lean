import Mathlib
import Lox.Proofs.Machine.Place
import Lox.Proofs.Machine.Watching
import Lox.Proofs.Session.History

namespace Lox

/-- Runs functions as usual, but only at depths beyond the given one, and no deeper than calls may be nested. -/
noncomputable def Closure.bounded (depth : Nat) (other : Invoke) : Nat → Invoke :=
  watched (fun _ _ _ m => depth < m.depth ∧ m.depth ≤ maxCallDepth) other

theorem Activity.expected_depth {depth : Nat} {a : Activity} (around : depth ≤ a.machine.depth)
    (invoked : ∀ f xs, a.task = .invoke f xs → depth < a.machine.depth) (bounded : a.machine.depth ≤ maxCallDepth) :
    a.Expected fun _ _ _ m => depth < m.depth ∧ m.depth ≤ maxCallDepth := by
  intro n f xs m during
  refine ⟨?_, during.depth_le bounded⟩
  cases during with
  | start => exact invoked f xs rfl
  | spawned before spawns =>
    have deeper := spawns.depth.2
    have above := before.le_depth
    dsimp only at deeper
    omega

namespace Run

variable {n : Nat} {m : Machine} {other : Invoke}

theorem call_bounded {callee : Value} {paren : Token} {arguments : List Value} :
    call (Closure.bounded m.depth other n) callee paren arguments m =
      call (Closure.invoke n) callee paren arguments m := by
  refine call_agree fun f m₁ calls => Closure.watched_usual _ other n f arguments m₁ ?_
  have deeper : m₁.depth = m.depth + 1 ∧ m.depth < maxCallDepth := by
    cases calls with
    | function fits shallow | class_ fits shallow found => exact ⟨rfl, shallow⟩
  refine Activity.expected_depth ?_ (fun _ _ _ => ?_) ?_ <;> dsimp only <;> omega

theorem call_too_deep {invoke : Invoke} {callee : Value} {paren : Token} {arguments : List Value}
    (fits : callee.arity? = some arguments.length) (counted : ∀ f, callee ≠ .native f) (deep : maxCallDepth ≤ m.depth) :
    call invoke callee paren arguments m = .fault (.stackOverflow paren) m := by
  have refused (action : Run Value) : nested paren action m = .fault (.stackOverflow paren) m := by
    show (if maxCallDepth ≤ m.depth then _ else _ : Run Value) m = _
    rw [if_pos deep]
    rfl
  unfold call
  rw [fits]
  dsimp only
  rw [if_neg (not_not_intro rfl)]
  cases callee with
  | function | class_ => exact refused _
  | native f => exact absurd rfl (counted f)
  | _ => cases fits

end Run

namespace Session

variable {readings : Nat → Number} {s s' : Session} {program : List Stmt} {programs : List (List Stmt)} {fuel : Nat}

theorem interpret_samePlace (ran : s.interpret fuel program = some s') : s.machine.SamePlace s'.machine := by
  have restores := Run.restores_program fuel program
  unfold interpret at ran
  split at ran
  · rename_i done
    cases ran
    exact restores.of_value done
  · rename_i failed
    cases ran
    have same := restores.of_fault failed
    exact ⟨same.globals, same.environment, same.depth⟩
  · cases ran

theorem Prepares.samePlace {references : List Scope.Reference} (prepares : s.Prepares s' references) :
    s.machine.SamePlace s'.machine := by
  obtain ⟨lines, machine⟩ := prepares.machine
  rw [machine]
  exact ⟨rfl, rfl, rfl⟩

theorem History.depth_eq_zero (past : s.History readings programs) : s.machine.depth = 0 := by
  induction past with
  | start => rfl
  | reset _ ih | takeLines _ ih => exact ih
  | refused _ refused ran ih =>
    obtain ⟨references, prepares⟩ := run_refused refused ran
    exact prepares.samePlace.depth.trans ih
  | accepted _ accepted ran ih =>
    rw [run_accepted accepted] at ran
    have prepared := (accept?_eq_some accepted).1.samePlace
    exact (interpret_samePlace ran).depth.trans (prepared.depth.trans ih)

/-- Environment and depth are restored on every way out of an evaluation, an execution, a block or a call. From a machine
    that is not too deep, no moment of it is: functions are run only at depths in bounds, and a call beyond is refused. So a
    session is at its globals between runs, with no call under way. -/
theorem place_restored (n : Nat) :
    (∀ e, (Run.evaluate n e).Restores) ∧
    (∀ s, (Run.execute n s).Restores) ∧
    (∀ environment body, (Run.within environment (Stmt.executeAll n (Closure.invoke n) body)).Restores) ∧
    (∀ program, (Run.program n program).Restores) ∧
    (∀ callee paren arguments, (Run.call (Closure.invoke n) callee paren arguments).Restores) ∧
    (∀ task m m', m.depth ≤ maxCallDepth → Activity.Passes ⟨n, task, m⟩ m' → m'.depth ≤ maxCallDepth) ∧
    (∀ x xs f m m₁ m', m.depth ≤ maxCallDepth → Value.Calls x xs m f m₁ → Activity.Passes ⟨n, .invoke f xs, m₁⟩ m' →
      m'.depth ≤ maxCallDepth) ∧
    (∀ other m, m.depth ≤ maxCallDepth →
      (∀ e, e.evaluate (Closure.bounded m.depth other n) m = Run.evaluate n e m) ∧
      (∀ s, s.execute n (Closure.bounded m.depth other n) m = Run.execute n s m) ∧
      (∀ environment body, Run.within environment (Stmt.executeAll n (Closure.bounded m.depth other n) body) m =
        Run.within environment (Stmt.executeAll n (Closure.invoke n) body) m) ∧
      (∀ program, Run.programWith n (Closure.bounded m.depth other n) program m = Run.program n program m) ∧
      ∀ callee paren arguments, Run.call (Closure.bounded m.depth other n) callee paren arguments m =
        Run.call (Closure.invoke n) callee paren arguments m) ∧
    (∀ callee paren arguments m, callee.arity? = some arguments.length → (∀ f, callee ≠ .native f) →
      maxCallDepth ≤ m.depth →
      Run.call (Closure.invoke n) callee paren arguments m = .fault (.stackOverflow paren) m) ∧
    ∀ readings s programs, History readings s programs → s.machine.environment = s.machine.globals ∧
      s.machine.depth = 0 := by
  have calls := Closure.invoke_restores n
  refine ⟨Expr.evaluate_restores calls, Stmt.execute_restores calls n, ?_, Run.restores_program n,
    Run.restores_call calls, ?_, ?_, ?_, ?_, ?_⟩
  · intro environment body
    exact (Stmt.executeAll_restores calls n body).within environment
  · intro task m m' bounded passes
    exact passes.depth_le bounded
  · intro x xs f m m₁ m' bounded call passes
    apply passes.depth_le
    cases call with
    | function fits shallow | class_ fits shallow found => exact shallow
  · intro other m bounded
    have usual := Closure.watched_usual (fun _ _ _ m' => m.depth < m'.depth ∧ m'.depth ≤ maxCallDepth) other n
    have expected (task : Task) (environment : Environment) (plain : ∀ f xs, task ≠ .invoke f xs) :
        Activity.Expected (fun _ _ _ m' => m.depth < m'.depth ∧ m'.depth ≤ maxCallDepth)
          ⟨n, task, { m with environment := environment }⟩ :=
      Activity.expected_depth (Nat.le_refl _) (fun f xs same => absurd same (plain f xs)) bounded
    refine ⟨fun e => ?_, fun s => ?_, fun environment body => ?_, fun program => ?_, fun callee paren arguments => ?_⟩
    · exact e.evaluate_usual usual m (expected _ m.environment (by simp))
    · exact s.execute_usual usual m (expected _ m.environment (by simp))
    · exact Run.within_agree (Stmt.executeAll_usual usual body _ (expected _ environment (by simp)))
    · exact Run.program_watched other (expected _ m.environment (by simp))
    · exact Run.call_bounded
  · intro callee paren arguments m fits counted deep
    exact Run.call_too_deep fits counted deep
  · intro readings s programs past
    exact ⟨past.consistent.environment, past.depth_eq_zero⟩

theorem place_restored_recursion : ∃ (m m' : Machine) (e : Expr) (paren : Token) (s s' : Session),
    m.depth ≤ maxCallDepth ∧ Run.evaluate 2 e m = .fault (.stackOverflow paren) m' ∧ m.SamePlace m' ∧
    (∀ m₁, Activity.Passes ⟨2, .expr e, m⟩ m₁ → m₁.depth ≤ maxCallDepth) ∧
    (∀ other, e.evaluate (Closure.bounded m.depth other 2) m = .fault (.stackOverflow paren) m') ∧
    (∃ f, Run.call (Closure.invoke 2) (.function 0 f) paren [] m.deepened = .fault (.stackOverflow paren) m.deepened) ∧
    s.run 1 "\x7b nil(); \x7d" = some s' ∧ s'.flags.runtime = true ∧
    s'.machine.environment = s'.machine.globals ∧ s'.machine.depth = 0 := by
  let f : Token := ⟨.identifier, "f", none, 1⟩
  let paren : Token := ⟨.rightParen, ")", none, 1⟩
  let e : Expr := .call (.variable_ 0 f) paren []
  -- A function that calls itself, one call below the limit: the first call is let through, the second is not.
  let closure : Closure := ⟨.mk f [] [.expression e], .root 0, false⟩
  let start : Machine := .start fun _ => .zero
  let m : Machine := { start with depth := 1023, store := start.store.define (.root 0) "f" (.function 0 closure) }
  have ended : Run.evaluate 2 e m = .fault (.stackOverflow paren) { m with store := (closure.enter [] m.store).2 } := rfl
  let s : Session := .start fun _ => .zero
  let program : List Stmt := [.block [.expression (.call (.constant .nil) paren [])]]
  have accepted : s.accept? "\x7b nil(); \x7d" = some (program, s) := by cbv
  have ran : s.run 1 "\x7b nil(); \x7d" = s.interpret 1 program := run_accepted accepted 1
  obtain ⟨evaluates, -, -, -, -, passes, -, watches, refuses, rests⟩ := place_restored 2
  have shallow : m.depth ≤ maxCallDepth := by decide
  have restored : m.SamePlace _ := evaluates e m _ (by rw [ended]; rfl)
  have resting := rests _ _ _ (.accepted .start accepted ran)
  have watched (other : Invoke) := ((watches other m shallow).1 e).trans ended
  have refused := refuses (.function 0 closure) paren [] m.deepened rfl (by simp) (by decide)
  exact ⟨m, _, e, paren, s, _, shallow, ended, restored, fun m₁ => passes _ m m₁ shallow, watched, ⟨_, refused⟩, ran, rfl,
    resting⟩

end Session
end Lox
