import Lox.Proofs.Machine.Watching
import Lox.Proofs.Session.Super

namespace Lox

open Scope (Visit Visits)

theorem Scope.params_nodup {context : Context} {d : FunctionDecl} {w : Walk}
    (clean : (walkFunction context d w).misuses = []) : (d.params.map Token.lexeme).Nodup := by
  obtain ⟨name, params, body⟩ := d
  rw [walkFunction, Walk.misuses_leave] at clean
  have bound := (walkStmts_leads context body _).clean clean
  exact (misuses_bindAll_eq_nil.mp bound).2.1

namespace Store

variable {params : List Token} {xs : List Value} {e : Environment}

theorem lookup?_defineAll_other {name : String} (s : Store) (other : name ∉ params.map Token.lexeme) :
    ((params.zip xs).foldl (fun s (param, x) => s.define e param.lexeme x) s).lookup? e.scope name =
      s.lookup? e.scope name := by
  induction params generalizing xs s with
  | nil => rfl
  | cons param rest ih =>
    obtain ⟨different, others⟩ := List.ne_and_not_mem_of_not_mem_cons other
    cases xs with
    | nil => rfl
    | cons x xs =>
      refine (ih (s.define e param.lexeme x) others).trans ?_
      rw [define, lookup?_bind, if_neg fun same => different same.2.1.symm]

theorem lookup?_defineAll {s : Store} (inside : e.scope < s.scopes.size) (distinct : (params.map Token.lexeme).Nodup)
    (fits : xs.length = params.length) (i : Nat) (param : Token) (here : params[i]? = some param) :
    ((params.zip xs).foldl (fun s (param, x) => s.define e param.lexeme x) s).lookup? e.scope param.lexeme = xs[i]? := by
  induction params generalizing xs s i with
  | nil => cases here
  | cons first rest ih =>
    obtain ⟨apart, distinct⟩ := List.nodup_cons.mp distinct
    cases xs with
    | nil => cases fits
    | cons x xs =>
      cases i with
      | zero =>
        obtain rfl : first = param := Option.some.inj here
        refine (lookup?_defineAll_other (s.define e first.lexeme x) apart).trans ?_
        rw [define, lookup?_bind, if_pos ⟨rfl, rfl, inside⟩]
        rfl
      | succ i =>
        have inside' : e.scope < (s.define e first.lexeme x).scopes.size := by simpa [define] using inside
        exact ih inside' distinct (Nat.succ.inj fits) i here

end Store

def Closure.Receives (f : Closure) (xs : List Value) (m : Machine) : Prop :=
  xs.length = f.declaration.params.length ∧ ∀ (i : Nat) (param : Token), f.declaration.params[i]? = some param →
    (m.entered f xs).store.lookup? (m.entered f xs).environment.scope param.lexeme = xs[i]?

theorem Closure.receives {f : Closure} {xs : List Value} {m : Machine} (fits : xs.length = f.arity)
    (distinct : (f.declaration.params.map Token.lexeme).Nodup) : f.Receives xs m := by
  refine ⟨fits, fun i param here => ?_⟩
  exact Store.lookup?_defineAll (e := (m.store.childOf f.environment).1) (by simp [Store.childOf, Environment.scope])
    distinct fits i param here

/-- How many arguments a value takes: those of its parameters, or of the nearest initializer of a class. -/
inductive Value.Takes : Value → Nat → Prop where
  | native {function : Native} : Takes (.native function) 0
  | function {identity : Identity} {f : Closure} : Takes (.function identity f) f.declaration.params.length
  | initialized {c : Class} {f : Closure} (nearest : c.Nearest initializerName f) :
      Takes (.class_ c) f.declaration.params.length
  | uninitialized {c : Class} (none : ∀ k ∈ c.ancestry, k.methods.find? initializerName = none) : Takes (.class_ c) 0

theorem Value.takes_iff {x : Value} {count : Nat} : x.Takes count ↔ x.arity? = some count := by
  constructor
  · intro takes
    cases takes with
    | native | function => rfl
    | initialized nearest =>
      have found := Class.findMethod?_eq_some_iff.mpr nearest
      rw [arity?, Class.arity, Class.initializer?, found]
      rfl
    | uninitialized none =>
      have missing := Class.findMethod?_eq_none_iff.mpr none
      rw [arity?, Class.arity, Class.initializer?, missing]
      rfl
  · intro taken
    cases x with
    | native f =>
      cases taken
      exact .native
    | function identity f =>
      cases taken
      exact .function
    | class_ c =>
      cases taken
      cases found : c.initializer? with
      | none =>
        rw [Class.arity, found]
        exact .uninitialized (Class.findMethod?_eq_none_iff.mp found)
      | some f =>
        rw [Class.arity, found]
        exact .initialized (Class.findMethod?_eq_some_iff.mp found)
    | _ => cases taken

theorem Run.call_mismatch {invoke : Invoke} {x : Value} {count : Nat} {paren : Token} {xs : List Value}
    (takes : x.Takes count) (mismatch : xs.length ≠ count) (m : Machine) :
    Run.call invoke x paren xs m = .fault (.argumentMismatch paren count xs.length) m := by
  unfold Run.call
  rw [Value.takes_iff.mp takes]
  dsimp only
  rw [if_pos mismatch]
  rfl

namespace Session

variable {readings : Nat → Number} {s ready : Session} {programs : List (List Stmt)} {source : String}
  {program : List Stmt}

theorem Consistent.receives {fuel n : Nat} {f : Closure} {xs : List Value} {m : Machine}
    (consistent : s.Consistent (program :: programs))
    (during : Activity.During ⟨fuel, .program program, s.machine⟩ ⟨n, .invoke f xs, m⟩) : f.Receives xs m := by
  obtain ⟨-, ⟨context, w, visited, -⟩, -, fits⟩ := consistent.during_sound during
  exact Closure.receives fits (Scope.params_nodup ((consistent.setting _).resolved visited).clean)

/-- Binding never truncates. A function that is run receives its arguments whole, so it makes no difference what would be
    done with others; and a call with too few or too many ends there and then. -/
theorem arguments_received (past : History readings s programs) (accepted : s.accept? source = some (program, ready))
    (fuel : Nat) :
    (∀ n f xs m, Activity.During ⟨fuel, .program program, ready.machine⟩ ⟨n, .invoke f xs, m⟩ → f.Receives xs m) ∧
    (∀ other, Run.programWith fuel (Closure.watched (fun _ => Closure.Receives) other fuel) program ready.machine =
      Run.program fuel program ready.machine) ∧
    ∀ n callee paren arguments m x m₁ xs m₂ count, callee.evaluate (Closure.invoke n) m = .value x m₁ →
      Expr.evaluateAll (Closure.invoke n) arguments m₁ = .value xs m₂ → x.Takes count → xs.length ≠ count →
      (Expr.call callee paren arguments).evaluate (Closure.invoke n) m =
        .fault (.argumentMismatch paren count xs.length) m₂ := by
  have consistent := past.consistent.accept accepted
  have receives (n f xs m) (during : Activity.During ⟨fuel, .program program, ready.machine⟩ ⟨n, .invoke f xs, m⟩) :
      f.Receives xs m := consistent.receives during
  refine ⟨receives, fun other => Run.program_watched other receives, ?_⟩
  intro n callee paren arguments m x m₁ xs m₂ count evaluated given takes mismatch
  rw [Expr.evaluate, Run.bind_value evaluated, Run.bind_value given]
  exact Run.call_mismatch takes mismatch m₂

theorem arguments_received_inherited : ∃ (ready : Session) (program : List Stmt) (f : Closure) (m m₃ : Machine)
      (callee : Expr) (paren : Token),
    (Session.start fun _ => .zero).accept?
      "class A \x7b init(a, b) \x7b\x7d \x7d class B < A \x7b\x7d B(nil, true); B(nil);" = some (program, ready) ∧
    Activity.During ⟨2, .program program, ready.machine⟩ ⟨2, .invoke f [.nil, .bool true], m⟩ ∧ f.isInitializer = true ∧
    f.Receives [.nil, .bool true] m ∧
    Activity.During ⟨2, .program program, ready.machine⟩ ⟨2, .expr (.call callee paren [.constant .nil]), m₃⟩ ∧
    (Expr.call callee paren [.constant .nil]).evaluate (Closure.invoke 2) m₃ = .fault (.argumentMismatch paren 2 1) m₃ := by
  let name (lexeme : String) : Token := ⟨.identifier, lexeme, none, 1⟩
  let paren : Token := ⟨.rightParen, ")", none, 1⟩
  let method : FunctionDecl := .mk (name "init") [name "a", name "b"] []
  let whole : Expr := .call (.variable_ 1 (name "B")) paren [.constant .nil, .constant (.bool true)]
  let short : Expr := .call (.variable_ 2 (name "B")) paren [.constant .nil]
  let program : List Stmt := [.class_ (name "A") none [method], .class_ (name "B") (some (.variable_ 0 (name "A"))) [],
    .expression whole, .expression short]
  let ready : Session := ⟨.start fun _ => .zero, .clear, 3⟩
  have accepted : (Session.start fun _ => .zero).accept?
      "class A \x7b init(a, b) \x7b\x7d \x7d class B < A \x7b\x7d B(nil, true); B(nil);" = some (program, ready) := by cbv
  -- what the store holds after the two declarations, and after the first call
  let above : Class := .base 0 "A" [("init", ⟨method, .root 0, true⟩)]
  let below : Class := .derived 1 "B" [] above
  let globals : Bindings Value := [("clock", .native .clock), ("A", .class_ above), ("B", .class_ below)]
  let state (scopes : Array (Bindings Value)) (objects : Array (Bindings Value)) (next : Identity) : Machine :=
    { ready.machine with store := ⟨scopes, objects, next⟩ }
  let m₁ := state #[[("clock", .native .clock), ("A", .class_ above)]] #[] 1
  let m₂ := state #[globals, [("super", .class_ above)]] #[] 2
  let m₃ := state #[globals, [("super", .class_ above)], [("this", .instance_ 0 below)],
    [("a", .nil), ("b", .bool true)]] #[[]] 2
  have first : Stmt.execute 2 (Closure.invoke 2) (.class_ (name "A") none [method]) ready.machine =
    .value .normal m₁ := by rfl
  have second : Stmt.execute 2 (Closure.invoke 2) (.class_ (name "B") (some (.variable_ 0 (name "A"))) []) m₁ =
    .value .normal m₂ := by rfl
  have third : Stmt.execute 2 (Closure.invoke 2) (.expression whole) m₂ = .value .normal m₃ := by rfl
  have callee : Expr.evaluate (Closure.invoke 2) (.variable_ 1 (name "B")) m₂ = .value (.class_ below) m₂ := by rfl
  have reached := (Activity.During.start (a := ⟨2, .program program, ready.machine⟩).spawned
    (.othersOfProgram first)).spawned (.othersOfProgram second)
  have called := ((reached.spawned .firstOfProgram).spawned .expression).spawned
    (.call callee rfl (.class_ rfl (by decide) rfl))
  have last := ((reached.spawned (.othersOfProgram third)).spawned .firstOfProgram).spawned .expression
  obtain ⟨receives, -, fails⟩ := arguments_received .start accepted 2
  have takes : (Value.class_ below).Takes 2 :=
    .initialized ⟨[below], above, [], rfl, rfl, by simp [below, Class.methods, Bindings.find?]⟩
  refine ⟨ready, program, _, _, m₃, _, paren, accepted, called, rfl, receives _ _ _ _ called, last, ?_⟩
  exact fails 2 (.variable_ 2 (name "B")) paren [.constant .nil] m₃ (.class_ below) m₃ [.nil] m₃ 2 rfl rfl takes (by decide)

end Session
end Lox
