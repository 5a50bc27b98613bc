import Lox.Machine.Basic
import Lox.Proofs.Machine.Growth

namespace Lox

@[simp] theorem Environment.ancestor?_zero (e : Environment) : e.ancestor? 0 = some e := by
  cases e <;> rfl

namespace Store

/-- The nearest environment of a chain that binds a name, and how many steps out it is. -/
structure Nearest (s : Store) (name : String) (e : Environment) (distance : Nat) (target : Environment) : Prop where
  reached : e.ancestor? distance = some target
  bound : (s.lookup? target.scope name).isSome = true
  least : ∀ nearer < distance, ∀ between, e.ancestor? nearer = some between → s.lookup? between.scope name = none

variable {s : Store} {name : String} {e enclosing target : Environment} {distance : Nat} {scope : ScopeId}

theorem Nearest.here (bound : (s.lookup? e.scope name).isSome = true) : s.Nearest name e 0 e :=
  ⟨e.ancestor?_zero, bound, fun _ none => absurd none (Nat.not_lt_zero _)⟩

theorem Nearest.further (free : s.lookup? scope name = none) (nearest : s.Nearest name enclosing distance target) :
    s.Nearest name (.child scope enclosing) (distance + 1) target := by
  refine ⟨nearest.reached, nearest.bound, fun nearer less between out => ?_⟩
  cases nearer with
  | zero =>
    cases out
    exact free
  | succ nearer => exact nearest.least nearer (Nat.lt_of_succ_lt_succ less) between out

theorem Nearest.cases (nearest : s.Nearest name e distance target) :
    (distance = 0 ∧ target = e) ∨
      ∃ scope enclosing before, e = .child scope enclosing ∧ distance = before + 1 ∧ s.lookup? scope name = none ∧
        s.Nearest name enclosing before target := by
  cases distance with
  | zero =>
    have reached := nearest.reached
    rw [e.ancestor?_zero] at reached
    exact .inl ⟨rfl, (Option.some.inj reached).symm⟩
  | succ before =>
    cases e with
    | root scope => cases nearest.reached
    | child scope enclosing =>
      refine .inr ⟨scope, enclosing, before, rfl, rfl, nearest.least 0 (Nat.succ_pos _) _ rfl, nearest.reached,
        nearest.bound, fun nearer less => ?_⟩
      exact nearest.least (nearer + 1) (Nat.succ_lt_succ less)

theorem Nearest.locate? (nearest : s.Nearest name e distance target) :
    s.locate? name e = some target.scope ∧ s.get? name e = s.lookup? target.scope name := by
  induction e generalizing distance with
  | root scope =>
    rcases nearest.cases with ⟨-, rfl⟩ | ⟨_, _, _, impossible, -⟩
    · exact ⟨if_pos nearest.bound, rfl⟩
    · cases impossible
  | child scope enclosing ih =>
    rcases nearest.cases with ⟨-, rfl⟩ | ⟨_, _, _, same, -, free, further⟩
    · obtain ⟨value, bound⟩ := Option.isSome_iff_exists.mp nearest.bound
      rw [Environment.scope] at bound
      exact ⟨if_pos nearest.bound, by simp only [Store.get?, Environment.scope, bound]⟩
    · cases same
      simp only [Store.locate?, Store.get?, free]
      exact ih further

theorem Nearest.locateAt (nearest : s.Nearest name e distance target) :
    s.locateAt e distance name = .ok target.scope := by
  simp [Store.locateAt, ancestor, nearest.reached, nearest.bound]

theorem Nearest.getAt {value : Value} (nearest : s.Nearest name e distance target)
    (bound : s.lookup? target.scope name = some value) : s.getAt e distance name = .ok value := by
  simp [Store.getAt, ancestor, nearest.reached, bound]

theorem exists_nearest (reached : e.ancestor? distance = some target)
    (bound : (s.lookup? target.scope name).isSome = true) : ∃ nearest found, s.Nearest name e nearest found := by
  induction e generalizing distance with
  | root scope =>
    cases distance with
    | zero =>
      cases reached
      exact ⟨0, _, .here bound⟩
    | succ distance => cases reached
  | child scope enclosing ih =>
    cases free : s.lookup? scope name with
    | some value => exact ⟨0, _, .here (by simp [Environment.scope, free])⟩
    | none =>
      cases distance with
      | zero =>
        cases reached
        simp [Environment.scope, free] at bound
      | succ distance =>
        obtain ⟨nearest, found, further⟩ := ih reached
        exact ⟨nearest + 1, found, further.further free⟩

theorem unbound_at (unbound : ¬∃ distance target, s.Nearest name e distance target)
    (reached : e.ancestor? distance = some target) : s.lookup? target.scope name = none :=
  Option.not_isSome_iff_eq_none.mp fun bound => unbound (exists_nearest reached bound)

theorem locate?_eq_none (unbound : ¬∃ distance target, s.Nearest name e distance target) :
    s.locate? name e = none ∧ s.get? name e = none := by
  induction e with
  | root scope =>
    have free : s.lookup? scope name = none := unbound_at unbound (Environment.ancestor?_zero _)
    simp [Store.locate?, Store.get?, free]
  | child scope enclosing ih =>
    have free : s.lookup? scope name = none := unbound_at unbound (Environment.ancestor?_zero _)
    simp only [Store.locate?, Store.get?, free]
    refine ih ?_
    rintro ⟨distance, target, nearest⟩
    exact unbound ⟨distance + 1, target, nearest.further free⟩

theorem locateAt_unbound (unbound : ¬∃ distance target, s.Nearest name e distance target) (distance : Nat) :
    (∃ reason, s.getAt e distance name = .error (.unexpected reason)) ∧
      ∃ reason, s.locateAt e distance name = .error (.unexpected reason) := by
  cases out : e.ancestor? distance with
  | none => simp [Store.getAt, Store.locateAt, Store.ancestor, out]
  | some target => simp [Store.getAt, Store.locateAt, Store.ancestor, out, unbound_at unbound out]

theorem isSome_of_locate {token : Token} (found : s.locate e token = .ok scope) :
    (s.lookup? scope token.lexeme).isSome = true := by
  unfold Store.locate at found
  by_cases bound : ∃ distance target, s.Nearest token.lexeme e distance target
  · obtain ⟨distance, target, nearest⟩ := bound
    rw [nearest.locate?.1] at found
    cases found
    exact nearest.bound
  · rw [(locate?_eq_none bound).1] at found
    cases found

theorem isSome_of_locateAt (found : s.locateAt e distance name = .ok scope) : (s.lookup? scope name).isSome = true := by
  unfold Store.locateAt at found
  split at found
  · cases found
  · split at found
    · rename_i bound
      cases found
      exact bound
    · cases found

end Store

/-- The environments made so far, and what they bind. -/
structure Collection where
  store : Store
  environments : List Environment

inductive Collection.Operation where
  | new
  | childOf (enclosing : Environment)
  | define (e : Environment) (name : String) (value : Value)
  | assign (e : Environment) (name : Token) (value : Value)
  | assignAt (e : Environment) (distance : Nat) (name : String) (value : Value)

namespace Collection

def Operation.subject? : Operation → Option Environment
  | .new => none
  | .childOf e | .define e _ _ | .assign e _ _ | .assignAt e _ _ _ => some e

def Operation.isDefine : Operation → Bool
  | .define .. => true
  | _ => false

def add (c : Collection) (made : Environment × Store) : Collection := ⟨made.2, made.1 :: c.environments⟩

def perform (c : Collection) : Operation → Except Fault Collection
  | .new => .ok (c.add c.store.root)
  | .childOf enclosing => .ok (c.add (c.store.childOf enclosing))
  | .define e name value => .ok { c with store := c.store.define e name value }
  | .assign e name value => (c.store.assign e name value).map fun s => { c with store := s }
  | .assignAt e distance name value => (c.store.assignAt e distance name value).map fun s => { c with store := s }

/-- The collections that operations on their own environments lead to. -/
inductive Built : Collection → Prop
  | start (s : Store) (bare : s.scopes = #[]) : Built ⟨s, []⟩
  | perform {c c' : Collection} (built : Built c) (operation : Operation)
      (own : ∀ e ∈ operation.subject?, e ∈ c.environments) (done : c.perform operation = .ok c') : Built c'

variable {c c' : Collection} {operation : Operation}

theorem perform_cases (done : c.perform operation = .ok c') :
    (∃ e, e.scope = c.store.scopes.size ∧ c' = c.add (e, (c.store.childOf e).2) ∧
        ∀ scope enclosing, e = .child scope enclosing → operation.subject? = some enclosing) ∨
      ∃ scope name value, c' = { c with store := c.store.bind scope name value } ∧
        (operation.isDefine = false → (c.store.lookup? scope name).isSome = true) := by
  cases operation with
  | new =>
    cases done
    exact .inl ⟨_, rfl, rfl, by simp⟩
  | childOf enclosing =>
    cases done
    refine .inl ⟨_, rfl, rfl, fun scope other same => ?_⟩
    cases same
    rfl
  | define e name value =>
    cases done
    exact .inr ⟨_, _, _, rfl, by simp [Operation.isDefine]⟩
  | assign e name value =>
    simp only [perform, Store.assign] at done
    cases found : c.store.locate e name with
    | error fault => simp [found, Except.map] at done
    | ok scope =>
      simp only [found, Except.map, Except.ok.injEq] at done
      exact .inr ⟨scope, _, value, done.symm, fun _ => Store.isSome_of_locate found⟩
  | assignAt e distance name value =>
    simp only [perform, Store.assignAt] at done
    cases found : c.store.locateAt e distance name with
    | error fault => simp [found, Except.map] at done
    | ok scope =>
      simp only [found, Except.map, Except.ok.injEq] at done
      exact .inr ⟨scope, name, value, done.symm, fun _ => Store.isSome_of_locateAt found⟩

structure Formed (c : Collection) : Prop where
  inside : ∀ e ∈ c.environments, e.scope < c.store.scopes.size
  distinct : ∀ e ∈ c.environments, ∀ e' ∈ c.environments, e.scope = e'.scope → e = e'
  closed : ∀ e ∈ c.environments, ∀ scope enclosing, e = .child scope enclosing → enclosing ∈ c.environments

theorem Formed.bind (formed : c.Formed) (scope : ScopeId) (name : String) (value : Value) :
    ({ c with store := c.store.bind scope name value } : Collection).Formed :=
  ⟨fun e member => by simpa using formed.inside e member, formed.distinct, formed.closed⟩

theorem Formed.add (formed : c.Formed) {e : Environment} (fresh : e.scope = c.store.scopes.size)
    (own : ∀ scope enclosing, e = .child scope enclosing → enclosing ∈ c.environments) :
    (c.add (e, (c.store.childOf e).2)).Formed := by
  -- No environment there was before has the new scope.
  have elsewhere : ∀ old ∈ c.environments, old.scope ≠ e.scope := by
    intro old member same
    exact absurd (formed.inside old member) (Nat.not_lt.mpr (Nat.le_of_eq (same.trans fresh).symm))
  refine ⟨fun old member => ?_, fun first member second member' same => ?_, fun old member scope enclosing child => ?_⟩
  · rw [Collection.add, Store.size_childOf]
    rcases List.mem_cons.mp member with rfl | member
    · exact Nat.lt_succ_of_le (Nat.le_of_eq fresh)
    · exact Nat.lt_succ_of_lt (formed.inside old member)
  · rcases List.mem_cons.mp member with new | member <;> rcases List.mem_cons.mp member' with new' | member'
    · exact new.trans new'.symm
    · exact absurd (same.symm.trans (congrArg Environment.scope new)) (elsewhere second member')
    · exact absurd (same.trans (congrArg Environment.scope new')) (elsewhere first member)
    · exact formed.distinct first member second member' same
  · rcases List.mem_cons.mp member with rfl | member
    · exact List.mem_cons_of_mem _ (own scope enclosing child)
    · exact List.mem_cons_of_mem _ (formed.closed old member scope enclosing child)

theorem Formed.perform (formed : c.Formed) (own : ∀ e ∈ operation.subject?, e ∈ c.environments)
    (done : c.perform operation = .ok c') : c'.Formed := by
  rcases perform_cases done with ⟨e, fresh, rfl, inside⟩ | ⟨scope, name, value, rfl, -⟩
  · exact formed.add fresh fun scope enclosing child => own enclosing (inside scope enclosing child)
  · exact formed.bind scope name value

theorem Built.formed (built : c.Built) : c.Formed := by
  induction built with
  | start s bare => constructor <;> simp
  | perform built operation own done formed => exact formed.perform own done

theorem Formed.ancestor (formed : c.Formed) {e target : Environment} {distance : Nat} (member : e ∈ c.environments)
    (reached : e.ancestor? distance = some target) : target ∈ c.environments := by
  induction distance generalizing e with
  | zero =>
    rw [e.ancestor?_zero] at reached
    exact Option.some.inj reached ▸ member
  | succ distance ih =>
    cases e with
    | root scope => cases reached
    | child scope enclosing => exact ih (formed.closed _ member scope enclosing rfl) reached

theorem Formed.lookup?_bind (formed : c.Formed) {e target : Environment} (member : e ∈ c.environments)
    (found : target ∈ c.environments) (name other : String) (value : Value) :
    (c.store.bind target.scope name value).lookup? e.scope other =
      if e = target ∧ other = name then some value else c.store.lookup? e.scope other := by
  rw [Store.lookup?_bind]
  by_cases here : e = target ∧ other = name
  · obtain ⟨rfl, rfl⟩ := here
    rw [if_pos ⟨rfl, rfl, formed.inside e member⟩, if_pos ⟨rfl, rfl⟩]
  · rw [if_neg here, if_neg]
    rintro ⟨scope, rfl, -⟩
    exact here ⟨formed.distinct e member target found scope.symm, rfl⟩

theorem perform_bound (done : c.perform operation = .ok c') (other : operation.isDefine = false) {e : Environment}
    {name : String} (member : e ∈ c'.environments) (bound : (c'.store.lookup? e.scope name).isSome = true) :
    e ∈ c.environments ∧ (c.store.lookup? e.scope name).isSome = true := by
  rcases perform_cases done with ⟨made, fresh, rfl, -⟩ | ⟨scope, set, value, rfl, before⟩
  · rw [Collection.add, Store.lookup?_childOf] at bound
    refine ⟨?_, bound⟩
    rcases List.mem_cons.mp member with rfl | member
    · rw [Store.lookup?_outside (Nat.le_of_eq fresh.symm)] at bound
      cases bound
    · exact member
  · refine ⟨member, ?_⟩
    rw [Store.lookup?_bind] at bound
    split at bound
    · rename_i here
      obtain ⟨rfl, rfl, -⟩ := here
      exact before other
    · exact bound

end Collection

def Machine.adopt (m : Machine) : Except Fault Store → Outcome Unit
  | .ok s => .value () { m with store := s }
  | .error fault => .fault fault m

theorem Run.assignIn_locate (e : Environment) (name : Token) (value : Value) (m : Machine) :
    Run.assignIn (·.store.locate e name) name.lexeme value m = m.adopt (m.store.assign e name value) := by
  cases found : m.store.locate e name <;>
    simp [Run.assignIn, Run.bind, Run.tryRead, Store.assign, found, Machine.adopt, onStore]

theorem Run.assignIn_locateAt (e : Environment) (distance : Nat) (name : String) (value : Value) (m : Machine) :
    Run.assignIn (·.store.locateAt e distance name) name value m = m.adopt (m.store.assignAt e distance name value) := by
  cases found : m.store.locateAt e distance name <;>
    simp [Run.assignIn, Run.bind, Run.tryRead, Store.assignAt, found, Machine.adopt, onStore]

namespace Collection

/-- To look along the chain is to look at the distance of the nearest environment that binds the name, and where none
does, both fail and change nothing. -/
theorem Built.access {c : Collection} (built : c.Built) {e : Environment} (member : e ∈ c.environments)
    (name : Token) (value : Value) :
    (∀ distance target, c.store.Nearest name.lexeme e distance target → target ∈ c.environments ∧
      (∃ x, c.store.get e name = .ok x ∧ c.store.getAt e distance name.lexeme = .ok x) ∧
      ∃ s, c.store.assign e name value = .ok s ∧ c.store.assignAt e distance name.lexeme value = .ok s ∧
        ∀ e' ∈ c.environments, ∀ other, s.lookup? e'.scope other =
          if e' = target ∧ other = name.lexeme then some value else c.store.lookup? e'.scope other) ∧
    ((¬∃ distance target, c.store.Nearest name.lexeme e distance target) →
      c.store.get e name = .error (.undefinedVariable name) ∧
      c.store.assign e name value = .error (.undefinedVariable name) ∧
      ∀ distance, (∃ reason, c.store.getAt e distance name.lexeme = .error (.unexpected reason)) ∧
        ∃ reason, c.store.assignAt e distance name.lexeme value = .error (.unexpected reason)) ∧
    (∀ m : Machine, m.store = c.store →
      Run.assignIn (·.store.locate e name) name.lexeme value m = m.adopt (c.store.assign e name value) ∧
      ∀ distance, Run.assignIn (·.store.locateAt e distance name.lexeme) name.lexeme value m =
        m.adopt (c.store.assignAt e distance name.lexeme value)) ∧
    ∀ operation c', c.perform operation = .ok c' → operation.isDefine = false → ∀ e ∈ c'.environments, ∀ name,
      (c'.store.lookup? e.scope name).isSome = true →
        e ∈ c.environments ∧ (c.store.lookup? e.scope name).isSome = true := by
  have formed := built.formed
  refine ⟨fun distance target nearest => ?_, fun unbound => ?_, ?_, ?_⟩
  · have found := formed.ancestor member nearest.reached
    obtain ⟨x, bound⟩ := Option.isSome_iff_exists.mp nearest.bound
    have located : c.store.locate e name = .ok target.scope := by simp [Store.locate, nearest.locate?.1]
    refine ⟨found, ⟨x, by simp [Store.get, nearest.locate?.2, bound], nearest.getAt bound⟩,
      c.store.bind target.scope name.lexeme value, by simp [Store.assign, located],
      by simp [Store.assignAt, nearest.locateAt], fun e' member' other => ?_⟩
    exact formed.lookup?_bind member' found name.lexeme other value
  · obtain ⟨nowhere, nothing⟩ := Store.locate?_eq_none unbound
    refine ⟨by simp [Store.get, nothing], by simp [Store.assign, Store.locate, nowhere], fun distance => ?_⟩
    obtain ⟨got, reason, failed⟩ := Store.locateAt_unbound unbound distance
    exact ⟨got, reason, by simp [Store.assignAt, failed]⟩
  · rintro m same
    rw [← same]
    exact ⟨Run.assignIn_locate e name value m, fun distance => Run.assignIn_locateAt e distance name.lexeme value m⟩
  · exact fun operation c' done other e member name => perform_bound done other member

theorem Built.access_outer :
    ∃ c : Collection, c.Built ∧ c.environments = [.child 1 (.root 0), .root 0] ∧
      c.store.Nearest "a" (.child 1 (.root 0)) 1 (.root 0) ∧
      (¬∃ distance target, c.store.Nearest "b" (.root 0) distance target) ∧
      (∃ s, c.store.assign (.child 1 (.root 0)) ⟨.identifier, "a", none, 1⟩ .nil = .ok s ∧
        c.store.assignAt (.child 1 (.root 0)) 1 "a" .nil = .ok s ∧
        s.lookup? 0 "a" = some .nil ∧ s.lookup? 1 "b" = some (.bool true)) ∧
      c.store.get (.root 0) ⟨.identifier, "b", none, 1⟩ = .error (.undefinedVariable ⟨.identifier, "b", none, 1⟩) := by
  let outer : Environment := .root 0
  let inner : Environment := .child 1 outer
  have made : Built ⟨⟨#[[], []], #[], 0⟩, [inner, outer]⟩ :=
    .perform (.perform (.start .empty rfl) .new (by simp [Operation.subject?]) rfl) (.childOf outer)
      (by simp [Operation.subject?, outer, Store.empty, Store.root, add]) rfl
  have built : Built ⟨⟨#[[("a", .bool false)], [("b", .bool true)]], #[], 0⟩, [inner, outer]⟩ :=
    .perform (.perform made (.define outer "a" (.bool false)) (by simp [Operation.subject?]) rfl)
      (.define inner "b" (.bool true)) (by simp [Operation.subject?]) rfl
  have nearest : Store.Nearest ⟨#[[("a", .bool false)], [("b", .bool true)]], #[], 0⟩ "a" inner 1 outer :=
    .further rfl (.here rfl)
  have unbound : ¬∃ distance target,
      Store.Nearest ⟨#[[("a", .bool false)], [("b", .bool true)]], #[], 0⟩ "b" outer distance target := by
    rintro ⟨distance, target, nearest⟩
    rcases nearest.cases with ⟨rfl, rfl⟩ | ⟨_, _, _, impossible, -⟩
    · cases nearest.bound
    · simp [outer] at impossible
  obtain ⟨found, -⟩ := built.access (e := inner) (by simp) ⟨.identifier, "a", none, 1⟩ .nil
  obtain ⟨-, -, s, assigned, assigned', slots⟩ := found 1 outer nearest
  obtain ⟨-, missing, -⟩ := built.access (e := outer) (by simp) ⟨.identifier, "b", none, 1⟩ .nil
  refine ⟨_, built, rfl, nearest, unbound, ⟨s, assigned, assigned', slots outer (by simp) "a", ?_⟩, (missing unbound).1⟩
  exact slots inner (by simp) "b"

end Collection
end Lox
