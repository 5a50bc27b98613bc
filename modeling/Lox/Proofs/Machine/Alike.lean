import Lox.Machine.Evaluation
import Lox.Proofs.Machine.Growth
import Lox.Proofs.Tree.Alike

namespace Lox

/-- Scopes with the given namings, behind which are the globals. The namings of all scopes are known by their numbers. -/
inductive Environment.Named (world : List Naming) : Environment → List Naming → Prop where
  | root {scope : ScopeId} (global : world[scope]? = some .id) : Named world (.root scope) []
  | child {scope : ScopeId} {enclosing : Environment} {r : Naming} {rs : List Naming} (here : world[scope]? = some r)
      (outer : enclosing.Named world rs) : Named world (.child scope enclosing) (r :: rs)

theorem Naming.kept {world world' : List Naming} {scope : ScopeId} {r : Naming} (grown : world <+: world')
    (here : world[scope]? = some r) : world'[scope]? = some r := by
  obtain ⟨more, rfl⟩ := grown
  have inside := (List.getElem?_eq_some_iff.mp here).1
  rw [List.getElem?_append_left inside]
  exact here

namespace Environment.Named

variable {world world' : List Naming} {environment : Environment} {rs : List Naming}

theorem grow (named : environment.Named world rs) (grown : world <+: world') : environment.Named world' rs := by
  induction named with
  | root global => exact .root (Naming.kept grown global)
  | child here _ ih => exact .child (Naming.kept grown here) ih

theorem ancestor {distance : Nat} {target : Environment} (named : environment.Named world rs)
    (out : environment.ancestor? distance = some target) : world[target.scope]? = some (Naming.out rs distance) := by
  induction named generalizing distance with
  | root global =>
    cases distance with
    | zero =>
      cases out
      exact global
    | succ distance => cases out
  | child here _ ih =>
    cases distance with
    | zero =>
      cases out
      exact here
    | succ distance => exact ih out

theorem innermost (named : environment.Named world rs) : world[environment.scope]? = some (Naming.out rs 0) := by
  cases named with
  | root global => exact global
  | child here _ => exact here

end Environment.Named

section

variable (p : Pairing) (world : List Naming)

/-- A declaration in one environment, whose scopes have the namings that the declarations go by. -/
structure Closure.Alike (f f' : Closure) : Prop where
  environment : f'.environment = f.environment
  isInitializer : f'.isInitializer = f.isInitializer
  declaration : ∃ rs, f.environment.Named world rs ∧ f.declaration.Alike p rs f'.declaration

structure Closure.MethodAlike (f f' : Closure) : Prop where
  environment : f'.environment = f.environment
  isInitializer : f'.isInitializer = f.isInitializer
  declaration : ∃ rs, f.environment.Named world rs ∧ f.declaration.Alike p (.id :: rs) f'.declaration

inductive Class.Alike : Class → Class → Prop where
  | base {identity : Identity} {name : String} {methods methods' : Bindings Closure}
      (tables : ∀ method, Option.Rel (Closure.MethodAlike p world) (methods.find? method) (methods'.find? method)) :
      Alike (.base identity name methods) (.base identity name methods')
  | derived {identity : Identity} {name : String} {methods methods' : Bindings Closure} {superclass superclass' : Class}
      (tables : ∀ method, Option.Rel (Closure.MethodAlike p world) (methods.find? method) (methods'.find? method))
      (above : Alike superclass superclass') :
      Alike (.derived identity name methods superclass) (.derived identity name methods' superclass')

inductive Value.Alike : Value → Value → Prop where
  | nil : Alike .nil .nil
  | bool {value : Bool} : Alike (.bool value) (.bool value)
  | number {value : Number} : Alike (.number value) (.number value)
  | text {value : String} : Alike (.text value) (.text value)
  | native {f : Native} : Alike (.native f) (.native f)
  | function {identity : Identity} {f f' : Closure} (closures : f.Alike p world f') :
      Alike (.function identity f) (.function identity f')
  | class_ {c c' : Class} (classes : c.Alike p world c') : Alike (.class_ c) (.class_ c')
  | instance_ {identity : Identity} {c c' : Class} (classes : c.Alike p world c') :
      Alike (.instance_ identity c) (.instance_ identity c')

inductive Fault.Alike : Fault → Fault → Prop where
  | typeMismatch {t t' : Token} {demand : Demand} (shown : p.names t t') :
      Alike (.typeMismatch t demand) (.typeMismatch t' demand)
  | undefinedVariable {t t' : Token} (shown : p.names t t') : Alike (.undefinedVariable t) (.undefinedVariable t')
  | undefinedProperty {t t' : Token} (shown : p.names t t') : Alike (.undefinedProperty t) (.undefinedProperty t')
  | argumentMismatch {t t' : Token} {expected got : Nat} (shown : p.names t t') :
      Alike (.argumentMismatch t expected got) (.argumentMismatch t' expected got)
  | notCallable {t t' : Token} (shown : p.names t t') : Alike (.notCallable t) (.notCallable t')
  | notInstance {t t' : Token} {access : Access} (shown : p.names t t') :
      Alike (.notInstance t access) (.notInstance t' access)
  | notClass {t t' : Token} (shown : p.names t t') : Alike (.notClass t) (.notClass t')
  | stackOverflow {t t' : Token} (shown : p.names t t') : Alike (.stackOverflow t) (.stackOverflow t')
  | unexpected {breach : Breach} : Alike (.unexpected breach) (.unexpected breach)
  | unbound {t t' : Token} {distance : Nat} (named : p.names t t') :
      Alike (.unexpected (.unbound t.lexeme distance)) (.unexpected (.unbound t'.lexeme distance))

inductive Pairing.Answers {α β : Type} (R : α → β → Prop) : Except Fault α → Except Fault β → Prop where
  | ok {result : α} {result' : β} (results : R result result') : Answers R (.ok result) (.ok result')
  | error {fault fault' : Fault} (faults : fault.Alike p fault') : Answers R (.error fault) (.error fault')

end

section

variable {p : Pairing} {world world' : List Naming}

theorem Closure.Alike.grow {f f' : Closure} (alike : f.Alike p world f') (grown : world <+: world') :
    f.Alike p world' f' := by
  obtain ⟨rs, named, declared⟩ := alike.declaration
  exact ⟨alike.environment, alike.isInitializer, rs, named.grow grown, declared⟩

theorem Closure.MethodAlike.grow {f f' : Closure} (alike : f.MethodAlike p world f') (grown : world <+: world') :
    f.MethodAlike p world' f' := by
  obtain ⟨rs, named, declared⟩ := alike.declaration
  exact ⟨alike.environment, alike.isInitializer, rs, named.grow grown, declared⟩

theorem Class.Alike.grow {c c' : Class} (alike : c.Alike p world c') (grown : world <+: world') : c.Alike p world' c' := by
  induction alike with
  | base tables => exact .base fun method => rel_imp (fun _ _ related => related.grow grown) (tables method)
  | derived tables _ ih => exact .derived (fun method => rel_imp (fun _ _ related => related.grow grown) (tables method)) ih

theorem Value.Alike.grow {x x' : Value} (alike : x.Alike p world x') (grown : world <+: world') : x.Alike p world' x' := by
  cases alike with
  | function closures => exact .function (closures.grow grown)
  | class_ classes => exact .class_ (classes.grow grown)
  | instance_ classes => exact .instance_ (classes.grow grown)
  | nil => exact .nil
  | bool => exact .bool
  | number => exact .number
  | text => exact .text
  | native => exact .native

section

variable {q : Pairing}

theorem Closure.Alike.mono (within : p.Within q) {f f' : Closure} (alike : f.Alike p world f') : f.Alike q world f' := by
  obtain ⟨rs, named, declared⟩ := alike.declaration
  exact ⟨alike.environment, alike.isInitializer, rs, named, declared.mono within⟩

theorem Closure.MethodAlike.mono (within : p.Within q) {f f' : Closure} (alike : f.MethodAlike p world f') :
    f.MethodAlike q world f' := by
  obtain ⟨rs, named, declared⟩ := alike.declaration
  exact ⟨alike.environment, alike.isInitializer, rs, named, declared.mono within⟩

theorem Class.Alike.mono (within : p.Within q) {c c' : Class} (alike : c.Alike p world c') : c.Alike q world c' := by
  induction alike with
  | base tables => exact .base fun method => rel_imp (fun _ _ related => related.mono within) (tables method)
  | derived tables _ ih => exact .derived (fun method => rel_imp (fun _ _ related => related.mono within) (tables method)) ih

theorem Value.Alike.mono (within : p.Within q) {x x' : Value} (alike : x.Alike p world x') : x.Alike q world x' := by
  cases alike with
  | function closures => exact .function (closures.mono within)
  | class_ classes => exact .class_ (classes.mono within)
  | instance_ classes => exact .instance_ (classes.mono within)
  | nil => exact .nil
  | bool => exact .bool
  | number => exact .number
  | text => exact .text
  | native => exact .native

end

theorem Closure.Alike.arity {f f' : Closure} (alike : f.Alike p world f') : f'.arity = f.arity := by
  obtain ⟨rs, -, declared⟩ := alike.declaration
  exact declared.arity

theorem Closure.Alike.name {f f' : Closure} (alike : f.Alike p world f') : f'.name = f.name := by
  obtain ⟨rs, -, declared⟩ := alike.declaration
  exact p.lexeme declared.named

namespace Class.Alike

variable {c c' : Class}

theorem identity (alike : c.Alike p world c') : c'.identity = c.identity := by
  cases alike <;> rfl

theorem name (alike : c.Alike p world c') : c'.name = c.name := by
  cases alike <;> rfl

theorem findMethod (alike : c.Alike p world c') (method : String) :
    Option.Rel (Closure.MethodAlike p world) (c.findMethod? method) (c'.findMethod? method) := by
  induction alike with
  | base tables => exact tables method
  | derived tables _ ih =>
    have here := tables method
    rw [Class.findMethod?, Class.findMethod?]
    generalize Bindings.find? method _ = own at here
    generalize Bindings.find? method _ = own' at here
    cases here with
    | none => exact ih
    | some related => exact .some related

theorem arity (alike : c.Alike p world c') : c'.arity = c.arity := by
  have found := alike.findMethod initializerName
  unfold Class.arity Class.initializer?
  generalize c.findMethod? initializerName = initializer at found
  generalize c'.findMethod? initializerName = initializer' at found
  cases found with
  | none => rfl
  | some related =>
    obtain ⟨rs, -, declared⟩ := related.declaration
    exact declared.arity

end Class.Alike

namespace Value.Alike

variable {x x' y y' : Value}

theorem isTruthy (alike : x.Alike p world x') : x'.isTruthy = x.isTruthy := by
  cases alike <;> rfl

theorem display (alike : x.Alike p world x') : x'.display = x.display := by
  cases alike with
  | function closures => simp only [Value.display, closures.name]
  | class_ classes | instance_ classes => simp only [Value.display, classes.name]
  | _ => rfl

theorem arity (alike : x.Alike p world x') : x'.arity? = x.arity? := by
  cases alike with
  | function closures => simp only [Value.arity?, closures.arity]
  | class_ classes => simp only [Value.arity?, classes.arity]
  | _ => rfl

theorem equal (left : x.Alike p world x') (right : y.Alike p world y') : x'.equal y' = x.equal y := by
  cases left with
  | class_ classes =>
    cases right with
    | class_ others => simp only [Value.equal, classes.identity, others.identity]
    | _ => rfl
  | _ => cases right <;> rfl

theorem ofConstant (value : Constant) : (Value.ofConstant value).Alike p world (.ofConstant value) := by
  cases value with
  | number value => exact .number
  | text value => exact .text
  | bool value => exact .bool
  | nil => exact .nil

end Value.Alike

section

variable {operator operator' : Token} {x x' y y' : Value}

theorem Pairing.Answers.map {α β γ δ : Type} {R : α → β → Prop} {S : γ → δ → Prop} {f : α → γ} {f' : β → δ}
    {answer : Except Fault α} {answer' : Except Fault β} (answers : p.Answers R answer answer')
    (maps : ∀ a b, R a b → S (f a) (f' b)) : p.Answers S (answer.map f) (answer'.map f') := by
  cases answers with
  | ok results => exact .ok (maps _ _ results)
  | error faults => exact .error faults

theorem Pairing.Answers.imp {α β : Type} {R S : α → β → Prop} {answer : Except Fault α} {answer' : Except Fault β}
    (answers : p.Answers R answer answer') (implies : ∀ a b, R a b → S a b) : p.Answers S answer answer' := by
  cases answers with
  | ok results => exact .ok (implies _ _ results)
  | error faults => exact .error faults

theorem numbers_alike (sign : p.tokens operator operator') (left : x.Alike p world x') (right : y.Alike p world y') :
    p.Answers Eq (numbers operator x y) (numbers operator' x' y') := by
  have refused : Fault.Alike p (.typeMismatch operator .numbers) (.typeMismatch operator' .numbers) :=
    .typeMismatch (p.tokens_names sign)
  cases left with
  | number =>
    cases right with
    | number => exact .ok rfl
    | _ => exact .error refused
  | _ => exact .error refused

theorem applyUnary_alike (sign : p.tokens operator operator') (operand : x.Alike p world x') :
    p.Answers (Value.Alike p world) (applyUnary operator x) (applyUnary operator' x') := by
  unfold applyUnary
  rw [p.kind sign]
  split
  · rw [operand.isTruthy]
    exact .ok .bool
  · cases operand with
    | number => exact .ok .number
    | _ => exact .error (.typeMismatch (p.tokens_names sign))
  · rw [p.lexeme sign]
    exact .error .unexpected

theorem applyBinary_alike (sign : p.tokens operator operator') (left : x.Alike p world x') (right : y.Alike p world y') :
    p.Answers (Value.Alike p world) (applyBinary operator x y) (applyBinary operator' x' y') := by
  have sums := numbers_alike sign left right
  have refused : Fault.Alike p (.typeMismatch operator .numbersOrStrings) (.typeMismatch operator' .numbersOrStrings) :=
    .typeMismatch (p.tokens_names sign)
  have number {f : Number × Number → Number} :
      p.Answers (Value.Alike p world) ((numbers operator x y).map fun ab => .number (f ab))
        ((numbers operator' x' y').map fun ab => .number (f ab)) :=
    sums.map fun a b same => same ▸ .number
  have bool {f : Number × Number → Bool} :
      p.Answers (Value.Alike p world) ((numbers operator x y).map fun ab => .bool (f ab))
        ((numbers operator' x' y').map fun ab => .bool (f ab)) :=
    sums.map fun a b same => same ▸ .bool
  unfold applyBinary
  rw [p.kind sign]
  split
  · cases left with
    | number =>
      cases right with
      | number => exact .ok .number
      | _ => exact .error refused
    | text =>
      cases right with
      | text => exact .ok .text
      | _ => exact .error refused
    | _ => exact .error refused
  · exact number
  · exact number
  · exact number
  · exact bool
  · exact bool
  · exact bool
  · exact bool
  · rw [left.equal right]
    exact .ok .bool
  · rw [left.equal right]
    exact .ok .bool
  · rw [p.lexeme sign]
    exact .error .unexpected

theorem isDecided_alike (word : p.tokens operator operator') (left : x.Alike p world x') :
    isDecided operator' x' = isDecided operator x := by
  rw [isDecided, isDecided, p.kind word, left.isTruthy]

end

end

namespace Store

theorem field?_setField (s : Store) (object other : Identity) (name otherName : String) (value : Value) :
    (s.setField object name value).field? other otherName =
      if object = other ∧ name = otherName ∧ object < s.objects.size then some value else s.field? other otherName := by
  unfold field? setField
  dsimp only
  rw [Array.getElem?_modify]
  by_cases here : object = other
  · subst here
    by_cases inside : object < s.objects.size
    · simp [inside, Bindings.find?_insert]
    · simp [inside]
  · simp [here]

theorem field?_instantiate (s : Store) (object : Identity) (name : String) :
    s.instantiate.2.field? object name = s.field? object name := by
  unfold instantiate field?
  dsimp only
  rw [Array.getElem?_push]
  split
  · rename_i new
    simp [new, Bindings.find?]
  · rfl

structure Alike (p : Pairing) (world : List Naming) (s s' : Store) : Prop where
  length : world.length = s.scopes.size
  size : s'.scopes.size = s.scopes.size
  objects : s'.objects.size = s.objects.size
  identity : s'.nextIdentity = s.nextIdentity
  bound : ∀ scope r, world[scope]? = some r → ∀ name,
    Option.Rel (Value.Alike p world) (s.lookup? scope name) (s'.lookup? scope (r name))
  fields : ∀ object name, Option.Rel (Value.Alike p world) (s.field? object name) (s'.field? object name)

namespace Alike

variable {p : Pairing} {world : List Naming} {s s' : Store} {x x' : Value} {rs : List Naming} {environment : Environment}

theorem mono {q : Pairing} (within : p.Within q) (stores : s.Alike p world s') : s.Alike q world s' :=
  ⟨stores.length, stores.size, stores.objects, stores.identity,
    fun scope r here name => rel_imp (fun _ _ values => values.mono within) (stores.bound scope r here name),
    fun object name => rel_imp (fun _ _ values => values.mono within) (stores.fields object name)⟩

theorem bind {scope : ScopeId} {r : Naming} {name name' : String} (stores : s.Alike p world s')
    (here : world[scope]? = some r) (renamed : name' = r name) (values : x.Alike p world x') :
    (s.bind scope name x).Alike p world (s'.bind scope name' x') := by
  subst renamed
  refine ⟨by simp [stores.length], by simp [stores.size], stores.objects, stores.identity, ?_, stores.fields⟩
  intro other r' there otherName
  rw [lookup?_bind, lookup?_bind, stores.size]
  by_cases same : scope = other
  · subst same
    obtain rfl : r = r' := Option.some.inj (here.symm.trans there)
    by_cases hit : name = otherName ∧ scope < s.scopes.size
    · rw [if_pos ⟨rfl, hit⟩, if_pos ⟨rfl, r.apply_eq_iff.mpr hit.1, hit.2⟩]
      exact .some values
    · rw [if_neg (fun both => hit both.2), if_neg (fun both => hit ⟨r.apply_eq_iff.mp both.2.1, both.2.2⟩)]
      exact stores.bound scope r there otherName
  · rw [if_neg (fun both => same both.1), if_neg (fun both => same both.1)]
    exact stores.bound other r' there otherName

theorem childOf (stores : s.Alike p world s') (r : Naming) (enclosing : Environment) :
    (s.childOf enclosing).2.Alike p (world ++ [r]) (s'.childOf enclosing).2 := by
  have grown : world <+: world ++ [r] := List.prefix_append _ _
  refine ⟨by simp [stores.length], by simp [stores.size], stores.objects, stores.identity, ?_, ?_⟩
  · intro scope r' there name
    rw [lookup?_childOf, lookup?_childOf]
    by_cases inside : scope < world.length
    · rw [List.getElem?_append_left inside] at there
      exact rel_imp (fun _ _ values => values.grow grown) (stores.bound scope r' there name)
    · rw [stores.length] at inside
      have outside : s'.scopes.size ≤ scope := stores.size ▸ Nat.not_lt.mp inside
      rw [lookup?_outside (Nat.not_lt.mp inside), lookup?_outside outside]
      exact .none
  · exact fun object name => rel_imp (fun _ _ values => values.grow grown) (stores.fields object name)

theorem childOf_eq (stores : s.Alike p world s') (enclosing : Environment) :
    (s'.childOf enclosing).1 = (s.childOf enclosing).1 := by
  simp only [Store.childOf, stores.size]

theorem childOf_named (stores : s.Alike p world s') (r : Naming) (named : environment.Named world rs) :
    (s.childOf environment).1.Named (world ++ [r]) (r :: rs) := by
  refine .child ?_ (named.grow (List.prefix_append _ _))
  rw [← stores.length]
  simp

theorem fresh (stores : s.Alike p world s') : s.fresh.2.Alike p world s'.fresh.2 :=
  ⟨stores.length, stores.size, stores.objects, congrArg (· + 1) stores.identity, stores.bound, stores.fields⟩

theorem instantiate (stores : s.Alike p world s') : s.instantiate.2.Alike p world s'.instantiate.2 := by
  refine ⟨stores.length, stores.size, ?_, stores.identity, stores.bound, fun object name => ?_⟩
  · simp [Store.instantiate, stores.objects]
  · rw [field?_instantiate, field?_instantiate]
    exact stores.fields object name

theorem setField (stores : s.Alike p world s') (object : Identity) (name : String) (values : x.Alike p world x') :
    (s.setField object name x).Alike p world (s'.setField object name x') := by
  refine ⟨stores.length, stores.size, ?_, stores.identity, stores.bound, fun other otherName => ?_⟩
  · simp [Store.setField, stores.objects]
  · rw [field?_setField, field?_setField, stores.objects]
    split
    · exact .some values
    · exact stores.fields other otherName

theorem childWith (stores : s.Alike p world s') (enclosing : Environment) (name : String)
    (values : x.Alike p world x') :
    ((s.childOf enclosing).2.bind s.scopes.size name x).Alike p (world ++ [.id])
      ((s'.childOf enclosing).2.bind s'.scopes.size name x') := by
  have here : (world ++ [Naming.id])[s.scopes.size]? = some .id := by
    rw [← stores.length]
    simp
  rw [stores.size]
  exact (stores.childOf .id enclosing).bind here rfl (values.grow (List.prefix_append _ _))

theorem bindMethod {f f' : Closure} {c c' : Class} (stores : s.Alike p world s') (methods : f.MethodAlike p world f')
    (object : Identity) (classes : c.Alike p world c') :
    (s.bindMethod f object c).1.Alike p (world ++ [.id]) (s'.bindMethod f' object c').1 ∧
      (s.bindMethod f object c).2.Alike p (world ++ [.id]) (s'.bindMethod f' object c').2 := by
  obtain ⟨rs, named, declared⟩ := methods.declaration
  constructor
  · refine ⟨?_, methods.isInitializer, .id :: rs, stores.childOf_named .id named, declared⟩
    show (s'.childOf f'.environment).1 = (s.childOf f.environment).1
    rw [methods.environment]
    exact stores.childOf_eq _
  · have this : (Value.instance_ object c).Alike p world (.instance_ object c') := .instance_ classes
    exact stores.childWith f.environment "this" this

theorem getAt {distance : Nat} {name name' : String} (stores : s.Alike p world s') (named : environment.Named world rs)
    (renamed : name' = Naming.out rs distance name)
    (missing : Fault.Alike p (.unexpected (.unbound name distance)) (.unexpected (.unbound name' distance))) :
    p.Answers (Value.Alike p world) (s.getAt environment distance name) (s'.getAt environment distance name') := by
  unfold Store.getAt Store.ancestor
  cases out : environment.ancestor? distance with
  | none => exact .error .unexpected
  | some target =>
    have bound := stores.bound target.scope _ (named.ancestor out) name
    rw [← renamed] at bound
    dsimp only
    generalize s.lookup? target.scope name = found at bound
    generalize s'.lookup? target.scope name' = found' at bound
    cases bound with
    | none => exact .error missing
    | some values => exact .ok values

theorem getAt_reserved {name : String} (stores : s.Alike p world s') (named : environment.Named world rs)
    (distance : Nat) (reserved : name ∈ Scope.reserved) :
    p.Answers (Value.Alike p world) (s.getAt environment distance name) (s'.getAt environment distance name) :=
  stores.getAt named ((Naming.out rs distance).reserved name reserved).symm .unexpected

/-- The scope of a variable, and that it goes by its names there. -/
def Finds (world : List Naming) (name name' : String) (scope scope' : ScopeId) : Prop :=
  scope' = scope ∧ ∃ r : Naming, world[scope]? = some r ∧ name' = r name

theorem locateAt {distance : Nat} {name name' : String} (stores : s.Alike p world s') (named : environment.Named world rs)
    (renamed : name' = Naming.out rs distance name)
    (missing : Fault.Alike p (.unexpected (.unbound name distance)) (.unexpected (.unbound name' distance))) :
    p.Answers (Finds world name name') (s.locateAt environment distance name)
      (s'.locateAt environment distance name') := by
  unfold Store.locateAt Store.ancestor
  cases out : environment.ancestor? distance with
  | none => exact .error .unexpected
  | some target =>
    have here := named.ancestor out
    have bound := rel_isSome (stores.bound target.scope _ here name)
    rw [← renamed] at bound
    dsimp only
    rw [bound]
    split
    · exact .ok ⟨rfl, _, here, renamed⟩
    · exact .error missing

end Alike
end Store

/-- Machines at the same place, which have written and will read the same, with stores that correspond. -/
structure Machine.Alike (p : Pairing) (world rs : List Naming) (m m' : Machine) : Prop where
  globals : m'.globals = m.globals
  top : m.globals.Named world []
  environment : m'.environment = m.environment
  named : m.environment.Named world rs
  depth : m'.depth = m.depth
  lines : m'.lines = m.lines
  clock : m'.clock = m.clock
  store : m.store.Alike p world m'.store
  agrees : p.Agrees m.distances m'.distances

namespace Machine.Alike

variable {p : Pairing} {world world' rs rs' : List Naming} {m m' : Machine} {id id' : NodeId} {name name' : Token}

theorem mono {q : Pairing} {distances distances' : Std.TreeMap NodeId Nat} (machines : m.Alike p world rs m')
    (within : p.Within q) (agrees : q.Agrees distances distances') :
    Machine.Alike q world rs { m with distances := distances } { m' with distances := distances' } :=
  ⟨machines.globals, machines.top, machines.environment, machines.named, machines.depth, machines.lines, machines.clock,
    machines.store.mono within, agrees⟩

theorem withStore {s s' : Store} (machines : m.Alike p world rs m') (grown : world <+: world')
    (stores : s.Alike p world' s') :
    Machine.Alike p world' rs { m with store := s } { m' with store := s' } :=
  ⟨machines.globals, machines.top.grow grown, machines.environment, machines.named.grow grown, machines.depth,
    machines.lines, machines.clock, stores, machines.agrees⟩

theorem within {environment : Environment} (machines : m.Alike p world rs m') (named : environment.Named world rs') :
    Machine.Alike p world rs' { m with environment := environment } { m' with environment := environment } :=
  ⟨machines.globals, machines.top, rfl, named, machines.depth, machines.lines, machines.clock, machines.store,
    machines.agrees⟩

theorem write (machines : m.Alike p world rs m') (line : Line) : (m.write line).Alike p world rs (m'.write line) :=
  ⟨machines.globals, machines.top, machines.environment, machines.named, machines.depth,
    congrArg (·.push line) machines.lines, machines.clock, machines.store, machines.agrees⟩

theorem getGlobal (machines : m.Alike p world rs m') (shown : p.names name name') (same : name'.lexeme = name.lexeme) :
    p.Answers (Value.Alike p world) (m.store.get m.globals name) (m'.store.get m'.globals name') := by
  have top := machines.top
  rw [machines.globals]
  generalize m.globals = globals at top
  cases top with
  | @root scope global =>
    have bound := machines.store.bound scope .id global name.lexeme
    unfold Store.get Store.get?
    rw [same]
    rw [Naming.id_apply] at bound
    generalize m.store.lookup? scope name.lexeme = found at bound
    generalize m'.store.lookup? scope name.lexeme = found' at bound
    cases bound with
    | none => exact .error (.undefinedVariable shown)
    | some values => exact .ok values

theorem lookUp (machines : m.Alike p world rs m') (reference : p.refers rs id name id' name') :
    p.Answers (Value.Alike p world) (m.lookUp id name) (m'.lookUp id' name') := by
  obtain ⟨same, renamed⟩ := machines.agrees rs id id' name name' reference
  unfold Machine.lookUp
  rw [same, machines.environment]
  cases distance? : m.distances[id]? with
  | none =>
    rw [distance?] at renamed
    exact machines.getGlobal (p.refers_names reference) renamed
  | some distance =>
    rw [distance?] at renamed
    exact machines.store.getAt machines.named renamed (.unbound (p.refers_names reference))

theorem locateGlobal (machines : m.Alike p world rs m') (shown : p.names name name') (same : name'.lexeme = name.lexeme) :
    p.Answers (Store.Alike.Finds world name.lexeme name'.lexeme) (m.store.locate m.globals name)
      (m'.store.locate m'.globals name') := by
  have top := machines.top
  rw [machines.globals]
  generalize m.globals = globals at top
  cases top with
  | @root scope global =>
    have bound := rel_isSome (machines.store.bound scope .id global name.lexeme)
    rw [Naming.id_apply] at bound
    simp only [Store.locate, Store.locate?, same, bound]
    by_cases held : (m.store.lookup? scope name.lexeme).isSome
    · rw [if_pos held]
      exact .ok ⟨rfl, .id, global, rfl⟩
    · rw [if_neg held]
      exact .error (.undefinedVariable shown)

theorem locate (machines : m.Alike p world rs m') (reference : p.refers rs id name id' name') :
    p.Answers (Store.Alike.Finds world name.lexeme name'.lexeme) (m.locate id name) (m'.locate id' name') := by
  obtain ⟨same, renamed⟩ := machines.agrees rs id id' name name' reference
  unfold Machine.locate
  rw [same, machines.environment]
  cases distance? : m.distances[id]? with
  | none =>
    rw [distance?] at renamed
    exact machines.locateGlobal (p.refers_names reference) renamed
  | some distance =>
    rw [distance?] at renamed
    exact machines.store.locateAt machines.named renamed (.unbound (p.refers_names reference))

theorem lookUpSuper (machines : m.Alike p world rs m') (reference : p.refers rs id name id' name') :
    p.Answers (fun start start' => start.1.Alike p world start'.1 ∧ start'.2.1 = start.2.1 ∧
      start.2.2.Alike p world start'.2.2) (m.lookUpSuper id) (m'.lookUpSuper id') := by
  obtain ⟨same, -⟩ := machines.agrees rs id id' name name' reference
  unfold Machine.lookUpSuper
  rw [same, machines.environment]
  cases m.distances[id]? with
  | none => exact .error .unexpected
  | some distance =>
    have reserved : "super" ∈ Scope.reserved := by decide
    have supers := machines.store.getAt_reserved machines.named distance reserved
    dsimp only
    generalize m.store.getAt m.environment distance "super" = above at supers
    generalize m'.store.getAt m.environment distance "super" = above' at supers
    cases supers with
    | error faults => exact .error faults
    | ok values =>
      cases values with
      | class_ classes =>
        cases distance with
        | zero => exact .error .unexpected
        | succ inner =>
          have reserved : "this" ∈ Scope.reserved := by decide
          have instances := machines.store.getAt_reserved machines.named inner reserved
          simp only [bind, Except.bind]
          generalize m.store.getAt m.environment inner "this" = this at instances
          generalize m'.store.getAt m.environment inner "this" = this' at instances
          cases instances with
          | error faults => exact .error faults
          | ok values =>
            cases values with
            | instance_ of => exact .ok ⟨classes, rfl, of⟩
            | _ => exact .error .unexpected
      | _ => exact .error .unexpected

end Machine.Alike
end Lox
