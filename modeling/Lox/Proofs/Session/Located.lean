import Lox.Proofs.Session.Chronicle
import Lox.Proofs.Tree.Occurrence

namespace Lox

/-- The activity runs the declaration of a class, whose superclass is a class. The methods get the environment. -/
inductive Activity.Derives : Activity → Stmt → Class → Environment → Prop where
  | intro {n : Nat} {name : Token} {e : Expr} {methods : List FunctionDecl} {c : Class} {m m₁ : Machine}
      (evaluated : e.evaluate (Closure.invoke n) m = .value (.class_ c) m₁) :
      Derives ⟨n, .stmt (.class_ name (some e) methods), m⟩ (.class_ name (some e) methods) c
        (m₁.store.childOf m₁.environment).1

theorem Run.bind_eq_value {α β : Type} {action : Run α} {next : α → Run β} {result : β} {m m' : Machine}
    (done : (action >>= next) m = .value result m') : ∃ x m₁, action m = .value x m₁ ∧ next x m₁ = .value result m' := by
  have ended : Run.bind action next m = .value result m' := done
  unfold Run.bind at ended
  split at ended
  · exact ⟨_, _, ‹_›, ended⟩
  · cases ended
  · cases ended

theorem Run.superclass_eq_value {invoke : Invoke} {name : Token} {superclass : Option Expr} {above : Option Class}
    {m m₁ : Machine} (done : Run.superclass invoke name superclass m = .value above m₁) :
    superclass = none ∧ above = none ∧ m₁ = m ∨
      ∃ e c, superclass = some e ∧ above = some c ∧ e.evaluate invoke m = .value (.class_ c) m₁ := by
  cases superclass with
  | none =>
    cases done
    exact .inl ⟨rfl, rfl, rfl⟩
  | some e =>
    obtain ⟨x, m₂, evaluated, made⟩ := Run.bind_eq_value done
    cases x with
    | class_ c =>
      cases made
      exact .inr ⟨e, c, rfl, rfl, evaluated⟩
    | _ => cases e <;> cases made

section

variable (launches : List Launch) (globals : Environment)

inductive Position.Wraps : Position → Environment → Environment → Prop where
  | plain {p : Position} {environment : Environment} (closed : p.scopes = []) : Wraps p environment environment
  | scope {p : Position} {environment : Environment} {names : List String} (k : ScopeId) (opened : p.scopes = [names]) :
      Wraps p environment (.child k environment)
  | derived {a : Activity} {name : Token} {e : Expr} {methods : List FunctionDecl} {c : Class}
      {environment inner : Environment} (t : ScopeId) (i : Nat) (happened : Happened launches a)
      (derives : a.Derives (.class_ name (some e) methods) c inner) (around : a.machine.environment = environment) :
      Wraps ⟨.stmt (.class_ name (some e) methods), i + 1⟩ environment (.child t inner)

def Traced : Path → Environment → Prop
  | [], environment => environment = globals
  | p :: outer, environment => ∃ around, Traced outer around ∧ p.Wraps launches around environment

def Stands (n : Node) (environment : Environment) : Prop :=
  ∃ launch ∈ launches, ∃ path, Occurs launch.program n path ∧ Traced launches globals path environment

def Houses (n : Node) (environment : Environment) : Prop :=
  ∃ around, Stands launches globals n around ∧ ∀ i, Position.Wraps launches ⟨n, i⟩ around environment

def Closure.Stands (f : Closure) : Prop :=
  Lox.Stands launches globals (.function f.declaration) f.environment ∨
    Lox.Stands launches globals (.method f.declaration) f.environment

def Activity.Located (a : Activity) : Prop :=
  match a.task with
  | .expr e => Stands launches globals (.expr e) a.machine.environment
  | .exprs es => ∃ callee paren arguments k, es = arguments.drop k ∧
      Stands launches globals (.expr (.call callee paren arguments)) a.machine.environment
  | .stmt s => Stands launches globals (.stmt s) a.machine.environment
  | .loop _ condition body => Stands launches globals (.stmt (.while_ condition body)) a.machine.environment
  | .stmts ss | .program ss => ∃ n body k, n.Lists body ∧ ss = body.drop k ∧ Houses launches globals n a.machine.environment
  | .invoke _ _ => True

end

variable {launches : List Launch} {globals : Environment} {n c : Node} {environment inner : Environment} {i : Nat}

theorem Stands.child (stands : Stands launches globals n environment) (child : n.children[i]? = some c)
    (wraps : Position.Wraps launches ⟨n, i⟩ environment inner) : Stands launches globals c inner := by
  obtain ⟨launch, listed, path, occurs, traced⟩ := stands
  exact ⟨launch, listed, ⟨n, i⟩ :: path, .inside occurs child, environment, traced, wraps⟩

theorem Stands.plain (stands : Stands launches globals n environment) (child : n.children[i]? = some c)
    (closed : Position.scopes ⟨n, i⟩ = []) : Stands launches globals c environment := stands.child child (.plain closed)

theorem Stands.operand {e operand : Expr} (stands : Stands launches globals (.expr e) environment)
    (here : e.operands[i]? = some operand) : Stands launches globals (.expr operand) environment := by
  refine stands.plain (i := i) ?_ rfl
  rw [Node.children, List.getElem?_map, here]
  rfl

theorem Houses.stmt {body rest : List Stmt} {s : Stmt} {k : Nat} (houses : Houses launches globals n environment)
    (lists : n.Lists body) (left : s :: rest = body.drop k) : Stands launches globals (.stmt s) environment := by
  obtain ⟨around, stands, wraps⟩ := houses
  refine stands.child (i := k) ?_ (wraps k)
  rw [lists.children_eq, List.getElem?_map, ← List.head?_drop, ← left]
  rfl

theorem Closure.Stands.houses {f : Closure} (stands : f.Stands launches globals) (k : ScopeId) :
    ∃ n, n.Lists f.declaration.body ∧ Houses launches globals n (.child k f.environment) := by
  rcases stands with stands | stands
  · exact ⟨_, .function, _, stands, fun _ => .scope k rfl⟩
  · exact ⟨_, .method, _, stands, fun _ => .scope k rfl⟩

theorem drop_succ_of_cons {α : Type} {list rest : List α} {x : α} {k : Nat} (left : x :: rest = list.drop k) :
    rest = list.drop (k + 1) := by
  rw [← List.drop_drop, ← left]
  rfl

namespace Activity

variable {a b : Activity}

theorem Spawns.nests (spawns : a.Spawns b) : (∃ f xs, b.task = .invoke f xs) ∨
    (∃ f xs k, a.task = .invoke f xs ∧ b.machine.environment = .child k f.environment) ∨
    (∀ f xs, a.task ≠ .invoke f xs) ∧
      (b.machine.environment = a.machine.environment ∨ ∃ k, b.machine.environment = .child k a.machine.environment) := by
  cases spawns with
  | call => exact .inl ⟨_, _, rfl⟩
  | body => exact .inr (.inl ⟨_, _, _, rfl, rfl⟩)
  | block => exact .inr (.inr ⟨by simp, .inr ⟨_, rfl⟩⟩)
  | rightOperand first | arguments first | rightChoice first | setValue first | otherExprs first | ifBranch first
  | thenBranch first | elseBranch first | loopBody first =>
    exact .inr (.inr ⟨by simp, .inl (Expr.samePlace first).environment⟩)
  | otherTurns first _ turned =>
    exact .inr (.inr ⟨by simp, .inl ((Stmt.samePlace turned).environment.trans (Expr.samePlace first).environment)⟩)
  | otherStmts first | othersOfProgram first => exact .inr (.inr ⟨by simp, .inl (Stmt.samePlace first).environment⟩)
  | _ => exact .inr (.inr ⟨by simp, .inl rfl⟩)

theorem Spawns.located (spawns : a.Spawns b) (located : a.Located launches globals)
    (declared : ∀ f xs, a.task = .invoke f xs → f.Stands launches globals) : b.Located launches globals := by
  unfold Located at located ⊢
  cases spawns with
  | assigned | leftOperand | callee | owner | grouped | leftChoice | setOwner | operand => exact located.operand (i := 0) rfl
  | rightOperand first | rightChoice first | setValue first =>
    rw [(Expr.samePlace first).environment]
    exact located.operand (i := 1) rfl
  | arguments first =>
    rw [(Expr.samePlace first).environment]
    exact ⟨_, _, _, 0, rfl, located⟩
  | call => trivial
  | firstExpr =>
    obtain ⟨callee, paren, arguments, k, left, stands⟩ := located
    refine stands.operand (i := k + 1) ?_
    rw [Expr.operands, List.getElem?_cons_succ, ← List.head?_drop, ← left]
    rfl
  | otherExprs first =>
    obtain ⟨callee, paren, arguments, k, left, stands⟩ := located
    rw [(Expr.samePlace first).environment]
    exact ⟨callee, paren, arguments, k + 1, drop_succ_of_cons left, stands⟩
  | block => exact ⟨_, _, 0, .block, rfl, _, located, fun _ => .scope _ rfl⟩
  | superclass | expression | ifCondition | condition | print_ | returned | initializer | loopCondition =>
    exact located.plain (i := 0) rfl rfl
  | ifBranch first | thenBranch first | loopBody first =>
    rw [(Expr.samePlace first).environment]
    exact located.plain (i := 1) rfl rfl
  | elseBranch first =>
    rw [(Expr.samePlace first).environment]
    exact located.plain (i := 2) rfl rfl
  | turns => exact located
  | otherTurns first _ turned =>
    rw [(Stmt.samePlace turned).environment, (Expr.samePlace first).environment]
    exact located
  | firstStmt | firstOfProgram =>
    obtain ⟨n, body, k, lists, left, houses⟩ := located
    exact houses.stmt lists left
  | otherStmts first | othersOfProgram first =>
    obtain ⟨n, body, k, lists, left, houses⟩ := located
    rw [(Stmt.samePlace first).environment]
    exact ⟨n, body, k + 1, lists, drop_succ_of_cons left, houses⟩
  | body =>
    obtain ⟨n, lists, houses⟩ := (declared _ _ rfl).houses _
    exact ⟨n, _, 0, lists, rfl, houses⟩

end Activity

theorem Made.function_stands {f : Closure} (made : (Made.of launches).function f)
    (located : ∀ a, Happened launches a → a.machine.environment.scopes.length ≤ f.environment.scopes.length →
      a.Located launches globals) : f.Stands launches globals := by
  rcases made with ⟨n, m, happened, same⟩ | ⟨scope, method, defined, declaration, same⟩
  · have stands : Stands launches globals (.stmt (.function f.declaration)) m.environment :=
      located _ happened (Nat.le_of_eq (by rw [same]))
    rw [← same] at stands
    exact .inl (stands.plain (i := 0) rfl rfl)
  · obtain ⟨n, name, superclass, methods, above, m, m₁, happened, evaluated, listed, inside⟩ := defined
    obtain ⟨i, bound, found⟩ := List.getElem_of_mem listed
    have method : (methods.map Node.method)[i]? = some (.method f.declaration) := by
      rw [List.getElem?_map, List.getElem?_eq_getElem bound, found, declaration]
      rfl
    have around : m₁.environment = m.environment :=
      ((Run.keeps_superclass (Closure.invoke_keeps n) name superclass : Run.Keeps .place _).of_value evaluated).environment
    rw [inside] at same
    have shorter : m.environment.scopes.length ≤ f.environment.scopes.length := by
      rw [same]
      cases above <;> simp only [Machine.methodEnvironment, around, Environment.scopes, List.length_cons] <;> omega
    have stands : Stands launches globals (.stmt (.class_ name superclass methods)) m.environment :=
      located _ happened shorter
    rcases Run.superclass_eq_value evaluated with ⟨rfl, rfl, rfl⟩ | ⟨e, c, rfl, rfl, value⟩
    · rw [Closure.Stands, same]
      exact .inr (stands.child (i := i) method (.scope scope rfl))
    · rw [Closure.Stands, same]
      exact .inr (stands.child (i := i + 1) method (.derived scope i happened (.intro value) rfl))

theorem Coherent.located (coherent : Coherent globals launches) :
    ∀ a, Happened launches a → a.Located launches globals := by
  -- by induction on the environment: a function was declared in one shorter than that of its body
  suffices all : ∀ size a, Happened launches a → a.machine.environment.scopes.length = size → a.Located launches globals from
    fun a happened => all _ a happened rfl
  intro size
  induction size using Nat.strongRecOn with
  | ind size shorter =>
    rintro a ⟨launch, listed, during⟩ length
    induction during with
    | start =>
      have stands : Stands launches globals (.program launch.program) launch.machine.environment :=
        ⟨launch, listed, [], .here, coherent.placed launch listed⟩
      exact ⟨_, _, 0, .program, rfl, _, stands, fun _ => .plain rfl⟩
    | @spawned b c reached spawns ih =>
      rcases spawns.nests with ⟨f, xs, task⟩ | ⟨f, xs, k, task, inside⟩ | ⟨plain, same | ⟨k, inside⟩⟩
      · unfold Activity.Located
        rw [task]
        trivial
      · have called : b.Located launches globals := by
          unfold Activity.Located
          rw [task]
          trivial
        rw [inside, Environment.scopes, List.length_cons] at length
        have stands : f.Stands launches globals :=
          Made.function_stands ((coherent.recorded b ⟨launch, listed, reached⟩).invoked f xs task) fun d happened le =>
            shorter _ (by omega) d happened rfl
        refine spawns.located called fun f' xs' task' => ?_
        cases task.symm.trans task'
        exact stands
      · exact spawns.located (ih (same ▸ length)) fun f xs task => absurd task (plain f xs)
      · rw [inside, Environment.scopes, List.length_cons] at length
        exact spawns.located (shorter _ (by omega) b ⟨launch, listed, reached⟩ rfl) fun f xs task => absurd task (plain f xs)

end Lox
