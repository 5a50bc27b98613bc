import Mathlib.Data.List.Nodup
import Lox.Proofs.Tree.Arranged
import Lox.Proofs.Tree.Numbering

namespace Lox

inductive Node where
  | program (stmts : List Stmt)
  | stmt (stmt : Stmt)
  | expr (expr : Expr)
  | function (declaration : FunctionDecl)
  | method (declaration : FunctionDecl)

def Expr.operands : Expr → List Expr
  | .assign _ _ value => [value]
  | .binary left _ right | .logical left _ right => [left, right]
  | .call callee _ arguments => callee :: arguments
  | .get object _ => [object]
  | .grouping inner => [inner]
  | .set object _ value => [object, value]
  | .unary _ right => [right]
  | .constant _ | .super_ _ _ _ | .this_ _ _ | .variable_ _ _ => []

def Node.children : Node → List Node
  | .program stmts => stmts.map .stmt
  | .stmt (.block body) => body.map .stmt
  | .stmt (.class_ _ superclass methods) => superclass.toList.map .expr ++ methods.map .method
  | .stmt (.expression e) | .stmt (.print_ e) => [.expr e]
  | .stmt (.function d) => [.function d]
  | .stmt (.ifThen condition thenBranch) => [.expr condition, .stmt thenBranch]
  | .stmt (.ifThenElse condition thenBranch elseBranch) => [.expr condition, .stmt thenBranch, .stmt elseBranch]
  | .stmt (.return_ _ e?) | .stmt (.var_ _ e?) => e?.toList.map .expr
  | .stmt (.while_ condition body) => [.expr condition, .stmt body]
  | .expr e => e.operands.map .expr
  | .function d | .method d => d.body.map .stmt

/-- Inside a node, in one of its children. -/
structure Position where
  node : Node
  child : Nat

abbrev Path := List Position

/-- From a node at a path, these are the nodes inside it and their paths. -/
inductive Node.Within (root : Node) (path : Path) : Node → Path → Prop where
  | here : Within root path root path
  | inside {n c : Node} {p : Path} {i : Nat} (within : Within root path n p) (child : n.children[i]? = some c) :
      Within root path c (⟨n, i⟩ :: p)

def Occurs (program : List Stmt) (n : Node) (path : Path) : Prop := Node.Within (.program program) [] n path

namespace Node

variable {n c m : Node} {path p : Path} {i : Nat}

theorem Within.of_child (child : n.children[i]? = some c) (within : c.Within (⟨n, i⟩ :: path) m p) :
    n.Within path m p := by
  induction within with
  | here => exact .inside .here child
  | inside _ found ih => exact .inside ih found

theorem Within.here_or_child (within : n.Within path m p) :
    m = n ∧ p = path ∨ ∃ (i : Nat) (c : Node), n.children[i]? = some c ∧ c.Within (⟨n, i⟩ :: path) m p := by
  induction within with
  | here => exact .inl ⟨rfl, rfl⟩
  | inside _ found ih =>
    rcases ih with ⟨rfl, rfl⟩ | ⟨j, d, child, within⟩
    · exact .inr ⟨_, _, found, .here⟩
    · exact .inr ⟨j, d, child, .inside within found⟩

theorem children_ne_program (child : n.children[i]? = some c) (stmts : List Stmt) : c ≠ .program stmts := by
  have member := List.mem_of_getElem? child
  rintro rfl
  cases n with
  | stmt s => cases s <;> simp [Node.children] at member
  | _ => simp [Node.children] at member

theorem Within.program_root {stmts : List Stmt} (within : n.Within path (.program stmts) p) : p = path := by
  cases within with
  | here => rfl
  | inside _ child => exact absurd rfl (children_ne_program child stmts)

end Node

def Node.isFunction : Node → Bool
  | .function _ | .method _ => true
  | _ => false

def Node.isClass : Node → Bool
  | .stmt (.class_ _ _ _) => true
  | _ => false

def Stmt.declared (stmts : List Stmt) : List String := (stmts.filterMap Stmt.declares?).map Token.lexeme

/-- The scopes that a node puts around its child, innermost first, with the names declared in them when so many
    statements of the node are done. Only the methods of a class are in its scopes. -/
def Node.opens : Node → Nat → Nat → List (List String)
  | .stmt (.block body), _, done => [Stmt.declared (body.take done)]
  | .stmt (.class_ _ none _), _, _ => [["this"]]
  | .stmt (.class_ _ (some _) _), _ + 1, _ => [["this"], ["super"]]
  | .function d, _, done | .method d, _, done => [d.params.map Token.lexeme ++ Stmt.declared (d.body.take done)]
  | _, _, _ => []

/-- The declaration that a place is in counts as done: its name is declared before what is inside it. -/
def Position.scopes (p : Position) : List (List String) := p.node.opens p.child (p.child + 1)

namespace Path

def function? (path : Path) : Option Node := (path.map Position.node).find? Node.isFunction

def class? (path : Path) : Option Node := (path.map Position.node).find? Node.isClass

/-- The names that the scopes around declare before the place, scope by scope from inside. The globals are in none. -/
def scopes (path : Path) : List (List String) := path.flatMap Position.scopes

/-- The local variable whose initializer the place is in. Inside an expression there are only expressions. -/
def initializing? : Path → Option String
  | ⟨.expr _, _⟩ :: outer => initializing? outer
  | ⟨.stmt (.var_ name _), _⟩ :: outer => if scopes outer = [] then none else some name.lexeme
  | _ => none

variable {p : Position} {path : Path}

theorem function?_cons : Path.function? (p :: path) = if p.node.isFunction then some p.node else path.function? := by
  simp only [function?, List.map_cons, List.find?_cons]
  split <;> simp_all

theorem class?_cons : Path.class? (p :: path) = if p.node.isClass then some p.node else path.class? := by
  simp only [class?, List.map_cons, List.find?_cons]
  split <;> simp_all

theorem class?_eq_some {n : Node} (around : path.class? = some n) :
    ∃ name superclass methods, n = .stmt (.class_ name superclass methods) := by
  have found := List.find?_some around
  match n with
  | .stmt (.class_ name superclass methods) => exact ⟨name, superclass, methods, rfl⟩

theorem scopes_cons : Path.scopes (p :: path) = p.scopes ++ path.scopes := List.flatMap_cons

end Path

inductive Node.Lists : Node → List Stmt → Prop where
  | program {stmts : List Stmt} : Lists (.program stmts) stmts
  | block {body : List Stmt} : Lists (.stmt (.block body)) body
  | function {d : FunctionDecl} : Lists (.function d) d.body
  | method {d : FunctionDecl} : Lists (.method d) d.body

theorem Node.Lists.children_eq {n : Node} {body : List Stmt} (lists : n.Lists body) : n.children = body.map .stmt := by
  cases lists <;> rfl

theorem Node.Lists.opens_eq {n : Node} {body : List Stmt} (lists : n.Lists body) :
    (∀ i done, n.opens i done = []) ∨
      ∃ given, ∀ i done, n.opens i done = [given ++ Stmt.declared (body.take done)] := by
  cases lists with
  | program => exact .inl fun _ _ => rfl
  | block => exact .inr ⟨[], fun _ _ => rfl⟩
  | function | method => exact .inr ⟨_, fun _ _ => rfl⟩

theorem Stmt.declared_cons (stmt : Stmt) (rest : List Stmt) :
    Stmt.declared (stmt :: rest) = (stmt.declares?.map Token.lexeme).toList ++ Stmt.declared rest := by
  cases found : stmt.declares? <;> simp [Stmt.declared, found]

theorem Stmt.declared_take_succ {body : List Stmt} {k : Nat} {stmt : Stmt} (here : body[k]? = some stmt) :
    Stmt.declared (body.take (k + 1)) =
      Stmt.declared (body.take k) ++ (stmt.declares?.map Token.lexeme).toList := by
  rw [List.take_add_one, here]
  cases found : stmt.declares? <;> simp [Stmt.declared, found]

def Node.isArranged : Node → Bool
  | .program stmts => Stmt.allArranged stmts
  | .stmt s => s.isArranged
  | .expr _ => true
  | .function d | .method d => d.isArranged

theorem Node.Lists.isArranged_eq {n : Node} {body : List Stmt} (lists : n.Lists body) :
    n.isArranged = Stmt.allArranged body := by
  cases lists with
  | program | block => rfl
  | function | method => exact FunctionDecl.isArranged_eq _

theorem Node.isArranged_child {n c : Node} {i : Nat} (arranged : n.isArranged = true) (child : n.children[i]? = some c) :
    c.isArranged = true := by
  have member : c ∈ n.children := List.mem_of_getElem? child
  have listed {body : List Stmt} (lists : n.Lists body) : c.isArranged = true := by
    rw [lists.isArranged_eq] at arranged
    rw [lists.children_eq] at member
    obtain ⟨stmt, inside, rfl⟩ := List.mem_map.mp member
    exact Stmt.allArranged_iff.mp arranged stmt inside
  cases n with
  | program stmts => exact listed .program
  | function d => exact listed .function
  | method d => exact listed .method
  | expr e =>
    obtain ⟨e', -, rfl⟩ := List.mem_map.mp member
    rfl
  | stmt s =>
    cases s with
    | block body => exact listed .block
    | class_ name superclass methods =>
      rcases List.mem_append.mp member with extended | declared
      · obtain ⟨e, -, rfl⟩ := List.mem_map.mp extended
        rfl
      · obtain ⟨d, inside, rfl⟩ := List.mem_map.mp declared
        exact FunctionDecl.allArranged_iff.mp arranged d inside
    | return_ keyword value | var_ name initializer =>
      obtain ⟨e, -, rfl⟩ := List.mem_map.mp member
      rfl
    | _ =>
      simp only [Node.children, List.mem_cons, List.not_mem_nil, or_false] at member
      simp only [Node.isArranged, Stmt.isArranged, Bool.and_eq_true] at arranged
      rcases member with rfl | rfl | rfl <;> simp_all [Node.isArranged]

theorem Node.Within.isArranged {n m : Node} {path p : Path} (within : n.Within path m p) (arranged : n.isArranged = true) :
    m.isArranged = true := by
  induction within with
  | here => exact arranged
  | inside _ child ih => exact Node.isArranged_child ih child

def Node.ids : Node → List NodeId
  | .program stmts => Stmt.idsAll stmts
  | .stmt s => s.ids
  | .expr e => e.ids
  | .function d | .method d => d.ids

theorem Expr.flatMap_ids (es : List Expr) : (es.map Node.expr).flatMap Node.ids = Expr.idsAll es := by
  induction es with
  | nil => rfl
  | cons e rest ih => rw [List.map_cons, List.flatMap_cons, ih, Expr.idsAll, Node.ids]

theorem Stmt.flatMap_ids (ss : List Stmt) : (ss.map Node.stmt).flatMap Node.ids = Stmt.idsAll ss := by
  induction ss with
  | nil => rfl
  | cons s rest ih => rw [List.map_cons, List.flatMap_cons, ih, Stmt.idsAll, Node.ids]

theorem FunctionDecl.flatMap_ids (ds : List FunctionDecl) :
    (ds.map Node.method).flatMap Node.ids = FunctionDecl.idsAll ds := by
  induction ds with
  | nil => rfl
  | cons d rest ih => rw [List.map_cons, List.flatMap_cons, ih, FunctionDecl.idsAll, Node.ids]

theorem Node.children_ids (n : Node) : (n.children.flatMap Node.ids).Sublist n.ids := by
  have optional (e : Option Expr) : (e.toList.map Node.expr).flatMap Node.ids = Expr.idsOptional e := by
    cases e <;> simp [Expr.idsOptional, Node.ids]
  cases n with
  | program stmts => exact (Stmt.flatMap_ids stmts).symm ▸ List.Sublist.refl _
  | function d | method d => cases d with | mk name params body => exact (Stmt.flatMap_ids body).symm ▸ List.Sublist.refl _
  | expr e => cases e <;> simp [Node.children, Expr.operands, Node.ids, Expr.ids, Expr.flatMap_ids]
  | stmt s =>
    cases s with
    | block body => exact (Stmt.flatMap_ids body).symm ▸ List.Sublist.refl _
    | class_ name superclass methods =>
      rw [Node.children, List.flatMap_append, optional, FunctionDecl.flatMap_ids]
      exact List.Sublist.refl _
    | return_ keyword value => exact (optional value).symm ▸ List.Sublist.refl _
    | var_ name initializer => exact (optional initializer).symm ▸ List.Sublist.refl _
    | _ => simp [Node.children, Node.ids, Stmt.ids]

namespace Node

variable {n m c c' : Node} {path p p' : Path} {i j : Nat} {id : NodeId}

theorem Within.ids_subset (within : n.Within path m p) : m.ids ⊆ n.ids := by
  induction within with
  | here => exact List.Subset.refl _
  | @inside n c p i _ child ih =>
    intro id member
    exact ih (n.children_ids.subset (List.mem_flatMap.mpr ⟨c, List.mem_of_getElem? child, member⟩))

theorem child_unique (distinct : n.ids.Nodup) (child : n.children[i]? = some c) (child' : n.children[j]? = some c')
    (here : id ∈ c.ids) (there : id ∈ c'.ids) : i = j := by
  have apart := List.pairwise_iff_getElem.mp (List.nodup_flatMap.mp (n.children_ids.nodup distinct)).2
  obtain ⟨inside, rfl⟩ := List.getElem?_eq_some_iff.mp child
  obtain ⟨inside', rfl⟩ := List.getElem?_eq_some_iff.mp child'
  rcases Nat.lt_trichotomy i j with less | same | greater
  · exact absurd there (apart i j inside inside' less here)
  · exact same
  · exact absurd here (apart j i inside' inside greater there)

theorem Within.length_le (within : n.Within path m p) : path.length ≤ p.length := by
  induction within with
  | here => exact Nat.le_refl _
  | inside _ _ ih => exact Nat.le_succ_of_le ih

theorem Within.unique (within : n.Within path m p) (within' : n.Within path m p') (distinct : n.ids.Nodup)
    (leaf : m.children = []) (numbered : id ∈ m.ids) : p = p' := by
  -- by induction on the way that is left from the node to the place
  obtain ⟨k, length⟩ := Nat.exists_eq_add_of_le within.length_le
  have childless {i : Nat} {c : Node} : m.children[i]? ≠ some c := by simp [leaf]
  induction k generalizing n path with
  | zero =>
    rcases within.here_or_child with ⟨rfl, rfl⟩ | ⟨i, c, child, inner⟩
    · rcases within'.here_or_child with ⟨-, rfl⟩ | ⟨j, c', child', -⟩
      · rfl
      · exact absurd child' childless
    · have longer := inner.length_le
      rw [List.length_cons] at longer
      omega
  | succ k ih =>
    rcases within.here_or_child with ⟨rfl, rfl⟩ | ⟨i, c, child, inner⟩
    · omega
    · rcases within'.here_or_child with ⟨rfl, rfl⟩ | ⟨j, c', child', inner'⟩
      · exact absurd child childless
      · obtain rfl := child_unique distinct child child' (inner.ids_subset numbered) (inner'.ids_subset numbered)
        cases child.symm.trans child'
        have inside : c.ids.Sublist (n.children.flatMap Node.ids) := by
          rw [List.flatMap_def]
          exact List.sublist_flatten_of_mem (List.mem_map_of_mem (List.mem_of_getElem? child))
        exact ih inner inner' ((inside.trans n.children_ids).nodup distinct) (by rw [length, List.length_cons]; omega)

end Node

end Lox
