import Lox.Proofs.Scope.Shape
import Lox.Proofs.Tree.Occurrence

namespace Lox

namespace Scope

def Mirrors (scopes : List Names) (declared : List (List String)) : Prop :=
  scopes.map (fun names name => names.contains name) = declared.map fun list name => decide (name ∈ list)

namespace Mirrors

variable {scopes outer : List Names} {names : Names} {declared rest : List (List String)} {list : List String}

theorem nil : Mirrors [] [] := rfl

theorem cons_iff : Mirrors (names :: outer) (list :: rest) ↔
    (∀ name, names.contains name = true ↔ name ∈ list) ∧ Mirrors outer rest := by
  rw [Mirrors, List.map_cons, List.map_cons, List.cons.injEq, funext_iff, Mirrors]
  refine and_congr (forall_congr' fun name => ?_) Iff.rfl
  rw [Bool.eq_iff_iff, decide_eq_true_eq]

theorem enter (mirrors : Mirrors scopes declared) : Mirrors ([] :: scopes) ([] :: declared) :=
  cons_iff.mpr ⟨by simp [Bindings.contains, Bindings.find?], mirrors⟩

theorem single (mirrors : Mirrors scopes declared) (name : String) :
    Mirrors ([(name, true)] :: scopes) ([name] :: declared) := by
  refine cons_iff.mpr ⟨fun other => ?_, mirrors⟩
  by_cases same : name = other <;> simp [Bindings.contains, Bindings.find?, same, eq_comm]

theorem eq_nil_iff (mirrors : Mirrors scopes declared) : scopes = [] ↔ declared = [] := by
  have lengths := congrArg List.length mirrors
  rw [List.length_map, List.length_map] at lengths
  rw [← List.length_eq_zero_iff, lengths, List.length_eq_zero_iff]

theorem bind (mirrors : Mirrors scopes (list :: rest)) (name : String) :
    Mirrors (bindInnermost name scopes) ((list ++ [name]) :: rest) := by
  cases scopes with
  | nil => exact absurd (mirrors.eq_nil_iff.mp rfl) (by simp)
  | cons names outer =>
    obtain ⟨innermost, others⟩ := cons_iff.mp mirrors
    refine cons_iff.mpr ⟨fun other => ?_, others⟩
    rw [Bindings.contains, Names.find?_bind]
    by_cases same : name = other
    · simp [same]
    · simp [same, Ne.symm same, ← innermost, Bindings.contains]

theorem declare {w : Walk} {name : Token} (mirrors : Mirrors (bindInnermost name.lexeme w.scopes) declared) :
    Mirrors (w.declare name).scopes declared := by
  rw [Walk.scopes_declare]
  cases scopes : w.scopes with
  | nil => rwa [scopes] at mirrors
  | cons names outer =>
    rw [scopes] at mirrors
    refine Eq.trans ?_ mirrors
    refine congrArg (· :: outer.map _) (funext fun other => ?_)
    show Bindings.contains other _ = (Bindings.find? other (names.bind name.lexeme)).isSome
    rw [Names.find?_bind]
    by_cases held : names.contains name.lexeme = true
    · rw [if_pos held]
      by_cases same : name.lexeme = other
      · rw [if_pos same, ← same, held]
        rfl
      · rw [if_neg same]
        rfl
    · rw [if_neg held, Bindings.contains, Bindings.find?_insert]
      by_cases same : name.lexeme = other <;> simp [same]

theorem findIdx? (mirrors : Mirrors scopes declared) (name : String) :
    scopes.findIdx? (·.contains name) = declared.findIdx? (name ∈ ·) := by
  have walked : (scopes.map fun names name => names.contains name).findIdx? (· name) =
      scopes.findIdx? (·.contains name) := List.findIdx?_map
  rw [← walked, mirrors]
  exact List.findIdx?_map

theorem bindAll {w : Walk} (mirrors : Mirrors w.scopes (list :: rest)) (params : List Token) :
    Mirrors (params.foldl Walk.bind w).scopes ((list ++ params.map Token.lexeme) :: rest) := by
  induction params generalizing w list with
  | nil => simpa using mirrors
  | cons param others ih =>
    have bound := mirrors.bind param.lexeme
    rw [← Walk.scopes_bind] at bound
    simpa using ih bound

theorem body {w : Walk} (mirrors : Mirrors w.scopes declared) (d : FunctionDecl) :
    Mirrors (d.params.foldl Walk.bind (w.enter [])).scopes
      ([d.params.map Token.lexeme ++ Stmt.declared (d.body.take 0)] ++ declared) := by
  have entered : Mirrors (w.enter []).scopes ([] :: declared) := mirrors.enter
  simpa [Stmt.declared] using entered.bindAll d.params

end Mirrors

theorem Mirrors.declareIn {n : Node} {body : List Stmt} {stmt : Stmt} {scopes : List Names} {outer : List (List String)}
    {i j k : Nat} (lists : n.Lists body) (top : n.opens i k = [] → outer = []) (here : body[k]? = some stmt)
    (mirrors : Mirrors scopes (n.opens i k ++ outer)) :
    Mirrors (Scope.declareIn stmt scopes) (n.opens j (k + 1) ++ outer) := by
  rcases lists.opens_eq with global | ⟨given, opens⟩
  · rw [global, top (global i k)] at mirrors
    rw [global, top (global i k), mirrors.eq_nil_iff.mpr rfl, declareIn_nil]
    exact .nil
  · rw [opens] at mirrors ⊢
    rw [Stmt.declared_take_succ here, ← List.append_assoc]
    unfold Scope.declareIn
    cases stmt.declares? with
    | none => simpa using mirrors
    | some name => exact mirrors.bind name.lexeme

end Scope

def Node.part : Node → Scope.Part
  | .program stmts => .stmts stmts
  | .stmt s => .stmt s
  | .expr e => .expr e
  | .function d | .method d => .function d

namespace Scope

def Visit.inner (v : Visit) : List Names :=
  match v.part with
  | .stmt s => declareIn s v.walk.scopes
  | _ => v.walk.scopes

variable {program : List Stmt} {context : Context} {w : Walk}

theorem Visits.exprs {es : List Expr} {i : Nat} {e : Expr} (visited : Visits program ⟨context, .exprs es, w⟩)
    (here : es[i]? = some e) : ∃ w', Visits program ⟨context, .expr e, w'⟩ ∧ w'.scopes = w.scopes := by
  induction es generalizing i w with
  | nil => cases here
  | cons first rest ih =>
    cases i with
    | zero =>
      cases here
      exact ⟨w, visited.enter .firstExpr, rfl⟩
    | succ i =>
      obtain ⟨w', visited', same⟩ := ih (visited.enter .otherExprs) here
      exact ⟨w', visited', same.trans (scopes_walkExpr ..)⟩

theorem Visits.methods {ds : List FunctionDecl} {i : Nat} {d : FunctionDecl}
    (arranged : FunctionDecl.allArranged ds = true) (visited : Visits program ⟨context, .methods ds, w⟩)
    (here : ds[i]? = some d) : ∃ context' w', Visits program ⟨context', .function d, w'⟩ ∧ w'.scopes = w.scopes := by
  induction ds generalizing i w with
  | nil => cases here
  | cons first rest ih =>
    simp only [FunctionDecl.allArranged, Bool.and_eq_true] at arranged
    cases i with
    | zero =>
      cases here
      exact ⟨_, w, visited.enter .firstMethod, rfl⟩
    | succ i =>
      obtain ⟨context', w', visited', same⟩ := ih arranged.2 (visited.enter .otherMethods) here
      exact ⟨context', w', visited', same.trans (scopes_walkFunction_of_isArranged _ _ _ arranged.1)⟩

theorem Visits.stmts {n : Node} {body : List Stmt} {outer : List (List String)} (lists : n.Lists body)
    (arranged : Stmt.allArranged body = true) (top : ∀ i k, n.opens i k = [] → outer = [])
    (visited : Visits program ⟨context, .stmts body, w⟩) (mirrors : Mirrors w.scopes (n.opens 0 0 ++ outer))
    {k : Nat} {stmt : Stmt} (here : body[k]? = some stmt) :
    ∃ w', Visits program ⟨context, .stmt stmt, w'⟩ ∧ Mirrors (declareIn stmt w'.scopes) (n.opens k (k + 1) ++ outer) := by
  suffices reached : ∀ k, k < body.length → ∃ w', Visits program ⟨context, .stmts (body.drop k), w'⟩ ∧
      Mirrors w'.scopes (n.opens k k ++ outer) by
    obtain ⟨inside, found⟩ := List.getElem?_eq_some_iff.mp here
    obtain ⟨w', visited', mirrors'⟩ := reached k inside
    rw [List.drop_eq_getElem_cons inside, found] at visited'
    exact ⟨w', visited'.enter .firstStmt, mirrors'.declareIn lists (top k k) here⟩
  intro k inside
  induction k with
  | zero => exact ⟨w, visited, mirrors⟩
  | succ k ih =>
    have before : k < body.length := Nat.lt_of_succ_lt inside
    obtain ⟨w', visited', mirrors'⟩ := ih before
    have here : body[k]? = some body[k] := List.getElem?_eq_getElem before
    rw [List.drop_eq_getElem_cons before] at visited'
    refine ⟨_, visited'.enter .otherStmts, ?_⟩
    rw [scopes_walkStmt_of_isArranged _ _ _ (Stmt.allArranged_iff.mp arranged _ (List.getElem_mem before))]
    exact mirrors'.declareIn lists (top k k) here

theorem Visits.operand {e operand : Expr} {i : Nat} (visited : Visits program ⟨context, .expr e, w⟩)
    (here : e.operands[i]? = some operand) :
    ∃ w', Visits program ⟨context, .expr operand, w'⟩ ∧ w'.scopes = w.scopes := by
  have single {inner : Expr} (only : [inner][i]? = some operand) (entered : Visits program ⟨context, .expr inner, w⟩) :
      ∃ w', Visits program ⟨context, .expr operand, w'⟩ ∧ w'.scopes = w.scopes := by
    obtain rfl := List.mem_singleton.mp (List.mem_of_getElem? only)
    exact ⟨w, entered, rfl⟩
  cases e with
  | assign id name value => exact single here (visited.enter .assigned)
  | get object name => exact single here (visited.enter .owner)
  | grouping inner => exact single here (visited.enter .grouped)
  | unary operator right => exact single here (visited.enter .operand)
  | binary left operator right =>
    match i with
    | 0 => cases here; exact ⟨_, visited.enter .leftOperand, rfl⟩
    | 1 => cases here; exact ⟨_, visited.enter .rightOperand, scopes_walkExpr ..⟩
  | logical left operator right =>
    match i with
    | 0 => cases here; exact ⟨_, visited.enter .leftChoice, rfl⟩
    | 1 => cases here; exact ⟨_, visited.enter .rightChoice, scopes_walkExpr ..⟩
  | set object name value =>
    match i with
    | 0 => cases here; exact ⟨_, visited.enter .setOwner, scopes_walkExpr ..⟩
    | 1 => cases here; exact ⟨_, visited.enter .setValue, rfl⟩
  | call callee paren arguments =>
    cases i with
    | zero =>
      cases here
      exact ⟨_, visited.enter .callee, rfl⟩
    | succ i =>
      obtain ⟨w', visited', same⟩ := Visits.exprs (visited.enter .arguments) here
      exact ⟨w', visited', same.trans (scopes_walkExpr ..)⟩
  | constant value => cases here
  | super_ id keyword method => cases here
  | this_ id keyword => cases here
  | variable_ id name => cases here

theorem getElem?_map_eq_some {α β : Type} {f : α → β} {list : List α} {i : Nat} {b : β} (found : (list.map f)[i]? = some b) :
    ∃ a, list[i]? = some a ∧ b = f a := by
  rw [List.getElem?_map] at found
  obtain ⟨a, here, same⟩ := Option.map_eq_some_iff.mp found
  exact ⟨a, here, same.symm⟩

theorem Visits.child {n c : Node} {path : Path} {i : Nat} {v : Visit} (visited : Visits program v) (part : v.part = n.part)
    (arranged : n.isArranged = true) (top : ∀ stmts, n = .program stmts → path = []) (mirrors : Mirrors v.inner path.scopes)
    (child : n.children[i]? = some c) :
    ∃ v', Visits program v' ∧ v'.part = c.part ∧ Mirrors v'.inner (Path.scopes (⟨n, i⟩ :: path)) := by
  obtain ⟨context, _, w⟩ := v
  obtain rfl : _ = n.part := part
  rw [Path.scopes_cons]
  have expr {e : Expr} {context : Context} {w' : Walk} (entered : Visits program ⟨context, .expr e, w'⟩)
      (mirrors' : Mirrors w'.scopes (Position.scopes ⟨n, i⟩ ++ path.scopes)) :
      ∃ v', Visits program v' ∧ v'.part = (Node.expr e).part ∧ Mirrors v'.inner (Position.scopes ⟨n, i⟩ ++ path.scopes) :=
    ⟨_, entered, rfl, mirrors'⟩
  have list {body : List Stmt} {context : Context} {w' : Walk} (lists : n.Lists body)
      (entered : Visits program ⟨context, .stmts body, w'⟩) (mirrors' : Mirrors w'.scopes (n.opens 0 0 ++ path.scopes)) :
      ∃ v', Visits program v' ∧ v'.part = c.part ∧ Mirrors v'.inner (Position.scopes ⟨n, i⟩ ++ path.scopes) := by
    rw [lists.children_eq] at child
    obtain ⟨s, here, rfl⟩ := getElem?_map_eq_some child
    rw [lists.isArranged_eq] at arranged
    have outside : ∀ i k, n.opens i k = [] → path.scopes = [] := by
      intro i k closed
      cases lists with
      | program => rw [top _ rfl]; rfl
      | block | function | method => cases closed
    obtain ⟨w'', visited', mirrors''⟩ := Visits.stmts lists arranged outside entered mirrors' here
    exact ⟨_, visited', rfl, mirrors''⟩
  cases n with
  | program stmts => exact list .program visited mirrors
  | function d => exact list .function (visited.enter .body) (Mirrors.body mirrors d)
  | method d => exact list .method (visited.enter .body) (Mirrors.body mirrors d)
  | expr e =>
    obtain ⟨operand, here, rfl⟩ := getElem?_map_eq_some child
    obtain ⟨w', visited', same⟩ := Visits.operand visited here
    exact expr visited' (same ▸ mirrors)
  | stmt s =>
    have inside : Mirrors (declareIn s w.scopes) path.scopes := mirrors
    cases s with
    | block body => exact list .block (visited.enter .block) mirrors.enter
    | class_ name superclass methods =>
      cases superclass with
      | none =>
        obtain ⟨d, here, rfl⟩ := getElem?_map_eq_some child
        obtain ⟨context', w', visited', same⟩ := Visits.methods arranged (visited.enter .baseMethods) here
        refine ⟨_, visited', rfl, ?_⟩
        show Mirrors w'.scopes _
        rw [same, Walk.scopes_enter, Walk.scopes_bind]
        exact mirrors.single "this"
      | some e =>
        cases i with
        | zero =>
          cases child
          refine ⟨_, visited.enter .superclass, rfl, ?_⟩
          show Mirrors (checkSuperclass name e (w.bind name)).scopes _
          rw [scopes_checkSuperclass, Walk.scopes_bind]
          exact mirrors
        | succ i =>
          have method : (methods.map Node.method)[i]? = some c := child
          obtain ⟨d, here, rfl⟩ := getElem?_map_eq_some method
          obtain ⟨context', w', visited', same⟩ := Visits.methods arranged (visited.enter .derivedMethods) here
          refine ⟨_, visited', rfl, ?_⟩
          show Mirrors w'.scopes _
          rw [same, Walk.scopes_enter, Walk.scopes_enter, scopes_walkSuperclass, Walk.scopes_bind]
          exact (mirrors.single "super").single "this"
    | expression e =>
      cases i with
      | zero => cases child; exact expr (visited.enter .expression) inside
      | succ i => cases child
    | print_ e =>
      cases i with
      | zero => cases child; exact expr (visited.enter .print_) inside
      | succ i => cases child
    | function d =>
      cases i with
      | zero =>
        cases child
        refine ⟨_, visited.enter .function, rfl, ?_⟩
        show Mirrors (w.bind d.name).scopes _
        rw [Walk.scopes_bind]
        exact mirrors
      | succ i => cases child
    | ifThen condition thenBranch =>
      simp only [Node.isArranged, Stmt.isArranged, Bool.and_eq_true, Option.isNone_iff_eq_none] at arranged
      rcases i with _ | _ | i
      · cases child
        exact expr (visited.enter .ifCondition) inside
      · cases child
        refine ⟨_, visited.enter .ifBranch, rfl, ?_⟩
        show Mirrors (declareIn thenBranch (walkExpr context condition w).scopes) _
        rw [declareIn_plain arranged.1, scopes_walkExpr]
        exact mirrors
      · cases child
    | ifThenElse condition thenBranch elseBranch =>
      simp only [Node.isArranged, Stmt.isArranged, Bool.and_eq_true, Option.isNone_iff_eq_none] at arranged
      obtain ⟨⟨firstPlain, first⟩, secondPlain, second⟩ := arranged
      rcases i with _ | _ | _ | i
      · cases child
        exact expr (visited.enter .condition) inside
      · cases child
        refine ⟨_, visited.enter .thenBranch, rfl, ?_⟩
        show Mirrors (declareIn thenBranch (walkExpr context condition w).scopes) _
        rw [declareIn_plain firstPlain, scopes_walkExpr]
        exact mirrors
      · cases child
        refine ⟨_, visited.enter .elseBranch, rfl, ?_⟩
        show Mirrors (declareIn elseBranch (walkStmt context thenBranch (walkExpr context condition w)).scopes) _
        rw [declareIn_plain secondPlain, scopes_walkStmt_of_isArranged _ _ _ first, declareIn_plain firstPlain,
          scopes_walkExpr]
        exact mirrors
      · cases child
    | while_ condition body =>
      simp only [Node.isArranged, Stmt.isArranged, Bool.and_eq_true, Option.isNone_iff_eq_none] at arranged
      rcases i with _ | _ | i
      · cases child
        exact expr (visited.enter .whileCondition) inside
      · cases child
        refine ⟨_, visited.enter .whileBody, rfl, ?_⟩
        show Mirrors (declareIn body (walkExpr context condition w).scopes) _
        rw [declareIn_plain arranged.1, scopes_walkExpr]
        exact mirrors
      · cases child
    | return_ keyword value =>
      obtain ⟨e, here, rfl⟩ := getElem?_map_eq_some child
      obtain rfl := Option.mem_toList.mp (List.mem_of_getElem? here)
      exact expr (visited.enter .returned) (by rw [scopes_checkReturn]; exact inside)
    | var_ name initializer =>
      obtain ⟨e, here, rfl⟩ := getElem?_map_eq_some child
      obtain rfl := Option.mem_toList.mp (List.mem_of_getElem? here)
      exact expr (visited.enter .initializer) inside.declare

theorem Visits.occurs {n : Node} {path : Path} (arranged : Stmt.allArranged program = true)
    (occurs : Occurs program n path) : ∃ v, Visits program v ∧ v.part = n.part ∧ Mirrors v.inner path.scopes := by
  induction occurs with
  | here => exact ⟨_, .start, rfl, .nil⟩
  | @inside n c path i within child ih =>
    obtain ⟨v, visited, part, mirrors⟩ := ih
    have top : ∀ stmts, n = .program stmts → path = [] := by
      rintro stmts rfl
      exact within.program_root
    exact visited.child part (within.isArranged arranged) top mirrors child

end Scope
end Lox
