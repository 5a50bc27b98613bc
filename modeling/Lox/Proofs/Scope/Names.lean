import Mathlib.Data.List.Induction
import Mathlib.Data.List.Pairwise
import Lox.Proofs.Scope.Resolved
import Lox.Proofs.Tree.Renaming

namespace Lox.Scope

def Part.names : Part → List String
  | expr e => e.names
  | exprs es => Expr.namesAll es
  | stmt s => s.names
  | stmts ss => Stmt.namesAll ss
  | function d => d.names
  | methods ds => FunctionDecl.namesAll ds

def Avoids (word : String) (scopes : List Names) : Prop := ∀ names ∈ scopes, names.contains word = false

/-- At the visit, nothing is known of the word, neither in the part nor in the scopes. -/
structure Visit.Avoids (word : String) (v : Visit) : Prop where
  part : word ∉ v.part.names
  scopes : Scope.Avoids word v.walk.scopes

namespace Avoids

variable {word : String} {scopes : List Names} {w : Walk}

theorem nil : Avoids word [] := by simp [Avoids]

theorem cons {names : Names} (here : names.contains word = false) (avoids : Avoids word scopes) :
    Avoids word (names :: scopes) := List.forall_mem_cons.mpr ⟨here, avoids⟩

theorem enter (avoids : Avoids word w.scopes) : Avoids word (w.enter []).scopes := avoids.cons rfl

theorem reserved {scopes : List Names} {name : String} (avoids : Avoids word scopes) (member : name ∈ Scope.reserved)
    (free : word ∉ Scope.reserved) : Avoids word ([(name, true)] :: scopes) := by
  apply avoids.cons
  have other : name ≠ word := by
    rintro rfl
    exact free member
  simp [Bindings.contains, Bindings.find?, other]

theorem bindInnermost {name : String} (avoids : Avoids word scopes) (other : word ≠ name) :
    Avoids word (bindInnermost name scopes) := by
  cases scopes with
  | nil => exact nil
  | cons names outer =>
    obtain ⟨here, others⟩ := List.forall_mem_cons.mp avoids
    refine cons ?_ others
    rw [Bindings.contains, Names.find?_bind, if_neg other.symm]
    exact here

theorem declare {name : Token} (avoids : Avoids word w.scopes) (other : word ≠ name.lexeme) :
    Avoids word (w.declare name).scopes := by
  rw [Walk.scopes_declare]
  cases scopes : w.scopes with
  | nil => exact nil
  | cons names outer =>
    rw [scopes] at avoids
    obtain ⟨here, others⟩ := List.forall_mem_cons.mp avoids
    refine cons ?_ others
    split
    · exact here
    · rw [Bindings.contains, Bindings.find?_insert, if_neg other.symm]
      exact here

theorem bindAll {params : List Token} (avoids : Avoids word w.scopes) (others : word ∉ params.map Token.lexeme) :
    Avoids word (params.foldl Walk.bind w).scopes := by
  induction params generalizing w with
  | nil => exact avoids
  | cons param rest ih =>
    rw [List.map_cons, List.mem_cons, not_or] at others
    refine ih ?_ others.2
    rw [Walk.scopes_bind]
    exact avoids.bindInnermost others.1

theorem declareIn {stmt : Stmt} (avoids : Avoids word scopes) (others : word ∉ stmt.names) :
    Avoids word (declareIn stmt scopes) := by
  unfold Scope.declareIn
  split
  · rename_i name declares
    apply avoids.bindInnermost
    rintro rfl
    cases stmt <;> cases declares <;> simp [Stmt.names] at others
  · exact avoids

end Avoids

theorem Visit.Enters.names_subset {v v' : Visit} (entered : v.Enters v') : v'.part.names ⊆ v.part.names := by
  intro name member
  cases entered with
  | @body _ declaration =>
    obtain ⟨_, params, body⟩ := declaration
    simp only [Part.names, FunctionDecl.names]
    exact List.mem_append_right _ member
  | _ =>
    simp only [Part.names] at member
    simp [Part.names, Expr.names, Expr.namesAll, Expr.namesOptional, Stmt.names, Stmt.namesAll, FunctionDecl.namesAll,
      member]

theorem Visit.Enters.avoids {word : String} {v v' : Visit} (entered : v.Enters v') (legal : v.part.Legal)
    (free : word ∉ reserved) (avoids : v.Avoids word) : v'.Avoids word := by
  have inside := entered.names_subset
  refine ⟨fun member => avoids.part (inside member), ?_⟩
  obtain ⟨part, scopes⟩ := avoids
  have this : "this" ∈ reserved := by decide
  have super : "super" ∈ reserved := by decide
  cases entered with
  | block => exact scopes.enter
  | baseMethods =>
    simp only [Part.names, Stmt.names, List.mem_cons, not_or] at part
    rw [Walk.scopes_enter, Walk.scopes_bind]
    exact (scopes.bindInnermost part.1).reserved this free
  | superclass =>
    simp only [Part.names, Stmt.names, List.mem_cons, not_or] at part
    rw [scopes_checkSuperclass, Walk.scopes_bind]
    exact scopes.bindInnermost part.1
  | derivedMethods =>
    simp only [Part.names, Stmt.names, List.mem_cons, not_or] at part
    rw [Walk.scopes_enter, Walk.scopes_enter, scopes_walkSuperclass, Walk.scopes_bind]
    exact ((scopes.bindInnermost part.1).reserved super free).reserved this free
  | function =>
    simp only [Part.names, Stmt.names, List.mem_cons, not_or] at part
    rw [Walk.scopes_bind]
    exact scopes.bindInnermost part.1
  | elseBranch =>
    cases legal with
    | ifThenElse _ first _ plain _ =>
      rw [scopes_walkStmt _ _ _ first, scopes_walkExpr, declareIn_plain plain]
      exact scopes
  | initializer =>
    simp only [Part.names, Stmt.names, List.mem_cons, not_or] at part
    exact scopes.declare part.1
  | otherStmts =>
    have first := legal _ (List.mem_cons_self ..)
    simp only [Part.names, Stmt.namesAll, List.mem_append, not_or] at part
    rw [scopes_walkStmt _ _ _ first]
    exact scopes.declareIn part.1
  | @body _ declaration =>
    obtain ⟨_, params, body⟩ := declaration
    simp only [Part.names, FunctionDecl.names, List.mem_append, not_or] at part
    exact scopes.enter.bindAll part.1
  | otherMethods =>
    have first := legal _ (List.mem_cons_self ..)
    rw [scopes_walkFunction _ _ _ first]
    exact scopes
  | _ => simpa using scopes

theorem Visits.avoids {word : String} {program : List Stmt} (legal : ∀ stmt ∈ program, stmt.Legal)
    (free : word ∉ reserved) (fresh : word ∉ Stmt.namesAll program) {v : Visit} (visited : Visits program v) :
    v.Avoids word := by
  suffices known : v.part.Legal ∧ v.Avoids word from known.2
  induction visited with
  | start => exact ⟨legal, fresh, .nil⟩
  | enter _ entered ih => exact ⟨entered.legal ih.1, entered.avoids ih.1 free ih.2⟩

section

variable {distances : Std.TreeMap NodeId Nat} {program : List Stmt} {context : Context} {w : Walk} {names : Names}
  {outer : List Names}

def DeclareApart (s s' : Stmt) : Prop :=
  ∀ name ∈ s.declares?, ∀ name' ∈ s'.declares?, name.lexeme ≠ name'.lexeme

instance : Std.Symm DeclareApart := ⟨fun _ _ apart name here name' there => (apart name' there name here).symm⟩

theorem contains_bind {name other : String} (absent : (names.bind name).contains other = false) :
    name ≠ other ∧ names.contains other = false := by
  rw [Bindings.contains, Names.find?_bind] at absent
  split at absent
  · cases absent
  · rename_i differs
    exact ⟨differs, absent⟩

theorem Visits.declares_apart (resolved : ∀ {v : Visit}, Visits program v → v.Resolved distances) {body : List Stmt}
    (visited : Visits program ⟨context, .stmts body, w⟩) (scopes : w.scopes = names :: outer) :
    (∀ s ∈ body, ∀ name ∈ s.declares?, names.contains name.lexeme = false) ∧ body.Pairwise DeclareApart := by
  induction body generalizing w names with
  | nil => exact ⟨nofun, .nil⟩
  | cons s rest ih =>
    have first := resolved (visited.enter .firstStmt)
    have behind := scopes_walkStmt context s w first.legal
    rw [scopes] at behind
    have later := visited.enter .otherStmts
    cases declares : s.declares? with
    | none =>
      rw [declareIn, declares] at behind
      obtain ⟨new, apart⟩ := ih later behind
      refine ⟨List.forall_mem_cons.mpr ⟨by simp [declares], new⟩, .cons ?_ apart⟩
      intro s' _ name declared
      rw [declares] at declared
      cases declared
    | some name =>
      rw [declareIn, declares] at behind
      obtain ⟨new, apart⟩ := ih later behind
      refine ⟨List.forall_mem_cons.mpr ⟨?_, fun s' member name' declared =>
        (contains_bind (new s' member name' declared)).2⟩,
        .cons ?_ apart⟩
      · intro name' declared
        cases declares.symm.trans declared
        exact first.declares_new declares scopes
      · intro s' member name' declared name'' declared'
        cases declares.symm.trans declared
        exact (contains_bind (new s' member name'' declared')).1

theorem contains_bindAll {params : List Token} (scopes : (params.foldl Walk.bind w).scopes = names :: outer) :
    ∀ param ∈ params, names.contains param.lexeme = true := by
  induction params using List.reverseRecOn generalizing names with
  | nil => exact nofun
  | append_singleton params last ih =>
    rw [List.foldl_append, List.foldl_cons, List.foldl_nil, Walk.scopes_bind] at scopes
    cases before : (params.foldl Walk.bind w).scopes with
    | nil =>
      rw [before] at scopes
      cases scopes
    | cons inner others =>
      rw [before] at scopes
      cases scopes
      intro param member
      rw [Bindings.contains, Names.find?_bind]
      split
      · rfl
      · rename_i differs
        rcases List.mem_append.mp member with earlier | same
        · exact ih before param earlier
        · rw [List.mem_singleton.mp same] at differs
          exact absurd rfl differs

theorem scopes_bindAll {inner : Names} (params : List Token) (scopes : w.scopes = inner :: outer) :
    ∃ names, (params.foldl Walk.bind w).scopes = names :: outer := by
  induction params generalizing w inner with
  | nil => exact ⟨inner, scopes⟩
  | cons param rest ih =>
    have bound : (w.bind param).scopes = inner.bind param.lexeme :: outer := by
      rw [Walk.scopes_bind, scopes]
      rfl
    exact ih bound

theorem Visits.not_defined (resolved : ∀ {v : Visit}, Visits program v → v.Resolved distances) {l : LocalScope}
    {name : String} (visited : Visits program ⟨context, .stmts l.body, l.params.foldl Walk.bind (w.enter [])⟩)
    (declared : l.declares name = true) {s : Stmt} (member : s ∈ l.body) {defined : Token}
    (defines : s.definition? = some defined) : defined.lexeme ≠ name := by
  obtain ⟨names, scopes⟩ := scopes_bindAll (w := w.enter []) l.params rfl
  obtain ⟨new, apart⟩ := visited.declares_apart resolved scopes
  have declares : s.declares? = some defined := by
    cases s <;> first | exact defines | cases defines
  rw [LocalScope.declares, Bool.or_eq_true, List.any_eq_true, List.any_eq_true] at declared
  rcases declared with ⟨param, listed, same⟩ | ⟨other, listed, isVar⟩
  · rw [beq_iff_eq] at same
    intro equal
    have absent := new s member defined declares
    rw [equal, ← same, contains_bindAll scopes param listed] at absent
    cases absent
  · cases other with
    | var_ declaredName initializer =>
      have differs := apart.forall member listed (by rintro rfl; cases defines) defined declares declaredName rfl
      rw [eq_of_beq isVar] at differs
      exact differs
    | _ => cases isVar

end

end Lox.Scope
