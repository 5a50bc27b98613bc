import Lox.Proofs.Scope.Resolved
import Lox.Proofs.Tree.Alike

namespace Lox.Scope

inductive ScopesAlike : List Naming → List Names → List Names → Prop where
  | nil : ScopesAlike [] [] []
  | cons {r : Naming} {rs : List Naming} {names names' : Names} {outer outer' : List Names}
      (same : ∀ name, names'.find? (r name) = names.find? name) (others : ScopesAlike rs outer outer') :
      ScopesAlike (r :: rs) (names :: outer) (names' :: outer')

/-- The scope that binds a name is as far out in the one program as in the other, and its naming changes the name. -/
structure Binds (rs : List Naming) (scopes scopes' : List Names) (name name' : String) : Prop where
  distance : scopes'.findIdx? (·.contains name') = scopes.findIdx? (·.contains name)
  renamed : name' = Naming.found rs (scopes.findIdx? (·.contains name)) name

section

variable {r : Naming} {rs : List Naming} {names names' : Names} {outer outer' : List Names} {name name' : String}

theorem contains_eq (same : ∀ name, names'.find? (r name) = names.find? name) (name : String) :
    names'.contains (r name) = names.contains name := by
  rw [Bindings.contains, Bindings.contains, same]

theorem findIdx?_zero : (names :: outer).findIdx? (·.contains name) = some 0 ↔ names.contains name = true := by
  rw [List.findIdx?_cons]
  cases names.contains name <;> simp

theorem Binds.find? (binds : Binds (r :: rs) (names :: outer) (names' :: outer') name name')
    (same : ∀ name, names'.find? (r name) = names.find? name) : names'.find? name' = names.find? name := by
  by_cases here : names.contains name = true
  · have renamed := binds.renamed
    rw [findIdx?_zero.mpr here] at renamed
    rw [renamed]
    exact same name
  · have there : ¬names'.contains name' = true := fun found =>
      here (findIdx?_zero.mp (binds.distance ▸ findIdx?_zero.mpr found))
    rw [Bindings.contains, Option.isSome_iff_ne_none, ne_eq, not_not] at here there
    rw [here, there]

theorem Binds.eq_iff {other : String} (binds : Binds (r :: rs) (names :: outer) (names' :: outer') name name')
    (same : ∀ name, names'.find? (r name) = names.find? name) (fixed : r other = other)
    (declared : names.contains other = true) : name' = other ↔ name = other := by
  have renamed := binds.renamed
  constructor
  · rintro rfl
    have there : names'.contains name' = true := by
      rw [← declared, ← contains_eq same, fixed]
    rw [← binds.distance, findIdx?_zero.mpr there] at renamed
    have back : r name = r name' := renamed.symm.trans fixed.symm
    exact r.apply_eq_iff.mp back
  · rintro rfl
    rw [findIdx?_zero.mpr declared] at renamed
    exact renamed.trans fixed

end

section

variable (p : Pairing)

structure Reference.Alike (reference reference' : Reference) : Prop where
  refers : ∃ rs, p.refers rs reference.id reference.name reference'.id reference'.name
  distance : reference'.distance = reference.distance

structure Misuse.Alike (misuse misuse' : Misuse) : Prop where
  token : p.names misuse.token misuse'.token
  fault : misuse'.fault = misuse.fault

structure Walk.Alike (rs : List Naming) (w w' : Walk) : Prop where
  scopes : ScopesAlike rs w.scopes w'.scopes
  references : List.Forall₂ (Reference.Alike p) w.references w'.references
  misuses : List.Forall₂ (Misuse.Alike p) w.misuses w'.misuses

structure Faithful (known : Visit → Prop) : Prop where
  enters : ∀ {v v' : Visit}, known v → v.Enters v' → known v'
  binds : ∀ {v : Visit} {rs : List Naming} {scopes' : List Names} {id id' : NodeId} {t t' : Token}, known v →
    v.part.refers? = some (id, t) → ScopesAlike rs v.walk.scopes scopes' → p.refers rs id t id' t' →
    Binds rs v.walk.scopes scopes' t.lexeme t'.lexeme

end

namespace Walk.Alike

variable {p : Pairing} {rs : List Naming} {w w' : Walk} {t t' : Token}

theorem complain (walks : w.Alike p rs w') (shown : p.names t t') (fault : Fault) :
    (w.complain t fault).Alike p rs (w'.complain t' fault) :=
  ⟨walks.scopes, walks.references, .cons ⟨shown, rfl⟩ walks.misuses⟩

theorem complainIf {wrong wrong' : Bool} (walks : w.Alike p rs w') (same : wrong' = wrong) (shown : p.names t t')
    (fault : Fault) : (w.complainIf wrong t fault).Alike p rs (w'.complainIf wrong' t' fault) := by
  subst same
  unfold Walk.complainIf
  split
  · exact walks.complain shown fault
  · exact walks

theorem enter (walks : w.Alike p rs w') {r : Naming} {names : Names}
    (same : ∀ name, names.find? (r name) = names.find? name) :
    (w.enter names).Alike p (r :: rs) (w'.enter names) := ⟨.cons same walks.scopes, walks.references, walks.misuses⟩

theorem leave {r : Naming} (walks : w.Alike p (r :: rs) w') : w.leave.Alike p rs w'.leave := by
  refine ⟨?_, walks.references, walks.misuses⟩
  have scopes := walks.scopes
  unfold Walk.leave
  dsimp only
  generalize w.scopes = scopes at scopes
  generalize w'.scopes = scopes' at scopes
  cases scopes with
  | cons same others => exact others

theorem refer {id id' : NodeId} (walks : w.Alike p rs w') (reference : p.refers rs id t id' t')
    (binds : Binds rs w.scopes w'.scopes t.lexeme t'.lexeme) : (w.refer id t).Alike p rs (w'.refer id' t') := by
  unfold Walk.refer
  rw [binds.distance]
  cases w.scopes.findIdx? (·.contains t.lexeme) with
  | none => exact walks
  | some distance => exact ⟨walks.scopes, .cons ⟨⟨rs, reference⟩, rfl⟩ walks.references, walks.misuses⟩

theorem isInitializing (walks : w.Alike p rs w') (binds : Binds rs w.scopes w'.scopes t.lexeme t'.lexeme) :
    w'.isInitializing t' = w.isInitializing t := by
  have scopes := walks.scopes
  unfold Walk.isInitializing
  generalize w.scopes = scopes at scopes binds
  generalize w'.scopes = scopes' at scopes binds
  cases scopes with
  | nil => rfl
  | cons same others => simp only [binds.find? same]

theorem insert {r : Naming} {names names' : Names} {name name' : String}
    (same : ∀ name, names'.find? (r name) = names.find? name) (renamed : name' = r name) (complete : Bool) (other : String) :
    (names'.insert name' complete).find? (r other) = (names.insert name complete).find? other := by
  subst renamed
  rw [Bindings.find?_insert, Bindings.find?_insert, same]
  by_cases here : name = other
  · rw [if_pos here, if_pos (r.apply_eq_iff.mpr here)]
  · rw [if_neg here, if_neg fun equal => here (r.apply_eq_iff.mp equal)]

theorem declare (walks : w.Alike p rs w') (declares : p.Declares rs t t') : (w.declare t).Alike p rs (w'.declare t') := by
  have scopes := walks.scopes
  have complained := walks.complain declares.names .duplicateName
  unfold Walk.declare
  generalize known : w.scopes = scopes at scopes
  generalize known' : w'.scopes = scopes' at scopes
  cases scopes with
  | nil => exact walks
  | @cons r rs names names' outer outer' same others =>
    have renamed : t'.lexeme = r t.lexeme := declares.lexeme
    dsimp only
    rw [renamed, contains_eq same, ← renamed]
    split
    · exact complained
    · exact ⟨.cons (insert same renamed false) others, walks.references, walks.misuses⟩

theorem define (walks : w.Alike p rs w') (declares : p.Declares rs t t') : (w.define t).Alike p rs (w'.define t') := by
  have scopes := walks.scopes
  unfold Walk.define
  generalize w.scopes = scopes at scopes
  generalize w'.scopes = scopes' at scopes
  cases scopes with
  | nil => exact walks
  | cons same others => exact ⟨.cons (insert same declares.lexeme true) others, walks.references, walks.misuses⟩

theorem bind (walks : w.Alike p rs w') (declares : p.Declares rs t t') : (w.bind t).Alike p rs (w'.bind t') :=
  (walks.declare declares).define declares

theorem bindAll {params params' : List Token} (walks : w.Alike p rs w')
    (entries : List.Forall₂ (p.Declares rs) params params') :
    (params.foldl Walk.bind w).Alike p rs (params'.foldl Walk.bind w') := by
  induction entries generalizing w w' with
  | nil => exact walks
  | cons declares _ ih => exact ih (walks.bind declares)

theorem enterReserved (walks : w.Alike p rs w') (word : String) :
    (w.enter [(word, true)]).Alike p (.id :: rs) (w'.enter [(word, true)]) := walks.enter fun _ => rfl

end Walk.Alike

theorem Walk.contains_bind {w : Walk} {name : Token} {names : Names} {outer : List Names}
    (scopes : (w.bind name).scopes = names :: outer) : names.contains name.lexeme = true := by
  unfold Walk.bind Walk.define at scopes
  split at scopes
  · rename_i none
    rw [none] at scopes
    cases scopes
  · cases scopes
    simp [Bindings.contains, Bindings.find?_insert]

section

variable {p : Pairing} {known : Visit → Prop} {rs : List Naming}

theorem checkReturn_alike (context : Context) {keyword keyword' : Token} {value value' : Option Expr} {w w' : Walk}
    (word : p.tokens keyword keyword') (same : value'.isSome = value.isSome) (walks : w.Alike p rs w') :
    (checkReturn context keyword value w).Alike p rs (checkReturn context keyword' value' w') := by
  have shown := p.tokens_names word
  exact (walks.complainIf rfl shown _).complainIf (by rw [same]) shown _

theorem checkSuperclass_alike (faithful : Faithful p known) {context : Context} {name name' : Token}
    {superclass superclass' : Expr} {w w' : Walk} (fixes : p.Fixes rs name name')
    (exprs : superclass.Alike p rs superclass')
    (visited : known ⟨context, .expr superclass, checkSuperclass name superclass (w.bind name)⟩)
    (walks : (w.bind name).Alike p rs (w'.bind name')) :
    (checkSuperclass name superclass (w.bind name)).Alike p rs (checkSuperclass name' superclass' (w'.bind name')) := by
  cases exprs with
  | @variable_ id id' t t' reference =>
    have scopes := walks.scopes
    rw [← scopes_checkSuperclass name (.variable_ id t)] at scopes
    have binds := faithful.binds visited rfl scopes reference
    rw [scopes_checkSuperclass] at scopes binds
    refine walks.complainIf ?_ (p.refers_names reference) _
    rw [decide_eq_decide, p.lexeme fixes.tokens]
    generalize declared : (w.bind name).scopes = scopes at scopes binds
    generalize (w'.bind name').scopes = scopes' at scopes binds
    cases scopes with
    | nil => rw [show t'.lexeme = t.lexeme from binds.renamed]
    | cons same others => exact binds.eq_iff same fixes.fixed (Walk.contains_bind declared)
  | _ => exact walks

mutual

theorem walkExpr_alike (faithful : Faithful p known) (context : Context) :
    ∀ {e e' : Expr} {w w' : Walk}, e.Alike p rs e' → known ⟨context, .expr e, w⟩ → w.Alike p rs w' →
    (walkExpr context e w).Alike p rs (walkExpr context e' w')
  | _, _, w, w', .assign reference assigned, visited, walks => by
    have binds := faithful.binds visited rfl walks.scopes reference
    rw [walkExpr, walkExpr]
    apply (walkExpr_alike faithful context assigned (faithful.enters visited .assigned) walks).refer reference
    rw [scopes_walkExpr, scopes_walkExpr]
    exact binds
  | _, _, w, w', .binary first sign second, visited, walks => by
    rw [walkExpr, walkExpr]
    exact walkExpr_alike faithful context second (faithful.enters visited .rightOperand)
      (walkExpr_alike faithful context first (faithful.enters visited .leftOperand) walks)
  | _, _, w, w', .call called closing given, visited, walks => by
    rw [walkExpr, walkExpr]
    exact walkExprs_alike faithful context given (faithful.enters visited .arguments)
      (walkExpr_alike faithful context called (faithful.enters visited .callee) walks)
  | _, _, w, w', .get owner named, visited, walks => by
    rw [walkExpr, walkExpr]
    exact walkExpr_alike faithful context owner (faithful.enters visited .owner) walks
  | _, _, w, w', .grouping grouped, visited, walks => by
    rw [walkExpr, walkExpr]
    exact walkExpr_alike faithful context grouped (faithful.enters visited .grouped) walks
  | _, _, w, w', .constant, visited, walks => by
    rw [walkExpr, walkExpr]
    exact walks
  | _, _, w, w', .logical first word second, visited, walks => by
    rw [walkExpr, walkExpr]
    exact walkExpr_alike faithful context second (faithful.enters visited .rightChoice)
      (walkExpr_alike faithful context first (faithful.enters visited .leftChoice) walks)
  | _, _, w, w', .set owner named assigned, visited, walks => by
    rw [walkExpr, walkExpr]
    exact walkExpr_alike faithful context owner (faithful.enters visited .setOwner)
      (walkExpr_alike faithful context assigned (faithful.enters visited .setValue) walks)
  | _, _, w, w', .super_ reference named, visited, walks => by
    have binds := faithful.binds visited rfl walks.scopes reference
    have shown := p.refers_names reference
    rw [walkExpr, walkExpr]
    cases context.class_ with
    | none | base => exact (walks.complain shown _).refer reference binds
    | derived => exact walks.refer reference binds
  | _, _, w, w', .this_ reference, visited, walks => by
    have binds := faithful.binds visited rfl walks.scopes reference
    rw [walkExpr, walkExpr]
    split
    · exact walks.complain (p.refers_names reference) _
    · exact walks.refer reference binds
  | _, _, w, w', .unary sign operand, visited, walks => by
    rw [walkExpr, walkExpr]
    exact walkExpr_alike faithful context operand (faithful.enters visited .operand) walks
  | _, _, w, w', .variable_ reference, visited, walks => by
    have binds := faithful.binds visited rfl walks.scopes reference
    rw [walkExpr, walkExpr, walks.isInitializing binds]
    split
    · exact walks.complain (p.refers_names reference) _
    · exact walks.refer reference binds

theorem walkExprs_alike (faithful : Faithful p known) (context : Context) :
    ∀ {es es' : List Expr} {w w' : Walk}, Expr.AllAlike p rs es es' → known ⟨context, .exprs es, w⟩ → w.Alike p rs w' →
    (walkExprs context es w).Alike p rs (walkExprs context es' w')
  | _, _, w, w', .nil, visited, walks => by
    rw [walkExprs, walkExprs]
    exact walks
  | _, _, w, w', .cons first others, visited, walks => by
    rw [walkExprs, walkExprs]
    exact walkExprs_alike faithful context others (faithful.enters visited .otherExprs)
      (walkExpr_alike faithful context first (faithful.enters visited .firstExpr) walks)

end

end

section

variable {p : Pairing} {known : Visit → Prop}

mutual

theorem walkStmt_alike (faithful : Faithful p known) (context : Context) :
    ∀ {rs : List Naming} {s s' : Stmt} {w w' : Walk}, s.Alike p rs s' → known ⟨context, .stmt s, w⟩ → w.Alike p rs w' →
    (walkStmt context s w).Alike p rs (walkStmt context s' w')
  | rs, _, _, w, w', .block r stated, visited, walks => by
    rw [walkStmt, walkStmt]
    exact (walkStmts_alike faithful context stated (faithful.enters visited .block) (walks.enter fun _ => rfl)).leave
  | rs, _, _, w, w', .base named declared, visited, walks => by
    rw [walkStmt, walkStmt]
    have bound := walks.bind ⟨p.tokens_names named.tokens, named.lexeme⟩
    exact (walkMethods_alike faithful _ declared (faithful.enters visited .baseMethods) (bound.enterReserved "this")).leave
  | rs, _, _, w, w', .derived named extended declared, visited, walks => by
    rw [walkStmt, walkStmt]
    have bound := walks.bind ⟨p.tokens_names named.tokens, named.lexeme⟩
    have entered := faithful.enters visited .superclass
    have checked := checkSuperclass_alike faithful named extended entered bound
    have inherited := walkExpr_alike faithful _ extended entered checked
    have opened := (inherited.enterReserved "super").enterReserved "this"
    exact (walkMethods_alike faithful _ declared (faithful.enters visited .derivedMethods) opened).leave.leave
  | rs, _, _, w, w', .expression stated, visited, walks => by
    rw [walkStmt, walkStmt]
    exact walkExpr_alike faithful context stated (faithful.enters visited .expression) walks
  | rs, _, _, w, w', .function named declared, visited, walks => by
    rw [walkStmt, walkStmt]
    have bound := walks.bind ⟨p.tokens_names named.tokens, named.lexeme⟩
    exact walkFunction_alike faithful _ declared (faithful.enters visited .function) bound
  | rs, _, _, w, w', .ifThen head first, visited, walks => by
    rw [walkStmt, walkStmt]
    exact walkStmt_alike faithful context first (faithful.enters visited .ifBranch)
      (walkExpr_alike faithful context head (faithful.enters visited .ifCondition) walks)
  | rs, _, _, w, w', .ifThenElse head first second, visited, walks => by
    rw [walkStmt, walkStmt]
    have checked := walkExpr_alike faithful context head (faithful.enters visited .condition) walks
    exact walkStmt_alike faithful context second (faithful.enters visited .elseBranch)
      (walkStmt_alike faithful context first (faithful.enters visited .thenBranch) checked)
  | rs, _, _, w, w', .print_ stated, visited, walks => by
    rw [walkStmt, walkStmt]
    exact walkExpr_alike faithful context stated (faithful.enters visited .print_) walks
  | rs, _, _, w, w', .return_ word returned, visited, walks => by
    rw [walkStmt, walkStmt]
    have checked := checkReturn_alike context word (rel_isSome returned) walks
    cases returned with
    | none => exact checked
    | some exprs => exact walkExpr_alike faithful context exprs (faithful.enters visited .returned) checked
  | rs, _, _, w, w', .var_ named initial, visited, walks => by
    rw [walkStmt, walkStmt]
    have declared := walks.declare named
    cases initial with
    | none => exact declared.define named
    | some exprs =>
      exact (walkExpr_alike faithful context exprs (faithful.enters visited .initializer) declared).define named
  | rs, _, _, w, w', .while_ head repeated, visited, walks => by
    rw [walkStmt, walkStmt]
    exact walkStmt_alike faithful context repeated (faithful.enters visited .whileBody)
      (walkExpr_alike faithful context head (faithful.enters visited .whileCondition) walks)

theorem walkStmts_alike (faithful : Faithful p known) (context : Context) :
    ∀ {rs : List Naming} {ss ss' : List Stmt} {w w' : Walk}, Stmt.AllAlike p rs ss ss' → known ⟨context, .stmts ss, w⟩ →
    w.Alike p rs w' → (walkStmts context ss w).Alike p rs (walkStmts context ss' w')
  | rs, _, _, w, w', .nil, visited, walks => by
    rw [walkStmts, walkStmts]
    exact walks
  | rs, _, _, w, w', .cons first others, visited, walks => by
    rw [walkStmts, walkStmts]
    exact walkStmts_alike faithful context others (faithful.enters visited .otherStmts)
      (walkStmt_alike faithful context first (faithful.enters visited .firstStmt) walks)

theorem walkFunction_alike (faithful : Faithful p known) (context : Context) :
    ∀ {rs : List Naming} {d d' : FunctionDecl} {w w' : Walk}, d.Alike p rs d' → known ⟨context, .function d, w⟩ →
    w.Alike p rs w' → (walkFunction context d w).Alike p rs (walkFunction context d' w')
  | rs, _, _, w, w', .mk r named entries stated, visited, walks => by
    rw [walkFunction, walkFunction]
    have entered := faithful.enters visited .body
    exact (walkStmts_alike faithful context stated entered ((walks.enter fun _ => rfl).bindAll entries)).leave

theorem walkMethods_alike (faithful : Faithful p known) (context : Context) :
    ∀ {rs : List Naming} {ds ds' : List FunctionDecl} {w w' : Walk}, FunctionDecl.AllAlike p rs ds ds' →
    known ⟨context, .methods ds, w⟩ → w.Alike p rs w' →
    (walkMethods context ds w).Alike p rs (walkMethods context ds' w')
  | rs, _, _, w, w', .nil, visited, walks => by
    rw [walkMethods, walkMethods]
    exact walks
  | rs, _, _, w, w', .cons first others, visited, walks => by
    rw [walkMethods, walkMethods, first.isInitializer]
    exact walkMethods_alike faithful context others (faithful.enters visited .otherMethods)
      (walkFunction_alike faithful _ first (faithful.enters visited .firstMethod) walks)

end

theorem resolve_alike (faithful : Faithful p known) {program program' : List Stmt}
    (stated : Stmt.AllAlike p [] program program') (visited : known ⟨.top, .stmts program, .start⟩) :
    List.Forall₂ (Reference.Alike p) (resolve program).references (resolve program').references ∧
      List.Forall₂ (Misuse.Alike p) (resolve program).misuses (resolve program').misuses := by
  have start : Walk.start.Alike p [] .start := ⟨.nil, .nil, .nil⟩
  have walks := walkStmts_alike faithful .top stated visited start
  exact ⟨List.rel_reverse walks.references, List.rel_reverse walks.misuses⟩

end

end Lox.Scope
