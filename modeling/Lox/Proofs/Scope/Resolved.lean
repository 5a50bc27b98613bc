import Std.Data.TreeMap.Lemmas
import Lox.Proofs.Scope.Shape

namespace Lox.Scope

def Part.refers? : Part → Option (NodeId × Token)
  | .expr (.assign id name _) => some (id, name)
  | .expr (.super_ id keyword _) => some (id, keyword)
  | .expr (.this_ id keyword) => some (id, keyword)
  | .expr (.variable_ id name) => some (id, name)
  | _ => none

def Visit.Located (distances : Std.TreeMap NodeId Nat) (v : Visit) : Prop :=
  ∀ id name, v.part.refers? = some (id, name) →
    distances[id]? = v.walk.scopes.findIdx? (·.contains name.lexeme)

structure Agrees (distances : Std.TreeMap NodeId Nat) (found : List Reference) (ids : List NodeId) : Prop where
  hit : ∀ r ∈ found, ∃ r' ∈ found, r'.id = r.id ∧ distances[r.id]? = some r'.distance
  miss : ∀ id ∈ ids, (∀ r ∈ found, r.id ≠ id) → distances[id]? = none

structure Visit.Resolved (distances : Std.TreeMap NodeId Nat) (v : Visit) : Prop where
  legal : v.part.Legal
  clean : v.after.misuses = []
  shaped : v.Shaped
  located : v.Located distances

theorem Walk.Leads.clean {w w' : Walk} {ids : List NodeId} (led : w.Leads w' ids) (clean : w'.misuses = []) :
    w.misuses = [] := by
  have shorter := led.misuses
  rw [clean] at shorter
  exact List.suffix_nil.mp shorter

theorem Walk.misuses_complain_ne_nil (w : Walk) (token : Token) (fault : Fault) :
    (w.complain token fault).misuses ≠ [] := List.cons_ne_nil _ _

theorem Walk.Leads.not_complained {w w' : Walk} {ids : List NodeId} {wrong : Bool} {token : Token} {fault : Fault}
    (led : (w.complainIf wrong token fault).Leads w' ids) (clean : w'.misuses = []) : wrong = false := by
  cases wrong with
  | false => rfl
  | true => exact absurd (led.clean clean) (w.misuses_complain_ne_nil token fault)

theorem Visit.Tracked.found_refer {found : List Reference} {v : Visit} {w : Walk} {id : NodeId} {name : Token}
    (tracked : v.Tracked found) (noted : v.after = w.refer id name) (unnoted : ∀ r ∈ w.references, r.id ≠ id)
    (member : id ∈ v.part.ids) (r : Reference) :
    r ∈ found ∧ r.id = id ↔
      ∃ distance, w.scopes.findIdx? (·.contains name.lexeme) = some distance ∧ r = ⟨id, name, distance⟩ := by
  have references := congrArg Walk.references noted
  unfold Walk.refer at references
  constructor
  · rintro ⟨listed, here⟩
    have again := tracked.complete r listed (here ▸ member)
    rw [references] at again
    split at again
    · rename_i distance nearest
      rcases List.mem_cons.mp again with rfl | earlier
      · exact ⟨distance, nearest, rfl⟩
      · exact absurd here (unnoted r earlier)
    · exact absurd here (unnoted r again)
  · rintro ⟨distance, nearest, rfl⟩
    simp only [nearest] at references
    exact ⟨tracked.kept _ (by simp [references]), rfl⟩

section

variable {context : Context} {w : Walk} {id : NodeId}

theorem clean_super {keyword method : Token} (clean : (walkExpr context (.super_ id keyword method) w).misuses = []) :
    context.class_ = .derived ∧ walkExpr context (.super_ id keyword method) w = w.refer id keyword := by
  rw [walkExpr] at clean ⊢
  cases inside : context.class_ with
  | none | base =>
    simp only [inside] at clean
    exact absurd ((Walk.Leads.refer ..).clean clean) (w.misuses_complain_ne_nil _ _)
  | derived => exact ⟨rfl, rfl⟩

theorem clean_this {keyword : Token} (clean : (walkExpr context (.this_ id keyword) w).misuses = []) :
    context.class_ ≠ .none ∧ walkExpr context (.this_ id keyword) w = w.refer id keyword := by
  rw [walkExpr] at clean ⊢
  split at clean
  · exact absurd clean (w.misuses_complain_ne_nil _ _)
  · rename_i inside
    rw [if_neg inside]
    exact ⟨inside, rfl⟩

theorem clean_variable {name : Token} (clean : (walkExpr context (.variable_ id name) w).misuses = []) :
    w.isInitializing name = false ∧ walkExpr context (.variable_ id name) w = w.refer id name := by
  rw [walkExpr] at clean ⊢
  split at clean
  · exact absurd clean (w.misuses_complain_ne_nil _ _)
  · rename_i complete
    rw [if_neg complete]
    exact ⟨Bool.eq_false_iff.mpr complete, rfl⟩

end

theorem Visit.Tracked.found_iff {found : List Reference} {v : Visit} {id : NodeId} {name : Token}
    (tracked : v.Tracked found) (refers : v.part.refers? = some (id, name)) (r : Reference) :
    r ∈ found ∧ r.id = id ↔
      ∃ distance, v.walk.scopes.findIdx? (·.contains name.lexeme) = some distance ∧ r = ⟨id, name, distance⟩ := by
  obtain ⟨context, part, w⟩ := v
  have fresh : id ∈ part.ids → ∀ r ∈ w.references, r.id ≠ id :=
    fun member r listed same => tracked.fresh r listed (same ▸ member)
  cases part with
  | expr e =>
    cases e with
    | assign id' name' value =>
      cases refers
      have member : id ∈ (Part.expr (.assign id name value)).ids := by simp [Part.ids, Expr.ids]
      have found := tracked.found_refer (w := walkExpr context value w) rfl ?_ member r
      · rw [scopes_walkExpr] at found
        exact found
      · -- Inside the assigned value other numbers are noted.
        intro r listed same
        rcases (walkExpr_leads context value w).noted r listed with old | inner
        · exact fresh member r old same
        · have apart := (List.nodup_append.mp tracked.distinct).2.2
          exact apart r.id inner id (List.mem_singleton.mpr rfl) same
    | super_ id' keyword method =>
      cases refers
      have member : id ∈ (Part.expr (.super_ id name method)).ids := by simp [Part.ids, Expr.ids]
      have clean : (walkExpr context (.super_ id name method) w).misuses = [] := tracked.clean
      exact tracked.found_refer (clean_super clean).2 (fresh member) member r
    | this_ id' keyword =>
      cases refers
      have member : id ∈ (Part.expr (.this_ id name)).ids := by simp [Part.ids, Expr.ids]
      exact tracked.found_refer (clean_this tracked.clean).2 (fresh member) member r
    | variable_ id' name' =>
      cases refers
      have member : id ∈ (Part.expr (.variable_ id name)).ids := by simp [Part.ids, Expr.ids]
      have clean : (walkExpr context (.variable_ id name) w).misuses = [] := tracked.clean
      exact tracked.found_refer (clean_variable clean).2 (fresh member) member r
    | _ => cases refers
  | _ => cases refers

theorem Part.refers?_mem_ids {part : Part} {id : NodeId} {name : Token} (refers : part.refers? = some (id, name)) :
    id ∈ part.ids := by
  cases part with
  | expr e => cases e <;> cases refers <;> simp [Part.ids, Expr.ids]
  | _ => cases refers

theorem Visit.Tracked.located {distances : Std.TreeMap NodeId Nat} {found : List Reference} {v : Visit}
    (tracked : v.Tracked found) (agrees : Agrees distances found v.part.ids) : v.Located distances := by
  intro id name refers
  cases nearest : v.walk.scopes.findIdx? (·.contains name.lexeme) with
  | some distance =>
    have listed := ((tracked.found_iff refers _).mpr ⟨distance, nearest, rfl⟩).1
    obtain ⟨other, otherFound, same, hit⟩ := agrees.hit _ listed
    obtain ⟨distance', nearest', rfl⟩ := (tracked.found_iff refers other).mp ⟨otherFound, same⟩
    cases nearest.symm.trans nearest'
    exact hit
  | none =>
    refine agrees.miss id (Part.refers?_mem_ids refers) fun r listed same => ?_
    obtain ⟨distance, nearest', -⟩ := (tracked.found_iff refers r).mp ⟨listed, same⟩
    cases nearest.symm.trans nearest'

theorem findIdx?_eq_some {scopes : List Names} {name : String} {distance : Nat}
    (nearest : scopes.findIdx? (·.contains name) = some distance) :
    ∃ names, scopes[distance]? = some names ∧ names.contains name = true := by
  obtain ⟨within, binds, -⟩ := List.findIdx?_eq_some_iff_getElem.mp nearest
  exact ⟨scopes[distance], List.getElem?_eq_getElem within, binds⟩

/-- The nearest scope that binds a name has its declaration complete, unless it is the innermost one in the
    declaration of the name. -/
theorem nearest_complete {w : Walk} {name : Token} {distance : Nat} (settled : Settled w.scopes.tail)
    (nearest : w.scopes.findIdx? (·.contains name.lexeme) = some distance) (complete : w.isInitializing name = false) :
    ∃ names, w.scopes[distance]? = some names ∧ names.find? name.lexeme = some true := by
  obtain ⟨names, place, binds⟩ := findIdx?_eq_some nearest
  obtain ⟨bound, found⟩ := Option.isSome_iff_exists.mp binds
  refine ⟨names, place, ?_⟩
  cases bound with
  | true => exact found
  | false =>
    exfalso
    unfold Walk.isInitializing at complete
    cases scopes : w.scopes with
    | nil => simp [scopes] at place
    | cons innermost outer =>
      rw [scopes] at complete settled place
      cases distance with
      | zero =>
        cases place
        simp [found] at complete
      | succ inner => exact settled names (List.mem_of_getElem? place) _ found

namespace Visit.Resolved

variable {distances : Std.TreeMap NodeId Nat} {context : Context} {w : Walk} {id : NodeId}

theorem settled {e : Expr} (resolved : Resolved distances ⟨context, .expr e, w⟩) : Settled w.scopes.tail :=
  resolved.shaped.2.2

theorem variable_bound {name : Token} {distance : Nat}
    (resolved : Resolved distances ⟨context, .expr (.variable_ id name), w⟩) (known : distances[id]? = some distance) :
    ∃ names, w.scopes[distance]? = some names ∧ names.find? name.lexeme = some true := by
  rw [resolved.located id name rfl] at known
  have clean : (walkExpr context (.variable_ id name) w).misuses = [] := resolved.clean
  exact nearest_complete resolved.settled known (clean_variable clean).1

theorem assign_initializing {name : Token} {value : Expr}
    (resolved : Resolved distances ⟨context, .expr (.assign id name value), w⟩)
    (initializing : w.isInitializing name = true) :
    distances[id]? = some 0 ∧ ∃ names outer, w.scopes = names :: outer ∧ names.find? name.lexeme = some false := by
  rw [resolved.located id name rfl]
  unfold Walk.isInitializing at initializing
  cases scopes : w.scopes with
  | nil => simp [scopes] at initializing
  | cons names outer =>
    simp only [scopes, beq_iff_eq] at initializing
    refine ⟨?_, names, outer, rfl, initializing⟩
    simp [List.findIdx?_cons, Bindings.contains, initializing]

theorem assign_bound {name : Token} {value : Expr} {distance : Nat}
    (resolved : Resolved distances ⟨context, .expr (.assign id name value), w⟩) (known : distances[id]? = some distance)
    (complete : w.isInitializing name = false) :
    ∃ names, w.scopes[distance]? = some names ∧ names.find? name.lexeme = some true := by
  rw [resolved.located id name rfl] at known
  exact nearest_complete resolved.settled known complete

theorem this_bound {keyword : Token} (resolved : Resolved distances ⟨context, .expr (.this_ id keyword), w⟩) :
    ∃ distance names, distances[id]? = some distance ∧ w.scopes[distance]? = some names ∧
      names.contains "this" = true ∧ keyword.lexeme = "this" := by
  have clean : (walkExpr context (.this_ id keyword) w).misuses = [] := resolved.clean
  have spelled : keyword.lexeme = "this" := by
    cases resolved.legal with
    | this_ word => exact word.genuine.lexeme_keyword (List.mem_singleton.mp word.kind)
  have nested := (resolved.shaped.compound (by simp)).1
  obtain ⟨m, member, held⟩ := nested.this (clean_this clean).1
  obtain ⟨names, inside, rfl⟩ := List.mem_map.mp member
  have located := resolved.located id keyword rfl
  rw [spelled] at located
  cases nearest : w.scopes.findIdx? (·.contains "this") with
  | none => exact absurd held (by simp [List.findIdx?_eq_none_iff.mp nearest names inside])
  | some distance =>
    obtain ⟨names, place, binds⟩ := findIdx?_eq_some nearest
    exact ⟨distance, names, located.trans nearest, place, binds, spelled⟩

theorem super_bound {keyword method : Token}
    (resolved : Resolved distances ⟨context, .expr (.super_ id keyword method), w⟩) :
    ∃ distance outer inner, distances[id]? = some (distance + 1) ∧ w.scopes[distance + 1]? = some outer ∧
      outer.contains "super" = true ∧ w.scopes[distance]? = some inner ∧ inner.contains "this" = true := by
  have clean : (walkExpr context (.super_ id keyword method) w).misuses = [] := resolved.clean
  have spelled : keyword.lexeme = "super" := by
    cases resolved.legal with
    | super_ word _ => exact word.genuine.lexeme_keyword (List.mem_singleton.mp word.kind)
  have nested := (resolved.shaped.compound (by simp)).1
  obtain ⟨m, member, held⟩ := nested.super (clean_super clean).1
  obtain ⟨names, inside, rfl⟩ := List.mem_map.mp member
  have located := resolved.located id keyword rfl
  rw [spelled] at located
  cases nearest : w.scopes.findIdx? (·.contains "super") with
  | none => exact absurd held (by simp [List.findIdx?_eq_none_iff.mp nearest names inside])
  | some distance =>
    obtain ⟨outer, place, binds⟩ := findIdx?_eq_some nearest
    have marked : (marks w.scopes)[distance]? = some (outer.contains "this", outer.contains "super") := by
      simp [marks, place]
    obtain ⟨j, m, rfl, within, this⟩ := nested.adjacent distance _ marked binds
    obtain ⟨inner, place', rfl⟩ : ∃ inner, w.scopes[j]? = some inner ∧
        (inner.contains "this", inner.contains "super") = m := by
      simpa [marks, List.getElem?_map] using within
    exact ⟨j, outer, inner, located.trans nearest, place, binds, place', this⟩

theorem declares_new {stmt : Stmt} {name : Token} {names : Names} {outer : List Names}
    (resolved : Resolved distances ⟨context, .stmt stmt, w⟩) (declares : stmt.declares? = some name)
    (scopes : w.scopes = names :: outer) : names.contains name.lexeme = false := by
  have led : ∃ ids, (w.declare name).Leads (walkStmt context stmt w) ids := by
    cases stmt with
    | class_ name' superclass methods =>
      cases declares
      cases superclass with
      | none =>
        have opened := (Walk.Leads.define (w.declare name) name).after (.enter _ [("this", true)])
        exact ⟨_, (opened.before (walkMethods_leads ..)).after (.leave _)⟩
      | some superclass =>
        have start := (Walk.Leads.define (w.declare name) name).before (walkSuperclass_leads context name superclass _)
        have opened := (start.after (.enter _ [("super", true)])).after (.enter _ [("this", true)])
        exact ⟨_, ((opened.trans (walkMethods_leads ..)).after (.leave _)).after (.leave _)⟩
    | function d =>
      cases declares
      exact ⟨_, (Walk.Leads.define ..).before (walkFunction_leads ..)⟩
    | var_ name' initializer =>
      cases declares
      exact ⟨_, (walkOptional_leads ..).after (.define ..)⟩
    | _ => cases declares
  obtain ⟨ids, led⟩ := led
  have clean := led.clean resolved.clean
  unfold Walk.declare at clean
  simp only [scopes] at clean
  split at clean
  · exact absurd clean (w.misuses_complain_ne_nil _ _)
  · rename_i absent
    exact Bool.eq_false_iff.mpr absent

theorem superclass_ne {name superName : Token} {methods : List FunctionDecl}
    (resolved : Resolved distances ⟨context, .stmt (.class_ name (some (.variable_ id superName)) methods), w⟩) :
    superName.lexeme ≠ name.lexeme := by
  have opened := (Walk.Leads.enter (walkSuperclass context name (.variable_ id superName) (w.bind name))
    [("super", true)]).after (.enter _ [("this", true)])
  have behind := ((opened.before (walkMethods_leads { context with class_ := .derived } methods _)).after
    (.leave _)).after (.leave _)
  rw [walkSuperclass_eq] at behind
  have checked := (walkExpr_leads ..).trans behind
  exact of_decide_eq_false (checked.not_complained resolved.clean)

end Visit.Resolved

theorem Visits.tracked {program : List Stmt} (distinct : (Stmt.idsAll program).Nodup)
    (clean : (walkStmts .top program .start).misuses = []) {v : Visit} (visited : Visits program v) :
    v.Tracked (walkStmts .top program .start).references := by
  induction visited with
  | start => exact ⟨distinct, clean, by simp [Walk.start], fun _ => id, fun r found _ => found⟩
  | enter _ entered ih => exact entered.tracked ih

theorem Visits.resolved {distances : Std.TreeMap NodeId Nat} {program : List Stmt}
    (legal : ∀ stmt ∈ program, stmt.Legal) (distinct : (Stmt.idsAll program).Nodup)
    (clean : (walkStmts .top program .start).misuses = [])
    (agrees : Agrees distances (walkStmts .top program .start).references (Stmt.idsAll program))
    {v : Visit} (visited : Visits program v) : v.Resolved distances := by
  have tracked := visited.tracked distinct clean
  suffices shaped : v.part.Legal ∧ v.Shaped ∧ v.part.ids ⊆ Stmt.idsAll program by
    obtain ⟨legal, shaped, inside⟩ := shaped
    have agrees : Agrees distances _ v.part.ids := ⟨agrees.hit, fun id member => agrees.miss id (inside member)⟩
    exact ⟨legal, tracked.clean, shaped, tracked.located agrees⟩
  clear tracked
  induction visited with
  | start => exact ⟨legal, .top, List.Subset.refl _⟩
  | enter visited entered ih =>
    obtain ⟨legal, shaped, inside⟩ := ih
    exact ⟨entered.legal legal, entered.shaped legal shaped, List.Subset.trans entered.ids_subset inside⟩

end Lox.Scope
