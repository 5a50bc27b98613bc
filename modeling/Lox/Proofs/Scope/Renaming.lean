import Lox.Proofs.Scope.Alike
import Lox.Proofs.Scope.Names

namespace Lox

theorem IsName.not_reserved {name : String} (named : IsName name.toList) : name ∉ Scope.reserved := by
  have identifier : Token.Is ⟨.identifier, name, none, 1⟩ [.identifier] := ⟨List.mem_singleton.mpr rfl, .name named⟩
  exact Scope.lexeme_not_reserved identifier

namespace Renaming

variable (ρ : Renaming)

def naming : Bool → Naming
  | true => ⟨Equiv.swap ρ.old ρ.new, fun _ member => Equiv.swap_apply_of_ne_of_ne
      (fun same => ρ.named.not_reserved (same ▸ member)) (fun same => ρ.renamed.not_reserved (same ▸ member))⟩
  | false => .id

variable {ρ}

theorem naming_apply (chosen : Bool) {name : String} (other : name ≠ ρ.new) :
    ρ.naming chosen name = if chosen && name == ρ.old then ρ.new else name := by
  cases chosen with
  | false => rfl
  | true =>
    show Equiv.swap ρ.old ρ.new name = _
    by_cases same : name = ρ.old
    · simp [same]
    · simp [same, Equiv.swap_apply_of_ne_of_ne same other]

theorem found_namings (marks : List Bool) (distance? : Option Nat) :
    Naming.found (marks.map ρ.naming) distance? = ρ.naming (bound marks distance?) := by
  cases distance? with
  | none => rfl
  | some distance =>
    simp only [Naming.found, Naming.out, bound, List.getD_eq_getElem?_getD, List.getElem?_map]
    cases marks[distance]? <;> rfl

theorem naming_symm_apply (chosen chosen' : Bool) {name : String} (other : name ≠ ρ.new) :
    (ρ.naming chosen).symm (ρ.naming chosen' name) = name ∨ (ρ.naming chosen).symm (ρ.naming chosen' name) = ρ.new := by
  have swapped : Equiv.swap ρ.old ρ.new name = name ∨ Equiv.swap ρ.old ρ.new name = ρ.new := by
    have applied := naming_apply true other
    split at applied
    · exact .inr applied
    · exact .inl applied
  cases chosen <;> cases chosen'
  · exact .inl rfl
  · exact swapped
  · exact swapped
  · exact .inl (Equiv.symm_apply_apply ..)

variable (ρ) (distances : Std.TreeMap NodeId Nat)

def pairing : Pairing where
  tokens t t' := t' = t
  names := ρ.Relabels
  refers rs id t id' t' :=
    (∃ marks : List Bool, rs = marks.map ρ.naming) ∧ id' = id ∧ ρ.Relabels t t' ∧ t.lexeme ≠ ρ.new ∧
      t'.lexeme = Naming.found rs distances[id]? t.lexeme
  kind := congrArg Token.kind
  lexeme := congrArg Token.lexeme
  tokens_names := @Relabels.of_eq ρ
  refers_names reference := reference.2.2.1

theorem agrees_pairing : (ρ.pairing distances).Agrees distances distances := by
  rintro rs id id' t t' ⟨-, rfl, -, -, renamed⟩
  exact ⟨rfl, renamed⟩

section

variable {ρ distances} {marks : List Bool}

theorem refers_name {id : NodeId} {t : Token} (named : t.Is [.identifier]) (fresh : ρ.new ≠ t.lexeme) :
    (ρ.pairing distances).refers (marks.map ρ.naming) id t id (ρ.name (bound marks distances[id]?) t) := by
  refine ⟨⟨marks, rfl⟩, rfl, relabels_name _ (List.mem_singleton.mp named.kind), fresh.symm, ?_⟩
  rw [found_namings, naming_apply _ fresh.symm, lexeme_name]

theorem refers_keyword {id : NodeId} {t : Token} (member : t.lexeme ∈ Scope.reserved) :
    (ρ.pairing distances).refers (marks.map ρ.naming) id t id t := by
  refine ⟨⟨marks, rfl⟩, rfl, .inl rfl, fun same => ρ.renamed.not_reserved (same ▸ member), ?_⟩
  exact (Naming.reserved _ _ member).symm

mutual

theorem expr_alike : ∀ {e : Expr}, e.Legal → ρ.new ∉ e.names →
    e.Alike (ρ.pairing distances) (marks.map ρ.naming) (ρ.expr distances marks e)
  | .assign id name value, legal, fresh => by
    cases legal with
    | assign named assigned =>
      simp only [Expr.names, List.mem_cons, not_or] at fresh
      exact .assign (refers_name named fresh.1) (expr_alike assigned fresh.2)
  | .binary left operator right, legal, fresh => by
    cases legal with
    | binary sign first second =>
      simp only [Expr.names, List.mem_append, not_or] at fresh
      exact .binary (expr_alike first fresh.1) rfl (expr_alike second fresh.2)
  | .call callee paren arguments, legal, fresh => by
    cases legal with
    | call closing called given =>
      simp only [Expr.names, List.mem_append, not_or] at fresh
      exact .call (expr_alike called fresh.1) rfl (exprs_alike given fresh.2)
  | .get object name, legal, fresh => by
    cases legal with
    | get named owner => exact .get (expr_alike owner fresh) rfl
  | .grouping inner, legal, fresh => by
    cases legal with
    | grouping grouped => exact .grouping (expr_alike grouped fresh)
  | .constant value, _, _ => .constant
  | .logical left operator right, legal, fresh => by
    cases legal with
    | logical word first second =>
      simp only [Expr.names, List.mem_append, not_or] at fresh
      exact .logical (expr_alike first fresh.1) rfl (expr_alike second fresh.2)
  | .set object name value, legal, fresh => by
    cases legal with
    | set named owner assigned =>
      simp only [Expr.names, List.mem_append, not_or] at fresh
      exact .set (expr_alike owner fresh.1) rfl (expr_alike assigned fresh.2)
  | .super_ id keyword method, legal, _ => by
    cases legal with
    | super_ word named =>
      have spelled := word.genuine.lexeme_keyword (List.mem_singleton.mp word.kind)
      exact .super_ (refers_keyword (by rw [spelled]; decide)) rfl
  | .this_ id keyword, legal, _ => by
    cases legal with
    | this_ word =>
      have spelled := word.genuine.lexeme_keyword (List.mem_singleton.mp word.kind)
      exact .this_ (refers_keyword (by rw [spelled]; decide))
  | .unary operator right, legal, fresh => by
    cases legal with
    | unary sign operand => exact .unary rfl (expr_alike operand fresh)
  | .variable_ id name, legal, fresh => by
    cases legal with
    | variable_ named => exact .variable_ (refers_name named fun same => fresh (List.mem_singleton.mpr same))

theorem exprs_alike : ∀ {es : List Expr}, (∀ e ∈ es, e.Legal) → ρ.new ∉ Expr.namesAll es →
    Expr.AllAlike (ρ.pairing distances) (marks.map ρ.naming) es (ρ.exprs distances marks es)
  | [], _, _ => .nil
  | e :: rest, legal, fresh => by
    obtain ⟨first, others⟩ := List.forall_mem_cons.mp legal
    simp only [Expr.namesAll, List.mem_append, not_or] at fresh
    exact .cons (expr_alike first fresh.1) (exprs_alike others fresh.2)

end

theorem optional_alike {e? : Option Expr} (legal : ∀ e ∈ e?, e.Legal) (fresh : ρ.new ∉ Expr.namesOptional e?) :
    Option.Rel (Expr.Alike (ρ.pairing distances) (marks.map ρ.naming)) e? (e?.map (ρ.expr distances marks)) := by
  cases e? with
  | none => exact .none
  | some e => exact .some (expr_alike (legal e rfl) fresh)

end

section

open Scope (Visit Visits Context Walk)

variable {ρ distances} {program : List Stmt}

/-- What the statement declares in the chosen scope is no function or class by the old name. -/
def Spares (ρ : Renaming) (chosen : Bool) (s : Stmt) : Prop :=
  ∀ name, s.definition? = some name → chosen = true → name.lexeme ≠ ρ.old

theorem spares_plain {chosen : Bool} {s : Stmt} (plain : s.declares? = none) : ρ.Spares chosen s := by
  intro name defines
  cases s <;> cases defines <;> cases plain

theorem fixes_definition {marks : List Bool} {s : Stmt} {name : Token} (spares : ρ.Spares (bound marks (some 0)) s)
    (defines : s.definition? = some name) (fresh : ρ.new ≠ name.lexeme) :
    (ρ.pairing distances).Fixes (marks.map ρ.naming) name name := by
  refine ⟨rfl, ?_⟩
  show Naming.found (marks.map ρ.naming) (some 0) name.lexeme = name.lexeme
  rw [found_namings, naming_apply _ fresh.symm]
  split
  · rename_i here
    rw [Bool.and_eq_true, beq_iff_eq] at here
    exact absurd here.2 (spares name defines here.1)
  · rfl

theorem declares_name {marks : List Bool} {name : Token} (named : name.Is [.identifier]) (fresh : ρ.new ≠ name.lexeme) :
    (ρ.pairing distances).Declares (marks.map ρ.naming) name (ρ.name (bound marks (some 0)) name) := by
  refine ⟨relabels_name _ (List.mem_singleton.mp named.kind), ?_⟩
  show _ = Naming.found (marks.map ρ.naming) (some 0) name.lexeme
  rw [found_namings, naming_apply _ fresh.symm, lexeme_name]

structure Applies (ρ : Renaming) (distances : Std.TreeMap NodeId Nat) (program : List Stmt) : Prop where
  resolved : ∀ {v : Visit}, Visits program v → v.Resolved distances
  fresh : ∀ {v : Visit}, Visits program v → v.Avoids ρ.new

theorem spares_body (applies : ρ.Applies distances program) {context : Context} {w : Walk} {place : List Nat}
    {params : List Token} {body : List Stmt}
    (visited : Visits program ⟨context, .stmts body, params.foldl Walk.bind (w.enter [])⟩) :
    ∀ s ∈ body, ρ.Spares (ρ.chooses ⟨place, params, body⟩) s := by
  intro s member name defines chosen
  rw [chooses, Bool.and_eq_true] at chosen
  have known : Visits program
      ⟨context, .stmts (LocalScope.mk place params body).body, params.foldl Walk.bind (w.enter [])⟩ := visited
  exact known.not_defined applies.resolved chosen.2 member defines

mutual

theorem stmt_alike (applies : ρ.Applies distances program) :
    ∀ {context : Context} {w : Walk} (marks : List Bool) (place : List Nat) (s : Stmt),
    Visits program ⟨context, .stmt s, w⟩ → ρ.Spares (bound marks (some 0)) s →
    s.Alike (ρ.pairing distances) (marks.map ρ.naming) (ρ.stmt distances marks place s)
  | context, w, marks, place, .block body, visited, _ => by
    have inside := visited.enter .block
    have stated :=
      stmts_alike applies (ρ.chooses ⟨place, [], body⟩ :: marks) place 0 body inside (spares_body applies inside)
    exact .block (ρ.naming (ρ.chooses ⟨place, [], body⟩)) stated
  | context, w, marks, place, .class_ name none methods, visited, spares => by
    have avoided := (applies.fresh visited).part
    simp only [Scope.Part.names, Stmt.names, List.mem_cons, not_or] at avoided
    have declared := functions_alike applies (false :: marks) place 0 methods (visited.enter .baseMethods)
    exact .base (fixes_definition spares rfl avoided.1) declared
  | context, w, marks, place, .class_ name (some superclass) methods, visited, spares => by
    have avoided := (applies.fresh visited).part
    simp only [Scope.Part.names, Stmt.names, List.mem_cons, not_or] at avoided
    have inherited := visited.enter .superclass
    have declared := functions_alike applies (false :: false :: marks) place 0 methods (visited.enter .derivedMethods)
    exact .derived (fixes_definition spares rfl avoided.1)
      (expr_alike (applies.resolved inherited).legal (applies.fresh inherited).part) declared
  | context, w, marks, place, .expression e, visited, _ => by
    cases (applies.resolved visited).legal with
    | expression stated => exact .expression (expr_alike stated (applies.fresh visited).part)
  | context, w, marks, place, .function (.mk name params body), visited, spares => by
    have avoided := (applies.fresh visited).part
    simp only [Scope.Part.names, Stmt.names, List.mem_cons, not_or] at avoided
    have declared := function_alike applies marks place (.mk name params body) (visited.enter .function)
    exact .function (fixes_definition spares rfl avoided.1) declared
  | context, w, marks, place, .ifThen condition thenBranch, visited, _ => by
    have avoided := (applies.fresh visited).part
    simp only [Scope.Part.names, Stmt.names, List.mem_append, not_or] at avoided
    cases (applies.resolved visited).legal with
    | ifThen head first plain =>
      have branch := stmt_alike applies marks (0 :: place) thenBranch (visited.enter .ifBranch) (spares_plain plain)
      exact .ifThen (expr_alike head avoided.1) branch
  | context, w, marks, place, .ifThenElse condition thenBranch elseBranch, visited, _ => by
    have avoided := (applies.fresh visited).part
    simp only [Scope.Part.names, Stmt.names, List.mem_append, not_or] at avoided
    cases (applies.resolved visited).legal with
    | ifThenElse head first second plain plain' =>
      have branch := stmt_alike applies marks (0 :: place) thenBranch (visited.enter .thenBranch) (spares_plain plain)
      have branch' := stmt_alike applies marks (1 :: place) elseBranch (visited.enter .elseBranch) (spares_plain plain')
      exact .ifThenElse (expr_alike head avoided.1) branch branch'
  | context, w, marks, place, .print_ e, visited, _ => by
    cases (applies.resolved visited).legal with
    | print_ stated => exact .print_ (expr_alike stated (applies.fresh visited).part)
  | context, w, marks, place, .return_ keyword value, visited, _ => by
    cases (applies.resolved visited).legal with
    | return_ word returned => exact .return_ rfl (optional_alike returned (applies.fresh visited).part)
  | context, w, marks, place, .var_ name initializer, visited, _ => by
    have avoided := (applies.fresh visited).part
    simp only [Scope.Part.names, Stmt.names, List.mem_cons, not_or] at avoided
    cases (applies.resolved visited).legal with
    | var_ named initial => exact .var_ (declares_name named avoided.1) (optional_alike initial avoided.2)
  | context, w, marks, place, .while_ condition body, visited, _ => by
    have avoided := (applies.fresh visited).part
    simp only [Scope.Part.names, Stmt.names, List.mem_append, not_or] at avoided
    cases (applies.resolved visited).legal with
    | while_ head repeated plain =>
      have loop := stmt_alike applies marks (0 :: place) body (visited.enter .whileBody) (spares_plain plain)
      exact .while_ (expr_alike head avoided.1) loop

theorem stmts_alike (applies : ρ.Applies distances program) :
    ∀ {context : Context} {w : Walk} (marks : List Bool) (place : List Nat) (number : Nat) (ss : List Stmt),
    Visits program ⟨context, .stmts ss, w⟩ → (∀ s ∈ ss, ρ.Spares (bound marks (some 0)) s) →
    Stmt.AllAlike (ρ.pairing distances) (marks.map ρ.naming) ss (ρ.stmts distances marks place number ss)
  | context, w, marks, place, number, [], _, _ => .nil
  | context, w, marks, place, number, s :: rest, visited, spares => by
    obtain ⟨first, others⟩ := List.forall_mem_cons.mp spares
    exact .cons (stmt_alike applies marks (number :: place) s (visited.enter .firstStmt) first)
      (stmts_alike applies marks place (number + 1) rest (visited.enter .otherStmts) others)

theorem function_alike (applies : ρ.Applies distances program) :
    ∀ {context : Context} {w : Walk} (marks : List Bool) (place : List Nat) (d : FunctionDecl),
    Visits program ⟨context, .function d, w⟩ →
    d.Alike (ρ.pairing distances) (marks.map ρ.naming) (ρ.function distances marks place d)
  | context, w, marks, place, .mk name params body, visited => by
    have inside := visited.enter .body
    have avoided := (applies.fresh visited).part
    simp only [Scope.Part.names, FunctionDecl.names, List.mem_append, not_or] at avoided
    have legal : FunctionDecl.Legal _ := (applies.resolved visited).legal
    have entries : List.Forall₂
        ((ρ.pairing distances).Declares ((ρ.chooses ⟨place, params, body⟩ :: marks).map ρ.naming)) params
        (params.map (ρ.name (ρ.chooses ⟨place, params, body⟩))) := by
      rw [List.forall₂_map_right_iff]
      refine List.forall₂_same.mpr fun param member => declares_name (legal.params param member) ?_
      exact fun same => avoided.1 (List.mem_map.mpr ⟨param, member, same.symm⟩)
    have stated :=
      stmts_alike applies (ρ.chooses ⟨place, params, body⟩ :: marks) place 0 body inside (spares_body applies inside)
    exact .mk (ρ.naming (ρ.chooses ⟨place, params, body⟩)) rfl entries stated

theorem functions_alike (applies : ρ.Applies distances program) :
    ∀ {context : Context} {w : Walk} (marks : List Bool) (place : List Nat) (number : Nat) (ds : List FunctionDecl),
    Visits program ⟨context, .methods ds, w⟩ →
    FunctionDecl.AllAlike (ρ.pairing distances) (marks.map ρ.naming) ds (ρ.functions distances marks place number ds)
  | _, _, _, _, _, [], _ => .nil
  | _, _, marks, place, number, d :: rest, visited =>
    .cons (function_alike applies marks (number :: place) d (visited.enter .firstMethod))
      (functions_alike applies marks place (number + 1) rest (visited.enter .otherMethods))

end

theorem program_alike (applies : ρ.Applies distances program) :
    Stmt.AllAlike (ρ.pairing distances) [] program (ρ.program distances program) :=
  stmts_alike applies [] [] 0 program .start fun _ _ _ _ chosen => nomatch chosen

open Scope (Names ScopesAlike Binds)

theorem contains_name {names names' : Names} {chosen chosen' : Bool} {name : String}
    (same : ∀ name, names'.find? (ρ.naming chosen name) = names.find? name) (other : name ≠ ρ.new)
    (avoids : names.contains ρ.new = false) (absent : names.contains name = false) :
    names'.contains (ρ.naming chosen' name) = false := by
  have back : names'.contains (ρ.naming chosen' name) = names.contains ((ρ.naming chosen).symm (ρ.naming chosen' name)) := by
    rw [← Scope.contains_eq same]
    congr 1
    exact ((ρ.naming chosen).symm_apply_eq.mp rfl)
  rw [back]
  rcases naming_symm_apply chosen chosen' other with old | new
  · rw [old]
    exact absent
  · rw [new]
    exact avoids

theorem findIdx?_name {marks : List Bool} {scopes scopes' : List Names} {name : String} {chosen : Bool}
    (alike : ScopesAlike (marks.map ρ.naming) scopes scopes') (avoids : Scope.Avoids ρ.new scopes) (other : name ≠ ρ.new)
    (found : ∀ distance, scopes.findIdx? (·.contains name) = some distance → marks.getD distance false = chosen) :
    scopes'.findIdx? (·.contains (ρ.naming chosen name)) = scopes.findIdx? (·.contains name) := by
  induction scopes generalizing marks scopes' with
  | nil =>
    generalize marks.map ρ.naming = rs at alike
    cases alike
    rfl
  | cons names outer ih =>
    cases marks with
    | nil => cases alike
    | cons mark marks =>
      cases alike with
      | @cons _ _ _ names' _ outer' same others =>
        obtain ⟨avoided, avoids⟩ := List.forall_mem_cons.mp avoids
        rw [List.findIdx?_cons] at found
        rw [List.findIdx?_cons, List.findIdx?_cons]
        cases here : names.contains name with
        | true =>
          rw [here, if_pos rfl] at found
          have marked : mark = chosen := found 0 rfl
          rw [← marked, Scope.contains_eq same, here]
          rfl
        | false =>
          rw [here, if_neg (by decide)] at found
          have rest := ih others avoids fun distance at_ => found (distance + 1) (by rw [at_]; rfl)
          rw [contains_name same other avoided here, rest]

theorem faithful_pairing (applies : ρ.Applies distances program) :
    Scope.Faithful (ρ.pairing distances) (Visits program) := by
  refine ⟨fun visited entered => visited.enter entered, ?_⟩
  rintro v rs scopes' id id' t t' visited refers alike ⟨⟨marks, rfl⟩, rfl, -, other, renamed⟩
  have located := (applies.resolved visited).located _ _ refers
  rw [located] at renamed
  refine ⟨?_, renamed⟩
  rw [renamed, found_namings]
  refine findIdx?_name alike (applies.fresh visited).scopes other fun distance found => ?_
  rw [found]
  rfl

end

end Renaming
end Lox
