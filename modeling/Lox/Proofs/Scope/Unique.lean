import Lox.Proofs.Scope.Visit

namespace Lox.Scope

namespace Visit

variable {u v v' : Visit} {id : NodeId}

theorem Enters.smaller (entered : v.Enters v') : sizeOf v'.part < sizeOf v.part := by
  cases entered with
  | @body context declaration w =>
    cases declaration
    simp only [FunctionDecl.body, Part.stmts.sizeOf_spec, Part.function.sizeOf_spec, FunctionDecl.mk.sizeOf_spec]
    omega
  | _ => simp <;> omega

theorem Enters.unique (first : u.Enters v) (second : u.Enters v') (distinct : u.part.ids.Nodup) (here : id ∈ v.part.ids)
    (there : id ∈ v'.part.ids) : v = v' := by
  cases first <;> cases second <;> first
    | rfl
    | simp only [Part.ids, Expr.ids, Expr.idsAll, Stmt.ids, Stmt.idsAll, FunctionDecl.idsAll, Expr.idsOptional,
        Option.elim_some, List.nodup_append, List.mem_append] at distinct here there
      grind

/-- From inside the first visit, the walk comes to the second in so many steps. -/
inductive Reaches : Visit → Visit → Prop where
  | refl {v : Visit} : Reaches v v
  | step {u v v' : Visit} (entered : u.Enters v) (rest : Reaches v v') : Reaches u v'

theorem Reaches.snoc (reaches : u.Reaches v) (entered : v.Enters v') : u.Reaches v' := by
  induction reaches with
  | refl => exact .step entered .refl
  | step first _ ih => exact .step first (ih entered)

theorem Reaches.ids_subset (reaches : v.Reaches v') : v'.part.ids ⊆ v.part.ids := by
  induction reaches with
  | refl => exact fun _ => id
  | step entered _ ih => exact fun _ member => entered.ids_subset (ih member)

theorem Reaches.eq_or_smaller (reaches : v.Reaches v') : v = v' ∨ sizeOf v'.part < sizeOf v.part := by
  induction reaches with
  | refl => exact .inl rfl
  | step entered _ ih =>
    have smaller := entered.smaller
    rcases ih with rfl | below
    · exact .inr smaller
    · exact .inr (Nat.lt_trans below smaller)

end Visit

variable {program : List Stmt} {v v' : Visit} {id : NodeId}

theorem Visits.reached (visited : Visits program v) : Visit.Reaches ⟨.top, .stmts program, .start⟩ v := by
  induction visited with
  | start => exact .refl
  | enter _ entered ih => exact ih.snoc entered

theorem Visits.distinct (visited : Visits program v) (distinct : (Stmt.idsAll program).Nodup) : v.part.ids.Nodup := by
  induction visited with
  | start => exact distinct
  | enter _ entered ih =>
    obtain ⟨earlier, later, -, -, whole⟩ := entered.splits
    exact (List.nodup_append.mp (List.nodup_append.mp (whole.nodup_iff.mp ih)).2.1).1

theorem Visits.comparable (visited : Visits program v) (visited' : Visits program v')
    (distinct : (Stmt.idsAll program).Nodup) (here : id ∈ v.part.ids) (there : id ∈ v'.part.ids) :
    v.Reaches v' ∨ v'.Reaches v := by
  induction visited with
  | start => exact .inl visited'.reached
  | @enter u v visited entered ih =>
    rcases ih (entered.ids_subset here) with down | up
    · cases down with
      | refl => exact .inr (.step entered .refl)
      | step other rest =>
        have same := entered.unique other (visited.distinct distinct) here (rest.ids_subset there)
        exact .inl (same ▸ rest)
    · exact .inr (up.snoc entered)

theorem Visits.unique (visited : Visits program v) (visited' : Visits program v')
    (distinct : (Stmt.idsAll program).Nodup) (numbered : v.part.ids ≠ []) (same : v.part = v'.part) : v = v' := by
  obtain ⟨id, member⟩ := List.exists_mem_of_ne_nil _ numbered
  rcases visited.comparable visited' distinct member (same ▸ member) with down | up
  · rcases down.eq_or_smaller with equal | smaller
    · exact equal
    · exact absurd smaller (by rw [same]; exact Nat.lt_irrefl _)
  · rcases up.eq_or_smaller with equal | smaller
    · exact equal.symm
    · exact absurd smaller (by rw [same]; exact Nat.lt_irrefl _)

theorem Visits.ids_subset (visited : Visits program v) : v.part.ids ⊆ Stmt.idsAll program := visited.reached.ids_subset

end Lox.Scope
