import Mathlib
import Lox.Proofs.Scope.Places
import Lox.Proofs.Scope.Resolved

namespace Lox

/-- Counted from inside, this scope is the first around the place to declare the name before it. -/
def Path.DeclaresAt (path : Path) (name : String) (k : Nat) : Prop :=
  (∃ declared, path.scopes[k]? = some declared ∧ name ∈ declared) ∧
    ∀ j < k, ∀ declared, path.scopes[j]? = some declared → name ∉ declared

theorem Path.declaresAt_iff {path : Path} {name : String} {k : Nat} :
    path.DeclaresAt name k ↔ path.scopes.findIdx? (name ∈ ·) = some k := by
  rw [List.findIdx?_eq_some_iff_getElem]
  constructor
  · rintro ⟨⟨declared, place, member⟩, before⟩
    obtain ⟨inside, same⟩ := List.getElem?_eq_some_iff.mp place
    refine ⟨inside, by simpa [same] using member, fun j less => ?_⟩
    simpa using before j less _ (List.getElem?_eq_getElem (Nat.lt_trans less inside))
  · rintro ⟨inside, member, before⟩
    refine ⟨⟨_, List.getElem?_eq_getElem inside, by simpa using member⟩, fun j less declared place => ?_⟩
    obtain ⟨within, rfl⟩ := List.getElem?_eq_some_iff.mp place
    simpa using before j less

namespace Scope

theorem resolve_filter_eq {program : List Stmt} {r : Reference} (distinct : (Stmt.idsAll program).Nodup)
    (found : r ∈ (resolve program).references) : (resolve program).references.filter (·.id = r.id) = [r] := by
  have once := (walkStmts_leads .top program .start).once r.id
  have single : (resolve program).references.countP (·.id = r.id) ≤ 1 := by
    have numbers := List.nodup_iff_count.mp distinct r.id
    rw [resolve, List.countP_reverse]
    exact Nat.le_trans once (by simpa [Walk.start] using numbers)
  have member : r ∈ (resolve program).references.filter (·.id = r.id) := List.mem_filter.mpr ⟨found, by simp⟩
  rw [List.countP_eq_length_filter] at single
  generalize (resolve program).references.filter (·.id = r.id) = hits at single member
  rcases hits with _ | ⟨other, _ | ⟨_, _⟩⟩
  · cases member
  · rw [List.mem_singleton.mp member]
  · simp at single

/-- For a reference in a program without misuses one distance is handed over, to the innermost scope that declares its name
    before it; and none if no scope around does. -/
theorem resolve_references_lexical (tokens : List Token) (nextId : NodeId) {e : Expr} {path : Path} {id : NodeId}
    {name : Token} (unmisused : (resolve (parseProgram tokens nextId).value).misuses = [])
    (occurs : Occurs (parseProgram tokens nextId).value (.expr e) path)
    (refers : (Part.expr e).refers? = some (id, name)) :
    (∀ k, (resolve (parseProgram tokens nextId).value).references.filter (·.id = id) = [⟨id, name, k⟩] ↔
      path.DeclaresAt name.lexeme k) ∧
    ((resolve (parseProgram tokens nextId).value).references.filter (·.id = id) = [] ↔
      ∀ declared ∈ path.scopes, name.lexeme ∉ declared) := by
  have distinct := (parseProgram_numbered tokens nextId).distinct
  have arranged := parseProgram_isArranged tokens nextId
  generalize (parseProgram tokens nextId).value = program at unmisused occurs distinct arranged
  obtain ⟨⟨context, part, w⟩, visited, rfl, mirrors⟩ := Visits.occurs arranged occurs
  have tracked := visited.tracked distinct (List.reverse_eq_nil_iff.mp unmisused)
  have nearest : w.scopes.findIdx? (·.contains name.lexeme) = path.scopes.findIdx? (name.lexeme ∈ ·) :=
    Mirrors.findIdx? mirrors name.lexeme
  have found_iff : ∀ r, r ∈ (resolve program).references ∧ r.id = id ↔
      ∃ k, path.DeclaresAt name.lexeme k ∧ r = ⟨id, name, k⟩ := by
    intro r
    simp only [Path.declaresAt_iff, ← nearest]
    rw [resolve, List.mem_reverse]
    exact tracked.found_iff refers r
  refine ⟨fun k => ⟨fun handed => ?_, fun declares => ?_⟩, fun handed declared around member => ?_, fun nowhere => ?_⟩
  · have member : ⟨id, name, k⟩ ∈ (resolve program).references.filter (·.id = id) := by
      rw [handed]
      exact List.mem_singleton.mpr rfl
    obtain ⟨k', declares, same⟩ := (found_iff ⟨id, name, k⟩).mp ⟨(List.mem_filter.mp member).1, rfl⟩
    cases same
    exact declares
  · exact resolve_filter_eq distinct ((found_iff ⟨id, name, k⟩).mpr ⟨k, declares, rfl⟩).1
  · cases first : path.scopes.findIdx? (name.lexeme ∈ ·) with
    | none => simpa [member] using List.findIdx?_eq_none_iff.mp first declared around
    | some k =>
      obtain ⟨listed, here⟩ := (found_iff ⟨id, name, k⟩).mpr ⟨k, Path.declaresAt_iff.mpr first, rfl⟩
      exact List.filter_eq_nil_iff.mp handed _ listed (decide_eq_true here)
  · refine List.filter_eq_nil_iff.mpr fun r listed here => ?_
    obtain ⟨k, ⟨⟨declared, place, member⟩, -⟩, -⟩ := (found_iff r).mp ⟨listed, of_decide_eq_true here⟩
    exact nowhere declared (List.mem_of_getElem? place) member

/-- The first `a` in the inner block comes before the declaration there, the second after it. -/
theorem resolve_references_lexical_shadowing : ∃ (a : Token) (program : List Stmt) (first second : Path),
    (parseProgram ((Lexer.scan "{ var a; { a; var a; a; } }").filterMap Lexed.token?) 0).value = program ∧
    (resolve program).misuses = [] ∧
    Occurs program (.expr (.variable_ 0 a)) first ∧ Occurs program (.expr (.variable_ 1 a)) second ∧
    (resolve program).references.filter (·.id = 0) = [⟨0, a, 1⟩] ∧
    (resolve program).references.filter (·.id = 1) = [⟨1, a, 0⟩] := by
  let a : Token := ⟨.identifier, "a", none, 1⟩
  let inner : List Stmt := [.expression (.variable_ 0 a), .var_ a none, .expression (.variable_ 1 a)]
  let program : List Stmt := [.block [.var_ a none, .block inner]]
  have parsed : (parseProgram ((Lexer.scan "{ var a; { a; var a; a; } }").filterMap Lexed.token?) 0).value =
      program := by cbv
  have unmisused : (resolve program).misuses = [] := by decide
  have block : Occurs program (.stmt (.block inner)) _ := .inside (i := 1) (.inside (i := 0) .here rfl) rfl
  have first : Occurs program (.expr (.variable_ 0 a)) _ := .inside (i := 0) (.inside (i := 0) block rfl) rfl
  have second : Occurs program (.expr (.variable_ 1 a)) _ := .inside (i := 0) (.inside (i := 2) block rfl) rfl
  have lexical := @resolve_references_lexical ((Lexer.scan "{ var a; { a; var a; a; } }").filterMap Lexed.token?) 0
  rw [parsed] at lexical
  refine ⟨a, program, _, _, parsed, unmisused, first, second, ?_, ?_⟩
  · exact ((lexical unmisused first rfl).1 1).mpr (Path.declaresAt_iff.mpr (by decide))
  · exact ((lexical unmisused second rfl).1 0).mpr (Path.declaresAt_iff.mpr (by decide))

end Scope
end Lox
