import Mathlib
import Lox.Proofs.Grammar.Rereading
import Lox.Proofs.Grammar.Respelling

namespace Lox

open Grammar

def Lexer.tokensOf (source : String) : List Token := (scan source).filterMap Lexed.token?

theorem programSource_scan {program : List Stmt} (legal : ∀ stmt ∈ program, stmt.Legal)
    (finite : ∀ n ∈ Stmt.numbersAll program, n.IsFinite) :
    (∀ line fault, Lexed.fault line fault ∉ Lexer.scan (programSource program)) ∧
      Wear ((Lexer.tokensOf (programSource program)).takeWhile (!·.isEof)) (Stmt.wordsAll program) := by
  have lexes := programSource_lexes legal finite
  obtain ⟨tokens, stop, scanned, same, ended⟩ := lexes.scan
  constructor
  · intro line fault among
    rw [scanned] at among
    obtain ⟨token, -, other⟩ := List.mem_map.mp among
    cases other
  · have unended : ∀ token ∈ tokens, (!token.isEof) = true := by
      intro token among
      have other : token.kind ≠ .eof := lexes.ne_eof token.bare (same ▸ List.mem_map_of_mem among)
      simpa [Token.isEof] using other
    rw [Lexer.tokensOf, scanned, Lexer.filterMap_token?, List.takeWhile_append_of_pos unended]
    have last : [stop].takeWhile (!·.isEof) = [] := by simp [Token.isEof, ended]
    rw [last, List.append_nil]
    exact same

/-- What is kept of a text is read again from its own text, and accepted if the text was. -/
theorem parseProgram_programSource (source : String) (nextId nextId' : NodeId) :
    let kept := parseProgram (Lexer.tokensOf source) nextId
    let again := parseProgram (Lexer.tokensOf (programSource kept.value)) nextId'
    (∀ n ∈ Stmt.numbersAll kept.value, n.IsFinite) →
      (∀ line fault, Lexed.fault line fault ∉ Lexer.scan (programSource kept.value)) ∧
        Stmt.bareAll again.value = Stmt.bareAll kept.value ∧ (kept.misreadings = [] → again.misreadings = []) := by
  intro kept again finite
  have legal : ∀ stmt ∈ kept.value, stmt.Legal := parseProgram_legal (fun token => scan_written) nextId
  obtain ⟨clean, worn⟩ := programSource_scan legal finite
  obtain ⟨ts, spelled⟩ := parseProgram_spelled (Lexer.tokensOf source) nextId
  have respelled := spelled.respelled _ worn
  obtain ⟨same, silent⟩ := parseProgram_of_spelled respelled nextId'
  exact ⟨clean, same, fun accepted => silent fun n short => short accepted⟩

/-- A text with a stray sign and a broken declaration, of which the loop is kept. The step of the loop ends up in a block,
    and the `else` stays with the inner `if`. -/
theorem parseProgram_programSource_loop :
    let kept := parseProgram (Lexer.tokensOf "for (;; i = 2.5) if (a) if (!-b) c.d(); else # e; var 3;") 0
    Stmt.numbersAll kept.value = [⟨0x4004000000000000⟩] ∧
      (∀ line fault, Lexed.fault line fault ∉ Lexer.scan (programSource kept.value)) ∧
      Stmt.bareAll (parseProgram (Lexer.tokensOf (programSource kept.value)) 7).value = Stmt.bareAll kept.value := by
  intro kept
  have numbers : Stmt.numbersAll kept.value = [⟨0x4004000000000000⟩] := by cbv
  have finite : ∀ n ∈ Stmt.numbersAll kept.value, n.IsFinite := by
    rw [numbers]
    intro n same
    rw [List.mem_singleton.mp same]
    unfold Number.IsFinite
    decide
  obtain ⟨clean, same, -⟩ := parseProgram_programSource _ 0 7 finite
  exact ⟨numbers, clean, same⟩

end Lox
