import Mathlib
import Lox.Proofs.Grammar.Relabelling
import Lox.Proofs.Scope.Renaming
import Lox.Proofs.Session.Renumbering
import Lox.Proofs.Token.Relabelling

namespace Lox

inductive FaultKind where
  | typeMismatch
  | undefinedVariable
  | undefinedProperty
  | argumentMismatch
  | notCallable
  | notInstance
  | notClass
  | stackOverflow
  | unexpected
deriving DecidableEq

def Fault.kind : Fault → FaultKind
  | typeMismatch .. => .typeMismatch
  | undefinedVariable .. => .undefinedVariable
  | undefinedProperty .. => .undefinedProperty
  | argumentMismatch .. => .argumentMismatch
  | notCallable .. => .notCallable
  | notInstance .. => .notInstance
  | notClass .. => .notClass
  | stackOverflow .. => .stackOverflow
  | unexpected .. => .unexpected

def Line.printed? : Line → Option String
  | out text => some text
  | error _ => none

def Machine.printed (m : Machine) : List String := m.lines.toList.filterMap Line.printed?

structure Ending where
  printed : List String
  fault : Option (FaultKind × Option Nat)
deriving DecidableEq

def Outcome.ending? {α : Type} : Outcome α → Option Ending
  | value _ m => some ⟨m.printed, none⟩
  | fault f m => some ⟨m.printed, some (f.kind, f.line?)⟩
  | outOfFuel => none

theorem Machine.Alike.printed {p : Pairing} {world rs : List Naming} {m m' : Machine} (machines : m.Alike p world rs m') :
    m'.printed = m.printed := by
  unfold Machine.printed
  rw [machines.lines]

section

variable {p : Pairing} (lines : ∀ {t t' : Token}, p.names t t' → t'.line = t.line)
include lines

theorem Fault.Alike.shown {fault fault' : Fault} (faults : fault.Alike p fault') :
    fault'.kind = fault.kind ∧ fault'.line? = fault.line? := by
  cases faults with
  | unexpected => exact ⟨rfl, rfl⟩
  | unbound named => exact ⟨rfl, rfl⟩
  | typeMismatch shown | undefinedVariable shown | undefinedProperty shown | argumentMismatch shown | notCallable shown
  | notInstance shown | notClass shown | stackOverflow shown => exact ⟨rfl, congrArg some (lines shown)⟩

theorem Outcome.Alike.ending? {α β : Type} {world rs : List Naming} {R : List Naming → α → β → Prop} {outcome : Outcome α}
    {outcome' : Outcome β} (outcomes : Outcome.Alike p world rs R outcome outcome') :
    outcome'.ending? = outcome.ending? := by
  cases outcomes with
  | value _ machines _ => simp only [Outcome.ending?, machines.printed]
  | fault _ machines faults =>
    obtain ⟨kind, line⟩ := faults.shown lines
    simp only [Outcome.ending?, machines.printed, kind, line]
  | outOfFuel => rfl

end

namespace Renaming

variable {ρ : Renaming} {distances : Std.TreeMap NodeId Nat} {program : List Stmt}

theorem pairing_within : (ρ.pairing distances).Within ρ.relabelling where
  tokens same := same
  names relabels := relabels
  refers reference := ⟨reference.2.1, reference.2.2.1⟩

theorem resolve_program (applies : ρ.Applies distances program) (unmisused : (Scope.resolve program).misuses = []) :
    (Scope.resolve (ρ.program distances program)).misuses = [] ∧
      ∀ noted, Scope.noteAll (Scope.resolve (ρ.program distances program)).references noted =
        Scope.noteAll (Scope.resolve program).references noted := by
  obtain ⟨references, misuses⟩ := Scope.resolve_alike (faithful_pairing applies) (program_alike applies) .start
  rw [unmisused, List.forall₂_nil_left_iff] at misuses
  refine ⟨misuses, fun noted => Scope.noteAll_congr (references.imp fun r r' alike => ?_)⟩
  obtain ⟨rs, -, id, -⟩ := alike.refers
  exact ⟨id, alike.distance⟩

/-- The second text has the same tokens as the first, but for the new name in places of the old one. -/
def Rewrites (ρ : Renaming) (source source' : String) : Prop :=
  ∃ tokens tokens', Lexer.scan source = tokens.map .token ∧ Lexer.scan source' = tokens'.map .token ∧
    List.Forall₂ ρ.Relabels tokens tokens'

theorem source_program {source : String} {tokens : List Token} {nextId nextId' : NodeId}
    (applies : ρ.Applies distances program) (scanned : Lexer.scan source = tokens.map .token)
    (parsed : parseProgram tokens nextId = ⟨program, [], nextId'⟩) :
    ∃ source' tokens', Lexer.scan source' = tokens'.map .token ∧ List.Forall₂ ρ.Relabels tokens tokens' ∧
      parseProgram tokens' nextId = ⟨ρ.program distances program, [], nextId'⟩ := by
  have relabels : Grammar.RelabelsStmts ρ (parseProgram tokens nextId).value (ρ.program distances program) := by
    rw [parsed]
    exact ⟨[], (program_alike applies).mono pairing_within⟩
  obtain ⟨tokens', changed, read⟩ := parseProgram_relabels (by rw [parsed]) relabels
  obtain ⟨source', written⟩ := scan_relabels scanned changed
  rw [parsed] at read
  exact ⟨source', tokens', written, changed, read⟩

end Renaming

namespace Session

variable {readings : Nat → Number} {source : String} {program : List Stmt} {ready : Session}

/-- What a session shows: what has been printed, and what has been reported. -/
def shown (s : Session) : List String × Flags := (s.machine.printed, s.flags)

theorem interpret_shown (s : Session) (fuel : Nat) (program : List Stmt) : (s.interpret fuel program).map shown =
    (Run.program fuel program s.machine).ending?.map fun ending =>
      (ending.printed, ⟨s.flags.static, s.flags.runtime || ending.fault.isSome⟩) := by
  unfold interpret
  cases Run.program fuel program s.machine with
  | value result m => simp [Outcome.ending?, shown]
  | fault fault m =>
    have silent : (m.write (.error (Diagnostic.runtime fault).message)).printed = m.printed := by
      simp [Machine.printed, Machine.write, Line.printed?]
    simp [Outcome.ending?, shown, report, silent, Flags.note]
  | outOfFuel => rfl

theorem applies_of_accepted {ρ : Renaming} (accepted : (start readings).accept? source = some (program, ready))
    (fresh : ρ.new ∉ Stmt.namesAll program) : ρ.Applies ready.machine.distances program := by
  have consistent := (Consistent.start readings).accept accepted
  have listed : program ∈ [program] := List.mem_cons_self
  exact ⟨consistent.resolved listed, Scope.Visits.avoids (consistent.legal program listed) ρ.renamed.not_reserved fresh⟩

/-- A local variable of an accepted program may get any name that is new to the program. The text with the new name is
    accepted as well, with the same distances; its run prints the same and ends in the same way, or does not end either, and
    at each moment has printed the same. -/
theorem renaming_unseen (ρ : Renaming) (accepted : (start readings).accept? source = some (program, ready))
    (fresh : ρ.new ∉ Stmt.namesAll program) :
    ∃ source', ρ.Rewrites source source' ∧
      (start readings).accept? source' = some (ρ.program ready.machine.distances program, ready) ∧
      (∀ scope ∈ LocalScope.all program, ρ.chooses scope = true →
        ∃ scope' ∈ LocalScope.all (ρ.program ready.machine.distances program),
          scope'.place = ρ.place ∧ scope'.declares ρ.new = true ∧ scope'.declares ρ.old = false) ∧
      ∀ fuel,
        (Run.program fuel (ρ.program ready.machine.distances program) ready.machine).ending? =
          (Run.program fuel program ready.machine).ending? ∧
        ((start readings).run fuel source').map shown = ((start readings).run fuel source).map shown ∧
        ∀ lines, Activity.Shows ⟨fuel, .program program, ready.machine⟩ lines ↔
          Activity.Shows ⟨fuel, .program (ρ.program ready.machine.distances program), ready.machine⟩ lines := by
  have applies := applies_of_accepted accepted fresh
  obtain ⟨tokens, nextId, scanned, parsed, unmisused, same⟩ := (accept?_eq_some_iff rfl).mp accepted
  obtain ⟨source', tokens', scanned', changed, parsed'⟩ := ρ.source_program applies scanned parsed
  obtain ⟨unmisused', noted⟩ := ρ.resolve_program applies unmisused
  have accepted' : (start readings).accept? source' = some (ρ.program ready.machine.distances program, ready) := by
    refine (accept?_eq_some_iff rfl).mpr ⟨tokens', nextId, scanned', parsed', unmisused', ?_⟩
    rw [noted]
    exact same
  have stated := Renaming.program_alike applies
  have machines : ready.machine.Alike (ρ.pairing ready.machine.distances) (start readings).machine.store.unnamed []
      ready.machine := by
    have keeps : (ρ.pairing ready.machine.distances).Keeps (· < (start readings).nextId) :=
      ⟨fun _ => rfl, fun _ _ below => nomatch below⟩
    have machine : ready.machine = { (start readings).machine with distances := ready.machine.distances } := by rw [same]
    have alike := (Consistent.start readings).machine_alike keeps (ρ.agrees_pairing ready.machine.distances)
    rwa [← machine] at alike
  have endings (fuel : Nat) := (Run.program_alike fuel stated machines).ending? Renaming.Relabels.line
  refine ⟨source', ⟨tokens, tokens', scanned, scanned', changed⟩, accepted', ?_, fun fuel => ⟨endings fuel, ?_, ?_⟩⟩
  · intro scope listed chosen
    obtain ⟨marks, listed'⟩ := Renaming.mem_scopes_stmts program listed
    have place : scope.place = ρ.place := eq_of_beq (Bool.and_eq_true _ _ ▸ chosen : _ ∧ _).1
    exact ⟨ρ.scope _ marks scope, listed', place, Renaming.declares_scope chosen⟩
  · rw [run_accepted accepted, run_accepted accepted', interpret_shown, interpret_shown, endings]
  · exact (Activity.Alike.mk machines (.program stated)).shows_iff

/-- A function that sees the global variable, though a local one by the same name is declared behind it. -/
theorem renaming_unseen_static_closure : ∃ (ρ : Renaming) (source source' : String) (program : List Stmt) (ready : Session),
    source = "var a=\"g\";\x7bfun f()\x7bprint a;\x7dvar a=\"l\";f();print a;\x7d" ∧
    (start fun _ => .zero).accept? source = some (program, ready) ∧ ρ.new ∉ Stmt.namesAll program ∧
    ρ.Rewrites source source' ∧
    (start fun _ => .zero).accept? source' = some (ρ.program ready.machine.distances program, ready) ∧
    Stmt.namesAll program = ["a", "f", "a", "a", "f", "a"] ∧
    Stmt.namesAll (ρ.program ready.machine.distances program) = ["a", "f", "a", "b", "f", "b"] ∧
    (Run.program 1 program ready.machine).ending? = some ⟨["g", "l"], none⟩ ∧
    (Run.program 1 (ρ.program ready.machine.distances program) ready.machine).ending? = some ⟨["g", "l"], none⟩ := by
  let ρ : Renaming := ⟨[1], "a", "b", ⟨⟨'a', [], rfl, by decide, nofun⟩, by decide⟩,
    ⟨⟨'b', [], rfl, by decide, nofun⟩, by decide⟩, by decide⟩
  let source := "var a=\"g\";\x7bfun f()\x7bprint a;\x7dvar a=\"l\";f();print a;\x7d"
  have computed : ((start fun _ => .zero).accept? source).map (fun accepted =>
      (Stmt.namesAll accepted.1, Stmt.namesAll (ρ.program accepted.2.machine.distances accepted.1),
        (Run.program 1 accepted.1 accepted.2.machine).ending?)) =
      some (["a", "f", "a", "a", "f", "a"], ["a", "f", "a", "b", "f", "b"], some ⟨["g", "l"], none⟩) := by
    cbv
  obtain ⟨⟨program, ready⟩, accepted, facts⟩ := Option.map_eq_some_iff.mp computed
  simp only [Prod.mk.injEq] at facts
  obtain ⟨names, names', ended⟩ := facts
  have fresh : ρ.new ∉ Stmt.namesAll program := by
    rw [names]
    decide
  obtain ⟨source', rewrites, accepted', -, runs⟩ := renaming_unseen ρ accepted fresh
  exact ⟨ρ, source, source', program, ready, rfl, accepted, fresh, rewrites, accepted', names, names', ended,
    (runs 1).1.trans ended⟩

end Session
end Lox
