import Mathlib
import Lox.Proofs.Session.Renumbering

namespace Lox.Session

variable {readings : Nat → Number} {s s' s₁ s₂ : Session} {source : String} {program : List Stmt}
  {programs : List (List Stmt)} {fuel : Nat}

structure Complains (s s' : Session) (errors : List String) : Prop where
  machine : s'.machine = { s.machine with lines := s'.machine.lines, distances := s'.machine.distances }
  lines : s'.machine.lines.toList = s.machine.lines.toList ++ errors.map .error
  flags : s'.flags = ⟨s.flags.static || !errors.isEmpty, s.flags.runtime⟩

namespace Complains

theorem quiet (machine : s'.machine = { s.machine with distances := s'.machine.distances })
    (flags : s'.flags = s.flags) : s.Complains s' [] := by
  refine ⟨?_, ?_, ?_⟩
  · rw [machine]
  · rw [machine]
    simp
  · rw [flags]
    simp

theorem trans {errors others : List String} (first : s.Complains s₁ errors) (second : s₁.Complains s₂ others) :
    s.Complains s₂ (errors ++ others) := by
  refine ⟨?_, ?_, ?_⟩
  · rw [second.machine, first.machine]
  · rw [second.lines, first.lines, List.map_append, List.append_assoc]
  · rw [second.flags, first.flags]
    cases errors <;> simp

theorem reportAll (s : Session) {ds : List Diagnostic}
    (static : ∀ d ∈ ds, ∀ flags : Flags, flags.note d = { flags with static := true }) :
    s.Complains (s.reportAll ds) (ds.map Diagnostic.message) := by
  induction ds generalizing s with
  | nil => exact .quiet rfl rfl
  | cons d rest ih =>
    obtain ⟨here, others⟩ := List.forall_mem_cons.mp static
    have reported : s.Complains (s.report d) [d.message] := by
      refine ⟨rfl, ?_, ?_⟩
      · simp [report, Machine.write]
      · show s.flags.note d = _
        rw [here]
        simp
    exact reported.trans (ih (s.report d) others)

end Complains

/-- The errors that are found while a text is read: those of its tokens, then those of its grammar. -/
def readingErrors (s : Session) (source : String) : List Diagnostic :=
  (Lexer.scan source).filterMap lexicalDiagnostic? ++
    (parseProgram ((Lexer.scan source).filterMap Lexed.token?) s.nextId).misreadings.map .ofMisreading

/-- The errors that are found before a text is run. Names are looked at only if no error stands reported by then. -/
def staticErrors (s : Session) (source : String) : List Diagnostic :=
  let program := (parseProgram ((Lexer.scan source).filterMap Lexed.token?) s.nextId).value
  s.readingErrors source ++ if s.flags.static || !(s.readingErrors source).isEmpty then []
    else (Scope.resolve program).misuses.map .ofMisuse

theorem scan_nextId (s : Session) (source : String) : (s.scan source).2.nextId = s.nextId := by
  obtain ⟨lines, flags, reported⟩ := s.reportAll_eq ((Lexer.scan source).filterMap lexicalDiagnostic?)
  show (s.reportAll _).nextId = s.nextId
  rw [reported]

theorem complains_parse (s : Session) (source : String) :
    s.Complains ((s.scan source).2.parse (s.scan source).1).2 ((s.readingErrors source).map Diagnostic.message) := by
  have scanned : s.Complains (s.scan source).2 _ := .reportAll s lexicalDiagnostic?_static
  have numbered : (s.scan source).2.Complains
      { (s.scan source).2 with nextId := (parseProgram (s.scan source).1 (s.scan source).2.nextId).nextId } [] :=
    .quiet rfl rfl
  rw [readingErrors, List.map_append, ← s.scan_nextId source, ← List.append_nil (List.map _ (List.filterMap _ _))]
  refine (scanned.trans numbered).trans (.reportAll _ fun d listed flags => ?_)
  obtain ⟨misreading, -, rfl⟩ := List.mem_map.mp listed
  rfl

theorem complains_resolve (s : Session) (program : List Stmt) :
    s.Complains (s.resolve program) ((Scope.resolve program).misuses.map .ofMisuse |>.map Diagnostic.message) := by
  let ready : Session := { s with machine := { s.machine with
    distances := Scope.noteAll (Scope.resolve program).references s.machine.distances } }
  have noted : s.Complains ready [] := .quiet rfl rfl
  refine noted.trans ?_
  unfold resolve
  dsimp only
  rw [setDistances_eq]
  refine .reportAll ready fun d listed flags => ?_
  obtain ⟨misuse, -, rfl⟩ := List.mem_map.mp listed
  rfl

theorem static_parse (s : Session) (source : String) : ((s.scan source).2.parse (s.scan source).1).2.flags.static =
    (s.flags.static || !(s.readingErrors source).isEmpty) := by
  rw [(s.complains_parse source).flags, List.isEmpty_map]

theorem complains_read (misread : ((s.scan source).2.parse (s.scan source).1).2.flags.static = true) :
    s.Complains ((s.scan source).2.parse (s.scan source).1).2 ((s.staticErrors source).map Diagnostic.message) := by
  rw [static_parse] at misread
  rw [staticErrors, if_pos misread, List.append_nil]
  exact s.complains_parse source

theorem complains_resolved (unread : ¬ ((s.scan source).2.parse (s.scan source).1).2.flags.static = true) :
    s.Complains (((s.scan source).2.parse (s.scan source).1).2.resolve ((s.scan source).2.parse (s.scan source).1).1)
      ((s.staticErrors source).map Diagnostic.message) := by
  rw [static_parse] at unread
  rw [staticErrors, if_neg unread, List.map_append, ← s.scan_nextId source]
  exact (s.complains_parse source).trans (complains_resolve _ _)

theorem complains_of_run (refused : s.accept? source = none) (ran : s.run fuel source = some s') :
    s.Complains s' ((s.staticErrors source).map Diagnostic.message) ∧ s'.flags.static = true := by
  unfold accept? at refused
  unfold run at ran
  dsimp only at refused ran
  split at refused
  · rename_i misread
    rw [if_pos misread] at ran
    cases ran
    exact ⟨complains_read misread, misread⟩
  · rename_i unread
    split at refused
    · rename_i misused
      rw [if_neg unread, if_pos misused] at ran
      cases ran
      exact ⟨complains_resolved unread, misused⟩
    · cases refused

theorem complains_of_accept {ready : Session} (accepted : s.accept? source = some (program, ready)) :
    s.Complains ready ((s.staticErrors source).map Diagnostic.message) ∧ ready.flags.static = false := by
  unfold accept? at accepted
  dsimp only at accepted
  split at accepted
  · cases accepted
  · rename_i unread
    split at accepted
    · cases accepted
    · rename_i resolved
      cases accepted
      exact ⟨complains_resolved unread, Bool.eq_false_iff.mpr resolved⟩

theorem complains_of_refused (refused : s.accept? source = none) (ran : s.run fuel source = some s') :
    ∃ errors, s.Complains s' errors :=
  ⟨_, (complains_of_run refused ran).1⟩

theorem static_of_interpret (ran : s.interpret fuel program = some s') : s'.flags.static = s.flags.static := by
  unfold interpret at ran
  split at ran
  · cases ran
    rfl
  · cases ran
    rfl
  · cases ran

theorem refused_of_static (ran : s.run fuel source = some s') (static : s'.flags.static = true) :
    s.accept? source = none := by
  cases accepted : s.accept? source with
  | none => rfl
  | some result =>
    obtain ⟨program, ready⟩ := result
    rw [run_accepted accepted] at ran
    rw [static_of_interpret ran, (complains_of_accept accepted).2] at static
    cases static

theorem Consistent.alike_of_prepares {references : List Scope.Reference} (consistent : s.Consistent programs)
    (prepares : s.Prepares s' references) (lines : s'.machine.lines = s.machine.lines) (flags : s'.flags = s.flags) :
    ∃ shift, s.Alike s.nextId shift s' := by
  obtain ⟨⟨lines', machine⟩, numbered, nextId⟩ := prepares
  obtain ⟨shift, used⟩ := Nat.exists_eq_add_of_le nextId
  have unlocated {id : NodeId} (above : s.nextId ≤ id) : s.machine.distances[id]? = none := by
    cases found : s.machine.distances[id]? with
    | none => rfl
    | some distance => exact absurd (consistent.located id distance found) (Nat.not_lt.mpr above)
  have agrees : (Pairing.renumbering s.nextId shift).Agrees s.machine.distances
      (Scope.noteAll references s.machine.distances) := by
    rw [Pairing.agrees_renumbering]
    intro id
    by_cases old : id < s.nextId
    · rw [renumber, if_pos old]
      apply Scope.noteAll_other
      rintro r noted rfl
      exact Nat.not_lt.mpr (numbered r noted).1 old
    · have above : s'.nextId ≤ id + shift := used ▸ Nat.add_le_add_right (Nat.not_lt.mp old) shift
      rw [renumber, if_neg old, unlocated (Nat.not_lt.mp old), ← unlocated (Nat.le_trans nextId above)]
      apply Scope.noteAll_other
      intro r noted same
      exact Nat.not_lt.mpr above (same ▸ (numbered r noted).2)
  have same : s'.machine = { s.machine with distances := Scope.noteAll references s.machine.distances } := by
    have written : lines' = s.machine.lines := by rw [← lines, machine]
    rw [machine, written]
  refine ⟨shift, ⟨s.machine.store.unnamed, ?_⟩, flags, Nat.le_refl _, used⟩
  rw [same]
  exact consistent.machine_alike Pairing.keeps_renumbering agrees

section

variable {low shift : NodeId} {records : List Record} {lines : Array Line}

theorem Alike.transcript_eq (list : List Step) (sessions : s.takeLines.2.Alike low shift s'.takeLines.2) :
    s'.transcript fuel list = s.transcript fuel list := by
  induction list generalizing s s' with
  | nil => rfl
  | cons next rest ih =>
    have stepped := sessions.step fuel next
    unfold transcript
    generalize s.takeLines.2.step fuel next = result at stepped
    generalize s'.takeLines.2.step fuel next = result' at stepped
    cases stepped with
    | none => rfl
    | some sessions₁ =>
      dsimp only
      rw [ih sessions₁.takeLines, sessions₁.lines, sessions₁.flags]

theorem Alike.shows_iff (list : List Step) (sessions : s.takeLines.2.Alike low shift s'.takeLines.2) :
    Shows fuel list s' records lines ↔ Shows fuel list s records lines := by
  have activities {program program' : List Stmt} {ready ready' : Session}
      (stated : Stmt.AllAlike (.renumbering low shift) [] program program') (sessions : ready.Alike low shift ready') :
      Activity.Alike (.renumbering low shift) ⟨fuel, .program program, ready.machine⟩
        ⟨fuel, .program program', ready'.machine⟩ := by
    obtain ⟨world, machines⟩ := sessions.machine
    exact .mk machines (.program stated)
  induction list generalizing s s' records with
  | nil => constructor <;> intro shows <;> cases shows
  | cons next rest ih =>
    constructor
    · intro shows
      cases shows with
      | @now _ ready' source _ program' _ accepted shows =>
        have both := sessions.accept source
        rw [accepted] at both
        generalize found : s.takeLines.2.accept? source = accepted at both
        cases both with
        | some alike =>
          obtain ⟨stated, sessions⟩ := alike
          exact .now found (((activities stated sessions).shows_iff lines).mpr shows)
      | @later _ s₁' _ _ records _ done shows =>
        have both := sessions.step fuel next
        rw [done] at both
        generalize found : s.takeLines.2.step fuel next = result at both
        cases both with
        | some sessions₁ =>
          rw [sessions₁.lines, sessions₁.flags]
          exact .later found ((ih sessions₁.takeLines).mp shows)
    · intro shows
      cases shows with
      | @now _ ready source _ program _ accepted shows =>
        have both := sessions.accept source
        rw [accepted] at both
        generalize found : s'.takeLines.2.accept? source = accepted at both
        cases both with
        | some alike =>
          obtain ⟨stated, sessions⟩ := alike
          exact .now found (((activities stated sessions).shows_iff lines).mp shows)
      | @later _ s₁ _ _ records _ done shows =>
        have both := sessions.step fuel next
        rw [done] at both
        generalize found : s'.takeLines.2.step fuel next = result at both
        cases both with
        | some sessions₁ =>
          rw [← sessions₁.lines, ← sessions₁.flags]
          exact .later found ((ih sessions₁.takeLines).mpr shows)

end

/-- A text that is refused runs nothing and writes nothing but errors. Once they are reset, all later steps show what they
    would have shown without it, whether or not they end. -/
theorem refused_leaves_no_trace (past : s.History readings programs) (quiet : s.flags.static = false)
    (ran : s.run fuel source = some s') (refused : s'.flags.static = true) :
    (∀ fuel, s.run fuel source = some s') ∧
    (∃ errors, errors ≠ [] ∧ s'.machine.lines.toList = s.machine.lines.toList ++ errors.map .error) ∧
    s'.machine = { s.machine with lines := s'.machine.lines, distances := s'.machine.distances } ∧
    s'.flags = { s.flags with static := true } ∧
    ∀ fuel list, s'.resetErrors.transcript fuel list = s.transcript fuel list ∧
      ∀ records lines, Shows fuel list s'.resetErrors records lines ↔ Shows fuel list s records lines := by
  have unaccepted := refused_of_static ran refused
  obtain ⟨errors, complains⟩ := complains_of_refused unaccepted ran
  obtain ⟨references, prepares⟩ := run_refused unaccepted ran
  have reported : errors ≠ [] := by
    rintro rfl
    rw [complains.flags] at refused
    simp [quiet] at refused
  have flags : s'.flags = { s.flags with static := true } := by
    rw [complains.flags]
    cases errors with
    | nil => exact absurd rfl reported
    | cons error rest => simp
  have same : s'.resetErrors.flags = s.flags := by
    show s'.flags.reset = s.flags
    rw [flags]
    show { s.flags with static := false } = s.flags
    rw [← quiet]
  obtain ⟨shift, sessions⟩ : ∃ shift, s.takeLines.2.Alike s.nextId shift s'.resetErrors.takeLines.2 := by
    have cleared : s.takeLines.2.Prepares s'.resetErrors.takeLines.2 references := by
      obtain ⟨⟨lines, machine⟩, numbered, nextId⟩ := prepares
      refine ⟨⟨#[], ?_⟩, numbered, nextId⟩
      show { s'.machine with lines := #[] } = _
      rw [machine]
      rfl
    exact past.takeLines.consistent.alike_of_prepares cleared rfl same
  refine ⟨fun fuel' => ?_, ⟨errors, reported, complains.lines⟩, complains.machine, flags, fun fuel list => ?_⟩
  · obtain ⟨s₁, always⟩ := run_of_refused unaccepted
    rw [always, ← ran, always]
  · exact ⟨sessions.transcript_eq list, fun records lines => sessions.shows_iff list⟩

theorem refused_leaves_no_trace_duplicate : ∃ (s s' : Session) (programs : List (List Stmt)),
    s.History (fun _ => .zero) programs ∧ s.flags.static = false ∧
    s.run 1 "\x7bvar a;\x7ba;\x7dvar a;\x7d" = some s' ∧ s'.flags.static = true ∧
    s'.nextId ≠ s.nextId ∧ s'.machine.distances.size ≠ s.machine.distances.size ∧
    ∀ fuel list, s'.resetErrors.transcript fuel list = s.transcript fuel list ∧
      ∀ records lines, Shows fuel list s'.resetErrors records lines ↔ Shows fuel list s records lines := by
  let start : Session := .start fun _ => .zero
  -- A function that is still there, with a distance of its own, when the refused text comes.
  let first := "fun f(x)\x7bx;\x7d"
  let second := "\x7bvar a;\x7ba;\x7dvar a;\x7d"
  have computed : ((start.run 1 first).bind fun s => (s.run 1 second).map fun s' =>
      ((s.flags.static, s.nextId, s.machine.distances.size), s'.flags.static, s'.nextId, s'.machine.distances.size)) =
      some ((false, 1, 1), true, 2, 2) := by cbv
  obtain ⟨s, ran, rest⟩ := Option.bind_eq_some_iff.mp computed
  obtain ⟨s', again, facts⟩ := Option.map_eq_some_iff.mp rest
  simp only [Prod.mk.injEq] at facts
  obtain ⟨⟨quiet, nextId, size⟩, refused, nextId', size'⟩ := facts
  obtain ⟨programs, past⟩ := History.start.run ran
  have invisible := (refused_leaves_no_trace past quiet again refused).2.2.2.2
  refine ⟨s, s', programs, past, quiet, again, refused, ?_, ?_, invisible⟩
  · rw [nextId, nextId']
    decide
  · rw [size, size']
    decide

end Lox.Session
