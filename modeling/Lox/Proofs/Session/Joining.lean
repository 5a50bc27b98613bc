import Mathlib
import Lox.Proofs.Grammar.Joining
import Lox.Proofs.Machine.Fuel
import Lox.Proofs.Scope.Joining
import Lox.Proofs.Session.Renumbering
import Lox.Proofs.Token.Joining

namespace Lox

theorem Token.bare_eq_bare {t t' : Token} :
    t'.bare = t.bare ↔ t'.kind = t.kind ∧ t'.lexeme = t.lexeme ∧ t'.literal = t.literal := by
  simp [Token.bare]

/-- The same programs on other lines, with numbers that are so much higher; references have known numbers only. -/
def Pairing.moving (known : NodeId → Prop) (shift : NodeId) : Pairing where
  tokens t t' := t'.bare = t.bare
  names t t' := t'.bare = t.bare
  refers rs id t id' t' := Naming.Plain rs ∧ t'.bare = t.bare ∧ id' = id + shift ∧ known id
  kind same := (Token.bare_eq_bare.mp same).1
  lexeme same := (Token.bare_eq_bare.mp same).2.1
  tokens_names := id
  refers_names reference := reference.2.1

section

open Pairing (moving)

variable {known known' : NodeId → Prop} {low shift : NodeId}

theorem Pairing.shifts_moving (above : ∀ id, low ≤ id → known id) : (moving known shift).Shifts low shift :=
  ⟨fun same => (Token.bare_eq_bare.mp same).2.2, fun reference => reference.2.1,
    fun plain same later => ⟨plain, same, rfl, above _ later⟩⟩

theorem Pairing.keeps_moving : (moving known 0).Keeps known :=
  ⟨fun _ => rfl, fun _ plain here => ⟨plain, rfl, rfl, here⟩⟩

theorem Pairing.within_moving (fewer : ∀ id, known' id → known id) : (moving known' shift).Within (moving known shift) :=
  ⟨id, id, fun ⟨plain, same, higher, here⟩ => ⟨plain, same, higher, fewer _ here⟩⟩

theorem Pairing.agrees_moving {distances distances' : Std.TreeMap NodeId Nat}
    (same : ∀ id, known id → distances'[id]? = distances[id]?) : (moving known 0).Agrees distances distances' := by
  rintro rs id id' t t' ⟨plain, bare, rfl, here⟩
  exact ⟨same _ here, by rw [plain.found, Naming.id_apply, (Token.bare_eq_bare.mp bare).2.1]⟩

theorem Scope.faithful_moving : Scope.Faithful (moving known shift) fun _ => True :=
  faithful_of_plain fun reference => ⟨reference.1, (Token.bare_eq_bare.mp reference.2.1).2.1⟩

theorem Token.below_said (lines : Nat) (tokens : List Token) :
    List.Forall₂ (moving known shift).tokens tokens (tokens.map (Token.below lines)) := by
  rw [List.forall₂_map_right_iff]
  exact List.forall₂_same.mpr fun _ _ => rfl

theorem parseProgram_moved {tokens tokens' : List Token} {nextId id : NodeId} {program : List Stmt} (shift : NodeId)
    (said : List.Forall₂ (moving (fun _ => True) shift).tokens tokens tokens')
    (read : parseProgram tokens nextId = ⟨program, [], id⟩) (unmisused : (Scope.resolve program).misuses = []) :
    ∃ program', parseProgram tokens' (nextId + shift) = ⟨program', [], id + shift⟩ ∧
      Stmt.AllAlike (moving (fun _ => True) shift) [] program program' ∧ (Scope.resolve program').misuses = [] ∧
      List.Forall₂ (fun r r' => r'.id = r.id + shift ∧ r'.distance = r.distance) (Scope.resolve program).references
        (Scope.resolve program').references := by
  obtain ⟨stated, misread, numbered⟩ := parseProgram_alike (Pairing.shifts_moving fun _ _ => trivial) said rfl
  rw [read] at stated misread numbered
  have alike := stated [] .nil
  obtain ⟨references, misused⟩ := Scope.resolve_alike Scope.faithful_moving alike trivial
  rw [unmisused] at misused
  have silent := List.forall₂_nil_left_iff.mp misread
  refine ⟨_, ?_, alike, List.forall₂_nil_left_iff.mp misused, references.imp fun r r' found => ?_⟩
  · rw [← numbered, ← silent]
  · obtain ⟨⟨rs, -, -, higher, -⟩, distance⟩ := found
    exact ⟨higher, distance⟩

end

theorem Run.program_append (fuel : Nat) (first second : List Stmt) (m : Machine) :
    Run.program fuel (first ++ second) m = (Run.program fuel first >>= fun _ => Run.program fuel second) m := by
  induction first generalizing m with
  | nil => rfl
  | cons stmt rest ih =>
    show Run.bind (Run.execute fuel stmt) (fun _ => Run.program fuel (rest ++ second)) m =
      Run.bind (Run.bind (Run.execute fuel stmt) fun _ => Run.program fuel rest) (fun _ => Run.program fuel second) m
    unfold Run.bind
    cases Run.execute fuel stmt m with
    | value _ m₁ => exact ih m₁
    | fault | outOfFuel => rfl

theorem Run.program_value_or_spent {fuel : Nat} {program : List Stmt} {m m₁ : Machine}
    (done : Run.program fuel program m = .value () m₁) (fuel' : Nat) :
    Run.program fuel' program m = .value () m₁ ∨ Run.program fuel' program m = .outOfFuel := by
  rcases Nat.le_total fuel fuel' with more | less
  · rw [Run.extends_program more program m (done ▸ ended_value () m₁), done]
    exact .inl rfl
  · have same := Run.extends_program less program m
    rw [done] at same
    cases ended : Run.program fuel' program m with
    | value => exact .inl (ended ▸ (same (ended ▸ ended_value _ _)).symm)
    | fault => cases ended ▸ same (ended ▸ ended_fault _ _)
    | outOfFuel => exact .inr rfl

/-- The same line, or the same error at another place. -/
inductive Line.Moved : Line → Line → Prop where
  | same (line : Line) : Moved line line
  | error (reason : String) (place place' : Nat) : Moved (.error (reason ++ "\n[line " ++ toString place ++ "]"))
      (.error (reason ++ "\n[line " ++ toString place' ++ "]"))

section

variable {known : NodeId → Prop} {shift : NodeId} {fault fault' : Fault}

theorem Fault.Alike.reason_eq (faults : fault.Alike (.moving known shift) fault') : fault'.reason = fault.reason := by
  have lexeme {t t' : Token} (shown : t'.bare = t.bare) : t'.lexeme = t.lexeme := (Token.bare_eq_bare.mp shown).2.1
  cases faults with
  | unbound named => rw [lexeme named]
  | undefinedVariable shown => exact congrArg (fun name => "Undefined variable '" ++ name ++ "'.") (lexeme shown)
  | undefinedProperty shown => exact congrArg (fun name => "Undefined property '" ++ name ++ "'.") (lexeme shown)
  | unexpected | typeMismatch | argumentMismatch | notCallable | notInstance | notClass | stackOverflow => rfl

theorem Fault.Alike.placed (faults : fault.Alike (.moving known shift) fault') :
    Option.Rel (fun _ _ => True) fault.line? fault'.line? := by
  cases faults with
  | unexpected | unbound => exact .none
  | _ => exact .some trivial

theorem Fault.Alike.moved (faults : fault.Alike (.moving known shift) fault') :
    Line.Moved (.error fault.message) (.error fault'.message) := by
  have placed := faults.placed
  unfold Fault.message
  rw [faults.reason_eq]
  generalize fault.line? = line at placed
  generalize fault'.line? = line' at placed
  cases placed with
  | none => exact .same _
  | some _ => exact .error ..

end

namespace Session

structure Moved (s s' : Session) : Prop where
  lines : List.Forall₂ Line.Moved s.machine.lines.toList s'.machine.lines.toList
  flags : s'.flags = s.flags

theorem interpret_moved {known : NodeId → Prop} {shift : NodeId} {world rs : List Naming} {s s' : Session} {fuel : Nat}
    {program program' : List Stmt} (flags : s'.flags = s.flags)
    (outcomes : Outcome.Alike (.moving known shift) world rs (fun _ _ _ => True) (Run.program fuel program s.machine)
      (Run.program fuel program' s'.machine)) :
    Option.Rel Moved (s.interpret fuel program) (s'.interpret fuel program') := by
  have unmoved {lines lines' : Array Line} (same : lines' = lines) :
      List.Forall₂ Line.Moved lines.toList lines'.toList := by
    rw [same]
    exact List.forall₂_same.mpr fun line _ => .same line
  unfold interpret
  generalize Run.program fuel program s.machine = outcome at outcomes
  generalize Run.program fuel program' s'.machine = outcome' at outcomes
  cases outcomes with
  | value _ machines _ => exact .some ⟨unmoved machines.lines, flags⟩
  | fault _ machines faults =>
    refine .some ⟨?_, ?_⟩
    · simp only [report, Machine.write, Array.toList_push]
      exact List.rel_append (unmoved machines.lines) (.cons faults.moved .nil)
    · simp only [report, Flags.note, flags]
  | outOfFuel => exact .none

def noting (s : Session) (references : List Scope.Reference) (nextId : NodeId) : Session :=
  ⟨{ s.machine with distances := Scope.noteAll references s.machine.distances }, s.flags, nextId⟩

theorem accept?_newline {readings : Nat → Number} {s ready₁ ready₂ : Session} {first second : String}
    {program₁ program₂ : List Stmt} (clear : s.flags.static = false)
    (accepted₁ : s.accept? first = some (program₁, ready₁))
    (accepted₂ : (start readings).accept? second = some (program₂, ready₂)) :
    ∃ program program' nextId, Stmt.AllAlike (.moving (fun _ => True) 0) [] program program' ∧
      Numbered ready₁.nextId nextId (Stmt.idsAll program) ∧ ready₁.nextId ≤ nextId ∧
      (∀ s' : Session, s'.flags.static = false → s'.nextId = ready₁.nextId →
        s'.accept? second = some (program, s'.noting (Scope.resolve program).references nextId)) ∧
      s.accept? (first ++ "\n" ++ second) =
        some (program₁ ++ program', ready₁.noting (Scope.resolve program).references nextId) := by
  have legal := (accept?_eq_some accepted₁).2.1
  obtain ⟨tokens₁, id₁, scanned₁, read₁, unmisused₁, rfl⟩ := (accept?_eq_some_iff clear).mp accepted₁
  obtain ⟨tokens₂, id₂, scanned₂, read₂, unmisused₂, -⟩ := (accept?_eq_some_iff rfl).mp accepted₂
  obtain ⟨front, stop, rfl, ended, inside, scanned⟩ := Lexer.scan_newline scanned₁ scanned₂
  -- the second text is read behind the first with higher numbers, and under it on other lines as well
  obtain ⟨program, read, -, unmisused, -⟩ :=
    parseProgram_moved id₁ (List.forall₂_same.mpr fun _ _ => rfl) read₂ unmisused₂
  obtain ⟨program', read', alike, unmisused', references⟩ :=
    parseProgram_moved 0 (Token.below_said stop.line tokens₂) read unmisused
  rw [show (start readings).nextId + id₁ = id₁ from Nat.zero_add id₁] at read read'
  have joined := parseProgram_append (fun t among => by simp [Token.isEof, inside t among]) (by simp [Token.isEof, ended])
    read₁ read'
  have numbered := parseProgram_numbered tokens₂ id₁
  have later := parseProgram_nextId_le tokens₂ id₁
  rw [read] at numbered later
  refine ⟨program, program', _, alike, numbered, later, fun s' clear' nextId => ?_, ?_⟩
  · exact (accept?_eq_some_iff clear').mpr ⟨_, _, scanned₂, nextId ▸ read, unmisused, rfl⟩
  · refine (accept?_eq_some_iff clear).mpr ⟨_, _, scanned, joined, ?_, ?_⟩
    · rw [Scope.resolve_append legal, unmisused₁, unmisused']
      rfl
    · rw [Scope.resolve_append legal, noting, ← Scope.noteAll_congr references]
      simp only [Scope.noteAll, List.foldl_append]
      rfl

theorem Prepares.noting {s : Session} {program : List Stmt} {nextId : NodeId}
    (numbered : Numbered s.nextId nextId (Stmt.idsAll program)) (later : s.nextId ≤ nextId) :
    s.Prepares (s.noting (Scope.resolve program).references nextId) (Scope.resolve program).references := by
  refine ⟨⟨_, rfl⟩, fun r listed => numbered.within r.id ?_, later⟩
  exact Scope.references_inside program r (List.mem_reverse.mp listed)

namespace Consistent

variable {s : Session} {program : List Stmt} {programs : List (List Stmt)} {references : List Scope.Reference}
  {nextId : NodeId} {fuel : Nat} {m : Machine}

theorem distances_eq (consistent : s.Consistent (program :: programs))
    (done : Run.program fuel program s.machine = .value () m) : m.distances = s.machine.distances :=
  ((consistent.program_ensures fuel).of_value done).2.1.distances

theorem program_noting (consistent : s.Consistent (program :: programs))
    (prepares : s.Prepares (s.noting references nextId) references) (fuel : Nat) :
    Outcome.Alike (.moving (· < s.nextId) 0) s.machine.store.unnamed [] (fun _ _ _ => True)
      (Run.program fuel program s.machine) (Run.program fuel program (s.noting references nextId).machine) := by
  have keeps : (Pairing.moving (· < s.nextId) 0).Keeps (· < s.nextId) := Pairing.keeps_moving
  have agrees : (Pairing.moving (· < s.nextId) 0).Agrees s.machine.distances
      (Scope.noteAll references s.machine.distances) := Pairing.agrees_moving fun id below =>
    Scope.noteAll_other fun r listed here => Nat.not_lt.mpr (prepares.numbered r listed).1 (here ▸ below)
  have numbered := consistent.numbered program (List.mem_cons_self ..)
  exact Run.program_alike fuel (Stmt.allAlike_self keeps .nil program numbered) (consistent.machine_alike keeps agrees)

theorem program_behind {later later' : List Stmt} (consistent : s.Consistent (program :: programs))
    (prepares : s.Prepares (s.noting references nextId) references)
    (done : Run.program fuel program s.machine = .value () m)
    (stated : Stmt.AllAlike (.moving (fun _ => True) 0) [] later later') :
    ∃ m' world, Run.program fuel program (s.noting references nextId).machine = .value () m' ∧
      Outcome.Alike (.moving (fun _ => True) 0) world [] (fun _ _ _ => True)
        (Run.program fuel later (noting { s with machine := m } references nextId).machine)
        (Run.program fuel later' m') := by
  obtain ⟨world, ⟨⟩, m', done', -, machines, -⟩ := (consistent.program_noting prepares fuel).of_value done
  have noted : m'.distances = Scope.noteAll references m.distances := by
    rw [(consistent.prepare prepares).distances_eq done', consistent.distances_eq done]
    rfl
  have agrees : (Pairing.moving (fun _ => True) 0).Agrees (Scope.noteAll references m.distances) m'.distances :=
    Pairing.agrees_moving fun id _ => by rw [noted]
  have machines' := machines.mono (Pairing.within_moving fun _ _ => trivial) agrees
  exact ⟨m', world, done', Run.program_alike fuel stated machines'⟩

end Consistent

theorem interpret_eq_of_value {s : Session} {fuel : Nat} {program : List Stmt} {m : Machine}
    (done : Run.program fuel program s.machine = .value () m) :
    s.interpret fuel program = some { s with machine := m } := by
  rw [interpret, done]

theorem value_of_interpret {s s' : Session} {fuel : Nat} {program : List Stmt}
    (ran : s.interpret fuel program = some s') (unfaulted : s'.flags.runtime = false) :
    ∃ m, Run.program fuel program s.machine = .value () m := by
  unfold interpret at ran
  split at ran
  · exact ⟨_, ‹_›⟩
  · cases ran
    cases unfaulted
  · cases ran

/-- Texts without errors, the first of which runs without a fault, are one text without errors when one stands under the
    other; it shows what they show one after the other, and ends exactly if they do. -/
theorem run_newline {readings : Nat → Number} {first second : String} {fuel₁ : Nat} {s₁ : Session}
    (firstSound : ((start readings).accept? first).isSome) (secondSound : ((start readings).accept? second).isSome)
    (ran : (start readings).run fuel₁ first = some s₁) (unfaulted : s₁.flags.runtime = false) :
    ((start readings).accept? (first ++ "\n" ++ second)).isSome ∧
      ∀ fuel, Option.Rel Moved (((start readings).run fuel first).bind (·.run fuel second))
        ((start readings).run fuel (first ++ "\n" ++ second)) := by
  obtain ⟨⟨program₁, ready₁⟩, accepted₁⟩ := Option.isSome_iff_exists.mp firstSound
  obtain ⟨⟨program₂, ready₂⟩, accepted₂⟩ := Option.isSome_iff_exists.mp secondSound
  obtain ⟨program, program', nextId, stated, numbered, later, behind, joined⟩ := accept?_newline rfl accepted₁ accepted₂
  refine ⟨Option.isSome_of_mem joined, fun fuel => ?_⟩
  have consistent := (Consistent.start readings).accept accepted₁
  rw [run_accepted accepted₁] at ran
  obtain ⟨m₁, done₁⟩ := value_of_interpret ran unfaulted
  rw [run_accepted accepted₁, run_accepted joined]
  rcases Run.program_value_or_spent done₁ fuel with done | spent
  · obtain ⟨m, world, done', outcomes⟩ := consistent.program_behind (.noting numbered later) done stated
    have clear : ready₁.flags.static = false := by
      obtain ⟨_, _, -, -, -, rfl⟩ := (accept?_eq_some_iff rfl).mp accepted₁
      rfl
    rw [interpret_eq_of_value done, Option.bind_some, run_accepted (behind { ready₁ with machine := m₁ } clear rfl)]
    have joint := (Run.program_append fuel program₁ program' _).trans (Run.bind_value done')
    exact interpret_moved rfl (joint ▸ outcomes)
  · have outcomes := consistent.program_noting (.noting numbered later) fuel
    rw [spent] at outcomes
    generalize spent' : Run.program fuel program₁ (ready₁.noting _ nextId).machine = outcome at outcomes
    cases outcomes
    have joint : Run.program fuel (program₁ ++ program') (ready₁.noting _ nextId).machine = .outOfFuel :=
      (Run.program_append ..).trans (Run.bind_outOfFuel spent')
    rw [interpret, spent, interpret, joint]
    exact .none

/-- A comment ends with its line, the second text uses what the first has declared, and the fault names another line. -/
theorem run_newline_fault : ∃ s s' : Session,
    ((start fun _ => .zero).run 1 "var a = true; // a").bind (·.run 1 "print a;\n-a;") = some s ∧
    (start fun _ => .zero).run 1 ("var a = true; // a" ++ "\n" ++ "print a;\n-a;") = some s' ∧
    s.machine.lines = #[.out "true", .error ("Operand must be a number.\n[line " ++ toString 2 ++ "]")] ∧
    s'.machine.lines = #[.out "true", .error ("Operand must be a number.\n[line " ++ toString 3 ++ "]")] ∧
    s.Moved s' := by
  let r : Nat → Number := fun _ => .zero
  let name (line : Nat) : Token := ⟨.identifier, "a", none, line⟩
  let minus (line : Nat) : Token := ⟨.minus, "-", none, line⟩
  let using_ (line : Nat) : List Stmt :=
    [.print_ (.variable_ 0 (name line)), .expression (.unary (minus (line + 1)) (.variable_ 1 (name (line + 1))))]
  let declared : Machine := { Machine.start r with store := ⟨#[[("clock", .native .clock), ("a", .bool true)]], #[], 0⟩ }
  let shown (line : Nat) : Session :=
    ⟨{ declared with lines := #[.out "true", .error (Fault.typeMismatch (minus (line + 1)) .number).message] },
      ⟨false, true⟩, 2⟩
  have ran : (start r).run 1 "var a = true; // a" = some ⟨declared, .clear, 0⟩ := by cbv
  have behind : accept? ⟨declared, .clear, 0⟩ "print a;\n-a;" = some (using_ 1, ⟨declared, .clear, 2⟩) := by cbv
  have under : (start r).accept? ("var a = true; // a" ++ "\n" ++ "print a;\n-a;") =
    some (.var_ (name 1) (some (.constant (.bool true))) :: using_ 2, ⟨Machine.start r, .clear, 2⟩) := by cbv
  have first : Session.run 1 ⟨declared, .clear, 0⟩ "print a;\n-a;" = some (shown 1) := by
    rw [run_accepted behind]
    rfl
  have second : (start r).run 1 ("var a = true; // a" ++ "\n" ++ "print a;\n-a;") = some (shown 2) := by
    rw [run_accepted under]
    rfl
  have moved := (@run_newline r _ "print a;\n-a;" 1 _ (by cbv) (by cbv) ran rfl).2 1
  rw [ran, Option.bind_some, first, second] at moved
  refine ⟨shown 1, shown 2, ?_, second, rfl, rfl, ?_⟩
  · show ((start r).run 1 _).bind _ = _
    rw [ran, Option.bind_some, first]
  · cases moved with
    | some moved => exact moved

end Session
end Lox
