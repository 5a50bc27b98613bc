import Lox.Proofs.Grammar.AlikeReading
import Lox.Proofs.Machine.AlikeActivity
import Lox.Proofs.Scope.Alike
import Lox.Proofs.Session.Steps

namespace Lox

theorem Scope.noteAll_congr {references references' : List Reference} {distances : Std.TreeMap NodeId Nat}
    (same : List.Forall₂ (fun r r' => r'.id = r.id ∧ r'.distance = r.distance) references references') :
    noteAll references' distances = noteAll references distances := by
  induction same generalizing distances with
  | nil => rfl
  | cons here _ ih =>
    unfold noteAll at ih ⊢
    rw [List.foldl_cons, List.foldl_cons, here.1, here.2, ih]

def renumber (low shift id : Nat) : Nat := if id < low then id else id + shift

theorem renumber_inj {low shift id other : Nat} : renumber low shift id = renumber low shift other ↔ id = other := by
  unfold renumber
  split <;> split <;> omega

/-- The same programs, with other numbers from a given one on. -/
def Pairing.renumbering (low shift : NodeId) : Pairing where
  tokens t t' := t' = t
  names t t' := t' = t
  refers rs id t id' t' := Naming.Plain rs ∧ t' = t ∧ id' = renumber low shift id
  kind := congrArg Token.kind
  lexeme := congrArg Token.lexeme
  tokens_names := id
  refers_names reference := reference.2.1

section

variable {low shift nextId : NodeId}

open Pairing (renumbering)

theorem Pairing.shifts_renumbering (later : low ≤ nextId) : (renumbering low shift).Shifts nextId shift := by
  refine ⟨congrArg Token.literal, fun reference => reference.2.1, fun plain same above => ⟨plain, same, ?_⟩⟩
  rw [renumber, if_neg (Nat.not_lt.mpr (Nat.le_trans later above))]

theorem Pairing.keeps_renumbering : (renumbering low shift).Keeps (· < low) := by
  refine ⟨fun _ => rfl, fun t plain below => ⟨plain, rfl, ?_⟩⟩
  rw [renumber, if_pos below]

theorem Scope.ScopesAlike.eq_of_plain {rs : List Naming} {scopes scopes' : List Names}
    (alike : ScopesAlike rs scopes scopes') (plain : Naming.Plain rs) (name : String) :
    scopes'.findIdx? (·.contains name) = scopes.findIdx? (·.contains name) := by
  induction alike with
  | nil => rfl
  | cons same _ ih =>
    obtain ⟨rfl, others⟩ := List.forall_mem_cons.mp plain
    rw [List.findIdx?_cons, List.findIdx?_cons, ih others, ← contains_eq same, Naming.id_apply]

theorem Scope.faithful_of_plain {p : Pairing}
    (plain : ∀ {rs : List Naming} {id id' : NodeId} {t t' : Token}, p.refers rs id t id' t' →
      Naming.Plain rs ∧ t'.lexeme = t.lexeme) : Scope.Faithful p fun _ => True := by
  refine ⟨fun _ _ => trivial, fun {v rs scopes' id id' t t'} _ _ alike reference => ?_⟩
  obtain ⟨unchanged, same⟩ := plain reference
  rw [same]
  exact ⟨alike.eq_of_plain unchanged t.lexeme, by rw [unchanged.found, Naming.id_apply]⟩

theorem Scope.faithful_renumbering : Scope.Faithful (renumbering low shift) fun _ => True :=
  faithful_of_plain fun reference => ⟨reference.1, congrArg Token.lexeme reference.2.1⟩

theorem Pairing.agrees_renumbering {distances distances' : Std.TreeMap NodeId Nat} :
    (renumbering low shift).Agrees distances distances' ↔ ∀ id, distances'[renumber low shift id]? = distances[id]? := by
  constructor
  · intro agrees id
    exact (agrees [] id _ ⟨.eof, "", none, 1⟩ _ ⟨.nil, rfl, rfl⟩).1
  · rintro same rs id id' t t' ⟨plain, rfl, rfl⟩
    exact ⟨same id, by rw [plain.found, Naming.id_apply]⟩

theorem Pairing.Agrees.noteAll {distances distances' : Std.TreeMap NodeId Nat}
    {references references' : List Scope.Reference} (agrees : (renumbering low shift).Agrees distances distances')
    (noted : List.Forall₂ (Scope.Reference.Alike (renumbering low shift)) references references') :
    (renumbering low shift).Agrees (Scope.noteAll references distances) (Scope.noteAll references' distances') := by
  induction noted generalizing distances distances' with
  | nil => exact agrees
  | @cons r r' _ _ here _ ih =>
    apply ih
    rw [agrees_renumbering] at agrees ⊢
    obtain ⟨⟨rs, -, -, renumbered⟩, distance⟩ := here
    intro id
    rw [Std.TreeMap.getElem?_insert, Std.TreeMap.getElem?_insert, agrees id, distance, renumbered]
    by_cases equal : r.id = id
    · rw [if_pos (Nat.compare_eq_eq.mpr (renumber_inj.mpr equal)), if_pos (Nat.compare_eq_eq.mpr equal)]
    · rw [if_neg fun same => equal (renumber_inj.mp (Nat.compare_eq_eq.mp same)),
        if_neg fun same => equal (Nat.compare_eq_eq.mp same)]

end

section

variable {p : Pairing} {known : NodeId → Prop} {world : Setting} {s : Store}

def Store.unnamed (s : Store) : List Naming := List.replicate s.scopes.size .id

theorem Store.unnamed_at {scope : ScopeId} (inside : scope < s.scopes.size) : s.unnamed[scope]? = some .id := by
  simp [unnamed, inside]

theorem Store.unnamed_eq {scope : ScopeId} {r : Naming} (here : s.unnamed[scope]? = some r) : r = .id := by
  have member := List.mem_of_getElem? here
  exact List.eq_of_mem_replicate member

theorem Store.Fits.named {environment : Environment} {scopes : List Scope.Names}
    (fits : s.Fits world.globals environment scopes) (root : ∃ scope, world.globals = .root scope ∧ scope < s.scopes.size) :
    environment.Named s.unnamed (List.replicate scopes.length .id) := by
  induction scopes generalizing environment with
  | nil =>
    obtain ⟨scope, globals, inside⟩ := root
    rw [nil_iff.mp fits, globals]
    exact .root (unnamed_at inside)
  | cons names outer ih =>
    obtain ⟨scope, enclosing, rfl, holds, rest⟩ := cons_iff.mp fits
    exact .child (unnamed_at holds.inside) (ih rest)

theorem Naming.plain_replicate (count : Nat) : Naming.Plain (List.replicate count .id) := fun _ => List.eq_of_mem_replicate

section

variable (keeps : p.Keeps known) (numbered : ∀ v, world.known v → ∀ id ∈ v.part.ids, known id)
  (root : ∃ scope, world.globals = .root scope ∧ scope < s.scopes.size)
include keeps numbered root

theorem Closure.Sound.alike_self {f : Closure} (sound : f.Sound world s) : f.Alike p s.unnamed f := by
  obtain ⟨context, w, visited, fits, -⟩ := sound
  have declared := f.declaration.alike_self keeps (Naming.plain_replicate w.scopes.length) (numbered _ visited)
  exact ⟨rfl, rfl, _, fits.named root, declared⟩

theorem Closure.SoundMethod.alike_self {f : Closure} (sound : f.SoundMethod world s) : f.MethodAlike p s.unnamed f := by
  obtain ⟨context, w, outer, visited, -, fits, -⟩ := sound
  have declared := f.declaration.alike_self keeps (Naming.plain_replicate outer.length).cons (numbered _ visited)
  exact ⟨rfl, rfl, _, fits.named root, declared⟩

theorem Class.Sound.alike_self {c : Class} (sound : c.Sound world s) : c.Alike p s.unnamed c := by
  have tables {methods : Bindings Closure} (methodsSound : ∀ name f, methods.find? name = some f → f.SoundMethod world s)
      (name : String) : Option.Rel (Closure.MethodAlike p s.unnamed) (methods.find? name) (methods.find? name) := by
    cases found : methods.find? name with
    | none => exact .none
    | some f => exact .some ((methodsSound name f found).alike_self keeps numbered root)
  induction c with
  | base identity name methods => exact .base (tables sound)
  | derived identity name methods superclass ih => exact .derived (tables sound.1) (ih sound.2)

theorem Value.Sound.alike_self {x : Value} (sound : x.Sound world s) : x.Alike p s.unnamed x := by
  cases x with
  | function identity f => exact .function (Closure.Sound.alike_self keeps numbered root sound)
  | class_ c => exact .class_ (Class.Sound.alike_self keeps numbered root sound)
  | instance_ identity c => exact .instance_ (Class.Sound.alike_self keeps numbered root sound)
  | nil => exact .nil
  | bool value => exact .bool
  | number value => exact .number
  | text value => exact .text
  | native f => exact .native

theorem Store.Sound.alike_self (sound : s.Sound world) : s.Alike p s.unnamed s := by
  refine ⟨List.length_replicate, rfl, rfl, rfl, ?_, ?_⟩
  · intro scope r here name
    rw [unnamed_eq here, Naming.id_apply]
    cases found : s.lookup? scope name with
    | none => exact .none
    | some value => exact .some ((sound.scopes scope name value found).alike_self keeps numbered root)
  · intro object name
    cases found : s.field? object name with
    | none => exact .none
    | some value => exact .some ((sound.fields object name value found).alike_self keeps numbered root)

end

end

theorem Session.Consistent.machine_alike {s : Session} {programs : List (List Stmt)} {p : Pairing}
    (consistent : s.Consistent programs) (keeps : p.Keeps (· < s.nextId)) {distances distances' : Std.TreeMap NodeId Nat}
    (agrees : p.Agrees distances distances') :
    Machine.Alike p s.machine.store.unnamed [] { s.machine with distances := distances }
      { s.machine with distances := distances' } := by
  let world := consistent.setting ⟨0, .program [], s.machine⟩
  have sound : s.machine.Sound world := consistent.machine_sound _
  have numbered : ∀ v, world.known v → ∀ id ∈ v.part.ids, id < s.nextId := by
    rintro v ⟨program, listed, visited⟩ id member
    exact consistent.numbered program listed id (visited.ids_subset member)
  obtain ⟨scope, globals, inside⟩ := consistent.root
  have top : s.machine.globals.Named s.machine.store.unnamed [] := by
    rw [globals]
    exact .root (Store.unnamed_at inside)
  exact ⟨rfl, top, rfl, consistent.environment ▸ top, rfl, rfl, rfl,
    sound.store.alike_self keeps numbered consistent.root, agrees⟩

namespace Session

open Pairing (renumbering)

structure Alike (low shift : NodeId) (s s' : Session) : Prop where
  machine : ∃ world, s.machine.Alike (renumbering low shift) world [] s'.machine
  flags : s'.flags = s.flags
  lower : low ≤ s.nextId
  nextId : s'.nextId = s.nextId + shift

namespace Alike

variable {low shift : NodeId} {s s' : Session}

theorem report (sessions : s.Alike low shift s') (d : Diagnostic) : (s.report d).Alike low shift (s'.report d) := by
  obtain ⟨world, machines⟩ := sessions.machine
  refine ⟨⟨world, machines.write _⟩, ?_, sessions.lower, sessions.nextId⟩
  show s'.flags.note d = s.flags.note d
  rw [sessions.flags]

theorem reportAll (sessions : s.Alike low shift s') (ds : List Diagnostic) :
    (s.reportAll ds).Alike low shift (s'.reportAll ds) := by
  induction ds generalizing s s' with
  | nil => exact sessions
  | cons d rest ih => exact ih (sessions.report d)

theorem takeLines (sessions : s.Alike low shift s') : s.takeLines.2.Alike low shift s'.takeLines.2 := by
  obtain ⟨world, machines⟩ := sessions.machine
  refine ⟨⟨world, ?_⟩, sessions.flags, sessions.lower, sessions.nextId⟩
  exact ⟨machines.globals, machines.top, machines.environment, machines.named, machines.depth, rfl, machines.clock,
    machines.store, machines.agrees⟩

theorem lines (sessions : s.Alike low shift s') : s'.takeLines.1 = s.takeLines.1 := by
  obtain ⟨world, machines⟩ := sessions.machine
  exact congrArg Array.toList machines.lines

theorem resetErrors (sessions : s.Alike low shift s') : s.resetErrors.Alike low shift s'.resetErrors :=
  ⟨sessions.machine, congrArg Flags.reset sessions.flags, sessions.lower, sessions.nextId⟩

theorem scan (sessions : s.Alike low shift s') (source : String) :
    (s.scan source).2.Alike low shift (s'.scan source).2 := sessions.reportAll _

theorem parse (sessions : s.Alike low shift s') (tokens : List Token) :
    Stmt.AllAlike (renumbering low shift) [] (s.parse tokens).1 (s'.parse tokens).1 ∧
      (s.parse tokens).2.Alike low shift (s'.parse tokens).2 := by
  have said : List.Forall₂ (renumbering low shift).tokens tokens tokens := List.forall₂_same.mpr fun _ _ => rfl
  obtain ⟨stated, misread, nextId⟩ := parseProgram_alike (Pairing.shifts_renumbering sessions.lower) said rfl
  have same : (parseProgram tokens s'.nextId).misreadings = (parseProgram tokens s.nextId).misreadings := by
    rw [sessions.nextId]
    symm
    rw [← List.forall₂_eq_eq_eq]
    refine misread.imp fun misreading misreading' alike => ?_
    obtain ⟨token, fault⟩ := misreading
    obtain ⟨token', fault'⟩ := misreading'
    obtain ⟨rfl, rfl⟩ : token' = token ∧ fault' = fault := ⟨alike.token, alike.fault⟩
    rfl
  unfold Session.parse
  dsimp only
  rw [same]
  rw [← sessions.nextId] at stated nextId
  have read : Alike low shift { s with nextId := (parseProgram tokens s.nextId).nextId }
      { s' with nextId := (parseProgram tokens s'.nextId).nextId } :=
    ⟨sessions.machine, sessions.flags, Nat.le_trans sessions.lower (parseProgram_nextId_le tokens s.nextId), nextId⟩
  exact ⟨stated [] .nil, read.reportAll _⟩

theorem resolve {program program' : List Stmt} (sessions : s.Alike low shift s')
    (stated : Stmt.AllAlike (renumbering low shift) [] program program') :
    (s.resolve program).Alike low shift (s'.resolve program') := by
  obtain ⟨references, misused⟩ := Scope.resolve_alike Scope.faithful_renumbering stated trivial
  have same : (Scope.resolve program').misuses = (Scope.resolve program).misuses := by
    symm
    rw [← List.forall₂_eq_eq_eq]
    refine misused.imp fun misuse misuse' alike => ?_
    obtain ⟨token, fault⟩ := misuse
    obtain ⟨token', fault'⟩ := misuse'
    obtain ⟨rfl, rfl⟩ : token' = token ∧ fault' = fault := ⟨alike.token, alike.fault⟩
    rfl
  obtain ⟨world, machines⟩ := sessions.machine
  unfold Session.resolve
  dsimp only
  rw [same, setDistances_eq, setDistances_eq]
  apply reportAll
  refine ⟨⟨world, ?_⟩, sessions.flags, sessions.lower, sessions.nextId⟩
  exact ⟨machines.globals, machines.top, machines.environment, machines.named, machines.depth, machines.lines,
    machines.clock, machines.store, machines.agrees.noteAll references⟩

theorem fault_eq {fault fault' : Fault} (faults : fault.Alike (renumbering low shift) fault') : fault' = fault := by
  cases faults with
  | unexpected => rfl
  | unbound named => rw [show _ = _ from named]
  | typeMismatch shown | undefinedVariable shown | undefinedProperty shown | argumentMismatch shown | notCallable shown
  | notInstance shown | notClass shown | stackOverflow shown => rw [show _ = _ from shown]

theorem interpret {program program' : List Stmt} (sessions : s.Alike low shift s')
    (stated : Stmt.AllAlike (renumbering low shift) [] program program') (fuel : Nat) :
    Option.Rel (Alike low shift) (s.interpret fuel program) (s'.interpret fuel program') := by
  obtain ⟨world, machines⟩ := sessions.machine
  have outcomes := Run.program_alike fuel stated machines
  unfold Session.interpret
  generalize Run.program fuel program s.machine = outcome at outcomes
  generalize Run.program fuel program' s'.machine = outcome' at outcomes
  cases outcomes with
  | value _ machines₁ _ => exact .some ⟨⟨_, machines₁⟩, sessions.flags, sessions.lower, sessions.nextId⟩
  | fault _ machines₁ faults =>
    rw [fault_eq faults]
    have ended : Alike low shift { s with machine := _ } { s' with machine := _ } :=
      ⟨⟨_, machines₁⟩, sessions.flags, sessions.lower, sessions.nextId⟩
    exact .some (ended.report _)
  | outOfFuel => exact .none

theorem accept (sessions : s.Alike low shift s') (source : String) :
    Option.Rel (fun accepted accepted' => Stmt.AllAlike (renumbering low shift) [] accepted.1 accepted'.1 ∧
      accepted.2.Alike low shift accepted'.2) (s.accept? source) (s'.accept? source) := by
  obtain ⟨stated, parsed⟩ := (sessions.scan source).parse (s.scan source).1
  have resolved := parsed.resolve stated
  unfold accept?
  dsimp only
  rw [show (s'.scan source).1 = (s.scan source).1 from rfl, parsed.flags, resolved.flags]
  split
  · exact .none
  split
  · exact .none
  · exact .some ⟨stated, resolved⟩

theorem run (sessions : s.Alike low shift s') (fuel : Nat) (source : String) :
    Option.Rel (Alike low shift) (s.run fuel source) (s'.run fuel source) := by
  obtain ⟨stated, parsed⟩ := (sessions.scan source).parse (s.scan source).1
  have resolved := parsed.resolve stated
  unfold Session.run
  dsimp only
  rw [show (s'.scan source).1 = (s.scan source).1 from rfl, parsed.flags, resolved.flags]
  split
  · exact .some parsed
  split
  · exact .some resolved
  · exact resolved.interpret stated fuel

theorem step (sessions : s.Alike low shift s') (fuel : Nat) (next : Step) :
    Option.Rel (Alike low shift) (s.step fuel next) (s'.step fuel next) := by
  cases next with
  | run source => exact sessions.run fuel source
  | reset => exact .some sessions.resetErrors

end Alike
end Session
end Lox
