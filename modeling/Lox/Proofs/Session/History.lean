import Lox.Session
import Lox.Proofs.Machine.Simulation
import Lox.Proofs.Scope.Unique

namespace Lox

open Scope (Visit Visits Agrees)

namespace Scope

def noteAll (references : List Reference) (distances : Std.TreeMap NodeId Nat) : Std.TreeMap NodeId Nat :=
  references.foldl (fun distances r => distances.insert r.id r.distance) distances

variable {references : List Reference} {distances : Std.TreeMap NodeId Nat} {id : NodeId}

theorem noteAll_getElem? (references : List Reference) (distances : Std.TreeMap NodeId Nat) (id : NodeId) :
    ((∀ r ∈ references, r.id ≠ id) ∧ (noteAll references distances)[id]? = distances[id]?) ∨
      ∃ r ∈ references, r.id = id ∧ (noteAll references distances)[id]? = some r.distance := by
  induction references generalizing distances with
  | nil => exact .inl ⟨by simp, rfl⟩
  | cons r rest ih =>
    rcases ih (distances.insert r.id r.distance) with ⟨others, same⟩ | ⟨r', listed, here, found⟩
    · rw [Std.TreeMap.getElem?_insert] at same
      by_cases here : r.id = id
      · refine .inr ⟨r, List.mem_cons_self .., here, same.trans ?_⟩
        rw [if_pos (Nat.compare_eq_eq.mpr here)]
      · refine .inl ⟨fun r' listed => ?_, same.trans ?_⟩
        · rcases List.mem_cons.mp listed with rfl | later
          · exact here
          · exact others r' later
        · rw [if_neg (fun equal => here (Nat.compare_eq_eq.mp equal))]
    · exact .inr ⟨r', List.mem_cons_of_mem _ listed, here, found⟩

theorem noteAll_other (others : ∀ r ∈ references, r.id ≠ id) :
    (noteAll references distances)[id]? = distances[id]? := by
  rcases noteAll_getElem? references distances id with ⟨-, same⟩ | ⟨r, listed, here, -⟩
  · exact same
  · exact absurd here (others r listed)

theorem Agrees.noteAll {ids : List NodeId} (fresh : ∀ id ∈ ids, distances[id]? = none) :
    Agrees (noteAll references distances) references ids := by
  refine ⟨fun r listed => ?_, fun id member others => ?_⟩
  · rcases noteAll_getElem? references distances r.id with ⟨others, -⟩ | ⟨r', listed', here, found⟩
    · exact absurd rfl (others r listed)
    · exact ⟨r', listed', here, found⟩
  · rw [noteAll_other others, fresh id member]

theorem Agrees.of_mem {found found' : List Reference} {ids : List NodeId} (agrees : Agrees distances found ids)
    (same : ∀ r, r ∈ found ↔ r ∈ found') : Agrees distances found' ids := by
  refine ⟨fun r listed => ?_, fun id member others => agrees.miss id member fun r listed => others r ((same r).mp listed)⟩
  obtain ⟨r', listed', here, known⟩ := agrees.hit r ((same r).mpr listed)
  exact ⟨r', (same r').mp listed', here, known⟩

theorem Agrees.keep {found : List Reference} {ids : List NodeId} (agrees : Agrees distances found ids)
    (inside : ∀ r ∈ found, r.id ∈ ids) (others : ∀ r ∈ references, r.id ∉ ids) :
    Agrees (Scope.noteAll references distances) found ids := by
  have same : ∀ id ∈ ids, (Scope.noteAll references distances)[id]? = distances[id]? := fun id member =>
    noteAll_other fun r listed here => others r listed (here ▸ member)
  refine ⟨fun r listed => ?_, fun id member unnoted => (same id member).trans (agrees.miss id member unnoted)⟩
  rw [same r.id (inside r listed)]
  exact agrees.hit r listed

theorem references_inside (program : List Stmt) :
    ∀ r ∈ (walkStmts .top program .start).references, r.id ∈ Stmt.idsAll program := by
  intro r listed
  rcases (walkStmts_leads .top program .start).noted r listed with nothing | inside
  · cases nothing
  · exact inside

end Scope

namespace Session

/-- The program that is run for a text, with the session as it is then; nothing is run for a text with errors, or while an
    error stands reported. -/
def accept? (s : Session) (source : String) : Option (List Stmt × Session) :=
  let (tokens, s) := s.scan source
  let (program, s) := s.parse tokens
  if s.flags.static then none
  else
    let s := s.resolve program
    if s.flags.static then none else some (program, s)

/-- A session, and the programs it has accepted so far, the latest first. -/
inductive History (readings : Nat → Number) : Session → List (List Stmt) → Prop where
  | start : History readings (.start readings) []
  | reset {s : Session} {programs : List (List Stmt)} (past : History readings s programs) :
      History readings s.resetErrors programs
  | takeLines {s : Session} {programs : List (List Stmt)} (past : History readings s programs) :
      History readings s.takeLines.2 programs
  | refused {s s' : Session} {programs : List (List Stmt)} {source : String} {fuel : Nat}
      (past : History readings s programs) (refused : s.accept? source = none) (ran : s.run fuel source = some s') :
      History readings s' programs
  | accepted {s s' ready : Session} {programs : List (List Stmt)} {program : List Stmt} {source : String} {fuel : Nat}
      (past : History readings s programs) (accepted : s.accept? source = some (program, ready))
      (ran : s.run fuel source = some s') : History readings s' (program :: programs)

theorem run_accepted {s ready : Session} {source : String} {program : List Stmt}
    (accepted : s.accept? source = some (program, ready)) (fuel : Nat) :
    s.run fuel source = ready.interpret fuel program := by
  unfold accept? at accepted
  unfold run
  dsimp only at accepted ⊢
  split at accepted
  · cases accepted
  · rename_i read
    rw [if_neg read]
    split at accepted
    · cases accepted
    · rename_i resolved
      cases accepted
      rw [if_neg resolved]

theorem reportAll_eq (s : Session) (ds : List Diagnostic) :
    ∃ lines flags, s.reportAll ds = { s with machine := { s.machine with lines := lines }, flags := flags } := by
  induction ds generalizing s with
  | nil => exact ⟨s.machine.lines, s.flags, rfl⟩
  | cons d rest ih => exact ih (s.report d)

theorem static_reportAll {s : Session} {ds : List Diagnostic} (quiet : (s.reportAll ds).flags.static = false)
    (static : ∀ d ∈ ds, ∀ flags : Flags, (flags.note d).static = true) : ds = [] := by
  have sticky : ∀ (ds : List Diagnostic) (s : Session), s.flags.static = true → (s.reportAll ds).flags.static = true := by
    intro ds
    induction ds with
    | nil => exact fun _ set => set
    | cons d rest ih =>
      refine fun s set => ih (s.report d) ?_
      show (s.flags.note d).static = true
      cases d <;> simp [Flags.note, set]
  cases ds with
  | nil => rfl
  | cons d rest =>
    have set := sticky rest (s.report d) (static d (List.mem_cons_self ..) s.flags)
    rw [reportAll, List.foldl_cons, ← reportAll, set] at quiet
    cases quiet

theorem setDistances_eq (references : List Scope.Reference) (m : Machine) :
    references.foldl (fun m r => m.setDistance r.id r.distance) m =
      { m with distances := Scope.noteAll references m.distances } := by
  induction references generalizing m with
  | nil => rfl
  | cons r rest ih => exact ih (m.setDistance r.id r.distance)

structure Prepares (s s' : Session) (references : List Scope.Reference) : Prop where
  machine : ∃ lines, s'.machine =
    { s.machine with lines := lines, distances := Scope.noteAll references s.machine.distances }
  numbered : ∀ r ∈ references, s.nextId ≤ r.id ∧ r.id < s'.nextId
  nextId : s.nextId ≤ s'.nextId

variable {s s' ready : Session} {source : String} {program : List Stmt} {programs : List (List Stmt)}

theorem scan_eq (s : Session) (source : String) : ∃ lines flags,
    s.scan source = ((Lexer.scan source).filterMap Lexed.token?,
      { s with machine := { s.machine with lines := lines }, flags := flags }) := by
  obtain ⟨lines, flags, same⟩ := s.reportAll_eq ((Lexer.scan source).filterMap lexicalDiagnostic?)
  exact ⟨lines, flags, by rw [scan, same]⟩

theorem parse_eq (s : Session) (tokens : List Token) : ∃ lines flags,
    s.parse tokens = ((parseProgram tokens s.nextId).value,
      ⟨{ s.machine with lines := lines }, flags, (parseProgram tokens s.nextId).nextId⟩) := by
  obtain ⟨lines, flags, same⟩ := ({ s with nextId := (parseProgram tokens s.nextId).nextId } : Session).reportAll_eq
    ((parseProgram tokens s.nextId).misreadings.map .ofMisreading)
  exact ⟨lines, flags, by rw [parse, same]⟩

theorem resolve_eq (s : Session) (program : List Stmt) : ∃ lines flags,
    s.resolve program = ⟨{ s.machine with
      lines := lines
      distances := Scope.noteAll (Scope.resolve program).references s.machine.distances }, flags, s.nextId⟩ := by
  obtain ⟨lines, flags, same⟩ := ({ s with machine := { s.machine with
    distances := Scope.noteAll (Scope.resolve program).references s.machine.distances } } : Session).reportAll_eq
    ((Scope.resolve program).misuses.map .ofMisuse)
  exact ⟨lines, flags, by rw [resolve, setDistances_eq, same]⟩

theorem resolve_nextId (s : Session) (program : List Stmt) : (s.resolve program).nextId = s.nextId := by
  obtain ⟨lines, flags, same⟩ := s.resolve_eq program
  rw [same]

theorem parse_scan (s : Session) (source : String) : ∃ lines flags,
    (s.scan source).2.parse (s.scan source).1 =
      ((parseProgram ((Lexer.scan source).filterMap Lexed.token?) s.nextId).value,
        ⟨{ s.machine with lines := lines }, flags,
          (parseProgram ((Lexer.scan source).filterMap Lexed.token?) s.nextId).nextId⟩) := by
  obtain ⟨lines, flags, scanned⟩ := s.scan_eq source
  obtain ⟨lines', flags', parsed⟩ :=
    ({ s with machine := { s.machine with lines := lines }, flags := flags } : Session).parse_eq
    ((Lexer.scan source).filterMap Lexed.token?)
  refine ⟨lines', flags', ?_⟩
  rw [scanned]
  exact parsed

theorem resolve_prepares (s : Session) (source : String) :
    s.Prepares (((s.scan source).2.parse (s.scan source).1).2.resolve ((s.scan source).2.parse (s.scan source).1).1)
      (Scope.resolve ((s.scan source).2.parse (s.scan source).1).1).references := by
  obtain ⟨lines, flags, parsed⟩ := s.parse_scan source
  rw [parsed]
  obtain ⟨lines', flags', resolved⟩ := resolve_eq
    ⟨{ s.machine with lines := lines }, flags, (parseProgram ((Lexer.scan source).filterMap Lexed.token?) s.nextId).nextId⟩
    (parseProgram ((Lexer.scan source).filterMap Lexed.token?) s.nextId).value
  rw [resolved]
  refine ⟨⟨lines', rfl⟩, fun r listed => ?_, parseProgram_nextId_le ..⟩
  have inside := Scope.references_inside _ r (List.mem_reverse.mp listed)
  exact (parseProgram_numbered _ _).within r.id inside

theorem lexicalDiagnostic?_static {lexed : List Lexed} :
    ∀ d ∈ lexed.filterMap lexicalDiagnostic?, ∀ flags : Flags, flags.note d = { flags with static := true } := by
  intro d listed flags
  obtain ⟨item, -, found⟩ := List.mem_filterMap.mp listed
  cases item with
  | token t => cases found
  | fault line fault =>
    cases found
    rfl

theorem scan_of_quiet (quiet : (s.scan source).2.flags.static = false) :
    ∃ tokens, Lexer.scan source = tokens.map .token ∧ s.scan source = (tokens, s) := by
  have unfaulted := static_reportAll quiet fun d listed flags => by rw [lexicalDiagnostic?_static d listed]
  refine ⟨_, ?_, by rw [scan, unfaulted]; rfl⟩
  generalize Lexer.scan source = lexed at unfaulted
  induction lexed with
  | nil => rfl
  | cons item rest ih =>
    cases item with
    | token t => exact congrArg (.token t :: ·) (ih unfaulted)
    | fault line fault => cases unfaulted

theorem scan_of_tokens {tokens : List Token} (scanned : Lexer.scan source = tokens.map .token) :
    s.scan source = (tokens, s) := by
  have unfaulted : (tokens.map Lexed.token).filterMap lexicalDiagnostic? = [] := by
    rw [List.filterMap_map]
    exact List.filterMap_eq_nil_iff.mpr fun _ _ => rfl
  rw [scan, scanned, Lexer.filterMap_token?, unfaulted]
  rfl

theorem parse_of_quiet {tokens : List Token} (quiet : (s.parse tokens).2.flags.static = false) :
    ∃ program nextId, parseProgram tokens s.nextId = ⟨program, [], nextId⟩ ∧
      s.parse tokens = (program, { s with nextId := nextId }) := by
  have unmisread := static_reportAll quiet fun d listed flags => by
    obtain ⟨misreading, -, rfl⟩ := List.mem_map.mp listed
    rfl
  refine ⟨_, _, ?_, by rw [parse, unmisread]; rfl⟩
  rw [← List.map_eq_nil_iff.mp unmisread]

theorem resolve_of_quiet (quiet : (s.resolve program).flags.static = false) : (Scope.resolve program).misuses = [] :=
  List.map_eq_nil_iff.mp (static_reportAll quiet fun d listed flags => by
    obtain ⟨misuse, -, rfl⟩ := List.mem_map.mp listed
    rfl)

theorem resolve_of_misuses (unmisused : (Scope.resolve program).misuses = []) : s.resolve program =
    { s with machine :=
      { s.machine with distances := Scope.noteAll (Scope.resolve program).references s.machine.distances } } := by
  rw [resolve, unmisused, setDistances_eq]
  rfl

theorem accept?_eq_some (accepted : s.accept? source = some (program, ready)) :
    s.Prepares ready (Scope.resolve program).references ∧ (∀ stmt ∈ program, stmt.Legal) ∧
      Numbered s.nextId ready.nextId (Stmt.idsAll program) ∧ (Scope.walkStmts .top program .start).misuses = [] := by
  have prepared := s.resolve_prepares source
  obtain ⟨lines, flags, parsed⟩ := s.parse_scan source
  unfold accept? at accepted
  dsimp only at accepted
  split at accepted
  · cases accepted
  split at accepted
  · cases accepted
  · rename_i quiet
    cases accepted
    rw [parsed] at prepared quiet ⊢
    refine ⟨prepared, parseProgram_legal (fun t member => scan_written member) _, ?_, ?_⟩
    · rw [resolve_nextId]
      exact parseProgram_numbered ..
    · exact List.reverse_eq_nil_iff.mp (resolve_of_quiet (Bool.not_eq_true _ ▸ quiet))

theorem accept?_eq_some_iff (clear : s.flags.static = false) : s.accept? source = some (program, ready) ↔
    ∃ tokens nextId, Lexer.scan source = tokens.map .token ∧ parseProgram tokens s.nextId = ⟨program, [], nextId⟩ ∧
      (Scope.resolve program).misuses = [] ∧
      ready = ⟨{ s.machine with distances := Scope.noteAll (Scope.resolve program).references s.machine.distances },
        s.flags, nextId⟩ := by
  constructor
  · intro accepted
    unfold accept? at accepted
    dsimp only at accepted
    split at accepted
    · cases accepted
    split at accepted
    · cases accepted
    · rename_i read resolved
      rw [Bool.not_eq_true] at read resolved
      obtain ⟨program, nextId, parsed, quiet⟩ := parse_of_quiet read
      rw [quiet] at read resolved accepted
      obtain ⟨tokens, scanned, silent⟩ := scan_of_quiet read
      rw [silent] at parsed resolved accepted
      have unmisused := resolve_of_quiet resolved
      rw [resolve_of_misuses unmisused] at accepted
      cases accepted
      exact ⟨tokens, nextId, scanned, parsed, unmisused, rfl⟩
  · rintro ⟨tokens, nextId, scanned, parsed, unmisused, rfl⟩
    have silent : s.parse tokens = (program, { s with nextId := nextId }) := by
      rw [parse, parsed]
      rfl
    unfold accept?
    simp [scan_of_tokens scanned, silent, resolve_of_misuses unmisused, clear]

theorem run_refused {fuel : Nat} (refused : s.accept? source = none) (ran : s.run fuel source = some s') :
    ∃ references, s.Prepares s' references := by
  have prepared := s.resolve_prepares source
  obtain ⟨lines, flags, parsed⟩ := s.parse_scan source
  unfold accept? at refused
  unfold run at ran
  dsimp only at refused ran
  split at refused
  · rename_i misread
    rw [if_pos misread, parsed] at ran
    cases ran
    exact ⟨[], ⟨lines, rfl⟩, by simp, parseProgram_nextId_le ..⟩
  · rename_i read
    split at refused
    · rename_i misused
      rw [if_neg read, if_pos misused] at ran
      cases ran
      exact ⟨_, prepared⟩
    · cases refused

structure Consistent (s : Session) (programs : List (List Stmt)) : Prop where
  legal : ∀ program ∈ programs, ∀ stmt ∈ program, stmt.Legal
  distinct : ∀ program ∈ programs, (Stmt.idsAll program).Nodup
  apart : ∀ program ∈ programs, ∀ other ∈ programs, ∀ id ∈ Stmt.idsAll program, id ∈ Stmt.idsAll other → program = other
  clean : ∀ program ∈ programs, (Scope.walkStmts .top program .start).misuses = []
  agrees : ∀ program ∈ programs,
    Agrees s.machine.distances (Scope.walkStmts .top program .start).references (Stmt.idsAll program)
  numbered : ∀ program ∈ programs, ∀ id ∈ Stmt.idsAll program, id < s.nextId
  located : ∀ id distance, s.machine.distances[id]? = some distance → id < s.nextId
  environment : s.machine.environment = s.machine.globals
  root : ∃ scope, s.machine.globals = .root scope ∧ scope < s.machine.store.scopes.size
  store : ∀ world : Setting, (∀ program ∈ programs, ∀ v, Visits program v → world.known v) →
    world.globals = s.machine.globals → world.made = .any → s.machine.store.Sound world

theorem start_sound (readings : Nat → Number) (world : Setting) : (Session.start readings).machine.store.Sound world := by
  have bound (scope : ScopeId) (name : String) (value : Value)
      (found : (Session.start readings).machine.store.lookup? scope name = some value) : value = .native .clock := by
    have bound : (Store.empty.root.2.bind 0 "clock" (.native .clock)).lookup? scope name = some value := found
    rw [Store.lookup?_bind] at bound
    split at bound
    · exact (Option.some.inj bound).symm
    · cases scope <;> simp [Store.empty, Store.root, Store.lookup?, Bindings.find?] at bound
  refine ⟨fun scope name value found => ?_, fun object name value found => ?_, fun scope c found => ?_⟩
  · rw [bound scope name value found]
    trivial
  · simp [Session.start, Machine.start, Store.field?, Store.define, Store.bind, Store.root, Store.empty,
      Bindings.find?] at found
  · cases bound scope _ _ found

namespace Consistent

theorem start (readings : Nat → Number) : Consistent (.start readings) [] := by
  refine ⟨by simp, by simp, by simp, by simp, by simp, by simp, ?_, rfl, ⟨0, rfl, Nat.zero_lt_one⟩,
    fun world _ _ _ => start_sound readings world⟩
  intro id distance found
  simp [Session.start, Machine.start] at found

theorem prepare {references : List Scope.Reference} (consistent : s.Consistent programs)
    (prepares : s.Prepares s' references) : s'.Consistent programs := by
  obtain ⟨⟨lines, machine⟩, numbered, nextId⟩ := prepares
  refine ⟨consistent.legal, consistent.distinct, consistent.apart, consistent.clean, fun program listed => ?_,
    fun program listed id member => Nat.lt_of_lt_of_le (consistent.numbered program listed id member) nextId,
    fun id distance found => ?_, ?_, ?_, ?_⟩
  · rw [machine]
    refine (consistent.agrees program listed).keep (Scope.references_inside program) fun r noted member => ?_
    exact absurd (consistent.numbered program listed r.id member) (Nat.not_lt.mpr (numbered r noted).1)
  · rw [machine] at found
    rcases Scope.noteAll_getElem? references s.machine.distances id with ⟨-, same⟩ | ⟨r, noted, rfl, -⟩
    · exact Nat.lt_of_lt_of_le (consistent.located id distance (same ▸ found)) nextId
    · exact (numbered r noted).2
  · rw [machine]
    exact consistent.environment
  · rw [machine]
    exact consistent.root
  · rw [machine]
    exact consistent.store

theorem quiet (consistent : s.Consistent programs) (machine : s'.machine = { s.machine with lines := s'.machine.lines })
    (nextId : s'.nextId = s.nextId) : s'.Consistent programs :=
  consistent.prepare (⟨⟨_, machine⟩, by simp, Nat.le_of_eq nextId.symm⟩ : s.Prepares s' [])

theorem accept (consistent : s.Consistent programs) (accepted : s.accept? source = some (program, ready)) :
    ready.Consistent (program :: programs) := by
  obtain ⟨prepares, legal, numbered, clean⟩ := accept?_eq_some accepted
  have before := consistent.prepare prepares
  obtain ⟨⟨lines, machine⟩, -, -⟩ := prepares
  refine ⟨?_, ?_, ?_, ?_, ?_, ?_, before.located, before.environment, before.root, fun world known =>
    before.store world fun program listed => known program (List.mem_cons_of_mem _ listed)⟩
  · exact List.forall_mem_cons.mpr ⟨legal, before.legal⟩
  · exact List.forall_mem_cons.mpr ⟨numbered.distinct, before.distinct⟩
  · have older : ∀ other ∈ programs, ∀ id ∈ Stmt.idsAll program, id ∉ Stmt.idsAll other := fun other listed id new old =>
      absurd (consistent.numbered other listed id old) (Nat.not_lt.mpr (numbered.within id new).1)
    intro first firstListed second secondListed id here there
    rcases List.mem_cons.mp firstListed with rfl | earlier <;> rcases List.mem_cons.mp secondListed with rfl | earlier'
    · rfl
    · exact absurd there (older second earlier' id here)
    · exact absurd here (older first earlier id there)
    · exact before.apart first earlier second earlier' id here there
  · exact List.forall_mem_cons.mpr ⟨clean, before.clean⟩
  · refine List.forall_mem_cons.mpr ⟨?_, before.agrees⟩
    rw [machine]
    have fresh : ∀ id ∈ Stmt.idsAll program, s.machine.distances[id]? = none := by
      intro id member
      cases found : s.machine.distances[id]? with
      | none => rfl
      | some distance =>
        exact absurd (consistent.located id distance found) (Nat.not_lt.mpr (numbered.within id member).1)
    have agrees : Agrees (Scope.noteAll (Scope.resolve program).references s.machine.distances)
        (Scope.resolve program).references (Stmt.idsAll program) := .noteAll fresh
    exact agrees.of_mem fun r => List.mem_reverse
  · exact List.forall_mem_cons.mpr ⟨fun id member => (numbered.within id member).2, before.numbered⟩

theorem resolved (consistent : s.Consistent programs) (listed : program ∈ programs) {v : Visit}
    (visited : Visits program v) : v.Resolved s.machine.distances :=
  visited.resolved (consistent.legal program listed) (consistent.distinct program listed)
    (consistent.clean program listed) (consistent.agrees program listed)

theorem enter_listed {programs : List (List Stmt)} {v v' : Visit} (visited : ∃ program ∈ programs, Visits program v)
    (entered : v.Enters v') : ∃ program ∈ programs, Visits program v' := by
  obtain ⟨program, listed, visited⟩ := visited
  exact ⟨program, listed, visited.enter entered⟩

theorem resolved_listed (consistent : s.Consistent programs) {v : Visit} (visited : ∃ program ∈ programs, Visits program v) :
    v.Resolved s.machine.distances := by
  obtain ⟨program, listed, visited⟩ := visited
  exact consistent.resolved listed visited

def setting (consistent : s.Consistent programs) (origin : Activity) : Setting where
  known v := ∃ program ∈ programs, Visits program v
  globals := s.machine.globals
  distances := s.machine.distances
  active := origin.During
  enters := @enter_listed programs
  resolved := @consistent.resolved_listed
  spawns := .spawned
  made := .any
  declares _ := trivial
  defines _ _ := ⟨fun _ _ => trivial, fun _ _ => trivial⟩
  binds _ _ := trivial

theorem machine_sound (consistent : s.Consistent programs) (origin : Activity) :
    s.machine.Sound (consistent.setting origin) :=
  ⟨rfl, rfl, consistent.root, consistent.store _ (fun program listed _ visited => ⟨program, listed, visited⟩) rfl rfl⟩

theorem program_sound (consistent : s.Consistent (program :: programs)) (fuel : Nat) :
    Activity.Sound (consistent.setting ⟨fuel, .program program, s.machine⟩) ⟨fuel, .program program, s.machine⟩ :=
  ⟨consistent.machine_sound _, _, _, ⟨program, List.mem_cons_self .., .start⟩, rfl, consistent.environment⟩

theorem during_sound {fuel : Nat} {b : Activity} (consistent : s.Consistent (program :: programs))
    (during : Activity.During ⟨fuel, .program program, s.machine⟩ b) :
    b.Sound (consistent.setting ⟨fuel, .program program, s.machine⟩) := by
  have active : (consistent.setting ⟨fuel, .program program, s.machine⟩).active ⟨fuel, .program program, s.machine⟩ :=
    Activity.During.start
  exact (during.sound active (consistent.program_sound fuel)).2

theorem program_ensures (consistent : s.Consistent (program :: programs)) (fuel : Nat) :
    (Run.program fuel program).Ensures (consistent.setting ⟨fuel, .program program, s.machine⟩)
      (some s.machine.globals.scope) s.machine fun _ _ => True :=
  Run.program_ensures program ⟨program, List.mem_cons_self .., .start⟩ rfl .start (consistent.machine_sound _)
    consistent.environment

theorem internal_fault {fuel : Nat} {breach : Breach} {m' : Machine} (consistent : s.Consistent (program :: programs))
    (failed : Run.program fuel program s.machine = .fault (.unexpected breach) m') :
    ∃ n id name value m x m₁, Activity.During ⟨fuel, .program program, s.machine⟩ ⟨n, .expr (.assign id name value), m⟩ ∧
      (∃ p ∈ program :: programs, ∃ v, Visits p v ∧ v.part = .expr (.assign id name value) ∧
        v.walk.isInitializing name = true) ∧
      value.evaluate (Closure.invoke n) m = .value x m₁ ∧ breach = .unbound name.lexeme 0 := by
  obtain ⟨-, -, excused⟩ := (consistent.program_ensures fuel).of_fault failed
  obtain ⟨a, during, premature⟩ := excused breach rfl
  cases premature with
  | intro visited initializing valued =>
    obtain ⟨p, listed, visited⟩ := visited
    exact ⟨_, _, _, _, _, _, _, during, ⟨p, listed, _, visited, rfl, initializing⟩, valued, rfl⟩

theorem internal_fault_assigns {fuel : Nat} {breach : Breach} {m : Machine} (consistent : s.Consistent (program :: programs))
    (failed : Run.program fuel program s.machine = .fault (.unexpected breach) m) :
    ∃ p ∈ program :: programs, ∃ v id name value, Visits p v ∧ v.part = .expr (.assign id name value) ∧
      v.walk.isInitializing name = true ∧ breach = .unbound name.lexeme 0 := by
  obtain ⟨_, id, name, value, _, _, _, -, ⟨p, listed, v, visited, part, initializing⟩, -, same⟩ :=
    consistent.internal_fault failed
  exact ⟨p, listed, v, id, name, value, visited, part, initializing, same⟩

theorem visit_unique {first second : List Stmt} {v v' : Visit} (consistent : s.Consistent programs)
    (firstListed : first ∈ programs) (secondListed : second ∈ programs) (visited : Visits first v)
    (visited' : Visits second v') (numbered : v.part.ids ≠ []) (same : v.part = v'.part) : first = second ∧ v = v' := by
  obtain ⟨id, member⟩ := List.exists_mem_of_ne_nil _ numbered
  obtain rfl := consistent.apart first firstListed second secondListed id (visited.ids_subset member)
    (visited'.ids_subset (same ▸ member))
  exact ⟨rfl, visited.unique visited' (consistent.distinct first firstListed) numbered same⟩

theorem ran {origin : Activity} {free : Option ScopeId} {m : Machine} (consistent : s.Consistent programs)
    (kept : s.machine.Kept free m) (sound : m.Sound (consistent.setting origin)) :
    Consistent { s with machine := m } programs := by
  have distances : m.distances = s.machine.distances := sound.distances
  have globals : m.globals = s.machine.globals := sound.globals
  refine ⟨consistent.legal, consistent.distinct, consistent.apart, consistent.clean, fun program listed => ?_,
    consistent.numbered, fun id distance found => consistent.located id distance (distances ▸ found), ?_, ?_, ?_⟩
  · rw [distances]
    exact consistent.agrees program listed
  · rw [kept.environment, globals]
    exact consistent.environment
  · rw [globals]
    exact sound.root
  · intro world known same free
    exact sound.store.transfer ⟨fun v ⟨program, listed, visited⟩ => known program listed v visited, same.trans globals,
      free ▸ Made.within_any _⟩

theorem interpret {fuel : Nat} (consistent : s.Consistent (program :: programs))
    (ran : s.interpret fuel program = some s') : s'.Consistent (program :: programs) := by
  have ensures := consistent.program_ensures fuel
  unfold Session.interpret at ran
  split at ran
  · rename_i done
    cases ran
    obtain ⟨kept, sound, -⟩ := ensures.of_value done
    exact consistent.ran kept sound
  · rename_i failed
    cases ran
    obtain ⟨kept, sound, -⟩ := ensures.of_fault failed
    exact (consistent.ran kept sound).quiet rfl rfl
  · cases ran

end Consistent

theorem History.consistent {readings : Nat → Number} (past : History readings s programs) : s.Consistent programs := by
  induction past with
  | start => exact .start readings
  | reset _ ih | takeLines _ ih => exact ih.quiet rfl rfl
  | refused _ refused ran ih =>
    obtain ⟨references, prepares⟩ := run_refused refused ran
    exact ih.prepare prepares
  | accepted _ accepted ran ih =>
    rw [run_accepted accepted] at ran
    exact (ih.accept accepted).interpret ran

end Session
end Lox
