import Mathlib
import Lox.Proofs.Machine.Place
import Lox.Proofs.Session.History

namespace Lox

/-- What is asked of the parser. -/
inductive Parse where
  | program (tokens : List Token)
  | expression (tokens : List Token)

inductive Tree where
  | program (stmts : List Stmt)
  | expression (expr : Expr)

def Tree.ids : Tree → List NodeId
  | program stmts => Stmt.idsAll stmts
  | expression expr => expr.ids

namespace Parse

def read : Parse → NodeId → Option Tree × NodeId
  | program tokens, first =>
    let parsed := parseProgram tokens first
    (some (.program parsed.value), parsed.nextId)
  | expression tokens, first =>
    let parsed := parseExpression tokens first
    (parsed.value.toOption.map .expression, parsed.nextId)

def readAll : List Parse → NodeId → List Tree
  | [], _ => []
  | parse :: rest, first => (parse.read first).1.toList ++ readAll rest (parse.read first).2

theorem read_numbered (parse : Parse) (first : NodeId) :
    Numbered first (parse.read first).2 ((parse.read first).1.toList.flatMap Tree.ids) ∧ first ≤ (parse.read first).2 := by
  cases parse with
  | program tokens =>
    simp only [read, Option.toList_some, List.flatMap_singleton]
    exact ⟨parseProgram_numbered tokens first, parseProgram_nextId_le tokens first⟩
  | expression tokens =>
    have obeys := Grammar.wholeExpression_obeys (.ofTokens tokens first)
    simp only [read, parseExpression]
    generalize Grammar.wholeExpression (.ofTokens tokens first) = reading at obeys ⊢
    cases reading with
    | read expr next progress =>
      have numbered : Numbered first next.nextId expr.ids := obeys.1.numbered
      refine ⟨?_, obeys.1.leads.nextId⟩
      simpa [Except.toOption, Tree.ids] using numbered
    | failed misreading next progress => exact ⟨.nil .., obeys.nextId⟩

theorem readAll_ids (parses : List Parse) (first : NodeId) :
    ((readAll parses first).flatMap Tree.ids).Nodup ∧ ∀ id ∈ (readAll parses first).flatMap Tree.ids, first ≤ id := by
  induction parses generalizing first with
  | nil => exact ⟨List.nodup_nil, nofun⟩
  | cons parse rest ih =>
    obtain ⟨numbered, le⟩ := parse.read_numbered first
    obtain ⟨distinct, above⟩ := ih (parse.read first).2
    rw [readAll, List.flatMap_append]
    refine ⟨List.nodup_append.mpr ⟨numbered.distinct, distinct, fun a here b there => ?_⟩, fun id among => ?_⟩
    · exact Nat.ne_of_lt (Nat.lt_of_lt_of_le (numbered.within a here).2 (above b there))
    · rcases List.mem_append.mp among with here | there
      · exact (numbered.within id here).1
      · exact Nat.le_trans le (above id there)

end Parse

theorem Scope.resolve_numbered {program : List Stmt} {low high : NodeId}
    (numbered : Numbered low high (Stmt.idsAll program)) :
    Numbered low high ((resolve program).references.map Reference.id) := by
  have inside : ∀ id ∈ (resolve program).references.map Reference.id, id ∈ Stmt.idsAll program := by
    intro id among
    obtain ⟨r, listed, rfl⟩ := List.mem_map.mp among
    exact references_inside program r (List.mem_reverse.mp listed)
  refine ⟨?_, fun id among => numbered.within id (inside id among)⟩
  rw [List.nodup_iff_count]
  intro id
  have counted : ((resolve program).references.map Reference.id).count id =
      (walkStmts .top program .start).references.countP (·.id = id) := by
    rw [List.count, List.countP_map, resolve, List.countP_reverse]
    exact List.countP_congr fun r _ => by simp
  have once := (walkStmts_leads .top program .start).once id
  have distinct := List.nodup_iff_count.mp numbered.distinct id
  have nothing : Walk.start.references = [] := rfl
  rw [nothing, List.countP_nil] at once
  omega

theorem Scope.noteAll_eq_some_iff {references : List Reference} {distances : Std.TreeMap NodeId Nat} {id distance : Nat}
    (distinct : (references.map Reference.id).Nodup) : (noteAll references distances)[id]? = some distance ↔
      (∃ r ∈ references, r.id = id ∧ r.distance = distance) ∨
        (∀ r ∈ references, r.id ≠ id) ∧ distances[id]? = some distance := by
  induction references generalizing distances with
  | nil => simp [noteAll]
  | cons r rest ih =>
    rw [List.map_cons, List.nodup_cons] at distinct
    refine (@ih (distances.insert r.id r.distance) distinct.2).trans ?_
    rw [Std.TreeMap.getElem?_insert]
    simp only [List.mem_cons, exists_eq_or_imp, forall_eq_or_imp]
    by_cases here : r.id = id
    · have others : ∀ r' ∈ rest, r'.id ≠ id := fun r' listed same =>
        distinct.1 (List.mem_map.mpr ⟨r', listed, same.trans here.symm⟩)
      have unlisted : ¬ ∃ r' ∈ rest, r'.id = id ∧ r'.distance = distance := by
        rintro ⟨r', listed, same, -⟩
        exact others r' listed same
      rw [if_pos (Nat.compare_eq_eq.mpr here)]
      simpa [here, unlisted] using fun (_ : r.distance = distance) => others
    · rw [if_neg fun equal => here (Nat.compare_eq_eq.mp equal)]
      simp [here]

def Frame.distances : Frame where
  Related m m' := m'.distances = m.distances
  refl _ := rfl
  trans first second := second.trans first
  store _ _ _ := rfl
  print _ _ := rfl
  clock _ _ := rfl
  within _ _ _ same := same
  deeper _ _ same := same

theorem Frame.placeless_distances : Frame.distances.Placeless := ⟨fun _ _ => rfl, fun _ => rfl⟩

namespace Activity

variable {a b : Activity} {m : Machine}

theorem During.distances (during : a.During b) : b.machine.distances = a.machine.distances :=
  Frame.placeless_distances.during during

theorem Passes.distances (passes : a.Passes m) : m.distances = a.machine.distances := by
  cases passes with
  | begins during => exact during.distances
  | ends during ended => exact (Frame.distances.machine?_related ended).trans during.distances
  | @called n callee paren arguments x xs m m₁ m₂ during first given fits shallow =>
    have callee := (Expr.evaluate_keeps (Closure.invoke_keeps n) callee : Run.Keeps .distances _).of_value first
    have values := (Expr.evaluateAll_keeps (Closure.invoke_keeps n) arguments : Run.Keeps .distances _).of_value given
    exact values.trans (callee.trans during.distances)

end Activity

def Machine.RememberedBy (m m' : Machine) : Prop :=
  ∀ (id : NodeId) (distance : Nat), m.distances[id]? = some distance → m'.distances[id]? = some distance

namespace Session

variable {s s' s'' ready : Session} {source : String} {program : List Stmt} {fuel : Nat}

def recorded (s : Session) (source : String) : List Scope.Reference :=
  let (program, s) := (s.scan source).2.parse (s.scan source).1
  if s.flags.static then [] else (Scope.resolve program).references

structure Records (s s' : Session) (references : List Scope.Reference) : Prop where
  distances : s'.machine.distances = Scope.noteAll references s.machine.distances
  numbered : Numbered s.nextId s'.nextId (references.map Scope.Reference.id)
  nextId : s.nextId ≤ s'.nextId

namespace Records

variable {first second : List Scope.Reference}

theorem nothing (distances : s'.machine.distances = s.machine.distances) (nextId : s.nextId ≤ s'.nextId) :
    s.Records s' [] := ⟨distances, .nil .., nextId⟩

theorem append (before : s.Records s' first) (behind : s'.Records s'' second) : s.Records s'' (first ++ second) := by
  refine ⟨?_, ?_, Nat.le_trans before.nextId behind.nextId⟩
  · rw [behind.distances, before.distances, Scope.noteAll, Scope.noteAll, Scope.noteAll, List.foldl_append]
  · rw [List.map_append]
    exact before.numbered.append behind.numbered before.nextId behind.nextId

end Records

theorem Records.distances_iff {readings : Nat → Number} {log : List Scope.Reference}
    (records : (Session.start readings).Records s log) (id : NodeId) (distance : Nat) :
    s.machine.distances[id]? = some distance ↔ ∃ r ∈ log, r.id = id ∧ r.distance = distance := by
  have nothing : (Session.start readings).machine.distances[id]? = none := Std.TreeMap.getElem?_emptyc
  rw [records.distances, Scope.noteAll_eq_some_iff records.numbered.distinct, nothing]
  simp

theorem Records.remembers {readings : Nat → Number} {log later : List Scope.Reference}
    (before : (Session.start readings).Records s log) (behind : s.Records s' later) : s.machine.RememberedBy s'.machine := by
  intro id distance found
  obtain ⟨r, listed, rfl, -⟩ := (before.distances_iff id distance).mp found
  have old := (before.numbered.within r.id (List.mem_map_of_mem listed)).2
  rw [behind.distances, Scope.noteAll_other, found]
  intro r' listed' same
  have new := (behind.numbered.within r'.id (List.mem_map_of_mem listed')).1
  exact absurd (same ▸ new) (Nat.not_le.mpr old)

theorem resolve_records (s : Session) (source : String) :
    s.Records (((s.scan source).2.parse (s.scan source).1).2.resolve ((s.scan source).2.parse (s.scan source).1).1)
      (Scope.resolve ((s.scan source).2.parse (s.scan source).1).1).references := by
  obtain ⟨⟨lines, machine⟩, -, nextId⟩ := s.resolve_prepares source
  refine ⟨by rw [machine], ?_, nextId⟩
  obtain ⟨lines, flags, parsed⟩ := s.parse_scan source
  rw [parsed, resolve_nextId]
  exact Scope.resolve_numbered (parseProgram_numbered ..)

theorem interpret_distances (ran : s.interpret fuel program = some s') :
    s'.machine.distances = s.machine.distances ∧ s'.nextId = s.nextId := by
  have keeps : (Run.program fuel program).Keeps .distances := Run.keeps_program fuel program
  unfold interpret at ran
  split at ran
  · rename_i done
    cases ran
    exact ⟨keeps.of_value done, rfl⟩
  · rename_i failed
    cases ran
    have same : _ = s.machine.distances := keeps.of_fault failed
    exact ⟨same, rfl⟩
  · cases ran

theorem recorded_records (s : Session) (source : String) : ∃ s', s.Records s' (s.recorded source) := by
  have records := s.resolve_records source
  unfold recorded
  dsimp only
  split
  · exact ⟨s, .nothing rfl (Nat.le_refl _)⟩
  · exact ⟨_, records⟩

theorem accept?_records (accepted : s.accept? source = some (program, ready)) : s.Records ready (s.recorded source) := by
  have records := s.resolve_records source
  unfold accept? at accepted
  unfold recorded
  dsimp only at accepted ⊢
  split at accepted
  · cases accepted
  · rename_i read
    rw [if_neg read]
    split at accepted
    · cases accepted
    · cases accepted
      exact records

theorem run_records (ran : s.run fuel source = some s') : s.Records s' (s.recorded source) := by
  have records := s.resolve_records source
  unfold run at ran
  unfold recorded
  dsimp only at ran ⊢
  split at ran
  · rename_i misread
    rw [if_pos misread]
    obtain ⟨lines, flags, parsed⟩ := s.parse_scan source
    rw [parsed] at ran
    cases ran
    exact .nothing rfl (parseProgram_nextId_le ..)
  · rename_i read
    rw [if_neg read]
    split at ran
    · cases ran
      exact records
    · obtain ⟨distances, nextId⟩ := interpret_distances ran
      exact ⟨distances.trans records.distances, nextId ▸ records.numbered, nextId ▸ records.nextId⟩

/-- The session comes to another by runs, resets and taking lines away; these references are recorded on the way. -/
inductive Recording (s : Session) : List Scope.Reference → Session → Prop where
  | start : Recording s [] s
  | reset {s' : Session} {log : List Scope.Reference} (past : Recording s log s') : Recording s log s'.resetErrors
  | takeLines {s' : Session} {log : List Scope.Reference} (past : Recording s log s') : Recording s log s'.takeLines.2
  | ran {s' s'' : Session} {log : List Scope.Reference} {source : String} {fuel : Nat} (past : Recording s log s')
      (ran : s'.run fuel source = some s'') : Recording s (log ++ s'.recorded source) s''

theorem Recording.records {log : List Scope.Reference} (recording : s.Recording log s') : s.Records s' log := by
  induction recording with
  | start => exact .nothing rfl (Nat.le_refl _)
  | reset _ ih | takeLines _ ih => exact ⟨ih.distances, ih.numbered, ih.nextId⟩
  | ran _ ran ih => exact ih.append (run_records ran)

/-- Parses with one counter give all nodes different numbers. So each number is recorded once in a session, with its
    distance, and whatever is run later, for however long, leaves the distance as it is. -/
theorem distances_recorded_once :
    (∀ parses first, ((Parse.readAll parses first).flatMap Tree.ids).Nodup) ∧
    ∀ (readings : Nat → Number) (s s' : Session) (log later : List Scope.Reference),
      Recording (.start readings) log s → Recording s later s' →
      ((log ++ later).map Scope.Reference.id).Nodup ∧
      (∀ (id : NodeId) (distance : Nat), s.machine.distances[id]? = some distance ↔
        ∃ r ∈ log, r.id = id ∧ r.distance = distance) ∧
      s.machine.RememberedBy s'.machine ∧
      ∀ source, ((log ++ later ++ s'.recorded source).map Scope.Reference.id).Nodup ∧
        ∀ fuel program ready m, s'.accept? source = some (program, ready) →
          Activity.Passes ⟨fuel, .program program, ready.machine⟩ m → s.machine.RememberedBy m := by
  refine ⟨fun parses first => (Parse.readAll_ids parses first).1, fun readings s s' log later past on => ?_⟩
  have before := past.records
  have both := before.append on.records
  refine ⟨both.numbered.distinct, before.distances_iff, before.remembers on.records, fun source => ⟨?_, ?_⟩⟩
  · obtain ⟨next, records⟩ := s'.recorded_records source
    exact (both.append records).numbered.distinct
  · intro fuel program ready m accepted passes id distance found
    rw [passes.distances]
    exact before.remembers (on.records.append (accept?_records accepted)) id distance found

/-- A function with a reference in its body, and a text that is refused when its references are recorded already. -/
theorem distances_recorded_once_refused : ∃ (s s' : Session) (log later : List Scope.Reference),
    Recording (.start fun _ => .zero) log s ∧ Recording s later s' ∧ s'.flags.static = true ∧
    (log ++ later).map Scope.Reference.id = [0, 1] ∧ ((log ++ later).map Scope.Reference.id).Nodup ∧
    s.machine.RememberedBy s'.machine := by
  let start : Session := .start fun _ => .zero
  let first := "fun f(x)\x7bx;\x7d"
  let second := "\x7bvar a;\x7ba;\x7dvar a;\x7d"
  have computed : ((start.run 1 first).bind fun s => (s.run 1 second).map fun s' =>
      (s'.flags.static, (start.recorded first ++ s.recorded second).map Scope.Reference.id)) = some (true, [0, 1]) := by cbv
  obtain ⟨s, ran, rest⟩ := Option.bind_eq_some_iff.mp computed
  obtain ⟨s', again, facts⟩ := Option.map_eq_some_iff.mp rest
  obtain ⟨refused, ids⟩ := Prod.mk.inj facts
  have past : Recording start (start.recorded first) s := .ran .start ran
  have on : Recording s (s.recorded second) s' := .ran .start again
  obtain ⟨-, recorded⟩ := distances_recorded_once
  obtain ⟨distinct, -, remembered, -⟩ := recorded _ s s' _ _ past on
  exact ⟨s, s', _, _, past, on, refused, ids, distinct, remembered⟩

end Session
end Lox
