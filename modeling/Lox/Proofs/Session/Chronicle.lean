import Lox.Proofs.Machine.Timeline
import Lox.Proofs.Session.History

namespace Lox

open Scope (Visit Visits)

structure Launch where
  fuel : Nat
  program : List Stmt
  machine : Machine

def Launch.activity (launch : Launch) : Activity := ⟨launch.fuel, .program launch.program, launch.machine⟩

def Happened (launches : List Launch) (a : Activity) : Prop := ∃ launch ∈ launches, launch.activity.During a

theorem Happened.spawned {launches : List Launch} {a b : Activity} (happened : Happened launches a) (spawns : a.Spawns b) :
    Happened launches b := by
  obtain ⟨launch, listed, during⟩ := happened
  exact ⟨launch, listed, during.spawned spawns⟩

theorem Happened.earlier {launches : List Launch} {a : Activity} (launch : Launch) (happened : Happened launches a) :
    Happened (launch :: launches) a := by
  obtain ⟨other, listed, during⟩ := happened
  exact ⟨other, List.mem_cons_of_mem _ listed, during⟩

theorem happened_cons {launch : Launch} {launches : List Launch} {a : Activity} :
    Happened (launch :: launches) a ↔ launch.activity.During a ∨ Happened launches a := by
  simp [Happened]

def Defined (launches : List Launch) (f : Closure) : Prop :=
  ∃ n name superclass methods above m m₁, Happened launches ⟨n, .stmt (.class_ name superclass methods), m⟩ ∧
    Run.superclass (Closure.invoke n) name superclass m = .value above m₁ ∧ f.declaration ∈ methods ∧
    f.environment = m₁.methodEnvironment above

def Declared (launches : List Launch) (f : Closure) : Prop :=
  ∃ n m, Happened launches ⟨n, .stmt (.function f.declaration), m⟩ ∧ f.environment = m.environment

def Extended (launches : List Launch) (scope : ScopeId) (c : Class) : Prop :=
  ∃ n name e methods m m₁, Happened launches ⟨n, .stmt (.class_ name (some e) methods), m⟩ ∧
    Run.superclass (Closure.invoke n) name (some e) m = .value (some c) m₁ ∧ scope = m₁.store.scopes.size

/-- What was declared in the runs. A function is declared as such, or it is a method that was bound to an instance. -/
def Made.of (launches : List Launch) : Made where
  function f := Declared launches f ∨
    ∃ scope method, Defined launches method ∧ f.declaration = method.declaration ∧
      f.environment = .child scope method.environment
  method := Defined launches
  superclass := Extended launches

theorem Made.of_earlier (launch : Launch) (launches : List Launch) :
    (Made.of launches).Within (.of (launch :: launches)) := by
  have method {f : Closure} (defined : Defined launches f) : Defined (launch :: launches) f := by
    obtain ⟨n, name, superclass, methods, above, m, m₁, happened, rest⟩ := defined
    exact ⟨n, name, superclass, methods, above, m, m₁, happened.earlier launch, rest⟩
  refine ⟨fun made => ?_, method, fun made => ?_⟩
  · rcases made with ⟨n, m, happened, same⟩ | ⟨scope, f, defined, rest⟩
    · exact .inl ⟨n, m, happened.earlier launch, same⟩
    · exact .inr ⟨scope, f, method defined, rest⟩
  · obtain ⟨n, name, e, methods, m, m₁, happened, rest⟩ := made
    exact ⟨n, name, e, methods, m, m₁, happened.earlier launch, rest⟩

/-- What an activity finds when it begins was made in the runs. -/
structure Activity.Recorded (launches : List Launch) (a : Activity) : Prop where
  inside : ∀ s, a.task = .stmt s → a.machine.environment.scope < a.machine.store.scopes.size
  invoked : ∀ f xs, a.task = .invoke f xs → (Made.of launches).function f
  supers : ∀ scope c, a.machine.store.lookup? scope "super" = some (.class_ c) → Extended launches scope c

theorem Activity.Recorded.within {launches launches' : List Launch} {a : Activity} (recorded : a.Recorded launches)
    (within : (Made.of launches).Within (.of launches')) : a.Recorded launches' :=
  ⟨recorded.inside, fun f xs task => within.function (recorded.invoked f xs task),
    fun scope c found => within.superclass (recorded.supers scope c found)⟩

theorem Activity.Sound.recorded {world : Setting} {launches : List Launch} {a : Activity} (sound : a.Sound world)
    (made : world.made = .of launches) : a.Recorded launches := by
  refine ⟨fun s task => ?_, fun f xs task => ?_, fun scope c found => ?_⟩
  · have behind := sound.2
    rw [task] at behind
    obtain ⟨context, w, -, fit⟩ := behind
    exact sound.1.scope_inside fit
  · have behind := sound.2
    rw [task] at behind
    obtain ⟨⟨context, w, -, -, -, function⟩, -⟩ := behind
    exact made ▸ function
  · have extended := sound.1.store.supers scope c found
    rw [made] at extended
    exact extended

structure Coherent (globals : Environment) (launches : List Launch) : Prop where
  placed : ∀ launch ∈ launches, launch.machine.environment = globals
  recorded : ∀ a, Happened launches a → a.Recorded launches
  apart : ∀ a b, Happened launches a → Happened launches b → a.During b ∨ b.During a ∨ a.EndsBy b.begins ∨ b.EndsBy a.begins

theorem Coherent.cons {globals : Environment} {launch : Launch} {launches : List Launch}
    (coherent : Coherent globals launches)
    (ended : ∀ a, Happened launches a → a.EndsBy launch.activity.begins) (here : launch.machine.environment = globals)
    (recorded : ∀ a, launch.activity.During a → a.Recorded (launch :: launches)) :
    Coherent globals (launch :: launches) := by
  refine ⟨List.forall_mem_cons.mpr ⟨here, coherent.placed⟩, fun a happened => ?_, fun a b first second => ?_⟩
  · rcases happened_cons.mp happened with during | earlier
    · exact recorded a during
    · exact (coherent.recorded a earlier).within (Made.of_earlier launch launches)
  · rcases happened_cons.mp first with during | earlier <;> rcases happened_cons.mp second with during' | earlier'
    · exact during.apart during'
    · exact .inr (.inr (.inr ((ended b earlier').mono during.begins_le)))
    · exact .inr (.inr (.inl ((ended a earlier).mono during'.begins_le)))
    · exact coherent.apart a b earlier earlier'

namespace Session

/-- A session, and the runs of the programs it has accepted so far, the latest first. -/
inductive Chronicle (readings : Nat → Number) : Session → List Launch → Prop where
  | start : Chronicle readings (.start readings) []
  | reset {s : Session} {launches : List Launch} (past : Chronicle readings s launches) :
      Chronicle readings s.resetErrors launches
  | takeLines {s : Session} {launches : List Launch} (past : Chronicle readings s launches) :
      Chronicle readings s.takeLines.2 launches
  | refused {s s' : Session} {launches : List Launch} {source : String} {fuel : Nat} (past : Chronicle readings s launches)
      (refused : s.accept? source = none) (ran : s.run fuel source = some s') : Chronicle readings s' launches
  | accepted {s s' ready : Session} {launches : List Launch} {program : List Stmt} {source : String} {fuel : Nat}
      (past : Chronicle readings s launches) (accepted : s.accept? source = some (program, ready))
      (ran : s.run fuel source = some s') : Chronicle readings s' (⟨fuel, program, ready.machine⟩ :: launches)

variable {readings : Nat → Number} {s s' ready : Session} {launches : List Launch} {source : String} {program : List Stmt}

theorem Chronicle.history (past : Chronicle readings s launches) : History readings s (launches.map Launch.program) := by
  induction past with
  | start => exact .start
  | reset _ ih => exact ih.reset
  | takeLines _ ih => exact ih.takeLines
  | refused _ refused ran ih => exact ih.refused refused ran
  | accepted _ accepted ran ih => exact ih.accepted accepted ran

structure Logged (s : Session) (launches : List Launch) : Prop where
  coherent : Coherent s.machine.globals launches
  ended : ∀ a, Happened launches a → a.EndsBy s.machine.store.scopes.size
  store : ∀ world : Setting, (∀ launch ∈ launches, ∀ v, Visits launch.program v → world.known v) →
    world.globals = s.machine.globals → (Made.of launches).Within world.made → s.machine.store.Sound world

def Consistent.logSetting {programs : List (List Stmt)} (consistent : s.Consistent programs) (launches : List Launch) :
    Setting where
  known v := ∃ program ∈ programs, Visits program v
  globals := s.machine.globals
  distances := s.machine.distances
  active := Happened launches
  enters := @enter_listed programs
  resolved := @consistent.resolved_listed
  spawns := .spawned
  made := .of launches
  declares happened := .inl ⟨_, _, happened, rfl⟩
  defines := by
    intro n name superclass methods above m m₁ happened evaluated
    refine ⟨fun d listed => ⟨n, name, superclass, methods, above, m, m₁, happened, evaluated, listed, rfl⟩, ?_⟩
    rintro c rfl
    cases superclass with
    | none => cases evaluated
    | some e => exact ⟨n, name, e, methods, m, m₁, happened, evaluated, rfl⟩
  binds scope defined := .inr ⟨scope, _, defined, rfl, rfl⟩

namespace Logged

theorem start (readings : Nat → Number) : Logged (.start readings) [] := by
  have nothing (a : Activity) : ¬Happened [] a := by simp [Happened]
  refine ⟨⟨by simp, fun a happened => absurd happened (nothing a), fun a _ happened => absurd happened (nothing a)⟩,
    fun a happened => absurd happened (nothing a), fun world _ _ _ => start_sound readings world⟩

theorem unchanged (logged : s.Logged launches) (globals : s'.machine.globals = s.machine.globals)
    (store : s'.machine.store = s.machine.store) : s'.Logged launches := by
  refine ⟨globals ▸ logged.coherent, fun a happened => store ▸ logged.ended a happened, fun world known same within => ?_⟩
  rw [store]
  exact logged.store world known (same.trans globals) within

theorem machine_sound {fuel : Nat} (logged : s.Logged launches)
    (consistent : s.Consistent (program :: launches.map Launch.program)) :
    s.machine.Sound (consistent.logSetting (⟨fuel, program, s.machine⟩ :: launches)) := by
  refine ⟨rfl, rfl, consistent.root, logged.store _ (fun launch listed v visited => ?_) rfl (Made.of_earlier _ launches)⟩
  exact ⟨launch.program, List.mem_cons_of_mem _ (List.mem_map_of_mem listed), visited⟩

theorem launch (logged : s.Logged launches) (consistent : s.Consistent (program :: launches.map Launch.program))
    (fuel : Nat) : Coherent s.machine.globals (⟨fuel, program, s.machine⟩ :: launches) := by
  refine logged.coherent.cons logged.ended consistent.environment fun a during => ?_
  have sound : Activity.Sound (consistent.logSetting (⟨fuel, program, s.machine⟩ :: launches))
      ⟨fuel, .program program, s.machine⟩ :=
    ⟨logged.machine_sound consistent, _, _, ⟨program, List.mem_cons_self .., .start⟩, rfl, consistent.environment⟩
  have begun : Happened (⟨fuel, program, s.machine⟩ :: launches) ⟨fuel, .program program, s.machine⟩ :=
    ⟨_, List.mem_cons_self .., .start⟩
  exact (during.sound begun sound).2.recorded rfl

theorem interpret {fuel : Nat} (logged : s.Logged launches)
    (consistent : s.Consistent (program :: launches.map Launch.program)) (ran : s.interpret fuel program = some s') :
    s'.Logged (⟨fuel, program, s.machine⟩ :: launches) := by
  -- however the run ends, it ends with a machine that is sound in the setting of the runs so far and this one
  obtain ⟨m, ended, globals, store, sound⟩ : ∃ m, Activity.machine? ⟨fuel, .program program, s.machine⟩ = some m ∧
      s'.machine.globals = s.machine.globals ∧ s'.machine.store = m.store ∧
      m.store.Sound (consistent.logSetting (⟨fuel, program, s.machine⟩ :: launches)) := by
    have begun : Happened (⟨fuel, program, s.machine⟩ :: launches) ⟨fuel, .program program, s.machine⟩ :=
      ⟨_, List.mem_cons_self .., .start⟩
    have visited : (consistent.logSetting (⟨fuel, program, s.machine⟩ :: launches)).known ⟨.top, .stmts program, .start⟩ :=
      ⟨program, List.mem_cons_self .., .start⟩
    have ensures := Run.program_ensures program visited rfl begun (logged.machine_sound consistent) consistent.environment
    unfold Session.interpret at ran
    split at ran
    · rename_i done
      cases ran
      obtain ⟨-, sound, -⟩ := ensures.of_value done
      exact ⟨_, by simp only [Activity.machine?, done, Outcome.machine?], sound.globals, rfl, sound.store⟩
    · rename_i fault m failed
      cases ran
      obtain ⟨-, sound, -⟩ := ensures.of_fault failed
      exact ⟨m, by simp only [Activity.machine?, failed, Outcome.machine?], sound.globals, rfl, sound.store⟩
    · cases ran
  have behind : Activity.EndsBy ⟨fuel, .program program, s.machine⟩ m.store.scopes.size := ⟨m, ended, Nat.le_refl _⟩
  refine ⟨globals ▸ logged.launch consistent fuel, fun a happened => ?_, fun world known same within => ?_⟩
  · rw [store]
    rcases happened_cons.mp happened with during | earlier
    · exact during.endsBy behind
    · exact (logged.ended a earlier).mono behind.begins_le
  · rw [store]
    refine sound.transfer ⟨fun v visits => ?_, same.trans globals, within⟩
    obtain ⟨p, listed, visited⟩ := visits
    obtain ⟨launch, member, rfl⟩ :
        ∃ launch ∈ (⟨fuel, program, s.machine⟩ :: launches : List Launch), launch.program = p := by
      rcases List.mem_cons.mp listed with rfl | earlier
      · exact ⟨_, List.mem_cons_self .., rfl⟩
      · obtain ⟨launch, member, same⟩ := List.mem_map.mp earlier
        exact ⟨launch, List.mem_cons_of_mem _ member, same⟩
    exact known launch member v visited

end Logged

theorem Prepares.globals {references : List Scope.Reference} (prepares : s.Prepares s' references) :
    s'.machine.globals = s.machine.globals := by
  obtain ⟨⟨lines, machine⟩, -, -⟩ := prepares
  rw [machine]

theorem Prepares.store {references : List Scope.Reference} (prepares : s.Prepares s' references) :
    s'.machine.store = s.machine.store := by
  obtain ⟨⟨lines, machine⟩, -, -⟩ := prepares
  rw [machine]

theorem Chronicle.logged (past : Chronicle readings s launches) : s.Logged launches := by
  induction past with
  | start => exact .start readings
  | reset _ ih | takeLines _ ih => exact ih.unchanged rfl rfl
  | refused _ refused ran ih =>
    obtain ⟨references, prepares⟩ := run_refused refused ran
    exact ih.unchanged prepares.globals prepares.store
  | accepted past accepted ran ih =>
    rw [run_accepted accepted] at ran
    have prepares := (accept?_eq_some accepted).1
    exact (ih.unchanged prepares.globals prepares.store).interpret (past.history.consistent.accept accepted) ran

theorem Chronicle.launch (past : Chronicle readings s launches) (accepted : s.accept? source = some (program, ready))
    (fuel : Nat) : Coherent ready.machine.globals (⟨fuel, program, ready.machine⟩ :: launches) := by
  have prepares := (accept?_eq_some accepted).1
  exact (past.logged.unchanged prepares.globals prepares.store).launch (past.history.consistent.accept accepted) fuel

end Session
end Lox
