import Lox.Proofs.Session.History

namespace Lox.Session

inductive Step where
  | run (source : String)
  | reset
deriving DecidableEq

def step (fuel : Nat) (s : Session) : Step → Option Session
  | .run source => s.run fuel source
  | .reset => some s.resetErrors

def steps (fuel : Nat) : List Step → Session → Option Session
  | [], s => some s
  | next :: rest, s => (s.step fuel next).bind (steps fuel rest)

structure Record where
  lines : List Line
  flags : Flags
deriving DecidableEq

def transcript (fuel : Nat) : List Step → Session → List Record
  | [], _ => []
  | next :: rest, s =>
    match s.takeLines.2.step fuel next with
    | none => []
    | some s' => ⟨s'.takeLines.1, s'.flags⟩ :: transcript fuel rest s'

/-- At some moment, these steps are on record and the one under way has written these lines. -/
inductive Shows (fuel : Nat) : List Step → Session → List Record → Array Line → Prop where
  | now {s ready : Session} {source : String} {rest : List Step} {program : List Stmt} {lines : Array Line}
      (accepted : s.takeLines.2.accept? source = some (program, ready))
      (shows : Activity.Shows ⟨fuel, .program program, ready.machine⟩ lines) :
      Shows fuel (.run source :: rest) s [] lines
  | later {s s' : Session} {next : Step} {rest : List Step} {records : List Record} {lines : Array Line}
      (done : s.takeLines.2.step fuel next = some s') (shows : Shows fuel rest s' records lines) :
      Shows fuel (next :: rest) s (⟨s'.takeLines.1, s'.flags⟩ :: records) lines

theorem run_of_refused {s : Session} {source : String} (refused : s.accept? source = none) :
    ∃ s', ∀ fuel, s.run fuel source = some s' := by
  unfold accept? at refused
  unfold run
  dsimp only at refused ⊢
  split at refused
  · rename_i misread
    exact ⟨_, fun fuel => if_pos misread⟩
  · rename_i read
    split at refused
    · rename_i misused
      exact ⟨_, fun fuel => (if_neg read).trans (if_pos misused)⟩
    · cases refused

theorem History.run {readings : Nat → Number} {s s' : Session} {programs : List (List Stmt)} {fuel : Nat} {source : String}
    (past : s.History readings programs) (ran : s.run fuel source = some s') :
    ∃ programs, s'.History readings programs := by
  cases accepted : s.accept? source with
  | none => exact ⟨_, past.refused accepted ran⟩
  | some result => exact ⟨_, past.accepted accepted ran⟩

end Lox.Session
