import Mathlib
import Lox.Proofs.Session.Refused

namespace Lox

/-- From one machine to the other, lines have been printed and nothing else has been written. -/
def Machine.Prints (m m' : Machine) : Prop :=
  ∃ printed : List String, m'.lines.toList = m.lines.toList ++ printed.map .out

namespace Machine.Prints

variable {m m' m'' : Machine}

theorem refl (m : Machine) : m.Prints m := ⟨[], (List.append_nil _).symm⟩

theorem trans (first : m.Prints m') (second : m'.Prints m'') : m.Prints m'' := by
  obtain ⟨printed, lines⟩ := first
  obtain ⟨others, lines'⟩ := second
  exact ⟨printed ++ others, by rw [lines', lines, List.map_append, List.append_assoc]⟩

theorem print (m : Machine) (text : String) : m.Prints (m.write (.out text)) := ⟨[text], by simp [Machine.write]⟩

end Machine.Prints

def Frame.printing : Frame where
  Related := Machine.Prints
  refl := .refl
  trans := .trans
  store m _ _ := .refl m
  print := .print
  clock m _ := .refl m
  within _ _ _ prints := prints
  deeper _ _ prints := prints

theorem Frame.placeless_printing : Frame.printing.Placeless := ⟨fun m _ => .refl m, fun m => .refl m⟩

theorem Activity.Shows.printed {a : Activity} {lines : Array Line} (shows : a.Shows lines) :
    ∃ printed : List String, lines.toList = a.machine.lines.toList ++ printed.map .out := by
  obtain ⟨b, during, rfl⟩ := shows
  exact Frame.placeless_printing.during during

namespace Session

variable {s s' ready : Session} {source : String} {program : List Stmt} {fuel : Nat}

theorem interpret_output (ran : s.interpret fuel program = some s') :
    ∃ (printed : List String) (fault? : Option Fault),
      s'.machine.lines.toList =
        s.machine.lines.toList ++ printed.map .out ++ fault?.toList.map (fun fault => .error fault.message) ∧
      (∀ fault, fault? = some fault ↔ ∃ m, Run.program fuel program s.machine = .fault fault m) ∧
      s'.flags = { s.flags with runtime := s.flags.runtime || fault?.isSome } := by
  have keeps : (Run.program fuel program).Keeps .printing := Run.keeps_program fuel program
  unfold interpret at ran
  split at ran
  · rename_i m done
    cases ran
    obtain ⟨printed, lines⟩ := keeps.of_value done
    refine ⟨printed, none, ?_, ?_, ?_⟩
    · simpa using lines
    · simp [done]
    · simp
  · rename_i fault m failed
    cases ran
    obtain ⟨printed, lines⟩ := keeps.of_fault failed
    refine ⟨printed, some fault, ?_, ?_, ?_⟩
    · simp [report, Machine.write, lines, Diagnostic.message]
    · simp [failed]
    · simp [report, Flags.note]
  · cases ran

theorem lines_of_accept (accepted : s.accept? source = some (program, ready)) :
    s.flags.static = false ∧ s.staticErrors source = [] ∧ ready.machine.lines = s.machine.lines ∧ ready.flags = s.flags := by
  obtain ⟨complains, quiet⟩ := complains_of_accept accepted
  have flags := complains.flags
  rw [List.isEmpty_map] at flags
  rw [flags, Bool.or_eq_false_iff] at quiet
  obtain ⟨before, errors⟩ := quiet
  have none : s.staticErrors source = [] := by simpa using errors
  refine ⟨before, none, ?_, ?_⟩
  · have lines := complains.lines
    rw [none, List.map_nil, List.map_nil, List.append_nil] at lines
    exact Array.toList_inj.mp lines
  · rw [flags, none]
    simp

/-- Either the flag for errors is set before anything is run, and there is one message for each error of the text, in the
    order of the stages; or the text is run, and it prints lines, with one message behind them if a fault ends the run.
    While it runs, and also if it never ends, nothing but printed lines is added. Lines written before stay as they were. -/
theorem run_output (s : Session) (source : String) :
    ((s.flags.static = true ∨ s.staticErrors source ≠ []) ∧
      ∃ s', (∀ fuel, s.run fuel source = some s') ∧
        s'.machine.lines.toList = s.machine.lines.toList ++ (s.staticErrors source).map (fun d => .error d.message) ∧
        s'.flags = { s.flags with static := true }) ∨
    (s.flags.static = false ∧ s.staticErrors source = [] ∧
      ∃ program ready, s.accept? source = some (program, ready) ∧ ∀ fuel,
        (∀ lines, Activity.Shows ⟨fuel, .program program, ready.machine⟩ lines →
          ∃ printed : List String, lines.toList = s.machine.lines.toList ++ printed.map .out) ∧
        ∀ s', s.run fuel source = some s' → ∃ (printed : List String) (fault? : Option Fault),
          s'.machine.lines.toList =
            s.machine.lines.toList ++ printed.map .out ++ fault?.toList.map (fun fault => .error fault.message) ∧
          (∀ fault, fault? = some fault ↔ ∃ m, Run.program fuel program ready.machine = .fault fault m) ∧
          s'.flags = { s.flags with runtime := s.flags.runtime || fault?.isSome }) := by
  cases accepted : s.accept? source with
  | none =>
    obtain ⟨s', ran⟩ := run_of_refused accepted
    obtain ⟨complains, static⟩ := complains_of_run accepted (ran 0)
    have flags := complains.flags
    rw [List.isEmpty_map] at flags
    have set : (s.flags.static || !(s.staticErrors source).isEmpty) = true := by rwa [flags] at static
    left
    refine ⟨?_, s', ran, ?_, ?_⟩
    · simpa using set
    · rw [complains.lines, List.map_map]
      rfl
    · rw [flags, set]
  | some result =>
    obtain ⟨program, ready⟩ := result
    obtain ⟨quiet, none, lines, flags⟩ := lines_of_accept accepted
    right
    refine ⟨quiet, none, program, ready, rfl, fun fuel => ⟨fun shown shows => ?_, fun s' ran => ?_⟩⟩
    · rw [← lines]
      exact shows.printed
    · rw [run_accepted accepted] at ran
      rw [← lines, ← flags]
      exact interpret_output ran

/-- A line stands there already; the fault comes between two statements that print. -/
theorem run_output_fault :
    ∃ (s s' : Session) (printed : List String) (fault : Fault), s.machine.lines.toList = [.error "old"] ∧
      s.run 1 "print nil; -nil; print nil;" = some s' ∧
      s'.machine.lines.toList = [.error "old"] ++ printed.map .out ++ [.error fault.message] ∧ printed = ["nil"] ∧
      s'.flags = ⟨false, true⟩ := by
  let machine := (Machine.start fun _ => .zero).write (.error "old")
  let minus : Token := ⟨.minus, "-", none, 1⟩
  let program : List Stmt :=
    [.print_ (.constant .nil), .expression (.unary minus (.constant .nil)), .print_ (.constant .nil)]
  have accepted : (⟨machine, .clear, 0⟩ : Session).accept? "print nil; -nil; print nil;" =
      some (program, ⟨machine, .clear, 0⟩) := by cbv
  have failed : Run.program 1 program machine = .fault (.typeMismatch minus .number) (machine.write (.out "nil")) := by cbv
  have ran : (⟨machine, .clear, 0⟩ : Session).run 1 "print nil; -nil; print nil;" =
      some (Session.report ⟨machine.write (.out "nil"), .clear, 0⟩ (.runtime (.typeMismatch minus .number))) := by
    rw [run_accepted accepted, interpret, failed]
  rcases run_output ⟨machine, .clear, 0⟩ "print nil; -nil; print nil;" with
    ⟨-, s', refused, -, set⟩ | ⟨-, -, program', ready', accepted', runs⟩
  · cases ran.symm.trans (refused 1)
    cases set
  · cases accepted.symm.trans accepted'
    obtain ⟨printed, fault?, written, ends, flags⟩ := (runs 1).2 _ ran
    obtain rfl := (ends _).mpr ⟨_, failed⟩
    refine ⟨_, _, printed, _, rfl, ran, written, ?_, flags⟩
    have whole : [Line.error "old", .out "nil"] ++ [.error (Fault.message (.typeMismatch minus .number))] =
      ([.error "old"] ++ printed.map .out) ++ [.error (Fault.message (.typeMismatch minus .number))] := written
    have front := List.append_cancel_right whole
    have same : ["nil"].map Line.out = printed.map .out := (List.cons.inj front).2
    exact (List.map_injective_iff.mpr (fun _ _ => Line.out.inj) same).symm

end Session
end Lox
