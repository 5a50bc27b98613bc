import Lox.Proofs.Machine.AlikeExecution

namespace Lox

section

variable {p : Pairing} {world rs : List Naming}

theorem Environment.Named.symm {environment : Environment} (named : environment.Named world rs) :
    environment.Named (world.map Naming.symm) (rs.map Naming.symm) := by
  induction named with
  | root global => exact .root (by simp [global])
  | child here _ ih => exact .child (by simp [here]) ih

theorem Closure.Alike.symm {f f' : Closure} (alike : f.Alike p world f') :
    f'.Alike p.symm (world.map Naming.symm) f := by
  obtain ⟨rs, named, declared⟩ := alike.declaration
  refine ⟨alike.environment.symm, alike.isInitializer.symm, _, ?_, declared.symm⟩
  rw [alike.environment]
  exact named.symm

theorem Closure.MethodAlike.symm {f f' : Closure} (alike : f.MethodAlike p world f') :
    f'.MethodAlike p.symm (world.map Naming.symm) f := by
  obtain ⟨rs, named, declared⟩ := alike.declaration
  refine ⟨alike.environment.symm, alike.isInitializer.symm, rs.map Naming.symm, ?_, declared.symm⟩
  rw [alike.environment]
  exact named.symm

theorem Class.Alike.symm {c c' : Class} (alike : c.Alike p world c') : c'.Alike p.symm (world.map Naming.symm) c := by
  induction alike with
  | base tables => exact .base fun method => rel_flip (fun _ _ methods => methods.symm) (tables method)
  | derived tables _ ih => exact .derived (fun method => rel_flip (fun _ _ methods => methods.symm) (tables method)) ih

theorem Value.Alike.symm {x x' : Value} (alike : x.Alike p world x') : x'.Alike p.symm (world.map Naming.symm) x := by
  cases alike with
  | function closures => exact .function closures.symm
  | class_ classes => exact .class_ classes.symm
  | instance_ classes => exact .instance_ classes.symm
  | nil => exact .nil
  | bool => exact .bool
  | number => exact .number
  | text => exact .text
  | native => exact .native

theorem Store.Alike.symm {s s' : Store} (stores : s.Alike p world s') : s'.Alike p.symm (world.map Naming.symm) s := by
  refine ⟨?_, stores.size.symm, stores.objects.symm, stores.identity.symm, ?_, ?_⟩
  · rw [List.length_map, stores.length, stores.size]
  · intro scope r here name
    rw [List.getElem?_map, Option.map_eq_some_iff] at here
    obtain ⟨r, here, rfl⟩ := here
    have bound := stores.bound scope r here (r.symm name)
    rw [← r.symm_apply_eq.mp rfl] at bound
    exact rel_flip (fun _ _ values => values.symm) bound
  · exact fun object name => rel_flip (fun _ _ values => values.symm) (stores.fields object name)

theorem Machine.Alike.symm {m m' : Machine} (machines : m.Alike p world rs m') :
    m'.Alike p.symm (world.map Naming.symm) (rs.map Naming.symm) m := by
  refine ⟨machines.globals.symm, ?_, machines.environment.symm, ?_, machines.depth.symm, machines.lines.symm,
    machines.clock.symm, machines.store.symm, machines.agrees.symm⟩
  · rw [machines.globals]
    exact machines.top.symm
  · rw [machines.environment]
    exact machines.named.symm

end

inductive Task.Alike (p : Pairing) (world rs : List Naming) : Task → Task → Prop where
  | expr {e e' : Expr} (exprs : e.Alike p rs e') : Alike p world rs (.expr e) (.expr e')
  | exprs {es es' : List Expr} (exprs : Expr.AllAlike p rs es es') : Alike p world rs (.exprs es) (.exprs es')
  | stmt {s s' : Stmt} (stmts : s.Alike p rs s') : Alike p world rs (.stmt s) (.stmt s')
  | stmts {ss ss' : List Stmt} (stmts : Stmt.AllAlike p rs ss ss') : Alike p world rs (.stmts ss) (.stmts ss')
  | loop {turns : Nat} {condition condition' : Expr} {body body' : Stmt} (head : condition.Alike p rs condition')
      (repeated : body.Alike p rs body') : Alike p world rs (.loop turns condition body) (.loop turns condition' body')
  | invoke {f f' : Closure} {xs xs' : List Value} (closures : f.Alike p world f')
      (given : List.Forall₂ (Value.Alike p world) xs xs') : Alike p world rs (.invoke f xs) (.invoke f' xs')
  | program {ss ss' : List Stmt} (stmts : Stmt.AllAlike p rs ss ss') : Alike p world rs (.program ss) (.program ss')

inductive Activity.Alike (p : Pairing) : Activity → Activity → Prop where
  | mk {world rs : List Naming} {fuel : Nat} {task task' : Task} {m m' : Machine} (machines : m.Alike p world rs m')
      (tasks : Task.Alike p world rs task task') : Alike p ⟨fuel, task, m⟩ ⟨fuel, task', m'⟩

section

variable {p : Pairing} {world rs : List Naming} {m m' : Machine}

theorem Activity.Alike.lines {a a' : Activity} (alike : a.Alike p a') : a'.machine.lines = a.machine.lines := by
  cases alike with
  | mk machines tasks => exact machines.lines

theorem Task.Alike.symm {task task' : Task} (alike : Task.Alike p world rs task task') :
    Task.Alike p.symm (world.map Naming.symm) (rs.map Naming.symm) task' task := by
  cases alike with
  | expr exprs => exact .expr exprs.symm
  | exprs exprs => exact .exprs exprs.symm
  | stmt stmts => exact .stmt stmts.symm
  | stmts stmts => exact .stmts stmts.symm
  | loop head repeated => exact .loop head.symm repeated.symm
  | invoke closures given => exact .invoke closures.symm (given.flip.imp fun _ _ values => values.symm)
  | program stmts => exact .program stmts.symm

theorem Activity.Alike.symm {a a' : Activity} (alike : a.Alike p a') : a'.Alike p.symm a := by
  cases alike with
  | mk machines tasks => exact .mk machines.symm tasks.symm

theorem Machine.Alike.inside (machines : m.Alike p world rs m') (r : Naming) :
    (m.inside m.environment).Alike p (world ++ [r]) (r :: rs) (m'.inside m'.environment) := by
  have stores := machines.store.childOf r m.environment
  have named := machines.store.childOf_named r machines.named
  unfold Machine.inside
  rw [machines.environment, machines.store.childOf_eq]
  exact (machines.withStore (List.prefix_append _ _) stores).within named

theorem Machine.Alike.entered {f f' : Closure} {xs xs' : List Value} (machines : m.Alike p world rs m')
    (closures : f.Alike p world f') (given : List.Forall₂ (Value.Alike p world) xs xs') :
    ∃ world₁ rs', (m.entered f xs).Alike p world₁ rs' (m'.entered f' xs') ∧
      Stmt.AllAlike p rs' f.declaration.body f'.declaration.body := by
  obtain ⟨r, rs', same, named, stores, stated⟩ := machines.store.enter closures given
  refine ⟨world ++ [r], r :: rs', ?_, stated⟩
  unfold Machine.entered
  rw [same]
  exact (machines.withStore (List.prefix_append _ _) stores).within named

theorem Value.Calls.alike {x x' : Value} {xs xs' : List Value} {f : Closure} {m₁ : Machine} (calls : x.Calls xs m f m₁)
    (values : x.Alike p world x') (given : List.Forall₂ (Value.Alike p world) xs xs') (machines : m.Alike p world rs m') :
    ∃ world₁ f' m₁', x'.Calls xs' m' f' m₁' ∧ world <+: world₁ ∧ f.Alike p world₁ f' ∧ m₁.Alike p world₁ rs m₁' := by
  cases calls with
  | function fits shallow =>
    cases values with
    | function closures =>
      refine ⟨world, _, _, .function ?_ ?_, List.prefix_refl _, closures, machines.deepened⟩
      · rw [← given.length_eq, closures.arity, fits]
      · rw [machines.depth]
        exact shallow
  | @class_ c initializer _ _ fits shallow found =>
    cases values with
    | @class_ _ c' classes =>
      have methods := classes.findMethod initializerName
      rw [show c.findMethod? initializerName = some initializer from found] at methods
      cases found' : c'.findMethod? initializerName with
      | none =>
        rw [found'] at methods
        cases methods
      | some initializer' =>
        rw [found'] at methods
        cases methods with
        | some methods =>
          obtain ⟨closures, stores⟩ := machines.store.construct methods classes
          have grown : world <+: world ++ [.id] := List.prefix_append _ _
          refine ⟨world ++ [.id], _, _, .class_ ?_ ?_ found', grown, closures, machines.deepened.withStore grown stores⟩
          · rw [← given.length_eq, classes.arity, fits]
          · rw [machines.depth]
            exact shallow

end

section

variable {p : Pairing} {world rs : List Naming} {m m' m₁ : Machine} {n : Nat}

theorem Expr.Alike.of_value {e e' : Expr} {x : Value} (exprs : e.Alike p rs e') (machines : m.Alike p world rs m')
    (done : e.evaluate (Closure.invoke n) m = .value x m₁) :
    ∃ world₁ x' m₁', e'.evaluate (Closure.invoke n) m' = .value x' m₁' ∧ world <+: world₁ ∧ m₁.Alike p world₁ rs m₁' ∧
      x.Alike p world₁ x' :=
  (Expr.evaluate_alike (Closure.invoke_alike n) exprs machines).of_value done

theorem Stmt.Alike.of_value {s s' : Stmt} {flow : Flow} (stmts : s.Alike p rs s') (machines : m.Alike p world rs m')
    (done : s.execute n (Closure.invoke n) m = .value flow m₁) :
    ∃ world₁ flow' m₁', s'.execute n (Closure.invoke n) m' = .value flow' m₁' ∧ world <+: world₁ ∧
      m₁.Alike p world₁ rs m₁' ∧ Flow.Alike p world₁ flow flow' :=
  (Stmt.execute_alike (Closure.invoke_alike n) n stmts machines).of_value done

theorem Activity.Spawns.alike {a a' b : Activity} (spawns : a.Spawns b) (alike : a.Alike p a') :
    ∃ b', a'.Spawns b' ∧ b.Alike p b' := by
  obtain ⟨machines, tasks⟩ := alike
  cases spawns with
  | assigned | leftOperand | callee | owner | grouped | leftChoice | setOwner | operand =>
    cases tasks with | expr exprs =>
    cases exprs
    exact ⟨_, by constructor, .mk machines (.expr ‹_›)⟩
  | rightOperand done =>
    cases tasks with | expr exprs => cases exprs with | binary first sign second =>
    obtain ⟨world₁, x', m₁', done', -, machines₁, -⟩ := first.of_value machines done
    exact ⟨_, .rightOperand done', .mk machines₁ (.expr second)⟩
  | arguments done =>
    cases tasks with | expr exprs => cases exprs with | call called closing given =>
    obtain ⟨world₁, x', m₁', done', -, machines₁, -⟩ := called.of_value machines done
    exact ⟨_, .arguments done', .mk machines₁ (.exprs given)⟩
  | call done evaluated calls =>
    cases tasks with | expr exprs => cases exprs with | call called closing given =>
    obtain ⟨world₁, x', m₁', done', -, machines₁, values⟩ := called.of_value machines done
    obtain ⟨world₂, xs', m₂', evaluated', grown, machines₂, arguments⟩ :=
      (Expr.evaluateAll_alike (Closure.invoke_alike _) given machines₁).of_value evaluated
    obtain ⟨world₃, f', m₃', calls', grown₃, closures, machines₃⟩ := calls.alike (values.grow grown) arguments machines₂
    exact ⟨_, .call done' evaluated' calls', .mk machines₃ (.invoke closures (Value.Alike.growAll arguments grown₃))⟩
  | rightChoice done undecided =>
    cases tasks with | expr exprs => cases exprs with | logical first word second =>
    obtain ⟨world₁, x', m₁', done', -, machines₁, values⟩ := first.of_value machines done
    rw [← isDecided_alike word values] at undecided
    exact ⟨_, .rightChoice done' undecided, .mk machines₁ (.expr second)⟩
  | setValue done =>
    cases tasks with | expr exprs => cases exprs with | set owner named assigned =>
    obtain ⟨world₁, x', m₁', done', -, machines₁, values⟩ := owner.of_value machines done
    cases values with | instance_ classes =>
    exact ⟨_, .setValue done', .mk machines₁ (.expr assigned)⟩
  | firstExpr =>
    cases tasks with | exprs exprs => cases exprs with | cons first others =>
    exact ⟨_, .firstExpr, .mk machines (.expr first)⟩
  | otherExprs done =>
    cases tasks with | exprs exprs => cases exprs with | cons first others =>
    obtain ⟨world₁, x', m₁', done', -, machines₁, -⟩ := first.of_value machines done
    exact ⟨_, .otherExprs done', .mk machines₁ (.exprs others)⟩
  | block =>
    cases tasks with | stmt stmts => cases stmts with | block r stated =>
    exact ⟨_, .block, .mk (machines.inside r) (.stmts stated)⟩
  | superclass =>
    cases tasks with | stmt stmts => cases stmts with | derived named extended declared =>
    exact ⟨_, .superclass, .mk machines (.expr extended)⟩
  | expression | ifCondition | condition | print_ =>
    cases tasks with | stmt stmts =>
    cases stmts
    exact ⟨_, by constructor, .mk machines (.expr ‹_›)⟩
  | ifBranch done holds =>
    cases tasks with | stmt stmts => cases stmts with | ifThen head first =>
    obtain ⟨world₁, x', m₁', done', -, machines₁, values⟩ := head.of_value machines done
    rw [← values.isTruthy] at holds
    exact ⟨_, .ifBranch done' holds, .mk machines₁ (.stmt first)⟩
  | thenBranch done holds =>
    cases tasks with | stmt stmts => cases stmts with | ifThenElse head first second =>
    obtain ⟨world₁, x', m₁', done', -, machines₁, values⟩ := head.of_value machines done
    rw [← values.isTruthy] at holds
    exact ⟨_, .thenBranch done' holds, .mk machines₁ (.stmt first)⟩
  | elseBranch done fails =>
    cases tasks with | stmt stmts => cases stmts with | ifThenElse head first second =>
    obtain ⟨world₁, x', m₁', done', -, machines₁, values⟩ := head.of_value machines done
    rw [← values.isTruthy] at fails
    exact ⟨_, .elseBranch done' fails, .mk machines₁ (.stmt second)⟩
  | returned =>
    cases tasks with | stmt stmts => cases stmts with | return_ word returned => cases returned with | some returned =>
    exact ⟨_, .returned, .mk machines (.expr returned)⟩
  | initializer =>
    cases tasks with | stmt stmts => cases stmts with | var_ named initial => cases initial with | some initial =>
    exact ⟨_, .initializer, .mk machines (.expr initial)⟩
  | turns =>
    cases tasks with | stmt stmts => cases stmts with | while_ head repeated =>
    exact ⟨_, .turns, .mk machines (.loop head repeated)⟩
  | loopCondition =>
    cases tasks with | loop head repeated =>
    exact ⟨_, .loopCondition, .mk machines (.expr head)⟩
  | loopBody done holds =>
    cases tasks with | loop head repeated =>
    obtain ⟨world₁, x', m₁', done', -, machines₁, values⟩ := head.of_value machines done
    rw [← values.isTruthy] at holds
    exact ⟨_, .loopBody done' holds, .mk machines₁ (.stmt repeated)⟩
  | otherTurns done holds turned =>
    cases tasks with | loop head repeated =>
    obtain ⟨world₁, x', m₁', done', -, machines₁, values⟩ := head.of_value machines done
    obtain ⟨world₂, flow', m₂', turned', -, machines₂, flows⟩ := repeated.of_value machines₁ turned
    rw [← values.isTruthy] at holds
    cases flows with | normal =>
    exact ⟨_, .otherTurns done' holds turned', .mk machines₂ (.loop head repeated)⟩
  | firstStmt =>
    cases tasks with | stmts stmts => cases stmts with | cons first others =>
    exact ⟨_, .firstStmt, .mk machines (.stmt first)⟩
  | otherStmts done =>
    cases tasks with | stmts stmts => cases stmts with | cons first others =>
    obtain ⟨world₁, flow', m₁', done', -, machines₁, flows⟩ := first.of_value machines done
    cases flows with | normal =>
    exact ⟨_, .otherStmts done', .mk machines₁ (.stmts others)⟩
  | body =>
    cases tasks with | invoke closures given =>
    obtain ⟨world₁, rs', entered, stated⟩ := machines.entered closures given
    exact ⟨_, .body, .mk entered (.stmts stated)⟩
  | firstOfProgram =>
    cases tasks with | program stmts => cases stmts with | cons first others =>
    exact ⟨_, .firstOfProgram, .mk machines (.stmt first)⟩
  | othersOfProgram done =>
    cases tasks with | program stmts => cases stmts with | cons first others =>
    obtain ⟨world₁, flow', m₁', done', -, machines₁, -⟩ := first.of_value machines done
    exact ⟨_, .othersOfProgram done', .mk machines₁ (.program others)⟩

theorem Activity.During.alike {a a' b : Activity} (during : a.During b) (alike : a.Alike p a') :
    ∃ b', a'.During b' ∧ b.Alike p b' := by
  induction during with
  | start => exact ⟨a', .start, alike⟩
  | spawned reached spawns ih =>
    obtain ⟨b', reached', alike⟩ := ih
    obtain ⟨c', spawns', alike⟩ := spawns.alike alike
    exact ⟨c', .spawned reached' spawns', alike⟩

theorem Activity.Alike.shows_iff {a a' : Activity} (alike : a.Alike p a') (lines : Array Line) :
    a.Shows lines ↔ a'.Shows lines := by
  have forth {p : Pairing} {a a' : Activity} (alike : a.Alike p a') (shows : a.Shows lines) : a'.Shows lines := by
    obtain ⟨b, during, written⟩ := shows
    obtain ⟨b', during', moments⟩ := during.alike alike
    exact ⟨b', during', moments.lines.trans written⟩
  exact ⟨forth alike, forth alike.symm⟩

end
end Lox
