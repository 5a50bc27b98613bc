import Lox.Proofs.Grammar.Relabelling
import Lox.Proofs.Grammar.Rereading

namespace Lox.Grammar

namespace Cursor

def extend (c : Cursor) (more : List Token) (stop : Token) : Cursor :=
  { c with pending := c.pending ++ more, stop := stop }

variable {c next : Cursor} {kinds : List Kind} {token : Token}

theorem Leads.pending_ne (led : c.Leads next) (pending : next.pending ≠ []) : c.pending ≠ [] := fun none =>
  pending (List.suffix_nil.mp (none ▸ led.pending))

theorem Leads.quiet (led : c.Leads next) (quiet : next.misreadings = []) : c.misreadings = [] :=
  List.suffix_nil.mp (quiet ▸ led.misreadings)

variable (more : List Token) (stop : Token)

theorem Takes.extend (taken : c.Takes kinds token next) :
    (c.extend more stop).Takes kinds token (next.extend more stop) := by
  obtain ⟨kind, front, rest⟩ := taken
  refine ⟨kind, ?_, ?_⟩
  · simp only [Cursor.extend, front, List.cons_append]
  · rw [rest]
    rfl

theorem Lacks.extend (lacks : c.Lacks kinds) (apart : c.pending = [] → Apart kinds more) :
    (c.extend more stop).Lacks kinds := by
  unfold Lacks Cursor.extend at *
  cases front : c.pending with
  | nil => exact apart front
  | cons token rest =>
    rw [front] at lacks
    exact lacks

theorem Lacks.extend_pending (lacks : c.Lacks kinds) (pending : c.pending ≠ []) : (c.extend more stop).Lacks kinds :=
  lacks.extend more stop fun none => absurd none pending

theorem limit_extend (pending : c.pending ≠ []) (count : Nat) (fault : SyntaxFault) :
    (limit c count fault).extend more stop = limit (c.extend more stop) count fault := by
  obtain ⟨token, rest, front⟩ := List.exists_cons_of_ne_nil pending
  unfold limit
  split
  · simp only [record, peek, Cursor.extend, front, List.cons_append, List.headD_cons]
  · rfl

theorem sees_extend (pending : c.pending ≠ []) (kind : Kind) : (c.extend more stop).sees kind = c.sees kind := by
  cases seen : c.sees kind with
  | true =>
    obtain ⟨token, next, taken⟩ := sees_eq_true.mp seen
    exact sees_eq_true.mpr ⟨_, _, taken.extend more stop⟩
  | false => exact sees_eq_false.mpr ((sees_eq_false.mp seen).extend_pending more stop pending)

theorem atEnd_extend (pending : c.pending ≠ []) : (c.extend more stop).atEnd = c.atEnd := by
  obtain ⟨token, rest, front⟩ := List.exists_cons_of_ne_nil pending
  simp only [atEnd, Cursor.extend, front, List.cons_append, List.isEmpty_cons]

end Cursor

section

variable {more : List Token} {stop : Token} {c next : Cursor}

theorem ReadsExpr.extend {phrase : ExprPhrase} (reads : ReadsExpr phrase c next) (pending : next.pending ≠ []) :
    ReadsExpr phrase (c.extend more stop) (next.extend more stop) := by
  induction reads with
  | unassigned _ plain ih => exact .unassigned (ih pending) (plain.extend_pending _ _ pending)
  | assignment _ sign _ ih₁ ih₂ => exact .assignment (ih₁ sign.pending_ne) (sign.extend _ _) (ih₂ pending)
  | setting _ sign _ ih₁ ih₂ => exact .setting (ih₁ sign.pending_ne) (sign.extend _ _) (ih₂ pending)
  | misassignment _ sign _ refused ih₁ ih₂ =>
    exact .misassignment (ih₁ sign.pending_ne) (sign.extend _ _) (ih₂ pending) refused
  | infix_ _ rest ih₁ ih₂ => exact .infix_ (ih₁ (rest.leads.pending_ne pending)) (ih₂ pending)
  | tighterOperand tighter _ ih => exact .tighterOperand tighter (ih pending)
  | unaryOperand tightest _ ih => exact .unaryOperand tightest (ih pending)
  | infixEnd ended => exact .infixEnd (ended.extend_pending _ _ pending)
  | infixMore sign _ rest ih₁ ih₂ =>
    exact .infixMore (sign.extend _ _) (ih₁ (rest.leads.pending_ne pending)) (ih₂ pending)
  | prefixed sign _ ih => exact .prefixed (sign.extend _ _) (ih pending)
  | call plain first rest ih₁ ih₂ =>
    have behind := rest.leads.pending_ne pending
    exact .call (plain.extend_pending _ _ (first.leads.pending_ne behind)) (ih₁ behind) (ih₂ pending)
  | callEnd ended => exact .callEnd (ended.extend_pending _ _ pending)
  | callGet sign property _ ih => exact .callGet (sign.extend _ _) (property.extend _ _) (ih pending)
  | callOn sign _ closing _ ih₁ ih₂ =>
    exact .callOn (sign.extend _ _) (ih₁ closing.pending_ne) (closing.extend _ _) (ih₂ pending)
  | noArguments closing => exact .noArguments (closing.extend _ _)
  | someArguments opened entries ih =>
    exact .someArguments (opened.extend_pending _ _ (entries.leads.pending_ne pending)) (ih pending)
  | lastArgument entry ended ih =>
    have before := ((Cursor.Leads.limit ..).trans entry.leads).pending_ne pending
    exact .lastArgument (Cursor.limit_extend _ _ before .. ▸ ih pending) (ended.extend_pending _ _ pending)
  | nextArgument entry sign _ ih₁ ih₂ =>
    have before := ((Cursor.Leads.limit ..).trans entry.leads).pending_ne sign.pending_ne
    exact .nextArgument (Cursor.limit_extend _ _ before .. ▸ ih₁ sign.pending_ne) (sign.extend _ _) (ih₂ pending)
  | constant front stands => exact .constant (front.extend _ _) stands
  | super_ front sign named => exact .super_ (front.extend _ _) (sign.extend _ _) (named.extend _ _)
  | this_ front => exact .this_ (front.extend _ _)
  | variable_ front => exact .variable_ (front.extend _ _)
  | grouping front _ closing ih => exact .grouping (front.extend _ _) (ih closing.pending_ne) (closing.extend _ _)

/-- Whether a phrase ends with a token of its own, but for an `else` that may follow. -/
def StmtPhrase.closed : StmtPhrase → Bool
  | .optional .. | .initializer _ | .parametersFrom .. | .parameters _ | .superclass _ | .methods _
  | .declarations _ => false
  | _ => true

theorem ReadsStmt.pending_ne {phrase : StmtPhrase} (reads : ReadsStmt phrase c next) (closed : phrase.closed = true) :
    c.pending ≠ [] := by
  induction reads with
  | varDeclaration front | noInitializer front | varInitializer front | forClauses front | classDeclared front
  | functionDeclared front | varDeclared front | classDeclaration front | function front | forLoop front | ifThen front
  | ifThenElse front | printing front | returning front | whileLoop front | braced front | blockEnd front =>
    exact front.pending_ne
  | expressionStatement read ended | printStatement read ended | returnStatement read ended =>
    exact read.leads.pending_ne ended.pending_ne
  | exprInitializer _ _ ih | stated _ _ ih | expressed _ _ ih => exact ih rfl
  | blockMore _ _ _ ih => exact ih rfl
  | misread pending => exact List.ne_nil_of_length_pos pending
  | _ => cases closed

structure Cursor.Settles (more : List Token) (closed : Bool) (next : Cursor) : Prop where
  quiet : next.misreadings = []
  apart : next.pending = [] → closed = true ∧ Apart [.keyword .else_] more

namespace Cursor.Settles

variable {closed : Bool}

theorem of_pending (pending : c.pending ≠ []) (led : c.Leads next) (quiet : next.misreadings = []) :
    c.Settles more closed :=
  ⟨led.quiet quiet, fun none => absurd none pending⟩

theorem before {kinds : List Kind} {token : Token} {d : Cursor} (taken : c.Takes kinds token d) (led : d.Leads next)
    (quiet : next.misreadings = []) : c.Settles more closed :=
  of_pending taken.pending_ne (taken.leads.trans led) quiet

theorem pending_ne (settles : next.Settles more false) : next.pending ≠ [] := fun none =>
  Bool.false_ne_true (settles.apart none).1

end Cursor.Settles

theorem ReadsStmt.extend {phrase : StmtPhrase} (reads : ReadsStmt phrase c next)
    (settles : next.Settles more phrase.closed) : ReadsStmt phrase (c.extend more stop) (next.extend more stop) := by
  induction reads with
  | absent seen => exact .absent (seen.extend _ _)
  | present unseen read =>
    have pending := settles.pending_ne
    exact .present (unseen.extend_pending _ _ (read.leads.pending_ne pending)) (read.extend pending)
  | uninitialized plain => exact .uninitialized (plain.extend_pending _ _ settles.pending_ne)
  | initialized sign value => exact .initialized (sign.extend _ _) (value.extend settles.pending_ne)
  | varDeclaration named _ ended ih =>
    exact .varDeclaration (named.extend _ _) (ih (.before ended (.refl _) settles.quiet)) (ended.extend _ _)
  | expressionStatement read ended => exact .expressionStatement (read.extend ended.pending_ne) (ended.extend _ _)
  | printStatement read ended => exact .printStatement (read.extend ended.pending_ne) (ended.extend _ _)
  | returnStatement _ ended ih =>
    exact .returnStatement (ih (.before ended (.refl _) settles.quiet)) (ended.extend _ _)
  | lastParameter entry ended =>
    have before := ((Cursor.Leads.limit ..).trans entry.leads).pending_ne settles.pending_ne
    exact .lastParameter (Cursor.limit_extend _ _ before .. ▸ entry.extend _ _)
      (ended.extend_pending _ _ settles.pending_ne)
  | nextParameter entry sign _ ih =>
    have before := ((Cursor.Leads.limit ..).trans entry.leads).pending_ne sign.pending_ne
    exact .nextParameter (Cursor.limit_extend _ _ before .. ▸ entry.extend _ _) (sign.extend _ _)
      (ih settles)
  | noParameters closing => exact .noParameters (closing.extend _ _)
  | someParameters opened entries ih =>
    have pending := entries.leads.pending_ne settles.pending_ne
    exact .someParameters (opened.extend_pending _ _ pending) (ih settles)
  | noInitializer front => exact .noInitializer (front.extend _ _)
  | varInitializer front _ ih => exact .varInitializer (front.extend _ _) (ih settles)
  | exprInitializer plain read ih =>
    exact .exprInitializer (plain.extend_pending _ _ (read.pending_ne rfl)) (ih settles)
  | forClauses opened _ second ended third closed ih₁ ih₂ ih₃ =>
    have later := third.leads.trans closed.leads
    have pending := second.leads.pending_ne ended.pending_ne
    exact .forClauses (opened.extend _ _)
      (ih₁ (.of_pending pending ((second.leads.trans ended.leads).trans later) settles.quiet))
      (ih₂ (.before ended later settles.quiet)) (ended.extend _ _) (ih₃ (.before closed (.refl _) settles.quiet))
      (closed.extend _ _)
  | noSuperclass plain => exact .noSuperclass (plain.extend_pending _ _ settles.pending_ne)
  | someSuperclass sign named => exact .someSuperclass (sign.extend _ _) (named.extend _ _)
  | classDeclared front _ ih => exact .classDeclared (front.extend _ _) (ih settles)
  | functionDeclared front _ ih => exact .functionDeclared (front.extend _ _) (ih settles)
  | varDeclared front _ ih => exact .varDeclared (front.extend _ _) (ih settles)
  | stated plain read ih =>
    exact .stated (plain.extend_pending _ _ (read.pending_ne rfl)) (ih settles)
  | misread => cases settles.quiet
  | classDeclaration named extended opened read closed ih₁ ih₂ =>
    exact .classDeclaration (named.extend _ _)
      (ih₁ (.before opened (read.leads.trans closed.leads) settles.quiet)) (opened.extend _ _)
      (ih₂ (.before closed (.refl _) settles.quiet)) (closed.extend _ _)
  | methodsEnd ended =>
    have pending := settles.pending_ne
    exact .methodsEnd (by rw [Cursor.sees_extend _ _ pending, Cursor.atEnd_extend _ _ pending, ended])
  | methodsMore more first rest ih₁ ih₂ =>
    have pending := first.pending_ne rfl
    exact .methodsMore (by rw [Cursor.sees_extend _ _ pending, Cursor.atEnd_extend _ _ pending, more])
      (ih₁ (.of_pending (rest.leads.pending_ne settles.pending_ne) rest.leads settles.quiet)) (ih₂ settles)
  | function named opened entries closed begun read ih₁ ih₂ =>
    exact .function (named.extend _ _) (opened.extend _ _)
      (ih₁ (.before closed (begun.leads.trans read.leads) settles.quiet)) (closed.extend _ _) (begun.extend _ _)
      (ih₂ settles)
  | forLoop front _ read ih₁ ih₂ =>
    exact .forLoop (front.extend _ _) (ih₁ (.of_pending (read.pending_ne rfl) read.leads settles.quiet)) (ih₂ settles)
  | ifThen front opened head closed _ alone ih =>
    exact .ifThen (front.extend _ _) (opened.extend _ _) (head.extend closed.pending_ne) (closed.extend _ _)
      (ih settles) (alone.extend _ _ fun none => (settles.apart none).2)
  | ifThenElse front opened head closed _ otherwise second ih₁ ih₂ =>
    exact .ifThenElse (front.extend _ _) (opened.extend _ _) (head.extend closed.pending_ne) (closed.extend _ _)
      (ih₁ (.before otherwise second.leads settles.quiet)) (otherwise.extend _ _) (ih₂ settles)
  | printing front _ ih => exact .printing (front.extend _ _) (ih settles)
  | returning front _ ih => exact .returning (front.extend _ _) (ih settles)
  | whileLoop front opened head closed _ ih =>
    exact .whileLoop (front.extend _ _) (opened.extend _ _) (head.extend closed.pending_ne) (closed.extend _ _)
      (ih settles)
  | braced front _ ih => exact .braced (front.extend _ _) (ih settles)
  | expressed plain read ih => exact .expressed (plain.extend_pending _ _ (read.pending_ne rfl)) (ih settles)
  | blockEnd closed => exact .blockEnd (closed.extend _ _)
  | blockMore more first rest ih₁ ih₂ =>
    exact .blockMore (more.extend_pending _ _ (first.pending_ne rfl))
      (ih₁ (.of_pending (rest.pending_ne rfl) rest.leads settles.quiet)) (ih₂ settles)
  | programEnd ended => exact absurd ended settles.pending_ne
  | programMore _ rest ih₁ ih₂ =>
    exact .programMore (ih₁ (.of_pending (rest.leads.pending_ne settles.pending_ne) rest.leads settles.quiet))
      (ih₂ settles)

theorem ReadsStmt.declarations_append {program program' : List Stmt} {last : Cursor}
    (reads : ReadsStmt (.declarations program) c next) (quiet : next.misreadings = [])
    (apart : Apart [.keyword .else_] more) (reads' : ReadsStmt (.declarations program') (next.extend more stop) last) :
    ReadsStmt (.declarations (program ++ program')) (c.extend more stop) last := by
  generalize shape : StmtPhrase.declarations program = phrase at reads
  induction reads generalizing program with
  | programEnd =>
    cases shape
    exact reads'
  | programMore first rest _ ih =>
    cases shape
    rw [List.append_assoc]
    exact .programMore (first.extend ⟨rest.leads.quiet quiet, fun _ => ⟨rfl, apart⟩⟩) (ih quiet reads' rfl)
  | _ => cases shape

end

end Lox.Grammar

namespace Lox

open Grammar

theorem parseProgram_eq_iff {tokens : List Token} {nextId id : NodeId} {program : List Stmt} :
    parseProgram tokens nextId = ⟨program, [], id⟩ ↔
      ∃ stop, ReadsStmt (.declarations program) (.ofTokens tokens nextId) ⟨[], stop, id, []⟩ := by
  constructor
  · intro read
    obtain ⟨rfl, silent, rfl⟩ := Parsed.mk.inj read
    have reads := reads_declarations (.ofTokens tokens nextId)
    have quiet := List.reverse_eq_nil_iff.mp silent
    have ended := (reads.spelled : StmtPhrase.Spelled True _ _ (.declarations _)).2
    generalize (declarations (.ofTokens tokens nextId)).2 = last at reads quiet ended ⊢
    obtain ⟨pending, stop, id, misreadings⟩ := last
    obtain rfl : pending = [] := ended
    obtain rfl : misreadings = [] := quiet
    exact ⟨stop, reads⟩
  · rintro ⟨stop, reads⟩
    unfold parseProgram
    rw [declarations_eq_iff.mpr reads]
    rfl

theorem parseProgram_append {front tokens : List Token} {stop : Token} {nextId id id' : NodeId}
    {program program' : List Stmt} (inside : ∀ t ∈ front, t.isEof = false) (ended : stop.isEof = true)
    (read : parseProgram (front ++ [stop]) nextId = ⟨program, [], id⟩)
    (read' : parseProgram tokens id = ⟨program', [], id'⟩) :
    parseProgram (front ++ tokens) nextId = ⟨program ++ program', [], id'⟩ := by
  obtain ⟨_, reads⟩ := parseProgram_eq_iff.mp read
  obtain ⟨stop', reads'⟩ := parseProgram_eq_iff.mp read'
  obtain ⟨_, spelled⟩ := (parseProgram_silent_iff tokens id).mp (by rw [read'])
  have apart : Apart [.keyword .else_] (tokens.takeWhile (!·.isEof)) := by
    rw [← List.append_nil (tokens.takeWhile _)]
    exact spelled.declarations_apart nofun
  refine parseProgram_eq_iff.mpr ⟨stop', ?_⟩
  rw [Cursor.ofTokens_append nextId inside, List.takeWhile_cons_of_neg (by simp [ended]), List.append_nil] at reads
  rw [Cursor.ofTokens_append nextId inside]
  exact reads.declarations_append rfl apart reads'

end Lox
