import Lox.Proofs.Grammar.StatementReading
import Lox.Proofs.Tree.Alike

namespace Lox

section

variable (p : Pairing)

structure Misreading.Alike (misreading misreading' : Misreading) : Prop where
  token : p.tokens misreading.token misreading'.token
  fault : misreading'.fault = misreading.fault

/-- Expressions that are alike wherever no scope changes a name. -/
def Expr.Parallel (e e' : Expr) : Prop := ∀ rs, Naming.Plain rs → e.Alike p rs e'

def Expr.AllParallel (es es' : List Expr) : Prop := ∀ rs, Naming.Plain rs → Expr.AllAlike p rs es es'

def Stmt.Parallel (s s' : Stmt) : Prop := ∀ rs, Naming.Plain rs → s.Alike p rs s'

def Stmt.AllParallel (ss ss' : List Stmt) : Prop := ∀ rs, Naming.Plain rs → Stmt.AllAlike p rs ss ss'

def FunctionDecl.Parallel (d d' : FunctionDecl) : Prop := ∀ rs, Naming.Plain rs → d.Alike p rs d'

def FunctionDecl.AllParallel (ds ds' : List FunctionDecl) : Prop :=
  ∀ rs, Naming.Plain rs → FunctionDecl.AllAlike p rs ds ds'

end

/-- Whether reading stops at the fault. Others are recorded, and reading goes on. -/
def SyntaxFault.stops : SyntaxFault → Bool
  | .assignmentTarget | .tooManyParameters | .tooManyArguments => false
  | _ => true

namespace Grammar

/-- The course of a reading: what it does to the cursor until it ends, with a misreading or without. A deep one can
    recover from misreadings on its way. -/
inductive Cursor.Course : Bool → Cursor → Option Misreading → Cursor → Prop where
  | stay {deep : Bool} (c : Cursor) : Course deep c none c
  | front {deep : Bool} {fault : SyntaxFault} (c : Cursor) (stops : fault.stops = true) :
      Course deep c (some ⟨c.peek, fault⟩) c
  | valueless {deep : Bool} {c next : Cursor} {token : Token} (taken : c.Takes [token.kind] token next) :
      Course deep c (some ⟨token, .literalValue⟩) next
  | take {deep : Bool} {c c₁ next : Cursor} {kinds : List Kind} {token : Token} {outcome : Option Misreading}
      (taken : c.Takes kinds token c₁) (rest : Course deep c₁ outcome next) : Course deep c outcome next
  | numbered {deep : Bool} {c next : Cursor} {outcome : Option Misreading}
      (rest : Course deep c.numbered outcome next) : Course deep c outcome next
  | limited {deep : Bool} {c next : Cursor} {fault : SyntaxFault} {outcome : Option Misreading}
      (other : fault ≠ .assignmentTarget) (rest : Course deep (c.record c.peek fault) outcome next)
      (onward : outcome = none → next.size < c.size) : Course deep c outcome next
  | refused {deep : Bool} {c c₁ c₂ next : Cursor} {equals : Token} {value : Expr} {outcome : Option Misreading}
      (sign : c.Takes [.equal] equals c₁) (assigned : (expression c₁).Yields value c₂) (inner : Course false c₁ none c₂)
      (rest : Course deep (c₂.record equals .assignmentTarget) outcome next) : Course deep c outcome next
  | recovered {c c₁ next : Cursor} {misreading : Misreading} {outcome : Option Misreading}
      (first : Course true c (some misreading) c₁) (rest : Course true (c₁.recover misreading) outcome next) :
      Course true c outcome next

namespace Cursor.Course

variable {deep : Bool} {c d next : Cursor} {outcome : Option Misreading}

theorem size_le (course : Course deep c outcome next) : next.size ≤ c.size := by
  have shorter {c c₁ : Cursor} {kinds : List Kind} {token : Token} (taken : c.Takes kinds token c₁) : c₁.size ≤ c.size := by
    simp [Cursor.size, taken.2.1]
  induction course with
  | stay | front => exact Nat.le_refl _
  | valueless taken => exact shorter taken
  | take taken _ ih => exact Nat.le_trans ih (shorter taken)
  | numbered _ ih => exact ih
  | limited _ _ _ ih => exact ih
  | refused sign _ _ _ ih₁ ih₂ => exact Nat.le_trans ih₂ (Nat.le_trans ih₁ (shorter sign))
  | recovered _ _ ih₁ ih₂ =>
    refine Nat.le_trans ih₂ (Nat.le_trans ?_ ih₁)
    exact Nat.le_trans (length_skip _) (Nat.sub_le _ _)

theorem trans (first : Course deep c none d) (second : Course deep d outcome next) : Course deep c outcome next := by
  generalize ended : none = silent at first
  induction first with
  | stay => exact second
  | front | valueless => cases ended
  | take taken _ ih => exact .take taken (ih second ended)
  | numbered _ ih => exact .numbered (ih second ended)
  | limited other _ onward ih =>
    exact .limited other (ih second ended) fun _ => Nat.lt_of_le_of_lt second.size_le (onward ended.symm)
  | refused sign assigned inner _ _ ih => exact .refused sign assigned inner (ih second ended)
  | recovered first _ _ ih => exact .recovered first (ih second ended)

theorem deepen (course : Course deep c outcome next) : Course true c outcome next := by
  induction course with
  | stay => exact .stay _
  | front _ stops => exact .front _ stops
  | valueless taken => exact .valueless taken
  | take taken _ ih => exact .take taken ih
  | numbered _ ih => exact .numbered ih
  | limited other _ onward ih => exact .limited other ih onward
  | refused sign assigned inner _ _ ih => exact .refused sign assigned inner ih
  | recovered first rest _ _ => exact .recovered first rest

theorem stops {misreading : Misreading} (course : Course deep c (some misreading) next) : misreading.fault.stops = true := by
  generalize ended : some misreading = outcome at course
  induction course with
  | stay => cases ended
  | front _ stops =>
    cases ended
    exact stops
  | valueless =>
    cases ended
    rfl
  | take _ _ ih | numbered _ ih | limited _ _ _ ih => exact ih ended
  | refused _ _ _ _ _ ih | recovered _ _ _ ih => exact ih ended

theorem taken (front : c.Taken) (rest : Course deep front.next outcome next) : Course deep c outcome next :=
  .take (front.takes (List.mem_singleton.mpr rfl) : c.Takes [front.token.kind] _ _) rest

theorem limit {count : Nat} {fault : SyntaxFault} (other : fault ≠ .assignmentTarget)
    (rest : Course deep (Grammar.limit c count fault) outcome next) (onward : outcome = none → next.size < c.size) :
    Course deep c outcome next := by
  unfold Grammar.limit at rest
  split at rest
  · exact .limited other rest onward
  · exact rest

end Cursor.Course

/-- What two readings may differ in: how their tokens are told apart, how their nodes are numbered, and what was recorded
    before them. -/
structure Comparison extends Pairing where
  numbers : NodeId → NodeId → Prop
  before : List Misreading
  before' : List Misreading
  literal : ∀ {t t' : Token}, tokens t t' → t'.literal = t.literal
  same : ∀ {rs : List Naming} {id id' : NodeId} {t t' : Token}, refers rs id t id' t' → tokens t t'
  following : ∀ {id id' : NodeId}, numbers id id' → numbers (id + 1) (id' + 1)
  reference : ∀ {rs : List Naming} {id id' : NodeId} {t t' : Token}, Naming.Plain rs → tokens t t' → numbers id id' →
    refers rs id t id' t'

structure Cursor.Beside (q : Comparison) (c c' : Cursor) : Prop where
  pending : List.Forall₂ q.tokens c.pending c'.pending
  stop : q.tokens c.stop c'.stop
  numbers : q.numbers c.nextId c'.nextId
  misreadings : ∃ new new', c.misreadings = new ++ q.before ∧ c'.misreadings = new' ++ q.before' ∧
    List.Forall₂ (Misreading.Alike q.toPairing) new new'

/-- Readings that end in the same way, with values that correspond. -/
inductive Reading.Beside {α β : Type} (q : Comparison) (R : α → β → Prop) {c c' : Cursor} {gain : Nat} :
    Reading c gain α → Reading c' gain β → Prop where
  | read {value : α} {value' : β} {next next' : Cursor} {progress : next.size + gain ≤ c.size}
      {progress' : next'.size + gain ≤ c'.size} (values : R value value') (cursors : next.Beside q next') :
      Beside q R (.read value next progress) (.read value' next' progress')
  | failed {misreading misreading' : Misreading} {next next' : Cursor} {progress : next.size ≤ c.size}
      {progress' : next'.size ≤ c'.size} (misreadings : misreading.Alike q.toPairing misreading')
      (cursors : next.Beside q next') : Beside q R (.failed misreading next progress) (.failed misreading' next' progress')

def Reading.Runs (deep : Bool) {c : Cursor} {gain : Nat} {α : Type} : Reading c gain α → Prop
  | .read _ next _ => c.Course deep none next
  | .failed misreading next _ => c.Course deep (some misreading) next

structure Reading.Paired {α β : Type} (deep : Bool) (q : Comparison) (R : α → β → Prop) {c c' : Cursor} {gain : Nat}
    (reading : Reading c gain α) (reading' : Reading c' gain β) : Prop where
  runs : reading.Runs deep
  beside : reading.Beside q R reading'

variable {deep : Bool} {q : Comparison} {c c' : Cursor}

theorem skipFrom_beside {last last' : Token} {tokens tokens' : List Token} (said : q.tokens last last')
    (pending : List.Forall₂ q.tokens tokens tokens') :
    List.Forall₂ q.tokens (skipFrom last tokens) (skipFrom last' tokens') := by
  induction pending generalizing last last' with
  | nil => exact .nil
  | cons here others ih =>
    rw [skipFrom, skipFrom, q.kind said, q.kind here]
    split
    · exact .cons here others
    · exact ih here

theorem skip_beside {tokens tokens' : List Token} (pending : List.Forall₂ q.tokens tokens tokens') :
    List.Forall₂ q.tokens (skip tokens) (skip tokens') := by
  cases pending with
  | nil => exact .nil
  | cons here others => exact skipFrom_beside here others

namespace Cursor.Beside

theorem size (cursors : c.Beside q c') : c'.size = c.size := cursors.pending.length_eq.symm

theorem numbered (cursors : c.Beside q c') : c.numbered.Beside q c'.numbered :=
  ⟨cursors.pending, cursors.stop, q.following cursors.numbers, cursors.misreadings⟩

theorem record {token token' : Token} (cursors : c.Beside q c') (said : q.tokens token token') (fault : SyntaxFault) :
    (c.record token fault).Beside q (c'.record token' fault) := by
  obtain ⟨new, new', first, second, alike⟩ := cursors.misreadings
  exact ⟨cursors.pending, cursors.stop, cursors.numbers, _ :: new, _ :: new', congrArg _ first, congrArg _ second,
    .cons ⟨said, rfl⟩ alike⟩

theorem recover {misreading misreading' : Misreading} (cursors : c.Beside q c')
    (misreadings : misreading.Alike q.toPairing misreading') :
    (c.recover misreading).Beside q (c'.recover misreading') := by
  obtain ⟨new, new', first, second, alike⟩ := cursors.misreadings
  exact ⟨skip_beside cursors.pending, cursors.stop, cursors.numbers, _ :: new, _ :: new', congrArg _ first,
    congrArg _ second, .cons misreadings alike⟩

theorem peek (cursors : c.Beside q c') : q.tokens c.peek c'.peek := by
  have pending := cursors.pending
  unfold Cursor.peek
  generalize c.pending = tokens at pending
  generalize c'.pending = tokens' at pending
  cases pending with
  | nil => exact cursors.stop
  | cons said _ => exact said

theorem limit (cursors : c.Beside q c') (count : Nat) (fault : SyntaxFault) :
    (limit c count fault).Beside q (limit c' count fault) := by
  unfold Grammar.limit
  split
  · exact cursors.record cursors.peek fault
  · exact cursors

theorem atEnd (cursors : c.Beside q c') : c'.atEnd = c.atEnd := by
  have pending := cursors.pending
  unfold Cursor.atEnd
  generalize c.pending = tokens at pending
  generalize c'.pending = tokens' at pending
  cases pending <;> rfl

theorem take (cursors : c.Beside q c') : (c.take? = none ∧ c'.take? = none) ∨
    ∃ (taken : c.Taken) (taken' : c'.Taken), c.take? = some taken ∧ c'.take? = some taken' ∧
      q.tokens taken.token taken'.token ∧ taken.next.Beside q taken'.next := by
  have pending := cursors.pending
  cases front : c.pending with
  | nil =>
    rw [front, List.forall₂_nil_left_iff] at pending
    exact .inl ⟨Cursor.take?_eq_none.mpr front, Cursor.take?_eq_none.mpr pending⟩
  | cons token rest =>
    rw [front, List.forall₂_cons_left_iff] at pending
    obtain ⟨token', rest', said, others, front'⟩ := pending
    exact .inr ⟨⟨token, rest, front⟩, ⟨token', rest', front'⟩, Cursor.take?_eq_some _, Cursor.take?_eq_some _, said,
      others, cursors.stop, cursors.numbers, cursors.misreadings⟩

theorem accept (cursors : c.Beside q c') (kinds : List Kind) : (c.accept? kinds = none ∧ c'.accept? kinds = none) ∨
    ∃ (taken : c.Taken) (taken' : c'.Taken), c.accept? kinds = some taken ∧ c'.accept? kinds = some taken' ∧
      q.tokens taken.token taken'.token ∧ taken.next.Beside q taken'.next := by
  rcases cursors.take with ⟨none, none'⟩ | ⟨taken, taken', some, some', said, next⟩
  · unfold Cursor.accept?
    rw [none, none']
    exact .inl ⟨rfl, rfl⟩
  · by_cases accepted : taken.token.kind ∈ kinds
    · have accepted' : taken'.token.kind ∈ kinds := q.kind said ▸ accepted
      exact .inr ⟨taken, taken', accept?_eq_some.mpr accepted, accept?_eq_some.mpr accepted', said, next⟩
    · unfold Cursor.accept?
      rw [some, some']
      simp [Option.filter, q.kind said, accepted]

theorem sees (cursors : c.Beside q c') (kind : Kind) : c'.sees kind = c.sees kind := by
  unfold Cursor.sees
  rcases cursors.accept [kind] with ⟨none, none'⟩ | ⟨taken, taken', some, some', -, -⟩
  · rw [none, none']
    rfl
  · rw [some, some']
    rfl

end Cursor.Beside

namespace Reading.Paired

variable {α α' β β' : Type} {R : α → α' → Prop} {S : β → β' → Prop} {gain : Nat}

theorem read {value : α} {value' : α'} {next next' : Cursor} {progress : next.size + gain ≤ c.size}
    {progress' : next'.size + gain ≤ c'.size} (values : R value value') (cursors : next.Beside q next')
    (course : c.Course deep none next) :
    Paired deep q R (.read value next progress : Reading c gain α) (.read value' next' progress' : Reading c' gain α') :=
  ⟨course, .read values cursors⟩

theorem done {value : α} {value' : α'} (cursors : c.Beside q c') (values : R value value') :
    Paired deep q R (Reading.done value : Reading c 0 α) (Reading.done value' : Reading c' 0 α') :=
  .read values cursors (.stay c)

theorem fail (cursors : c.Beside q c') (gain : Nat) {fault : SyntaxFault} (stops : fault.stops = true) :
    Paired deep q R (c.fail gain fault) (c'.fail gain fault) :=
  ⟨.front c stops, .failed ⟨cursors.peek, rfl⟩ cursors⟩

theorem deepen {reading : Reading c gain α} {reading' : Reading c' gain α'} (paired : Paired deep q R reading reading') :
    Paired true q R reading reading' := by
  refine ⟨?_, paired.beside⟩
  have runs := paired.runs
  cases reading with
  | read _ next progress | failed _ next progress => exact Cursor.Course.deepen runs

theorem andThen {more : Nat} {reading : Reading c gain α} {reading' : Reading c' gain α'}
    {next : α → (next : Cursor) → next.size + gain ≤ c.size → Reading next more β}
    {next' : α' → (next : Cursor) → next.size + gain ≤ c'.size → Reading next more β'}
    (paired : Paired deep q R reading reading')
    (continues : ∀ {value : α} {value' : α'} {c₁ c₁' : Cursor} (progress : c₁.size + gain ≤ c.size)
      (progress' : c₁'.size + gain ≤ c'.size), R value value' → c₁.Beside q c₁' →
      Paired deep q S (next value c₁ progress) (next' value' c₁' progress')) :
    Paired deep q S (reading.andThen next) (reading'.andThen next') := by
  obtain ⟨runs, beside⟩ := paired
  cases beside with
  | failed misreadings cursors => exact ⟨runs, .failed misreadings cursors⟩
  | @read value value' c₁ c₁' progress progress' values cursors =>
    obtain ⟨runs', beside'⟩ := continues progress progress' values cursors
    unfold Reading.andThen
    dsimp only
    generalize next value c₁ progress = rest at runs' beside' ⊢
    generalize next' value' c₁' progress' = rest' at beside' ⊢
    cases beside' with
    | read values cursors => exact ⟨Cursor.Course.trans runs runs', .read values cursors⟩
    | failed misreadings cursors => exact ⟨Cursor.Course.trans runs runs', .failed misreadings cursors⟩

theorem map {f : α → β} {f' : α' → β'} {reading : Reading c gain α} {reading' : Reading c' gain α'}
    (paired : Paired deep q R reading reading') (maps : ∀ value value', R value value' → S (f value) (f' value')) :
    Paired deep q S (reading.map f) (reading'.map f') := by
  obtain ⟨runs, beside⟩ := paired
  cases beside with
  | read values cursors => exact ⟨runs, .read (maps _ _ values) cursors⟩
  | failed misreadings cursors => exact ⟨runs, .failed misreadings cursors⟩

theorem weaken {reading : Reading c gain α} {reading' : Reading c' gain α'} (paired : Paired deep q R reading reading') :
    Paired deep q R reading.weaken reading'.weaken := by
  obtain ⟨runs, beside⟩ := paired
  cases beside with
  | read values cursors => exact ⟨runs, .read values cursors⟩
  | failed misreadings cursors => exact ⟨runs, .failed misreadings cursors⟩

theorem after {total : Nat} [Reading.AtMostOne total] {taken : c.Taken} {taken' : c'.Taken}
    {reading : Reading taken.next gain α} {reading' : Reading taken'.next gain α'}
    (paired : Paired deep q R reading reading') :
    Paired deep q R (Reading.after taken reading : Reading c total α)
      (Reading.after taken' reading' : Reading c' total α') := by
  obtain ⟨runs, beside⟩ := paired
  cases beside with
  | read values cursors => exact ⟨Cursor.Course.taken taken runs, .read values cursors⟩
  | failed misreadings cursors => exact ⟨Cursor.Course.taken taken runs, .failed misreadings cursors⟩

theorem limited {count : Nat} {fault : SyntaxFault} {reading : Reading (limit c count fault) 1 α}
    {reading' : Reading (limit c' count fault) 1 α'} (other : fault ≠ .assignmentTarget)
    (paired : Paired deep q R reading reading') :
    Paired deep q R (Reading.ofSameSize (size_limit c count fault) reading)
      (Reading.ofSameSize (size_limit c' count fault) reading') := by
  obtain ⟨runs, beside⟩ := paired
  cases beside with
  | @read _ _ next _ progress _ values cursors =>
    refine ⟨Cursor.Course.limit other runs fun _ => ?_, .read values cursors⟩
    rw [size_limit] at progress
    exact progress
  | failed misreadings cursors => exact ⟨Cursor.Course.limit other runs (by simp), .failed misreadings cursors⟩

theorem expect (cursors : c.Beside q c') (kind : Kind) {fault : SyntaxFault} (stops : fault.stops = true) :
    Paired deep q q.tokens (c.expect kind fault) (c'.expect kind fault) := by
  unfold Cursor.expect
  rcases cursors.accept [kind] with ⟨none, none'⟩ | ⟨taken, taken', some, some', said, next⟩
  · rw [none, none']
    exact .fail cursors 1 stops
  · rw [some, some']
    exact .read said next (.taken taken (.stay _))

end Reading.Paired

abbrev ExprPaired (q : Comparison) {c c' : Cursor} {gain : Nat} (reading : Reading c gain Expr)
    (reading' : Reading c' gain Expr) : Prop :=
  reading.Paired false q (Expr.Parallel q.toPairing) reading'

theorem assignTo_beside {target target' value value' : Expr} {equals equals' : Token} (cursors : c.Beside q c')
    (targets : target.Parallel q.toPairing target') (said : q.tokens equals equals')
    (values : value.Parallel q.toPairing value') :
    (assignTo target equals value c).Beside q (Expr.Parallel q.toPairing) (assignTo target' equals' value' c') := by
  have refused : Reading.Beside q (Expr.Parallel q.toPairing)
      (.read target (c.record equals .assignmentTarget) (Nat.le_refl _) : Reading c 0 Expr)
      (.read target' (c'.record equals' .assignmentTarget) (Nat.le_refl _) : Reading c' 0 Expr) :=
    .read targets (cursors.record said _)
  cases targets [] .nil with
  | variable_ reference =>
    refine .read (fun rs plain => ?_) cursors.numbered
    exact .assign (q.reference plain (q.same reference) cursors.numbers) (values rs plain)
  | get owner named =>
    refine .read (fun rs plain => ?_) cursors
    cases targets rs plain with
    | get owner named => exact .set owner named (values rs plain)
  | _ => exact refused

theorem assignTo_course {c₁ c₂ : Cursor} {equals : Token} {value : Expr} (sign : c.Takes [.equal] equals c₁)
    (assigned : (expression c₁).Yields value c₂) (inner : c₁.Course false none c₂) (target : Expr) :
    ∃ expr next progress, assignTo target equals value c₂ = .read expr next progress ∧ c.Course false none next := by
  cases target with
  | variable_ => exact ⟨_, _, _, rfl, .take sign (inner.trans (.numbered (.stay _)))⟩
  | get => exact ⟨_, _, _, rfl, .take sign inner⟩
  | _ => exact ⟨_, _, _, rfl, .refused sign assigned inner (.stay _)⟩

theorem assignment_paired {target target' : Expr} {equals : c.Taken} {equals' : c'.Taken}
    (sign : equals.token.kind = .equal) (said : q.tokens equals.token equals'.token)
    (targets : target.Parallel q.toPairing target')
    (assigned : ExprPaired q (expression equals.next) (expression equals'.next)) : ExprPaired q
      (Reading.after equals ((expression equals.next).andThen fun value c₂ _ => assignTo target equals.token value c₂) :
        Reading c 0 Expr)
      (Reading.after equals' ((expression equals'.next).andThen fun value c₂ _ => assignTo target' equals'.token value c₂) :
        Reading c' 0 Expr) := by
  obtain ⟨runs, beside⟩ := assigned
  generalize found : expression equals.next = reading at runs beside ⊢
  generalize expression equals'.next = reading' at beside ⊢
  cases beside with
  | failed misreadings cursors => exact ⟨Cursor.Course.taken equals runs, .failed misreadings cursors⟩
  | @read value value' c₂ c₂' progress progress' values cursors =>
    have ending := assignTo_beside cursors targets said values
    obtain ⟨expr, next, _, assigns, course⟩ :=
      assignTo_course (equals.takes (List.mem_singleton.mpr sign)) ⟨_, found⟩ runs target
    unfold Reading.andThen
    dsimp only
    rw [assigns] at ending ⊢
    generalize assignTo target' equals'.token value' c₂' = second at ending ⊢
    cases ending with
    | read values cursors => exact ⟨course, .read values cursors⟩

theorem Level.node_paired (level : Level) {left left' right right' : Expr} {operator operator' : Token}
    (lefts : left.Parallel q.toPairing left') (said : q.tokens operator operator')
    (rights : right.Parallel q.toPairing right') :
    (level.node left operator right).Parallel q.toPairing (level.node left' operator' right') := by
  intro rs plain
  cases level with
  | or | and => exact .logical (lefts rs plain) said (rights rs plain)
  | _ => exact .binary (lefts rs plain) said (rights rs plain)

mutual

theorem expression_paired {c c' : Cursor} (cursors : c.Beside q c') : ExprPaired q (expression c) (expression c') := by
  rw [expression, expression]
  apply (infix_paired .or cursors).andThen
  intro target target' c₁ c₁' progress _ targets cursors₁
  rcases cursors₁.accept [.equal] with ⟨none, none'⟩ | ⟨equals, equals', some, some', said, next⟩
  · rw [none, none']
    exact .done cursors₁ targets
  · rw [some, some']
    have shorter := equals.shorter
    have sign := List.mem_singleton.mp (Cursor.accept?_eq_some.mp some)
    exact assignment_paired sign said targets (expression_paired next)
termination_by 32 * c.size + 15
decreasing_by
  · simp [Level.rank]
  · omega

theorem infix_paired (level : Level) {c c' : Cursor} (cursors : c.Beside q c') :
    ExprPaired q (infix_ level c) (infix_ level c') := by
  rw [infix_, infix_]
  apply (operand_paired level cursors).andThen
  intro left left' c₁ c₁' progress _ lefts cursors₁
  exact infixRest_paired level lefts cursors₁
termination_by 32 * c.size + 2 * level.rank + 4

theorem operand_paired (level : Level) {c c' : Cursor} (cursors : c.Beside q c') :
    ExprPaired q (operand level c) (operand level c') := by
  rw [operand, operand]
  split
  · rename_i next tighter
    have lower := Level.rank_tighter tighter
    exact infix_paired next cursors
  · exact unary_paired cursors
termination_by 32 * c.size + 2 * level.rank + 3

theorem infixRest_paired (level : Level) {left left' : Expr} {c c' : Cursor} (lefts : left.Parallel q.toPairing left')
    (cursors : c.Beside q c') : ExprPaired q (infixRest level left c) (infixRest level left' c') := by
  rw [infixRest, infixRest]
  rcases cursors.accept level.operators with ⟨none, none'⟩ | ⟨operator, operator', some, some', said, next⟩
  · rw [none, none']
    exact .done cursors lefts
  · rw [some, some']
    have shorter := operator.shorter
    have ranked := level.rank_le
    apply Reading.Paired.after
    apply (operand_paired level next).andThen
    intro right right' c₁ c₁' progress _ rights cursors₁
    exact infixRest_paired level (level.node_paired lefts said rights) cursors₁
termination_by 32 * c.size

theorem unary_paired {c c' : Cursor} (cursors : c.Beside q c') : ExprPaired q (unary c) (unary c') := by
  rw [unary, unary]
  rcases cursors.accept [.bang, .minus] with ⟨none, none'⟩ | ⟨operator, operator', some, some', said, next⟩
  · rw [none, none']
    apply (primary_paired cursors).andThen
    intro callee callee' c₁ c₁' progress _ callees cursors₁
    exact callRest_paired callees cursors₁
  · rw [some, some']
    have shorter := operator.shorter
    apply Reading.Paired.after
    exact (unary_paired next).map fun _ _ rights rs plain => .unary said (rights rs plain)
termination_by 32 * c.size + 2

theorem callRest_paired {callee callee' : Expr} {c c' : Cursor} (callees : callee.Parallel q.toPairing callee')
    (cursors : c.Beside q c') : ExprPaired q (callRest callee c) (callRest callee' c') := by
  rw [callRest, callRest]
  rcases cursors.accept [.leftParen, .dot] with ⟨none, none'⟩ | ⟨sign, sign', some, some', said, next⟩
  · rw [none, none']
    exact .done cursors callees
  · rw [some, some']
    have shorter := sign.shorter
    dsimp only
    rw [q.kind said]
    split
    · apply Reading.Paired.after
      apply (Reading.Paired.expect next _ (by decide)).andThen
      intro name name' c₁ c₁' progress _ named cursors₁
      exact callRest_paired (fun rs plain => .get (callees rs plain) named) cursors₁
    · apply Reading.Paired.after
      apply (arguments_paired next).andThen
      intro arguments arguments' c₁ c₁' progress _ given cursors₁
      apply (Reading.Paired.expect cursors₁ _ (by decide)).andThen
      intro paren paren' c₂ c₂' progress₂ _ closing cursors₂
      exact callRest_paired (fun rs plain => .call (callees rs plain) closing (given rs plain)) cursors₂
termination_by 32 * c.size

theorem arguments_paired {c c' : Cursor} (cursors : c.Beside q c') :
    Reading.Paired false q (Expr.AllParallel q.toPairing) (arguments c) (arguments c') := by
  rw [arguments, arguments, cursors.sees]
  split
  · exact .done cursors fun _ _ => .nil
  · exact (argumentsFrom_paired 0 cursors).weaken
termination_by 32 * c.size + 17

theorem argumentsFrom_paired (count : Nat) {c c' : Cursor} (cursors : c.Beside q c') :
    Reading.Paired false q (Expr.AllParallel q.toPairing) (argumentsFrom count c) (argumentsFrom count c') := by
  have same := size_limit c count .tooManyArguments
  rw [argumentsFrom, argumentsFrom]
  apply Reading.Paired.limited (by decide)
  apply (expression_paired (cursors.limit count _)).andThen
  intro first first' c₁ c₁' progress _ firsts cursors₁
  rcases cursors₁.accept [.comma] with ⟨none, none'⟩ | ⟨comma, comma', some, some', said, next⟩
  · rw [none, none']
    exact .done cursors₁ fun rs plain => .cons (firsts rs plain) .nil
  · rw [some, some']
    have shorter := comma.shorter
    apply Reading.Paired.after
    exact (argumentsFrom_paired (count + 1) next).map fun _ _ others rs plain =>
      .cons (firsts rs plain) (others rs plain)
termination_by 32 * c.size + 16

theorem primary_paired {c c' : Cursor} (cursors : c.Beside q c') : ExprPaired q (primary c) (primary c') := by
  rw [primary, primary]
  rcases cursors.take with ⟨none, none'⟩ | ⟨taken, taken', some, some', said, next⟩
  · rw [none, none']
    exact .fail cursors 1 (by decide)
  · rw [some, some']
    have shorter := taken.shorter
    dsimp only
    rw [q.kind said, q.literal said]
    have bound {rs : List Naming} (plain : Naming.Plain rs) : q.refers rs taken.next.nextId taken.token taken'.next.nextId
        taken'.token :=
      q.reference plain said next.numbers
    have valueless : ExprPaired q
        (.after taken (.failed ⟨taken.token, .literalValue⟩ taken.next (Nat.le_refl _) : Reading _ 0 _) : Reading c 1 Expr)
        (.after taken' (.failed ⟨taken'.token, .literalValue⟩ taken'.next (Nat.le_refl _) : Reading _ 0 _) :
          Reading c' 1 Expr) :=
      ⟨.valueless (taken.takes (List.mem_singleton.mpr rfl)), .failed ⟨said, rfl⟩ next⟩
    split
    · exact .after (.done next fun _ _ => .constant)
    · exact .after (.done next fun _ _ => .constant)
    · exact .after (.done next fun _ _ => .constant)
    · split
      · exact .after (.done next fun _ _ => .constant)
      · exact valueless
    · split
      · exact .after (.done next fun _ _ => .constant)
      · exact valueless
    · apply Reading.Paired.after
      apply (Reading.Paired.expect next _ (by decide)).andThen
      intro _ _ c₁ c₁' _ _ _ cursors₁
      apply (Reading.Paired.expect cursors₁ _ (by decide)).andThen
      intro method method' c₂ c₂' _ _ named cursors₂
      refine .read (fun rs plain => ?_) cursors₂.numbered (.numbered (.stay _))
      exact .super_ (q.reference plain said cursors₂.numbers) named
    · exact .after (.read (fun rs plain => .this_ (bound plain)) next.numbered (.numbered (.stay _)))
    · exact .after (.read (fun rs plain => .variable_ (bound plain)) next.numbered (.numbered (.stay _)))
    · apply Reading.Paired.after
      apply (expression_paired next).andThen
      intro e e' c₁ c₁' _ _ exprs cursors₁
      apply (Reading.Paired.expect cursors₁ _ (by decide)).andThen
      intro _ _ c₂ c₂' _ _ _ cursors₂
      exact .done cursors₂ fun rs plain => .grouping (exprs rs plain)
    · exact .fail cursors 1 (by decide)
termination_by 32 * c.size + 1

end

section

variable {p : Pairing}

theorem optional_of_parallel {e? e'? : Option Expr} (exprs : Option.Rel (Expr.Parallel p) e? e'?) {rs : List Naming}
    (plain : Naming.Plain rs) : Option.Rel (Expr.Alike p rs) e? e'? := rel_imp (fun _ _ exprs => exprs rs plain) exprs

structure ForClauses.Parallel (p : Pairing) (clauses clauses' : ForClauses) : Prop where
  initializer : Option.Rel (Stmt.Parallel p) clauses.initializer clauses'.initializer
  condition : Option.Rel (Expr.Parallel p) clauses.condition clauses'.condition
  increment : Option.Rel (Expr.Parallel p) clauses.increment clauses'.increment

theorem ForClauses.Parallel.loop {clauses clauses' : ForClauses} {body body' : Stmt} (heads : clauses.Parallel p clauses')
    (bodies : body.Parallel p body') : (clauses.loop body).Parallel p (clauses'.loop body') := by
  intro rs plain
  obtain ⟨initializer, condition, increment⟩ := clauses
  obtain ⟨initializer', condition', increment'⟩ := clauses'
  obtain ⟨first, second, third⟩ := heads
  have turns {rs : List Naming} (plain : Naming.Plain rs) :
      Stmt.Alike p rs (ForClauses.loop ⟨none, condition, increment⟩ body)
        (ForClauses.loop ⟨none, condition', increment'⟩ body') := by
    have head : Expr.Alike p rs (condition.getD (.constant (.bool true))) (condition'.getD (.constant (.bool true))) := by
      cases second with
      | none => exact .constant
      | some exprs => exact exprs rs plain
    cases third with
    | none => exact .while_ head (bodies rs plain)
    | some exprs =>
      exact .while_ head (.block .id (.cons (bodies _ plain.cons) (.cons (.expression (exprs _ plain.cons)) .nil)))
  cases first with
  | none => exact turns plain
  | some stmts => exact .block .id (.cons (stmts _ plain.cons) (.cons (turns plain.cons) .nil))

end

abbrev StmtPaired (q : Comparison) {c c' : Cursor} {gain : Nat} (reading : Reading c gain Stmt)
    (reading' : Reading c' gain Stmt) : Prop :=
  reading.Paired true q (Stmt.Parallel q.toPairing) reading'

theorem expressionUnless_paired (kind : Kind) (cursors : c.Beside q c') :
    Reading.Paired true q (Option.Rel (Expr.Parallel q.toPairing)) (expressionUnless kind c) (expressionUnless kind c') := by
  unfold expressionUnless
  rw [cursors.sees]
  split
  · exact .done cursors .none
  · exact ((expression_paired cursors).deepen.map fun _ _ exprs => .some exprs).weaken

theorem initializer_paired (cursors : c.Beside q c') :
    Reading.Paired true q (Option.Rel (Expr.Parallel q.toPairing)) (initializer c) (initializer c') := by
  unfold initializer
  rcases cursors.accept [.equal] with ⟨none, none'⟩ | ⟨equals, equals', some, some', said, next⟩
  · rw [none, none']
    exact .done cursors .none
  · rw [some, some']
    exact .after ((expression_paired next).deepen.map fun _ _ exprs => .some exprs)

theorem varDeclaration_paired (cursors : c.Beside q c') : StmtPaired q (varDeclaration c) (varDeclaration c') := by
  rw [varDeclaration_eq, varDeclaration_eq]
  apply (Reading.Paired.expect cursors _ (by decide)).andThen
  intro name name' c₁ c₁' _ _ named cursors₁
  apply (initializer_paired cursors₁).andThen
  intro e? e'? c₂ c₂' _ _ exprs cursors₂
  apply (Reading.Paired.expect cursors₂ _ (by decide)).andThen
  intro _ _ c₃ c₃' _ _ _ cursors₃
  exact .done cursors₃ fun rs plain => .var_ (Pairing.declares_of_plain plain named) (optional_of_parallel exprs plain)

theorem expressionStatement_paired (cursors : c.Beside q c') :
    StmtPaired q (expressionStatement c) (expressionStatement c') := by
  apply (expression_paired cursors).deepen.andThen
  intro e e' c₁ c₁' _ _ exprs cursors₁
  apply (Reading.Paired.expect cursors₁ _ (by decide)).andThen
  intro _ _ c₂ c₂' _ _ _ cursors₂
  exact .done cursors₂ fun rs plain => .expression (exprs rs plain)

theorem printStatement_paired (cursors : c.Beside q c') : StmtPaired q (printStatement c) (printStatement c') := by
  apply (expression_paired cursors).deepen.andThen
  intro e e' c₁ c₁' _ _ exprs cursors₁
  apply (Reading.Paired.expect cursors₁ _ (by decide)).andThen
  intro _ _ c₂ c₂' _ _ _ cursors₂
  exact .done cursors₂ fun rs plain => .print_ (exprs rs plain)

theorem returnStatement_paired {keyword keyword' : Token} (said : q.tokens keyword keyword') (cursors : c.Beside q c') :
    StmtPaired q (returnStatement keyword c) (returnStatement keyword' c') := by
  apply (expressionUnless_paired .semicolon cursors).andThen
  intro e? e'? c₁ c₁' _ _ exprs cursors₁
  apply (Reading.Paired.expect cursors₁ _ (by decide)).andThen
  intro _ _ c₂ c₂' _ _ _ cursors₂
  exact .done cursors₂ fun rs plain => .return_ said (optional_of_parallel exprs plain)

theorem parametersFrom_paired (count : Nat) (cursors : c.Beside q c') :
    Reading.Paired true q (List.Forall₂ q.tokens) (parametersFrom count c) (parametersFrom count c') := by
  induction size : c.size using Nat.strongRecOn generalizing count c c' with
  | ind n ih =>
    rw [parametersFrom, parametersFrom]
    apply Reading.Paired.limited (by decide)
    apply (Reading.Paired.expect (cursors.limit count _) _ (by decide)).andThen
    intro first first' c₁ c₁' progress _ named cursors₁
    rcases cursors₁.accept [.comma] with ⟨none, none'⟩ | ⟨comma, comma', some, some', said, next⟩
    · rw [none, none']
      exact .done cursors₁ (.cons named .nil)
    · rw [some, some']
      have shorter := comma.shorter
      rw [size_limit] at progress
      apply Reading.Paired.after
      exact (ih comma.next.size (by omega) (count + 1) next rfl).map fun _ _ others => .cons named others

theorem parameters_paired (cursors : c.Beside q c') :
    Reading.Paired true q (List.Forall₂ q.tokens) (parameters c) (parameters c') := by
  unfold parameters
  rw [cursors.sees]
  split
  · exact .done cursors .nil
  · exact (parametersFrom_paired 0 cursors).weaken

theorem forInitializer_paired (cursors : c.Beside q c') :
    Reading.Paired true q (Option.Rel (Stmt.Parallel q.toPairing)) (forInitializer c) (forInitializer c') := by
  unfold forInitializer
  rcases cursors.accept [.semicolon, .keyword .var_] with ⟨none, none'⟩ | ⟨front, front', some, some', said, next⟩
  · rw [none, none']
    exact (expressionStatement_paired cursors).map fun _ _ stmts => .some stmts
  · rw [some, some']
    dsimp only
    rw [q.kind said]
    split
    · exact .after (.done next .none)
    · exact .after ((varDeclaration_paired next).map fun _ _ stmts => .some stmts)

theorem forClauses_paired (cursors : c.Beside q c') :
    Reading.Paired true q (ForClauses.Parallel q.toPairing) (forClauses c) (forClauses c') := by
  rw [forClauses_eq, forClauses_eq]
  apply (Reading.Paired.expect cursors _ (by decide)).andThen
  intro _ _ c₁ c₁' _ _ _ cursors₁
  apply (forInitializer_paired cursors₁).andThen
  intro s? s'? c₂ c₂' _ _ first cursors₂
  apply (expressionUnless_paired .semicolon cursors₂).andThen
  intro condition condition' c₃ c₃' _ _ second cursors₃
  apply (Reading.Paired.expect cursors₃ _ (by decide)).andThen
  intro _ _ c₄ c₄' _ _ _ cursors₄
  apply (expressionUnless_paired .rightParen cursors₄).andThen
  intro increment increment' c₅ c₅' _ _ third cursors₅
  apply (Reading.Paired.expect cursors₅ _ (by decide)).andThen
  intro _ _ c₆ c₆' _ _ _ cursors₆
  exact .done cursors₆ ⟨first, second, third⟩

theorem superclass_paired (cursors : c.Beside q c') :
    Reading.Paired true q (Option.Rel (Expr.Parallel q.toPairing)) (superclass c) (superclass c') := by
  unfold superclass
  rcases cursors.accept [.less] with ⟨none, none'⟩ | ⟨less, less', some, some', said, next⟩
  · rw [none, none']
    exact .done cursors .none
  · rw [some, some']
    apply Reading.Paired.after
    apply (Reading.Paired.expect next _ (by decide)).andThen
    intro name name' c₁ c₁' _ _ named cursors₁
    refine .read (.some fun rs plain => ?_) cursors₁.numbered (.numbered (.stay _))
    exact .variable_ (q.reference plain named cursors₁.numbers)

structure Declared.Paired (q : Comparison) (declared : Declared c) (declared' : Declared c') : Prop where
  course : c.Course true none declared.next
  statement : Option.Rel (Stmt.Parallel q.toPairing) declared.statement? declared'.statement?
  next : declared.next.Beside q declared'.next

theorem Declared.Paired.ofReading {reading : Reading c 1 Stmt} {reading' : Reading c' 1 Stmt} {pending : 0 < c.size}
    {pending' : 0 < c'.size} (readings : StmtPaired q reading reading') :
    Declared.Paired q (.ofReading pending reading) (.ofReading pending' reading') := by
  obtain ⟨runs, beside⟩ := readings
  cases beside with
  | read stmts cursors => exact ⟨runs, .some stmts, cursors⟩
  | failed misreadings cursors => exact ⟨.recovered runs (.stay _), .none, cursors.recover misreadings⟩

theorem prepend_parallel {stmt? stmt'? : Option Stmt} {rest rest' : List Stmt}
    (first : Option.Rel (Stmt.Parallel q.toPairing) stmt? stmt'?) (others : Stmt.AllParallel q.toPairing rest rest') :
    Stmt.AllParallel q.toPairing (stmt?.toList ++ rest) (stmt'?.toList ++ rest') := by
  cases first with
  | none => exact others
  | some stmts => exact fun rs plain => .cons (stmts rs plain) (others rs plain)

mutual

theorem declarationReading_paired {c c' : Cursor} (cursors : c.Beside q c') :
    StmtPaired q (declarationReading c) (declarationReading c') := by
  unfold declarationReading
  rcases cursors.accept [.keyword .class_, .keyword .fun_, .keyword .var_] with
    ⟨none, none'⟩ | ⟨front, front', some, some', said, next⟩
  · rw [none, none']
    exact statement_paired cursors
  · rw [some, some']
    have shorter := front.shorter
    dsimp only
    rw [q.kind said]
    split
    · exact .after (classDeclaration_paired next)
    · apply Reading.Paired.after
      refine (function_paired .function next).map fun _ _ declared rs plain => ?_
      exact .function (Pairing.fixes_of_plain plain (declared rs plain).named) (declared rs plain)
    · exact .after (varDeclaration_paired next)
termination_by 8 * c.size + 2

theorem declaration_paired {c c' : Cursor} (pending : 0 < c.size) (pending' : 0 < c'.size) (cursors : c.Beside q c') :
    Declared.Paired q (declaration c pending) (declaration c' pending') := by
  rw [declaration_eq, declaration_eq]
  exact .ofReading (declarationReading_paired cursors)
termination_by 8 * c.size + 3

theorem classDeclaration_paired {c c' : Cursor} (cursors : c.Beside q c') :
    StmtPaired q (classDeclaration c) (classDeclaration c') := by
  rw [classDeclaration_eq, classDeclaration_eq]
  apply (Reading.Paired.expect cursors _ (by decide)).andThen
  intro name name' c₁ c₁' progress _ named cursors₁
  apply (superclass_paired cursors₁).andThen
  intro e? e'? c₂ c₂' progress₂ _ extended cursors₂
  apply (Reading.Paired.expect cursors₂ _ (by decide)).andThen
  intro _ _ c₃ c₃' progress₃ _ _ cursors₃
  apply (methods_paired cursors₃).andThen
  intro ds ds' c₄ c₄' _ _ declared cursors₄
  apply (Reading.Paired.expect cursors₄ _ (by decide)).andThen
  intro _ _ c₅ c₅' _ _ _ cursors₅
  refine .done cursors₅ fun rs plain => ?_
  have fixes := Pairing.fixes_of_plain plain named
  cases extended with
  | none => exact .base fixes (declared _ plain.cons)
  | some exprs => exact .derived fixes (exprs rs plain) (declared _ plain.cons.cons)
termination_by 8 * c.size

theorem methods_paired {c c' : Cursor} (cursors : c.Beside q c') :
    Reading.Paired true q (FunctionDecl.AllParallel q.toPairing) (methods c) (methods c') := by
  rw [methods, methods, cursors.sees, cursors.atEnd]
  split
  · exact .done cursors fun _ _ => .nil
  · apply Reading.Paired.weaken
    apply (function_paired .method cursors).andThen
    intro d d' c₁ c₁' progress _ declared cursors₁
    exact (methods_paired cursors₁).map fun _ _ others rs plain => .cons (declared rs plain) (others rs plain)
termination_by 8 * c.size + 1

theorem function_paired (role : FunctionRole) {c c' : Cursor} (cursors : c.Beside q c') :
    Reading.Paired true q (FunctionDecl.Parallel q.toPairing) (function role c) (function role c') := by
  rw [function, function]
  apply (Reading.Paired.expect cursors _ rfl).andThen
  intro name name' c₁ c₁' progress _ named cursors₁
  apply (Reading.Paired.expect cursors₁ _ rfl).andThen
  intro _ _ c₂ c₂' progress₂ _ _ cursors₂
  apply (parameters_paired cursors₂).andThen
  intro params params' c₃ c₃' progress₃ _ entries cursors₃
  apply (Reading.Paired.expect cursors₃ _ (by decide)).andThen
  intro _ _ c₄ c₄' progress₄ _ _ cursors₄
  apply (Reading.Paired.expect cursors₄ _ rfl).andThen
  intro _ _ c₅ c₅' progress₅ _ _ cursors₅
  refine (block_paired cursors₅).map fun _ _ bodies rs plain => ?_
  exact .mk .id named (entries.imp fun _ _ => Pairing.declares_of_plain plain.cons) (bodies _ plain.cons)
termination_by 8 * c.size

theorem statement_paired {c c' : Cursor} (cursors : c.Beside q c') : StmtPaired q (statement c) (statement c') := by
  rw [statement, statement]
  rcases cursors.accept [.keyword .for_, .keyword .if_, .keyword .print_, .keyword .return_, .keyword .while_,
    .leftBrace] with ⟨none, none'⟩ | ⟨front, front', some, some', said, next⟩
  · rw [none, none']
    exact expressionStatement_paired cursors
  · rw [some, some']
    have shorter := front.shorter
    dsimp only
    rw [q.kind said]
    split
    · apply Reading.Paired.after
      apply (forClauses_paired next).andThen
      intro clauses clauses' c₁ c₁' progress _ heads cursors₁
      exact (statement_paired cursors₁).map fun _ _ bodies => heads.loop bodies
    · apply Reading.Paired.after
      apply (Reading.Paired.expect next _ (by decide)).andThen
      intro _ _ c₁ c₁' progress _ _ cursors₁
      apply (expression_paired cursors₁).deepen.andThen
      intro condition condition' c₂ c₂' progress₂ _ heads cursors₂
      apply (Reading.Paired.expect cursors₂ _ (by decide)).andThen
      intro _ _ c₃ c₃' progress₃ _ _ cursors₃
      apply (statement_paired cursors₃).andThen
      intro thenBranch thenBranch' c₄ c₄' progress₄ _ firsts cursors₄
      rcases cursors₄.accept [.keyword .else_] with ⟨none, none'⟩ | ⟨else_, else_', some, some', -, next₄⟩
      · rw [none, none']
        exact .done cursors₄ fun rs plain => .ifThen (heads rs plain) (firsts rs plain)
      · rw [some, some']
        have shorter₄ := else_.shorter
        apply Reading.Paired.after
        exact (statement_paired next₄).map fun _ _ seconds rs plain =>
          .ifThenElse (heads rs plain) (firsts rs plain) (seconds rs plain)
    · exact .after (printStatement_paired next)
    · exact .after (returnStatement_paired said next)
    · apply Reading.Paired.after
      apply (Reading.Paired.expect next _ (by decide)).andThen
      intro _ _ c₁ c₁' progress _ _ cursors₁
      apply (expression_paired cursors₁).deepen.andThen
      intro condition condition' c₂ c₂' progress₂ _ heads cursors₂
      apply (Reading.Paired.expect cursors₂ _ (by decide)).andThen
      intro _ _ c₃ c₃' progress₃ _ _ cursors₃
      exact (statement_paired cursors₃).map fun _ _ bodies rs plain => .while_ (heads rs plain) (bodies rs plain)
    · apply Reading.Paired.after
      exact (block_paired next).map fun _ _ bodies rs plain => .block .id (bodies _ plain.cons)
termination_by 8 * c.size + 1

theorem block_paired {c c' : Cursor} (cursors : c.Beside q c') :
    Reading.Paired true q (Stmt.AllParallel q.toPairing) (block c) (block c') := by
  rw [block, block]
  rcases cursors.accept [.rightBrace] with ⟨none, none'⟩ | ⟨brace, brace', some, some', said, next⟩
  · rw [none, none']
    dsimp only
    by_cases ended : c.atEnd = true
    · rw [dif_pos ended, dif_pos (cursors.atEnd.trans ended)]
      exact .fail cursors 1 (by decide)
    · have ended' : ¬c'.atEnd = true := cursors.atEnd ▸ ended
      rw [dif_neg ended, dif_neg ended']
      have declared := declaration_paired (Cursor.size_pos ended) (Cursor.size_pos ended') cursors
      generalize declaration c (Cursor.size_pos ended) = first at declared ⊢
      generalize declaration c' (Cursor.size_pos ended') = first' at declared ⊢
      obtain ⟨stmt?, next, shorter⟩ := first
      obtain ⟨stmt'?, next', shorter'⟩ := first'
      have nexts : next.Beside q next' := declared.next
      have rest := block_paired nexts
      dsimp only
      generalize block next = reading at rest ⊢
      generalize block next' = reading' at rest ⊢
      obtain ⟨runs, beside⟩ := rest
      cases beside with
      | read others cursors =>
        exact ⟨Cursor.Course.trans declared.course runs, .read (prepend_parallel declared.statement others) cursors⟩
      | failed misreadings cursors => exact ⟨Cursor.Course.trans declared.course runs, .failed misreadings cursors⟩
  · rw [some, some']
    exact .after (.done next fun _ _ => .nil)
termination_by 8 * c.size + 4

end

theorem declarations_paired (cursors : c.Beside q c') :
    c.Course true none (declarations c).2 ∧ Stmt.AllParallel q.toPairing (declarations c).1 (declarations c').1 ∧
      (declarations c).2.Beside q (declarations c').2 := by
  induction size : c.size using Nat.strongRecOn generalizing c c' with
  | ind n ih =>
    rw [declarations, declarations]
    by_cases ended : c.atEnd = true
    · rw [dif_pos ended, dif_pos (cursors.atEnd.trans ended)]
      exact ⟨.stay c, fun _ _ => .nil, cursors⟩
    · have ended' : ¬c'.atEnd = true := cursors.atEnd ▸ ended
      rw [dif_neg ended, dif_neg ended']
      have declared := declaration_paired (Cursor.size_pos ended) (Cursor.size_pos ended') cursors
      generalize declaration c (Cursor.size_pos ended) = first at declared ⊢
      generalize declaration c' (Cursor.size_pos ended') = first' at declared ⊢
      obtain ⟨stmt?, next, shorter⟩ := first
      obtain ⟨stmt'?, next', shorter'⟩ := first'
      obtain ⟨onward, others, last⟩ := ih next.size (by omega) declared.next rfl
      exact ⟨Cursor.Course.trans declared.course onward, prepend_parallel declared.statement others, last⟩

def Comparison.repeating (ms ms' : List Misreading) : Comparison where
  tokens t t' := t = t'
  names t t' := t = t'
  refers _ _ t _ t' := t = t'
  kind same := congrArg Token.kind same.symm
  lexeme same := congrArg Token.lexeme same.symm
  tokens_names := id
  refers_names := id
  numbers _ _ := True
  before := ms
  before' := ms'
  literal same := congrArg Token.literal same.symm
  same := id
  following := id
  reference _ same _ := same

theorem Comparison.alike_repeating {ms ms' : List Misreading} {misreading misreading' : Misreading} :
    misreading.Alike (repeating ms ms').toPairing misreading' ↔ misreading = misreading' := by
  constructor
  · rintro ⟨token, fault⟩
    exact congr (congrArg Misreading.mk token) fault.symm
  · rintro rfl
    exact ⟨rfl, rfl⟩

theorem Cursor.beside_repeating {ms ms' : List Misreading} : c.Beside (.repeating ms ms') c' ↔
    c.pending = c'.pending ∧ c.stop = c'.stop ∧ ∃ new, c.misreadings = new ++ ms ∧ c'.misreadings = new ++ ms' := by
  have same (new new' : List Misreading) :
      List.Forall₂ (Misreading.Alike (Comparison.repeating ms ms').toPairing) new new' ↔ new = new' := by
    rw [← List.forall₂_eq_eq_eq]
    exact ⟨.imp fun _ _ => Comparison.alike_repeating.mp, .imp fun _ _ => Comparison.alike_repeating.mpr⟩
  constructor
  · rintro ⟨pending, stop, -, new, new', first, second, alike⟩
    rw [(same new new').mp alike] at first
    exact ⟨List.forall₂_eq_eq_eq ▸ pending, stop, new', first, second⟩
  · rintro ⟨pending, stop, new, first, second⟩
    exact ⟨List.forall₂_eq_eq_eq ▸ pending, stop, trivial, new, new, first, second, (same new new).mpr rfl⟩

end Grammar

structure Pairing.Shifts (p : Pairing) (low shift : NodeId) : Prop where
  literal : ∀ {t t' : Token}, p.tokens t t' → t'.literal = t.literal
  same : ∀ {rs : List Naming} {id id' : NodeId} {t t' : Token}, p.refers rs id t id' t' → p.tokens t t'
  refers : ∀ {rs : List Naming} {id : NodeId} {t t' : Token}, Naming.Plain rs → p.tokens t t' → low ≤ id →
    p.refers rs id t (id + shift) t'

theorem Pairing.isEof_eq {p : Pairing} {t t' : Token} (said : p.tokens t t') : t'.isEof = t.isEof := by
  rw [Token.isEof, Token.isEof, p.kind said]

section

variable {p : Pairing} {low shift : NodeId} (shifts : p.Shifts low shift)

def Grammar.Comparison.shifting : Grammar.Comparison where
  toPairing := p
  numbers id id' := low ≤ id ∧ id' = id + shift
  before := []
  before' := []
  literal := shifts.literal
  same := shifts.same
  following numbers := ⟨Nat.le_succ_of_le numbers.1, by rw [numbers.2, Nat.add_right_comm]⟩
  reference plain said numbers := numbers.2 ▸ shifts.refers plain said numbers.1

variable {shifts}

theorem Grammar.Cursor.Beside.recorded {c c' : Grammar.Cursor} (cursors : c.Beside (.shifting shifts) c') :
    List.Forall₂ (Misreading.Alike p) c.misreadings c'.misreadings := by
  obtain ⟨new, new', first, second, alike⟩ := cursors.misreadings
  rw [first, second]
  change List.Forall₂ _ (new ++ []) (new' ++ [])
  rw [List.append_nil, List.append_nil]
  exact alike

theorem Grammar.Cursor.ofTokens_beside {tokens tokens' : List Token} (said : List.Forall₂ p.tokens tokens tokens')
    (ending : p.tokens ⟨.eof, "", none, 1⟩ ⟨.eof, "", none, 1⟩) :
    (Grammar.Cursor.ofTokens tokens low).Beside (.shifting shifts) (.ofTokens tokens' (low + shift)) := by
  suffices both : List.Forall₂ p.tokens (tokens.takeWhile (!·.isEof)) (tokens'.takeWhile (!·.isEof)) ∧
      p.tokens ((tokens.find? Token.isEof).getD ⟨.eof, "", none, 1⟩)
        ((tokens'.find? Token.isEof).getD ⟨.eof, "", none, 1⟩) by
    exact ⟨both.1, both.2, ⟨Nat.le_refl _, rfl⟩, [], [], rfl, rfl, .nil⟩
  induction said with
  | nil => exact ⟨.nil, ending⟩
  | @cons t t' rest rest' here others ih =>
    have same := Pairing.isEof_eq here
    by_cases ended : t.isEof = true
    · simp [ended, same, here]
    · simpa [ended, same, here] using ih

end

theorem parseProgram_alike {p : Pairing} {shift nextId : NodeId} {tokens tokens' : List Token}
    (shifts : p.Shifts nextId shift) (said : List.Forall₂ p.tokens tokens tokens')
    (ending : p.tokens ⟨.eof, "", none, 1⟩ ⟨.eof, "", none, 1⟩) :
    Stmt.AllParallel p (parseProgram tokens nextId).value (parseProgram tokens' (nextId + shift)).value ∧
      List.Forall₂ (Misreading.Alike p) (parseProgram tokens nextId).misreadings
        (parseProgram tokens' (nextId + shift)).misreadings ∧
      (parseProgram tokens' (nextId + shift)).nextId = (parseProgram tokens nextId).nextId + shift := by
  have beginning : (Grammar.Cursor.ofTokens tokens nextId).Beside (.shifting shifts) _ :=
    Grammar.Cursor.ofTokens_beside said ending
  obtain ⟨-, stated, last⟩ := Grammar.declarations_paired beginning
  exact ⟨stated, List.rel_reverse last.recorded, last.numbers.2⟩

end Lox
