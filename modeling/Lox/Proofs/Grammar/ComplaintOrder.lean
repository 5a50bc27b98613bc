import Lox.Proofs.Grammar.AlikeReading
import Lox.Proofs.Grammar.Relabelling
import Lox.Proofs.Tree.RoundTrip

namespace Lox

structure Complaint where
  place : Nat
  fault : SyntaxFault
deriving DecidableEq

def Misreading.complaint (misreading : Misreading) : Complaint := ⟨misreading.token.line, misreading.fault⟩

/-- The tokens up to the first end token, which is added if there is none. -/
def upToEnd (tokens : List Token) : List Token :=
  tokens.takeWhile (!·.isEof) ++ [(tokens.find? Token.isEof).getD ⟨.eof, "", none, 1⟩]

/-- The tokens with their places in place of their lines. -/
def placed (tokens : List Token) : List Token := tokens.mapIdx fun place token => { token with line := place }

def complaints (tokens : List Token) : List Complaint :=
  (parseProgram (placed (upToEnd tokens)) 0).misreadings.map Misreading.complaint

def Grammar.Cursor.behind (c : Cursor) (place : Nat) : Cursor := { c with pending := c.pending.drop (place + 1) }

def Grammar.Reading.length {c : Cursor} {gain : Nat} {α : Type} : Reading c gain α → Nat
  | .read _ next _ => c.size - next.size
  | .failed .. => 0

/-- How many tokens are read as a value behind this place. -/
def valueLength (tokens : List Token) (place : Nat) : Nat :=
  (Grammar.expression ((Grammar.Cursor.ofTokens tokens 0).behind place)).length

def Complaint.Locates (tokens : List Token) (a : Complaint) (misreading : Misreading) : Prop :=
  (upToEnd tokens)[a.place]? = some misreading.token ∧ misreading.fault = a.fault

/-- The token of the first complaint is one of the value that is assigned to the refused target of the second. -/
def Complaint.InValueOf (tokens : List Token) (a b : Complaint) : Prop :=
  b.fault = .assignmentTarget ∧ b.place < a.place ∧ a.place ≤ b.place + valueLength tokens b.place

instance (tokens : List Token) (a b : Complaint) : Decidable (a.InValueOf tokens b) :=
  inferInstanceAs (Decidable (_ ∧ _ ∧ _))

namespace Complaint

variable (length : Nat → Nat)

/-- The place behind what the complaint is about, where the values have these lengths. -/
def reach (a : Complaint) : Nat :=
  if a.fault = .assignmentTarget then a.place + length a.place + 1 else a.place

def Before (a b : Complaint) : Prop :=
  a.reach length ≤ b.place ∨
    b.fault = .assignmentTarget ∧ b.place < a.place ∧ a.place ≤ b.place + length b.place

variable {length}

theorem place_le_reach (a : Complaint) : a.place ≤ a.reach length := by
  unfold reach
  split <;> omega

theorem reach_other {a : Complaint} (other : a.fault ≠ .assignmentTarget) : a.reach length = a.place := if_neg other

theorem reach_target {a : Complaint} (target : a.fault = .assignmentTarget) :
    a.reach length = a.place + length a.place + 1 :=
  if_pos target

theorem either_first {R : Complaint → Complaint → Prop} {found : List Complaint} (ordered : found.Pairwise R)
    {a b : Complaint} (first : a ∈ found) (second : b ∈ found) (other : a ≠ b) : R a b ∨ R b a := by
  have symmetric : Std.Symm fun a b => R a b ∨ R b a := ⟨fun _ _ => Or.symm⟩
  exact (ordered.imp (S := fun a b => R a b ∨ R b a) fun lies => .inl lies).forall first second other

theorem sorted_iff {found : List Complaint} (before : found.Pairwise (Before length)) :
    found.Pairwise (fun a b => a.place ≤ b.place) ↔
      ∀ a ∈ found, ∀ b ∈ found,
        ¬ (b.fault = .assignmentTarget ∧ b.place < a.place ∧ a.place ≤ b.place + length b.place) := by
  constructor
  · rintro sorted a first b second ⟨target, less, inside⟩
    have other : a ≠ b := by
      rintro rfl
      omega
    rcases either_first (before.and sorted) first second other with ⟨-, least⟩ | ⟨behind | ⟨-, more, -⟩, -⟩
    · omega
    · rw [reach_target target] at behind
      omega
    · omega
  · intro apart
    refine before.imp_of_mem fun {a b} first second lies => ?_
    rcases lies with behind | inside
    · exact Nat.le_trans a.place_le_reach behind
    · exact absurd inside (apart a first b second)

end Complaint

namespace Grammar

structure Placed (body : List Token) (stop : Token) : Prop where
  token : ∀ (place : Nat) (inside : place < body.length), body[place].line = place
  ending : stop.line = body.length

structure Cursor.At (body : List Token) (stop : Token) (place : Nat) (c : Cursor) : Prop where
  inside : place ≤ body.length
  pending : c.pending = body.drop place
  stop : c.stop = stop

namespace Cursor.At

variable {body : List Token} {stop : Token} {place place' : Nat} {c next : Cursor}

theorem size (stands : c.At body stop place) : c.size + place = body.length := by
  have inside := stands.inside
  rw [Cursor.size, stands.pending, List.length_drop]
  omega

theorem peek (placed : Placed body stop) (stands : c.At body stop place) : c.peek.line = place := by
  rw [Cursor.peek, stands.pending, stands.stop]
  rcases Nat.lt_or_eq_of_le stands.inside with inside | rfl
  · rw [List.drop_eq_getElem_cons inside, List.headD_cons]
    exact placed.token place inside
  · rw [List.drop_length, List.headD_nil]
    exact placed.ending

theorem take {kinds : List Kind} {token : Token} (placed : Placed body stop) (stands : c.At body stop place)
    (taken : c.Takes kinds token next) : token.line = place ∧ next.At body stop (place + 1) := by
  obtain ⟨-, front, rest⟩ := taken
  rw [stands.pending] at front
  have inside : place < body.length := by
    rw [← Nat.not_le]
    intro beyond
    rw [List.drop_eq_nil_of_le beyond] at front
    cases front
  rw [List.drop_eq_getElem_cons inside] at front
  obtain ⟨rfl, behind⟩ := List.cons.inj front
  refine ⟨placed.token place inside, inside, behind.symm, ?_⟩
  rw [rest]
  exact stands.stop

theorem record (stands : c.At body stop place) (token : Token) (fault : SyntaxFault) :
    (c.record token fault).At body stop place :=
  ⟨stands.inside, stands.pending, stands.stop⟩

theorem leads (stands : c.At body stop place) (led : c.Leads next) :
    next.At body stop (place + (c.size - next.size)) := by
  obtain ⟨taken, cut⟩ := led.pending
  have total := congrArg List.length cut
  have size := stands.size
  rw [List.length_append] at total
  change taken.length + next.size = c.size at total
  refine ⟨by omega, ?_, led.stop.trans stands.stop⟩
  rw [← List.drop_drop, ← stands.pending, ← cut, ← total, Nat.add_sub_cancel, List.drop_left]

end Cursor.At

structure Tidy (length : Nat → Nat) (deep : Bool) (place : Nat) (outcome : Option Misreading) (last : Nat)
    (new : List Misreading) : Prop where
  onward : place ≤ last
  ordered : new.Pairwise fun later earlier => earlier.complaint.Before length later.complaint
  inside : ∀ m ∈ new, place ≤ m.token.line ∧
    m.complaint.reach length ≤ outcome.elim last fun failure => failure.token.line
  failure : ∀ m ∈ outcome, place ≤ m.token.line ∧ m.token.line ≤ last ∧ m.fault ≠ .assignmentTarget
  -- A reading that ends well without a recovery has taken the tokens that it complained of.
  taken : deep = false → outcome = none → ∀ m ∈ new, m.token.line < last

namespace Tidy

variable {length : Nat → Nat} {deep : Bool} {place middle last : Nat} {outcome : Option Misreading} {m : Misreading}
  {new older : List Misreading}

theorem end_le (tidy : Tidy length deep place outcome last new) :
    place ≤ outcome.elim last fun failure => failure.token.line := by
  cases outcome with
  | none => exact tidy.onward
  | some failure => exact (tidy.failure failure rfl).1

theorem step (tidy : Tidy length deep middle outcome last new) (less : place ≤ middle) :
    Tidy length deep place outcome last new where
  onward := Nat.le_trans less tidy.onward
  ordered := tidy.ordered
  inside := fun m among => ⟨Nat.le_trans less (tidy.inside m among).1, (tidy.inside m among).2⟩
  failure := fun m among => ⟨Nat.le_trans less (tidy.failure m among).1, (tidy.failure m among).2⟩
  taken := tidy.taken

theorem append (tidy : Tidy length deep middle outcome last new) (less : place ≤ middle)
    (ordered : older.Pairwise fun later earlier => earlier.complaint.Before length later.complaint)
    (inside : ∀ m ∈ older, place ≤ m.token.line ∧ m.complaint.reach length ≤ middle)
    (taken : deep = false → outcome = none → ∀ m ∈ older, m.token.line < last) :
    Tidy length deep place outcome last (new ++ older) where
  onward := Nat.le_trans less tidy.onward
  ordered := by
    refine List.pairwise_append.mpr ⟨tidy.ordered, ordered, fun later among earlier among' => .inl ?_⟩
    exact Nat.le_trans (inside earlier among').2 (tidy.inside later among).1
  inside := by
    intro m among
    rcases List.mem_append.mp among with among | among
    · exact ⟨Nat.le_trans less (tidy.inside m among).1, (tidy.inside m among).2⟩
    · exact ⟨(inside m among).1, Nat.le_trans (inside m among).2 tidy.end_le⟩
  failure := fun m among => ⟨Nat.le_trans less (tidy.failure m among).1, (tidy.failure m among).2⟩
  taken := by
    intro plain well m among
    rcases List.mem_append.mp among with among | among
    · exact tidy.taken plain well m among
    · exact taken plain well m among

end Tidy

theorem Cursor.Course.tidy {body : List Token} {stop : Token} {length : Nat → Nat} (placed : Placed body stop)
    (measured : ∀ (c next : Cursor) (place : Nat) (value : Expr), c.At body stop (place + 1) →
      (expression c).Yields value next → next.At body stop (place + length place + 1))
    {deep : Bool} {c next : Cursor} {outcome : Option Misreading} (course : c.Course deep outcome next) :
    ∀ place, c.At body stop place → ∃ last new, next.At body stop last ∧ next.misreadings = new ++ c.misreadings ∧
      Tidy length deep place outcome last new := by
  induction course with
  | stay c =>
    intro place stands
    exact ⟨place, [], stands, rfl, Nat.le_refl _, .nil, by simp, by simp, by simp⟩
  | @front _ fault c stops =>
    intro place stands
    refine ⟨place, [], stands, rfl, Nat.le_refl _, .nil, by simp, ?_, by simp⟩
    rintro m ⟨⟩
    refine ⟨(stands.peek placed).ge, (stands.peek placed).le, ?_⟩
    rintro rfl
    cases stops
  | valueless taken =>
    intro place stands
    obtain ⟨line, behind⟩ := stands.take placed taken
    refine ⟨place + 1, [], behind, by rw [taken.2.2]; rfl, Nat.le_succ _, .nil, by simp, ?_, by simp⟩
    rintro m ⟨⟩
    exact ⟨line.ge, Nat.le_succ_of_le line.le, by simp⟩
  | take taken _ ih =>
    intro place stands
    obtain ⟨last, new, stands', recorded, tidy⟩ := ih (place + 1) (stands.take placed taken).2
    refine ⟨last, new, stands', ?_, tidy.step (Nat.le_succ _)⟩
    rw [recorded, taken.2.2]
  | numbered _ ih =>
    intro place stands
    exact ih place ⟨stands.inside, stands.pending, stands.stop⟩
  | @limited _ c next fault outcome other _ onward ih =>
    intro place stands
    have line := stands.peek placed
    obtain ⟨last, new, stands', recorded, tidy⟩ := ih place (stands.record _ _)
    have reach : (Misreading.complaint ⟨c.peek, fault⟩).reach length = place :=
      (Complaint.reach_other other).trans line
    refine ⟨last, new ++ [⟨c.peek, fault⟩], stands', ?_, tidy.append (Nat.le_refl _) (List.pairwise_singleton _ _) ?_ ?_⟩
    · rw [recorded, List.append_assoc]
      rfl
    · simp [line, reach]
    · intro _ well
      have sizes := onward well
      have before := stands.size
      have behind := stands'.size
      simp only [List.mem_singleton, forall_eq, line]
      omega
  | @refused _ c c₁ c₂ next equals value outcome sign assigned _ _ ih₁ ih₂ =>
    intro place stands
    obtain ⟨line, stands₁⟩ := stands.take placed sign
    have stands₂ := measured _ _ _ _ stands₁ assigned
    obtain ⟨middle, older, stands₂', recorded, inner⟩ := ih₁ (place + 1) stands₁
    -- The inner course ends where the value ends, by its length and by its places.
    have same : middle = place + length place + 1 := by
      have first := stands₂.size
      have second := stands₂'.size
      omega
    obtain ⟨last, new, stands', recorded', tidy⟩ := ih₂ middle (stands₂'.record _ _)
    have reach : (Misreading.complaint ⟨equals, .assignmentTarget⟩).reach length = middle := by
      rw [Complaint.reach_target rfl, same]
      simp only [Misreading.complaint, line]
    refine ⟨last, new ++ ⟨equals, .assignmentTarget⟩ :: older, stands', ?_, tidy.append (by omega) ?_ ?_ ?_⟩
    · rw [recorded', List.append_assoc, List.cons_append]
      change new ++ _ :: c₂.misreadings = _
      rw [recorded, sign.2.2]
    · refine List.pairwise_cons.mpr ⟨fun earlier among => .inr ⟨rfl, ?_⟩, inner.ordered⟩
      have first := (inner.inside earlier among).1
      have second := inner.taken rfl rfl earlier among
      simp only [Misreading.complaint, line]
      omega
    · intro m among
      rcases List.mem_cons.mp among with rfl | among
      · exact ⟨line.ge, reach.le⟩
      · exact ⟨Nat.le_of_succ_le (inner.inside m among).1, (inner.inside m among).2⟩
    · intro _ well m among
      have onward := tidy.onward
      rcases List.mem_cons.mp among with rfl | among
      · simp only [line]
        omega
      · exact Nat.lt_of_lt_of_le (inner.taken rfl rfl m among) onward
  | @recovered c c₁ next misreading outcome _ _ ih₁ ih₂ =>
    intro place stands
    obtain ⟨middle, older, stands₁, recorded, broken⟩ := ih₁ place stands
    obtain ⟨least, most, other⟩ := broken.failure misreading rfl
    have stands₂ := stands₁.leads (.recover c₁ misreading)
    have onward : middle ≤ middle + (c₁.size - (c₁.recover misreading).size) := Nat.le_add_right _ _
    obtain ⟨last, new, stands', recorded', tidy⟩ := ih₂ _ stands₂
    have reach : misreading.complaint.reach length = misreading.token.line := Complaint.reach_other other
    refine ⟨last, new ++ misreading :: older, stands', ?_,
      tidy.append (Nat.le_trans broken.onward onward) ?_ ?_ (by simp)⟩
    · rw [recorded', List.append_assoc, List.cons_append]
      change new ++ _ :: c₁.misreadings = _
      rw [recorded]
    · exact List.pairwise_cons.mpr ⟨fun earlier among => .inl (broken.inside earlier among).2, broken.ordered⟩
    · intro m among
      rcases List.mem_cons.mp among with rfl | among
      · refine ⟨least, ?_⟩
        omega
      · refine ⟨(broken.inside m among).1, ?_⟩
        have behind : m.complaint.reach length ≤ misreading.token.line := (broken.inside m among).2
        omega

section

variable {c c' : Cursor} {gain : Nat} {α β : Type} {reading : Reading c gain α} {reading' : Reading c' gain β}

theorem Reading.Yields.length {value : α} {next : Cursor} (yields : reading.Yields value next) :
    reading.length = c.size - next.size := by
  obtain ⟨progress, rfl⟩ := yields
  rfl

theorem Reading.Beside.length {q : Comparison} {R : α → β → Prop} (beside : reading.Beside q R reading')
    (sizes : c.size = c'.size) : reading.length = reading'.length := by
  cases beside with
  | read _ cursors => exact congr (congrArg Nat.sub sizes) cursors.size.symm
  | failed => rfl

theorem Cursor.Beside.behind {q : Comparison} (cursors : c.Beside q c') (place : Nat) :
    (c.behind place).Beside q (c'.behind place) :=
  ⟨List.forall₂_drop _ cursors.pending, cursors.stop, cursors.numbers, cursors.misreadings⟩

end

end Grammar

open Grammar

def Pairing.placing (whole : List Token) (shift : NodeId) : Pairing where
  tokens t t' := whole[t.line]? = some t' ∧ t = { t' with line := t.line }
  names t t' := t'.lexeme = t.lexeme
  refers _ id t id' t' := id' = id + shift ∧ whole[t.line]? = some t' ∧ t = { t' with line := t.line }
  kind said := by rw [said.2]
  lexeme said := by rw [said.2]
  tokens_names said := by rw [said.2]
  refers_names reference := by rw [reference.2.2]

theorem Pairing.shifts_placing (whole : List Token) (shift : NodeId) : (placing whole shift).Shifts 0 shift where
  literal said := by rw [said.2]
  same reference := reference.2
  refers _ said _ := ⟨rfl, said⟩

section

variable (tokens : List Token)

theorem ofTokens_placed :
    Cursor.ofTokens (placed (upToEnd tokens)) 0 =
      { Cursor.ofTokens tokens 0 with
        pending := placed (Cursor.ofTokens tokens 0).pending
        stop := { (Cursor.ofTokens tokens 0).stop with line := (Cursor.ofTokens tokens 0).size } } := by
  have inside : ∀ t ∈ placed (tokens.takeWhile (!·.isEof)), t.isEof = false := by
    intro t among
    obtain ⟨place, bound, rfl⟩ := List.mem_mapIdx.mp among
    have within := Cursor.isEof_pending tokens 0 _ (List.getElem_mem bound)
    exact within
  have ended : ({ (Cursor.ofTokens tokens 0).stop with line := (Cursor.ofTokens tokens 0).size } : Token).isEof = true :=
    Cursor.isEof_stop tokens 0
  have split : placed (upToEnd tokens) = placed (tokens.takeWhile (!·.isEof)) ++
      [{ (Cursor.ofTokens tokens 0).stop with line := (Cursor.ofTokens tokens 0).size }] := by
    rw [placed, upToEnd, List.mapIdx_append, List.mapIdx_cons, List.mapIdx_nil, Nat.zero_add]
    rfl
  rw [split, Cursor.ofTokens_snoc 0 inside ended]
  rfl

theorem ofTokens_placed_beside (nextId : NodeId) :
    (Cursor.ofTokens (placed (upToEnd tokens)) 0).Beside (.shifting (Pairing.shifts_placing (upToEnd tokens) nextId))
      (.ofTokens tokens nextId) := by
  rw [ofTokens_placed]
  have found (place : Nat) (inside : place < (tokens.takeWhile (!·.isEof)).length) :
      (upToEnd tokens)[place]? = some (tokens.takeWhile (!·.isEof))[place] := by
    rw [upToEnd, List.getElem?_append_left inside, List.getElem?_eq_getElem inside]
  refine ⟨List.forall₂_iff_get.mpr ⟨List.length_mapIdx, fun place _ inside => ?_⟩, ⟨?_, rfl⟩,
    ⟨Nat.le_refl _, (Nat.zero_add _).symm⟩, [], [], rfl, rfl, .nil⟩
  · simp only [placed, List.get_eq_getElem, List.getElem_mapIdx]
    exact ⟨found place inside, rfl⟩
  · rw [upToEnd]
    exact List.getElem?_concat_length

theorem placed_ofTokens_placed :
    Placed (Cursor.ofTokens (placed (upToEnd tokens)) 0).pending (Cursor.ofTokens (placed (upToEnd tokens)) 0).stop := by
  rw [ofTokens_placed]
  refine ⟨fun place inside => ?_, List.length_mapIdx.symm⟩
  simp only [placed, List.getElem_mapIdx]

theorem complaints_locate (nextId : NodeId) :
    List.Forall₂ (Complaint.Locates tokens) (complaints tokens) (parseProgram tokens nextId).misreadings := by
  obtain ⟨-, -, last⟩ := declarations_paired (ofTokens_placed_beside tokens nextId)
  refine List.forall₂_map_left_iff.mpr ((List.rel_reverse last.recorded).imp fun misreading misreading' like => ?_)
  exact ⟨like.token.1, like.fault⟩

end

/-- A value is read over the tokens that `valueLength` counts, wherever its reading begins among the placed tokens. -/
theorem valueLength_measures (tokens : List Token) {c next : Cursor} {place : Nat} {value : Expr}
    (stands : c.At (Cursor.ofTokens (placed (upToEnd tokens)) 0).pending
      (Cursor.ofTokens (placed (upToEnd tokens)) 0).stop (place + 1))
    (reads : (expression c).Yields value next) :
    next.At (Cursor.ofTokens (placed (upToEnd tokens)) 0).pending
      (Cursor.ofTokens (placed (upToEnd tokens)) 0).stop (place + valueLength tokens place + 1) := by
  have led : c.Leads next := ((expression_obeys c).of_yields reads).leads
  have beside : c.Beside (.repeating c.misreadings []) ((Cursor.ofTokens (placed (upToEnd tokens)) 0).behind place) :=
    Cursor.beside_repeating.mpr ⟨stands.pending, stands.stop, [], rfl, rfl⟩
  have placing := (ofTokens_placed_beside tokens 0).behind place
  have length : c.size - next.size = valueLength tokens place := by
    rw [← reads.length, (expression_paired beside).beside.length beside.size.symm,
      (expression_paired placing).beside.length placing.size.symm]
    rfl
  rw [← length, Nat.add_right_comm]
  exact stands.leads led

theorem complaints_before (tokens : List Token) :
    (complaints tokens).Pairwise (Complaint.Before (valueLength tokens)) := by
  obtain ⟨course, -, -⟩ := declarations_paired (ofTokens_placed_beside tokens 0)
  obtain ⟨last, new, -, recorded, tidy⟩ := course.tidy (placed_ofTokens_placed tokens)
    (fun _ _ _ _ stands reads => valueLength_measures tokens stands reads) 0 ⟨Nat.zero_le _, rfl, rfl⟩
  have all : (declarations (.ofTokens (placed (upToEnd tokens)) 0)).2.misreadings = new := by
    rw [recorded]
    exact List.append_nil new
  rw [complaints, List.pairwise_map]
  change (declarations (.ofTokens (placed (upToEnd tokens)) 0)).2.misreadings.reverse.Pairwise _
  rw [all, List.pairwise_reverse]
  exact tidy.ordered

/-- Complaints are recorded in the order of their tokens, except that those about an assigned value come before the
    one about its target. So the order is kept exactly if no value with a refused target has a complaint of its own.
    -/
theorem complaints_sorted_iff (tokens : List Token) (nextId : NodeId) :
    List.Forall₂ (Complaint.Locates tokens) (complaints tokens) (parseProgram tokens nextId).misreadings ∧
      (complaints tokens).Pairwise (fun a b => a.place ≤ b.place ∨ a.InValueOf tokens b) ∧
      ((complaints tokens).Pairwise (fun a b => a.place ≤ b.place) ↔
        ∀ a ∈ complaints tokens, ∀ b ∈ complaints tokens, ¬ a.InValueOf tokens b) := by
  refine ⟨complaints_locate tokens nextId, ?_, Complaint.sorted_iff (complaints_before tokens)⟩
  refine (complaints_before tokens).imp fun {a b} before => ?_
  exact before.imp_left (Nat.le_trans a.place_le_reach)

/-- The sign of the second line is complained of before the one of the first. -/
theorem complaints_unsorted :
    complaints (Lexer.tokensOf "1 =\n2 = 3;") = [⟨3, .assignmentTarget⟩, ⟨1, .assignmentTarget⟩] := by
  cbv

end Lox
