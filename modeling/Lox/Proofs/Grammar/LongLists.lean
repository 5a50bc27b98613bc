import Mathlib
import Lox.Proofs.Grammar.AlikeReading
import Lox.Proofs.Grammar.Rereading

namespace Lox.Grammar

/-- The tokens behind the parenthesis that closes the innermost one that is open, when `depth` others are opened and have
    to be closed before. -/
def behindClosing : List Token → Nat → List Token
  | [], _ => []
  | token :: rest, depth =>
    if token.kind = .leftParen then behindClosing rest (depth + 1)
    else if token.kind = .rightParen then
      match depth with
      | 0 => rest
      | depth + 1 => behindClosing rest depth
    else behindClosing rest depth

/-- A list is one of parameters if a body follows it, and else one of arguments. -/
def faultBefore (behind : List Token) : SyntaxFault :=
  if behind.head?.any (·.kind = .leftBrace) then .tooManyParameters else .tooManyArguments

/-- The complaint about an entry with these tokens, when `count` others stand before it. -/
def complaint (fault : SyntaxFault) (count : Nat) (entry : List Token) : List Misreading :=
  if maxArity ≤ count then entry.head?.toList.map (⟨·, fault⟩) else []

/-- The complaints about the lists of a text. For each list that is open, the innermost first, `counts` says how many of its
    commas stand before. -/
def excessFrom : List Token → List Nat → List Misreading
  | [], _ => []
  | token :: rest, counts =>
    if token.kind = .leftParen then excessFrom rest (0 :: counts)
    else if token.kind = .rightParen then excessFrom rest counts.tail
    else if token.kind = .comma then
      match counts with
      | [] => excessFrom rest []
      | count :: outer =>
        complaint (faultBefore (behindClosing rest 0)) (count + 1) rest ++ excessFrom rest ((count + 1) :: outer)
    else excessFrom rest counts

def excess (tokens : List Token) : List Misreading := excessFrom tokens []

section

variable {token : Token} {rest : List Token} {counts : List Nat} {depth : Nat}

def listMarks : List Kind := [.leftParen, .rightParen, .comma]

theorem behindClosing_plain (plain : token.kind ∉ listMarks) :
    behindClosing (token :: rest) depth = behindClosing rest depth := by
  simp only [listMarks, List.mem_cons, List.not_mem_nil, or_false, not_or] at plain
  rw [behindClosing.eq_def]
  simp only [plain.1, plain.2.1, if_false]

theorem behindClosing_comma (sign : token.kind = .comma) :
    behindClosing (token :: rest) depth = behindClosing rest depth := by
  rw [behindClosing.eq_def]
  simp only [sign, reduceCtorEq, if_false]

theorem behindClosing_open (opened : token.kind = .leftParen) :
    behindClosing (token :: rest) depth = behindClosing rest (depth + 1) := by
  rw [behindClosing.eq_def]
  exact if_pos opened

theorem behindClosing_close (closed : token.kind = .rightParen) :
    behindClosing (token :: rest) 0 = rest ∧
      behindClosing (token :: rest) (depth + 1) = behindClosing rest depth := by
  constructor <;> simp only [behindClosing, closed, reduceCtorEq, if_false, if_true]

theorem excessFrom_plain (plain : token.kind ∉ listMarks) : excessFrom (token :: rest) counts = excessFrom rest counts := by
  simp only [listMarks, List.mem_cons, List.not_mem_nil, or_false, not_or] at plain
  rw [excessFrom.eq_def]
  simp only [plain.1, plain.2.1, plain.2.2, if_false]

theorem excessFrom_open (opened : token.kind = .leftParen) :
    excessFrom (token :: rest) counts = excessFrom rest (0 :: counts) := by
  rw [excessFrom.eq_def]
  exact if_pos opened

theorem excessFrom_close (closed : token.kind = .rightParen) :
    excessFrom (token :: rest) counts = excessFrom rest counts.tail := by
  rw [excessFrom.eq_def]
  simp only [closed, reduceCtorEq, if_false, if_true]

theorem excessFrom_comma {count : Nat} (sign : token.kind = .comma) :
    excessFrom (token :: rest) (count :: counts) =
      complaint (faultBefore (behindClosing rest 0)) (count + 1) rest ++ excessFrom rest ((count + 1) :: counts) := by
  simp only [excessFrom, sign, reduceCtorEq, if_false, if_true]

end

/-- Reading on along matched parentheses, with no complaint but about lists that are too long. With a fault and a number it
    goes along the entries of a list, when so many of them stand before. -/
inductive Passage : Option (SyntaxFault × Nat) → Cursor → Cursor → Prop where
  | stay (c : Cursor) : Passage none c c
  | trans {c d e : Cursor} (first : Passage none c d) (second : Passage none d e) : Passage none c e
  | take {c d : Cursor} {kinds : List Kind} {token : Token} (taken : c.Takes kinds token d)
      (plain : token.kind ∉ listMarks) :
      Passage none c d
  | numbered (c : Cursor) : Passage none c c.numbered
  | group {c c₁ c₂ c₃ : Cursor} {opening closing : Token} (opened : c.Takes [.leftParen] opening c₁)
      (inner : Passage none c₁ c₂) (closed : c₂.Takes [.rightParen] closing c₃) : Passage none c c₃
  | list {c c₁ c₂ c₃ : Cursor} {opening closing : Token} {fault : SyntaxFault} (opened : c.Takes [.leftParen] opening c₁)
      (entries : Passage (some (fault, 0)) c₁ c₂) (closed : c₂.Takes [.rightParen] closing c₃)
      (role : faultBefore c₃.pending = fault) : Passage none c c₃
  | noEntry {fault : SyntaxFault} (c : Cursor) : Passage (some (fault, 0)) c c
  | lastEntry {c d : Cursor} {fault : SyntaxFault} {count : Nat} (front : c.pending ≠ [])
      (entry : Passage none (limit c count fault) d) : Passage (some (fault, count)) c d
  | nextEntry {c c₁ c₂ d : Cursor} {fault : SyntaxFault} {count : Nat} {comma : Token} (front : c.pending ≠ [])
      (entry : Passage none (limit c count fault) c₁) (sign : c₁.Takes [.comma] comma c₂)
      (entries : Passage (some (fault, count + 1)) c₂ d) : Passage (some (fault, count)) c d

/-- What has been recorded, and what the tokens to come will add. -/
def Cursor.due (c : Cursor) (counts : List Nat) : List Misreading := c.misreadings.reverse ++ excessFrom c.pending counts

/-- What is recorded from here to there is what the tokens were to add. -/
def Cursor.Balances (c d : Cursor) : Option (SyntaxFault × Nat) → Prop
  | none => ∀ counts, c.due counts = d.due counts
  | some (fault, count) => ∀ outer, faultBefore (behindClosing d.pending 0) = fault →
    ∃ count', (limit c count fault).due (count :: outer) = d.due (count' :: outer)

theorem due_limit {c : Cursor} (front : c.pending ≠ []) (fault : SyntaxFault) (count : Nat) (counts : List Nat) :
    (limit c count fault).due counts =
      c.misreadings.reverse ++ (complaint fault count c.pending ++ excessFrom c.pending counts) := by
  obtain ⟨token, rest, pending⟩ := List.exists_cons_of_ne_nil front
  unfold Cursor.due limit complaint
  split
  · simp [Cursor.record, Cursor.peek, pending]
  · rfl

namespace Passage

variable {mode : Option (SyntaxFault × Nat)} {c d : Cursor}

theorem behindClosing_eq (passage : Passage mode c d) (depth : Nat) :
    behindClosing c.pending depth = behindClosing d.pending depth := by
  induction passage generalizing depth with
  | stay | numbered | noEntry => rfl
  | trans _ _ ih₁ ih₂ => exact (ih₁ depth).trans (ih₂ depth)
  | take taken plain => rw [taken.2.1, behindClosing_plain plain]
  | group opened _ closed ih | list opened _ closed _ ih =>
    rw [opened.2.1, behindClosing_open opened.kind, ih, closed.2.1, (behindClosing_close closed.kind).2]
  | lastEntry _ _ ih => rw [← ih, limit_pending]
  | nextEntry _ _ sign _ ih₁ ih₂ => rw [← limit_pending, ih₁, sign.2.1, behindClosing_comma sign.kind, ih₂]

theorem balances (passage : Passage mode c d) : c.Balances d mode := by
  induction passage with
  | stay | numbered => exact fun _ => rfl
  | trans _ _ ih₁ ih₂ => exact fun counts => (ih₁ counts).trans (ih₂ counts)
  | take taken plain =>
    intro counts
    rw [Cursor.due, taken.2.1, excessFrom_plain plain, Cursor.due, taken.silent]
  | group opened _ closed ih =>
    intro counts
    have inner := ih (0 :: counts)
    rw [Cursor.due, Cursor.due, closed.2.1, excessFrom_close closed.kind, opened.silent] at inner
    rw [Cursor.due, opened.2.1, excessFrom_open opened.kind, inner, Cursor.due, closed.silent]
    rfl
  | @list c c₁ c₂ c₃ _ _ fault opened _ closed role ih =>
    intro counts
    have follows : faultBefore (behindClosing c₂.pending 0) = fault := by
      rw [closed.2.1, (@behindClosing_close _ _ 0 closed.kind).1, role]
    obtain ⟨count, inner⟩ := ih counts follows
    rw [limit, if_neg (by decide), Cursor.due, Cursor.due, closed.2.1, excessFrom_close closed.kind, opened.silent] at inner
    rw [Cursor.due, opened.2.1, excessFrom_open opened.kind, inner, Cursor.due, closed.silent]
    rfl
  | noEntry =>
    intro outer _
    rw [limit, if_neg (by decide)]
    exact ⟨0, rfl⟩
  | @lastEntry _ _ _ count _ _ ih => exact fun outer _ => ⟨count, ih (count :: outer)⟩
  | @nextEntry c c₁ c₂ d fault count _ _ _ sign entries ih₁ ih₂ =>
    -- The complaint at the comma is the one that is recorded before the next entry.
    intro outer follows
    obtain ⟨count', others⟩ := ih₂ outer follows
    have behind : c₂.pending ≠ [] := by
      cases entries with
      | lastEntry front _ | nextEntry front _ _ _ => exact front
    rw [due_limit behind] at others
    refine ⟨count', (ih₁ (count :: outer)).trans ?_⟩
    rw [← others, Cursor.due, sign.2.1, excessFrom_comma sign.kind, entries.behindClosing_eq, follows, sign.silent]

end Passage

/-- Reading on from here to there, along a passage if nothing is recorded but that lists are too long. -/
structure Cursor.Passes (mode : Option (SyntaxFault × Nat)) (c d : Cursor) : Prop where
  leads : c.Leads d
  passage : c.Strains d → Passage mode c d

namespace Cursor

variable {c c₁ c₂ c₃ d e : Cursor} {kinds : List Kind} {token opening closing : Token} {fault : SyntaxFault} {count : Nat}

theorem Strains.split (strains : c.Strains e) (first : c.Leads d) (second : d.Leads e) : c.Strains d ∧ d.Strains e := by
  obtain ⟨new, recorded, long⟩ := strains
  obtain ⟨older, before⟩ := first.misreadings
  obtain ⟨newer, after⟩ := second.misreadings
  rw [recorded, ← before, ← List.append_assoc] at after
  obtain rfl := List.append_cancel_right after
  obtain ⟨late, early⟩ := List.forall_mem_append.mp long
  exact ⟨⟨older, before.symm, early⟩, newer, by rw [recorded, ← before, List.append_assoc], late⟩

theorem Strains.recorded {misreading : Misreading} (strains : c.Strains d)
    (last : d.misreadings = misreading :: c.misreadings) : misreading.fault ∈ lengthFaults := by
  obtain ⟨new, recorded, long⟩ := strains
  rw [recorded, ← List.singleton_append] at last
  obtain rfl := List.append_cancel_right last
  exact long _ (List.mem_singleton.mpr rfl)

theorem Takes.lacks_brace (taken : c.Takes kinds token d) (other : .leftBrace ∉ kinds) : c.Lacks [.leftBrace] := by
  refine lacks_of_pending taken.2.1 fun brace => other ?_
  rw [← List.mem_singleton.mp brace]
  exact taken.1

theorem Lacks.faultBefore (ends : c.Lacks [.leftBrace]) : faultBefore c.pending = .tooManyArguments := by
  unfold Grammar.faultBefore
  cases front : c.pending with
  | nil => rfl
  | cons token rest =>
    have other : token.kind ≠ .leftBrace := fun brace => ends token (by rw [front]; rfl) (List.mem_singleton.mpr brace)
    simp [other]

namespace Passes

theorem stay (c : Cursor) : c.Passes none c := ⟨.refl c, fun _ => .stay c⟩

theorem trans (first : c.Passes none d) (second : d.Passes none e) : c.Passes none e := by
  refine ⟨first.leads.trans second.leads, fun strains => ?_⟩
  obtain ⟨before, after⟩ := strains.split first.leads second.leads
  exact .trans (first.passage before) (second.passage after)

theorem take (taken : c.Takes kinds token d) (plain : ∀ kind ∈ kinds, kind ∉ listMarks) : c.Passes none d :=
  ⟨taken.leads, fun _ => .take taken (plain _ taken.1)⟩

theorem numbered (passes : c.Passes none d) : c.Passes none d.numbered :=
  passes.trans ⟨.numbered d, fun _ => .numbered d⟩

theorem inside {mode : Option (SyntaxFault × Nat)} (opened : c.Takes [.leftParen] opening c₁) (passes : c₁.Passes mode c₂)
    (closed : c₂.Takes [.rightParen] closing c₃) (strains : c.Strains c₃) : Passage mode c₁ c₂ := by
  have onward := (strains.split opened.leads (passes.leads.trans closed.leads)).2
  exact passes.passage (onward.split passes.leads closed.leads).1

theorem group (opened : c.Takes [.leftParen] opening c₁) (inner : c₁.Passes none c₂)
    (closed : c₂.Takes [.rightParen] closing c₃) : c.Passes none c₃ :=
  ⟨(opened.leads.trans inner.leads).trans closed.leads, fun strains =>
    .group opened (inside opened inner closed strains) closed⟩

theorem list (opened : c.Takes [.leftParen] opening c₁) (entries : c₁.Passes (some (fault, 0)) c₂)
    (closed : c₂.Takes [.rightParen] closing c₃) (role : Grammar.faultBefore c₃.pending = fault) : c.Passes none c₃ :=
  ⟨(opened.leads.trans entries.leads).trans closed.leads,
    fun strains => .list opened (inside opened entries closed strains) closed role⟩

theorem lastEntry (front : c.pending ≠ []) (entry : (limit c count fault).Passes none d) :
    c.Passes (some (fault, count)) d := by
  have led := Cursor.Leads.limit c count fault
  exact ⟨led.trans entry.leads, fun strains => .lastEntry front (entry.passage (strains.split led entry.leads).2)⟩

theorem nextEntry (front : c.pending ≠ []) (entry : (limit c count fault).Passes none c₁)
    (sign : c₁.Takes [.comma] token c₂) (entries : c₂.Passes (some (fault, count + 1)) d) :
    c.Passes (some (fault, count)) d := by
  have led := (Cursor.Leads.limit c count fault).trans entry.leads
  have onward := sign.leads.trans entries.leads
  refine ⟨led.trans onward, fun strains => ?_⟩
  obtain ⟨before, after⟩ := strains.split led onward
  have first := entry.passage (before.split (.limit c count fault) entry.leads).2
  exact .nextEntry front first sign (entries.passage (after.split sign.leads entries.leads).2)

end Passes

end Cursor

open Cursor (Passes)

theorem ReadsExpr.front {c d : Cursor} {expr : Expr} (reads : ReadsExpr (.expression expr) c d) : c.pending ≠ [] := by
  obtain ⟨progress, -⟩ := yields_expression_iff.mpr reads
  intro nothing
  simp [Cursor.size, nothing] at progress

def ExprPhrase.mode : ExprPhrase → Option (SyntaxFault × Nat)
  | .arguments _ => some (.tooManyArguments, 0)
  | .argumentsFrom count _ => some (.tooManyArguments, count)
  | _ => none

theorem ReadsExpr.rest_lacks {phrase : ExprPhrase} {c d : Cursor} (reads : ReadsExpr phrase c d)
    (ends : d.Lacks [.leftBrace])
    (rest : ∃ left expr, phrase = .callRest left expr ∨ ∃ level, phrase = .infixRest level left expr) :
    c.Lacks [.leftBrace] := by
  cases reads with
  | infixEnd | callEnd => exact ends
  | @infixMore _ _ _ _ level _ _ _ _ sign => exact sign.lacks_brace (by cases level <;> decide)
  | callGet sign | callOn sign => exact sign.lacks_brace (by decide)
  | _ => simp at rest

/-- An expression that is not followed by a body, as no expression of a program is. -/
theorem ReadsExpr.passes {phrase : ExprPhrase} {c d : Cursor} (reads : ReadsExpr phrase c d)
    (ends : d.Lacks [.leftBrace]) : c.Passes phrase.mode d := by
  induction reads with
  | unassigned _ _ ih | tighterOperand _ _ ih | unaryOperand _ _ ih | someArguments _ _ ih => exact ih ends
  | assignment _ sign _ ih₁ ih₂ =>
    exact ((ih₁ (sign.lacks_brace (by decide))).trans ((Passes.take sign (by decide)).trans (ih₂ ends))).numbered
  | setting _ sign _ ih₁ ih₂ =>
    exact (ih₁ (sign.lacks_brace (by decide))).trans ((Passes.take sign (by decide)).trans (ih₂ ends))
  | misassignment first sign assigned =>
    have led := (first.leads.trans sign.leads).trans assigned.leads
    refine ⟨led.trans (.record ..), fun strains => ?_⟩
    cases List.mem_cons.mp ((strains.split led (.record ..)).2.recorded rfl) with
    | inl same => cases same
    | inr among => cases List.mem_singleton.mp among
  | infix_ _ rest ih₁ ih₂ => exact (ih₁ (rest.rest_lacks ends ⟨_, _, .inr ⟨_, rfl⟩⟩)).trans (ih₂ ends)
  | infixEnd | callEnd => exact .stay _
  | @infixMore _ _ _ _ level _ _ _ _ sign _ rest ih₁ ih₂ =>
    have operand := ih₁ (rest.rest_lacks ends ⟨_, _, .inr ⟨_, rfl⟩⟩)
    exact (Passes.take sign (by cases level <;> decide)).trans (operand.trans (ih₂ ends))
  | prefixed sign _ ih => exact (Passes.take sign (by decide)).trans (ih ends)
  | call _ _ rest ih₁ ih₂ => exact (ih₁ (rest.rest_lacks ends ⟨_, _, .inl rfl⟩)).trans (ih₂ ends)
  | callGet sign property _ ih =>
    exact (Passes.take sign (by decide)).trans ((Passes.take property (by decide)).trans (ih ends))
  | callOn sign _ closing rest ih₁ ih₂ =>
    have role := (rest.rest_lacks ends ⟨_, _, .inl rfl⟩).faultBefore
    exact (Passes.list sign (ih₁ (closing.lacks_brace (by decide))) closing role).trans (ih₂ ends)
  | noArguments => exact ⟨.refl _, fun _ => .noEntry _⟩
  | lastArgument entry _ ih => exact .lastEntry (limit_pending .. ▸ entry.front) (ih ends)
  | nextArgument entry sign _ ih₁ ih₂ =>
    exact .nextEntry (limit_pending .. ▸ entry.front) (ih₁ (sign.lacks_brace (by decide))) sign (ih₂ ends)
  | @constant _ _ token _ front stands =>
    refine Passes.take front fun kind among mark => ?_
    rw [List.mem_singleton.mp among] at mark
    unfold constantOf? at stands
    split at stands <;> simp_all [listMarks]
  | super_ front sign named =>
    exact ((Passes.take front (by decide)).trans ((Passes.take sign (by decide)).trans (.take named (by decide)))).numbered
  | this_ front | variable_ front => exact (Passes.take front (by decide)).numbered
  | grouping front _ closing ih => exact .group front (ih (closing.lacks_brace (by decide))) closing

/-- A declaration is given up at a fault that stops its reader. -/
theorem declaration_stops {c next : Cursor} {misreading : Misreading} {pending : 0 < c.size}
    (refused : (declaration c pending).statement? = none)
    (recovered : (declaration c pending).next = next.recover misreading) :
    misreading.fault.stops = true := by
  have same : c.Beside (.repeating c.misreadings c.misreadings) c :=
    Cursor.beside_repeating.mpr ⟨rfl, rfl, [], rfl, rfl⟩
  have runs := (declarationReading_paired same).runs
  rw [declaration_eq] at refused recovered
  generalize declarationReading c = reading at runs refused recovered
  cases reading with
  | read stmt c₁ progress => cases refused
  | failed fault c₁ progress =>
    have last : fault :: c₁.misreadings = misreading :: next.misreadings := congrArg Cursor.misreadings recovered
    rw [← (List.cons.inj last).1]
    exact Cursor.Course.stops runs

theorem SyntaxFault.not_long_of_stops {fault : SyntaxFault} (stops : fault.stops = true) : fault ∉ lengthFaults := by
  intro long
  simp only [lengthFaults, List.mem_cons, List.not_mem_nil, or_false] at long
  rcases long with rfl | rfl <;> cases stops

def StmtPhrase.Passes (c d : Cursor) : StmtPhrase → Prop
  | .optional _ _ | .initializer _ => d.Lacks [.leftBrace] → c.Passes none d
  | .parameters _ => c.Passes (some (.tooManyParameters, 0)) d
  | .parametersFrom count _ => c.Passes (some (.tooManyParameters, count)) d
  | _ => c.Passes none d

theorem ReadsStmt.passes {phrase : StmtPhrase} {c d : Cursor} (reads : ReadsStmt phrase c d) : phrase.Passes c d := by
  induction reads with
  | absent | uninitialized => exact fun _ => .stay _
  | present _ read => exact read.passes
  | initialized sign value => exact fun ends => (Passes.take sign (by decide)).trans (value.passes ends)
  | varDeclaration named _ ended ih =>
    exact (Passes.take named (by decide)).trans ((ih (ended.lacks_brace (by decide))).trans (.take ended (by decide)))
  | expressionStatement read ended | printStatement read ended =>
    exact (read.passes (ended.lacks_brace (by decide))).trans (.take ended (by decide))
  | returnStatement _ ended ih => exact (ih (ended.lacks_brace (by decide))).trans (.take ended (by decide))
  | lastParameter entry => exact .lastEntry (limit_pending .. ▸ entry.pending_ne) (.take entry (by decide))
  | nextParameter entry sign _ ih =>
    exact .nextEntry (limit_pending .. ▸ entry.pending_ne) (.take entry (by decide)) sign ih
  | noParameters => exact ⟨.refl _, fun _ => .noEntry _⟩
  | someParameters _ _ ih | exprInitializer _ _ ih | stated _ _ ih | expressed _ _ ih => exact ih
  | noInitializer front | blockEnd front => exact .take front (by decide)
  | varInitializer front _ ih | classDeclared front _ ih | functionDeclared front _ ih | varDeclared front _ ih
  | printing front _ ih | returning front _ ih | braced front _ ih => exact (Passes.take front (by decide)).trans ih
  | forClauses opened _ _ ended _ closed ih₁ ih₂ ih₃ =>
    have second := (ih₂ (ended.lacks_brace (by decide))).trans (.take ended (by decide))
    exact .group opened (Passes.trans ih₁ (second.trans (ih₃ (closed.lacks_brace (by decide))))) closed
  | noSuperclass | methodsEnd | programEnd => exact .stay _
  | someSuperclass sign named => exact ((Passes.take sign (by decide)).trans (.take named (by decide))).numbered
  | misread pending refused recovered led =>
    refine ⟨led.trans (.recover ..), fun strains => ?_⟩
    have long := (strains.split led (.recover ..)).2.recorded rfl
    exact absurd long (SyntaxFault.not_long_of_stops (declaration_stops refused recovered))
  | classDeclaration named _ opened _ closed ih₁ ih₂ =>
    have body := (Passes.take opened (by decide)).trans (Passes.trans ih₂ (.take closed (by decide)))
    exact (Passes.take named (by decide)).trans (Passes.trans ih₁ body)
  | methodsMore _ _ _ ih₁ ih₂ | blockMore _ _ _ ih₁ ih₂ | programMore _ _ ih₁ ih₂ => exact Passes.trans ih₁ ih₂
  | function named opened _ closed begun _ ih₁ ih₂ =>
    have list := Passes.list opened ih₁ closed (by simp [faultBefore, begun.2.1, begun.kind])
    exact (Passes.take named (by decide)).trans (list.trans ((Passes.take begun (by decide)).trans ih₂))
  | forLoop front _ _ ih₁ ih₂ => exact (Passes.take front (by decide)).trans (Passes.trans ih₁ ih₂)
  | ifThen front opened head closed _ _ ih | whileLoop front opened head closed _ ih =>
    have condition := Passes.group opened (head.passes (closed.lacks_brace (by decide))) closed
    exact (Passes.take front (by decide)).trans (condition.trans ih)
  | ifThenElse front opened head closed _ otherwise _ ih₁ ih₂ =>
    have condition := Passes.group opened (head.passes (closed.lacks_brace (by decide))) closed
    have branches := Passes.trans ih₁ ((Passes.take otherwise (by decide)).trans ih₂)
    exact (Passes.take front (by decide)).trans (condition.trans branches)

/-- Tokens with matched parentheses. If commas are not allowed, there are some inside of the parentheses only. -/
inductive Matched : Bool → List Token → Prop where
  | nil (commas : Bool) : Matched commas []
  | plain {commas : Bool} {token : Token} {rest : List Token} (plain : token.kind ∉ listMarks)
      (matched : Matched commas rest) : Matched commas (token :: rest)
  | comma {token : Token} {rest : List Token} (sign : token.kind = .comma) (matched : Matched true rest) :
      Matched true (token :: rest)
  | group {commas : Bool} {opening closing : Token} {ts rest : List Token} (opened : opening.kind = .leftParen)
      (inner : Matched true ts) (closed : closing.kind = .rightParen) (matched : Matched commas rest) :
      Matched commas (opening :: (ts ++ closing :: rest))

theorem faultBefore_append {behind : List Token} (plain : faultBefore behind = .tooManyArguments) (ts : List Token) :
    faultBefore (ts ++ behind) = faultBefore ts := by
  cases ts with
  | nil => exact plain
  | cons => rfl

theorem complaint_append {entry : List Token} (some : entry ≠ []) (fault : SyntaxFault) (count : Nat) (rest : List Token) :
    complaint fault count (entry ++ rest) = complaint fault count entry := by
  unfold complaint
  rw [List.head?_append_of_ne_nil _ some]

def Foreseen (ts : List Token) : Bool → Prop
  | false => ∃ found, ∀ rest counts, faultBefore rest = .tooManyArguments →
    excessFrom (ts ++ rest) counts = found ++ excessFrom rest counts
  | true => ∀ (closing : Token) (fault : SyntaxFault) (count : Nat), closing.kind = .rightParen → ∃ found, ∀ rest outer,
    faultBefore rest = fault → excessFrom (ts ++ closing :: rest) (count :: outer) = found ++ excessFrom rest outer

namespace Matched

variable {commas : Bool} {ts us : List Token}

theorem append (first : Matched commas ts) (second : Matched commas us) : Matched commas (ts ++ us) := by
  induction first with
  | nil => exact second
  | plain plain _ ih => exact .plain plain (ih second)
  | comma sign _ ih => exact .comma sign (ih second)
  | group opened inner closed _ _ ih =>
    rw [List.cons_append, List.append_assoc, List.cons_append]
    exact .group opened inner closed (ih second)

theorem allow (matched : Matched commas ts) : Matched true ts := by
  induction matched with
  | nil => exact .nil true
  | plain plain _ ih => exact .plain plain ih
  | comma sign _ ih => exact .comma sign ih
  | group opened inner closed _ _ ih => exact .group opened inner closed ih

theorem behindClosing_append (matched : Matched commas ts) (rest : List Token) (depth : Nat) :
    behindClosing (ts ++ rest) depth = behindClosing rest depth := by
  induction matched generalizing rest depth with
  | nil => rfl
  | plain plain _ ih => rw [List.cons_append, behindClosing_plain plain, ih]
  | comma sign _ ih => rw [List.cons_append, behindClosing_comma sign, ih]
  | group opened _ closed _ ih₁ ih₂ =>
    rw [List.cons_append, behindClosing_open opened, List.append_assoc, ih₁, List.cons_append,
      (behindClosing_close closed).2, ih₂]

theorem foreseen (matched : Matched commas ts) : Foreseen ts commas := by
  induction matched with
  | nil commas =>
    cases commas with
    | false => exact ⟨[], fun _ _ _ => rfl⟩
    | true => exact fun closing _ _ closed => ⟨[], fun _ _ _ => excessFrom_close closed⟩
  | @plain commas token ts plain _ ih =>
    cases commas with
    | false =>
      obtain ⟨found, others⟩ := ih
      exact ⟨found, fun rest counts apart => (excessFrom_plain plain).trans (others rest counts apart)⟩
    | true =>
      intro closing fault count closed
      obtain ⟨found, others⟩ := ih closing fault count closed
      exact ⟨found, fun rest outer follows => (excessFrom_plain plain).trans (others rest outer follows)⟩
  | @comma token ts sign matched ih =>
    intro closing fault count closed
    obtain ⟨found, others⟩ := ih closing fault (count + 1) closed
    refine ⟨complaint fault (count + 1) (ts ++ [closing]) ++ found, fun rest outer follows => ?_⟩
    have front :=
      complaint_append (List.append_ne_nil_of_right_ne_nil ts (List.cons_ne_nil closing [])) fault (count + 1) rest
    rw [List.append_assoc, List.singleton_append] at front
    rw [List.cons_append, excessFrom_comma sign, others rest outer follows, matched.behindClosing_append,
      (@behindClosing_close _ _ 0 closed).1, follows, front, List.append_assoc]
  | @group commas opening closing ts us opened _ closed _ ih₁ ih₂ =>
    -- Of what follows the group, only its first token matters to the list in it.
    obtain ⟨inside, inner⟩ := ih₁ closing (faultBefore us) 0 closed
    have whole (rest : List Token) (counts : List Nat) (apart : faultBefore rest = .tooManyArguments) :
        excessFrom (opening :: (ts ++ closing :: us) ++ rest) counts = inside ++ excessFrom (us ++ rest) counts := by
      rw [List.cons_append, excessFrom_open opened, List.append_assoc]
      exact inner (us ++ rest) counts (faultBefore_append apart us)
    cases commas with
    | false =>
      obtain ⟨found, others⟩ := ih₂
      refine ⟨inside ++ found, fun rest counts apart => ?_⟩
      rw [whole rest counts apart, others rest counts apart, List.append_assoc]
    | true =>
      intro closing' fault count closed'
      obtain ⟨found, others⟩ := ih₂ closing' fault count closed'
      refine ⟨inside ++ found, fun rest outer follows => ?_⟩
      rw [whole _ _ (by simp [faultBefore, closed']), others rest outer follows, List.append_assoc]

/-- What is found in a text with matched parentheses is found in it wherever it stands. -/
theorem excessFrom_append {rest : List Token} (matched : Matched false ts) (apart : faultBefore rest = .tooManyArguments)
    (counts : List Nat) : excessFrom (ts ++ rest) counts = excess ts ++ excessFrom rest counts := by
  obtain ⟨found, others⟩ := matched.foreseen
  have alone := others [] [] rfl
  rw [List.append_nil, excessFrom, List.append_nil] at alone
  rw [others rest counts apart, excess, alone]

end Matched

theorem Passage.matched {mode : Option (SyntaxFault × Nat)} {c d : Cursor} (passage : Passage mode c d) :
    ∃ ts, c.pending = ts ++ d.pending ∧ Matched mode.isSome ts := by
  induction passage with
  | stay | numbered | noEntry => exact ⟨[], rfl, .nil _⟩
  | trans _ _ ih₁ ih₂ =>
    obtain ⟨ts, front, first⟩ := ih₁
    obtain ⟨us, behind, second⟩ := ih₂
    exact ⟨ts ++ us, by rw [front, behind, List.append_assoc], first.append second⟩
  | take taken plain => exact ⟨[_], taken.2.1, .plain plain (.nil _)⟩
  | group opened _ closed ih | list opened _ closed _ ih =>
    obtain ⟨ts, front, inner⟩ := ih
    refine ⟨_ :: (ts ++ [_]), ?_, .group opened.kind inner.allow closed.kind (.nil _)⟩
    rw [opened.2.1, front, closed.2.1]
    simp
  | lastEntry _ _ ih =>
    obtain ⟨ts, front, entry⟩ := ih
    exact ⟨ts, by rw [← front, limit_pending], entry.allow⟩
  | nextEntry _ _ sign _ ih₁ ih₂ =>
    obtain ⟨ts, front, entry⟩ := ih₁
    obtain ⟨us, behind, entries⟩ := ih₂
    refine ⟨ts ++ _ :: us, ?_, entry.allow.append (.comma sign.kind entries)⟩
    rw [limit_pending] at front
    rw [front, sign.2.1, behind]
    simp

/-- An expression is spelled with matched parentheses. -/
theorem SpellsExpr.matched {expr : Expr} {ts : List Token} (spelled : SpellsExpr (fun _ => True) (.expression expr) ts) :
    Matched false ts ∧ ts ≠ [] := by
  have ends : Ends 8 [] := by simp [Ends]
  obtain ⟨expr', d, read, -, reached⟩ := spelled.reread ⟨ts, ⟨.eof, "", none, 1⟩, 0, []⟩ [] (List.append_nil ts).symm ends
  have lacks : d.Lacks [.leftBrace] := by simp [Cursor.Lacks, reached.pending]
  obtain ⟨us, front, matched⟩ := ((read.passes lacks).passage reached.strains).matched
  rw [reached.pending, List.append_nil] at front
  cases front
  exact ⟨matched, read.front⟩

/-- The entries stand one behind the other, with commas between. -/
inductive Joined : List (List Token) → List Token → Prop where
  | last (entry : List Token) : Joined [entry] entry
  | next {entries : List (List Token)} {comma : Token} {ts : List Token} (entry : List Token) (sign : comma.kind = .comma)
      (joined : Joined entries ts) : Joined (entry :: entries) (entry ++ comma :: ts)

/-- The complaints about the entries of a list and about what is in them, when `count` others stand before. -/
def reports (fault : SyntaxFault) : Nat → List (List Token) → List Misreading
  | _, [] => []
  | count, entry :: entries => complaint fault count entry ++ excess entry ++ reports fault (count + 1) entries

section

variable {entries : List (List Token)} {ts : List Token}

theorem Joined.matched (joined : Joined entries ts) (known : ∀ entry ∈ entries, Matched false entry ∧ entry ≠ []) :
    Matched true ts ∧ ts ≠ [] := by
  induction joined with
  | last entry => exact ⟨(known entry (List.mem_singleton.mpr rfl)).1.allow, (known entry (List.mem_singleton.mpr rfl)).2⟩
  | next entry sign _ ih =>
    obtain ⟨first, others⟩ := List.forall_mem_cons.mp known
    exact ⟨first.1.allow.append (.comma sign (ih others).1), List.append_ne_nil_of_left_ne_nil first.2 _⟩

/-- What is found in a list and what in its entries. -/
theorem Joined.excessFrom_eq (joined : Joined entries ts) (known : ∀ entry ∈ entries, Matched false entry ∧ entry ≠ [])
    {closing : Token} (closed : closing.kind = .rightParen) (rest : List Token) (count : Nat) (outer : List Nat) :
    complaint (faultBefore rest) count ts ++ excessFrom (ts ++ closing :: rest) (count :: outer) =
      reports (faultBefore rest) count entries ++ excessFrom rest outer := by
  induction joined generalizing count with
  | last entry =>
    have first := (known entry (List.mem_singleton.mpr rfl)).1
    rw [first.excessFrom_append (by simp [faultBefore, closed]), excessFrom_close closed]
    simp [reports]
  | @next entries comma ts entry sign joined ih =>
    obtain ⟨first, others⟩ := List.forall_mem_cons.mp known
    obtain ⟨matched, some⟩ := joined.matched others
    have follows : faultBefore (behindClosing (ts ++ closing :: rest) 0) = faultBefore rest := by
      rw [matched.behindClosing_append, (@behindClosing_close _ _ 0 closed).1]
    rw [complaint_append first.2, List.append_assoc, first.1.excessFrom_append (by simp [faultBefore, sign]),
      List.cons_append, excessFrom_comma sign, follows, complaint_append some, ih others]
    simp [reports]

theorem length_reports (fault : SyntaxFault) (known : ∀ entry ∈ entries, entry ≠ []) (count : Nat) :
    (reports fault count entries).length =
      (count + entries.length - max count maxArity) + (entries.map fun entry => (excess entry).length).sum := by
  induction entries generalizing count with
  | nil =>
    simp only [reports, List.length_nil, List.map_nil, List.sum_nil]
    omega
  | cons entry entries ih =>
    obtain ⟨first, others⟩ := List.forall_mem_cons.mp known
    obtain ⟨token, rest, rfl⟩ := List.exists_cons_of_ne_nil first
    have own : (complaint fault count (token :: rest)).length = if maxArity ≤ count then 1 else 0 := by
      unfold complaint
      split <;> simp
    simp only [reports, List.length_append, own, ih others, List.length_cons, List.map_cons, List.sum_cons]
    split <;> omega

/-- The complaints about a list are where its entries begin, from the first one too many on. -/
theorem reports_plain (fault : SyntaxFault) (plain : ∀ entry ∈ entries, excess entry = []) (count : Nat) :
    reports fault count entries =
      (entries.drop (maxArity - count)).flatMap fun entry => entry.head?.toList.map (⟨·, fault⟩) := by
  induction entries generalizing count with
  | nil => simp [reports]
  | cons entry entries ih =>
    obtain ⟨first, others⟩ := List.forall_mem_cons.mp plain
    rw [reports, first, ih others, List.append_nil]
    unfold complaint
    split
    · rename_i beyond
      rw [show maxArity - count = 0 by omega, show maxArity - (count + 1) = 0 by omega]
      rfl
    · rename_i within
      rw [show maxArity - count = maxArity - (count + 1) + 1 by omega]
      rfl

end

/-- What is found before a place, and what from there on. -/
theorem excessFrom_split (front behind : List Token) (counts : List Nat) :
    ∃ earlier counts', excessFrom (front ++ behind) counts = earlier ++ excessFrom behind counts' ∧
      ∀ m ∈ earlier, m.token ∈ front ++ behind.head?.toList := by
  induction front generalizing counts with
  | nil => exact ⟨[], counts, rfl, List.forall_mem_nil _⟩
  | cons token rest ih =>
    have onward (counts' : List Nat) : ∃ earlier counts'', excessFrom (rest ++ behind) counts' =
        earlier ++ excessFrom behind counts'' ∧ ∀ m ∈ earlier, m.token ∈ token :: (rest ++ behind.head?.toList) := by
      obtain ⟨earlier, counts'', found, inside⟩ := ih counts'
      exact ⟨earlier, counts'', found, fun m member => List.mem_cons_of_mem _ (inside m member)⟩
    rw [List.cons_append, excessFrom.eq_def]
    dsimp only
    split
    · exact onward _
    split
    · exact onward _
    split
    · cases counts with
      | nil => exact onward _
      | cons count outer =>
        obtain ⟨earlier, counts', found, inside⟩ := onward ((count + 1) :: outer)
        dsimp only
        rw [found, ← List.append_assoc]
        refine ⟨_, counts', rfl, List.forall_mem_append.mpr ⟨?_, inside⟩⟩
        intro m member
        unfold complaint at member
        split at member
        · cases rest <;> cases behind <;> simp_all
        · cases member
    · exact onward _

end Lox.Grammar

namespace Lox

open Grammar

/-- In a program whose only faults are lists that are too long, such a list does no harm to what is read. It is complained
    of at the first token of each entry beyond the limit, and the complaints about lists in the entries come between. -/
theorem parseProgram_overlong {program : List Stmt} {tokens : List Token}
    (spelled : SpellsStmt (fun _ => True) (.declarations program) (tokens.takeWhile (!·.isEof))) (nextId : NodeId) :
    Stmt.bareAll (parseProgram tokens nextId).value = Stmt.bareAll program ∧
    (parseProgram tokens nextId).misreadings = excess (tokens.takeWhile (!·.isEof)) ∧
    ∀ before opening ts closing after entries,
      tokens.takeWhile (!·.isEof) = before ++ opening :: (ts ++ closing :: after) →
      opening.kind = .leftParen → closing.kind = .rightParen → Grammar.Joined entries ts →
      (∀ entry ∈ entries, ∃ expr, SpellsExpr (fun _ => True) (.expression expr) entry) →
      let found := reports (faultBefore after) 0 entries
      ∃ earlier later, (parseProgram tokens nextId).misreadings = earlier ++ found ++ later ∧
        (∀ m ∈ earlier, m.token ∈ before ++ [opening]) ∧ (∀ m ∈ later, m.token ∈ after) ∧
        found.length = (entries.length - maxArity) + (entries.map fun entry => (excess entry).length).sum ∧
        ((∀ entry ∈ entries, excess entry = []) →
          found = (entries.drop maxArity).flatMap fun entry => entry.head?.toList.map (⟨·, faultBefore after⟩)) := by
  obtain ⟨program', last, read, same, reached⟩ := spelled.reread.2 (.ofTokens tokens nextId) rfl
  have parsed := declarations_eq_iff.mpr read
  have recorded : (parseProgram tokens nextId).misreadings = excess (tokens.takeWhile (!·.isEof)) := by
    have settled := (read.passes.passage reached.strains).balances []
    rw [Cursor.due, Cursor.due, reached.pending, excessFrom, List.append_nil] at settled
    unfold parseProgram
    rw [parsed]
    exact settled.symm
  refine ⟨by unfold parseProgram; rw [parsed]; exact same, recorded, ?_⟩
  intro before opening ts closing after entries body opened closed joined expressions
  have known : ∀ entry ∈ entries, Matched false entry ∧ entry ≠ [] := by
    intro entry member
    obtain ⟨expr, spelled⟩ := expressions entry member
    exact spelled.matched
  obtain ⟨earlier, counts, found, inside⟩ := excessFrom_split before (opening :: (ts ++ closing :: after)) []
  obtain ⟨later, counts', rest, behind⟩ := excessFrom_split after [] counts
  have listed := joined.excessFrom_eq known closed after 0 counts
  refine ⟨earlier, excessFrom after counts, ?_, inside, ?_, ?_, ?_⟩
  · rw [recorded, body, excess, found, excessFrom_open opened, List.append_assoc, ← listed]
    rfl
  · rw [List.append_nil, excessFrom, List.append_nil] at rest
    rw [rest]
    simpa using behind
  · have counted := length_reports (faultBefore after) (fun entry member => (known entry member).2) 0
    simpa using counted
  · exact fun plain => reports_plain _ plain 0

theorem spells_names {fits : Nat → Prop} {comma : Token} (sign : comma.kind = .comma) {names : List Token}
    (some : names ≠ [])
    (named : ∀ name ∈ names, name.kind = .identifier) : SpellsStmt fits (.names names) (names.intersperse comma) := by
  induction names with
  | nil => exact absurd rfl some
  | cons name others ih =>
    obtain ⟨first, rest⟩ := List.forall_mem_cons.mp named
    have front : Stands name [.identifier] name := .self (List.mem_singleton.mpr first)
    cases others with
    | nil => exact .lastName front
    | cons next others => exact .nextName front sign (ih (List.cons_ne_nil _ _) rest)

def functionTokens (names : List Token) : List Token :=
  ⟨.keyword .fun_, "fun", none, 0⟩ :: ⟨.identifier, "f", none, 0⟩ :: ⟨.leftParen, "(", none, 0⟩ ::
    (names.intersperse ⟨.comma, ",", none, 0⟩ ++ ⟨.rightParen, ")", none, 0⟩ ::
      [⟨.leftBrace, "\x7b", none, 0⟩, ⟨.rightBrace, "\x7d", none, 0⟩])

theorem spells_function {fits : Nat → Prop} {names : List Token} (some : names ≠ []) (short : fits names.length)
    (named : ∀ name ∈ names, name.kind = .identifier) :
    SpellsStmt fits (.declarations [.function (.mk ⟨.identifier, "f", none, 0⟩ names [])]) (functionTokens names) := by
  rw [← List.append_nil (functionTokens names)]
  refine .moreDeclarations (.functionDeclared rfl ?_) .noDeclarations
  exact .function (.self (List.mem_singleton.mpr rfl)) rfl (.someParameters short (spells_names rfl some named)) rfl
    (.block rfl .noDeclarations rfl)

def manyNames : List Token := (List.range 257).map fun line => ⟨.identifier, "x", none, line⟩

theorem parseProgram_overlong_parameters :
    Stmt.bareAll (parseProgram (functionTokens manyNames) 0).value =
        Stmt.bareAll [.function (.mk ⟨.identifier, "f", none, 0⟩ manyNames [])] ∧
      (parseProgram (functionTokens manyNames) 0).misreadings =
        [255, 256].map fun line => ⟨⟨.identifier, "x", none, line⟩, .tooManyParameters⟩ := by
  have body : (functionTokens manyNames).takeWhile (!·.isEof) = functionTokens manyNames := by decide +kernel
  have spelled : SpellsStmt (fun _ => True) (.declarations [.function (.mk ⟨.identifier, "f", none, 0⟩ manyNames [])])
      ((functionTokens manyNames).takeWhile (!·.isEof)) := by
    rw [body]
    exact spells_function (by decide +kernel) trivial (by decide +kernel)
  obtain ⟨value, misreadings, -⟩ := parseProgram_overlong spelled 0
  refine ⟨value, misreadings.trans ?_⟩
  rw [body]
  decide +kernel

end Lox
