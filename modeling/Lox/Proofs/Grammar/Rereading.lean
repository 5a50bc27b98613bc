import Lox.Proofs.Grammar.Spelled

namespace Lox.Grammar

/-- How loosely a kind ties what stands before it to what follows, from calls to assignments. Other kinds end an
    expression. -/
def looseness : Kind → Nat
  | .leftParen | .dot => 0
  | .slash | .star => 1
  | .minus | .plus => 2
  | .greater | .greaterEqual | .less | .lessEqual => 3
  | .bangEqual | .equalEqual => 4
  | .keyword .and_ => 5
  | .keyword .or_ => 6
  | .equal => 7
  | _ => 8

theorem Level.looseness_operator {level : Level} {kind : Kind} (operator : kind ∈ level.operators) :
    looseness kind = level.rank + 1 := by
  revert kind
  cases level <;> decide

/-- What follows ties more loosely than that. -/
def Ends (n : Nat) (rest : List Token) : Prop := ∀ token ∈ rest.head?, n ≤ looseness token.kind

theorem Ends.mono {m n : Nat} {rest : List Token} (ends : Ends n rest) (less : m ≤ n) : Ends m rest :=
  fun token front => Nat.le_trans less (ends token front)

theorem Ends.cons {n : Nat} {token : Token} (rest : List Token) (loose : n ≤ looseness token.kind) :
    Ends n (token :: rest) := by
  intro front same
  cases same
  exact loose

theorem Ends.of_kind {kind : Kind} {token : Token} (rest : List Token) (same : token.kind = kind)
    (loose : looseness kind = 8) : Ends 8 (token :: rest) :=
  .cons rest (Nat.le_of_eq (by rw [same, loose]))

/-- What is recorded of a list that is too long. -/
def lengthFaults : List SyntaxFault := [.tooManyParameters, .tooManyArguments]

namespace Cursor

def Strains (c next : Cursor) : Prop :=
  ∃ new, next.misreadings = new ++ c.misreadings ∧ ∀ m ∈ new, m.fault ∈ lengthFaults

/-- Reading comes to a cursor with `rest` in front. It records at most that lists are too long, and nothing if it is
    quiet. -/
structure Reaches (quiet : Prop) (c next : Cursor) (rest : List Token) : Prop where
  pending : next.pending = rest
  silent : c.Silent quiet next
  strains : c.Strains next

variable {quiet : Prop} {c d e : Cursor} {token : Token} {rest rest' : List Token} {kinds : List Kind}

theorem Strains.refl (c : Cursor) : c.Strains c := ⟨[], rfl, List.forall_mem_nil _⟩

theorem Strains.trans (first : c.Strains d) (second : d.Strains e) : c.Strains e := by
  obtain ⟨new, recorded, long⟩ := first
  obtain ⟨new', recorded', long'⟩ := second
  exact ⟨new' ++ new, by rw [recorded', recorded, List.append_assoc], List.forall_mem_append.mpr ⟨long', long⟩⟩

theorem Strains.limit (c : Cursor) (count : Nat) {fault : SyntaxFault} (long : fault ∈ lengthFaults) :
    c.Strains (limit c count fault) := by
  unfold Grammar.limit
  split
  · exact ⟨[_], rfl, List.forall_mem_singleton.mpr long⟩
  · exact .refl c

theorem lacks_of_pending (front : c.pending = token :: rest) (other : token.kind ∉ kinds) : c.Lacks kinds := by
  intro first same
  rw [front] at same
  cases same
  exact other

theorem lacks_of_ends {n : Nat} (ends : Ends n c.pending) (tighter : ∀ kind ∈ kinds, looseness kind < n) :
    c.Lacks kinds := by
  intro token front among
  exact Nat.lt_irrefl _ (Nat.lt_of_lt_of_le (tighter _ among) (ends token front))

theorem Reaches.refl (front : c.pending = rest) : c.Reaches quiet c rest := ⟨front, fun _ => rfl, .refl c⟩

theorem Reaches.trans (first : c.Reaches quiet d rest) (second : d.Reaches quiet e rest') :
    c.Reaches quiet e rest' := by
  refine ⟨second.1, fun known => ?_, first.strains.trans second.strains⟩
  rw [second.2 known, first.2 known]

theorem Reaches.takeOf (reached : c.Reaches quiet d (token :: rest)) (kind : token.kind ∈ kinds) :
    ∃ e, d.Takes kinds token e ∧ c.Reaches quiet e rest :=
  ⟨{ d with pending := rest }, ⟨kind, reached.1, rfl⟩, rfl, reached.2, reached.strains⟩

theorem Reaches.take {kind : Kind} (reached : c.Reaches quiet d (token :: rest)) (same : token.kind = kind) :
    ∃ e, d.Takes [kind] token e ∧ c.Reaches quiet e rest :=
  reached.takeOf (List.mem_singleton.mpr same)

theorem reaches_front {kind : Kind} (quiet : Prop) (front : c.pending = token :: rest) (same : token.kind = kind) :
    ∃ d, c.Takes [kind] token d ∧ c.Reaches quiet d rest :=
  (Reaches.refl front).take same

theorem Reaches.numbered (reached : c.Reaches quiet d rest) : c.Reaches quiet d.numbered rest :=
  ⟨reached.pending, reached.silent, reached.strains⟩

theorem Reaches.mono {quiet' : Prop} (reached : c.Reaches quiet d rest) (weaker : quiet' → quiet) :
    c.Reaches quiet' d rest :=
  ⟨reached.1, fun known => reached.2 (weaker known), reached.strains⟩

end Cursor

open Cursor

theorem limit_pending (c : Cursor) (count : Nat) (fault : SyntaxFault) : (limit c count fault).pending = c.pending := by
  unfold limit
  split <;> rfl

theorem reaches_limit {quiet : Prop} {c : Cursor} {count length : Nat} {fault : SyntaxFault} {rest : List Token}
    (long : fault ∈ lengthFaults) (front : c.pending = rest) :
    c.Reaches (quiet ∧ count + (length + 1) ≤ maxArity) (limit c count fault) rest := by
  refine ⟨by rw [limit_pending, front], fun known => ?_, .limit c count long⟩
  rw [limit, if_neg (by omega)]

variable {quiet : Prop} {c c₁ : Cursor} {rest : List Token}

theorem ReadsExpr.infix_end {level : Level} {expr : Expr} (ends : Ends (level.rank + 2) c₁.pending) :
    ReadsExpr (.infixRest level expr expr) c₁ c₁ := by
  refine .infixEnd (lacks_of_ends ends fun kind operator => ?_)
  rw [level.looseness_operator operator]
  exact Nat.lt_succ_self _

theorem ReadsExpr.climb {expr : Expr} (read : ReadsExpr (.unary expr) c c₁) (level : Level)
    (ends : Ends (level.rank + 2) c₁.pending) : ReadsExpr (.infix_ level expr) c c₁ := by
  have operand : ReadsExpr (.operand level expr) c c₁ := by
    cases next : level.tighter? with
    | none => exact .unaryOperand next read
    | some tighter =>
      have below := Level.rank_tighter next
      exact .tighterOperand next (climb read tighter (ends.mono (by omega)))
  exact .infix_ operand (.infix_end ends)
termination_by level.rank

def primaryStarts : List Kind :=
  [.number, .string, .keyword .false_, .keyword .true_, .keyword .nil_, .keyword .this_, .keyword .super_, .identifier,
    .leftParen]

def expressionStarts : List Kind := .bang :: .minus :: primaryStarts

def ExprForm.starts : ExprForm → List Kind
  | .call _ | .primary _ => primaryStarts
  | _ => expressionStarts

theorem constantOf?_start {token : Token} {value : Constant} (stands : constantOf? token = some value) :
    token.kind ∈ primaryStarts := by
  unfold constantOf? at stands
  split at stands
  all_goals first
    | (rename_i kind; rw [kind]; decide)
    | cases stands

theorem SpellsExpr.starts {fits : Nat → Prop} {form : ExprForm} {ts : List Token} (spelled : SpellsExpr fits form ts)
    (some : form ≠ .arguments []) : ∃ token us, ts = token :: us ∧ token.kind ∈ form.starts := by
  induction spelled with
  | unassigned _ ih | primary _ ih | lastEntry _ ih => exact ih (by simp)
  | assign target => exact ⟨_, _, rfl, by simp [ExprForm.starts, expressionStarts, primaryStarts, target.is]⟩
  | set _ _ _ _ _ ih | called _ ih =>
    obtain ⟨token, us, rfl, kind⟩ := ih (by simp)
    exact ⟨token, _, rfl, List.mem_cons_of_mem _ (List.mem_cons_of_mem _ kind)⟩
  | @operand level _ _ _ ih =>
    cases level <;> exact ih (by simp [Level.operandForm, Level.tighter?])
  | infix_ _ _ _ ih | get _ _ _ ih | call _ _ _ _ ih | nextEntry _ _ _ ih =>
    obtain ⟨token, us, rfl, kind⟩ := ih (by simp)
    exact ⟨token, _, rfl, kind⟩
  | prefixed before =>
    refine ⟨_, _, rfl, ?_⟩
    have kind := before.kind
    simp only [List.mem_cons, List.not_mem_nil, or_false] at kind
    rcases kind with kind | kind <;> simp [ExprForm.starts, expressionStarts, kind]
  | noArguments => exact absurd rfl some
  | someArguments _ _ ih => exact ih (by simp)
  | constant stands => exact ⟨_, _, rfl, constantOf?_start stands⟩
  | super_ front | this_ front | variable_ front => exact ⟨_, _, rfl, by simp [ExprForm.starts, primaryStarts, front.is]⟩
  | grouping opened => exact ⟨_, _, rfl, by simp [ExprForm.starts, primaryStarts, opened]⟩

theorem SpellsExpr.lacks {fits : Nat → Prop} {form : ExprForm} {ts : List Token} {kinds : List Kind}
    (spelled : SpellsExpr fits form ts) (some : form ≠ .arguments []) (front : c.pending = ts ++ rest)
    (starts : List Kind) (begins : form.starts = starts) (apart : ∀ kind ∈ kinds, kind ∉ starts) : c.Lacks kinds := by
  obtain ⟨token, us, rfl, kind⟩ := spelled.starts some
  refine lacks_of_pending front fun among => apart _ among ?_
  rw [← begins]
  exact kind

def Limits (fits : Nat → Prop) : Prop := ∀ n, fits n → n ≤ maxArity

/-- Reading what is spelled by `ts`, up to `rest`. A tree that a loop of the readers can extend is read by the loop
    from there on. -/
def ExprForm.Reread (quiet : Prop) (ts : List Token) : ExprForm → Prop
  | .expression expr =>
    ∀ (c : Cursor) rest, c.pending = ts ++ rest → Ends 8 rest →
      ∃ expr' c', ReadsExpr (.expression expr') c c' ∧ expr'.bare = expr.bare ∧ c.Reaches quiet c' rest
  | .infix_ level expr =>
    ∀ (c : Cursor) rest, c.pending = ts ++ rest → Ends (level.rank + 1) rest →
      ∃ left c₁, left.bare = expr.bare ∧ c.Reaches quiet c₁ rest ∧
        ∀ whole c₂, ReadsExpr (.infixRest level left whole) c₁ c₂ → ReadsExpr (.infix_ level whole) c c₂
  | .unary expr =>
    ∀ (c : Cursor) rest, c.pending = ts ++ rest → Ends 1 rest →
      ∃ expr' c', ReadsExpr (.unary expr') c c' ∧ expr'.bare = expr.bare ∧ c.Reaches quiet c' rest
  | .call expr =>
    ∀ (c : Cursor) rest, c.pending = ts ++ rest →
      ∃ callee c₁, callee.bare = expr.bare ∧ c.Reaches quiet c₁ rest ∧
        ∀ whole c₂, ReadsExpr (.callRest callee whole) c₁ c₂ → ReadsExpr (.unary whole) c c₂
  | .primary expr =>
    ∀ (c : Cursor) rest, c.pending = ts ++ rest →
      ∃ expr' c', ReadsExpr (.primary expr') c c' ∧ expr'.bare = expr.bare ∧ c.Reaches quiet c' rest
  | .arguments exprs =>
    ∀ (c : Cursor) paren rest, c.pending = ts ++ paren :: rest → paren.kind = .rightParen →
      ∃ exprs' c', ReadsExpr (.arguments exprs') c c' ∧ Expr.bareAll exprs' = Expr.bareAll exprs ∧
        c.Reaches quiet c' (paren :: rest)
  | .entries exprs =>
    ∀ (c : Cursor) count paren rest, c.pending = ts ++ paren :: rest → paren.kind = .rightParen →
      ∃ exprs' c', ReadsExpr (.argumentsFrom count exprs') c c' ∧ Expr.bareAll exprs' = Expr.bareAll exprs ∧
        c.Reaches (quiet ∧ count + exprs.length ≤ maxArity) c' (paren :: rest)

theorem ExprForm.Reread.infix_ {ts : List Token} {level : Level} {expr : Expr}
    (reread : (ExprForm.infix_ level expr).Reread quiet ts) (front : c.pending = ts ++ rest)
    (ends : Ends (level.rank + 2) rest) :
    ∃ expr' c', ReadsExpr (.infix_ level expr') c c' ∧ expr'.bare = expr.bare ∧ c.Reaches quiet c' rest := by
  obtain ⟨expr', c', same, reached, complete⟩ := reread c rest front (ends.mono (Nat.le_succ _))
  refine ⟨expr', c', complete _ _ (.infix_end ?_), same, reached⟩
  rw [reached.1]
  exact ends

theorem ExprForm.Reread.operand {ts : List Token} {level : Level} {expr : Expr}
    (reread : (level.operandForm expr).Reread quiet ts) (front : c.pending = ts ++ rest)
    (ends : Ends (level.rank + 1) rest) :
    ∃ expr' c', ReadsExpr (.operand level expr') c c' ∧ expr'.bare = expr.bare ∧ c.Reaches quiet c' rest := by
  unfold Level.operandForm at reread
  cases next : level.tighter? with
  | none =>
    rw [next] at reread
    obtain ⟨expr', c', read, result⟩ := reread c rest front (ends.mono (Nat.le_add_left _ _))
    exact ⟨expr', c', .unaryOperand next read, result⟩
  | some tighter =>
    rw [next] at reread
    have below := Level.rank_tighter next
    obtain ⟨expr', c', read, result⟩ := ExprForm.Reread.infix_ reread front (ends.mono (by omega))
    exact ⟨expr', c', .tighterOperand next read, result⟩

section

variable {fits : Nat → Prop} {ts us : List Token} {expr value : Expr} {name named dot equals opening closing : Token}

theorem reread_unassigned (alone : ExprForm.Reread quiet ts (.infix_ .or expr)) :
    ExprForm.Reread quiet ts (.expression expr) := by
  intro c rest front ends
  obtain ⟨expr', c', read, same, reached⟩ := alone.infix_ front (ends.mono (by decide))
  refine ⟨expr', c', .unassigned read (lacks_of_ends (n := 8) ?_ (by decide)), same, reached⟩
  rw [reached.1]
  exact ends

theorem reread_assign {id : NodeId} (target : Stands name [.identifier] named) (sign : equals.kind = .equal)
    (assigned : ExprForm.Reread quiet ts (.expression value)) :
    ExprForm.Reread quiet (name :: equals :: ts) (.expression (.assign id named value)) := by
  intro c rest front ends
  obtain ⟨c₁, named, reached₁⟩ := reaches_front quiet front target.is
  obtain ⟨c₂, equals, reached₂⟩ := reached₁.numbered.take sign
  obtain ⟨value', c₃, assigned, same, reached₃⟩ := assigned c₂ rest reached₂.1 ends
  have target' := ReadsExpr.call (lacks_of_pending front (by simp [target.is])) (.variable_ named)
    (.callEnd (lacks_of_pending reached₁.1 (by simp [sign])))
  have read := target'.climb .or (by rw [reached₁.numbered.1]; exact .cons _ (by simp [sign, looseness, Level.rank]))
  refine ⟨_, _, .assignment read equals assigned, ?_, reached₂.trans reached₃.numbered⟩
  simp only [Expr.bare, same, target.same]

theorem reread_set {object : Expr} (owner : ExprForm.Reread quiet ts (.call object)) (point : dot.kind = .dot)
    (target : Stands name [.identifier] named) (sign : equals.kind = .equal)
    (assigned : ExprForm.Reread quiet us (.expression value)) :
    ExprForm.Reread quiet (ts ++ dot :: name :: equals :: us) (.expression (.set object named value)) := by
  intro c rest front ends
  obtain ⟨object', c₁, sameObject, reached₁, complete⟩ := owner c _ (by simpa using front)
  obtain ⟨c₂, dot, reached₂⟩ := reached₁.take point
  obtain ⟨c₃, named, reached₃⟩ := reached₂.take target.is
  obtain ⟨c₄, equals, reached₄⟩ := reached₃.take sign
  obtain ⟨value', c₅, assigned, same, reached₅⟩ := assigned c₄ rest reached₄.1 ends
  have target' := complete _ _ (.callGet dot named (.callEnd (lacks_of_pending reached₃.1 (by simp [sign]))))
  have read := target'.climb .or (by rw [reached₃.1]; exact .cons _ (by simp [sign, looseness, Level.rank]))
  refine ⟨_, _, .setting read equals assigned, ?_, reached₄.trans reached₅⟩
  simp only [Expr.bare, same, target.same, sameObject]

theorem reread_infix {level : Level} {left right : Expr} {operator sign : Token}
    (first : ExprForm.Reread quiet ts (.infix_ level left)) (between : Stands sign level.operators operator)
    (second : ExprForm.Reread quiet us (level.operandForm right)) :
    ExprForm.Reread quiet (ts ++ sign :: us) (.infix_ level (level.node left operator right)) := by
  intro c rest front ends
  have loose := level.looseness_operator between.kind
  obtain ⟨left', c₁, sameLeft, reached₁, complete⟩ :=
    first c (sign :: (us ++ rest)) (by simpa using front) (.cons _ (Nat.le_of_eq loose.symm))
  obtain ⟨c₂, taken, reached₂⟩ := reached₁.takeOf between.kind
  obtain ⟨right', c₃, read, sameRight, reached₃⟩ := second.operand reached₂.1 ends
  refine ⟨level.node left' sign right', c₃, ?_, reached₂.trans reached₃, fun whole c₄ others => ?_⟩
  · rw [level.node_bare, level.node_bare, sameLeft, sameRight, between.same]
  · exact complete _ _ (.infixMore taken read others)

theorem reread_prefixed {operator sign : Token} (before : Stands sign [.bang, .minus] operator)
    (operand : ExprForm.Reread quiet ts (.unary expr)) :
    ExprForm.Reread quiet (sign :: ts) (.unary (.unary operator expr)) := by
  intro c rest front ends
  obtain ⟨c₁, taken, reached₁⟩ := (Reaches.refl front : c.Reaches quiet c _).takeOf before.kind
  obtain ⟨right', c₂, read, same, reached₂⟩ := operand c₁ rest reached₁.1 ends
  refine ⟨_, _, .prefixed taken read, ?_, reached₁.trans reached₂⟩
  simp only [Expr.bare, same, before.same]

theorem reread_called (call : ExprForm.Reread quiet ts (.call expr)) : ExprForm.Reread quiet ts (.unary expr) := by
  intro c rest front ends
  obtain ⟨expr', c', same, reached, complete⟩ := call c rest front
  refine ⟨expr', c', complete _ _ (.callEnd (lacks_of_ends (n := 1) ?_ (by decide))), same, reached⟩
  rw [reached.1]
  exact ends

theorem reread_get (owner : ExprForm.Reread quiet ts (.call expr)) (point : dot.kind = .dot)
    (property : Stands name [.identifier] named) :
    ExprForm.Reread quiet (ts ++ [dot, name]) (.call (.get expr named)) := by
  intro c rest front
  obtain ⟨callee', c₁, same, reached₁, complete⟩ := owner c _ (by simpa using front)
  obtain ⟨c₂, dot, reached₂⟩ := reached₁.take point
  obtain ⟨c₃, named, reached₃⟩ := reached₂.take property.is
  refine ⟨_, c₃, ?_, reached₃, fun whole c₄ others => complete _ _ (.callGet dot named others)⟩
  simp only [Expr.bare, same, property.same]

theorem reread_call {exprs : List Expr} {paren : Token} (first : ExprForm.Reread quiet ts (.call expr))
    (opened : opening.kind = .leftParen) (given : ExprForm.Reread quiet us (.arguments exprs))
    (closed : Stands closing [.rightParen] paren) :
    ExprForm.Reread quiet (ts ++ opening :: (us ++ [closing])) (.call (.call expr paren exprs)) := by
  intro c rest front
  obtain ⟨callee', c₁, same, reached₁, complete⟩ := first c _ (by simpa using front)
  obtain ⟨c₂, opening, reached₂⟩ := reached₁.take opened
  obtain ⟨exprs', c₃, entries, sameExprs, reached₃⟩ := given c₂ _ rest (by simpa using reached₂.1) closed.is
  obtain ⟨c₄, paren, reached₄⟩ := (reached₂.trans reached₃).take closed.is
  refine ⟨_, c₄, ?_, reached₄, fun whole c₅ others => complete _ _ (.callOn opening entries paren others)⟩
  simp only [Expr.bare, same, sameExprs, closed.same]

theorem reread_someArguments {exprs : List Expr} (short : fits exprs.length)
    (spelled : SpellsExpr fits (.entries exprs) ts) (entries : ExprForm.Reread (Limits fits) ts (.entries exprs)) :
    ExprForm.Reread (Limits fits) ts (.arguments exprs) := by
  intro c paren rest front closed
  obtain ⟨exprs', c', read, same, reached⟩ := entries c 0 paren rest front closed
  have opened : c.Lacks [.rightParen] := spelled.lacks (by simp) front expressionStarts rfl (by decide)
  refine ⟨exprs', c', .someArguments opened read, same, reached.1, fun known => reached.2 ⟨known, ?_⟩, reached.strains⟩
  rw [Nat.zero_add]
  exact known _ short

theorem reread_lastEntry (entry : ExprForm.Reread quiet ts (.expression expr)) :
    ExprForm.Reread quiet ts (.entries [expr]) := by
  intro c count paren rest front closed
  obtain ⟨expr', c', read, same, reached⟩ :=
    entry (limit c count .tooManyArguments) _ (by rw [limit_pending, front]) (.of_kind _ closed rfl)
  refine ⟨[expr'], c', .lastArgument read (lacks_of_pending reached.1 (by simp [closed])), ?_, ?_⟩
  · simp only [Expr.bareAll, same]
  · exact (reaches_limit (by decide) front).trans (reached.mono And.left)

theorem reread_nextEntry {exprs : List Expr} {comma : Token} (entry : ExprForm.Reread quiet ts (.expression expr))
    (sign : comma.kind = .comma) (others : ExprForm.Reread quiet us (.entries exprs)) :
    ExprForm.Reread quiet (ts ++ comma :: us) (.entries (expr :: exprs)) := by
  intro c count paren rest front closed
  obtain ⟨expr', c₁, read, same, reached₁⟩ :=
    entry (limit c count .tooManyArguments) _ (by rw [limit_pending, front, List.append_assoc]; rfl) (.of_kind _ sign rfl)
  obtain ⟨c₂, comma, reached₂⟩ := reached₁.take sign
  obtain ⟨exprs', c₃, entries, sameRest, reached₃⟩ := others c₂ (count + 1) paren rest reached₂.1 closed
  refine ⟨expr' :: exprs', c₃, .nextArgument read comma entries, ?_, ?_⟩
  · simp only [Expr.bareAll, same, sameRest]
  · refine ((reaches_limit (by decide) rfl).trans (reached₂.mono And.left)).trans
      (reached₃.mono fun known => ⟨known.1, ?_⟩)
    rw [Nat.add_assoc, Nat.add_comm 1]
    exact known.2

theorem reread_super {id : NodeId} {word keyword : Token} (front : Stands word [.keyword .super_] keyword)
    (point : dot.kind = .dot) (method : Stands name [.identifier] named) :
    ExprForm.Reread quiet [word, dot, name] (.primary (.super_ id keyword named)) := by
  intro c rest pending
  obtain ⟨c₁, keyword, reached₁⟩ := reaches_front quiet pending front.is
  obtain ⟨c₂, dot, reached₂⟩ := reached₁.take point
  obtain ⟨c₃, named, reached₃⟩ := reached₂.take method.is
  refine ⟨_, _, .super_ keyword dot named, ?_, reached₃.numbered⟩
  simp only [Expr.bare, front.same, method.same]

theorem reread_grouping (opened : opening.kind = .leftParen) (inner : ExprForm.Reread quiet ts (.expression expr))
    (closed : closing.kind = .rightParen) :
    ExprForm.Reread quiet (opening :: (ts ++ [closing])) (.primary (.grouping expr)) := by
  intro c rest front
  obtain ⟨c₁, opening, reached₁⟩ := reaches_front quiet front opened
  obtain ⟨inner', c₂, read, same, reached₂⟩ := inner c₁ _ (by simpa using reached₁.1) (.of_kind _ closed rfl)
  obtain ⟨c₃, closing, reached₃⟩ := (reached₁.trans reached₂).take closed
  exact ⟨_, c₃, .grouping opening read closing, by simp only [Expr.bare, same], reached₃⟩

end

theorem SpellsExpr.reread {fits : Nat → Prop} {form : ExprForm} {ts : List Token} (spelled : SpellsExpr fits form ts) :
    form.Reread (Limits fits) ts := by
  induction spelled with
  | unassigned _ ih => exact reread_unassigned ih
  | assign target sign _ ih => exact reread_assign target sign ih
  | set _ point target sign _ ih₁ ih₂ => exact reread_set ih₁ point target sign ih₂
  | operand _ ih =>
    intro c rest front ends
    obtain ⟨expr', c', read, same, reached⟩ := ih.operand front ends
    exact ⟨expr', c', same, reached, fun _ _ others => .infix_ read others⟩
  | infix_ _ between _ ih₁ ih₂ => exact reread_infix ih₁ between ih₂
  | prefixed before _ ih => exact reread_prefixed before ih
  | called _ ih => exact reread_called ih
  | primary first ih =>
    intro c rest front
    obtain ⟨expr', c', read, same, reached⟩ := ih c rest front
    have plain : c.Lacks [.bang, .minus] := first.lacks (by simp) front primaryStarts rfl (by decide)
    exact ⟨expr', c', same, reached, fun whole c₂ others => .call plain read others⟩
  | get _ point property ih => exact reread_get ih point property
  | call _ opened _ closed ih₁ ih₂ => exact reread_call ih₁ opened ih₂ closed
  | noArguments =>
    intro c paren rest front closed
    obtain ⟨c₁, closing, -⟩ := reaches_front True front closed
    exact ⟨[], c, .noArguments closing, rfl, .refl front⟩
  | someArguments short entries ih => exact reread_someArguments short entries ih
  | lastEntry _ ih => exact reread_lastEntry ih
  | nextEntry _ sign _ ih₁ ih₂ => exact reread_nextEntry ih₁ sign ih₂
  | constant stands =>
    intro c rest front
    obtain ⟨c₁, taken, reached⟩ := reaches_front (Limits fits) front rfl
    exact ⟨_, c₁, .constant taken stands, rfl, reached⟩
  | super_ word point named => exact reread_super word point named
  | this_ word =>
    intro c rest front
    obtain ⟨c₁, keyword, reached⟩ := reaches_front (Limits fits) front word.is
    exact ⟨_, _, .this_ keyword, by simp only [Expr.bare, word.same], reached.numbered⟩
  | variable_ word =>
    intro c rest front
    obtain ⟨c₁, name, reached⟩ := reaches_front (Limits fits) front word.is
    exact ⟨_, _, .variable_ name, by simp only [Expr.bare, word.same], reached.numbered⟩
  | grouping opened _ closed ih => exact reread_grouping opened ih closed

def Apart (kinds : List Kind) (rest : List Token) : Prop := ∀ token ∈ rest.head?, token.kind ∉ kinds

theorem Apart.lacks {kinds : List Kind} (apart : Apart kinds rest) (front : c.pending = rest) : c.Lacks kinds := by
  subst front
  exact apart

theorem Apart.cons {kinds : List Kind} {token : Token} (rest : List Token) (other : token.kind ∉ kinds) :
    Apart kinds (token :: rest) := by
  intro front same
  cases same
  exact other

def StmtForm.starts : StmtForm → List Kind
  | .expressionStatement _ => expressionStarts
  | .names _ | .function _ => [.identifier]
  | .varDeclaration _ => [.keyword .var_]
  | .block _ => [.leftBrace]
  | .statement .. => statementStarts ++ expressionStarts
  | .declaration _ => declarationStarts ++ (statementStarts ++ expressionStarts)
  | _ => []

theorem SpellsStmt.starts {fits : Nat → Prop} {form : StmtForm} {ts : List Token} (spelled : SpellsStmt fits form ts)
    (some : form.starts ≠ []) : ∃ token us, ts = token :: us ∧ token.kind ∈ form.starts := by
  induction spelled with
  | expressionStatement value =>
    obtain ⟨token, us, rfl, kind⟩ := value.starts nofun
    exact ⟨token, _, rfl, kind⟩
  | varDeclaration front => exact ⟨_, _, rfl, List.mem_singleton.mpr front⟩
  | lastName naming | nextName naming | function naming => exact ⟨_, _, rfl, naming.kind⟩
  | block opened => exact ⟨_, _, rfl, List.mem_singleton.mpr opened⟩
  | braced _ ih =>
    obtain ⟨token, us, rfl, kind⟩ := ih nofun
    exact ⟨token, us, rfl, by simp [StmtForm.starts, statementStarts, List.mem_singleton.mp kind]⟩
  | expressed _ ih | stated _ ih =>
    obtain ⟨token, us, rfl, kind⟩ := ih nofun
    exact ⟨token, us, rfl, List.mem_append_right _ kind⟩
  | forLoop front | ifThen front | ifThenElse front | printing front | whileLoop front =>
    exact ⟨_, _, rfl, by simp [StmtForm.starts, statementStarts, front]⟩
  | returning front => exact ⟨_, _, rfl, by simp [StmtForm.starts, statementStarts, front.is]⟩
  | classDeclared front | functionDeclared front =>
    exact ⟨_, _, rfl, by simp [StmtForm.starts, declarationStarts, front]⟩
  | varDeclared _ ih =>
    obtain ⟨token, us, rfl, kind⟩ := ih nofun
    exact ⟨token, us, rfl, by simp [StmtForm.starts, declarationStarts, List.mem_singleton.mp kind]⟩
  | _ => exact absurd rfl some

theorem SpellsStmt.apart {fits : Nat → Prop} {form : StmtForm} {ts : List Token} {kinds : List Kind}
    (spelled : SpellsStmt fits form ts) (starts : List Kind) (begins : form.starts = starts) (some : starts ≠ [])
    (other : ∀ kind ∈ kinds, kind ∉ starts) (rest : List Token) : Apart kinds (ts ++ rest) := by
  subst begins
  obtain ⟨token, us, rfl, kind⟩ := spelled.starts some
  exact .cons _ fun among => other _ among kind

theorem SpellsStmt.declarations_apart {fits : Nat → Prop} {program : List Stmt} {ts : List Token}
    (spelled : SpellsStmt fits (.declarations program) ts) (ended : Apart [.keyword .else_] rest) :
    Apart [.keyword .else_] (ts ++ rest) := by
  cases spelled with
  | noDeclarations => exact ended
  | moreDeclarations first _ =>
    rw [List.append_assoc]
    exact first.apart (declarationStarts ++ (statementStarts ++ expressionStarts)) rfl (by decide) (by decide) _

def StmtForm.Reread (quiet : Prop) (ts : List Token) : StmtForm → Prop
  | .optional expr? =>
    ∀ (c : Cursor) closing rest, c.pending = ts ++ closing :: rest → closing.kind ∈ [.semicolon, .rightParen] →
      ∃ expr?' c', ReadsStmt (.optional closing.kind expr?') c c' ∧ expr?'.map Expr.bare = expr?.map Expr.bare ∧
        c.Reaches quiet c' (closing :: rest)
  | .initializer expr? =>
    ∀ (c : Cursor) semicolon rest, c.pending = ts ++ semicolon :: rest → semicolon.kind = .semicolon →
      ∃ expr?' c', ReadsStmt (.initializer expr?') c c' ∧ expr?'.map Expr.bare = expr?.map Expr.bare ∧
        c.Reaches quiet c' (semicolon :: rest)
  | .varDeclaration stmt =>
    ∀ (c : Cursor) rest, c.pending = ts ++ rest →
      ∃ word c₁ stmt' c', c.Takes [.keyword .var_] word c₁ ∧ ReadsStmt (.varDeclaration stmt') c₁ c' ∧
        stmt'.bare = stmt.bare ∧ c.Reaches quiet c' rest
  | .expressionStatement stmt =>
    ∀ (c : Cursor) rest, c.pending = ts ++ rest →
      ∃ stmt' c', ReadsStmt (.expressionStatement stmt') c c' ∧ stmt'.bare = stmt.bare ∧ c.Reaches quiet c' rest
  | .names params =>
    ∀ (c : Cursor) count paren rest, c.pending = ts ++ paren :: rest → paren.kind = .rightParen →
      ∃ params' c', ReadsStmt (.parametersFrom count params') c c' ∧ params'.map Token.bare = params.map Token.bare ∧
        c.Reaches (quiet ∧ count + params.length ≤ maxArity) c' (paren :: rest)
  | .parameters params =>
    ∀ (c : Cursor) paren rest, c.pending = ts ++ paren :: rest → paren.kind = .rightParen →
      ∃ params' c', ReadsStmt (.parameters params') c c' ∧ params'.map Token.bare = params.map Token.bare ∧
        c.Reaches quiet c' (paren :: rest)
  | .forInitializer stmt? =>
    ∀ (c : Cursor) rest, c.pending = ts ++ rest →
      ∃ stmt?' c', ReadsStmt (.forInitializer stmt?') c c' ∧ stmt?'.map Stmt.bare = stmt?.map Stmt.bare ∧
        c.Reaches quiet c' rest
  | .forClauses clauses =>
    ∀ (c : Cursor) rest, c.pending = ts ++ rest →
      ∃ clauses' c', ReadsStmt (.forClauses clauses') c c' ∧ clauses'.bare = clauses.bare ∧ c.Reaches quiet c' rest
  | .superclass expr? =>
    ∀ (c : Cursor) brace rest, c.pending = ts ++ brace :: rest → brace.kind = .leftBrace →
      ∃ expr?' c', ReadsStmt (.superclass expr?') c c' ∧ expr?'.map Expr.bare = expr?.map Expr.bare ∧
        c.Reaches quiet c' (brace :: rest)
  | .declaration stmt =>
    ∀ (c : Cursor) rest, c.pending = ts ++ rest → Apart [.keyword .else_] rest →
      ∃ stmt' c', ReadsStmt (.declaration (some stmt')) c c' ∧ stmt'.bare = stmt.bare ∧ c.Reaches quiet c' rest
  | .methods ds =>
    ∀ (c : Cursor) brace rest, c.pending = ts ++ brace :: rest → brace.kind = .rightBrace →
      ∃ ds' c', ReadsStmt (.methods ds') c c' ∧ FunctionDecl.bareAll ds' = FunctionDecl.bareAll ds ∧
        c.Reaches quiet c' (brace :: rest)
  | .function d =>
    ∀ (c : Cursor) role rest, c.pending = ts ++ rest →
      ∃ d' c', ReadsStmt (.function role d') c c' ∧ d'.bare = d.bare ∧ c.Reaches quiet c' rest
  | .statement stmt dangling =>
    ∀ (c : Cursor) rest, c.pending = ts ++ rest → (dangling = true → Apart [.keyword .else_] rest) →
      ∃ stmt' c', ReadsStmt (.statement stmt') c c' ∧ stmt'.bare = stmt.bare ∧ c.Reaches quiet c' rest
  | .block body =>
    ∀ (c : Cursor) rest, c.pending = ts ++ rest →
      ∃ brace c₁ body' c', c.Takes [.leftBrace] brace c₁ ∧ ReadsStmt (.block body') c₁ c' ∧
        Stmt.bareAll body' = Stmt.bareAll body ∧ c.Reaches quiet c' rest
  -- Declarations stand in a block, up to its brace, or in a program, up to its end.
  | .declarations program =>
    (∀ (c : Cursor) brace rest, c.pending = ts ++ brace :: rest → brace.kind = .rightBrace →
      ∃ program' c', ReadsStmt (.block program') c c' ∧ Stmt.bareAll program' = Stmt.bareAll program ∧
        c.Reaches quiet c' rest) ∧
    ∀ c : Cursor, c.pending = ts →
      ∃ program' c', ReadsStmt (.declarations program') c c' ∧ Stmt.bareAll program' = Stmt.bareAll program ∧
        c.Reaches quiet c' []

section

variable {fits : Nat → Prop} {ts us vs : List Token} {word opening closing semicolon : Token}

theorem reread_present {expr : Expr} (spelled : SpellsExpr fits (.expression expr) ts) :
    StmtForm.Reread (Limits fits) ts (.optional (some expr)) := by
  intro c closing rest front kind
  simp only [List.mem_cons, List.not_mem_nil, or_false] at kind
  have loose : looseness closing.kind = 8 := by rcases kind with kind | kind <;> rw [kind] <;> rfl
  obtain ⟨expr', c', read, same, reached⟩ := spelled.reread c _ front (.of_kind _ rfl loose)
  have unseen : c.Lacks [closing.kind] := by
    apply spelled.lacks (by simp) front expressionStarts rfl
    rcases kind with kind | kind <;> rw [kind] <;> decide
  exact ⟨some expr', c', .present unseen read, by simp [same], reached⟩

theorem reread_varDeclaration {name named : Token} {initializer : Option Expr} (front : word.kind = .keyword .var_)
    (naming : Stands name [.identifier] named) (value : StmtForm.Reread quiet ts (.initializer initializer))
    (ended : semicolon.kind = .semicolon) :
    StmtForm.Reread quiet (word :: name :: (ts ++ [semicolon])) (.varDeclaration (.var_ named initializer)) := by
  intro c rest pending
  obtain ⟨c₁, keyword, reached₁⟩ := reaches_front quiet pending front
  obtain ⟨c₂, name, reached₂⟩ := reached₁.take naming.is
  obtain ⟨value', c₃, read, same, reached₃⟩ := value c₂ _ rest (by simpa using reached₂.1) ended
  obtain ⟨c₄, semicolon, reached₄⟩ := (reached₂.trans reached₃).take ended
  refine ⟨_, c₁, _, c₄, keyword, .varDeclaration name read semicolon, ?_, reached₄⟩
  simp only [Stmt.bare, naming.same, same]

theorem reread_lastName {name named : Token} (naming : Stands name [.identifier] named) :
    StmtForm.Reread quiet [name] (.names [named]) := by
  intro c count paren rest front kind
  have start : c.Reaches (quiet ∧ count + (0 + 1) ≤ maxArity) (limit c count .tooManyParameters) _ :=
    reaches_limit (by decide) front
  obtain ⟨c₁, name, reached₁⟩ := start.take naming.is
  refine ⟨_, c₁, .lastParameter name (lacks_of_pending reached₁.1 (by simp [kind])), ?_, reached₁⟩
  simp only [List.map_cons, List.map_nil, naming.same]

theorem reread_nextName {name named comma : Token} {params : List Token} (naming : Stands name [.identifier] named)
    (sign : comma.kind = .comma) (others : StmtForm.Reread quiet ts (.names params)) :
    StmtForm.Reread quiet (name :: comma :: ts) (.names (named :: params)) := by
  intro c count paren rest front kind
  have start : c.Reaches (quiet ∧ count + (params.length + 1) ≤ maxArity) (limit c count .tooManyParameters) _ :=
    reaches_limit (by decide) front
  obtain ⟨c₁, name, reached₁⟩ := start.take naming.is
  obtain ⟨c₂, comma, reached₂⟩ := reached₁.take sign
  obtain ⟨params', c₃, entries, same, reached₃⟩ := others c₂ (count + 1) paren rest reached₂.1 kind
  refine ⟨_, c₃, .nextParameter name comma entries, ?_, ?_⟩
  · simp only [List.map_cons, naming.same, same]
  · refine reached₂.trans (reached₃.mono fun known => ⟨known.1, ?_⟩)
    rw [Nat.add_assoc, Nat.add_comm 1]
    exact known.2

theorem reread_someParameters {params : List Token} (short : fits params.length)
    (spelled : SpellsStmt fits (.names params) ts) (entries : StmtForm.Reread (Limits fits) ts (.names params)) :
    StmtForm.Reread (Limits fits) ts (.parameters params) := by
  intro c paren rest front kind
  obtain ⟨params', c', read, same, reached⟩ := entries c 0 paren rest front kind
  have opened : c.Lacks [.rightParen] := (spelled.apart [.identifier] rfl (by decide) (by decide) _).lacks front
  refine ⟨params', c', .someParameters opened read, same, reached.1, fun known => reached.2 ⟨known, ?_⟩, reached.strains⟩
  rw [Nat.zero_add]
  exact known _ short

theorem reread_forClauses {initializer : Option Stmt} {condition increment : Option Expr}
    (opened : opening.kind = .leftParen) (first : StmtForm.Reread quiet ts (.forInitializer initializer))
    (second : StmtForm.Reread quiet us (.optional condition)) (ended : semicolon.kind = .semicolon)
    (third : StmtForm.Reread quiet vs (.optional increment)) (closed : closing.kind = .rightParen) :
    StmtForm.Reread quiet (opening :: (ts ++ (us ++ semicolon :: (vs ++ [closing]))))
      (.forClauses ⟨initializer, condition, increment⟩) := by
  intro c rest front
  obtain ⟨c₁, opening, reached₁⟩ := reaches_front quiet front opened
  obtain ⟨initializer', c₂, first, same₁, reached₂⟩ := first c₁ _ (by simpa using reached₁.1)
  obtain ⟨condition', c₃, second, same₂, reached₃⟩ := second c₂ _ _ reached₂.1 (by simp [ended])
  obtain ⟨c₄, semicolon, reached₄⟩ := (reached₂.trans reached₃).take ended
  obtain ⟨increment', c₅, third, same₃, reached₅⟩ := third c₄ _ rest (by simpa using reached₄.1) (by simp [closed])
  obtain ⟨c₆, paren, reached₆⟩ := (reached₄.trans reached₅).take closed
  rw [ended] at second
  rw [closed] at third
  refine ⟨_, c₆, .forClauses opening first second semicolon third paren, ?_, reached₁.trans reached₆⟩
  simp only [ForClauses.bare, same₁, same₂, same₃]

theorem reread_classDeclared {name named : Token} {superclass : Option Expr} {methods : List FunctionDecl}
    (front : word.kind = .keyword .class_) (naming : Stands name [.identifier] named)
    (extended : StmtForm.Reread quiet ts (.superclass superclass)) (opened : opening.kind = .leftBrace)
    (body : StmtForm.Reread quiet us (.methods methods)) (closed : closing.kind = .rightBrace) :
    StmtForm.Reread quiet (word :: name :: (ts ++ opening :: (us ++ [closing])))
      (.declaration (.class_ named superclass methods)) := by
  intro c rest pending _
  obtain ⟨c₁, keyword, reached₁⟩ := reaches_front quiet pending front
  obtain ⟨c₂, name, reached₂⟩ := reached₁.take naming.is
  obtain ⟨superclass', c₃, extended, same₁, reached₃⟩ := extended c₂ _ _ (by simpa using reached₂.1) opened
  obtain ⟨c₄, opening, reached₄⟩ := (reached₂.trans reached₃).take opened
  obtain ⟨methods', c₅, read, same₂, reached₅⟩ := body c₄ _ rest reached₄.1 closed
  obtain ⟨c₆, closing, reached₆⟩ := (reached₄.trans reached₅).take closed
  refine ⟨_, c₆, .classDeclared keyword (.classDeclaration name extended opening read closing), ?_, reached₆⟩
  simp only [Stmt.bare, naming.same, same₁, same₂]

theorem reread_stated {stmt : Stmt} {dangling : Bool} (spelled : SpellsStmt fits (.statement stmt dangling) ts)
    (statement : StmtForm.Reread quiet ts (.statement stmt dangling)) : StmtForm.Reread quiet ts (.declaration stmt) := by
  intro c rest front ended
  obtain ⟨stmt', c', read, same, reached⟩ := statement c rest front fun _ => ended
  have plain : c.Lacks declarationStarts :=
    (spelled.apart (statementStarts ++ expressionStarts) rfl (by decide) (by decide) _).lacks front
  exact ⟨stmt', c', .stated plain read, same, reached⟩

theorem reread_moreMethods {method : FunctionDecl} {methods : List FunctionDecl}
    (spelled : SpellsStmt fits (.function method) ts) (first : StmtForm.Reread quiet ts (.function method))
    (others : StmtForm.Reread quiet us (.methods methods)) :
    StmtForm.Reread quiet (ts ++ us) (.methods (method :: methods)) := by
  intro c brace rest front kind
  rw [List.append_assoc] at front
  obtain ⟨method', c₁, read, same, reached₁⟩ := first c .method _ front
  obtain ⟨methods', c₂, others, sameRest, reached₂⟩ := others c₁ brace rest reached₁.1 kind
  refine ⟨_, c₂, .methodsMore ?_ read others, ?_, reached₁.trans reached₂⟩
  · obtain ⟨token, us, rfl, isName⟩ := spelled.starts (List.cons_ne_nil _ _)
    have plain : c.Lacks [.rightBrace] := lacks_of_pending front (by simp [List.mem_singleton.mp isName])
    rw [sees_eq_false.mpr plain, Bool.false_or]
    simp [Cursor.atEnd, front]
  · simp only [FunctionDecl.bareAll, same, sameRest]

theorem reread_function {name named : Token} {params : List Token} {body : List Stmt}
    (naming : Stands name [.identifier] named) (opened : opening.kind = .leftParen)
    (entries : StmtForm.Reread quiet ts (.parameters params)) (closed : closing.kind = .rightParen)
    (block : StmtForm.Reread quiet us (.block body)) :
    StmtForm.Reread quiet (name :: opening :: (ts ++ closing :: us)) (.function (.mk named params body)) := by
  intro c role rest front
  obtain ⟨c₁, name, reached₁⟩ := reaches_front quiet front naming.is
  obtain ⟨c₂, opening, reached₂⟩ := reached₁.take opened
  obtain ⟨params', c₃, entries, same₁, reached₃⟩ := entries c₂ _ _ (by simpa using reached₂.1) closed
  obtain ⟨c₄, closing, reached₄⟩ := (reached₂.trans reached₃).take closed
  obtain ⟨brace, c₅, body', c₆, begun, read, same₂, reached₆⟩ := block c₄ rest reached₄.1
  refine ⟨_, c₆, .function name opening entries closing begun read, ?_, reached₄.trans reached₆⟩
  simp only [FunctionDecl.bare, naming.same, same₁, same₂]

theorem reread_forLoop {clauses : ForClauses} {body : Stmt} {dangling : Bool} (front : word.kind = .keyword .for_)
    (head : StmtForm.Reread quiet ts (.forClauses clauses))
    (repeated : StmtForm.Reread quiet us (.statement body dangling)) :
    StmtForm.Reread quiet (word :: (ts ++ us)) (.statement (clauses.loop body) dangling) := by
  intro c rest pending ended
  obtain ⟨c₁, keyword, reached₁⟩ := reaches_front quiet pending front
  obtain ⟨clauses', c₂, head, same₁, reached₂⟩ := head c₁ _ (by simpa using reached₁.1)
  obtain ⟨body', c₃, read, same₂, reached₃⟩ := repeated c₂ rest reached₂.1 ended
  refine ⟨_, c₃, .forLoop keyword head read, ?_, (reached₁.trans reached₂).trans reached₃⟩
  rw [ForClauses.loop_bare, ForClauses.loop_bare, same₁, same₂]

/-- The word and the parenthesized condition that an `if` and a `while` begin with. -/
theorem reread_condition {kind : Kind} {condition : Expr} (front : word.kind = kind) (opened : opening.kind = .leftParen)
    (head : ExprForm.Reread quiet ts (.expression condition)) (closed : closing.kind = .rightParen)
    (pending : c.pending = word :: opening :: (ts ++ closing :: rest)) :
    ∃ c₁ c₂ condition' c₃ c₄, c.Takes [kind] word c₁ ∧ c₁.Takes [.leftParen] opening c₂ ∧
      ReadsExpr (.expression condition') c₂ c₃ ∧ c₃.Takes [.rightParen] closing c₄ ∧ condition'.bare = condition.bare ∧
      c.Reaches quiet c₄ rest := by
  obtain ⟨c₁, keyword, reached₁⟩ := reaches_front quiet pending front
  obtain ⟨c₂, opening, reached₂⟩ := reached₁.take opened
  obtain ⟨condition', c₃, read, same, reached₃⟩ := head c₂ _ reached₂.1 (.of_kind _ closed rfl)
  obtain ⟨c₄, closing, reached₄⟩ := (reached₂.trans reached₃).take closed
  exact ⟨c₁, c₂, condition', c₃, c₄, keyword, opening, read, closing, same, reached₄⟩

theorem reread_ifThen {condition : Expr} {thenBranch : Stmt} {dangling : Bool} (front : word.kind = .keyword .if_)
    (opened : opening.kind = .leftParen) (head : ExprForm.Reread quiet ts (.expression condition))
    (closed : closing.kind = .rightParen) (first : StmtForm.Reread quiet us (.statement thenBranch dangling)) :
    StmtForm.Reread quiet (word :: opening :: (ts ++ closing :: us)) (.statement (.ifThen condition thenBranch) true) := by
  intro c rest pending ended
  obtain ⟨c₁, c₂, condition', c₃, c₄, keyword, opening, read, closing, same, reached⟩ :=
    reread_condition front opened head closed (by simpa using pending)
  obtain ⟨then', c₅, first, same', reached'⟩ := first c₄ rest reached.1 fun _ => ended rfl
  have alone : c₅.Lacks [.keyword .else_] := (ended rfl).lacks reached'.1
  refine ⟨_, c₅, .ifThen keyword opening read closing first alone, ?_, reached.trans reached'⟩
  simp only [Stmt.bare, same, same']

theorem reread_ifThenElse {else_ : Token} {condition : Expr} {thenBranch elseBranch : Stmt} {dangling : Bool}
    (front : word.kind = .keyword .if_) (opened : opening.kind = .leftParen)
    (head : ExprForm.Reread quiet ts (.expression condition)) (closed : closing.kind = .rightParen)
    (first : StmtForm.Reread quiet us (.statement thenBranch false)) (otherwise : else_.kind = .keyword .else_)
    (second : StmtForm.Reread quiet vs (.statement elseBranch dangling)) :
    StmtForm.Reread quiet (word :: opening :: (ts ++ closing :: (us ++ else_ :: vs)))
      (.statement (.ifThenElse condition thenBranch elseBranch) dangling) := by
  intro c rest pending ended
  obtain ⟨c₁, c₂, condition', c₃, c₄, keyword, opening, read, closing, same₁, reached₁⟩ :=
    reread_condition front opened head closed (by simpa using pending)
  obtain ⟨then', c₅, first, same₂, reached₂⟩ := first c₄ _ (by simpa using reached₁.1) (by simp)
  obtain ⟨c₆, else_, reached₃⟩ := (reached₁.trans reached₂).take otherwise
  obtain ⟨else', c₇, second, same₃, reached₄⟩ := second c₆ rest reached₃.1 ended
  refine ⟨_, c₇, .ifThenElse keyword opening read closing first else_ second, ?_, reached₃.trans reached₄⟩
  simp only [Stmt.bare, same₁, same₂, same₃]

theorem reread_printing {expr : Expr} (front : word.kind = .keyword .print_)
    (value : ExprForm.Reread quiet ts (.expression expr)) (ended : semicolon.kind = .semicolon) :
    StmtForm.Reread quiet (word :: (ts ++ [semicolon])) (.statement (.print_ expr) false) := by
  intro c rest pending _
  obtain ⟨c₁, keyword, reached₁⟩ := reaches_front quiet pending front
  obtain ⟨expr', c₂, read, same, reached₂⟩ := value c₁ _ (by simpa using reached₁.1) (.of_kind _ ended rfl)
  obtain ⟨c₃, semicolon, reached₃⟩ := (reached₁.trans reached₂).take ended
  exact ⟨_, c₃, .printing keyword (.printStatement read semicolon), by simp only [Stmt.bare, same], reached₃⟩

theorem reread_returning {keyword : Token} {value : Option Expr} (front : Stands word [.keyword .return_] keyword)
    (given : StmtForm.Reread quiet ts (.optional value)) (ended : semicolon.kind = .semicolon) :
    StmtForm.Reread quiet (word :: (ts ++ [semicolon])) (.statement (.return_ keyword value) false) := by
  intro c rest pending _
  obtain ⟨c₁, keyword, reached₁⟩ := reaches_front quiet pending front.is
  obtain ⟨value', c₂, read, same, reached₂⟩ := given c₁ _ rest (by simpa using reached₁.1) (by simp [ended])
  obtain ⟨c₃, semicolon, reached₃⟩ := (reached₁.trans reached₂).take ended
  rw [ended] at read
  refine ⟨_, c₃, .returning keyword (.returnStatement read semicolon), ?_, reached₃⟩
  simp only [Stmt.bare, front.same, same]

theorem reread_whileLoop {condition : Expr} {body : Stmt} {dangling : Bool} (front : word.kind = .keyword .while_)
    (opened : opening.kind = .leftParen) (head : ExprForm.Reread quiet ts (.expression condition))
    (closed : closing.kind = .rightParen) (repeated : StmtForm.Reread quiet us (.statement body dangling)) :
    StmtForm.Reread quiet (word :: opening :: (ts ++ closing :: us)) (.statement (.while_ condition body) dangling) := by
  intro c rest pending ended
  obtain ⟨c₁, c₂, condition', c₃, c₄, keyword, opening, condition, closing, same, reached⟩ :=
    reread_condition front opened head closed (by simpa using pending)
  obtain ⟨body', c₅, read, same', reached'⟩ := repeated c₄ rest reached.1 ended
  refine ⟨_, c₅, .whileLoop keyword opening condition closing read, ?_, reached.trans reached'⟩
  simp only [Stmt.bare, same, same']

theorem reread_moreDeclarations {stmt : Stmt} {program : List Stmt} (spelled : SpellsStmt fits (.declaration stmt) ts)
    (spelled' : SpellsStmt fits (.declarations program) us) (first : StmtForm.Reread quiet ts (.declaration stmt))
    (others : StmtForm.Reread quiet us (.declarations program)) :
    StmtForm.Reread quiet (ts ++ us) (.declarations (stmt :: program)) := by
  refine ⟨fun c brace rest front kind => ?_, fun c front => ?_⟩
  · rw [List.append_assoc] at front
    have closed : Apart [.keyword .else_] (brace :: rest) := .cons rest (by simp [kind])
    obtain ⟨stmt', c₁, read, same, reached₁⟩ := first c _ front (spelled'.declarations_apart closed)
    obtain ⟨body', c₂, rest', sameRest, reached₂⟩ := others.1 c₁ brace rest reached₁.1 kind
    have more : c.Lacks [.rightBrace] :=
      (spelled.apart (declarationStarts ++ (statementStarts ++ expressionStarts)) rfl (by decide) (by decide) _).lacks front
    refine ⟨_, c₂, .blockMore more read rest', ?_, reached₁.trans reached₂⟩
    simp only [Option.toList_some, List.singleton_append, Stmt.bareAll, same, sameRest]
  · have ended : Apart [.keyword .else_] (us ++ []) := spelled'.declarations_apart (by simp [Apart])
    rw [List.append_nil] at ended
    obtain ⟨stmt', c₁, read, same, reached₁⟩ := first c _ front ended
    obtain ⟨body', c₂, rest', sameRest, reached₂⟩ := others.2 c₁ reached₁.1
    refine ⟨_, c₂, .programMore read rest', ?_, reached₁.trans reached₂⟩
    simp only [Option.toList_some, List.singleton_append, Stmt.bareAll, same, sameRest]

end

theorem SpellsStmt.reread {fits : Nat → Prop} {form : StmtForm} {ts : List Token} (spelled : SpellsStmt fits form ts) :
    form.Reread (Limits fits) ts := by
  induction spelled with
  | absent =>
    intro c closing rest front kind
    obtain ⟨c₁, taken, -⟩ := reaches_front True front rfl
    exact ⟨none, c, .absent taken, rfl, .refl front⟩
  | present value => exact reread_present value
  | uninitialized =>
    intro c semicolon rest front kind
    exact ⟨none, c, .uninitialized (lacks_of_pending front (by simp [kind])), rfl, .refl front⟩
  | initialized sign value =>
    intro c semicolon rest front kind
    obtain ⟨c₁, equals, reached₁⟩ := reaches_front (Limits fits) front sign
    obtain ⟨expr', c₂, read, same, reached₂⟩ := value.reread c₁ _ reached₁.1 (.of_kind _ kind rfl)
    exact ⟨some expr', c₂, .initialized equals read, by simp [same], reached₁.trans reached₂⟩
  | varDeclaration front naming _ ended ih => exact reread_varDeclaration front naming ih ended
  | expressionStatement value ended =>
    intro c rest front
    obtain ⟨expr', c₁, read, same, reached₁⟩ := value.reread c _ (by simpa using front) (.of_kind _ ended rfl)
    obtain ⟨c₂, semicolon, reached₂⟩ := reached₁.take ended
    exact ⟨_, c₂, .expressionStatement read semicolon, by simp only [Stmt.bare, same], reached₂⟩
  | lastName naming => exact reread_lastName naming
  | nextName naming sign _ ih => exact reread_nextName naming sign ih
  | noParameters =>
    intro c paren rest front kind
    obtain ⟨c₁, closing, -⟩ := reaches_front True front kind
    exact ⟨[], c, .noParameters closing, rfl, .refl front⟩
  | someParameters short entries ih => exact reread_someParameters short entries ih
  | noInitializer ended =>
    intro c rest front
    obtain ⟨c₁, semicolon, reached₁⟩ := reaches_front (Limits fits) front ended
    exact ⟨none, c₁, .noInitializer semicolon, rfl, reached₁⟩
  | varInitializer _ ih =>
    intro c rest front
    obtain ⟨word, c₁, stmt', c', keyword, read, same, reached⟩ := ih c rest front
    exact ⟨some stmt', c', .varInitializer keyword read, by simp [same], reached⟩
  | exprInitializer first ih =>
    intro c rest front
    obtain ⟨stmt', c', read, same, reached⟩ := ih c rest front
    have plain : c.Lacks [.semicolon, .keyword .var_] :=
      (first.apart expressionStarts rfl (by decide) (by decide) _).lacks front
    exact ⟨some stmt', c', .exprInitializer plain read, by simp [same], reached⟩
  | forClauses opened _ _ ended _ closed ih₁ ih₂ ih₃ => exact reread_forClauses opened ih₁ ih₂ ended ih₃ closed
  | noSuperclass =>
    intro c brace rest front kind
    exact ⟨none, c, .noSuperclass (lacks_of_pending front (by simp [kind])), rfl, .refl front⟩
  | someSuperclass sign naming =>
    intro c brace rest front kind
    obtain ⟨c₁, less, reached₁⟩ := reaches_front (Limits fits) front sign
    obtain ⟨c₂, name, reached₂⟩ := reached₁.take naming.is
    refine ⟨_, _, .someSuperclass less name, ?_, reached₂.numbered⟩
    simp only [Option.map_some, Expr.bare, naming.same]
  | classDeclared front naming _ opened _ closed ih₁ ih₂ => exact reread_classDeclared front naming ih₁ opened ih₂ closed
  | functionDeclared front _ ih =>
    intro c rest pending _
    obtain ⟨c₁, keyword, reached₁⟩ := reaches_front (Limits fits) pending front
    obtain ⟨d', c₂, read, same, reached₂⟩ := ih c₁ .function rest reached₁.1
    exact ⟨_, c₂, .functionDeclared keyword read, by simp only [Stmt.bare, same], reached₁.trans reached₂⟩
  | varDeclared _ ih =>
    intro c rest front _
    obtain ⟨word, c₁, stmt', c', keyword, read, same, reached⟩ := ih c rest front
    exact ⟨stmt', c', .varDeclared keyword read, same, reached⟩
  | stated statement ih => exact reread_stated statement ih
  | noMethods =>
    intro c brace rest front kind
    obtain ⟨c₁, closing, -⟩ := reaches_front True front kind
    refine ⟨[], c, .methodsEnd ?_, rfl, .refl front⟩
    rw [sees_eq_true.mpr ⟨_, _, closing⟩, Bool.true_or]
  | moreMethods first _ ih₁ ih₂ => exact reread_moreMethods first ih₁ ih₂
  | function naming opened _ closed _ ih₁ ih₂ => exact reread_function naming opened ih₁ closed ih₂
  | block opened _ closed ih =>
    intro c rest front
    obtain ⟨c₁, opening, reached₁⟩ := reaches_front (Limits fits) front opened
    obtain ⟨body', c₂, read, same, reached₂⟩ := ih.1 c₁ _ rest (by simpa using reached₁.1) closed
    exact ⟨_, c₁, body', c₂, opening, read, same, reached₁.trans reached₂⟩
  | forLoop front _ _ ih₁ ih₂ => exact reread_forLoop front ih₁ ih₂
  | ifThen front opened head closed _ ih => exact reread_ifThen front opened head.reread closed ih
  | ifThenElse front opened head closed _ otherwise _ ih₁ ih₂ =>
    exact reread_ifThenElse front opened head.reread closed ih₁ otherwise ih₂
  | printing front value ended => exact reread_printing front value.reread ended
  | returning front _ ended ih => exact reread_returning front ih ended
  | whileLoop front opened head closed _ ih => exact reread_whileLoop front opened head.reread closed ih
  | braced _ ih =>
    intro c rest front _
    obtain ⟨brace, c₁, body', c', opening, read, same, reached⟩ := ih c rest front
    exact ⟨_, c', .braced opening read, by simp only [Stmt.bare, same], reached⟩
  | expressed value ih =>
    intro c rest front _
    obtain ⟨stmt', c', read, same, reached⟩ := ih c rest front
    have plain : c.Lacks statementStarts :=
      (value.apart expressionStarts rfl (by decide) (by decide) _).lacks front
    exact ⟨stmt', c', .expressed plain read, same, reached⟩
  | noDeclarations =>
    refine ⟨fun c brace rest front kind => ?_, fun c front => ⟨[], c, .programEnd front, rfl, .refl front⟩⟩
    obtain ⟨c₁, closing, reached₁⟩ := reaches_front (Limits fits) front kind
    exact ⟨[], c₁, .blockEnd closing, rfl, reached₁⟩
  | moreDeclarations first others ih₁ ih₂ => exact reread_moreDeclarations first others ih₁ ih₂

end Lox.Grammar

namespace Lox

open Grammar

theorem parseProgram_spelled (tokens : List Token) (nextId : NodeId) :
    ∃ ts, SpellsStmt (Short ((parseProgram tokens nextId).misreadings = []))
      (.declarations (parseProgram tokens nextId).value) ts := by
  have reads := reads_declarations (.ofTokens tokens nextId)
  have quiet : (Cursor.ofTokens tokens nextId).Silent ((parseProgram tokens nextId).misreadings = [])
      (declarations (.ofTokens tokens nextId)).2 := fun silent => List.reverse_eq_nil_iff.mp silent
  obtain ⟨ts, spelled, -⟩ := reads.spelled.1.spans quiet
  exact ⟨ts, spelled⟩

theorem parseProgram_of_spelled {fits : Nat → Prop} {program : List Stmt} {tokens : List Token}
    (spelled : SpellsStmt fits (.declarations program) (tokens.takeWhile (!·.isEof))) (nextId : NodeId) :
    Stmt.bareAll (parseProgram tokens nextId).value = Stmt.bareAll program ∧
      (Limits fits → (parseProgram tokens nextId).misreadings = []) := by
  obtain ⟨program', last, read, same, reached⟩ := spelled.reread.2 (.ofTokens tokens nextId) rfl
  have yielded := declarations_eq_iff.mpr read
  unfold parseProgram
  rw [yielded]
  refine ⟨same, fun known => ?_⟩
  have silent := reached.2 known
  simp only [silent, Cursor.ofTokens, List.reverse_nil]

theorem parseProgram_silent_iff (tokens : List Token) (nextId : NodeId) :
    (parseProgram tokens nextId).misreadings = [] ↔
      ∃ program, SpellsStmt (Short True) (.declarations program) (tokens.takeWhile (!·.isEof)) := by
  constructor
  · intro silent
    have reads := reads_declarations (.ofTokens tokens nextId)
    have quiet : (Cursor.ofTokens tokens nextId).Silent True (declarations (.ofTokens tokens nextId)).2 :=
      fun _ => List.reverse_eq_nil_iff.mp silent
    obtain ⟨spells, ended⟩ : StmtPhrase.Spelled True _ _ (.declarations _) := reads.spelled
    obtain ⟨ts, spelled, front⟩ := spells.spans quiet
    have all : tokens.takeWhile (!·.isEof) = ts ++ _ := front trivial
    rw [ended, List.append_nil] at all
    rw [all]
    exact ⟨_, spelled⟩
  · rintro ⟨program, spelled⟩
    exact (parseProgram_of_spelled spelled nextId).2 fun _ short => short trivial

end Lox
