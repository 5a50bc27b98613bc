import Lox.Proofs.Tree.RoundTrip

namespace Lox

/-- The token by its kind and lexeme; numbers and strings by their value instead. -/
def Token.gist (t : Token) : Token :=
  if t.kind = .number ∨ t.kind = .string then ⟨t.kind, "", t.literal, 0⟩ else ⟨t.kind, t.lexeme, none, 0⟩

namespace Grammar

/-- Where an expression stands, from assignments, which bind loosest, to primary expressions. -/
inductive Rung where
  | assignment
  | infix_ (level : Level)
  | unary
  | call
  | primary
deriving DecidableEq

def Rung.height : Rung → Nat
  | assignment => 0
  | infix_ level => 6 - level.rank
  | unary => 7
  | call => 8
  | primary => 9

def Level.ofOperator? (kind : Kind) : Option Level :=
  [or, and, equality, comparison, term, factor].find? (kind ∈ ·.operators)

theorem Level.ofOperator?_of_mem {level : Level} {kind : Kind} (operator : kind ∈ level.operators) :
    ofOperator? kind = some level := by
  revert kind
  cases level <;> decide

end Grammar

open Grammar

/-- The rung of an expression; operators of no level bind nothing. -/
def Expr.rung : Expr → Rung
  | .assign .. | .set .. => .assignment
  | .binary _ operator _ | .logical _ operator _ => (Level.ofOperator? operator.kind).elim .assignment .infix_
  | .unary .. => .unary
  | .call .. | .get .. => .call
  | .grouping _ | .constant _ | .super_ .. | .this_ .. | .variable_ .. => .primary

/-- Every operand stands as high as its place asks. Arguments, groups and assigned values may be any expressions. -/
inductive Expr.OnLadder : Expr → Prop where
  | assign {id : NodeId} {name : Token} {value : Expr} (assigned : value.OnLadder) : OnLadder (.assign id name value)
  | set {object value : Expr} {name : Token} (owner : object.OnLadder) (high : Rung.call.height ≤ object.rung.height)
      (assigned : value.OnLadder) : OnLadder (.set object name value)
  | infix_ {level : Level} {left right : Expr} {operator : Token} (sign : operator.kind ∈ level.operators)
      (first : left.OnLadder) (second : right.OnLadder) (leftHigh : (Rung.infix_ level).height ≤ left.rung.height)
      (rightHigher : (Rung.infix_ level).height < right.rung.height) : OnLadder (level.node left operator right)
  | unary {operator : Token} {right : Expr} (operand : right.OnLadder) (high : Rung.unary.height ≤ right.rung.height) :
      OnLadder (.unary operator right)
  | call {callee : Expr} {paren : Token} {arguments : List Expr} (called : callee.OnLadder)
      (high : Rung.call.height ≤ callee.rung.height) (given : ∀ argument ∈ arguments, argument.OnLadder) :
      OnLadder (.call callee paren arguments)
  | get {object : Expr} {name : Token} (owner : object.OnLadder) (high : Rung.call.height ≤ object.rung.height) :
      OnLadder (.get object name)
  | grouping {inner : Expr} (grouped : inner.OnLadder) : OnLadder (.grouping inner)
  | constant {value : Constant} : OnLadder (.constant value)
  | super_ {id : NodeId} {keyword method : Token} : OnLadder (.super_ id keyword method)
  | this_ {id : NodeId} {keyword : Token} : OnLadder (.this_ id keyword)
  | variable_ {id : NodeId} {name : Token} : OnLadder (.variable_ id name)

namespace Grammar

theorem Level.rung_node {level : Level} {left right : Expr} {operator : Token} (sign : operator.kind ∈ level.operators) :
    (level.node left operator right).rung = .infix_ level := by
  have found := Level.ofOperator?_of_mem sign
  cases level <;> simp only [Level.node, Expr.rung, found, Option.elim_some]

def ExprForm.OnLadder : ExprForm → Prop
  | .expression expr => expr.OnLadder
  | .infix_ level expr => expr.OnLadder ∧ (Rung.infix_ level).height ≤ expr.rung.height
  | .unary expr => expr.OnLadder ∧ Rung.unary.height ≤ expr.rung.height
  | .call expr => expr.OnLadder ∧ Rung.call.height ≤ expr.rung.height
  | .primary expr => expr.OnLadder ∧ Rung.primary.height ≤ expr.rung.height
  | .arguments exprs | .entries exprs => ∀ expr ∈ exprs, expr.OnLadder

theorem Stands.named_kind {token named : Token} {kinds : List Kind} (stands : Stands token kinds named) :
    named.kind ∈ kinds := by
  have same : token.bare.kind = named.bare.kind := congrArg Token.kind stands.same
  change named.bare.kind ∈ kinds
  rw [← same]
  exact stands.kind

theorem ExprForm.OnLadder.operand {level : Level} {expr : Expr} (ladder : (level.operandForm expr).OnLadder) :
    expr.OnLadder ∧ (Rung.infix_ level).height < expr.rung.height := by
  cases level <;> exact ladder

variable {fits : Nat → Prop}

theorem SpellsExpr.onLadder {form : ExprForm} {ts : List Token} (spelled : SpellsExpr fits form ts) : form.OnLadder := by
  induction spelled with
  | unassigned _ ih => exact ih.1
  | assign _ _ _ ih => exact .assign ih
  | set _ _ _ _ _ ih₁ ih₂ => exact .set ih₁.1 ih₁.2 ih₂
  | operand _ ih => exact ⟨ih.operand.1, Nat.le_of_lt ih.operand.2⟩
  | infix_ _ between _ ih₁ ih₂ =>
    have sign := between.named_kind
    exact ⟨.infix_ sign ih₁.1 ih₂.operand.1 ih₁.2 ih₂.operand.2, Nat.le_of_eq (by rw [Level.rung_node sign])⟩
  | prefixed _ _ ih => exact ⟨.unary ih.1 ih.2, Nat.le_refl _⟩
  | called _ ih | primary _ ih => exact ⟨ih.1, Nat.le_of_succ_le ih.2⟩
  | get _ _ _ ih => exact ⟨.get ih.1 ih.2, Nat.le_refl _⟩
  | call _ _ _ _ ih₁ ih₂ => exact ⟨.call ih₁.1 ih₁.2 ih₂, Nat.le_refl _⟩
  | noArguments => exact nofun
  | someArguments _ _ ih => exact ih
  | lastEntry _ ih => exact List.forall_mem_singleton.mpr ih
  | nextEntry _ _ _ ih₁ ih₂ => exact List.forall_mem_cons.mpr ⟨ih₁, ih₂⟩
  | constant => exact ⟨.constant, Nat.le_refl _⟩
  | super_ => exact ⟨.super_, Nat.le_refl _⟩
  | this_ => exact ⟨.this_, Nat.le_refl _⟩
  | variable_ => exact ⟨.variable_, Nat.le_refl _⟩
  | grouping _ _ _ ih => exact ⟨.grouping ih, Nat.le_refl _⟩

def Rung.next? : Rung → Option Rung
  | assignment => some (infix_ .or)
  | infix_ level => some (level.tighter?.elim unary infix_)
  | unary => some call
  | call => some primary
  | primary => none

def Rung.form : Rung → Expr → ExprForm
  | assignment => .expression
  | infix_ level => .infix_ level
  | unary => .unary
  | call => .call
  | primary => .primary

theorem Rung.height_next {rung next : Rung} (above : rung.next? = some next) : next.height = rung.height + 1 := by
  rcases rung with _ | level | _ | _ | _
  case infix_ => cases level <;> cases above <;> rfl
  all_goals cases above <;> rfl

theorem Rung.height_le (rung : Rung) : rung.height ≤ Rung.primary.height := by
  rcases rung with _ | level | _ | _ | _
  case infix_ => cases level <;> decide
  all_goals decide

theorem Rung.height_inj {low high : Rung} (same : low.height = high.height) : low = high := by
  rcases low with _ | level | _ | _ | _ <;> rcases high with _ | level' | _ | _ | _
  case infix_.infix_ => cases level <;> cases level' <;> first | rfl | cases same
  case infix_.assignment | infix_.unary | infix_.call | infix_.primary => cases level <;> cases same
  case assignment.infix_ | unary.infix_ | call.infix_ | primary.infix_ => cases level' <;> cases same
  all_goals first | rfl | cases same

theorem SpellsExpr.lower {rung next : Rung} {expr : Expr} {ts : List Token} (above : rung.next? = some next)
    (spelled : SpellsExpr fits (next.form expr) ts) : SpellsExpr fits (rung.form expr) ts := by
  cases rung with
  | assignment =>
    cases above
    exact .unassigned spelled
  | infix_ level =>
    cases above
    refine .operand ?_
    cases level <;> exact spelled
  | unary =>
    cases above
    exact .called spelled
  | call =>
    cases above
    exact .primary spelled
  | primary => cases above

theorem SpellsExpr.descend (low : Rung) {high : Rung} {expr : Expr} {ts : List Token} (below : low.height ≤ high.height)
    (spelled : SpellsExpr fits (high.form expr) ts) : SpellsExpr fits (low.form expr) ts := by
  rcases Nat.eq_or_lt_of_le below with same | below
  · rw [Rung.height_inj same]
    exact spelled
  · cases above : low.next? with
    | none =>
      cases low <;> cases above
      exact absurd below (Nat.not_lt.mpr high.height_le)
    | some next =>
      have height := Rung.height_next above
      exact lower above (descend next (by omega) spelled)
termination_by high.height - low.height

theorem Stands.bare {token : Token} {kinds : List Kind} (kind : token.kind ∈ kinds) : Stands token.bare kinds token :=
  ⟨kind, rfl⟩

theorem kind_token (kind : Kind) : kind.token.kind = kind := by cases kind <;> rfl

theorem SpellsExpr.arguments_words {exprs : List Expr}
    (each : ∀ expr ∈ exprs, SpellsExpr (fun _ => True) (.expression expr) expr.words) :
    SpellsExpr (fun _ => True) (.arguments exprs) (commaJoined (Expr.argumentsWords exprs)) := by
  suffices entries : exprs ≠ [] →
      SpellsExpr (fun _ => True) (.entries exprs) (commaJoined (Expr.argumentsWords exprs)) by
    cases exprs with
    | nil => exact .noArguments
    | cons first rest => exact .someArguments trivial (entries nofun)
  intro more
  induction exprs with
  | nil => exact absurd rfl more
  | cons first rest ih =>
    rw [List.forall_mem_cons] at each
    cases rest with
    | nil => exact .lastEntry each.1
    | cons second others => exact .nextEntry each.1 (kind_token _) (ih each.2 nofun)

theorem Level.node_operands {level : Level} {left right : Expr} {operator : Token}
    (legal : (level.node left operator right).Legal) : left.Legal ∧ right.Legal := by
  cases level
  case or | and =>
    cases legal with
    | logical _ first second => exact ⟨first, second⟩
  all_goals
    cases legal with
    | binary _ first second => exact ⟨first, second⟩

end Grammar

theorem Expr.OnLadder.spelled {expr : Expr} (ladder : expr.OnLadder) (legal : expr.Legal) :
    SpellsExpr (fun _ => True) (expr.rung.form expr) expr.words := by
  induction ladder with
  | assign _ ih =>
    cases legal with
    | assign named assigned =>
      exact .assign (.bare named.kind) (kind_token _) (.descend .assignment (Nat.zero_le _) (ih assigned))
  | set _ high _ ih₁ ih₂ =>
    cases legal with
    | set named owner assigned =>
      exact .set (.descend .call high (ih₁ owner)) (kind_token _) (.bare named.kind) (kind_token _)
        (.descend .assignment (Nat.zero_le _) (ih₂ assigned))
  | @infix_ level left right operator sign _ _ leftHigh rightHigher ih₁ ih₂ =>
    obtain ⟨first, second⟩ := Level.node_operands legal
    rw [Level.rung_node sign, Level.node_words]
    refine .infix_ (.descend (.infix_ level) leftHigh (ih₁ first)) (.bare sign) ?_
    obtain ⟨next, above⟩ : ∃ next, (Rung.infix_ level).next? = some next := ⟨_, rfl⟩
    have operand := SpellsExpr.descend next (by rw [Rung.height_next above]; exact rightHigher) (ih₂ second)
    cases level <;> cases above <;> exact operand
  | unary _ high ih =>
    cases legal with
    | unary sign operand => exact .prefixed (.bare sign.kind) (.descend .unary high (ih operand))
  | call _ high _ ih₁ ih₂ =>
    cases legal with
    | call closing called given =>
      refine .call (.descend .call high (ih₁ called)) (kind_token _) (.arguments_words ?_) (.bare closing.kind)
      intro argument among
      exact .descend .assignment (Nat.zero_le _) (ih₂ argument among (given argument among))
  | get _ high ih =>
    cases legal with
    | get named owner => exact .get (.descend .call high (ih owner)) (kind_token _) (.bare named.kind)
  | grouping _ ih =>
    cases legal with
    | grouping grouped =>
      exact .grouping (kind_token _) (.descend .assignment (Nat.zero_le _) (ih grouped)) (kind_token _)
  | constant => exact .constant (constantOf?_of_bare (Constant.word_bare _))
  | super_ =>
    cases legal with
    | super_ word named => exact .super_ (.bare word.kind) (kind_token _) (.bare named.kind)
  | this_ =>
    cases legal with
    | this_ word => exact .this_ (.bare word.kind)
  | variable_ =>
    cases legal with
    | variable_ named => exact .variable_ (.bare named.kind)

theorem Token.gist_bare (t : Token) : t.bare.gist = t.gist := rfl

theorem Token.Genuine.gist_kind {t : Token} {kind : Kind} (genuine : t.Genuine) (same : t.kind = kind)
    (fixed : kind ≠ .identifier ∧ kind ≠ .number ∧ kind ≠ .string) : t.gist = kind.token.gist := by
  have is : t.Is [kind] := ⟨List.mem_singleton.mpr same, genuine⟩
  rw [← Token.gist_bare, is.bare_eq fixed]

theorem Kind.Written.gist_word {kind : Kind} {literal : Literal} {text : List Char}
    (written : Kind.Written kind (some literal) text) :
    (Constant.ofLiteral literal).word.gist = ⟨kind, "", some literal, 0⟩ := by
  cases written <;> rfl

theorem Token.Genuine.gist_constant {t : Token} {value : Constant} (genuine : t.Genuine)
    (stands : constantOf? t = some value) : t.gist = value.word.gist := by
  unfold constantOf? at stands
  split at stands
  case h_1 kind | h_2 kind | h_3 kind =>
    cases stands
    exact genuine.gist_kind kind (by decide)
  case h_4 kind | h_5 kind =>
    obtain ⟨literal, found, rfl⟩ := Option.map_eq_some_iff.mp stands
    unfold Token.Genuine at genuine
    rw [found] at genuine
    rw [genuine.gist_word, Token.gist, if_pos (by simp [kind]), found]
  case h_6 => cases stands

namespace Grammar

theorem Stands.gist {token named : Token} {kinds : List Kind} (stands : Stands token kinds named) :
    token.gist = named.bare.gist := by
  rw [← stands.same, Token.gist_bare]

theorem SpellsExpr.gists {form : ExprForm} {ts : List Token} (spelled : SpellsExpr fits form ts)
    (genuine : ∀ t ∈ ts, t.Genuine) : ts.map Token.gist = form.words.map Token.gist := by
  induction spelled with
  | unassigned _ ih | called _ ih | primary _ ih | someArguments _ _ ih | lastEntry _ ih => exact ih genuine
  | operand _ ih =>
    rw [Level.operandForm_words] at ih
    exact ih genuine
  | assign target sign _ ih =>
    simp only [List.forall_mem_cons] at genuine
    obtain ⟨-, equals, value⟩ := genuine
    simp only [ExprForm.words, Expr.words, List.map_cons, target.gist, equals.gist_kind sign (by decide)]
    rw [ih value]
    rfl
  | set _ point target sign _ ih₁ ih₂ =>
    simp only [List.forall_mem_append, List.forall_mem_cons] at genuine
    obtain ⟨object, dot, -, equals, value⟩ := genuine
    simp only [ExprForm.words, Expr.words, List.map_append, List.map_cons, target.gist, dot.gist_kind point (by decide),
      equals.gist_kind sign (by decide)]
    rw [ih₁ object, ih₂ value]
    rfl
  | infix_ _ between _ ih₁ ih₂ =>
    simp only [List.forall_mem_append, List.forall_mem_cons] at genuine
    obtain ⟨left, -, right⟩ := genuine
    rw [Level.operandForm_words] at ih₂
    simp only [ExprForm.words, Level.node_words, List.map_append, List.map_cons, between.gist]
    rw [ih₁ left, ih₂ right]
    rfl
  | prefixed before _ ih =>
    simp only [List.forall_mem_cons] at genuine
    simp only [ExprForm.words, Expr.words, List.map_cons, before.gist]
    rw [ih genuine.2]
    rfl
  | get _ point property ih =>
    simp only [List.forall_mem_append, List.forall_mem_cons] at genuine
    obtain ⟨object, dot, -⟩ := genuine
    simp only [ExprForm.words, Expr.words, List.map_append, List.map_cons, List.map_nil, property.gist,
      dot.gist_kind point (by decide)]
    rw [ih object]
    rfl
  | call _ opened _ closed ih₁ ih₂ =>
    simp only [List.forall_mem_append, List.forall_mem_cons] at genuine
    obtain ⟨callee, opening, given, -⟩ := genuine
    simp only [ExprForm.words, Expr.words, List.map_append, List.map_cons, List.map_nil, closed.gist,
      opening.gist_kind opened (by decide)]
    rw [ih₁ callee, ih₂ given]
    rfl
  | noArguments => rfl
  | nextEntry _ sign entries ih₁ ih₂ =>
    simp only [List.forall_mem_append, List.forall_mem_cons] at genuine
    obtain ⟨first, comma, others⟩ := genuine
    simp only [ExprForm.words, Expr.argumentsWords, commaJoined_cons _ entries.entries_words_ne_nil, List.map_append,
      List.map_cons, comma.gist_kind sign (by decide)]
    rw [ih₁ first, ih₂ others]
    rfl
  | constant stands =>
    exact congrArg (fun word => [word]) ((genuine _ List.mem_cons_self).gist_constant stands)
  | super_ front point named =>
    simp only [List.forall_mem_cons] at genuine
    obtain ⟨-, dot, -⟩ := genuine
    simp only [ExprForm.words, Expr.words, List.map_cons, List.map_nil, front.gist, named.gist,
      dot.gist_kind point (by decide)]
  | this_ front | variable_ front => exact congrArg (fun word => [word]) front.gist
  | grouping opened _ closed ih =>
    simp only [List.forall_mem_append, List.forall_mem_cons] at genuine
    obtain ⟨opening, inner, closing, -⟩ := genuine
    simp only [ExprForm.words, Expr.words, List.map_append, List.map_cons, List.map_nil,
      opening.gist_kind opened (by decide), closing.gist_kind closed (by decide)]
    rw [ih inner]
    rfl

end Grammar

def Token.ofGist (gist : Token) : Token := gist.literal.elim gist fun literal => (Constant.ofLiteral literal).word

theorem Token.ofGist_kind (kind : Kind) : kind.token.gist.ofGist = kind.token := by cases kind <;> rfl

theorem Token.ofGist_constant (value : Constant) : value.word.gist.ofGist = value.word := by
  cases value with
  | bool value => cases value <;> rfl
  | _ => rfl

theorem Token.Genuine.literal_eq_none {t : Token} (genuine : t.Genuine) (other : t.kind ≠ .number ∧ t.kind ≠ .string) :
    t.literal = none := by
  obtain ⟨kind, lexeme, literal, line⟩ := t
  unfold Token.Genuine at genuine
  dsimp only at genuine other ⊢
  generalize lexeme.toList = text at genuine
  cases genuine with
  | whole | decimal => exact absurd rfl other.1
  | string => exact absurd rfl other.2
  | _ => rfl

theorem Token.Is.ofGist {t : Token} {kinds : List Kind} (is : t.Is kinds) (other : .number ∉ kinds ∧ .string ∉ kinds) :
    t.bare.gist.ofGist = t.bare := by
  have differs : t.kind ≠ .number ∧ t.kind ≠ .string :=
    ⟨fun same => other.1 (same ▸ is.kind), fun same => other.2 (same ▸ is.kind)⟩
  have none := is.genuine.literal_eq_none differs
  have gist : t.bare.gist = t.bare := by
    rw [Token.gist_bare, Token.gist, if_neg (by simp [differs]), Token.bare, none]
  rw [gist, Token.ofGist, Token.bare, none]
  rfl

theorem Expr.forall_mem_argumentsWords {exprs : List Expr} {P : Token → Prop} (comma : P (Kind.token .comma))
    (each : ∀ expr ∈ exprs, ∀ word ∈ expr.words, P word) : ∀ word ∈ commaJoined (argumentsWords exprs), P word := by
  induction exprs with
  | nil => exact nofun
  | cons first rest ih =>
    rw [List.forall_mem_cons] at each
    cases rest with
    | nil => exact each.1
    | cons second others =>
      rw [argumentsWords, commaJoined_cons _ (by simp [argumentsWords]), List.forall_mem_append, List.forall_mem_cons]
      exact ⟨each.1, comma, ih each.2⟩

theorem Expr.Legal.ofGist_words {expr : Expr} (legal : expr.Legal) : ∀ word ∈ expr.words, word.gist.ofGist = word := by
  have sign := Token.ofGist_kind
  induction legal with
  | assign named _ ih => simpa [Expr.words, sign, named.ofGist] using ih
  | binary sign' _ _ ih₁ ih₂ | logical sign' _ _ ih₁ ih₂ =>
    rw [Expr.words, List.forall_mem_append, List.forall_mem_cons]
    exact ⟨ih₁, sign'.ofGist (by decide), ih₂⟩
  | call closing _ _ ih₁ ih₂ =>
    simp only [Expr.words, List.forall_mem_append, List.forall_mem_cons]
    exact ⟨ih₁, sign _, Expr.forall_mem_argumentsWords (sign _) ih₂, closing.ofGist (by decide), List.forall_mem_nil _⟩
  | get named _ ih =>
    simp only [Expr.words, List.forall_mem_append, List.forall_mem_cons]
    exact ⟨ih, sign _, named.ofGist (by decide), List.forall_mem_nil _⟩
  | grouping _ ih =>
    simp only [Expr.words, List.forall_mem_append, List.forall_mem_cons]
    exact ⟨sign _, ih, sign _, List.forall_mem_nil _⟩
  | @constant value => exact List.forall_mem_singleton.mpr (Token.ofGist_constant value)
  | set named _ _ ih₁ ih₂ =>
    simp only [Expr.words, List.forall_mem_append, List.forall_mem_cons]
    exact ⟨ih₁, sign _, named.ofGist (by decide), sign _, ih₂⟩
  | super_ word named =>
    simp only [Expr.words, List.forall_mem_cons]
    exact ⟨word.ofGist (by decide), sign _, named.ofGist (by decide), List.forall_mem_nil _⟩
  | this_ word => exact List.forall_mem_singleton.mpr (word.ofGist (by decide))
  | unary sign' _ ih => exact List.forall_mem_cons.mpr ⟨sign'.ofGist (by decide), ih⟩
  | variable_ named => exact List.forall_mem_singleton.mpr (named.ofGist (by decide))

theorem Expr.Legal.words_inj {expr expr' : Expr} (legal : expr.Legal) (legal' : expr'.Legal)
    (same : expr.words.map Token.gist = expr'.words.map Token.gist) : expr.words = expr'.words := by
  have back {expr : Expr} (legal : expr.Legal) : (expr.words.map Token.gist).map Token.ofGist = expr.words := by
    rw [List.map_map]
    exact (List.map_congr_left legal.ofGist_words).trans (List.map_id _)
  rw [← back legal, same, back legal']

theorem Grammar.SpellsExpr.unique {fits fits' : Nat → Prop} {expr expr' : Expr} {ts : List Token}
    (first : SpellsExpr fits (.expression expr) ts) (second : SpellsExpr fits' (.expression expr') ts) :
    expr.bare = expr'.bare := by
  let c : Cursor := ⟨ts, Kind.token .eof, 0, []⟩
  have front : c.pending = ts ++ [] := (List.append_nil ts).symm
  obtain ⟨read, next, reads, same, -⟩ := first.reread c [] front nofun
  obtain ⟨read', next', reads', same', -⟩ := second.reread c [] front nofun
  obtain ⟨_, yields⟩ := yields_expression_iff.mpr reads
  obtain ⟨_, yields'⟩ := yields_expression_iff.mpr reads'
  rw [yields] at yields'
  cases yields'
  exact same.symm.trans same'

theorem Expr.OnLadder.bare_inj {expr expr' : Expr} (ladder : expr.OnLadder) (ladder' : expr'.OnLadder) (legal : expr.Legal)
    (legal' : expr'.Legal) (same : expr.words.map Token.gist = expr'.words.map Token.gist) : expr.bare = expr'.bare := by
  have spelled := SpellsExpr.descend .assignment (Nat.zero_le _) (ladder.spelled legal)
  have spelled' := SpellsExpr.descend .assignment (Nat.zero_le _) (ladder'.spelled legal')
  rw [legal.words_inj legal' same] at spelled
  exact spelled.unique spelled'

theorem Lexer.tokensOf_ended (source : String) :
    ∃ body stop, tokensOf source = body ++ [stop] ∧ stop.kind = .eof ∧
      ∀ token ∈ body, token.kind ≠ .eof ∧ token.Genuine := by
  obtain ⟨items, scanned, others⟩ := scan_ended source
  refine ⟨items.filterMap Lexed.token?, ⟨.eof, "", none, 1 + source.toList.count '\n'⟩, ?_, rfl, fun token among => ?_⟩
  · rw [tokensOf, scanned, List.filterMap_append]
    rfl
  · obtain ⟨lexed, found, same⟩ := List.mem_filterMap.mp among
    cases lexed <;> cases same
    have unended := others token found
    have member : token ∈ (scan source).filterMap Lexed.token? := by
      rw [scanned, List.filterMap_append]
      exact List.mem_append_left _ among
    exact ⟨unended, (scan_written member).resolve_left unended⟩

theorem Grammar.Cursor.pending_ofTokens {body : List Token} {stop : Token} (ended : stop.kind = .eof)
    (others : ∀ token ∈ body, token.kind ≠ .eof) (first : NodeId) :
    (Cursor.ofTokens (body ++ [stop]) first).pending = body := by
  have unended : ∀ token ∈ body, (!token.isEof) = true := by simpa [Token.isEof] using others
  have last : [stop].takeWhile (!·.isEof) = [] := by simp [Token.isEof, ended]
  rw [Cursor.ofTokens, List.takeWhile_append_of_pos unended, last, List.append_nil]

theorem parseExpression_eq_ok {tokens : List Token} {first last : NodeId} {expr : Expr} {misreadings : List Misreading}
    (parsed : parseExpression tokens first = ⟨.ok expr, misreadings, last⟩) :
    ∃ next, ReadsExpr (.expression expr) (.ofTokens tokens first) next ∧ next.pending = [] ∧
      next.misreadings.reverse = misreadings := by
  have obeys := wholeExpression_obeys (.ofTokens tokens first)
  unfold parseExpression at parsed
  generalize wholeExpression (.ofTokens tokens first) = reading at obeys parsed
  cases reading with
  | read value next progress =>
    cases parsed
    exact ⟨next, obeys.1, obeys.2, rfl⟩
  | failed => cases parsed

/-- An expression that is read without complaint has the tokens of its text for words, in their order, and stands on
    the ladder. No other tree does. -/
theorem parseExpression_faithful {source : String} {first last : NodeId} {expr : Expr}
    (parsed : parseExpression (Lexer.tokensOf source) first = ⟨.ok expr, [], last⟩) :
    ∃ body stop, Lexer.tokensOf source = body ++ [stop] ∧ stop.kind = .eof ∧ (∀ token ∈ body, token.kind ≠ .eof) ∧
      expr.words.map Token.gist = body.map Token.gist ∧ expr.Legal ∧ expr.OnLadder ∧
      ∀ expr' : Expr, expr'.Legal → expr'.OnLadder → expr'.words.map Token.gist = body.map Token.gist →
        expr'.bare = expr.bare := by
  obtain ⟨next, reads, ended, quiet⟩ := parseExpression_eq_ok parsed
  obtain ⟨body, stop, tokens, last, others⟩ := Lexer.tokensOf_ended source
  have unended : ∀ token ∈ body, token.kind ≠ .eof := fun token among => (others token among).1
  have genuine : ∀ token ∈ body, token.Genuine := fun token among => (others token among).2
  rw [tokens] at reads
  have pending := Cursor.pending_ofTokens last unended first
  have silent : Cursor.Silent True (.ofTokens (body ++ [stop]) first) next := fun _ => List.reverse_eq_nil_iff.mp quiet
  obtain ⟨ts, spelled, front⟩ := reads.spelled.spans silent
  have all : body = ts := by rw [← pending, front trivial, ended, List.append_nil]
  subst all
  have legal : expr.Legal := reads.legal (pending.symm ▸ genuine : ∀ token ∈ Cursor.pending _, token.Genuine)
  have ladder : expr.OnLadder := spelled.onLadder
  have gists := (spelled.gists genuine).symm
  refine ⟨body, stop, tokens, last, unended, gists, legal, ladder, fun expr' legal' ladder' words => ?_⟩
  exact ladder'.bare_inj ladder legal' legal (words.trans gists.symm)

/-- A property that is assigned to, with operators of four levels behind the equals sign. -/
theorem parseExpression_faithful_setting :
    let name (lexeme : String) : Token := ⟨.identifier, lexeme, none, 1⟩
    let sign (kind : Kind) : Token := { kind.token with line := 1 }
    let number (bits : UInt64) : Expr := .constant (.number ⟨bits⟩)
    let expr : Expr := .set (.variable_ 0 (name "a")) (name "b") (.logical (.variable_ 1 (name "c")) (sign (.keyword .or_))
      (.binary (.unary (sign .minus) (number 0x3FF0000000000000)) (sign .minus)
        (.binary (number 0x4000000000000000) (sign .star)
          (.call (.variable_ 2 (name "f")) (sign .rightParen) [number 0x4008000000000000]))))
    let tokens := Lexer.tokensOf "a.b = c or -1 - 2.0 * f(3)"
    parseExpression tokens 0 = ⟨.ok expr, [], 3⟩ ∧ expr.words.map Token.gist = tokens.dropLast.map Token.gist ∧
      expr.OnLadder := by
  intro name sign number expr tokens
  have parsed : parseExpression (Lexer.tokensOf "a.b = c or -1 - 2.0 * f(3)") 0 = ⟨.ok expr, [], 3⟩ := by cbv
  obtain ⟨body, stop, ended, -, -, words, -, ladder, -⟩ := parseExpression_faithful parsed
  refine ⟨parsed, ?_, ladder⟩
  have front : tokens.dropLast = body := (congrArg List.dropLast ended).trans List.dropLast_concat
  rw [front]
  exact words

end Lox
