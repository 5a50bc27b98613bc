import Lox.Grammar.Cursor

namespace Lox.Grammar

inductive Level where
  | or | and | equality | comparison | term | factor
deriving DecidableEq

namespace Level

def operators : Level → List Kind
  | or => [.keyword .or_]
  | and => [.keyword .and_]
  | equality => [.bangEqual, .equalEqual]
  | comparison => [.greater, .greaterEqual, .less, .lessEqual]
  | term => [.minus, .plus]
  | factor => [.slash, .star]

/-- The level that binds next more tightly; the operands of factors are unary. -/
def tighter? : Level → Option Level
  | or => some and
  | and => some equality
  | equality => some comparison
  | comparison => some term
  | term => some factor
  | factor => none

def rank : Level → Nat
  | or => 5
  | and => 4
  | equality => 3
  | comparison => 2
  | term => 1
  | factor => 0

theorem rank_tighter {level next : Level} (h : level.tighter? = some next) :
    next.rank < level.rank := by
  cases level <;> cases h <;> decide

def node : Level → Expr → Token → Expr → Expr
  | or, left, operator, right => .logical left operator right
  | and, left, operator, right => .logical left operator right
  | _, left, operator, right => .binary left operator right

end Level

/-- The longest list of parameters or arguments that is not complained of. -/
def maxArity : Nat := 255

def limit (c : Cursor) (count : Nat) (fault : SyntaxFault) : Cursor :=
  if maxArity ≤ count then c.record c.peek fault else c

@[simp] theorem size_limit (c : Cursor) (count : Nat) (fault : SyntaxFault) :
    (limit c count fault).size = c.size := by
  unfold limit
  split <;> simp

/-- The assignment of `value` to what `target` refers to. Other targets are complained of at the
    equals sign, and the target stands for the whole. -/
def assignTo (target : Expr) (equals : Token) (value : Expr) (c : Cursor) : Reading c 0 Expr :=
  match target with
  | .variable_ _ name => .read (.assign c.nextId name value) c.numbered c.numbered_le
  | .get object name => .done (.set object name value)
  | other => .read other (c.record equals .assignmentTarget) (c.record_le _ _)

mutual

def expression (c : Cursor) : Reading c 1 Expr :=
  (infix_ .or c).andThen fun target c₁ _ =>
  match c₁.accept? [.equal] with
  | none => .done target
  | some equals =>
    .after equals <|
      (expression equals.next).andThen fun value c₂ _ => assignTo target equals.token value c₂
termination_by 32 * c.size + 15
decreasing_by
  · simp [Level.rank]
  · have := equals.shorter; omega

def infix_ (level : Level) (c : Cursor) : Reading c 1 Expr :=
  (operand level c).andThen fun left c₁ _ => infixRest level left c₁
termination_by 32 * c.size + 2 * level.rank + 4
decreasing_by all_goals omega

def operand (level : Level) (c : Cursor) : Reading c 1 Expr :=
  match _h : level.tighter? with
  | some next => infix_ next c
  | none => unary c
termination_by 32 * c.size + 2 * level.rank + 3
decreasing_by
  · have := Level.rank_tighter _h; omega
  · omega

def infixRest (level : Level) (left : Expr) (c : Cursor) : Reading c 0 Expr :=
  match c.accept? level.operators with
  | none => .done left
  | some operator =>
    .after operator <|
      (operand level operator.next).andThen fun right c₁ _ =>
      infixRest level (level.node left operator.token right) c₁
termination_by 32 * c.size
decreasing_by
  all_goals have := operator.shorter
  · have : level.rank ≤ 5 := by cases level <;> decide
    omega
  · omega

def unary (c : Cursor) : Reading c 1 Expr :=
  match c.accept? [.bang, .minus] with
  | some operator => .after operator <| (unary operator.next).map (.unary operator.token)
  | none => (primary c).andThen fun callee c₁ _ => callRest callee c₁
termination_by 32 * c.size + 2
decreasing_by
  · have := operator.shorter; omega
  · omega
  · omega

def callRest (callee : Expr) (c : Cursor) : Reading c 0 Expr :=
  match c.accept? [.leftParen, .dot] with
  | none => .done callee
  | some sign =>
    if sign.token.kind = .dot then
      .after sign <|
        (sign.next.expect .identifier .propertyName).andThen fun name c₁ _ =>
        callRest (.get callee name) c₁
    else
      .after sign <|
        (arguments sign.next).andThen fun arguments c₁ _ =>
        (c₁.expect .rightParen .argumentsClosing).andThen fun paren c₂ _ =>
        callRest (.call callee paren arguments) c₂
termination_by 32 * c.size
decreasing_by all_goals have := sign.shorter; omega

def arguments (c : Cursor) : Reading c 0 (List Expr) :=
  if c.sees .rightParen then .done []
  else (argumentsFrom 0 c).weaken
termination_by 32 * c.size + 17
decreasing_by omega

/-- At least one argument, when `count` of them stand before it. -/
def argumentsFrom (count : Nat) (c : Cursor) : Reading c 1 (List Expr) :=
  .ofSameSize (size_limit c count .tooManyArguments) <|
    (expression (limit c count .tooManyArguments)).andThen fun first c₁ _ =>
    match c₁.accept? [.comma] with
    | none => .done [first]
    | some comma => .after comma <| (argumentsFrom (count + 1) comma.next).map (first :: ·)
termination_by 32 * c.size + 16
decreasing_by
  · simp
  · have := comma.shorter
    have := size_limit c count .tooManyArguments
    omega

def primary (c : Cursor) : Reading c 1 Expr :=
  match c.take? with
  | none => c.fail 1 .expression
  | some front =>
    match front.token.kind with
    | .keyword .false_ => .after front (.done (.constant (.bool false)))
    | .keyword .true_ => .after front (.done (.constant (.bool true)))
    | .keyword .nil_ => .after front (.done (.constant .nil))
    | .number | .string =>
      match front.token.literal with
      | some literal => .after front (.done (.constant (.ofLiteral literal)))
      | none => .after front (.failed ⟨front.token, .literalValue⟩ front.next (Nat.le_refl _) : Reading _ 0 _)
    | .keyword .super_ =>
      .after front <|
        (front.next.expect .dot .superDot).andThen fun _ c₁ _ =>
        (c₁.expect .identifier .superMethodName).andThen fun method c₂ _ =>
        (.read (.super_ c₂.nextId front.token method) c₂.numbered c₂.numbered_le : Reading c₂ 0 Expr)
    | .keyword .this_ =>
      .after front
        (.read (.this_ front.next.nextId front.token) front.next.numbered front.next.numbered_le : Reading _ 0 _)
    | .identifier =>
      .after front
        (.read (.variable_ front.next.nextId front.token) front.next.numbered front.next.numbered_le : Reading _ 0 _)
    | .leftParen =>
      .after front <|
        (expression front.next).andThen fun inner c₁ _ =>
        (c₁.expect .rightParen .groupClosing).andThen fun _ _ _ => .done (.grouping inner)
    | _ => c.fail 1 .expression
termination_by 32 * c.size + 1
decreasing_by have := front.shorter; omega

end

def wholeExpression (c : Cursor) : Reading c 1 Expr :=
  (expression c).andThen fun expr c₁ _ =>
  if c₁.atEnd then .done expr else c₁.fail 0 .endOfExpression

end Lox.Grammar
