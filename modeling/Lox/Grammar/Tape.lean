import Lox.Grammar.Statement

namespace Lox

structure Span where
  first : Nat
  last : Nat

structure Head where
  trail : List Nat
  spans : List Span
  nextId : NodeId
  misreadings : List Misreading

namespace Head

def start (nextId : NodeId) : Head := ⟨[0], [], nextId, []⟩

def current (h : Head) : Nat := h.trail.headD 0

def forward (h : Head) : Head := { h with trail := (h.current + 1) :: h.trail }

def numbered (h : Head) : Head := { h with nextId := h.nextId + 1 }

def record (h : Head) (misreading : Misreading) : Head := { h with misreadings := misreading :: h.misreadings }

def close (h : Head) (first : Nat) : Head := { h with spans := ⟨first, h.current⟩ :: h.spans }

/-- Reads with the head. A misreading ends it, and the head stays where it is then. -/
abbrev Reader := ExceptT Misreading (StateT Head Option)

namespace Reader

def look {α : Type} (view : Head → Option α) : Reader α := fun h => (view h).map fun value => (.ok value, h)

def change (f : Head → Head) : Reader Unit := fun h => some (.ok (), f h)

def place : Reader Nat := look fun h => some h.current

def fresh : Reader NodeId := do
  let id ← look fun h => some h.nextId
  change numbered
  return id

@[reducible] def attempt {α : Type} (reader : Reader α) : Reader (Except Misreading α) :=
  (Except.ok <$> reader.run : StateT Head Option (Except Misreading (Except Misreading α)))

def assignTo (target : Expr) (equals : Token) (value : Expr) : Reader Expr :=
  match target with
  | .variable_ _ name => do
    let id ← fresh
    return .assign id name value
  | .get object name => return .set object name value
  | other => do
    change (record · ⟨equals, .assignmentTarget⟩)
    return other

end Reader
end Head

structure Tape where
  tokens : List Token

namespace Tape

open Grammar Head Head.Reader

/-- The token under the head, or the last token if the head is behind it. -/
def peek? (tape : Tape) (h : Head) : Option Token := tape.tokens[min h.current (tape.tokens.length - 1)]?

/-- The token before the head; at the beginning, the one under it. -/
def previous? (tape : Tape) (h : Head) : Option Token := tape.tokens[h.current - 1]?

def peek (tape : Tape) : Reader Token := look tape.peek?

def previous (tape : Tape) : Reader Token := look tape.previous?

def atEnd (tape : Tape) : Reader Bool := do
  return (← tape.peek).isEof

def check (tape : Tape) (kind : Kind) : Reader Bool := do
  if ← tape.atEnd then return false
  else return (← tape.peek).kind == kind

/-- Moves the head on unless it is over the end, and gives the token that is before it then. -/
def advance (tape : Tape) : Reader Token := do
  if ← tape.atEnd then tape.previous
  else
    change forward
    tape.previous

def accept (tape : Tape) (kind : Kind) : Reader Bool := do
  if ← tape.check kind then
    let _ ← tape.advance
    return true
  else return false

def acceptAny (tape : Tape) : List Kind → Reader Bool
  | [] => return false
  | kind :: kinds => do
    if ← tape.accept kind then return true
    else tape.acceptAny kinds

def fail (tape : Tape) {α : Type} (fault : SyntaxFault) : Reader α := do
  throw ⟨← tape.peek, fault⟩

def consume (tape : Tape) (kind : Kind) (fault : SyntaxFault) : Reader Token := do
  if ← tape.check kind then tape.advance
  else tape.fail fault

def limit (tape : Tape) (count : Nat) (fault : SyntaxFault) : Reader Unit := do
  if maxArity ≤ count then
    let token ← tape.peek
    change (record · ⟨token, fault⟩)
  else return ()

mutual

def expression (tape : Tape) : Reader Expr := do
  let target ← tape |>.infix_ .or
  if ← tape.accept .equal then
    let equals ← tape.previous
    let value ← tape |>.expression
    assignTo target equals value
  else return target
partial_fixpoint

def infix_ (tape : Tape) (level : Level) : Reader Expr := do
  let left ← tape |>.operand level
  tape |>.infixRest level left
partial_fixpoint

def operand (tape : Tape) (level : Level) : Reader Expr :=
  match level.tighter? with
  | some next => tape |>.infix_ next
  | none => tape |>.unary
partial_fixpoint

def infixRest (tape : Tape) (level : Level) (left : Expr) : Reader Expr := do
  if ← tape.acceptAny level.operators then
    let operator ← tape.previous
    let right ← tape |>.operand level
    tape |>.infixRest level (level.node left operator right)
  else return left
partial_fixpoint

def unary (tape : Tape) : Reader Expr := do
  if ← tape.acceptAny [.bang, .minus] then
    let operator ← tape.previous
    let right ← tape |>.unary
    return .unary operator right
  else
    let callee ← tape |>.primary
    tape |>.callRest callee
partial_fixpoint

def callRest (tape : Tape) (callee : Expr) : Reader Expr := do
  if ← tape.accept .leftParen then
    let entries ← tape |>.arguments
    let paren ← tape.consume .rightParen .argumentsClosing
    tape |>.callRest (.call callee paren entries)
  else if ← tape.accept .dot then
    let name ← tape.consume .identifier .propertyName
    tape |>.callRest (.get callee name)
  else return callee
partial_fixpoint

def arguments (tape : Tape) : Reader (List Expr) := do
  if ← tape.check .rightParen then return []
  else tape |>.argumentsFrom 0
partial_fixpoint

def argumentsFrom (tape : Tape) (count : Nat) : Reader (List Expr) := do
  tape.limit count .tooManyArguments
  let first ← tape |>.expression
  if ← tape.accept .comma then
    let others ← tape |>.argumentsFrom (count + 1)
    return first :: others
  else return [first]
partial_fixpoint

def primary (tape : Tape) : Reader Expr := do
  if ← tape.accept (.keyword .false_) then return .constant (.bool false)
  else if ← tape.accept (.keyword .true_) then return .constant (.bool true)
  else if ← tape.accept (.keyword .nil_) then return .constant .nil
  else if ← tape.acceptAny [.number, .string] then
    let token ← tape.previous
    match token.literal with
    | some literal => return .constant (.ofLiteral literal)
    | none => throw ⟨token, .literalValue⟩
  else if ← tape.accept (.keyword .super_) then
    let keyword ← tape.previous
    let _ ← tape.consume .dot .superDot
    let method ← tape.consume .identifier .superMethodName
    let id ← fresh
    return .super_ id keyword method
  else if ← tape.accept (.keyword .this_) then
    let id ← fresh
    let keyword ← tape.previous
    return .this_ id keyword
  else if ← tape.accept .identifier then
    let name ← tape.previous
    let id ← fresh
    return .variable_ id name
  else if ← tape.accept .leftParen then
    let inner ← tape |>.expression
    let _ ← tape.consume .rightParen .groupClosing
    return .grouping inner
  else tape.fail .expression
partial_fixpoint

end

def wholeExpression (tape : Tape) : Reader Expr := do
  let expr ← tape.expression
  if ← tape.atEnd then return expr
  else tape.fail .endOfExpression

def seek (tape : Tape) : Reader Unit := do
  if ← tape.atEnd then return ()
  else if (← tape.previous).kind == .semicolon then return ()
  else if startsStatement (← tape.peek).kind then return ()
  else
    let _ ← tape.advance
    tape |>.seek
partial_fixpoint

def synchronize (tape : Tape) : Reader Unit := do
  let _ ← tape.advance
  tape.seek

def expressionUnless (tape : Tape) (kind : Kind) : Reader (Option Expr) := do
  if ← tape.check kind then return none
  else
    let expr ← tape.expression
    return some expr

def initializer (tape : Tape) : Reader (Option Expr) := do
  if ← tape.accept .equal then
    let expr ← tape.expression
    return some expr
  else return none

def varDeclaration (tape : Tape) : Reader Stmt := do
  let name ← tape.consume .identifier .variableName
  let value ← tape.initializer
  let _ ← tape.consume .semicolon .variableEnd
  return .var_ name value

def expressionStatement (tape : Tape) : Reader Stmt := do
  let expr ← tape.expression
  let _ ← tape.consume .semicolon .expressionEnd
  return .expression expr

def printStatement (tape : Tape) : Reader Stmt := do
  let expr ← tape.expression
  let _ ← tape.consume .semicolon .printEnd
  return .print_ expr

def returnStatement (tape : Tape) : Reader Stmt := do
  let keyword ← tape.previous
  let value ← tape.expressionUnless .semicolon
  let _ ← tape.consume .semicolon .returnEnd
  return .return_ keyword value

def parametersFrom (tape : Tape) (count : Nat) : Reader (List Token) := do
  tape.limit count .tooManyParameters
  let first ← tape.consume .identifier .parameterName
  if ← tape.accept .comma then
    let others ← tape |>.parametersFrom (count + 1)
    return first :: others
  else return [first]
partial_fixpoint

def parameters (tape : Tape) : Reader (List Token) := do
  if ← tape.check .rightParen then return []
  else tape.parametersFrom 0

def forInitializer (tape : Tape) : Reader (Option Stmt) := do
  if ← tape.accept .semicolon then return none
  else if ← tape.accept (.keyword .var_) then
    let statement ← tape.varDeclaration
    return some statement
  else
    let statement ← tape.expressionStatement
    return some statement

def forClauses (tape : Tape) : Reader ForClauses := do
  let _ ← tape.consume .leftParen .forOpening
  let initializer ← tape.forInitializer
  let condition ← tape.expressionUnless .semicolon
  let _ ← tape.consume .semicolon .loopConditionEnd
  let increment ← tape.expressionUnless .rightParen
  let _ ← tape.consume .rightParen .forClosing
  return ⟨initializer, condition, increment⟩

def superclass (tape : Tape) : Reader (Option Expr) := do
  if ← tape.accept .less then
    let name ← tape.consume .identifier .superclassName
    let id ← fresh
    return some (.variable_ id name)
  else return none

def atClosing (tape : Tape) : Reader Bool := do
  if ← tape.check .rightBrace then return true
  else tape.atEnd

mutual

/-- A declaration or a statement. Behind a misreading the head is moved on. -/
def declaration (tape : Tape) : Reader (Option Stmt) := do
  let first ← place
  match ← attempt (tape |>.declarationReading) with
  | .ok statement =>
    change (close · first)
    return some statement
  | .error misreading =>
    change (record · misreading)
    tape.synchronize
    change (close · first)
    return none
partial_fixpoint

def declarationReading (tape : Tape) : Reader Stmt := do
  if ← tape.accept (.keyword .class_) then tape |>.classDeclaration
  else if ← tape.accept (.keyword .fun_) then
    let declared ← tape |>.function .function
    return .function declared
  else if ← tape.accept (.keyword .var_) then tape.varDeclaration
  else tape |>.statement
partial_fixpoint

def classDeclaration (tape : Tape) : Reader Stmt := do
  let name ← tape.consume .identifier .className
  let extended ← tape.superclass
  let _ ← tape.consume .leftBrace .classOpening
  let declared ← tape |>.methods
  let _ ← tape.consume .rightBrace .classClosing
  return .class_ name extended declared
partial_fixpoint

def methods (tape : Tape) : Reader (List FunctionDecl) := do
  if ← tape.atClosing then return []
  else
    let method ← tape |>.function .method
    let others ← tape |>.methods
    return method :: others
partial_fixpoint

def function (tape : Tape) (role : FunctionRole) : Reader FunctionDecl := do
  let name ← tape.consume .identifier (.functionName role)
  let _ ← tape.consume .leftParen (.parametersOpening role)
  let entries ← tape.parameters
  let _ ← tape.consume .rightParen .parametersClosing
  let _ ← tape.consume .leftBrace (.bodyOpening role)
  let body ← tape |>.block
  return .mk name entries body
partial_fixpoint

def statement (tape : Tape) : Reader Stmt := do
  if ← tape.accept (.keyword .for_) then
    let clauses ← tape.forClauses
    let body ← tape |>.statement
    return clauses.loop body
  else if ← tape.accept (.keyword .if_) then tape |>.ifStatement
  else if ← tape.accept (.keyword .print_) then tape.printStatement
  else if ← tape.accept (.keyword .return_) then tape.returnStatement
  else if ← tape.accept (.keyword .while_) then
    let _ ← tape.consume .leftParen .whileOpening
    let condition ← tape.expression
    let _ ← tape.consume .rightParen .whileClosing
    let body ← tape |>.statement
    return .while_ condition body
  else if ← tape.accept .leftBrace then
    let body ← tape |>.block
    return .block body
  else tape.expressionStatement
partial_fixpoint

def ifStatement (tape : Tape) : Reader Stmt := do
  let _ ← tape.consume .leftParen .ifOpening
  let condition ← tape.expression
  let _ ← tape.consume .rightParen .ifClosing
  let thenBranch ← tape |>.statement
  if ← tape.accept (.keyword .else_) then
    let elseBranch ← tape |>.statement
    return .ifThenElse condition thenBranch elseBranch
  else return .ifThen condition thenBranch
partial_fixpoint

def block (tape : Tape) : Reader (List Stmt) := do
  if ← tape.atClosing then
    let _ ← tape.consume .rightBrace .blockClosing
    return []
  else
    let statement? ← tape |>.declaration
    let others ← tape |>.block
    return statement?.toList ++ others
partial_fixpoint

end

def program (tape : Tape) : Reader (List Stmt) := do
  if ← tape.atEnd then return []
  else
    let statement? ← tape.declaration
    let others ← tape |>.program
    return statement?.toList ++ others
partial_fixpoint

def read {α : Type} (reader : Tape → Reader α) (tokens : List Token) (nextId : NodeId) :
    Option (Parsed (Except Misreading α) × Head) :=
  (reader ⟨tokens⟩ (.start nextId)).map fun ending =>
    (⟨ending.1, ending.2.misreadings.reverse, ending.2.nextId⟩, ending.2)

end Tape
end Lox
