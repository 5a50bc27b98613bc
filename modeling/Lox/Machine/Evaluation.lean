import Lox.Machine.Basic

namespace Lox

abbrev Invoke := Closure → List Value → Run Value

def numbers (operator : Token) (left right : Value) : Except Fault (Number × Number) :=
  match left, right with
  | .number a, .number b => .ok (a, b)
  | _, _ => .error (.typeMismatch operator .numbers)

def applyUnary (operator : Token) (right : Value) : Except Fault Value :=
  match operator.kind with
  | .bang => .ok (.bool !right.isTruthy)
  | .minus =>
    match right with
    | .number n => .ok (.number n.negate)
    | _ => .error (.typeMismatch operator .number)
  | _ => .error (.unexpected (.unaryOperator operator.lexeme))

def applyBinary (operator : Token) (left right : Value) : Except Fault Value :=
  match operator.kind with
  | .plus =>
    match left, right with
    | .number a, .number b => .ok (.number (a.add b))
    | .text a, .text b => .ok (.text (a ++ b))
    | _, _ => .error (.typeMismatch operator .numbersOrStrings)
  | .minus => (numbers operator left right).map fun (a, b) => .number (a.subtract b)
  | .slash => (numbers operator left right).map fun (a, b) => .number (a.divide b)
  | .star => (numbers operator left right).map fun (a, b) => .number (a.multiply b)
  | .greater => (numbers operator left right).map fun (a, b) => .bool (b.less a)
  | .greaterEqual => (numbers operator left right).map fun (a, b) => .bool (b.lessOrEqual a)
  | .less => (numbers operator left right).map fun (a, b) => .bool (a.less b)
  | .lessEqual => (numbers operator left right).map fun (a, b) => .bool (a.lessOrEqual b)
  | .equalEqual => .ok (.bool (left.equal right))
  | .bangEqual => .ok (.bool !(left.equal right))
  | _ => .error (.unexpected (.binaryOperator operator.lexeme))

def isDecided (operator : Token) (left : Value) : Bool :=
  if operator.kind = .keyword .or_ then left.isTruthy else !left.isTruthy

namespace Machine

/-- The value of a reference: at its distance if it has one, else among the globals. -/
def lookUp (m : Machine) (id : NodeId) (name : Token) : Except Fault Value :=
  match m.distances[id]? with
  | some distance => m.store.getAt m.environment distance name.lexeme
  | none => m.store.get m.globals name

def locate (m : Machine) (id : NodeId) (name : Token) : Except Fault ScopeId :=
  match m.distances[id]? with
  | some distance => m.store.locateAt m.environment distance name.lexeme
  | none => m.store.locate m.globals name

/-- What a `super` expression starts from: the class to search, and the instance that `this` is. -/
def lookUpSuper (m : Machine) (id : NodeId) : Except Fault (Class × Identity × Class) := do
  let some distance := m.distances[id]? | .error (.unexpected .superUnresolved)
  let .class_ superclass ← m.store.getAt m.environment distance "super"
    | .error (.unexpected .superNotClass)
  let inner + 1 := distance | .error (.unexpected .superWithoutThis)
  let .instance_ object of ← m.store.getAt m.environment inner "this"
    | .error (.unexpected .thisNotInstance)
  .ok (superclass, object, of)

end Machine

namespace Run

def boundMethod (method : Closure) (object : Identity) (of : Class) : Run Value :=
  onStore fun s =>
    let (closure, s) := s.bindMethod method object of
    let (identity, s) := s.fresh
    (.function identity closure, s)

/-- A property of an instance: its field of that name, or else its method. -/
def property (object : Identity) (of : Class) (name : Token) : Run Value := do
  match ← read (·.store.field? object name.lexeme) with
  | some value => return value
  | none =>
    match of.findMethod? name.lexeme with
    | some method => boundMethod method object of
    | none => fail (.undefinedProperty name)

def superMethod (id : NodeId) (method : Token) : Run Value := do
  let (superclass, object, of) ← tryRead (·.lookUpSuper id)
  match superclass.findMethod? method.lexeme with
  | some closure => boundMethod closure object of
  | none => fail (.undefinedProperty method)

def instantiate (invoke : Invoke) (c : Class) (arguments : List Value) : Run Value := do
  let object ← onStore Store.instantiate
  match c.initializer? with
  | none => return .instance_ object c
  | some initializer =>
    let bound ← onStore (·.bindMethod initializer object c)
    let _ ← invoke bound arguments
    return .instance_ object c

def nested (paren : Token) (action : Run Value) : Run Value := do
  if maxCallDepth ≤ (← read Machine.depth) then fail (.stackOverflow paren) else deeper action

/-- Calls a value. The number of arguments is checked before the depth of the call. -/
def call (invoke : Invoke) (callee : Value) (paren : Token) (arguments : List Value) : Run Value :=
  match callee.arity? with
  | none => fail (.notCallable paren)
  | some arity =>
    if arguments.length ≠ arity then fail (.argumentMismatch paren arity arguments.length)
    else match callee with
      | .native .clock => return .number (← readClock)
      | .function _ closure => nested paren (invoke closure arguments)
      | .class_ c => nested paren (instantiate invoke c arguments)
      | _ => fail (.notCallable paren)

end Run

mutual

def Expr.evaluate (invoke : Invoke) : Expr → Run Value
  | .assign id name value => do
    let value ← value.evaluate invoke
    Run.assignIn (·.locate id name) name.lexeme value
    return value
  | .binary left operator right => do
    let left ← left.evaluate invoke
    let right ← right.evaluate invoke
    Run.tryRead fun _ => applyBinary operator left right
  | .call callee paren arguments => do
    let callee ← callee.evaluate invoke
    let arguments ← Expr.evaluateAll invoke arguments
    Run.call invoke callee paren arguments
  | .get object name => do
    match ← object.evaluate invoke with
    | .instance_ object of => Run.property object of name
    | _ => Run.fail (.notInstance name .property)
  | .grouping inner => inner.evaluate invoke
  | .constant value => return .ofConstant value
  | .logical left operator right => do
    let left ← left.evaluate invoke
    if isDecided operator left then return left else right.evaluate invoke
  | .set object name value => do
    match ← object.evaluate invoke with
    | .instance_ object _ =>
      let value ← value.evaluate invoke
      Run.onStore fun s => (value, s.setField object name.lexeme value)
    | _ => Run.fail (.notInstance name .field)
  | .super_ id _ method => Run.superMethod id method
  | .this_ id keyword => Run.tryRead (·.lookUp id keyword)
  | .unary operator right => do
    let right ← right.evaluate invoke
    Run.tryRead fun _ => applyUnary operator right
  | .variable_ id name => Run.tryRead (·.lookUp id name)

def Expr.evaluateAll (invoke : Invoke) : List Expr → Run (List Value)
  | [] => return []
  | expr :: rest => do
    let value ← expr.evaluate invoke
    let values ← Expr.evaluateAll invoke rest
    return value :: values

end

end Lox
