import Lox.Json
import Lox.Tree.Basic

namespace Lox

def Json.optional {α : Type} (encode : α → Json) : Option α → Json
  | none => .null
  | some value => encode value

/-- An object whose only field is named for the form of its value. -/
def Json.tagged (tag : String) (value : Json) : Json := .object [(tag, value)]

def Literal.toJson : Literal → Json
  | text value => .tagged "Str" (.text value)
  | number value => .tagged "Number" (.number value)

def Token.toJson (t : Token) : Json :=
  .object [("token_type", .text t.kind.name), ("lexeme", .text t.lexeme),
    ("literal", .optional Literal.toJson t.literal), ("line", .natural t.line)]

def Constant.toJson : Constant → Json
  | number value => .tagged "Number" (.number value)
  | text value => .tagged "Str" (.text value)
  | bool true => .text "True"
  | bool false => .text "False"
  | nil => .text "Nil"

namespace Expr

mutual

def toJson : Expr → Json
  | assign id name value =>
    .tagged "Assign" (.object [("id", .natural id), ("name", name.toJson), ("value", value.toJson)])
  | binary left operator right =>
    .tagged "Binary"
      (.object [("left", left.toJson), ("operator", operator.toJson), ("right", right.toJson)])
  | call callee paren arguments =>
    .tagged "Call" (.object [("callee", callee.toJson), ("paren", paren.toJson),
      ("arguments", .array (argumentsJson arguments))])
  | get object name => .tagged "Get" (.object [("object", object.toJson), ("name", name.toJson)])
  | grouping inner => .tagged "Grouping" inner.toJson
  | constant value => .tagged "Literal" value.toJson
  | logical left operator right =>
    .tagged "Logical"
      (.object [("left", left.toJson), ("operator", operator.toJson), ("right", right.toJson)])
  | set object name value =>
    .tagged "Set"
      (.object [("object", object.toJson), ("name", name.toJson), ("value", value.toJson)])
  | super_ id keyword method =>
    .tagged "Super"
      (.object [("id", .natural id), ("keyword", keyword.toJson), ("method", method.toJson)])
  | this_ id keyword =>
    .tagged "This" (.object [("id", .natural id), ("keyword", keyword.toJson)])
  | unary operator right =>
    .tagged "Unary" (.object [("operator", operator.toJson), ("right", right.toJson)])
  | variable_ id name =>
    .tagged "Variable" (.object [("id", .natural id), ("name", name.toJson)])

def argumentsJson : List Expr → List Json
  | [] => []
  | first :: rest => first.toJson :: argumentsJson rest

end

end Expr

namespace Stmt

mutual

def toJson : Stmt → Json
  | block body => .tagged "Block" (.array (listJson body))
  | class_ name superclass methods =>
    .tagged "Class" (.object [("name", name.toJson), ("superclass", .optional Expr.toJson superclass),
      ("methods", .array (methodsJson methods))])
  | expression expr => .tagged "Expression" expr.toJson
  | function declaration => .tagged "Function" (functionJson declaration)
  | ifThen condition thenBranch =>
    .tagged "If" (.object [("condition", condition.toJson), ("then_branch", thenBranch.toJson),
      ("else_branch", .null)])
  | ifThenElse condition thenBranch elseBranch =>
    .tagged "If" (.object [("condition", condition.toJson), ("then_branch", thenBranch.toJson),
      ("else_branch", elseBranch.toJson)])
  | print_ expr => .tagged "Print" expr.toJson
  | return_ keyword value =>
    .tagged "Return" (.object [("keyword", keyword.toJson), ("value", .optional Expr.toJson value)])
  | var_ name initializer =>
    .tagged "Var"
      (.object [("name", name.toJson), ("initializer", .optional Expr.toJson initializer)])
  | while_ condition body =>
    .tagged "While" (.object [("condition", condition.toJson), ("body", body.toJson)])

def listJson : List Stmt → List Json
  | [] => []
  | stmt :: rest => stmt.toJson :: listJson rest

def functionJson : FunctionDecl → Json
  | .mk name params body =>
    .object [("name", name.toJson), ("params", .array (params.map Token.toJson)),
      ("body", .array (listJson body))]

def methodsJson : List FunctionDecl → List Json
  | [] => []
  | method :: rest => functionJson method :: methodsJson rest

end

end Stmt

def programJson (program : List Stmt) : Json := .array (Stmt.listJson program)

end Lox
