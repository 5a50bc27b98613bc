import Lox.Token.Basic

namespace Lox

/-- Functions and methods are declared alike and named apart in messages. -/
inductive FunctionRole where
  | function
  | method
deriving DecidableEq

def FunctionRole.word : FunctionRole → String
  | function => "function"
  | method => "method"

inductive SyntaxFault where
  | className
  | superclassName
  | classOpening
  | classClosing
  | functionName (role : FunctionRole)
  | parametersOpening (role : FunctionRole)
  | tooManyParameters
  | parameterName
  | parametersClosing
  | bodyOpening (role : FunctionRole)
  | blockClosing
  | variableName
  | variableEnd
  | forOpening
  | loopConditionEnd
  | forClosing
  | ifOpening
  | ifClosing
  | whileOpening
  | whileClosing
  | printEnd
  | returnEnd
  | expressionEnd
  | assignmentTarget
  | propertyName
  | tooManyArguments
  | argumentsClosing
  | literalValue
  | superDot
  | superMethodName
  | groupClosing
  | expression
  | endOfExpression
deriving DecidableEq

def SyntaxFault.message : SyntaxFault → String
  | className => "Expect class name."
  | superclassName => "Expect superclass name."
  | classOpening => "Expect '\x7b' before class body."
  | classClosing => "Expect '\x7d' after class body."
  | functionName role => "Expect " ++ role.word ++ " name."
  | parametersOpening role => "Expect '(' after " ++ role.word ++ " name."
  | tooManyParameters => "Can't have more than 255 parameters."
  | parameterName => "Expect parameter name."
  | parametersClosing => "Expect ')' after parameters."
  | bodyOpening role => "Expect '\x7b' before " ++ role.word ++ " body."
  | blockClosing => "Expect '\x7d' after block."
  | variableName => "Expect variable name."
  | variableEnd => "Expect ';' after variable declaration."
  | forOpening => "Expect '(' after 'for'."
  | loopConditionEnd => "Expect ';' after loop condition."
  | forClosing => "Expect ')' after for clauses."
  | ifOpening => "Expect '(' after 'if'."
  | ifClosing => "Expect ')' after if condition."
  | whileOpening => "Expect '(' after 'while'."
  | whileClosing => "Expect ')' after condition."
  | printEnd => "Expect ';' after value."
  | returnEnd => "Expect ';' after return value."
  | expressionEnd => "Expect ';' after expression."
  | assignmentTarget => "Invalid assignment target."
  | propertyName => "Expect property name after '.'."
  | tooManyArguments => "Can't have more than 255 arguments."
  | argumentsClosing => "Expect ')' after arguments."
  | literalValue => "Literal token without a value."
  | superDot => "Expect '.' after 'super'."
  | superMethodName => "Expect superclass method name."
  | groupClosing => "Expect ')' after expression."
  | expression => "Expect expression."
  | endOfExpression => "Expect end of expression."

structure Misreading where
  token : Token
  fault : SyntaxFault
deriving DecidableEq

end Lox
