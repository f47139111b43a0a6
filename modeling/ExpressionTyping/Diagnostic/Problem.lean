import ExpressionTyping.Text.Substitution

/-!
# Problems

Everything that can be wrong with a text, a declaration or an expression is one of the problems
below. A problem is a cause together with the names it is about; its code and its wording are
computed from it here and nowhere else.
-/

set_option autoImplicit false

namespace ExpressionTyping

/-- What is wrong at some place of a text. -/
inductive Problem where
  /-- A string literal ends at a line break or at the end of the text. -/
  | unterminatedString
  /-- A character starts no token. -/
  | invalidCharacter
  /-- A template literal ends at the end of the text. -/
  | unterminatedTemplate
  /-- A name has to stand here. -/
  | identifierExpected
  /-- A given token has to stand here. -/
  | tokenExpected (text : String)
  /-- The token belongs to no statement. -/
  | statementExpected
  /-- An expression has to stand here. -/
  | expressionExpected
  /-- A type has to stand here. -/
  | typeExpected
  /-- A token is left over after a whole expression. -/
  | unexpectedToken (text : String)
  /-- A parameter follows a rest parameter. -/
  | restParameterNotLast
  /-- A declaration refers to a name that is not declared. -/
  | unknownName (name : String)
  /-- A name is declared twice in ways that do not merge. -/
  | duplicateName (name : String)
  /-- A type alias stands for itself. -/
  | circularAlias (name : String)
  /-- A constant is assigned to. -/
  | assignmentToConstant (name : String)
  /-- An expression refers to a name that is not in scope. -/
  | undefinedName (name : String)
  /-- The left operand of an arithmetic operator is not a number. -/
  | leftOperandNotNumber
  /-- The right operand of an arithmetic operator is not a number. -/
  | rightOperandNotNumber
  /-- Two operands cannot be added. -/
  | additionMismatch (left right : String)
  /-- The left operand of `instanceof` is not an object. -/
  | instanceNotObject
  /-- The right operand of `instanceof` is not a function. -/
  | classNotFunction
  /-- The left operand of `in` is not a key. -/
  | keyNotScalar
  /-- The right operand of `in` is not an object. -/
  | keyedNotObject
  /-- A type has no member of that name. -/
  | missingMember (name type : String)
  /-- A type without signatures is called. -/
  | notCallable (type : String)
  /-- A call passes another number of arguments than required. -/
  | argumentCount (expected given : Nat)
  /-- A call passes fewer arguments than required. -/
  | tooFewArguments (least given : Nat)
  /-- The expression is nested too deeply to be checked. -/
  | tooDeeplyNested
deriving DecidableEq, Inhabited

namespace Problem

/-- The number under which a problem is reported. -/
def code : Problem → Nat
  | unterminatedString => 1002
  | identifierExpected => 1003
  | tokenExpected _ => 1005
  | unexpectedToken _ => 1012
  | restParameterNotLast => 1014
  | expressionExpected => 1109
  | typeExpected => 1110
  | invalidCharacter => 1127
  | statementExpected => 1128
  | unterminatedTemplate => 1160
  | duplicateName _ => 2300
  | unknownName _ => 2304
  | undefinedName _ => 2304
  | missingMember _ _ => 2339
  | notCallable _ => 2349
  | instanceNotObject => 2358
  | classNotFunction => 2359
  | keyNotScalar => 2360
  | keyedNotObject => 2361
  | leftOperandNotNumber => 2362
  | rightOperandNotNumber => 2363
  | additionMismatch _ _ => 2365
  | circularAlias _ => 2456
  | argumentCount _ _ => 2554
  | tooFewArguments _ _ => 2555
  | assignmentToConstant _ => 2588
  | tooDeeplyNested => 2589

/-- The wording of a problem, with its arguments as numbered placeholders. -/
def template : Problem → String
  | unterminatedString => "Unterminated string literal."
  | identifierExpected => "Identifier expected."
  | tokenExpected _ => "'{0}' expected."
  | unexpectedToken _ => "Unexpected token '{0}' after expression."
  | restParameterNotLast => "A rest parameter must be last in a parameter list."
  | expressionExpected => "Expression expected."
  | typeExpected => "Type expected."
  | invalidCharacter => "Invalid character."
  | statementExpected => "Declaration or statement expected."
  | unterminatedTemplate => "Unterminated template literal."
  | duplicateName _ => "Duplicate identifier '{0}'."
  | unknownName _ => "Cannot find name '{0}'."
  | undefinedName _ => "'{0}' is not defined"
  | missingMember _ _ => "Property '{0}' does not exist on type '{1}'"
  | notCallable _ => "This expression is not callable. Type '{0}' has no call signatures"
  | instanceNotObject =>
    "The left-hand side of an 'instanceof' expression must be of type 'object' or 'any'"
  | classNotFunction =>
    "The right-hand side of an 'instanceof' expression must be of type 'Function' or 'any'"
  | keyNotScalar =>
    "The left-hand side of an 'in' expression must be of type 'string', 'number', 'symbol' or 'any'"
  | keyedNotObject =>
    "The right-hand side of an 'in' expression must be of type 'object' or 'any'"
  | leftOperandNotNumber =>
    "The left-hand side of an arithmetic operation must be of type 'number' or 'any'"
  | rightOperandNotNumber =>
    "The right-hand side of an arithmetic operation must be of type 'number' or 'any'"
  | additionMismatch _ _ =>
    "The binary operator '{0}' cannot be applied to type '{1}' and '{2}'"
  | circularAlias _ => "Type alias '{0}' circularly references itself."
  | argumentCount _ _ => "Expected {0} arguments, but got {1}"
  | tooFewArguments _ _ => "Expected at least {0} arguments, but got {1}"
  | assignmentToConstant _ => "Cannot assign to '{0}' because it is a constant."
  | tooDeeplyNested => "Expression is too deeply nested to check."

/-- The texts put into the wording of a problem. -/
def arguments : Problem → List String
  | tokenExpected text => [text]
  | unexpectedToken text => [text]
  | duplicateName name => [name]
  | unknownName name => [name]
  | undefinedName name => [name]
  | missingMember name type => [name, type]
  | notCallable type => [type]
  | additionMismatch left right => ["+", left, right]
  | circularAlias name => [name]
  | argumentCount expected given => [toString expected, toString given]
  | tooFewArguments least given => [toString least, toString given]
  | assignmentToConstant name => [name]
  | _ => []

/-- The text shown for a problem. -/
def message (problem : Problem) : String :=
  substitute problem.template problem.arguments

end Problem

end ExpressionTyping
