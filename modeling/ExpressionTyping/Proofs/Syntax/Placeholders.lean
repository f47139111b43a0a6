import ExpressionTyping.Syntax.Statement
import ExpressionTyping.Diagnostic.Problem

/-!
# The placeholders of a tree

Where an expression, a name or a type is missing the tree has a node of nothing in its place: a
missing expression, a name without characters, or an `any` of no width. These nodes are listed here
for every kind of tree, a node after all that is inside it and the children of a node in the order
of the text.
-/

set_option autoImplicit false

namespace ExpressionTyping

/-- What a placeholder stands for. -/
inductive Placeholder.Kind where
  | expression
  | name
  | type
deriving DecidableEq

/-- The problem under which a placeholder of a kind is reported. -/
def Placeholder.Kind.problem : Placeholder.Kind → Problem
  | expression => .expressionExpected
  | name => .identifierExpected
  | type => .typeExpected

/-- A node of a tree in the place of something missing. -/
structure Placeholder where
  /-- What is missing. -/
  kind : Placeholder.Kind
  /-- The node. -/
  node : Node

/-- Where a placeholder stands. -/
def Placeholder.start (placeholder : Placeholder) : Nat :=
  placeholder.node.span.start

/-- The placeholder that a name is, if it has no characters. -/
def Identifier.placeholders (name : Identifier) : List Placeholder :=
  if name.isMissing then [⟨.name, name.node⟩] else []

mutual

/-- The placeholders in an expression. -/
def Expr.placeholders : Expr → List Placeholder
  | .identifier name => name.placeholders
  | .literal _ _ => []
  | .parenthesized _ inner => inner.placeholders
  | .member _ object name => object.placeholders ++ name.placeholders
  | .element _ object key => object.placeholders ++ key.placeholders
  | .call _ callee arguments => callee.placeholders ++ argumentPlaceholders arguments
  | .unary _ _ operand => operand.placeholders
  | .binary _ left _ _ right => left.placeholders ++ right.placeholders
  | .assign _ target _ value => target.placeholders ++ value.placeholders
  | .conditional _ condition whenTrue whenFalse =>
    condition.placeholders ++ (whenTrue.placeholders ++ whenFalse.placeholders)
  | .missing node => [⟨.expression, node⟩]

/-- The placeholders in arguments. -/
def argumentPlaceholders : List Expr → List Placeholder
  | [] => []
  | argument :: rest => argument.placeholders ++ argumentPlaceholders rest

end

mutual

/-- The placeholders in a type annotation. -/
def TypeNode.placeholders : TypeNode → List Placeholder
  | .word node word =>
    if word = .any ∧ node.span.start = node.span.stop then [⟨.type, node⟩] else []
  | .literal _ _ _ => []
  | .reference _ name => name.placeholders
  | .array _ element => element.placeholders
  | .union _ members => typePlaceholders members
  | .function _ parameters result => parameterPlaceholders parameters ++ result.placeholders
  | .object _ members => elementPlaceholders members
  | .parenthesized _ inner => inner.placeholders

/-- The placeholders in types. -/
def typePlaceholders : List TypeNode → List Placeholder
  | [] => []
  | type :: rest => type.placeholders ++ typePlaceholders rest

/-- The placeholders in an optional type annotation. -/
def annotationPlaceholders : Option TypeNode → List Placeholder
  | none => []
  | some type => type.placeholders

/-- The placeholders in a parameter. -/
def Parameter.placeholders : Parameter → List Placeholder
  | .mk _ _ name type? => name.placeholders ++ annotationPlaceholders type?

/-- The placeholders in parameters. -/
def parameterPlaceholders : List Parameter → List Placeholder
  | [] => []
  | parameter :: rest => parameter.placeholders ++ parameterPlaceholders rest

/-- The placeholders in a member of an object type. -/
def TypeElement.placeholders : TypeElement → List Placeholder
  | .property _ name type? => name.placeholders ++ annotationPlaceholders type?
  | .method _ name parameters result =>
    name.placeholders ++ (parameterPlaceholders parameters ++ annotationPlaceholders result)

/-- The placeholders in the members of an object type. -/
def elementPlaceholders : List TypeElement → List Placeholder
  | [] => []
  | element :: rest => element.placeholders ++ elementPlaceholders rest

end

/-- The placeholders in a declared variable. -/
def VariableDeclaration.placeholders (declaration : VariableDeclaration) : List Placeholder :=
  declaration.name.placeholders ++
    (annotationPlaceholders declaration.type? ++
      argumentPlaceholders declaration.initializer.toList)

mutual

/-- The placeholders in a statement. -/
def Statement.placeholders : Statement → List Placeholder
  | .variableList statement => statement.declarations.flatMap VariableDeclaration.placeholders
  | .function declaration =>
    declaration.name.placeholders ++
      (parameterPlaceholders declaration.parameters ++ annotationPlaceholders declaration.result)
  | .interface declaration =>
    declaration.name.placeholders ++ elementPlaceholders declaration.members
  | .typeAlias declaration => declaration.name.placeholders ++ declaration.type.placeholders
  | .block _ statements => statementPlaceholders statements
  | .expression _ value => value.placeholders
  | .empty _ => []

/-- The placeholders in statements. -/
def statementPlaceholders : List Statement → List Placeholder
  | [] => []
  | statement :: rest => statement.placeholders ++ statementPlaceholders rest

end

/-- The placeholders in a file. -/
def SourceFile.placeholders (file : SourceFile) : List Placeholder :=
  statementPlaceholders file.statements

end ExpressionTyping
