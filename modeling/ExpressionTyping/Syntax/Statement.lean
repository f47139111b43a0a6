import ExpressionTyping.Syntax.TypeNode

/-!
# Statements and declaration files

A declaration file is a list of statements: declarations of variables, functions, interfaces and
type aliases, blocks of statements, and expressions.
-/

set_option autoImplicit false

namespace ExpressionTyping

/-- How a variable is declared. -/
inductive VariableForm where
  /-- By `var`, which belongs to the whole file. -/
  | hoisted
  /-- By `let`, which belongs to the enclosing block. -/
  | block
  /-- By `const`, which belongs to the enclosing block and is never assigned to. -/
  | constant
deriving DecidableEq, Inhabited

/-- One variable of a declaration. -/
structure VariableDeclaration where
  /-- The node of the declaration. -/
  node : Node
  /-- The name declared. -/
  name : Identifier
  /-- The type written for it. -/
  type? : Option TypeNode
  /-- The value written for it. -/
  initializer : Option Expr

/-- Variables declared together. -/
structure VariableStatement where
  /-- The node of the whole statement. -/
  node : Node
  /-- Whether the statement starts with `declare`. -/
  ambient : Bool
  /-- The node of the list of variables. -/
  list : Node
  /-- How the variables are declared. -/
  form : VariableForm
  /-- The variables. -/
  declarations : List VariableDeclaration

/-- A function declared by its signature. -/
structure FunctionDeclaration where
  /-- The node of the declaration. -/
  node : Node
  /-- Whether the declaration starts with `declare`. -/
  ambient : Bool
  /-- The name declared. -/
  name : Identifier
  /-- The parameters. -/
  parameters : List Parameter
  /-- The type written for the result. -/
  result : Option TypeNode

/-- An interface. -/
structure InterfaceDeclaration where
  /-- The node of the declaration. -/
  node : Node
  /-- The name declared. -/
  name : Identifier
  /-- The members. -/
  members : List TypeElement

/-- A name for a type. -/
structure AliasDeclaration where
  /-- The node of the declaration. -/
  node : Node
  /-- The name declared. -/
  name : Identifier
  /-- The type it stands for. -/
  type : TypeNode

/-- Statements. -/
inductive Statement where
  /-- Variables. -/
  | variableList (statement : VariableStatement)
  /-- A function. -/
  | function (declaration : FunctionDeclaration)
  /-- An interface. -/
  | interface (declaration : InterfaceDeclaration)
  /-- A type alias. -/
  | typeAlias (declaration : AliasDeclaration)
  /-- A block. -/
  | block (node : Node) (statements : List Statement)
  /-- An expression. -/
  | expression (node : Node) (value : Expr)
  /-- A lone semicolon. -/
  | empty (node : Node)

/-- The node of a statement. -/
def Statement.node : Statement → Node
  | variableList statement => statement.node
  | function declaration => declaration.node
  | interface declaration => declaration.node
  | typeAlias declaration => declaration.node
  | block node _ => node
  | expression node _ => node
  | empty node => node

/-- A parsed declaration file. -/
structure SourceFile where
  /-- The node of the whole file. -/
  node : Node
  /-- The statements of the file. -/
  statements : List Statement
  /-- The name of the file. -/
  name : String
  /-- The characters of the file. -/
  text : List Char

/-- The characters that a span covers. -/
def SourceFile.textOf (file : SourceFile) (span : Span) : String :=
  String.ofList ((file.text.drop span.start).take span.length)

/-- What is met when the statements of a file are visited in order, blocks from inside. -/
inductive Visit where
  /-- A variable and the statement that declares it. -/
  | variableDecl (statement : VariableStatement) (declaration : VariableDeclaration)
  /-- A function. -/
  | function (declaration : FunctionDeclaration)
  /-- An interface. -/
  | interface (declaration : InterfaceDeclaration)
  /-- A type alias. -/
  | typeAlias (declaration : AliasDeclaration)
  /-- An expression statement. -/
  | expression (node : Node) (value : Expr)

mutual

/-- What is met when a statement is visited. -/
def Statement.visits : Statement → List Visit
  | .variableList statement => statement.declarations.map (.variableDecl statement)
  | .function declaration => [.function declaration]
  | .interface declaration => [.interface declaration]
  | .typeAlias declaration => [.typeAlias declaration]
  | .block _ statements => visitAll statements
  | .expression node value => [.expression node value]
  | .empty _ => []

/-- What is met when statements are visited in order. -/
def visitAll : List Statement → List Visit
  | [] => []
  | statement :: rest => statement.visits ++ visitAll rest

end

/-- What is met when a file is visited. -/
def SourceFile.visits (file : SourceFile) : List Visit :=
  visitAll file.statements

end ExpressionTyping
