import ExpressionTyping.Syntax.Statement

/-!
# Outlines

An outline lists the nodes of a tree from the root down, each with its depth, the role it plays for
its parent, and what it is.
-/

set_option autoImplicit false

namespace ExpressionTyping

/-- Marks that a node carries. -/
structure Marks where
  /-- Declared by `let`. -/
  block : Bool := false
  /-- Declared by `const`. -/
  constant : Bool := false
  /-- Declared with `declare`. -/
  ambient : Bool := false
  /-- Put in place of something missing. -/
  faulty : Bool := false

/-- The marks as the bits of a number. -/
def Marks.bits (marks : Marks) : Nat :=
  marks.block.toNat + 2 * marks.constant.toNat + 4 * marks.ambient.toNat + 8 * marks.faulty.toNat

/-- The marks of a list of variables. -/
def VariableStatement.listMarks (statement : VariableStatement) : Marks where
  block := statement.form = .block
  constant := statement.form = .constant
  ambient := statement.ambient

/-- One line of an outline. -/
structure Outline where
  /-- The distance from the root. -/
  depth : Nat
  /-- What the node is for its parent. -/
  role : String
  /-- What the node is. -/
  kind : String
  /-- The number of the node; a bare token has none. -/
  id? : Option Nat
  /-- The characters it covers. -/
  span : Span
  /-- Its marks. -/
  marks : Marks
  /-- Its name, text or operator. -/
  text? : Option String

namespace Outline

/-- The line of a node without marks or text. -/
def plain (depth : Nat) (role kind : String) (node : Node) : Outline :=
  ⟨depth, role, kind, some node.id, node.span, {}, none⟩

/-- The line of a bare token. -/
def bare (depth : Nat) (role : String) (kind : TokenKind) (span : Span) : Outline :=
  ⟨depth, role, kind.label, none, span, {}, none⟩

/-- The line of a name. -/
def ofIdentifier (depth : Nat) (role : String) (name : Identifier) : Outline :=
  ⟨depth, role, TokenKind.identifier.label, some name.node.id, name.node.span,
    { faulty := name.isMissing }, some name.text⟩

/-- The line of a literal. -/
def ofLiteral (depth : Nat) (role : String) (node : Node) (value : Literal) : Outline :=
  { plain depth role value.kind.label node with text? := value.text? }

/-- What an expression with an operator in front is called, and the operator's text if it is not
part of that name. -/
def unaryKind : UnaryOp → String × Option String
  | .typeOf => ("TypeOfExpression", none)
  | .void => ("VoidExpression", none)
  | op => ("PrefixUnaryExpression", op.token.text?)

mutual

/-- The lines of an expression. -/
def ofExpr (depth : Nat) (role : String) : Expr → List Outline
  | .identifier name => [ofIdentifier depth role name]
  | .literal node value => [ofLiteral depth role node value]
  | .parenthesized node inner =>
    plain depth role "ParenthesizedExpression" node :: ofExpr (depth + 1) "expression" inner
  | .member node object name =>
    plain depth role "PropertyAccessExpression" node ::
      ofExpr (depth + 1) "expression" object ++ [ofIdentifier (depth + 1) "name" name]
  | .element node object key =>
    plain depth role "ElementAccessExpression" node ::
      ofExpr (depth + 1) "expression" object ++ ofExpr (depth + 1) "argument" key
  | .call node callee arguments =>
    plain depth role "CallExpression" node ::
      ofExpr (depth + 1) "expression" callee ++ ofArguments (depth + 1) arguments
  | .unary node op operand =>
    let (kind, text?) := unaryKind op
    let child := match op with
      | .typeOf | .void => "expression"
      | _ => "operand"
    { plain depth role kind node with text? } :: ofExpr (depth + 1) child operand
  | .binary node left op mark right =>
    plain depth role "BinaryExpression" node ::
      ofExpr (depth + 1) "left" left ++ bare (depth + 1) "operator" op.token mark ::
        ofExpr (depth + 1) "right" right
  | .assign node target mark value =>
    plain depth role "BinaryExpression" node ::
      ofExpr (depth + 1) "left" target ++
        bare (depth + 1) "operator" (.punctuator .equals) mark ::
          ofExpr (depth + 1) "right" value
  | .conditional node condition whenTrue whenFalse =>
    plain depth role "ConditionalExpression" node ::
      ofExpr (depth + 1) "condition" condition ++ ofExpr (depth + 1) "when_true" whenTrue ++
        ofExpr (depth + 1) "when_false" whenFalse
  | .missing node => [{ plain depth role "MissingExpression" node with marks := { faulty := true } }]

/-- The lines of arguments. -/
def ofArguments (depth : Nat) : List Expr → List Outline
  | [] => []
  | argument :: rest => ofExpr depth "argument" argument ++ ofArguments depth rest

end

mutual

/-- The lines of a type annotation. -/
def ofType (depth : Nat) (role : String) : TypeNode → List Outline
  | .word node word => [plain depth role word.keyword.label node]
  | .literal node constant value =>
    [plain depth role "LiteralType" node, ofLiteral (depth + 1) "literal" constant value]
  | .reference node name =>
    [plain depth role "TypeReference" node, ofIdentifier (depth + 1) "name" name]
  | .array node element =>
    plain depth role "ArrayType" node :: ofType (depth + 1) "element" element
  | .union node members => plain depth role "UnionType" node :: ofTypes (depth + 1) members
  | .function node parameters result =>
    plain depth role "FunctionType" node ::
      ofParameters (depth + 1) parameters ++ ofType (depth + 1) "return" result
  | .object node members => plain depth role "TypeLiteral" node :: ofElements (depth + 1) members
  | .parenthesized node inner =>
    plain depth role "ParenthesizedType" node :: ofType (depth + 1) "type" inner

/-- The lines of the members of a union. -/
def ofTypes (depth : Nat) : List TypeNode → List Outline
  | [] => []
  | member :: rest => ofType depth "member" member ++ ofTypes depth rest

/-- The lines of an optional type annotation. -/
def ofOptionalType (depth : Nat) (role : String) : Option TypeNode → List Outline
  | none => []
  | some type => ofType depth role type

/-- The lines of a parameter. -/
def ofParameter (depth : Nat) : Parameter → List Outline
  | .mk node rest name type? =>
    plain depth "parameter" "Parameter" node ::
      (rest.map (bare (depth + 1) "rest" (.punctuator .ellipsis))).toList ++
        ofIdentifier (depth + 1) "name" name :: ofOptionalType (depth + 1) "type" type?

/-- The lines of parameters. -/
def ofParameters (depth : Nat) : List Parameter → List Outline
  | [] => []
  | parameter :: rest => ofParameter depth parameter ++ ofParameters depth rest

/-- The lines of a member of an object type. -/
def ofElement (depth : Nat) : TypeElement → List Outline
  | .property node name type? =>
    plain depth "member" "PropertySignature" node :: ofIdentifier (depth + 1) "name" name ::
      ofOptionalType (depth + 1) "type" type?
  | .method node name parameters result =>
    plain depth "member" "MethodSignature" node :: ofIdentifier (depth + 1) "name" name ::
      ofParameters (depth + 1) parameters ++ ofOptionalType (depth + 1) "return" result

/-- The lines of the members of an object type. -/
def ofElements (depth : Nat) : List TypeElement → List Outline
  | [] => []
  | element :: rest => ofElement depth element ++ ofElements depth rest

end

/-- The lines of a declared variable. -/
def ofVariable (depth : Nat) (declaration : VariableDeclaration) : List Outline :=
  plain depth "declaration" "VariableDeclaration" declaration.node ::
    ofIdentifier (depth + 1) "name" declaration.name ::
      ofOptionalType (depth + 1) "type" declaration.type? ++
        (declaration.initializer.map (ofExpr (depth + 1) "initializer")).getD []

mutual

/-- The lines of a statement. -/
def ofStatement (depth : Nat) : Statement → List Outline
  | .variableList statement =>
    { plain depth "statement" "VariableStatement" statement.node with
        marks := { ambient := statement.ambient } } ::
      { plain (depth + 1) "list" "VariableDeclarationList" statement.list with
          marks := statement.listMarks } ::
        statement.declarations.flatMap (ofVariable (depth + 2))
  | .function declaration =>
    { plain depth "statement" "FunctionDeclaration" declaration.node with
        marks := { ambient := declaration.ambient } } ::
      ofIdentifier (depth + 1) "name" declaration.name ::
        ofParameters (depth + 1) declaration.parameters ++
          ofOptionalType (depth + 1) "return" declaration.result
  | .interface declaration =>
    plain depth "statement" "InterfaceDeclaration" declaration.node ::
      ofIdentifier (depth + 1) "name" declaration.name ::
        ofElements (depth + 1) declaration.members
  | .typeAlias declaration =>
    plain depth "statement" "TypeAliasDeclaration" declaration.node ::
      ofIdentifier (depth + 1) "name" declaration.name ::
        ofType (depth + 1) "type" declaration.type
  | .block node statements =>
    plain depth "statement" "Block" node :: ofStatements (depth + 1) statements
  | .expression node value =>
    plain depth "statement" "ExpressionStatement" node :: ofExpr (depth + 1) "expression" value
  | .empty node => [plain depth "statement" "EmptyStatement" node]

/-- The lines of statements. -/
def ofStatements (depth : Nat) : List Statement → List Outline
  | [] => []
  | statement :: rest => ofStatement depth statement ++ ofStatements depth rest

end

/-- The lines of a file. -/
def ofFile (file : SourceFile) : List Outline :=
  plain 0 "root" "SourceFile" file.node :: ofStatements 1 file.statements

end Outline

end ExpressionTyping
