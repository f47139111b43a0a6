import ExpressionTyping.Syntax.Operator
import ExpressionTyping.Token.Basic

/-!
# Expressions

Every node of a tree has a number, given in the order in which nodes are completed, and the span of
text it covers. A place where an expression should stand and does not is a node of its own.
-/

set_option autoImplicit false

namespace ExpressionTyping

/-- The number and the span of a syntax node. -/
structure Node where
  /-- The number of the node in its tree. -/
  id : Nat
  /-- The characters the node covers; a node of nothing may stop before it starts. -/
  span : Span
deriving DecidableEq, Inhabited

/-- A name in a tree; a missing name is empty. -/
structure Identifier where
  /-- The node of the name. -/
  node : Node
  /-- The characters of the name. -/
  text : String
deriving DecidableEq, Inhabited

/-- Whether the name is missing. -/
def Identifier.isMissing (name : Identifier) : Bool :=
  name.text.isEmpty

/-- A constant written in the text. -/
inductive Literal where
  /-- A string between quotes, decoded. -/
  | string (text : String)
  /-- A template, decoded. -/
  | template (text : String)
  /-- A number as written. -/
  | number (text : String)
  /-- `true` or `false`. -/
  | boolean (value : Bool)
  /-- `null`. -/
  | null
deriving DecidableEq, Inhabited

namespace Literal

/-- The literal that a token stands for. -/
def ofToken? (token : Token) : Option Literal :=
  match token.kind with
  | .string => some (string token.value)
  | .template => some (template token.value)
  | .number => some (number token.value)
  | .keyword .trueWord => some (boolean true)
  | .keyword .falseWord => some (boolean false)
  | .keyword .nullWord => some null
  | _ => none

/-- The kind of token that stands for a literal. -/
def kind : Literal → TokenKind
  | string _ => .string
  | template _ => .template
  | number _ => .number
  | boolean true => .keyword .trueWord
  | boolean false => .keyword .falseWord
  | null => .keyword .nullWord

/-- The text of a string, a template or a number. -/
def text? : Literal → Option String
  | string text | template text | number text => some text
  | boolean _ | null => none

end Literal

/-- Expressions. -/
inductive Expr where
  /-- A name. -/
  | identifier (name : Identifier)
  /-- A constant. -/
  | literal (node : Node) (value : Literal)
  /-- An expression in parentheses. -/
  | parenthesized (node : Node) (inner : Expr)
  /-- A member by name: `object.name`. -/
  | member (node : Node) (object : Expr) (name : Identifier)
  /-- An element by key: `object[key]`. -/
  | element (node : Node) (object key : Expr)
  /-- A call. -/
  | call (node : Node) (callee : Expr) (arguments : List Expr)
  /-- An operator before its operand. -/
  | unary (node : Node) (op : UnaryOp) (operand : Expr)
  /-- An operator, which covers `mark`, between its operands. -/
  | binary (node : Node) (left : Expr) (op : BinaryOp) (mark : Span) (right : Expr)
  /-- An assignment; its sign covers `mark`. -/
  | assign (node : Node) (target : Expr) (mark : Span) (value : Expr)
  /-- A choice: `condition ? whenTrue : whenFalse`. -/
  | conditional (node : Node) (condition whenTrue whenFalse : Expr)
  /-- A place where an expression is missing. -/
  | missing (node : Node)
deriving Inhabited

namespace Expr

/-- The node of an expression. -/
def node : Expr → Node
  | identifier name => name.node
  | literal node _ => node
  | parenthesized node _ => node
  | member node _ _ => node
  | element node _ _ => node
  | call node _ _ => node
  | unary node _ _ => node
  | binary node _ _ _ _ => node
  | assign node _ _ _ => node
  | conditional node _ _ _ => node
  | missing node => node

/-- The characters an expression covers. -/
def span (e : Expr) : Span :=
  e.node.span

end Expr

end ExpressionTyping
