import ExpressionTyping.Syntax.Expr

/-!
# Type annotations

The trees of type annotations, with the parameters of function types and the members of object
types.
-/

set_option autoImplicit false

namespace ExpressionTyping

/-- The types that have a word of their own. -/
inductive TypeWord where
  | any
  | unknown
  | string
  | number
  | boolean
  | symbol
  | undefined
  | never
  | object
  | void
  | null
deriving DecidableEq, Inhabited

namespace TypeWord

/-- The keyword of a type. -/
def keyword : TypeWord → Keyword
  | any => .anyWord
  | unknown => .unknownWord
  | string => .stringWord
  | number => .numberWord
  | boolean => .booleanWord
  | symbol => .symbolWord
  | undefined => .undefinedWord
  | never => .neverWord
  | object => .objectWord
  | void => .voidWord
  | null => .nullWord

/-- The type that a token names by itself. -/
def ofToken? : TokenKind → Option TypeWord
  | .keyword .anyWord => some any
  | .keyword .unknownWord => some unknown
  | .keyword .stringWord => some string
  | .keyword .numberWord => some number
  | .keyword .booleanWord => some boolean
  | .keyword .symbolWord => some symbol
  | .keyword .undefinedWord => some undefined
  | .keyword .neverWord => some never
  | .keyword .objectWord => some object
  | .keyword .voidWord => some void
  | .keyword .nullWord => some null
  | _ => none

end TypeWord

mutual

/-- Type annotations. -/
inductive TypeNode where
  /-- A type that a word names; a missing type is an `any` of no width. -/
  | word (node : Node) (word : TypeWord)
  /-- The type of one constant. -/
  | literal (node : Node) (constant : Node) (value : Literal)
  /-- A type by its declared name. -/
  | reference (node : Node) (name : Identifier)
  /-- An array. -/
  | array (node : Node) (element : TypeNode)
  /-- A union of two types or more. -/
  | union (node : Node) (members : List TypeNode)
  /-- A function type. -/
  | function (node : Node) (parameters : List Parameter) (result : TypeNode)
  /-- An object type by its members. -/
  | object (node : Node) (members : List TypeElement)
  /-- A type in parentheses. -/
  | parenthesized (node : Node) (inner : TypeNode)

/-- A parameter; `rest` is the span of the dots that let it take every further argument. -/
inductive Parameter where
  | mk (node : Node) (rest : Option Span) (name : Identifier) (type? : Option TypeNode)

/-- A member of an object type. -/
inductive TypeElement where
  /-- A property. -/
  | property (node : Node) (name : Identifier) (type? : Option TypeNode)
  /-- A method. -/
  | method (node : Node) (name : Identifier) (parameters : List Parameter)
      (result : Option TypeNode)

end

instance : Inhabited TypeNode := ⟨.word default .any⟩

/-- The node of a type annotation. -/
def TypeNode.node : TypeNode → Node
  | word node _ => node
  | literal node _ _ => node
  | reference node _ => node
  | array node _ => node
  | union node _ => node
  | function node _ _ => node
  | object node _ => node
  | parenthesized node _ => node

namespace Parameter

/-- The node of a parameter. -/
def node : Parameter → Node
  | mk node _ _ _ => node

/-- The name of a parameter. -/
def name : Parameter → Identifier
  | mk _ _ name _ => name

/-- Whether the parameter takes every further argument. -/
def isRest : Parameter → Bool
  | mk _ rest _ _ => rest.isSome

/-- The type written for a parameter. -/
def type? : Parameter → Option TypeNode
  | mk _ _ _ type? => type?

end Parameter

namespace TypeElement

/-- The node of a member. -/
def node : TypeElement → Node
  | property node _ _ => node
  | method node _ _ _ => node

/-- The name of a member. -/
def name : TypeElement → Identifier
  | property _ name _ => name
  | method _ name _ _ => name

end TypeElement

end ExpressionTyping
