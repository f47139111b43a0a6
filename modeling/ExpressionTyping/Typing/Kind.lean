/-!
# Kinds of types

A kind is what the rules for operators need to know about a type. Every kind but `other` has a
canonical type, named by the keyword of the kind.
-/

set_option autoImplicit false

namespace ExpressionTyping

/-- What a rule needs to know about a type. -/
inductive TypeKind where
  | any
  | boolean
  | string
  | number
  | symbol
  | undefined
  | null
  | object
  | function
  /-- Neither primitive, nor a plain object, nor a plain function. -/
  | other
deriving DecidableEq, Inhabited

namespace TypeKind

/-- The keyword that names the canonical type of a kind. -/
def keyword : TypeKind → String
  | any => "any"
  | boolean => "boolean"
  | string => "string"
  | number => "number"
  | symbol => "symbol"
  | undefined => "undefined"
  | null => "null"
  | object => "object"
  | function => "Function"
  | other => "other"

/-- The name of a kind in listings. -/
def label : TypeKind → String
  | any => "Any"
  | boolean => "Boolean"
  | string => "String"
  | number => "Number"
  | symbol => "Symbol"
  | undefined => "Undefined"
  | null => "Null"
  | object => "Object"
  | function => "Function"
  | other => "Other"

/-- The kinds that have a canonical type. -/
def canonicalKinds : List TypeKind :=
  [any, boolean, string, number, symbol, undefined, null, object, function]

/-- Whether the canonical type of a kind comes from built-in declarations. -/
def isScalar : TypeKind → Bool
  | string | number | boolean | symbol => true
  | _ => false

/-- The kind that a keyword names; any other word names `other`. -/
def ofKeyword (word : String) : TypeKind :=
  (canonicalKinds.find? fun kind => kind.keyword == word).getD other

end TypeKind

end ExpressionTyping
