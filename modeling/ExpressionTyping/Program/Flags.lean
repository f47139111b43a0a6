import ExpressionTyping.Typing.Kind

/-!
# Type flags

A declared type is classified by flags, kept as the bits of a number. The kind that the rules for
operators see is read off the flags, the first that fits in a fixed order.
-/

set_option autoImplicit false

namespace ExpressionTyping

/-- Flags of a declared type. -/
structure TypeFlags where
  /-- One bit per flag. -/
  bits : Nat
deriving DecidableEq, Inhabited

namespace TypeFlags

/-- The flags with one bit set. -/
def single (bit : Nat) : TypeFlags := ⟨1 <<< bit⟩

/-- The bit of `any`. -/
def any : Nat := 0
/-- The bit of `unknown`. -/
def unknown : Nat := 1
/-- The bit of `string`. -/
def string : Nat := 2
/-- The bit of `number`. -/
def number : Nat := 3
/-- The bit of `boolean`. -/
def boolean : Nat := 4
/-- The bit of a string literal. -/
def stringLiteral : Nat := 7
/-- The bit of a number literal. -/
def numberLiteral : Nat := 8
/-- The bit of `true` and `false`. -/
def booleanLiteral : Nat := 9
/-- The bit of `symbol`. -/
def symbol : Nat := 12
/-- The bit of one symbol. -/
def uniqueSymbol : Nat := 13
/-- The bit of `void`. -/
def void : Nat := 14
/-- The bit of `undefined`. -/
def undefined : Nat := 15
/-- The bit of `null`. -/
def null : Nat := 16
/-- The bit of `never`. -/
def never : Nat := 17
/-- The bit of an object type. -/
def object : Nat := 19
/-- The bit of a union. -/
def union : Nat := 20
/-- The bit of `object`, the type of everything that is not primitive. -/
def nonPrimitive : Nat := 26

/-- Whether a bit is set. -/
def has (flags : TypeFlags) (bit : Nat) : Bool :=
  flags.bits.testBit bit

/-- The kind of a type with these flags. Object types are `other`, like everything without a kind
of its own. -/
def kind (flags : TypeFlags) : TypeKind :=
  if flags.has any then .any
  else if flags.has boolean || flags.has booleanLiteral then .boolean
  else if flags.has string || flags.has stringLiteral then .string
  else if flags.has number || flags.has numberLiteral then .number
  else if flags.has symbol || flags.has uniqueSymbol then .symbol
  else if flags.has undefined then .undefined
  else if flags.has null then .null
  else .other

end TypeFlags

end ExpressionTyping
