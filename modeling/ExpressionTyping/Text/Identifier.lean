import ExpressionTyping.Text.IdentifierRanges

/-!
# Characters of identifiers

An identifier starts with a letter, `_` or `$` and goes on with these and digits. Which characters
beyond ASCII count is left to an alphabet, so that what holds of scanning holds for every choice.
-/

set_option autoImplicit false

namespace ExpressionTyping

/-- Which characters beyond ASCII may start and continue an identifier. -/
structure Alphabet where
  /-- Characters that may start an identifier. -/
  letter : Char → Bool
  /-- Characters that may continue an identifier. -/
  continuation : Char → Bool

namespace Alphabet

/-- The alphabet of the standard identifier properties. -/
def standard : Alphabet where
  letter c := letterRanges.includes c
  continuation c := letterRanges.includes c || continuationRanges.includes c

/-- Whether a character may start an identifier. -/
def startsIdentifier (alphabet : Alphabet) (c : Char) : Bool :=
  c == '_' || c == '$' || c.isAlpha || (0x7f < c.toNat && alphabet.letter c)

/-- Whether a character may stand in an identifier after its first. -/
def continuesIdentifier (alphabet : Alphabet) (c : Char) : Bool :=
  c == '_' || c == '$' || c.isAlphanum || (0x7f < c.toNat && alphabet.continuation c)

end Alphabet

end ExpressionTyping
