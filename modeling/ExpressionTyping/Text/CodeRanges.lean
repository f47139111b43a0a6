/-!
# Ranges of code points

A character property is given as a table of inclusive ranges of code points.
-/

set_option autoImplicit false

namespace ExpressionTyping

/-- Inclusive ranges of code points in increasing order. -/
abbrev CodeRanges := Array (Nat × Nat)

/-- Whether a character lies in one of the ranges. -/
def CodeRanges.includes (ranges : CodeRanges) (c : Char) : Bool :=
  ranges.any fun range => range.1 ≤ c.toNat && c.toNat ≤ range.2

end ExpressionTyping
