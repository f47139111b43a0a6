/-!
# Spans of text

Offsets count characters from the start of a text. A span is a half-open range of offsets, and it
is what a syntax node covers and what a diagnostic points at. Offsets are kept below `2 ^ 32`, so
the constructors that add or compare offsets refuse what does not fit.
-/

set_option autoImplicit false

namespace ExpressionTyping

/-- A range of character offsets that contains `start` and stops before `stop`. -/
structure Span where
  /-- The first offset of the range. -/
  start : Nat
  /-- The offset just past the range. -/
  stop : Nat
deriving DecidableEq, Inhabited

namespace Span

/-- Offsets lie below this bound. -/
def offsetBound : Nat := 0x100000000

/-- The span between two bounds, refused when they are out of order. -/
def ofBounds? (start stop : Nat) : Option Span :=
  if start ≤ stop then some ⟨start, stop⟩ else none

/-- The span of a given length, refused when its end is not an offset. -/
def ofLength? (start length : Nat) : Option Span :=
  if start + length < offsetBound then some ⟨start, start + length⟩ else none

/-- The number of characters covered. -/
def length (s : Span) : Nat :=
  s.stop - s.start

/-- Whether the bounds are in order. -/
def ordered (s : Span) : Bool :=
  s.start ≤ s.stop

/-- Whether an offset lies inside the span. -/
def contains (s : Span) (offset : Nat) : Bool :=
  s.start ≤ offset && offset < s.stop

/-- Whether an offset lies inside the span or at its end. -/
def containsInclusive (s : Span) (offset : Nat) : Bool :=
  s.start ≤ offset && offset ≤ s.stop

/-- The interval as written in diagnostics. -/
def interval (s : Span) : String :=
  s!"[{s.start}, {s.stop})"

/-- The bounds joined by two dots. -/
def bounds (s : Span) : String :=
  s!"{s.start}..{s.stop}"

end Span

end ExpressionTyping
