/-!
# Lines and columns

A character offset is shown to a reader as a line and a column, both counted from zero. Only the
newline character ends a line.
-/

set_option autoImplicit false

namespace ExpressionTyping

/-- A line and a column, both counted from zero. -/
structure Position where
  /-- The number of newlines before the offset. -/
  line : Nat
  /-- The number of characters since the line began. -/
  column : Nat
deriving DecidableEq, Inhabited

/-- The offsets at which the lines of a text begin, in increasing order. -/
structure LineMap where
  /-- Line starts; the first is zero. -/
  starts : List Nat

namespace LineMap

/-- The offsets just past each newline of a text that begins at `offset`. -/
def startsAfterNewlines : Nat → List Char → List Nat
  | _, [] => []
  | offset, c :: rest =>
    if c = '\n' then (offset + 1) :: startsAfterNewlines (offset + 1) rest
    else startsAfterNewlines (offset + 1) rest

/-- The line starts of a text. -/
def ofText (text : String) : LineMap :=
  ⟨0 :: startsAfterNewlines 0 text.toList⟩

/-- The line and column of an offset; offsets past the end stay on the last line. -/
def position (map : LineMap) (offset : Nat) : Position :=
  let passed := map.starts.takeWhile (· ≤ offset)
  ⟨passed.length - 1, offset - passed.getLast?.getD 0⟩

end LineMap

/-- The number of bytes that characters take in UTF-8. -/
def utf8Length (chars : List Char) : Nat :=
  chars.foldl (fun size c => size + c.utf8Size) 0

/-- The number of bytes that the first `offset` characters take in UTF-8. -/
def byteOffset (text : String) (offset : Nat) : Nat :=
  utf8Length (text.toList.take offset)

end ExpressionTyping
