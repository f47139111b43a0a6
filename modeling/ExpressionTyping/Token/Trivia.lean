/-!
# Trivia

Between tokens stand line breaks, blanks, line comments and block comments. They carry no meaning
except that a token remembers whether a line break came before it.
-/

set_option autoImplicit false

namespace ExpressionTyping

namespace Trivia

/-- Characters that end a line. -/
def isLineBreak (c : Char) : Bool :=
  c == '\n' || c == '\r' || c == '\u2028' || c == '\u2029'

/-- Characters that separate tokens within a line. -/
def isBlank (c : Char) : Bool :=
  c == ' ' || c == '\t' || c == '\x0b' || c == '\x0c' || c == '\u00a0' || c == '\u1680' ||
    ('\u2000' ≤ c && c ≤ '\u200a') || c == '\u202f' || c == '\u205f' || c == '\u3000' ||
    c == '\ufeff'

/-- Where in the trivia a character stands. -/
inductive Mode where
  /-- Outside comments. -/
  | plain
  /-- In a comment that lasts to the end of the line. -/
  | lineComment
  /-- In a comment that lasts to its closing mark. -/
  | blockComment
deriving DecidableEq

/-- The trivia at the front of a text: its length, whether it breaks the line, and what follows. -/
structure Gap where
  /-- The number of characters skipped. -/
  length : Nat
  /-- Whether one of them is a line break. -/
  breaksLine : Bool
  /-- The text after the trivia. -/
  rest : List Char

/-- The gap with more characters in front. -/
def Gap.extend (gap : Gap) (count : Nat) (breaksLine : Bool) : Gap :=
  { gap with length := gap.length + count, breaksLine := gap.breaksLine || breaksLine }

/-- Skips trivia from a mode on. -/
def skipFrom : Mode → List Char → Gap
  | _, [] => ⟨0, false, []⟩
  | .blockComment, '*' :: '/' :: rest => (skipFrom .plain rest).extend 2 false
  | .blockComment, c :: rest => (skipFrom .blockComment rest).extend 1 (isLineBreak c)
  | .lineComment, c :: rest =>
    if isLineBreak c then (skipFrom .plain rest).extend 1 true
    else (skipFrom .lineComment rest).extend 1 false
  | .plain, '/' :: '/' :: rest => (skipFrom .lineComment rest).extend 2 false
  | .plain, '/' :: '*' :: rest => (skipFrom .blockComment rest).extend 2 false
  | .plain, c :: rest =>
    if isLineBreak c then (skipFrom .plain rest).extend 1 true
    else if isBlank c then (skipFrom .plain rest).extend 1 false
    else ⟨0, false, c :: rest⟩

/-- Skips the line breaks, blanks and comments at the front of a text. -/
def skip (text : List Char) : Gap :=
  skipFrom .plain text

end Trivia

end ExpressionTyping
