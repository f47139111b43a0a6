import ExpressionTyping.Token.Basic

/-!
# Token cursors

A cursor reads the tokens of a text one at a time. It can be put back to an earlier place, which
keeps the issues reported so far, and it can look ahead, which reports none.
-/

set_option autoImplicit false

namespace ExpressionTyping

/-- A place in a text, the token that ends there, and what has been reported on the way. -/
structure Cursor where
  /-- The token read last. -/
  token : Token
  /-- The text after the token. -/
  rest : List Char
  /-- Issues of the tokens read and not yet taken. -/
  issues : List Issue

namespace Cursor

/-- The cursor before the first token. -/
def start (text : String) : Cursor :=
  ⟨⟨.unknown, ⟨0, 0⟩, "", false, none⟩, text.toList, []⟩

/-- Reads the next token. -/
def advance (alphabet : Alphabet) (cursor : Cursor) : Cursor :=
  let (token, rest) := Token.next alphabet cursor.token.span.stop cursor.rest
  ⟨token, rest, cursor.issues ++ token.issue?.toList⟩

/-- Goes to the place of another cursor and keeps the issues. -/
def restore (cursor place : Cursor) : Cursor :=
  { place with issues := cursor.issues }

/-- The next tokens, read without moving. -/
def lookAhead (alphabet : Alphabet) : Nat → Cursor → List Token
  | 0, _ => []
  | count + 1, cursor =>
    let cursor := cursor.advance alphabet
    cursor.token :: lookAhead alphabet count cursor

/-- Takes the issues away. -/
def takeIssues (cursor : Cursor) : List Issue × Cursor :=
  (cursor.issues, { cursor with issues := [] })

end Cursor

end ExpressionTyping
