import ExpressionTyping.Diagnostic.Basic
import ExpressionTyping.Token.Lexeme

/-!
# Tokens

A text is a sequence of tokens with trivia between them, closed by a token for its end. Every
token knows its span, its value, whether a line break stands before it, and its own fault, if any.
-/

set_option autoImplicit false

namespace ExpressionTyping

/-- One token of a text. -/
structure Token where
  /-- The kind of token. -/
  kind : TokenKind
  /-- The characters of the token, trivia left out. -/
  span : Span
  /-- The decoded text of a string, the characters of a number or a word, else nothing. -/
  value : String
  /-- Whether a line break stands between the previous token and this one. -/
  afterLineBreak : Bool
  /-- What is wrong with the token itself. -/
  fault? : Option Problem
deriving DecidableEq, Inhabited

namespace Token

/-- The end of a text. -/
def endOfText (offset : Nat) (afterLineBreak : Bool) : Token :=
  ⟨.endOfText, ⟨offset, offset⟩, "", afterLineBreak, none⟩

/-- Reads the token at an offset, where a given text is left, and what is left after it. -/
def next (alphabet : Alphabet) (offset : Nat) (text : List Char) : Token × List Char :=
  let gap := Trivia.skip text
  let start := offset + gap.length
  match gap.rest with
  | [] => (endOfText start gap.breaksLine, [])
  | c :: rest =>
    let lexeme := Lexeme.front alphabet c rest
    (⟨lexeme.kind, ⟨start, start + lexeme.text.length⟩, String.ofList lexeme.value, gap.breaksLine,
      lexeme.fault?⟩, lexeme.rest)

/-- Reads at most `limit` tokens and stops after the end of the text. -/
def read (alphabet : Alphabet) : (limit : Nat) → (offset : Nat) → List Char → List Token
  | 0, _, _ => []
  | limit + 1, offset, text =>
    let (token, rest) := next alphabet offset text
    if token.kind = .endOfText then [token]
    else token :: read alphabet limit token.span.stop rest

/-- The tokens of a text, the end included. Each token takes a character, so a text has at most one
token more than characters. -/
def ofText (alphabet : Alphabet) (text : List Char) : List Token :=
  read alphabet (text.length + 1) 0 text

/-- What the token reports about itself. -/
def issue? (token : Token) : Option Issue :=
  token.fault?.map fun problem => ⟨token.span, problem⟩

/-- The text of the token as its kind gives it, else its value. -/
def text (token : Token) : String :=
  token.kind.text?.getD token.value

end Token

end ExpressionTyping
