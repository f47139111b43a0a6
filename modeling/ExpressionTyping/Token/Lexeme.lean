import ExpressionTyping.Diagnostic.Problem
import ExpressionTyping.Text.Identifier
import ExpressionTyping.Token.Kind
import ExpressionTyping.Token.Trivia

/-!
# Lexemes

A lexeme is the characters of one token, cut from the front of a text that starts with no trivia.
Its value is what the token stands for: the decoded text of a string, the characters of a number or
a word, and nothing for the rest.
-/

set_option autoImplicit false

namespace ExpressionTyping

/-- The characters of a token and what follows them. -/
structure Lexeme where
  /-- The kind of token. -/
  kind : TokenKind
  /-- The characters of the token. -/
  text : List Char
  /-- What the token stands for. -/
  value : List Char
  /-- What is wrong with the token. -/
  fault? : Option Problem
  /-- The text after the token. -/
  rest : List Char

namespace Lexeme

/-- The character that a backslash and a character stand for. -/
def unescape : Char → Char
  | 'n' => '\n'
  | 't' => '\t'
  | 'r' => '\r'
  | '0' => '\x00'
  | c => c

/-- What follows the opening quote of a string. -/
structure Body where
  /-- The characters up to the end of the string, the closing quote included. -/
  text : List Char
  /-- The decoded characters. -/
  value : List Char
  /-- Whether the closing quote was found. -/
  closed : Bool
  /-- The text after the string. -/
  rest : List Char

/-- Reads a string after its opening quote; it ends before a line break unless it may span lines. -/
def body (quote : Char) (multiline : Bool) : List Char → Body
  | [] => ⟨[], [], false, []⟩
  | ['\\'] => ⟨['\\'], [], false, []⟩
  | '\\' :: c :: rest =>
    let tail := body quote multiline rest
    { tail with text := '\\' :: c :: tail.text, value := unescape c :: tail.value }
  | c :: rest =>
    if c = quote then ⟨[c], [], true, rest⟩
    else if !multiline && Trivia.isLineBreak c then ⟨[], [], false, c :: rest⟩
    else
      let tail := body quote multiline rest
      { tail with text := c :: tail.text, value := c :: tail.value }

/-- The string that starts with a quote. -/
def string (quote : Char) (rest : List Char) : Lexeme :=
  let tail := body quote false rest
  ⟨.string, quote :: tail.text, tail.value,
    if tail.closed then none else some .unterminatedString, tail.rest⟩

/-- The template that starts with a backquote. -/
def template (quote : Char) (rest : List Char) : Lexeme :=
  let tail := body quote true rest
  ⟨.template, quote :: tail.text, tail.value,
    if tail.closed then none else some .unterminatedTemplate, tail.rest⟩

/-- Whether a character stands in the digits of a number. -/
def isDigitOrSeparator (c : Char) : Bool :=
  c.isDigit || c == '_'

/-- Whether a character is a hexadecimal digit. -/
def isHexDigit (c : Char) : Bool :=
  c.isDigit || ('a' ≤ c && c ≤ 'f') || ('A' ≤ c && c ≤ 'F')

/-- The point and the digits after it, if a text starts with a point. -/
def fraction : List Char → List Char × List Char
  | '.' :: rest =>
    let (digits, rest) := rest.span isDigitOrSeparator
    ('.' :: digits, rest)
  | rest => ([], rest)

/-- The sign of an exponent, if there is one. -/
def sign : List Char → List Char × List Char
  | '+' :: rest => (['+'], rest)
  | '-' :: rest => (['-'], rest)
  | rest => ([], rest)

/-- The exponent that a text starts with: its mark, a sign and digits. -/
def exponent : List Char → List Char × List Char
  | c :: rest =>
    if c = 'e' ∨ c = 'E' then
      let (plusOrMinus, rest) := sign rest
      let (digits, rest) := rest.span isDigitOrSeparator
      (c :: plusOrMinus ++ digits, rest)
    else ([], c :: rest)
  | [] => ([], [])

/-- The characters of a decimal number. -/
def decimal (text : List Char) : List Char × List Char :=
  let (whole, rest) := text.span isDigitOrSeparator
  let (fractional, rest) := fraction rest
  let (power, rest) := exponent rest
  (whole ++ fractional ++ power, rest)

/-- The characters of a number: hexadecimal after `0x`, decimal otherwise. -/
def numeral : List Char → List Char × List Char
  | '0' :: x :: rest =>
    if x = 'x' ∨ x = 'X' then
      let (digits, rest) := rest.span isHexDigit
      ('0' :: x :: digits, rest)
    else decimal ('0' :: x :: rest)
  | text => decimal text

/-- The number at the front of a text. -/
def number (text : List Char) : Lexeme :=
  let (digits, rest) := numeral text
  ⟨.number, digits, digits, none, rest⟩

/-- The word at the front of a text, a keyword if it spells one. -/
def word (alphabet : Alphabet) (c : Char) (rest : List Char) : Lexeme :=
  let (tail, rest) := rest.span alphabet.continuesIdentifier
  let kind := match Keyword.ofSpelling? (c :: tail) with
    | some keyword => .keyword keyword
    | none => .identifier
  ⟨kind, c :: tail, c :: tail, none, rest⟩

/-- The punctuator that takes a number of characters. -/
def mark (p : Punctuator) (count : Nat) (text : List Char) : Lexeme :=
  ⟨.punctuator p, text.take count, [], none, text.drop count⟩

/-- One punctuator for a character and another for the character twice. -/
def doubled (c : Char) (single double : Punctuator) (rest : List Char) : Lexeme :=
  if rest[0]? = some c then mark double 2 (c :: rest) else mark single 1 (c :: rest)

/-- What a point starts: three points, a number, or the point alone. -/
def dot (rest : List Char) : Lexeme :=
  if rest[0]? = some '.' ∧ rest[1]? = some '.' then mark .ellipsis 3 ('.' :: rest)
  else if rest[0]?.any Char.isDigit then number ('.' :: rest)
  else mark .dot 1 ('.' :: rest)

/-- What a question mark starts. -/
def question (rest : List Char) : Lexeme :=
  if rest[0]? = some '?' then mark .questionQuestion 2 ('?' :: rest)
  else mark .question 1 ('?' :: rest)

/-- What a less-than sign starts. -/
def less (rest : List Char) : Lexeme :=
  match rest[0]? with
  | some '<' => mark .lessLess 2 ('<' :: rest)
  | some '=' => mark .lessEquals 2 ('<' :: rest)
  | _ => mark .less 1 ('<' :: rest)

/-- What a greater-than sign starts. -/
def greater (rest : List Char) : Lexeme :=
  match rest[0]?, rest[1]? with
  | some '>', some '>' => mark .greaterGreaterGreater 3 ('>' :: rest)
  | some '>', _ => mark .greaterGreater 2 ('>' :: rest)
  | some '=', _ => mark .greaterEquals 2 ('>' :: rest)
  | _, _ => mark .greater 1 ('>' :: rest)

/-- What an equals sign starts. -/
def equals (rest : List Char) : Lexeme :=
  if rest[0]? = some '=' then
    if rest[1]? = some '=' then mark .equalsEqualsEquals 3 ('=' :: rest)
    else mark .equalsEquals 2 ('=' :: rest)
  else if rest[0]? = some '>' then mark .arrow 2 ('=' :: rest)
  else mark .equals 1 ('=' :: rest)

/-- What an exclamation mark starts. -/
def bang (rest : List Char) : Lexeme :=
  if rest[0]? = some '=' then
    if rest[1]? = some '=' then mark .bangEqualsEquals 3 ('!' :: rest)
    else mark .bangEquals 2 ('!' :: rest)
  else mark .bang 1 ('!' :: rest)

/-- The lexeme at the front of a text that is not empty and starts with no trivia: its first
character decides how it is read. -/
def front (alphabet : Alphabet) (c : Char) (rest : List Char) : Lexeme :=
  match c with
  | '(' => mark .openParen 1 (c :: rest)
  | ')' => mark .closeParen 1 (c :: rest)
  | '\x7b' => mark .openBrace 1 (c :: rest)
  | '\x7d' => mark .closeBrace 1 (c :: rest)
  | '[' => mark .openBracket 1 (c :: rest)
  | ']' => mark .closeBracket 1 (c :: rest)
  | ';' => mark .semicolon 1 (c :: rest)
  | ',' => mark .comma 1 (c :: rest)
  | ':' => mark .colon 1 (c :: rest)
  | '~' => mark .tilde 1 (c :: rest)
  | '^' => mark .caret 1 (c :: rest)
  | '/' => mark .slash 1 (c :: rest)
  | '%' => mark .percent 1 (c :: rest)
  | '+' => mark .plus 1 (c :: rest)
  | '-' => mark .minus 1 (c :: rest)
  | '.' => dot rest
  | '?' => question rest
  | '<' => less rest
  | '>' => greater rest
  | '=' => equals rest
  | '!' => bang rest
  | '*' => doubled c .star .starStar rest
  | '&' => doubled c .ampersand .ampersandAmpersand rest
  | '|' => doubled c .bar .barBar rest
  | '\'' | '"' => string c rest
  | '\x60' => template c rest
  | _ =>
    if c.isDigit then number (c :: rest)
    else if alphabet.startsIdentifier c then word alphabet c rest
    else ⟨.unknown, [c], [], some .invalidCharacter, rest⟩

end Lexeme

end ExpressionTyping
