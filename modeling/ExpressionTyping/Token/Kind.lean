/-!
# Kinds of tokens

A token is a punctuator, a word, a literal, a character that starts nothing, or the end of the text.
Some words are keywords; the contextual ones may still be used as names. The texts of punctuators and
of keywords are for messages and listings: no token is cut by them.
-/

set_option autoImplicit false

namespace ExpressionTyping

/-- The punctuators. -/
inductive Punctuator where
  | openBrace
  | closeBrace
  | openParen
  | closeParen
  | openBracket
  | closeBracket
  | dot
  | ellipsis
  | semicolon
  | comma
  | less
  | greater
  | lessEquals
  | greaterEquals
  | equalsEquals
  | bangEquals
  | equalsEqualsEquals
  | bangEqualsEquals
  | arrow
  | plus
  | minus
  | star
  | starStar
  | slash
  | percent
  | lessLess
  | greaterGreater
  | greaterGreaterGreater
  | ampersand
  | bar
  | caret
  | bang
  | tilde
  | ampersandAmpersand
  | barBar
  | question
  | colon
  | questionQuestion
  | equals
deriving DecidableEq, Inhabited

namespace Punctuator

/-- The text of a punctuator. -/
def text : Punctuator → String
  | openBrace => "\x7b"
  | closeBrace => "\x7d"
  | openParen => "("
  | closeParen => ")"
  | openBracket => "["
  | closeBracket => "]"
  | dot => "."
  | ellipsis => "..."
  | semicolon => ";"
  | comma => ","
  | less => "<"
  | greater => ">"
  | lessEquals => "<="
  | greaterEquals => ">="
  | equalsEquals => "=="
  | bangEquals => "!="
  | equalsEqualsEquals => "==="
  | bangEqualsEquals => "!=="
  | arrow => "=>"
  | plus => "+"
  | minus => "-"
  | star => "*"
  | starStar => "**"
  | slash => "/"
  | percent => "%"
  | lessLess => "<<"
  | greaterGreater => ">>"
  | greaterGreaterGreater => ">>>"
  | ampersand => "&"
  | bar => "|"
  | caret => "^"
  | bang => "!"
  | tilde => "~"
  | ampersandAmpersand => "&&"
  | barBar => "||"
  | question => "?"
  | colon => ":"
  | questionQuestion => "??"
  | equals => "="

/-- The name of a punctuator in listings. -/
def label : Punctuator → String
  | openBrace => "OpenBraceToken"
  | closeBrace => "CloseBraceToken"
  | openParen => "OpenParenToken"
  | closeParen => "CloseParenToken"
  | openBracket => "OpenBracketToken"
  | closeBracket => "CloseBracketToken"
  | dot => "DotToken"
  | ellipsis => "DotDotDotToken"
  | semicolon => "SemicolonToken"
  | comma => "CommaToken"
  | less => "LessThanToken"
  | greater => "GreaterThanToken"
  | lessEquals => "LessThanEqualsToken"
  | greaterEquals => "GreaterThanEqualsToken"
  | equalsEquals => "EqualsEqualsToken"
  | bangEquals => "ExclamationEqualsToken"
  | equalsEqualsEquals => "EqualsEqualsEqualsToken"
  | bangEqualsEquals => "ExclamationEqualsEqualsToken"
  | arrow => "EqualsGreaterThanToken"
  | plus => "PlusToken"
  | minus => "MinusToken"
  | star => "AsteriskToken"
  | starStar => "AsteriskAsteriskToken"
  | slash => "SlashToken"
  | percent => "PercentToken"
  | lessLess => "LessThanLessThanToken"
  | greaterGreater => "GreaterThanGreaterThanToken"
  | greaterGreaterGreater => "GreaterThanGreaterThanGreaterThanToken"
  | ampersand => "AmpersandToken"
  | bar => "BarToken"
  | caret => "CaretToken"
  | bang => "ExclamationToken"
  | tilde => "TildeToken"
  | ampersandAmpersand => "AmpersandAmpersandToken"
  | barBar => "BarBarToken"
  | question => "QuestionToken"
  | colon => "ColonToken"
  | questionQuestion => "QuestionQuestionToken"
  | equals => "EqualsToken"

end Punctuator

/-- The keywords; the contextual ones come after the reserved ones. -/
inductive Keyword where
  | constWord
  | falseWord
  | functionWord
  | inWord
  | instanceofWord
  | nullWord
  | trueWord
  | typeofWord
  | varWord
  | voidWord
  | anyWord
  | booleanWord
  | declareWord
  | interfaceWord
  | letWord
  | neverWord
  | numberWord
  | objectWord
  | stringWord
  | symbolWord
  | typeWord
  | undefinedWord
  | unknownWord
deriving DecidableEq, Inhabited

namespace Keyword

/-- The text of a keyword. -/
def text : Keyword → String
  | constWord => "const"
  | falseWord => "false"
  | functionWord => "function"
  | inWord => "in"
  | instanceofWord => "instanceof"
  | nullWord => "null"
  | trueWord => "true"
  | typeofWord => "typeof"
  | varWord => "var"
  | voidWord => "void"
  | anyWord => "any"
  | booleanWord => "boolean"
  | declareWord => "declare"
  | interfaceWord => "interface"
  | letWord => "let"
  | neverWord => "never"
  | numberWord => "number"
  | objectWord => "object"
  | stringWord => "string"
  | symbolWord => "symbol"
  | typeWord => "type"
  | undefinedWord => "undefined"
  | unknownWord => "unknown"

/-- The name of a keyword in listings. -/
def label : Keyword → String
  | constWord => "ConstKeyword"
  | falseWord => "FalseKeyword"
  | functionWord => "FunctionKeyword"
  | inWord => "InKeyword"
  | instanceofWord => "InstanceOfKeyword"
  | nullWord => "NullKeyword"
  | trueWord => "TrueKeyword"
  | typeofWord => "TypeOfKeyword"
  | varWord => "VarKeyword"
  | voidWord => "VoidKeyword"
  | anyWord => "AnyKeyword"
  | booleanWord => "BooleanKeyword"
  | declareWord => "DeclareKeyword"
  | interfaceWord => "InterfaceKeyword"
  | letWord => "LetKeyword"
  | neverWord => "NeverKeyword"
  | numberWord => "NumberKeyword"
  | objectWord => "ObjectKeyword"
  | stringWord => "StringKeyword"
  | symbolWord => "SymbolKeyword"
  | typeWord => "TypeKeyword"
  | undefinedWord => "UndefinedKeyword"
  | unknownWord => "UnknownKeyword"

/-- Whether a keyword may still be used as a name. -/
def isContextual : Keyword → Bool
  | constWord | falseWord | functionWord | inWord | instanceofWord | nullWord | trueWord
  | typeofWord | varWord | voidWord => false
  | _ => true

/-- The keyword that the characters of a word are. -/
def ofSpelling? (word : List Char) : Option Keyword :=
  match String.ofList word with
  | "const" => some constWord
  | "false" => some falseWord
  | "function" => some functionWord
  | "in" => some inWord
  | "instanceof" => some instanceofWord
  | "null" => some nullWord
  | "true" => some trueWord
  | "typeof" => some typeofWord
  | "var" => some varWord
  | "void" => some voidWord
  | "any" => some anyWord
  | "boolean" => some booleanWord
  | "declare" => some declareWord
  | "interface" => some interfaceWord
  | "let" => some letWord
  | "never" => some neverWord
  | "number" => some numberWord
  | "object" => some objectWord
  | "string" => some stringWord
  | "symbol" => some symbolWord
  | "type" => some typeWord
  | "undefined" => some undefinedWord
  | "unknown" => some unknownWord
  | _ => none

end Keyword

/-- The kinds of tokens. -/
inductive TokenKind where
  /-- A character that starts no token. -/
  | unknown
  /-- The end of the text. -/
  | endOfText
  /-- A number. -/
  | number
  /-- A string between single or double quotes. -/
  | string
  /-- A string between backquotes. -/
  | template
  /-- A word that is no keyword. -/
  | identifier
  /-- A punctuator. -/
  | punctuator (p : Punctuator)
  /-- A keyword. -/
  | keyword (k : Keyword)
deriving DecidableEq, Inhabited

namespace TokenKind

/-- The name of a kind in listings. -/
def label : TokenKind → String
  | unknown => "Unknown"
  | endOfText => "EndOfFileToken"
  | number => "NumericLiteral"
  | string => "StringLiteral"
  | template => "NoSubstitutionTemplateLiteral"
  | identifier => "Identifier"
  | punctuator p => p.label
  | keyword k => k.label

/-- Whether the token is a keyword. -/
def isKeyword : TokenKind → Bool
  | keyword _ => true
  | _ => false

/-- Whether the token is a keyword that may be used as a name. -/
def isContextualKeyword : TokenKind → Bool
  | keyword k => k.isContextual
  | _ => false

/-- Whether the token may be used as a name. -/
def isName : TokenKind → Bool
  | identifier => true
  | kind => kind.isContextualKeyword

/-- The text of a punctuator. -/
def punctuatorText? : TokenKind → Option String
  | punctuator p => some p.text
  | _ => none

/-- The text of a keyword. -/
def keywordText? : TokenKind → Option String
  | keyword k => some k.text
  | _ => none

/-- The text of a token that its kind determines. -/
def text? (kind : TokenKind) : Option String :=
  kind.punctuatorText? <|> kind.keywordText?

end TokenKind

end ExpressionTyping
