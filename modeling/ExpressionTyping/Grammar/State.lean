import ExpressionTyping.Syntax.Expr

/-!
# Reading tokens into trees

A parse goes through a list of tokens and never fails: what is missing is reported, and a node that
stands for it is put into the tree. The state of a parse is the token it stands on, the tokens after
it, where the last token taken ended, the number of the next node, and what has been reported.
-/

set_option autoImplicit false

namespace ExpressionTyping

/-- The state of a parse. -/
structure ParseState where
  /-- The token the parse stands on. -/
  current : Token
  /-- The tokens after the current one. -/
  upcoming : List Token
  /-- Where the token taken last ended. -/
  previousStop : Nat
  /-- The number of the next node. -/
  nextId : Nat
  /-- What has been reported, in order. -/
  issues : List Issue

/-- A step of a parse. -/
abbrev Parse := StateM ParseState

namespace Parse

/-- The state before the first token is taken; a list of tokens that is empty stands for an empty
text. -/
def initial (tokens : List Token) : ParseState :=
  match tokens with
  | [] => ⟨.endOfText 0 false, [], 0, 0, []⟩
  | token :: rest => ⟨token, rest, 0, 0, []⟩

/-- The number of tokens from the current one on. It bounds every loop, since each round takes a
token. -/
def remaining : Parse Nat := do
  return (← get).upcoming.length + 1

/-- The token the parse stands on. -/
def current : Parse Token := do
  return (← get).current

/-- Takes the current token; the end of the text is never passed. -/
def advance : Parse Unit :=
  modify fun s =>
    match s.upcoming with
    | [] => { s with previousStop := s.current.span.stop }
    | token :: rest =>
      { s with current := token, upcoming := rest, previousStop := s.current.span.stop }

/-- Reports a problem at the current token. -/
def report (problem : Problem) : Parse Unit :=
  modify fun s => { s with issues := s.issues ++ [⟨s.current.span, problem⟩] }

/-- A new node over a span. -/
def newNode (span : Span) : Parse Node := do
  let s ← get
  set { s with nextId := s.nextId + 1 }
  return ⟨s.nextId, span⟩

/-- A new node from an offset to the end of the token taken last. -/
def closeNode (start : Nat) : Parse Node := do
  newNode ⟨start, (← get).previousStop⟩

/-- Whether the current token is of a kind. -/
def isAt (kind : TokenKind) : Parse Bool := do
  return (← current).kind = kind

/-- Whether the current token is a punctuator. -/
def isAtPunctuator (p : Punctuator) : Parse Bool :=
  isAt (.punctuator p)

/-- Takes a token of a kind or reports that it is missing. -/
def expect (kind : TokenKind) : Parse Unit := do
  if ← isAt kind then advance
  else report (.tokenExpected (kind.text?.getD "token"))

/-- Takes a punctuator or reports that it is missing. -/
def expectPunctuator (p : Punctuator) : Parse Unit :=
  expect (.punctuator p)

/-- Takes a punctuator if it is there, and gives its span. -/
def accept? (p : Punctuator) : Parse (Option Span) := do
  if ← isAtPunctuator p then
    let token ← current
    advance
    return some token.span
  else return none

/-- Takes a punctuator if it is there, and says whether it was. -/
def accept (p : Punctuator) : Parse Bool := do
  return (← accept? p).isSome

/-- The name that the current token spells, or a missing name. -/
def identifier : Parse Identifier := do
  let token ← current
  if token.kind.isName then
    advance
    return ⟨← newNode token.span, token.value⟩
  else
    report .identifierExpected
    return ⟨← newNode ⟨token.span.start, token.span.start⟩, ""⟩

/-- The name of a member, which may be any keyword. -/
def memberName : Parse Identifier := do
  let token ← current
  if token.kind.isKeyword then
    advance
    return ⟨← newNode token.span, token.value⟩
  else identifier

/-- How deeply expressions and types may be nested. -/
def depthLimit : Nat := 200

end Parse

end ExpressionTyping
