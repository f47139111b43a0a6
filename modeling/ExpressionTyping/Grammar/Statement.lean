import ExpressionTyping.Grammar.Expression
import ExpressionTyping.Grammar.TypeNode
import ExpressionTyping.Syntax.Statement

/-!
# The grammar of statements

A statement is told by its first tokens. The words that start declarations of interfaces, aliases
and `let` variables are names elsewhere, so they count only before a name. A statement ends with a
semicolon, which may be left out at the end of a line, a block or the text.
-/

set_option autoImplicit false

namespace ExpressionTyping

namespace Parse

/-- The end of a statement. -/
def endStatement : Parse Unit := do
  let token ← current
  if token.kind = .punctuator .semicolon then advance
  else if token.afterLineBreak || token.kind = .punctuator .closeBrace || token.kind = .endOfText then
    return ()
  else report (.tokenExpected ";")

/-- The kind of the token after the current one. -/
def nextKind : Parse TokenKind := do
  return ((← get).upcoming.head?.map Token.kind).getD .endOfText

/-- Whether a kind of token starts a declaration after `declare`. -/
def startsDeclaration : TokenKind → Bool
  | .keyword .varWord | .keyword .letWord | .keyword .constWord | .keyword .functionWord
  | .keyword .interfaceWord | .keyword .typeWord => true
  | _ => false

/-- One variable with its type and value. -/
def variableDeclaration : Parse VariableDeclaration := do
  let start := (← current).span.start
  let name ← identifier
  let written ← optionalType typeNode
  let initializer ← do
    if ← accept .equals then pure (some (← expression)) else pure none
  return ⟨← closeNode start, name, written, initializer⟩

/-- Variables separated by commas, at most `limit` of them. -/
def variablesTail : (limit : Nat) → Parse (List VariableDeclaration)
  | 0 => return []
  | limit + 1 => do
    let first ← variableDeclaration
    if ← accept .comma then
      return first :: (← variablesTail limit)
    else return [first]

/-- A declaration of variables, from the word that starts it. -/
def variableStatement (start : Nat) (ambient : Bool) (form : VariableForm) : Parse Statement := do
  let listStart := (← current).span.start
  advance
  let declarations ← variablesTail (← remaining)
  let list ← closeNode listStart
  endStatement
  return .variableList ⟨← closeNode start, ambient, list, form, declarations⟩

/-- A declaration of a function, from the word that starts it. -/
def functionDeclaration (start : Nat) (ambient : Bool) : Parse Statement := do
  advance
  let name ← identifier
  let values ← parameters typeNode
  let result ← optionalType typeNode
  endStatement
  return .function ⟨← closeNode start, ambient, name, values, result⟩

/-- A declaration of an interface, from the word that starts it. -/
def interfaceDeclaration (start : Nat) : Parse Statement := do
  advance
  let name ← identifier
  let members ← elements typeNode
  return .interface ⟨← closeNode start, name, members⟩

/-- A declaration of a type alias, from the word that starts it. -/
def aliasDeclaration (start : Nat) : Parse Statement := do
  advance
  let name ← identifier
  expectPunctuator .equals
  let type ← typeNode
  endStatement
  return .typeAlias ⟨← closeNode start, name, type⟩

/-- An expression as a statement. -/
def expressionStatement : Parse Statement := do
  let start := (← current).span.start
  let value ← expression
  endStatement
  return .expression (← closeNode start) value

/-- A declaration that starts at an offset, or else an expression. -/
def declaration (start : Nat) (ambient : Bool) : Parse Statement := do
  match (← current).kind with
  | .keyword .varWord => variableStatement start ambient .hoisted
  | .keyword .constWord => variableStatement start ambient .constant
  | .keyword .letWord =>
    if (← nextKind).isName then variableStatement start ambient .block else expressionStatement
  | .keyword .functionWord => functionDeclaration start ambient
  | .keyword .interfaceWord =>
    if (← nextKind).isName then interfaceDeclaration start else expressionStatement
  | .keyword .typeWord =>
    if (← nextKind).isName then aliasDeclaration start else expressionStatement
  | _ => expressionStatement

/-- A statement; `body` reads the statements of a block. -/
def statement (body : Parse (List Statement)) : Parse Statement := do
  let token ← current
  let start := token.span.start
  match token.kind with
  | .punctuator .semicolon =>
    advance
    return .empty (← newNode token.span)
  | .punctuator .openBrace =>
    advance
    let statements ← body
    expectPunctuator .closeBrace
    return .block (← closeNode start) statements
  | .keyword .declareWord =>
    if startsDeclaration (← nextKind) then
      advance
      declaration start true
    else declaration start false
  | _ => declaration start false

/-- Statements up to a closing brace or the end of the text, at most `limit` of them counting those
of blocks. A token that no statement takes is reported and passed over. -/
def statementsTail : (limit : Nat) → Parse (List Statement)
  | 0 => return []
  | limit + 1 => do
    if (← isAt .endOfText) || (← isAtPunctuator .closeBrace) then return []
    let start := (← current).span.start
    let first ← statement (statementsTail limit)
    let token ← current
    if token.span.start = start && token.kind != .endOfText then
      report .statementExpected
      advance
    return first :: (← statementsTail limit)

/-- The statements of a file. -/
def statements : Parse (List Statement) := do
  statementsTail (← remaining)

end Parse

end ExpressionTyping
