import ExpressionTyping.Grammar.State
import ExpressionTyping.Syntax.TypeNode

/-!
# The grammar of type annotations

A type is a union of array types over primary types. Like expressions, a type nested in another is
read with one level of depth less; at the depth limit nothing is read and a missing type is
reported.
-/

set_option autoImplicit false

namespace ExpressionTyping

namespace Parse

/-- A missing type: an `any` of no width. -/
def missingType : Parse TypeNode := do
  report .typeExpected
  let start := (← current).span.start
  return .word (← newNode ⟨start, start⟩) .any

/-- The type after a colon, if there is one. -/
def optionalType (type : Parse TypeNode) : Parse (Option TypeNode) := do
  if ← accept .colon then return some (← type) else return none

/-- A parameter. A question mark after its name is taken and has no meaning. -/
def parameter (type : Parse TypeNode) : Parse Parameter := do
  let start := (← current).span.start
  let rest ← accept? .ellipsis
  let name ← identifier
  let _ ← accept .question
  let written ← optionalType type
  return .mk (← closeNode start) rest name written

/-- Parameters up to the closing parenthesis, at most `limit` of them. A parameter after a rest
parameter is reported. -/
def parametersTail (type : Parse TypeNode) : (limit : Nat) → (afterRest : Bool) →
    Parse (List Parameter)
  | 0, _ => return []
  | limit + 1, afterRest => do
    if (← isAtPunctuator .closeParen) || (← isAt .endOfText) then return []
    if afterRest then report .restParameterNotLast
    let first ← parameter type
    if ← accept .comma then
      return first :: (← parametersTail type limit first.isRest)
    else return [first]

/-- Parameters in parentheses. -/
def parameters (type : Parse TypeNode) : Parse (List Parameter) := do
  expectPunctuator .openParen
  let values ← parametersTail type (← remaining) false
  expectPunctuator .closeParen
  return values

/-- A member of an object type. A question mark after its name is taken and has no meaning. -/
def element (type : Parse TypeNode) : Parse TypeElement := do
  let start := (← current).span.start
  let name ← memberName
  let _ ← accept .question
  if ← isAtPunctuator .openParen then
    let values ← parameters type
    let result ← optionalType type
    return .method (← closeNode start) name values result
  else
    let written ← optionalType type
    return .property (← closeNode start) name written

/-- Members up to the closing brace, at most `limit` of them. A token that no member takes is
passed over. -/
def elementsTail (type : Parse TypeNode) : (limit : Nat) → Parse (List TypeElement)
  | 0 => return []
  | limit + 1 => do
    if (← isAtPunctuator .closeBrace) || (← isAt .endOfText) then return []
    let start := (← current).span.start
    let first ← element type
    unless ← accept .semicolon do
      let _ ← accept .comma
    if (← current).span.start = start then advance
    return first :: (← elementsTail type limit)

/-- Members in braces. -/
def elements (type : Parse TypeNode) : Parse (List TypeElement) := do
  expectPunctuator .openBrace
  let members ← elementsTail type (← remaining)
  expectPunctuator .closeBrace
  return members

/-- Whether an arrow follows the parenthesis that closes `depth` open ones. -/
def arrowFollows : (depth : Nat) → List Token → Bool
  | _, [] => false
  | depth, token :: rest =>
    match token.kind with
    | .punctuator .openParen => arrowFollows (depth + 1) rest
    | .punctuator .closeParen =>
      if depth ≤ 1 then
        match rest with
        | [] => false
        | next :: _ => next.kind = .punctuator .arrow
      else arrowFollows (depth - 1) rest
    | _ => arrowFollows depth rest

/-- Whether the current parenthesis opens the parameters of a function type. -/
def startsFunctionType : Parse Bool := do
  let s ← get
  return arrowFollows 0 (s.current :: s.upcoming)

/-- A type that is neither a union nor an array. -/
def primaryType (type : Parse TypeNode) : Parse TypeNode := do
  let token ← current
  let start := token.span.start
  match TypeWord.ofToken? token.kind, Literal.ofToken? token with
  | some word, _ =>
    advance
    return .word (← newNode token.span) word
  | none, some value =>
    advance
    let constant ← newNode token.span
    return .literal (← closeNode start) constant value
  | none, none =>
    if token.kind = .punctuator .openBrace then
      let members ← elements type
      return .object (← closeNode start) members
    else if token.kind = .punctuator .openParen then
      if ← startsFunctionType then
        let values ← parameters type
        expectPunctuator .arrow
        let result ← type
        return .function (← closeNode start) values result
      else
        advance
        let inner ← type
        expectPunctuator .closeParen
        return .parenthesized (← closeNode start) inner
    else if token.kind.isName then
      let name ← identifier
      return .reference (← closeNode start) name
    else missingType

/-- The brackets that follow a type on its line, at most `limit` of them. -/
def arrayTail (start : Nat) : (limit : Nat) → TypeNode → Parse TypeNode
  | 0, element => return element
  | limit + 1, element => do
    let token ← current
    if token.kind = .punctuator .openBracket && !token.afterLineBreak then
      advance
      expectPunctuator .closeBracket
      arrayTail start limit (.array (← closeNode start) element)
    else return element

/-- A primary type or an array over one. -/
def arrayType (type : Parse TypeNode) : Parse TypeNode := do
  let start := (← current).span.start
  let element ← primaryType type
  arrayTail start (← remaining) element

/-- The further members of a union, at most `limit` of them. -/
def unionTail (type : Parse TypeNode) : (limit : Nat) → Parse (List TypeNode)
  | 0 => return []
  | limit + 1 => do
    if ← accept .bar then
      let member ← arrayType type
      return member :: (← unionTail type limit)
    else return []

/-- A union, which may start with a bar, or its only member. -/
def unionType (type : Parse TypeNode) : Parse TypeNode := do
  let start := (← current).span.start
  let _ ← accept .bar
  let first ← arrayType type
  let others ← unionTail type (← remaining)
  if others.isEmpty then return first
  else return .union (← closeNode start) (first :: others)

/-- The reader of types that may nest `depth` levels further. -/
def nestedType : (depth : Nat) → Parse TypeNode
  | 0 => missingType
  | depth + 1 => unionType (nestedType depth)

/-- Reads a type. -/
def typeNode : Parse TypeNode :=
  nestedType depthLimit

end Parse

end ExpressionTyping
