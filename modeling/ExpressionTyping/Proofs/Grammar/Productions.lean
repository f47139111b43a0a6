import ExpressionTyping.Grammar.Basic
import ExpressionTyping.Proofs.Grammar.Step

/-!
# The productions of the grammar and their calls

The loops of the grammar are given a limit, and its levels are given the readers of the levels below
them. Here the grammar is written down without either: each parse is a `Production`, each round of a
loop is one more call of it, and what a production does is a `Plan` in which calls of productions
stand as such. Nothing in a plan bounds how often or how deeply productions call each other.

A plan need not come to an end. What it does when it does is `Plan.Ends`, which is made of finitely
many steps by definition, and the calls that it makes on the way, whether they come back or not, are
`Plan.Calls`.
-/

set_option autoImplicit false

namespace ExpressionTyping

/-- The parses of the grammar, each with what it is given. They are listed so that before it takes a
token, a production calls only such as stand above it. The names are those of the parses; a depth
is the number of levels that may be nested further. -/
inductive Production where
  | arrow (depth : Nat)
  | optionalType (depth : Nat)
  | parameter (depth : Nat)
  | parametersTail (depth : Nat) (afterRest : Bool)
  | parameters (depth : Nat)
  | element (depth : Nat)
  | elementsTail (depth : Nat)
  | elements (depth : Nat)
  | primaryType (depth : Nat)
  | arrayTail (start : Nat) (inner : TypeNode)
  | arrayType (depth : Nat)
  | unionTail (depth : Nat)
  | unionType (depth : Nat)
  | typeNode (depth : Nat)
  | primary (depth : Nat)
  | accessTail (depth : Nat) (e : Expr)
  | access (depth : Nat)
  | unary (depth : Nat)
  | binaryTail (depth : Nat) (bound : Precedence) (left : Expr)
  | binary (depth : Nat) (bound : Precedence)
  | conditional (depth : Nat)
  | assignment (depth : Nat)
  | argumentsTail (depth : Nat)
  | arguments (depth : Nat)
  | variableDeclaration
  | variablesTail
  | variableStatement (start : Nat) (ambient : Bool) (form : VariableForm)
  | functionDeclaration (start : Nat) (ambient : Bool)
  | interfaceDeclaration (start : Nat)
  | aliasDeclaration (start : Nat)
  | expressionStatement
  | declaration (start : Nat) (ambient : Bool)
  | statement
  | statements
  | wholeExpression
  | wholeFile (name : String) (text : List Char)

/-- What a production reads. -/
abbrev Production.Result : Production → Type
  | arrow _ => Bool
  | optionalType _ => Option TypeNode
  | parameter _ => Parameter
  | parametersTail _ _ | parameters _ => List Parameter
  | element _ => TypeElement
  | elementsTail _ | elements _ => List TypeElement
  | primaryType _ | arrayTail _ _ | arrayType _ | unionType _ | typeNode _ => TypeNode
  | unionTail _ => List TypeNode
  | primary _ | accessTail _ _ | access _ | unary _ | binaryTail _ _ _ | binary _ _ | conditional _
  | assignment _ => Expr
  | argumentsTail _ | arguments _ => List Expr
  | variableDeclaration => VariableDeclaration
  | variablesTail => List VariableDeclaration
  | variableStatement _ _ _ | functionDeclaration _ _ | interfaceDeclaration _ | aliasDeclaration _
  | expressionStatement | declaration _ _ | statement => Statement
  | statements => List Statement
  | wholeExpression => Expr
  | wholeFile _ _ => SourceFile

/-- What a production does: steps of a parse and calls of productions, each followed by what depends
on its answer. -/
inductive Plan (α : Type) where
  /-- The plan ends. -/
  | done (result : α)
  /-- Looks at the current token. -/
  | look (next : Token → Plan α)
  /-- Asks where the token taken last ended. -/
  | lookBack (next : Nat → Plan α)
  /-- Looks ahead for the kind of the next token. -/
  | lookAhead (next : TokenKind → Plan α)
  /-- Takes the current token. -/
  | take (next : Plan α)
  /-- Reports a problem at the current token. -/
  | tell (problem : Problem) (next : Plan α)
  /-- Numbers a node. -/
  | number (span : Span) (next : Node → Plan α)
  /-- Calls a production. -/
  | ask (callee : Production) (next : callee.Result → Plan α)
  /-- Calls a production to look ahead, and goes back to where it was called. -/
  | scout (callee : Production) (next : callee.Result → Plan α)

namespace Plan

variable {α β : Type}

/-- One plan after another. -/
def bind : Plan α → (α → Plan β) → Plan β
  | done result, f => f result
  | look next, f => look fun token => (next token).bind f
  | lookBack next, f => lookBack fun stop => (next stop).bind f
  | lookAhead next, f => lookAhead fun kind => (next kind).bind f
  | take next, f => take (next.bind f)
  | tell problem next, f => tell problem (next.bind f)
  | number span next, f => number span fun node => (next node).bind f
  | ask callee next, f => ask callee fun result => (next result).bind f
  | scout callee next, f => scout callee fun result => (next result).bind f

instance : Monad Plan where
  pure := done
  bind := bind

/-! ## Steps -/

/-- The token the plan stands on. -/
def current : Plan Token :=
  look done

/-- The kind of the token after the current one. -/
def nextKind : Plan TokenKind :=
  lookAhead done

/-- Takes the current token. -/
def advance : Plan Unit :=
  take (done ())

/-- Reports a problem at the current token. -/
def report (problem : Problem) : Plan Unit :=
  tell problem (done ())

/-- A new node over a span. -/
def newNode (span : Span) : Plan Node :=
  number span done

/-- A new node from an offset to the end of the token taken last. -/
def closeNode (start : Nat) : Plan Node :=
  lookBack fun stop => newNode ⟨start, stop⟩

/-- Calls a production. -/
def call (callee : Production) : Plan callee.Result :=
  ask callee done

/-- Whether the current token is of a kind. -/
def isAt (kind : TokenKind) : Plan Bool := do
  return (← current).kind = kind

/-- Whether the current token is a punctuator. -/
def isAtPunctuator (p : Punctuator) : Plan Bool :=
  isAt (.punctuator p)

/-- Takes a punctuator or reports that it is missing. -/
def expectPunctuator (p : Punctuator) : Plan Unit := do
  if ← isAtPunctuator p then advance
  else report (.tokenExpected ((TokenKind.punctuator p).text?.getD "token"))

/-- Takes a punctuator if it is there, and gives its span. -/
def accept? (p : Punctuator) : Plan (Option Span) := do
  if ← isAtPunctuator p then
    let token ← current
    advance
    return some token.span
  else return none

/-- Takes a punctuator if it is there, and says whether it was. -/
def accept (p : Punctuator) : Plan Bool := do
  return (← accept? p).isSome

/-- The name that the current token spells, or a missing name. -/
def identifier : Plan Identifier := do
  let token ← current
  if token.kind.isName then
    advance
    return ⟨← newNode token.span, token.value⟩
  else
    report .identifierExpected
    return ⟨← newNode ⟨token.span.start, token.span.start⟩, ""⟩

/-- The name of a member, which may be any keyword. -/
def memberName : Plan Identifier := do
  let token ← current
  if token.kind.isKeyword then
    advance
    return ⟨← newNode token.span, token.value⟩
  else identifier

/-! ## Expressions -/

/-- A missing expression. -/
def missing : Plan Expr := do
  report .expressionExpected
  let start := (← current).span.start
  return .missing (← newNode ⟨start, start⟩)

/-- A name, a literal or an expression in parentheses. -/
def primary (depth : Nat) : Plan Expr := do
  let token ← current
  if token.kind.isName then
    return .identifier (← identifier)
  else match Literal.ofToken? token with
    | some value =>
      advance
      return .literal (← newNode token.span) value
    | none =>
      if ← accept .openParen then
        let inner ← call (.assignment depth)
        expectPunctuator .closeParen
        return .parenthesized (← closeNode token.span.start) inner
      else missing

/-- Arguments up to the closing parenthesis. -/
def argumentsTail (depth : Nat) : Plan (List Expr) := do
  if (← isAtPunctuator .closeParen) || (← isAt .endOfText) then return []
  let argument ← call (.assignment depth)
  if ← accept .comma then
    return argument :: (← call (.argumentsTail depth))
  else return [argument]

/-- Arguments in parentheses. -/
def arguments (depth : Nat) : Plan (List Expr) := do
  expectPunctuator .openParen
  let values ← call (.argumentsTail depth)
  expectPunctuator .closeParen
  return values

/-- The members, keys and calls that follow an expression. -/
def accessTail (depth : Nat) (e : Expr) : Plan Expr := do
  let start := e.span.start
  if ← accept .dot then
    let name ← memberName
    call (.accessTail depth (.member (← closeNode start) e name))
  else if ← accept .openBracket then
    let key ← call (.assignment depth)
    expectPunctuator .closeBracket
    call (.accessTail depth (.element (← closeNode start) e key))
  else if ← isAtPunctuator .openParen then
    let values ← call (.arguments depth)
    call (.accessTail depth (.call (← closeNode start) e values))
  else return e

/-- A primary expression with its members, keys and calls. -/
def access (depth : Nat) : Plan Expr := do
  let e ← call (.primary depth)
  call (.accessTail depth e)

/-- Operators in front of an operand. -/
def unary (depth : Nat) : Plan Expr := do
  let token ← current
  match UnaryOp.ofToken? token.kind, depth with
  | none, _ => call (.access depth)
  | some _, 0 => missing
  | some op, depth + 1 =>
    advance
    let e ← call (.unary depth)
    return .unary (← closeNode token.span.start) op e

/-- The operators above a bound that follow a left operand. -/
def binaryTail (depth : Nat) (bound : Precedence) (left : Expr) : Plan Expr := do
  let token ← current
  match BinaryOp.ofToken? token.kind with
  | none => return left
  | some op =>
    if bound.rank < op.precedence.rank then
      advance
      let right ← call (.binary depth op.precedence.rightFloor)
      let node ← closeNode left.span.start
      call (.binaryTail depth bound (.binary node left op token.span right))
    else return left

/-- Operands joined by binary operators above a bound. -/
def binary (depth : Nat) (bound : Precedence) : Plan Expr := do
  let left ← call (.unary depth)
  call (.binaryTail depth bound left)

/-- A choice between two expressions, or a binary expression alone. -/
def conditional (depth : Nat) : Plan Expr := do
  let condition ← call (.binary depth .floor)
  if ← accept .question then
    let whenTrue ← call (.assignment depth)
    expectPunctuator .colon
    let whenFalse ← call (.assignment depth)
    return .conditional (← closeNode condition.span.start) condition whenTrue whenFalse
  else return condition

/-- An assignment, which groups to the right, or a choice alone. -/
def assignment : (depth : Nat) → Plan Expr
  | 0 => missing
  | depth + 1 => do
    let target ← call (.conditional depth)
    match ← accept? .equals with
    | some mark =>
      let value ← call (.assignment depth)
      return .assign (← closeNode target.span.start) target mark value
    | none => return target

/-! ## Types -/

/-- A missing type: an `any` of no width. -/
def missingType : Plan TypeNode := do
  report .typeExpected
  let start := (← current).span.start
  return .word (← newNode ⟨start, start⟩) .any

/-- The type after a colon, if there is one. -/
def optionalType (depth : Nat) : Plan (Option TypeNode) := do
  if ← accept .colon then return some (← call (.typeNode depth)) else return none

/-- A parameter. -/
def parameter (depth : Nat) : Plan Parameter := do
  let start := (← current).span.start
  let rest ← accept? .ellipsis
  let name ← identifier
  let _ ← accept .question
  let written ← call (.optionalType depth)
  return .mk (← closeNode start) rest name written

/-- Parameters up to the closing parenthesis. -/
def parametersTail (depth : Nat) (afterRest : Bool) : Plan (List Parameter) := do
  if (← isAtPunctuator .closeParen) || (← isAt .endOfText) then return []
  if afterRest then report .restParameterNotLast
  let first ← call (.parameter depth)
  if ← accept .comma then
    return first :: (← call (.parametersTail depth first.isRest))
  else return [first]

/-- Parameters in parentheses. -/
def parameters (depth : Nat) : Plan (List Parameter) := do
  expectPunctuator .openParen
  let values ← call (.parametersTail depth false)
  expectPunctuator .closeParen
  return values

/-- A member of an object type. -/
def element (depth : Nat) : Plan TypeElement := do
  let start := (← current).span.start
  let name ← memberName
  let _ ← accept .question
  if ← isAtPunctuator .openParen then
    let values ← call (.parameters depth)
    let result ← call (.optionalType depth)
    return .method (← closeNode start) name values result
  else
    let written ← call (.optionalType depth)
    return .property (← closeNode start) name written

/-- Members up to the closing brace. A token that no member takes is passed over. -/
def elementsTail (depth : Nat) : Plan (List TypeElement) := do
  if (← isAtPunctuator .closeBrace) || (← isAt .endOfText) then return []
  let start := (← current).span.start
  let first ← call (.element depth)
  unless ← accept .semicolon do
    let _ ← accept .comma
  if (← current).span.start = start then advance
  return first :: (← call (.elementsTail depth))

/-- Members in braces. -/
def elements (depth : Nat) : Plan (List TypeElement) := do
  expectPunctuator .openBrace
  let members ← call (.elementsTail depth)
  expectPunctuator .closeBrace
  return members

/-- Whether an arrow follows the parenthesis that closes `depth` open ones. -/
def arrow (depth : Nat) : Plan Bool := do
  match (← current).kind with
  | .endOfText => return false
  | .punctuator .openParen =>
    advance
    call (.arrow (depth + 1))
  | .punctuator .closeParen =>
    advance
    if depth ≤ 1 then return (← current).kind = .punctuator .arrow
    else call (.arrow (depth - 1))
  | _ =>
    advance
    call (.arrow depth)

/-- Whether the current parenthesis opens the parameters of a function type. -/
def startsFunctionType : Plan Bool :=
  scout (.arrow 0) done

/-- A type that is neither a union nor an array. -/
def primaryType (depth : Nat) : Plan TypeNode := do
  let token ← current
  let start := token.span.start
  match TypeWord.ofToken? token.kind, Literal.ofToken? token with
  | some word, _ =>
    advance
    return .word (← newNode token.span) word
  | none, some value =>
    advance
    let constant ← newNode token.span
    return .literal (← closeNode start) constant value
  | none, none =>
    if token.kind = .punctuator .openBrace then
      let members ← call (.elements depth)
      return .object (← closeNode start) members
    else if token.kind = .punctuator .openParen then
      if ← startsFunctionType then
        let values ← call (.parameters depth)
        expectPunctuator .arrow
        let result ← call (.typeNode depth)
        return .function (← closeNode start) values result
      else
        advance
        let inner ← call (.typeNode depth)
        expectPunctuator .closeParen
        return .parenthesized (← closeNode start) inner
    else if token.kind.isName then
      let name ← identifier
      return .reference (← closeNode start) name
    else missingType

/-- The brackets that follow a type on its line. -/
def arrayTail (start : Nat) (element : TypeNode) : Plan TypeNode := do
  let token ← current
  if token.kind = .punctuator .openBracket && !token.afterLineBreak then
    advance
    expectPunctuator .closeBracket
    call (.arrayTail start (.array (← closeNode start) element))
  else return element

/-- A primary type or an array over one. -/
def arrayType (depth : Nat) : Plan TypeNode := do
  let start := (← current).span.start
  let element ← call (.primaryType depth)
  call (.arrayTail start element)

/-- The further members of a union. -/
def unionTail (depth : Nat) : Plan (List TypeNode) := do
  if ← accept .bar then
    let member ← call (.arrayType depth)
    return member :: (← call (.unionTail depth))
  else return []

/-- A union, which may start with a bar, or its only member. -/
def unionType (depth : Nat) : Plan TypeNode := do
  let start := (← current).span.start
  let _ ← accept .bar
  let first ← call (.arrayType depth)
  let others ← call (.unionTail depth)
  if others.isEmpty then return first
  else return .union (← closeNode start) (first :: others)

/-- A type that may nest `depth` levels. -/
def typeNode : (depth : Nat) → Plan TypeNode
  | 0 => missingType
  | depth + 1 => call (.unionType depth)

/-! ## Statements -/

/-- The end of a statement. -/
def endStatement : Plan Unit := do
  let token ← current
  if token.kind = .punctuator .semicolon then advance
  else if token.afterLineBreak || token.kind = .punctuator .closeBrace || token.kind = .endOfText then
    return ()
  else report (.tokenExpected ";")

/-- One variable with its type and value. -/
def variableDeclaration : Plan VariableDeclaration := do
  let start := (← current).span.start
  let name ← identifier
  let written ← call (.optionalType Parse.depthLimit)
  let initializer ← do
    if ← accept .equals then pure (some (← call (.assignment Parse.depthLimit))) else pure none
  return ⟨← closeNode start, name, written, initializer⟩

/-- Variables separated by commas. -/
def variablesTail : Plan (List VariableDeclaration) := do
  let first ← call .variableDeclaration
  if ← accept .comma then
    return first :: (← call .variablesTail)
  else return [first]

/-- A declaration of variables, from the word that starts it. -/
def variableStatement (start : Nat) (ambient : Bool) (form : VariableForm) : Plan Statement := do
  let listStart := (← current).span.start
  advance
  let declarations ← call .variablesTail
  let list ← closeNode listStart
  endStatement
  return .variableList ⟨← closeNode start, ambient, list, form, declarations⟩

/-- A declaration of a function, from the word that starts it. -/
def functionDeclaration (start : Nat) (ambient : Bool) : Plan Statement := do
  advance
  let name ← identifier
  let values ← call (.parameters Parse.depthLimit)
  let result ← call (.optionalType Parse.depthLimit)
  endStatement
  return .function ⟨← closeNode start, ambient, name, values, result⟩

/-- A declaration of an interface, from the word that starts it. -/
def interfaceDeclaration (start : Nat) : Plan Statement := do
  advance
  let name ← identifier
  let members ← call (.elements Parse.depthLimit)
  return .interface ⟨← closeNode start, name, members⟩

/-- A declaration of a type alias, from the word that starts it. -/
def aliasDeclaration (start : Nat) : Plan Statement := do
  advance
  let name ← identifier
  expectPunctuator .equals
  let type ← call (.typeNode Parse.depthLimit)
  endStatement
  return .typeAlias ⟨← closeNode start, name, type⟩

/-- An expression as a statement. -/
def expressionStatement : Plan Statement := do
  let start := (← current).span.start
  let value ← call (.assignment Parse.depthLimit)
  endStatement
  return .expression (← closeNode start) value

/-- A declaration that starts at an offset, or else an expression. -/
def declaration (start : Nat) (ambient : Bool) : Plan Statement := do
  match (← current).kind with
  | .keyword .varWord => call (.variableStatement start ambient .hoisted)
  | .keyword .constWord => call (.variableStatement start ambient .constant)
  | .keyword .letWord =>
    if (← nextKind).isName then call (.variableStatement start ambient .block)
    else call .expressionStatement
  | .keyword .functionWord => call (.functionDeclaration start ambient)
  | .keyword .interfaceWord =>
    if (← nextKind).isName then call (.interfaceDeclaration start) else call .expressionStatement
  | .keyword .typeWord =>
    if (← nextKind).isName then call (.aliasDeclaration start) else call .expressionStatement
  | _ => call .expressionStatement

/-- A statement. -/
def statement : Plan Statement := do
  let token ← current
  let start := token.span.start
  match token.kind with
  | .punctuator .semicolon =>
    advance
    return .empty (← newNode token.span)
  | .punctuator .openBrace =>
    advance
    let statements ← call .statements
    expectPunctuator .closeBrace
    return .block (← closeNode start) statements
  | .keyword .declareWord =>
    if Parse.startsDeclaration (← nextKind) then
      advance
      call (.declaration start true)
    else call (.declaration start false)
  | _ => call (.declaration start false)

/-- Statements up to a closing brace or the end of the text. A token that no statement takes is
reported and passed over. -/
def statements : Plan (List Statement) := do
  if (← isAt .endOfText) || (← isAtPunctuator .closeBrace) then return []
  let start := (← current).span.start
  let first ← call .statement
  let token ← current
  if token.span.start = start && token.kind != .endOfText then
    report .statementExpected
    advance
  return first :: (← call .statements)

/-! ## Texts -/

/-- One expression; the token after it, if any, is reported. -/
def wholeExpression : Plan Expr := do
  let e ← call (.assignment Parse.depthLimit)
  let token ← current
  unless token.kind = .endOfText do
    report (.unexpectedToken token.text)
  return e

/-- A declaration file of a name and a text. -/
def wholeFile (name : String) (text : List Char) : Plan SourceFile := do
  let content ← call .statements
  return ⟨← newNode ⟨0, text.length⟩, content, name, text⟩

end Plan

/-- What a production does. -/
def Production.plan : (callee : Production) → Plan callee.Result
  | arrow depth => Plan.arrow depth
  | optionalType depth => Plan.optionalType depth
  | parameter depth => Plan.parameter depth
  | parametersTail depth afterRest => Plan.parametersTail depth afterRest
  | parameters depth => Plan.parameters depth
  | element depth => Plan.element depth
  | elementsTail depth => Plan.elementsTail depth
  | elements depth => Plan.elements depth
  | primaryType depth => Plan.primaryType depth
  | arrayTail start inner => Plan.arrayTail start inner
  | arrayType depth => Plan.arrayType depth
  | unionTail depth => Plan.unionTail depth
  | unionType depth => Plan.unionType depth
  | typeNode depth => Plan.typeNode depth
  | primary depth => Plan.primary depth
  | accessTail depth e => Plan.accessTail depth e
  | access depth => Plan.access depth
  | unary depth => Plan.unary depth
  | binaryTail depth bound left => Plan.binaryTail depth bound left
  | binary depth bound => Plan.binary depth bound
  | conditional depth => Plan.conditional depth
  | assignment depth => Plan.assignment depth
  | argumentsTail depth => Plan.argumentsTail depth
  | arguments depth => Plan.arguments depth
  | variableDeclaration => Plan.variableDeclaration
  | variablesTail => Plan.variablesTail
  | variableStatement start ambient form => Plan.variableStatement start ambient form
  | functionDeclaration start ambient => Plan.functionDeclaration start ambient
  | interfaceDeclaration start => Plan.interfaceDeclaration start
  | aliasDeclaration start => Plan.aliasDeclaration start
  | expressionStatement => Plan.expressionStatement
  | declaration start ambient => Plan.declaration start ambient
  | statement => Plan.statement
  | statements => Plan.statements
  | wholeExpression => Plan.wholeExpression
  | wholeFile name text => Plan.wholeFile name text

/-! ## Runs of plans -/

/-- A production called in a state. -/
structure Activation where
  /-- The production. -/
  production : Production
  /-- The state in which it is called. -/
  state : ParseState

namespace Plan

/-- From a state a plan comes to an end, with a result and in a state. -/
inductive Ends : {α : Type} → Plan α → ParseState → α → ParseState → Prop where
  | done {α : Type} {result : α} {s : ParseState} : Ends (done result) s result s
  | look {α : Type} {next : Token → Plan α} {s s' : ParseState} {result : α}
      (h : Ends (next s.current) s result s') : Ends (look next) s result s'
  | lookBack {α : Type} {next : Nat → Plan α} {s s' : ParseState} {result : α}
      (h : Ends (next s.previousStop) s result s') : Ends (lookBack next) s result s'
  | lookAhead {α : Type} {next : TokenKind → Plan α} {s s' : ParseState} {result : α}
      (h : Ends (next (Parse.nextKind.run s).1) s result s') : Ends (lookAhead next) s result s'
  | take {α : Type} {next : Plan α} {s s' : ParseState} {result : α}
      (h : Ends next s.taken result s') : Ends (take next) s result s'
  | tell {α : Type} {problem : Problem} {next : Plan α} {s s' : ParseState} {result : α}
      (h : Ends next ((Parse.report problem).run s).2 result s') :
      Ends (tell problem next) s result s'
  | number {α : Type} {span : Span} {next : Node → Plan α} {s s' : ParseState} {result : α}
      (h : Ends (next ⟨s.nextId, span⟩) s.numbered result s') :
      Ends (number span next) s result s'
  | ask {α : Type} {callee : Production} {next : callee.Result → Plan α}
      {s s₁ s' : ParseState} {answer : callee.Result} {result : α}
      (called : Ends callee.plan s answer s₁) (h : Ends (next answer) s₁ result s') :
      Ends (ask callee next) s result s'
  | scout {α : Type} {callee : Production} {next : callee.Result → Plan α}
      {s s₁ s' : ParseState} {answer : callee.Result} {result : α}
      (called : Ends callee.plan s answer s₁) (h : Ends (next answer) s result s') :
      Ends (scout callee next) s result s'

/-- From a state a plan calls a production. What stands after a call is done only if the call comes
to an end. -/
def Calls {α : Type} : Plan α → ParseState → Activation → Prop
  | done _, _, _ => False
  | look next, s, called => (next s.current).Calls s called
  | lookBack next, s, called => (next s.previousStop).Calls s called
  | lookAhead next, s, called => (next (Parse.nextKind.run s).1).Calls s called
  | take next, s, called => next.Calls s.taken called
  | tell problem next, s, called => next.Calls ((Parse.report problem).run s).2 called
  | number span next, s, called => (next ⟨s.nextId, span⟩).Calls s.numbered called
  | ask callee next, s, called => called = ⟨callee, s⟩ ∨
      ∃ answer s', callee.plan.Ends s answer s' ∧ (next answer).Calls s' called
  | scout callee next, s, called => called = ⟨callee, s⟩ ∨
      ∃ answer s', callee.plan.Ends s answer s' ∧ (next answer).Calls s called

end Plan

/-- One activation calls another. -/
def Activation.Calls (caller called : Activation) : Prop :=
  caller.production.plan.Calls caller.state called

end ExpressionTyping
