import ExpressionTyping.Grammar.State

/-!
# The grammar of expressions

Expressions are read by levels: assignment, choice, binary operators by precedence, operators in
front, then a primary expression with its members, keys and calls. A level that nests another
expression inside itself is given the reader for it, and that reader has one level of depth less to
spend; at the depth limit it reads nothing and reports a missing expression. Chains of operators,
members and calls are loops and spend no depth.
-/

set_option autoImplicit false

namespace ExpressionTyping

namespace Parse

/-- A missing expression. -/
def missing : Parse Expr := do
  report .expressionExpected
  let start := (← current).span.start
  return .missing (← newNode ⟨start, start⟩)

/-- A name, a literal or an expression in parentheses. -/
def primary (assignment : Parse Expr) : Parse Expr := do
  let token ← current
  if token.kind.isName then
    return .identifier (← identifier)
  else match Literal.ofToken? token with
    | some value =>
      advance
      return .literal (← newNode token.span) value
    | none =>
      if ← accept .openParen then
        let inner ← assignment
        expectPunctuator .closeParen
        return .parenthesized (← closeNode token.span.start) inner
      else missing

/-- Arguments up to the closing parenthesis, at most `limit` of them. -/
def argumentsTail (assignment : Parse Expr) : (limit : Nat) → Parse (List Expr)
  | 0 => return []
  | limit + 1 => do
    if (← isAtPunctuator .closeParen) || (← isAt .endOfText) then return []
    let argument ← assignment
    if ← accept .comma then
      return argument :: (← argumentsTail assignment limit)
    else return [argument]

/-- Arguments in parentheses. -/
def arguments (assignment : Parse Expr) : Parse (List Expr) := do
  expectPunctuator .openParen
  let values ← argumentsTail assignment (← remaining)
  expectPunctuator .closeParen
  return values

/-- The members, keys and calls that follow an expression, at most `limit` of them. -/
def accessTail (assignment : Parse Expr) : (limit : Nat) → Expr → Parse Expr
  | 0, e => return e
  | limit + 1, e => do
    let start := e.span.start
    if ← accept .dot then
      let name ← memberName
      accessTail assignment limit (.member (← closeNode start) e name)
    else if ← accept .openBracket then
      let key ← assignment
      expectPunctuator .closeBracket
      accessTail assignment limit (.element (← closeNode start) e key)
    else if ← isAtPunctuator .openParen then
      let values ← arguments assignment
      accessTail assignment limit (.call (← closeNode start) e values)
    else return e

/-- A primary expression with its members, keys and calls. -/
def access (assignment : Parse Expr) : Parse Expr := do
  let e ← primary assignment
  accessTail assignment (← remaining) e

/-- Operators in front of an operand. The operand has its own reader, or none at the depth limit. -/
def unary (assignment : Parse Expr) (operand? : Option (Parse Expr)) : Parse Expr := do
  let token ← current
  match UnaryOp.ofToken? token.kind, operand? with
  | none, _ => access assignment
  | some _, none => missing
  | some op, some operand =>
    advance
    let e ← operand
    return .unary (← closeNode token.span.start) op e

/-- The operators above a bound that follow a left operand, at most `limit` of them counting those
of right operands. -/
def binaryTail (operand : Parse Expr) : (limit : Nat) → (bound : Precedence) → Expr → Parse Expr
  | 0, _, left => return left
  | limit + 1, bound, left => do
    let token ← current
    match BinaryOp.ofToken? token.kind with
    | none => return left
    | some op =>
      if bound.rank < op.precedence.rank then
        advance
        let right ← binaryTail operand limit op.precedence.rightFloor (← operand)
        let node ← closeNode left.span.start
        binaryTail operand limit bound (.binary node left op token.span right)
      else return left

/-- Operands joined by binary operators. -/
def binary (operand : Parse Expr) : Parse Expr := do
  let left ← operand
  binaryTail operand (← remaining) .floor left

/-- A choice between two expressions, or a binary expression alone. -/
def conditional (assignment operand : Parse Expr) : Parse Expr := do
  let condition ← binary operand
  if ← accept .question then
    let whenTrue ← assignment
    expectPunctuator .colon
    let whenFalse ← assignment
    return .conditional (← closeNode condition.span.start) condition whenTrue whenFalse
  else return condition

/-- An assignment, which groups to the right, or a choice alone. -/
def assignment (nested operand : Parse Expr) : Parse Expr := do
  let target ← conditional nested operand
  match ← accept? .equals with
  | some mark =>
    let value ← nested
    return .assign (← closeNode target.span.start) target mark value
  | none => return target

/-- The readers of nested expressions. -/
structure Nested where
  /-- Reads any expression. -/
  assignment : Parse Expr
  /-- Reads an operand with the operators in front of it. -/
  unary : Parse Expr

/-- The readers that may nest `depth` levels further. -/
def nested : (depth : Nat) → Nested
  | 0 => ⟨missing, unary missing none⟩
  | depth + 1 =>
    let inner := nested depth
    let outer := assignment inner.assignment inner.unary
    ⟨outer, unary outer (some inner.unary)⟩

/-- Reads an expression. -/
def expression : Parse Expr :=
  (nested depthLimit).assignment

end Parse

end ExpressionTyping
