import ExpressionTyping.Typing.Rule

/-!
# Checking expressions

A check walks an expression, left to right, and keeps one list of what it has reported. The type of
an expression is found from the types of its parts, so what is wrong with an expression itself is
known only after its parts were walked; it is put in at a mark, the length the list had when the
walk came to the expression. Canonical types come from a repository, which may have to load them and
may fail. Below a depth limit expressions are not looked at: they have type `any`, and the first of
them is reported.
-/

set_option autoImplicit false

namespace ExpressionTyping

/-- What a check has reported so far. -/
structure CheckState where
  /-- What was reported, an expression before its parts. -/
  issues : List Issue
  /-- Whether nesting was reported, which is done once. -/
  nestingReported : Bool
deriving DecidableEq, Inhabited

namespace Check

variable {τ : Type} [TypeView τ] {m : Type → Type} [Monad m]

/-- The depth from which expressions are not looked at. -/
def depthLimit : Nat := 500

/-- Nothing has been reported. -/
def initial : CheckState := ⟨[], false⟩

/-- The place in the reports where the issues of the expression now walked belong. -/
def mark : StateT CheckState m Nat := do
  return (← get).issues.length

/-- Puts issues in at a mark, before everything reported since. -/
def emit (mark : Nat) (own : List Issue) : StateT CheckState m Unit :=
  modify fun s => { s with issues := s.issues.take mark ++ own ++ s.issues.drop mark }

/-- Settles what a rule says: the type is looked up if it is a canonical one, and the issues go in
at the mark. -/
def settle (canonical : TypeKind → m τ) (mark : Nat) (verdict : Verdict τ) :
    StateT CheckState m τ := do
  let type ← match verdict.outcome with
    | .given type => pure type
    | .canonical kind => canonical kind
  emit mark verdict.issues
  return type

/-- Stops at an expression below the depth limit. -/
def stopAt (canonical : TypeKind → m τ) (span : Span) : StateT CheckState m τ := do
  unless (← get).nestingReported do
    modify fun s => { s with nestingReported := true }
    emit (← mark) [⟨span, .tooDeeplyNested⟩]
  canonical .any

mutual

/-- Walks an expression at a depth and finds its type. -/
def visit (canonical : TypeKind → m τ) (scope : SymbolTable τ) (depth : Nat) (e : Expr) :
    StateT CheckState m τ := do
  if depthLimit ≤ depth then stopAt canonical e.span
  else
    let mark ← mark
    match e with
    | .identifier name => settle canonical mark (Rule.identifier scope name)
    | .literal _ value => settle canonical mark (Rule.plain (Rule.literalKind value))
    | .parenthesized _ inner => visit canonical scope (depth + 1) inner
    | .member _ object name =>
      let object ← visit canonical scope (depth + 1) object
      settle canonical mark (Rule.member object name)
    | .element _ object key =>
      let _ ← visit canonical scope (depth + 1) object
      let _ ← visit canonical scope (depth + 1) key
      settle canonical mark (Rule.plain .any)
    | .call node callee arguments =>
      let function ← visit canonical scope (depth + 1) callee
      visitAll canonical scope (depth + 1) arguments
      settle canonical mark (Rule.call node.span callee.span function arguments.length)
    | .unary _ op operand =>
      let _ ← visit canonical scope (depth + 1) operand
      settle canonical mark (Rule.plain (Rule.unaryKind op))
    | .binary node left op _ right =>
      let first ← visit canonical scope (depth + 1) left
      let second ← visit canonical scope (depth + 1) right
      settle canonical mark (Rule.binary op node.span left.span right.span first second)
    | .assign _ target _ value =>
      let _ ← visit canonical scope (depth + 1) target
      let type ← visit canonical scope (depth + 1) value
      settle canonical mark ⟨[], .given type⟩
    | .conditional _ condition whenTrue whenFalse =>
      let _ ← visit canonical scope (depth + 1) condition
      let first ← visit canonical scope (depth + 1) whenTrue
      let second ← visit canonical scope (depth + 1) whenFalse
      settle canonical mark ⟨[], Rule.agreeing first second⟩
    | .missing _ => settle canonical mark (Rule.plain .any)

/-- Walks expressions in order. -/
def visitAll (canonical : TypeKind → m τ) (scope : SymbolTable τ) (depth : Nat)
    (es : List Expr) : StateT CheckState m Unit := do
  match es with
  | [] => return ()
  | e :: rest =>
    let _ ← visit canonical scope depth e
    visitAll canonical scope depth rest

end

end Check

/-- What is wrong with an expression whose names are bound by a scope. -/
def Expr.check {τ : Type} [TypeView τ] {m : Type → Type} [Monad m] (canonical : TypeKind → m τ)
    (scope : SymbolTable τ) (e : Expr) : m (List Issue) := do
  let (_, final) ← (Check.visit canonical scope 0 e).run Check.initial
  return final.issues

end ExpressionTyping
