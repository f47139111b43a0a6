import ExpressionTyping.Syntax.Expr
import ExpressionTyping.Typing.Basic

/-!
# Rules for expressions

Each form of expression has a rule that looks at the types of its parts. A rule says what is wrong
with the expression itself and what type it has. Operands of type `any` are never wrong.
-/

set_option autoImplicit false

namespace ExpressionTyping

/-- The type that a rule gives: that of a part, or the canonical one of a kind. -/
inductive Outcome (τ : Type) where
  | given (type : τ)
  | canonical (kind : TypeKind)

/-- What a rule says: what is wrong, and the type. -/
structure Verdict (τ : Type) where
  /-- What is wrong with the expression itself. -/
  issues : List Issue
  /-- The type of the expression. -/
  outcome : Outcome τ

namespace Rule

open TypeView

variable {τ : Type}

/-- Nothing is wrong, and the type is the canonical one of a kind. -/
def plain (kind : TypeKind) : Verdict τ :=
  ⟨[], .canonical kind⟩

/-- A problem at a span unless a condition holds. -/
def require (condition : Bool) (span : Span) (problem : Problem) : List Issue :=
  if condition then [] else [⟨span, problem⟩]

/-- A name has the type it is bound to; `undefined` need not be bound. -/
def identifier (scope : SymbolTable τ) (name : Identifier) : Verdict τ :=
  match scope.get? name.text with
  | some type => ⟨[], .given type⟩
  | none =>
    if name.text = "undefined" then plain .undefined
    else ⟨[⟨name.node.span, .undefinedName name.text⟩], .canonical .any⟩

/-- The kind of a literal. -/
def literalKind : Literal → TypeKind
  | .string _ | .template _ => .string
  | .number _ => .number
  | .boolean _ => .boolean
  | .null => .null

/-- The kind of the result of an operator in front. -/
def unaryKind : UnaryOp → TypeKind
  | .not => .boolean
  | .typeOf => .string
  | .void => .undefined
  | .plus | .minus | .complement => .number

variable [TypeView τ]

/-- The left type if both have the same kind, else `any`. -/
def agreeing (left right : τ) : Outcome τ :=
  if kind left = kind right then .given left else .canonical .any

/-- A member of an object, a function or another structured type has to exist; a member of any other
type is `any`. -/
def member (object : τ) (name : Identifier) : Verdict τ :=
  match kind object with
  | .object | .function | .other =>
    match (members object).get? name.text with
    | some type => ⟨[], .given type⟩
    | none =>
      ⟨[⟨name.node.span, .missingMember name.text (TypeView.name object)⟩], .canonical .any⟩
  | _ => plain .any

/-- A call has the result of the first signature that accepts the number of arguments. A plain
function without signatures may be called with any arguments. -/
def call (callSpan calleeSpan : Span) (callee : τ) (count : Nat) : Verdict τ :=
  if kind callee = .any then plain .any
  else match (signatures callee).find? fun signature => signature.arguments.accepts count with
    | some signature => ⟨[], .given signature.result⟩
    | none =>
      match signatures callee with
      | first :: _ =>
        let problem :=
          if first.arguments.isFixed then Problem.argumentCount first.arguments.least count
          else Problem.tooFewArguments first.arguments.least count
        ⟨[⟨callSpan, problem⟩], .canonical .any⟩
      | [] =>
        if kind callee = .function then plain .any
        else ⟨[⟨calleeSpan, .notCallable (name callee)⟩], .canonical .any⟩

/-- Whether a kind may stand in arithmetic. -/
def isNumeric : TypeKind → Bool
  | .number | .any => true
  | _ => false

/-- Whether a kind may be searched by `in` or tested by `instanceof`. -/
def isObject : TypeKind → Bool
  | .object | .any => true
  | _ => false

/-- Whether a kind may stand on the right of `instanceof`. -/
def isFunction : TypeKind → Bool
  | .function | .any => true
  | _ => false

/-- Whether a kind may be a key. -/
def isKey : TypeKind → Bool
  | .number | .string | .symbol | .any => true
  | _ => false

/-- Addition joins strings with anything, absorbs `any`, and adds numbers. -/
def add (span : Span) (left right : τ) : Verdict τ :=
  if kind left = .string ∨ kind right = .string then plain .string
  else if kind left = .any ∨ kind right = .any then plain .any
  else if kind left = .number ∧ kind right = .number then plain .number
  else ⟨[⟨span, .additionMismatch (name left) (name right)⟩], .canonical .any⟩

/-- The rule of a binary operator over the whole expression, its left operand and its right one. -/
def binary (op : BinaryOp) (span leftSpan rightSpan : Span) (left right : τ) : Verdict τ :=
  match op with
  | .multiply | .divide | .subtract | .remainder | .power =>
    ⟨require (isNumeric (kind left)) leftSpan .leftOperandNotNumber ++
      require (isNumeric (kind right)) rightSpan .rightOperandNotNumber, .canonical .number⟩
  | .add => add span left right
  | .instanceOf =>
    ⟨require (isObject (kind left)) leftSpan .instanceNotObject ++
      require (isFunction (kind right)) rightSpan .classNotFunction, .canonical .boolean⟩
  | .isIn =>
    ⟨require (isKey (kind left)) leftSpan .keyNotScalar ++
      require (isObject (kind right)) rightSpan .keyedNotObject, .canonical .boolean⟩
  | .equal | .notEqual | .strictEqual | .strictNotEqual | .less | .greater | .lessOrEqual
  | .greaterOrEqual => plain .boolean
  | .logicalAnd => ⟨[], .given right⟩
  | .logicalOr | .coalesce => ⟨[], agreeing left right⟩
  | .bitAnd | .bitOr | .bitXor | .shiftLeft | .shiftRight | .shiftRightUnsigned => plain .number

end Rule

end ExpressionTyping
