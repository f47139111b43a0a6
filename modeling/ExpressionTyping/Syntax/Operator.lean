import ExpressionTyping.Token.Kind

/-!
# Operators

Binary operators are ranked by how tightly they bind. An operator takes as its right operand only
what binds more tightly than itself, so that equal ranks group to the left; `**` also takes its own
rank on the right and so groups to the right.
-/

set_option autoImplicit false

namespace ExpressionTyping

/-- How tightly an operator binds, loosest first. -/
inductive Precedence where
  /-- Below every operator. -/
  | floor
  | coalesce
  | or
  | and
  | bitOr
  | bitXor
  | bitAnd
  | equality
  | relational
  | shift
  | additive
  | multiplicative
  | exponent
deriving DecidableEq, Inhabited

namespace Precedence

/-- The position of a precedence, loosest first. -/
def rank : Precedence → Nat
  | floor => 0
  | coalesce => 1
  | or => 2
  | and => 3
  | bitOr => 4
  | bitXor => 5
  | bitAnd => 6
  | equality => 7
  | relational => 8
  | shift => 9
  | additive => 10
  | multiplicative => 11
  | exponent => 12

/-- The name of a precedence in listings. -/
def label : Precedence → String
  | floor => "Floor"
  | coalesce => "Coalesce"
  | or => "Or"
  | and => "And"
  | bitOr => "BitOr"
  | bitXor => "BitXor"
  | bitAnd => "BitAnd"
  | equality => "Equality"
  | relational => "Relational"
  | shift => "Shift"
  | additive => "Additive"
  | multiplicative => "Multiplicative"
  | exponent => "Exponent"

/-- The precedence that operators of the right operand have to exceed. -/
def rightFloor : Precedence → Precedence
  | exponent => multiplicative
  | p => p

end Precedence

/-- The binary operators. -/
inductive BinaryOp where
  | coalesce
  | logicalOr
  | logicalAnd
  | bitOr
  | bitXor
  | bitAnd
  | equal
  | notEqual
  | strictEqual
  | strictNotEqual
  | less
  | greater
  | lessOrEqual
  | greaterOrEqual
  | instanceOf
  | isIn
  | shiftLeft
  | shiftRight
  | shiftRightUnsigned
  | add
  | subtract
  | multiply
  | divide
  | remainder
  | power
deriving DecidableEq, Inhabited

namespace BinaryOp

/-- The token that stands for an operator. -/
def token : BinaryOp → TokenKind
  | coalesce => .punctuator .questionQuestion
  | logicalOr => .punctuator .barBar
  | logicalAnd => .punctuator .ampersandAmpersand
  | bitOr => .punctuator .bar
  | bitXor => .punctuator .caret
  | bitAnd => .punctuator .ampersand
  | equal => .punctuator .equalsEquals
  | notEqual => .punctuator .bangEquals
  | strictEqual => .punctuator .equalsEqualsEquals
  | strictNotEqual => .punctuator .bangEqualsEquals
  | less => .punctuator .less
  | greater => .punctuator .greater
  | lessOrEqual => .punctuator .lessEquals
  | greaterOrEqual => .punctuator .greaterEquals
  | instanceOf => .keyword .instanceofWord
  | isIn => .keyword .inWord
  | shiftLeft => .punctuator .lessLess
  | shiftRight => .punctuator .greaterGreater
  | shiftRightUnsigned => .punctuator .greaterGreaterGreater
  | add => .punctuator .plus
  | subtract => .punctuator .minus
  | multiply => .punctuator .star
  | divide => .punctuator .slash
  | remainder => .punctuator .percent
  | power => .punctuator .starStar

/-- The operator that a token stands for between two operands. -/
def ofToken? : TokenKind → Option BinaryOp
  | .punctuator .questionQuestion => some coalesce
  | .punctuator .barBar => some logicalOr
  | .punctuator .ampersandAmpersand => some logicalAnd
  | .punctuator .bar => some bitOr
  | .punctuator .caret => some bitXor
  | .punctuator .ampersand => some bitAnd
  | .punctuator .equalsEquals => some equal
  | .punctuator .bangEquals => some notEqual
  | .punctuator .equalsEqualsEquals => some strictEqual
  | .punctuator .bangEqualsEquals => some strictNotEqual
  | .punctuator .less => some less
  | .punctuator .greater => some greater
  | .punctuator .lessEquals => some lessOrEqual
  | .punctuator .greaterEquals => some greaterOrEqual
  | .keyword .instanceofWord => some instanceOf
  | .keyword .inWord => some isIn
  | .punctuator .lessLess => some shiftLeft
  | .punctuator .greaterGreater => some shiftRight
  | .punctuator .greaterGreaterGreater => some shiftRightUnsigned
  | .punctuator .plus => some add
  | .punctuator .minus => some subtract
  | .punctuator .star => some multiply
  | .punctuator .slash => some divide
  | .punctuator .percent => some remainder
  | .punctuator .starStar => some power
  | _ => none

/-- How tightly an operator binds. -/
def precedence : BinaryOp → Precedence
  | coalesce => .coalesce
  | logicalOr => .or
  | logicalAnd => .and
  | bitOr => .bitOr
  | bitXor => .bitXor
  | bitAnd => .bitAnd
  | equal | notEqual | strictEqual | strictNotEqual => .equality
  | less | greater | lessOrEqual | greaterOrEqual | instanceOf | isIn => .relational
  | shiftLeft | shiftRight | shiftRightUnsigned => .shift
  | add | subtract => .additive
  | multiply | divide | remainder => .multiplicative
  | power => .exponent

end BinaryOp

/-- The operators that stand before their operand. -/
inductive UnaryOp where
  | plus
  | minus
  | complement
  | not
  | typeOf
  | void
deriving DecidableEq, Inhabited

namespace UnaryOp

/-- The token that stands for an operator. -/
def token : UnaryOp → TokenKind
  | plus => .punctuator .plus
  | minus => .punctuator .minus
  | complement => .punctuator .tilde
  | not => .punctuator .bang
  | typeOf => .keyword .typeofWord
  | void => .keyword .voidWord

/-- The operator that a token stands for before an operand. -/
def ofToken? : TokenKind → Option UnaryOp
  | .punctuator .plus => some plus
  | .punctuator .minus => some minus
  | .punctuator .tilde => some complement
  | .punctuator .bang => some not
  | .keyword .typeofWord => some typeOf
  | .keyword .voidWord => some void
  | _ => none

end UnaryOp

end ExpressionTyping
