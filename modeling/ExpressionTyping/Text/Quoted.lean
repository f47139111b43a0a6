import ExpressionTyping.Text.HiddenRanges

/-!
# Quoted text

Names are shown between double quotes, with what a reader could not see or tell apart written as an
escape: quotes, backslashes, line ends, tabs, the null character, and every character that extends
its neighbour or shows as nothing.
-/

set_option autoImplicit false

namespace ExpressionTyping

namespace Quoted

/-- Whether a character has to be written by its code point. -/
def isHidden (c : Char) : Bool :=
  c.toNat < 0x20 || extendingRanges.includes c || invisibleRanges.includes c

/-- How a character is written between quotes. -/
def escape (c : Char) : List Char :=
  match c with
  | '"' => ['\\', '"']
  | '\\' => ['\\', '\\']
  | '\n' => ['\\', 'n']
  | '\r' => ['\\', 'r']
  | '\t' => ['\\', 't']
  | '\x00' => ['\\', '0']
  | c => if isHidden c then ['\\', 'u', '\x7b'] ++ Nat.toDigits 16 c.toNat ++ ['\x7d'] else [c]

end Quoted

/-- The text between double quotes, escaped. -/
def quoted (text : String) : String :=
  String.ofList (['"'] ++ text.toList.flatMap Quoted.escape ++ ['"'])

end ExpressionTyping
