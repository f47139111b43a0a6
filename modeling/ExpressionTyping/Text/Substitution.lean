/-!
# Message templates

A template mentions its arguments as `{0}`, `{1}` and so on. Arguments are put in one after the
other: every `{0}` of the template becomes the first argument, then every `{1}` of that text becomes
the second, and so on. A placeholder that an earlier argument brings in is thus filled by a later one.
-/

set_option autoImplicit false

namespace ExpressionTyping

namespace Substitution

/-- Replaces a pattern from left to right after dropping `skip` characters that an earlier match
already covered. -/
def replaceFrom (pattern replacement : List Char) : Nat → List Char → List Char
  | _, [] => []
  | skip + 1, _ :: rest => replaceFrom pattern replacement skip rest
  | 0, c :: rest =>
    if pattern.isPrefixOf (c :: rest) then
      replacement ++ replaceFrom pattern replacement (pattern.length - 1) rest
    else
      c :: replaceFrom pattern replacement 0 rest

/-- Replaces every occurrence of a nonempty pattern, left to right without overlap. -/
def replaceAll (pattern replacement text : List Char) : List Char :=
  replaceFrom pattern replacement 0 text

/-- The placeholder of an argument: its number in braces. -/
def placeholder (index : Nat) : List Char :=
  '\x7b' :: Nat.toDigits 10 index ++ ['\x7d']

/-- Puts in the arguments numbered from `index` on, one after the other. -/
def fillFrom : Nat → List (List Char) → List Char → List Char
  | _, [], text => text
  | index, argument :: rest, text =>
    fillFrom (index + 1) rest (replaceAll (placeholder index) argument text)

end Substitution

/-- The template with its arguments put in one after the other. -/
def substitute (template : String) (arguments : List String) : String :=
  String.ofList (Substitution.fillFrom 0 (arguments.map String.toList) template.toList)

end ExpressionTyping
