import ExpressionTyping.Text.Position

/-!
# Reading JSON values

The leaves of reading a JSON text from left to right. Reading stops at the first fault: the text is
malformed, it ends too early, or what it holds is not what was asked for. A value of the wrong form
counts as such only after it has been read, so that a malformed one is reported as malformed.
-/

set_option autoImplicit false

namespace ExpressionTyping

/-- Why a text cannot be read. -/
inductive ReadFault where
  /-- The text is not well formed. -/
  | malformed
  /-- The text holds another value than asked for. -/
  | mismatched
  /-- The text ends too early. -/
  | unfinished
deriving DecidableEq, Inhabited

/-- The word for a fault. -/
def ReadFault.label : ReadFault → String
  | malformed => "syntax"
  | mismatched => "data"
  | unfinished => "eof"

/-- A step of reading; the state is what is left of the text. -/
abbrev Reader := StateT (List Char) (Except ReadFault)

namespace Reader

/-- Characters between the parts of a value. -/
def isBlank (c : Char) : Bool :=
  c == ' ' || c == '\n' || c == '\t' || c == '\r'

/-- Passes over blanks. -/
def skipBlanks : Reader Unit :=
  modify fun text => text.dropWhile isBlank

/-- The next character, if there is one. -/
def peek? : Reader (Option Char) := do
  return (← get).head?

/-- Passes over one character. -/
def skip : Reader Unit :=
  modify List.tail

/-- Takes the next character, which has to exist. -/
def next : Reader Char := do
  match ← peek? with
  | some c =>
    skip
    return c
  | none => throw .unfinished

/-- The next character after blanks, which has to exist and is not taken. -/
def peekValue : Reader Char := do
  skipBlanks
  match ← peek? with
  | some c => return c
  | none => throw .unfinished

/-- Takes the letters of a word. -/
def word : List Char → Reader Unit
  | [] => return ()
  | letter :: rest => do
    if (← next) = letter then word rest else throw .malformed

/-! ### Numbers

A number is kept as digits and a power of ten. Digits that do not fit sixty-four bits are dropped.
The number is refused if the nearest double is infinite, the digits, the power of ten and their
product each being rounded. -/

/-- The largest number made of digits. -/
def digitsBound : Nat := 0xffffffffffffffff

/-- The largest exponent that is counted. -/
def exponentBound : Nat := 0x7fffffff

/-- The value of a digit. -/
def digitValue (c : Char) : Nat :=
  c.toNat - '0'.toNat

/-- Reads digits after those of `value`; counts the digits read and those dropped because they do
not fit. Once a digit is dropped, so are all that follow. -/
def digits (value read dropped : Nat) : List Char → (Nat × Nat × Nat) × List Char
  | [] => ((value, read, dropped), [])
  | c :: rest =>
    if c.isDigit then
      if dropped = 0 ∧ value * 10 + digitValue c ≤ digitsBound then
        digits (value * 10 + digitValue c) (read + 1) 0 rest
      else digits value read (dropped + 1) rest
    else ((value, read, dropped), c :: rest)

/-- Rounds to fifty-three binary digits, a half to even. -/
def roundToDouble (n : Nat) : Nat :=
  if n < 1 <<< 53 then n
  else
    let unit := 1 <<< (n.log2 - 52)
    let quotient := n / unit
    let remainder := n % unit
    if unit < 2 * remainder ∨ (unit = 2 * remainder ∧ quotient % 2 = 1) then (quotient + 1) * unit
    else quotient * unit

/-- Whether digits times a power of ten are too large for a double. -/
def isInfinite (value : Nat) (power : Int) : Bool :=
  match power with
  | .ofNat p =>
    if p ≤ 308 then 1 <<< 1024 ≤ roundToDouble (roundToDouble value * roundToDouble (Nat.pow 10 p))
    else value ≠ 0
  | .negSucc _ => false

/-- Refuses a number that is too large. -/
def requireFinite (value : Nat) (power : Int) : Reader Unit :=
  if isInfinite value power then throw .malformed else return ()

/-- Reads the exponent of a number after its mark. -/
def exponent (value : Nat) (power : Int) : Reader Unit := do
  let negative := (← peek?) = some '-'
  if (← peek?) = some '+' || negative then skip
  let first ← next
  unless first.isDigit do throw .malformed
  let text ← get
  let (run, rest) := text.span Char.isDigit
  set rest
  let size := (first :: run).foldl (fun n c => n * 10 + digitValue c) 0
  if size ≤ exponentBound then
    requireFinite value (if negative then power - size else power + size)
  else if value ≠ 0 ∧ ¬negative then throw .malformed

/-- Reads the exponent of a number if there is one. -/
def exponentIfAny (value : Nat) (power : Int) : Reader Unit := do
  if (← peek?) = some 'e' || (← peek?) = some 'E' then
    skip
    exponent value power
  else requireFinite value power

/-- Reads the fraction of a number after its point; it has at least one digit. -/
def fraction (value dropped : Nat) : Reader Unit := do
  let ((value, read, skipped), rest) := digits value 0 0 (← get)
  if read + skipped = 0 then
    throw (if rest.isEmpty then .unfinished else .malformed)
  set rest
  exponentIfAny value (dropped - read)

/-- Reads a number without its sign. No digit follows a leading zero. -/
def number : Reader Unit := do
  let first ← next
  unless first.isDigit do throw .malformed
  if first = '0' ∧ (← peek?).any Char.isDigit then throw .malformed
  let ((value, _, dropped), rest) := digits (digitValue first) 1 0 (← get)
  set rest
  match rest.head? with
  | some '.' =>
    skip
    fraction value dropped
  | some 'e' | some 'E' =>
    skip
    exponent value dropped
  | _ => if dropped = 0 then return () else requireFinite value dropped

/-! ### Strings -/

/-- The value of a hexadecimal digit. -/
def hexValue? (c : Char) : Option Nat :=
  if c.isDigit then some (c.toNat - '0'.toNat)
  else if 'a' ≤ c ∧ c ≤ 'f' then some (c.toNat - 'a'.toNat + 10)
  else if 'A' ≤ c ∧ c ≤ 'F' then some (c.toNat - 'A'.toNat + 10)
  else none

/-- Reads four hexadecimal digits. The text is unfinished if fewer than four bytes are left. -/
def fourHexDigits : Reader Nat := do
  let text ← get
  match text with
  | a :: b :: c :: d :: rest =>
    match hexValue? a, hexValue? b, hexValue? c, hexValue? d with
    | some a, some b, some c, some d =>
      set rest
      return ((a * 16 + b) * 16 + c) * 16 + d
    | _, _, _, _ => throw .malformed
  | short => throw (if utf8Length short < 4 then .unfinished else .malformed)

/-- Takes a character that has to follow the first half of a pair of escapes. -/
def pairMark (mark : Char) : Reader Unit := do
  unless (← next) = mark do throw .malformed

/-- Reads a character by its code after `\u`. Codes of surrogates stand in pairs. -/
def unicodeEscape : Reader Char := do
  let code ← fourHexDigits
  if 0xdc00 ≤ code ∧ code ≤ 0xdfff then throw .malformed
  else if 0xd800 ≤ code ∧ code ≤ 0xdbff then
    pairMark '\\'
    pairMark 'u'
    let second ← fourHexDigits
    if 0xdc00 ≤ second ∧ second ≤ 0xdfff then
      return Char.ofNat ((code - 0xd800) * 0x400 + (second - 0xdc00) + 0x10000)
    else throw .malformed
  else return Char.ofNat code

/-- Reads what follows a backslash in a string. -/
def escape : Reader Char := do
  match ← next with
  | '"' => return '"'
  | '\\' => return '\\'
  | '/' => return '/'
  | 'b' => return '\x08'
  | 'f' => return '\x0c'
  | 'n' => return '\n'
  | 'r' => return '\r'
  | 't' => return '\t'
  | 'u' => unicodeEscape
  | _ => throw .malformed

/-- Reads a string after its opening quote, at most `limit` characters of it. -/
def stringTail : (limit : Nat) → Reader (List Char)
  | 0 => throw .unfinished
  | limit + 1 => do
    let c ← next
    if c = '"' then return []
    else if c = '\\' then
      let escaped ← escape
      return escaped :: (← stringTail limit)
    else if c.toNat < 0x20 then throw .malformed
    else return c :: (← stringTail limit)

/-- Reads a string after its opening quote. -/
def string : Reader String := do
  return String.ofList (← stringTail ((← get).length + 1))

/-! ### Values -/

/-- Reads a value of another form than asked for as far as needed to see that it is one. -/
def mismatch {α : Type} : Reader α := do
  match ← peek? with
  | some 'n' =>
    skip
    word ['u', 'l', 'l']
  | some 't' =>
    skip
    word ['r', 'u', 'e']
  | some 'f' =>
    skip
    word ['a', 'l', 's', 'e']
  | some '-' =>
    skip
    number
  | some '"' =>
    skip
    let _ ← string
  | some '[' | some '\x7b' => pure ()
  | some c => if c.isDigit then number else throw .malformed
  | none => throw .malformed
  throw .mismatched

/-- A value that may be `null`. -/
def optional {α : Type} (value : Reader α) : Reader (Option α) := do
  skipBlanks
  if (← peek?) = some 'n' then
    skip
    word ['u', 'l', 'l']
    return none
  else return some (← value)

/-- A string. -/
def text : Reader String := do
  if (← peekValue) = '"' then
    skip
    string
  else mismatch

/-- `true` or `false`. -/
def flag : Reader Bool := do
  match ← peekValue with
  | 't' =>
    skip
    word ['r', 'u', 'e']
    return true
  | 'f' =>
    skip
    word ['a', 'l', 's', 'e']
    return false
  | _ => mismatch

/-- Whether another item follows in a list; takes the comma before it. -/
def hasItem (first : Bool) : Reader Bool := do
  match ← peekValue with
  | ']' => return false
  | c =>
    if first then return true
    else if c = ',' then
      skip
      if (← peekValue) = ']' then throw .malformed else return true
    else throw .malformed

/-- Takes the end of a list. -/
def endList : Reader Unit := do
  if (← peekValue) = ']' then skip else throw .malformed

/-- The items of a list of strings, at most `limit` of them. -/
def textsTail : (limit : Nat) → (first : Bool) → Reader (List String)
  | 0, _ => throw .unfinished
  | limit + 1, first => do
    if ← hasItem first then
      let item ← text
      return item :: (← textsTail limit false)
    else return []

/-- A list of strings. -/
def texts : Reader (List String) := do
  if (← peekValue) = '[' then
    skip
    let items ← textsTail ((← get).length + 1) true
    endList
    return items
  else mismatch

/-- Whether another key follows in an object; takes the comma before it and the opening quote of the
key. -/
def hasKey (first : Bool) : Reader Bool := do
  let c ← peekValue
  if c = '\x7d' then return false
  else
    unless first do
      if c = ',' then skip else throw .malformed
    if (← peekValue) = '"' then
      skip
      return true
    else throw .malformed

/-- Takes the colon after a key. -/
def colon : Reader Unit := do
  if (← peekValue) = ':' then skip else throw .malformed

/-- Takes the end of an object. -/
def endObject : Reader Unit := do
  if (← peekValue) = '\x7d' then skip else throw .malformed

/-- Requires that nothing but blanks is left. -/
def endText : Reader Unit := do
  skipBlanks
  if (← get).isEmpty then return () else throw .malformed

end Reader

end ExpressionTyping
