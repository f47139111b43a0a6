import Mathlib.Data.List.Forall2
import ExpressionTyping.Proofs.Token.Segmentation

/-!
# Writing tokens down

Tokens written one after the other with a space between them are scanned as those tokens. A space
goes on with no token, so what a lexeme is does not change when a space and more text follow it
(`front_separated`). Strings and templates are written with the characters that would end them
escaped, and punctuators and keywords are fixed; these are always scanned as what they are. Words
and numbers are written as they are, and of them it has to be known that they are one token.
-/

set_option autoImplicit false

namespace ExpressionTyping

/-- Text that is empty or starts with a space. -/
def Separated (rest : List Char) : Prop :=
  ∀ c ∈ rest.head?, c = ' '

/-- What is separated is nothing, or starts with a space. -/
theorem Separated.cases {rest : List Char} (h : Separated rest) :
    rest = [] ∨ ∃ after, rest = ' ' :: after := by
  cases rest with
  | nil => exact .inl rfl
  | cons c after => exact .inr ⟨after, by rw [h c rfl]⟩

/-- Nothing is separated from what is before it. -/
theorem separated_nil : Separated [] := by
  simp [Separated]

/-- What starts with a space is separated from what is before it. -/
theorem separated_space (after : List Char) : Separated (' ' :: after) := by
  simp [Separated]

/-! ## A space ends a lexeme -/

namespace Lexeme

variable {rest : List Char}

/-- A run that a space ends does not go on into what is separated from it. -/
theorem span_separated {p : Char → Bool} (hp : p ' ' = false) (hrest : Separated rest)
    (text : List Char) :
    (text ++ rest).span p = ((text.span p).1, (text.span p).2 ++ rest) := by
  simp only [List.span_eq_takeWhile_dropWhile]
  induction text with
  | nil =>
    rcases hrest.cases with rfl | ⟨after, rfl⟩
    · rfl
    · simp [hp]
  | cons c text ih =>
    cases hc : p c with
    | true => simpa [hc] using ih
    | false => simp [hc]

/-- A fraction does not go on into what is separated from it. -/
theorem fraction_separated (hrest : Separated rest) (text : List Char) :
    fraction (text ++ rest) = ((fraction text).1, (fraction text).2 ++ rest) := by
  have hspan := span_separated (p := isDigitOrSeparator) (by decide) hrest
  cases text with
  | nil =>
    rcases hrest.cases with rfl | ⟨after, rfl⟩ <;> rfl
  | cons c text =>
    by_cases hc : c = '.'
    · subst hc
      simp only [List.cons_append, fraction, hspan]
    · simp [fraction, hc]

/-- A sign does not go on into what is separated from it. -/
theorem sign_separated (hrest : Separated rest) (text : List Char) :
    sign (text ++ rest) = ((sign text).1, (sign text).2 ++ rest) := by
  cases text with
  | nil =>
    rcases hrest.cases with rfl | ⟨after, rfl⟩ <;> rfl
  | cons c text =>
    by_cases hplus : c = '+'
    · subst hplus
      rfl
    · by_cases hminus : c = '-'
      · subst hminus
        rfl
      · simp [sign, hplus, hminus]

/-- An exponent does not go on into what is separated from it. -/
theorem exponent_separated (hrest : Separated rest) (text : List Char) :
    exponent (text ++ rest) = ((exponent text).1, (exponent text).2 ++ rest) := by
  have hspan := span_separated (p := isDigitOrSeparator) (by decide) hrest
  cases text with
  | nil =>
    rcases hrest.cases with rfl | ⟨after, rfl⟩ <;> rfl
  | cons c text =>
    by_cases hc : c = 'e' ∨ c = 'E'
    · simp only [List.cons_append, exponent, if_pos hc, sign_separated hrest, hspan]
    · simp only [List.cons_append, exponent, if_neg hc]

/-- A decimal number does not go on into what is separated from it. -/
theorem decimal_separated (hrest : Separated rest) (text : List Char) :
    decimal (text ++ rest) = ((decimal text).1, (decimal text).2 ++ rest) := by
  have hspan := span_separated (p := isDigitOrSeparator) (by decide) hrest
  simp only [decimal, hspan, fraction_separated hrest, exponent_separated hrest]

/-- A number does not go on into what is separated from it. -/
theorem numeral_separated (hrest : Separated rest) (text : List Char) :
    numeral (text ++ rest) = ((numeral text).1, (numeral text).2 ++ rest) := by
  have hspan := span_separated (p := isHexDigit) (by decide) hrest
  have hdecimal := decimal_separated hrest
  cases text with
  | nil =>
    rcases hrest.cases with rfl | ⟨after, rfl⟩
    · rfl
    · exact hdecimal []
  | cons c text =>
    by_cases hc : c = '0'
    · subst hc
      cases text with
      | nil =>
        rcases hrest.cases with rfl | ⟨after, rfl⟩
        · rfl
        · exact hdecimal ['0']
      | cons x text =>
        by_cases hx : x = 'x' ∨ x = 'X'
        · simp only [List.cons_append, numeral, if_pos hx, hspan]
        · simpa only [List.cons_append, numeral, if_neg hx] using hdecimal ('0' :: x :: text)
    · have hother (tail : List Char) : numeral (c :: tail) = decimal (c :: tail) := by
        simp [numeral, hc]
      simpa only [List.cons_append, hother] using hdecimal (c :: text)

/-- Whether a number starts does not depend on what is separated from it. -/
theorem startsNumber_separated (hrest : Separated rest) (c : Char) (text : List Char) :
    startsNumber (c :: (text ++ rest)) = startsNumber (c :: text) := by
  by_cases hc : c = '.'
  · subst hc
    cases text with
    | nil =>
      rcases hrest.cases with rfl | ⟨after, rfl⟩ <;> rfl
    | cons d text => rfl
  · have hother (tail : List Char) : startsNumber (c :: tail) = c.isDigit := by
      simp [startsNumber, hc]
    rw [hother, hother]

/-- How a string goes on with a character that is no backslash. -/
theorem body_plain {c : Char} (hc : c ≠ '\\') (quote : Char) (multiline : Bool) (text : List Char) :
    body quote multiline (c :: text) =
      if c = quote then ⟨[c], [], true, text⟩
      else if !multiline && Trivia.isLineBreak c then ⟨[], [], false, c :: text⟩
      else { body quote multiline text with
        text := c :: (body quote multiline text).text
        value := c :: (body quote multiline text).value } := by
  simp [body, hc]

/-- A character that is a backslash neither at the end of a text nor in front of another is none. -/
theorem ne_backslash {c : Char} {text : List Char} (hnil : c = '\\' → text = [] → False)
    (hcons : ∀ (d : Char) (rest : List Char), c = '\\' → text = d :: rest → False) :
    c ≠ '\\' := by
  intro hc
  cases text with
  | nil => exact hnil hc rfl
  | cons d text => exact hcons d text hc rfl

/-- Once its closing quote is found, a string does not depend on what follows. -/
theorem body_closed {quote : Char} {multiline : Bool} {text : List Char}
    (h : (body quote multiline text).closed = true) :
    body quote multiline (text ++ rest) =
      { body quote multiline text with rest := (body quote multiline text).rest ++ rest } := by
  fun_induction body quote multiline text with
  | case1 => cases h
  | case2 => cases h
  | case3 c text tail ih =>
    simp only [List.cons_append, body]
    rw [ih h]
  | case4 text hnil hcons =>
    rw [List.cons_append, body_plain (ne_backslash hnil hcons), if_pos rfl]
  | case5 c text => cases h
  | case6 c text hnil hcons hquote hbreak tail ih =>
    rw [List.cons_append, body_plain (ne_backslash hnil hcons), if_neg hquote, if_neg hbreak, ih h]

end Lexeme

/-- No punctuator has a space in it. -/
theorem Punctuator.space_not_mem_spelling (p : Punctuator) : ' ' ∉ p.spelling := by
  cases p <;> decide

/-- Whether a punctuator stands in front does not depend on what is separated from the text. -/
theorem Punctuator.isPrefixOf_separated {rest : List Char} (hrest : Separated rest)
    (p : Punctuator) (text : List Char) :
    p.spelling.isPrefixOf (text ++ rest) = p.spelling.isPrefixOf text := by
  rcases hrest.cases with rfl | ⟨after, rfl⟩
  · rw [List.append_nil]
  · rw [Bool.eq_iff_iff, List.isPrefixOf_iff_prefix, List.isPrefixOf_iff_prefix]
    constructor
    · rintro ⟨tail, htail⟩
      rcases List.append_eq_append_iff.mp htail with ⟨middle, htext, -⟩ | ⟨middle, hspelling, hrest⟩
      · exact ⟨middle, htext.symm⟩
      · cases middle with
        | nil => simp [hspelling]
        | cons c middle =>
          obtain ⟨rfl, -⟩ := List.cons.inj hrest
          exact absurd (hspelling ▸ by simp) p.space_not_mem_spelling
    · exact fun h => h.trans (List.prefix_append _ _)

/-- The longest punctuator in front does not depend on what is separated from the text. -/
theorem Punctuator.longestMatch?_separated {rest : List Char} (hrest : Separated rest)
    (text : List Char) : longestMatch? (text ++ rest) = longestMatch? text := by
  simp only [longestMatch?, isPrefixOf_separated hrest]

/-- A lexeme without fault stays the same when a space follows its text. -/
theorem Lexeme.front_separated {alphabet : Alphabet} {c : Char} {text rest : List Char}
    (hrest : Separated rest) (h : (front alphabet c text).fault? = none) :
    front alphabet c (text ++ rest) =
      { front alphabet c text with rest := (front alphabet c text).rest ++ rest } := by
  rw [front_eq_longest] at h ⊢
  rw [front_eq_longest]
  unfold longest at h ⊢
  rw [startsNumber_separated hrest, ← List.cons_append, Punctuator.longestMatch?_separated hrest]
  split at h
  · rename_i hquote
    have hclosed : (body c false text).closed = true := by
      simpa [string] using h
    simp only [if_pos hquote, string, body_closed hclosed]
  · rename_i hquote
    rw [if_neg hquote, if_neg hquote]
    split at h
    · rename_i hbackquote
      have hclosed : (body c true text).closed = true := by
        simpa [template] using h
      simp only [if_pos hbackquote, template, body_closed hclosed]
    · rename_i hbackquote
      rw [if_neg hbackquote, if_neg hbackquote]
      split at h
      · rename_i hnumber
        simp only [if_pos hnumber, number, numeral_separated hrest]
      · rename_i hnumber
        rw [if_neg hnumber, if_neg hnumber]
        cases hmatch : Punctuator.longestMatch? (c :: text) with
        | some p =>
          have hlength := (Punctuator.isPrefix_of_longestMatch? hmatch).length_le
          simp only [List.drop_append_of_le_length hlength]
        | none =>
          simp only [hmatch] at h ⊢
          split at h
          · rename_i hstarts
            have hspace : alphabet.continuesIdentifier ' ' = false := rfl
            simp only [if_pos hstarts, word, span_separated hspace hrest]
          · cases h

/-! ## Trivia before a token -/

namespace Trivia

/-- A text starts with a comment. -/
def StartsComment (c : Char) (text : List Char) : Prop :=
  c = '/' ∧ (text.head? = some '/' ∨ text.head? = some '*')

/-- Where no comment starts, what is skipped is white space, character by character. -/
theorem skip_cons {c : Char} {text : List Char} (h : ¬ StartsComment c text) :
    skip (c :: text) =
      if isLineBreak c then (skip text).extend 1 true
      else if isBlank c then (skip text).extend 1 false
      else ⟨0, false, c :: text⟩ := by
  rw [skip, skipFrom]
  · rfl
  · rintro rest rfl rfl
    exact h ⟨rfl, .inl rfl⟩
  · rintro rest rfl rfl
    exact h ⟨rfl, .inr rfl⟩

/-- Where a comment starts, something is skipped. -/
theorem length_ne_zero_of_startsComment {c : Char} {text : List Char} (h : StartsComment c text) :
    (skip (c :: text)).length ≠ 0 := by
  obtain ⟨rfl, h | h⟩ := h
  · obtain ⟨rest, rfl⟩ := List.head?_eq_some_iff.mp h
    exact Nat.succ_ne_zero _
  · obtain ⟨rest, rfl⟩ := List.head?_eq_some_iff.mp h
    exact Nat.succ_ne_zero _

/-- Where nothing is skipped, nothing is skipped when a space follows either. -/
theorem skip_separated {c : Char} {text rest : List Char} (h : (skip (c :: text)).length = 0)
    (hrest : Separated rest) : skip (c :: (text ++ rest)) = ⟨0, false, c :: (text ++ rest)⟩ := by
  have hcomment : ¬ StartsComment c text := fun hc => length_ne_zero_of_startsComment hc h
  have hcomment' : ¬ StartsComment c (text ++ rest) := by
    rintro ⟨hc, hhead⟩
    cases text with
    | nil => rcases hrest.cases with rfl | ⟨after, rfl⟩ <;> simp at hhead
    | cons d text => exact hcomment ⟨hc, hhead⟩
  rw [skip_cons hcomment] at h
  rw [skip_cons hcomment']
  split at h
  · cases h
  · split at h
    · cases h
    · rename_i hbreak hblank
      rw [if_neg hbreak, if_neg hblank]

/-- A space is skipped with what is skipped after it. -/
theorem skip_space (text : List Char) : skip (' ' :: text) = (skip text).extend 1 false := rfl

end Trivia

/-! ## Tokens as they are written -/

namespace Token

/-- A character as written between quotes. -/
def escape (quote c : Char) : List Char :=
  if c = '\n' then ['\\', 'n']
  else if c = '\r' then ['\\', 'r']
  else if c = quote ∨ c = '\\' ∨ Trivia.isLineBreak c = true then ['\\', c]
  else [c]

/-- A text as written between quotes. -/
def quoted (quote : Char) (value : List Char) : List Char :=
  quote :: (value.flatMap (escape quote) ++ [quote])

/-- The characters that a token of a kind and a value is written as. -/
def spelling : TokenKind × String → List Char
  | (.punctuator p, _) => p.spelling
  | (.string, value) => quoted '"' value.toList
  | (.template, value) => quoted '\x60' value.toList
  | (_, value) => value.toList

/-- The value of a token, written as it is, is scanned as that token and nothing else. -/
def Alone (alphabet : Alphabet) (content : TokenKind × String) : Prop :=
  ofText alphabet content.2.toList =
    [⟨content.1, ⟨0, content.2.toList.length⟩, content.2, false, none⟩,
      endOfText content.2.toList.length false]

instance (alphabet : Alphabet) (content : TokenKind × String) : Decidable (Alone alphabet content) :=
  inferInstanceAs (Decidable (_ = _))

/-- A kind and a value of a token that can be written down. -/
def Writable (alphabet : Alphabet) (content : TokenKind × String) : Prop :=
  match content.1 with
  | .string | .template => True
  | .punctuator _ | .keyword _ => content = content.1.fixed
  | .identifier | .number => Alone alphabet content
  | .unknown | .endOfText => False

/-- Before a space or the end of the text, characters are scanned as one token and nothing else; no
line break stands before it. -/
def ReadAs (alphabet : Alphabet) (chars : List Char) (content : TokenKind × String) : Prop :=
  ∀ offset rest, Separated rest → ∃ token,
    next alphabet offset (chars ++ rest) = (token, rest) ∧
      token.content = content ∧ token.fault? = none ∧ token.afterLineBreak = false

/-- Characters are read as a token when nothing is skipped in front of them and what starts there is
that token. -/
theorem readAs_of_front {alphabet : Alphabet} {content : TokenKind × String} {c : Char}
    {text chars : List Char} (hskip : (Trivia.skip (c :: text)).length = 0)
    (hfront : Lexeme.front alphabet c text = ⟨content.1, chars, content.2.toList, none, []⟩) :
    ReadAs alphabet (c :: text) content := by
  intro offset rest hrest
  have hfault : (Lexeme.front alphabet c text).fault? = none := by
    rw [hfront]
  rw [List.cons_append, next, Trivia.skip_separated hskip hrest]
  simp only [Lexeme.front_separated hrest hfault, hfront]
  exact ⟨_, rfl, Prod.ext rfl String.ofList_toList, rfl, rfl⟩

/-- Before a space or the end of the text, what is written for a token is scanned as that token. -/
def Scans (alphabet : Alphabet) (content : TokenKind × String) : Prop :=
  ReadAs alphabet (spelling content) content

/-- A token scans when its spelling is read as it from its first character. -/
theorem scans_of_front {alphabet : Alphabet} {content : TokenKind × String} {c : Char}
    {text chars : List Char} (hspelling : spelling content = c :: text)
    (hskip : (Trivia.skip (c :: text)).length = 0)
    (hfront : Lexeme.front alphabet c text = ⟨content.1, chars, content.2.toList, none, []⟩) :
    Scans alphabet content := by
  rw [Scans, hspelling]
  exact readAs_of_front hskip hfront

/-- The characters of a punctuator are that punctuator. -/
theorem front_punctuator (alphabet : Alphabet) (p : Punctuator) :
    ∃ c text, p.spelling = c :: text ∧ (Trivia.skip (c :: text)).length = 0 ∧
      Lexeme.front alphabet c text = ⟨.punctuator p, p.spelling, [], none, []⟩ := by
  cases p <;> exact ⟨_, _, rfl, rfl, rfl⟩

/-- Every punctuator scans as itself. -/
theorem punctuator_scans (alphabet : Alphabet) (p : Punctuator) :
    Scans alphabet (TokenKind.punctuator p).fixed := by
  obtain ⟨c, text, hspelling, hskip, hfront⟩ := front_punctuator alphabet p
  exact scans_of_front hspelling hskip hfront

/-- Every keyword scans as itself. -/
theorem keyword_scans (alphabet : Alphabet) (k : Keyword) :
    Scans alphabet (TokenKind.keyword k).fixed := by
  have hfront : ∃ c text, k.spelling = c :: text ∧ (Trivia.skip (c :: text)).length = 0 ∧
      Lexeme.front alphabet c text = ⟨.keyword k, k.spelling, k.spelling, none, []⟩ := by
    cases k <;> exact ⟨_, _, rfl, rfl, rfl⟩
  obtain ⟨c, text, hspelling, hskip, hfront⟩ := hfront
  exact scans_of_front hspelling hskip hfront

/-! ### Strings -/

/-- A character that stands for itself after a backslash is its own value. -/
theorem unescape_eq_self {c : Char} (hc : c = '"' ∨ c = '\x60' ∨ c = '\\' ∨ Trivia.isLineBreak c = true) :
    Lexeme.unescape c = c := by
  unfold Lexeme.unescape
  split
  · revert hc
    decide
  · revert hc
    decide
  · revert hc
    decide
  · revert hc
    decide
  · rfl

/-- A character that was escaped is read back. -/
theorem body_escape {quote : Char} (hquote : quote = '"' ∨ quote = '\x60') (multiline : Bool)
    (c : Char) (rest : List Char) :
    Lexeme.body quote multiline (escape quote c ++ rest) =
      { Lexeme.body quote multiline rest with
        text := escape quote c ++ (Lexeme.body quote multiline rest).text
        value := c :: (Lexeme.body quote multiline rest).value } := by
  unfold escape
  split
  · rename_i hc
    subst hc
    rfl
  · split
    · rename_i hc
      subst hc
      rfl
    · split
      · rename_i hc
        have hself : Lexeme.unescape c = c := by
          refine unescape_eq_self ?_
          rcases hc with rfl | hc
          · exact hquote.elim .inl (fun h => .inr (.inl h))
          · exact .inr (.inr hc)
        simp [Lexeme.body, hself]
      · rename_i hc
        rw [not_or, not_or] at hc
        obtain ⟨hne, hbackslash, hbreak⟩ := hc
        simp [Lexeme.body_plain hbackslash, hne, hbreak]

/-- The body of a literal whose value is written with escapes has that value and is closed. -/
theorem body_quoted {quote : Char} (hquote : quote = '"' ∨ quote = '\x60') (multiline : Bool)
    (value : List Char) :
    Lexeme.body quote multiline (value.flatMap (escape quote) ++ [quote]) =
      ⟨value.flatMap (escape quote) ++ [quote], value, true, []⟩ := by
  have hbackslash : quote ≠ '\\' := by
    rcases hquote with rfl | rfl <;> decide
  induction value with
  | nil => simp [Lexeme.body_plain hbackslash]
  | cons c value ih =>
    rw [List.flatMap_cons, List.append_assoc, body_escape hquote, ih]

/-- Every string scans as itself. -/
theorem string_scans (alphabet : Alphabet) (value : String) :
    Scans alphabet (.string, value) := by
  have hfront : Lexeme.front alphabet '"' (value.toList.flatMap (escape '"') ++ ['"']) =
      ⟨.string, quoted '"' value.toList, value.toList, none, []⟩ := by
    show Lexeme.string '"' _ = _
    rw [Lexeme.string, body_quoted (.inl rfl)]
    rfl
  exact scans_of_front rfl rfl hfront

/-- Every template scans as itself. -/
theorem template_scans (alphabet : Alphabet) (value : String) :
    Scans alphabet (.template, value) := by
  have hfront : Lexeme.front alphabet '\x60' (value.toList.flatMap (escape '\x60') ++ ['\x60']) =
      ⟨.template, quoted '\x60' value.toList, value.toList, none, []⟩ := by
    show Lexeme.template '\x60' _ = _
    rw [Lexeme.template, body_quoted (.inr rfl)]
    rfl
  exact scans_of_front rfl rfl hfront

/-! ### Words and numbers -/

/-- A token that was scanned alone is the lexeme of the whole text. -/
theorem Alone.front {alphabet : Alphabet} {content : TokenKind × String}
    (h : Alone alphabet content) : ∃ c text, content.2.toList = c :: text ∧
      (Trivia.skip (c :: text)).length = 0 ∧
      Lexeme.front alphabet c text = ⟨content.1, c :: text, content.2.toList, none, []⟩ := by
  obtain ⟨kind, value⟩ := content
  unfold Alone ofText read at h
  simp only at h ⊢
  generalize htext : value.toList = chars at h ⊢
  split at h
  · simp at h
  · rename_i hkind
    have htoken := (List.cons.inj h).1
    unfold next at hkind htoken
    cases chars with
    | nil => exact absurd rfl hkind
    | cons c text =>
      have hskip : (Trivia.skip (c :: text)).length = 0 := by
        have hstart := congrArg (·.span.start) htoken
        simp only at hstart
        split at hstart
        · simpa [endOfText] using hstart
        · simpa using hstart
      have hself := Trivia.skip_separated hskip separated_nil
      rw [List.append_nil] at hself
      simp only [hself, Token.mk.injEq, Span.mk.injEq, Nat.zero_add] at htoken
      obtain ⟨hkind, ⟨-, hlength⟩, hvalue, -, hfault⟩ := htoken
      have happend := (Lexeme.front_cases alphabet c text).append
      refine ⟨c, text, rfl, hskip, ?_⟩
      generalize Lexeme.front alphabet c text = lexeme at hkind hlength hvalue hfault happend ⊢
      obtain ⟨kind', chars, value', fault', rest⟩ := lexeme
      have hchars : chars = c :: text ∧ rest = [] :=
        List.append_inj (happend.trans (List.append_nil _).symm) hlength
      obtain ⟨rfl, rfl⟩ := hchars
      simp only at hkind hvalue hfault
      rw [hkind, hfault, ← htext, ← hvalue, String.toList_ofList]

/-- A token that scans alone and is spelled as its value scans as itself. -/
theorem scans_of_alone {alphabet : Alphabet} {content : TokenKind × String}
    (h : Alone alphabet content) (hspelling : spelling content = content.2.toList) :
    Scans alphabet content := by
  obtain ⟨c, text, htext, hskip, hfront⟩ := h.front
  exact scans_of_front (hspelling.trans htext) hskip hfront

/-- Every token that can be written scans as itself. -/
theorem Writable.scans {alphabet : Alphabet} {content : TokenKind × String}
    (h : Writable alphabet content) : Scans alphabet content := by
  obtain ⟨kind, value⟩ := content
  cases kind with
  | string => exact string_scans alphabet value
  | template => exact template_scans alphabet value
  | identifier => exact scans_of_alone h rfl
  | number => exact scans_of_alone h rfl
  | punctuator p => exact h ▸ punctuator_scans alphabet p
  | keyword k => exact h ▸ keyword_scans alphabet k
  | unknown | endOfText => exact False.elim h

/-! ## Texts of several tokens -/

/-- What tokens are written as, with a space between them. -/
def written (contents : List (TokenKind × String)) : List Char :=
  [' '].intercalate (contents.map spelling)

/-- Texts with spaces between them start with the first text, and nothing or a space follows it. -/
theorem intercalate_space_cons (chars : List Char) (others : List (List Char)) :
    ∃ rest, [' '].intercalate (chars :: others) = chars ++ rest ∧
      (others = [] ∧ rest = [] ∨ others ≠ [] ∧ rest = ' ' :: [' '].intercalate others) := by
  cases others with
  | nil => exact ⟨[], by simp, .inl ⟨rfl, rfl⟩⟩
  | cons next others =>
    exact ⟨' ' :: [' '].intercalate (next :: others), by simp [List.intercalate],
      .inr ⟨by simp, rfl⟩⟩

/-- A space in front moves the next token by one. -/
theorem next_space (alphabet : Alphabet) (offset : Nat) (text : List Char) :
    next alphabet offset (' ' :: text) = next alphabet (offset + 1) text := by
  unfold next
  rw [Trivia.skip_space]
  simp only [Trivia.Gap.extend, Bool.or_false, Nat.add_assoc, Nat.add_comm 1]

/-- A space in front moves all tokens that are read by one. -/
theorem read_space (alphabet : Alphabet) (limit offset : Nat) (text : List Char) :
    read alphabet limit offset (' ' :: text) = read alphabet limit (offset + 1) text := by
  cases limit with
  | zero => rfl
  | succ limit => rw [read, read, next_space]

/-- The end of the text cannot be written. -/
theorem Writable.ne_endOfText {alphabet : Alphabet} {content : TokenKind × String}
    (h : Writable alphabet content) : content.1 ≠ .endOfText := by
  intro hkind
  rw [Writable, hkind] at h
  exact h

/-- Characters that are each scanned as one token are scanned as these tokens when a space stands
between them, without fault and on one line, and then the text ends. -/
theorem read_intercalate {alphabet : Alphabet} {pieces : List (List Char)}
    {contents : List (TokenKind × String)} (h : List.Forall₂ (ReadAs alphabet) pieces contents)
    (hkinds : ∀ content ∈ contents, content.1 ≠ .endOfText) {limit : Nat} (offset : Nat)
    (hlimit : ([' '].intercalate pieces).length < limit) :
    ∃ tokens final, read alphabet limit offset ([' '].intercalate pieces) = tokens ++ [final] ∧
      final.kind = .endOfText ∧ tokens.map content = contents ∧
      ∀ token ∈ tokens ++ [final], token.fault? = none ∧ token.afterLineBreak = false := by
  induction h generalizing limit offset with
  | nil =>
    obtain ⟨limit, rfl⟩ := Nat.exists_eq_add_one_of_ne_zero (Nat.ne_of_gt hlimit)
    exact ⟨[], endOfText offset false, rfl, rfl, rfl, by simp [endOfText]⟩
  | @cons chars first pieces contents hfirst _ ih =>
    obtain ⟨limit, rfl⟩ := Nat.exists_eq_add_one_of_ne_zero (Nat.ne_of_gt (Nat.zero_lt_of_lt hlimit))
    obtain ⟨hordinary, hkinds⟩ := List.forall_mem_cons.mp hkinds
    obtain ⟨rest, hjoined, hrest⟩ := intercalate_space_cons chars pieces
    have hseparated : Separated rest := by
      rcases hrest with ⟨-, rfl⟩ | ⟨-, rfl⟩
      · exact separated_nil
      · exact separated_space _
    obtain ⟨token, hnext, hcontent, hplain⟩ := hfirst offset rest hseparated
    have hkind : token.kind ≠ .endOfText := by
      rwa [← hcontent] at hordinary
    -- The token took characters, so there is room for the others in what is left.
    have hless : rest.length < limit := by
      have hcases := next_cases alphabet offset (chars ++ rest)
      rw [hnext] at hcases
      have hshorter : rest.length < (chars ++ rest).length :=
        (hcases.resolve_left hkind).2.2.2.2
      rw [hjoined] at hlimit
      omega
    have hread : read alphabet (limit + 1) offset ([' '].intercalate (chars :: pieces)) =
        token :: read alphabet limit token.span.stop rest := by
      rw [read, hjoined, hnext]
      exact if_neg hkind
    have htail : ∃ tokens final, read alphabet limit token.span.stop rest = tokens ++ [final] ∧
        final.kind = .endOfText ∧ tokens.map content = contents ∧
        ∀ token ∈ tokens ++ [final], token.fault? = none ∧ token.afterLineBreak = false := by
      rcases hrest with ⟨rfl, rfl⟩ | ⟨-, rfl⟩
      · exact ih hkinds _ hless
      · rw [read_space]
        exact ih hkinds _ (Nat.lt_of_succ_lt hless)
    obtain ⟨tokens, final, htokens, hfinal, hmap, hothers⟩ := htail
    refine ⟨token :: tokens, final, by rw [hread, htokens, List.cons_append], hfinal, ?_, ?_⟩
    · rw [List.map_cons, hcontent, hmap]
    · rw [List.cons_append]
      exact List.forall_mem_cons.mpr ⟨hplain, hothers⟩

section Written

variable {alphabet : Alphabet} {contents : List (TokenKind × String)}
  (h : ∀ content ∈ contents, Writable alphabet content)
include h

/-- What is written down for tokens is read token by token. -/
theorem written_readAs : List.Forall₂ (ReadAs alphabet) (contents.map spelling) contents :=
  List.forall₂_map_left_iff.mpr (List.forall₂_same.mpr fun content hmem => (h content hmem).scans)

/-- The tokens of a written text are the ones that were written down, without fault, and then the
end of the text. -/
theorem read_written {limit : Nat} (offset : Nat) (hlimit : (written contents).length < limit) :
    ∃ tokens final, read alphabet limit offset (written contents) = tokens ++ [final] ∧
      final.kind = .endOfText ∧ tokens.map content = contents ∧
      ∀ token ∈ tokens ++ [final], token.fault? = none := by
  obtain ⟨tokens, final, htokens, hfinal, hcontents, hplain⟩ := read_intercalate
    (written_readAs h) (fun content hmem => (h content hmem).ne_endOfText) offset hlimit
  exact ⟨tokens, final, htokens, hfinal, hcontents, fun token hmem => (hplain token hmem).1⟩

/-- A written text has one line. -/
theorem afterLineBreak_of_mem_written {token : Token}
    (htoken : token ∈ ofText alphabet (written contents)) : token.afterLineBreak = false := by
  obtain ⟨tokens, final, htokens, -, -, hplain⟩ := read_intercalate
    (written_readAs h) (fun content hmem => (h content hmem).ne_endOfText) 0 (Nat.lt_succ_self _)
  rw [ofText, written, htokens] at htoken
  exact (hplain token htoken).2

end Written

end Token

end ExpressionTyping
