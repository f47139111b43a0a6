import ExpressionTyping.Proofs.Token.LongestMatch
import ExpressionTyping.Token.Basic

/-!
# Tokens cut a text into pieces

Scanning takes a text apart and loses nothing: trivia and what follows them add up to the text
(`skipFrom_length`), and the characters of a lexeme with what follows them are the text
(`Front.append`). Since a lexeme is never empty (`Front.text_ne_nil`), each token leaves less text
than it found, and so the bound on the number of tokens is never reached: the tokens of a text are
ordinary ones, in order and apart from each other, and then its end (`ofText_segmented`).

What a token says of itself is checked along the way: a word has the kind its characters give it,
and a punctuator has no value.
-/

set_option autoImplicit false

namespace ExpressionTyping

/-! ## Trivia -/

/-- What is skipped and what is left make up the text. -/
theorem Trivia.skipFrom_length (mode : Mode) (text : List Char) :
    (skipFrom mode text).length + (skipFrom mode text).rest.length = text.length := by
  fun_induction skipFrom mode text <;> simp_all only [Gap.extend, List.length_cons, List.length_nil]
    <;> omega

/-! ## Lexemes -/

namespace Lexeme

/-- The body of a literal and what is left make up the text. -/
theorem body_append (quote : Char) (multiline : Bool) (text : List Char) :
    (body quote multiline text).text ++ (body quote multiline text).rest = text := by
  fun_induction body quote multiline text with
  | case1 | case2 => rfl
  | case3 c rest tail ih => exact congrArg (fun rest => '\\' :: c :: rest) ih
  | case4 | case5 => rfl
  | case6 c rest tail _ _ _ _ ih => exact congrArg (c :: ·) ih

/-- A run of characters and what is left make up the text. -/
theorem span_append (p : Char → Bool) (text : List Char) :
    (text.span p).1 ++ (text.span p).2 = text := by
  rw [List.span_eq_takeWhile_dropWhile]
  exact List.takeWhile_append_dropWhile

/-- A fraction and what is left make up the text. -/
theorem fraction_append (text : List Char) : (fraction text).1 ++ (fraction text).2 = text := by
  unfold fraction
  split
  · exact congrArg ('.' :: ·) (span_append isDigitOrSeparator _)
  · rfl

/-- A sign and what is left make up the text. -/
theorem sign_append (text : List Char) : (sign text).1 ++ (sign text).2 = text := by
  unfold sign
  split <;> rfl

/-- An exponent and what is left make up the text. -/
theorem exponent_append (text : List Char) : (exponent text).1 ++ (exponent text).2 = text := by
  unfold exponent
  split
  · rename_i c rest
    split
    · have hdigits := span_append isDigitOrSeparator (sign rest).2
      have hsign := sign_append rest
      simp only [List.cons_append, List.append_assoc, hdigits, hsign]
    · rfl
  · rfl

/-- A decimal number and what is left make up the text. -/
theorem decimal_append (text : List Char) : (decimal text).1 ++ (decimal text).2 = text := by
  have hwhole := span_append isDigitOrSeparator text
  have hfraction := fraction_append (text.span isDigitOrSeparator).2
  have hpower := exponent_append (fraction (text.span isDigitOrSeparator).2).2
  simp only [decimal, List.append_assoc, hpower, hfraction, hwhole]

/-- A number and what is left make up the text. -/
theorem numeral_append (text : List Char) : (numeral text).1 ++ (numeral text).2 = text := by
  unfold numeral
  split
  · split
    · exact congrArg (fun rest => '0' :: _ :: rest) (span_append isHexDigit _)
    · exact decimal_append _
  · exact decimal_append _

/-- A decimal number has a digit before its point, or a point. -/
theorem decimal_ne_nil {text : List Char} (h : startsNumber text = true) :
    (decimal text).1 ≠ [] := by
  have hdigit {c : Char} {rest : List Char} (hc : c.isDigit = true) : (decimal (c :: rest)).1 ≠ [] := by
    have hclass : isDigitOrSeparator c = true := by simp [isDigitOrSeparator, hc]
    simp [decimal, List.span_eq_takeWhile_dropWhile, hclass]
  unfold startsNumber at h
  split at h
  · have hclass : isDigitOrSeparator '.' = false := by decide
    simp [decimal, List.span_eq_takeWhile_dropWhile, hclass, fraction]
  · exact hdigit h
  · cases h

/-- Where a number starts, at least one character of it is read. -/
theorem numeral_ne_nil {text : List Char} (h : startsNumber text = true) :
    (numeral text).1 ≠ [] := by
  unfold numeral
  split
  · split
    · simp
    · exact decimal_ne_nil h
  · exact decimal_ne_nil h

end Lexeme

namespace Lexeme

variable (alphabet : Alphabet) (c : Char) (rest : List Char)

/-- The lexemes that may stand at the front of a text. -/
inductive Front : Lexeme → Prop where
  | string : Front (string c rest)
  | template : Front (template c rest)
  | number (h : startsNumber (c :: rest) = true) : Front (number (c :: rest))
  | punctuator (p : Punctuator) (h : p.spelling <+: c :: rest) :
      Front ⟨.punctuator p, p.spelling, [], none, (c :: rest).drop p.spelling.length⟩
  | word : Front (word alphabet c rest)
  | unknown : Front ⟨.unknown, [c], [], some .invalidCharacter, rest⟩

/-- The lexeme at the front of a text is one of them. -/
theorem front_cases : Front alphabet c rest (front alphabet c rest) := by
  rw [front_eq_longest]
  unfold longest
  split
  · exact .string
  · split
    · exact .template
    · split
      · rename_i hnumber
        exact .number hnumber
      · split
        · rename_i p hp
          exact .punctuator p (Punctuator.isPrefix_of_longestMatch? hp)
        · split
          · exact .word
          · exact .unknown

variable {alphabet c rest}

/-- The characters of a lexeme and what follows them are the text it was cut from. -/
theorem Front.append {lexeme : Lexeme} (h : Front alphabet c rest lexeme) :
    lexeme.text ++ lexeme.rest = c :: rest := by
  cases h with
  | string => exact congrArg (c :: ·) (body_append c false rest)
  | template => exact congrArg (c :: ·) (body_append c true rest)
  | number => exact numeral_append (c :: rest)
  | punctuator p h =>
    obtain ⟨after, hafter⟩ := h
    simp [← hafter]
  | word => exact congrArg (c :: ·) (span_append alphabet.continuesIdentifier rest)
  | unknown => rfl

/-- What starts with a character has characters. -/
theorem Front.text_ne_nil {lexeme : Lexeme} (h : Front alphabet c rest lexeme) :
    lexeme.text ≠ [] := by
  cases h with
  | string | template | word | unknown => exact List.cons_ne_nil c _
  | number h => exact numeral_ne_nil h
  | punctuator p => exact p.spelling_ne_nil

/-- What starts with a character is not the end of the text. -/
theorem Front.kind_ne_endOfText {lexeme : Lexeme} (h : Front alphabet c rest lexeme) :
    lexeme.kind ≠ .endOfText := by
  cases h with
  | string | template | number | punctuator | unknown => exact nofun
  | word =>
    simp only [Lexeme.word]
    split <;> exact nofun

end Lexeme

/-! ## What a token says of itself -/

/-- The kind of token that a word is. -/
def TokenKind.ofWord (text : String) : TokenKind :=
  match Keyword.ofSpelling? text.toList with
  | some k => .keyword k
  | none => .identifier

/-- The kind and the value of a token that its kind determines. -/
def TokenKind.fixed (kind : TokenKind) : TokenKind × String :=
  (kind, kind.keywordText?.getD "")

/-- A name is a word. -/
theorem TokenKind.isWord_of_isName {kind : TokenKind} (h : kind.isName = true) :
    kind = .identifier ∨ kind.isKeyword = true := by
  cases kind with
  | identifier => exact .inl rfl
  | keyword => exact .inr rfl
  | unknown | endOfText | number | string | template | punctuator => cases h

/-- A word that is read as a keyword is the text of the keyword. -/
theorem TokenKind.text_eq_of_ofWord {text : String} {k : Keyword} (h : ofWord text = .keyword k) :
    text = k.text := by
  unfold ofWord at h
  split at h
  · rename_i found hfound
    injection h with h
    subst h
    exact String.toList_inj.mp (Keyword.ofSpelling?_eq_some_iff.mp hfound)
  · cases h

namespace Token

/-- The kind and the value of a token. -/
def content (token : Token) : TokenKind × String :=
  (token.kind, token.value)

/-- What scanning promises of a token by itself. -/
structure Genuine (token : Token) : Prop where
  /-- A word has the kind that its characters give it, and it has characters. -/
  word : token.kind = .identifier ∨ token.kind.isKeyword = true →
    token.kind = .ofWord token.value ∧ token.value ≠ ""
  /-- A punctuator has no value. -/
  punctuator : ∀ p, token.kind = .punctuator p → token.value = ""

namespace Genuine

variable {token : Token}

/-- The value of a genuine punctuator is the one that its kind fixes. -/
theorem content_of_punctuator {p : Punctuator} (h : token.Genuine)
    (hkind : token.kind = .punctuator p) :
    token.content = (TokenKind.punctuator p).fixed := by
  have hvalue : token.value = "" := h.punctuator p hkind
  rw [content, hkind, hvalue]
  rfl

/-- The value of a genuine keyword is the one that its kind fixes. -/
theorem content_of_keyword {k : Keyword} (h : token.Genuine) (hkind : token.kind = .keyword k) :
    token.content = (TokenKind.keyword k).fixed := by
  have hword := (h.word (.inr (by simp [hkind, TokenKind.isKeyword]))).1
  have hvalue : token.value = k.text := TokenKind.text_eq_of_ofWord (hword.symm.trans hkind)
  rw [content, hkind, hvalue]
  rfl

end Genuine

/-- A token with the kind and the value of what starts with a character is genuine. -/
theorem genuine_of_front {alphabet : Alphabet} {c : Char} {rest : List Char} {lexeme : Lexeme}
    {token : Token} (h : Lexeme.Front alphabet c rest lexeme) (hkind : token.kind = lexeme.kind)
    (hvalue : token.value = String.ofList lexeme.value) : token.Genuine := by
  cases h with
  | string | template | number | unknown =>
    refine ⟨fun h => ?_, fun p h => ?_⟩
    · rw [hkind] at h
      rcases h with h | h <;> cases h
    · rw [hkind] at h
      cases h
  | punctuator p =>
    refine ⟨by simp [hkind, TokenKind.isKeyword], fun _ _ => hvalue⟩
  | word =>
    refine ⟨fun _ => ?_, fun p hp => ?_⟩
    · constructor
      · rw [hkind, hvalue, TokenKind.ofWord, String.toList_ofList]
        rfl
      · rw [hvalue]
        simp [Lexeme.word]
    · rw [hkind] at hp
      simp only [Lexeme.word] at hp
      split at hp <;> cases hp

/-! ## The tokens of a text -/

/-- Whether a token ends before another starts. -/
def Before (first second : Token) : Prop :=
  first.span.stop ≤ second.span.start

/-- The tokens of a text from an offset on, without its end: none of them is an end of text or
empty, and they are in order and apart from each other. -/
structure Segmented (offset : Nat) (tokens : List Token) : Prop where
  ordinary : ∀ token ∈ tokens, token.kind ≠ .endOfText
  genuine : ∀ token ∈ tokens, token.Genuine
  nonempty : ∀ token ∈ tokens, token.span.start < token.span.stop
  after : ∀ token ∈ tokens, offset ≤ token.span.start
  ordered : tokens.Pairwise Before

/-- No tokens divide up a text from any offset on. -/
theorem segmented_nil (offset : Nat) : Segmented offset [] := by
  constructor <;> simp

/-- A token at or after an offset and tokens from its end on divide up the text from the offset
on. -/
theorem Segmented.cons {offset : Nat} {token : Token} {tokens : List Token}
    (hordinary : token.kind ≠ .endOfText) (hgenuine : token.Genuine)
    (hnonempty : token.span.start < token.span.stop) (hafter : offset ≤ token.span.start)
    (h : Segmented token.span.stop tokens) : Segmented offset (token :: tokens) := by
  constructor
  · exact List.forall_mem_cons.mpr ⟨hordinary, h.ordinary⟩
  · exact List.forall_mem_cons.mpr ⟨hgenuine, h.genuine⟩
  · exact List.forall_mem_cons.mpr ⟨hnonempty, h.nonempty⟩
  · refine List.forall_mem_cons.mpr ⟨hafter, fun other hother => ?_⟩
    have := h.after other hother
    omega
  · exact List.pairwise_cons.mpr ⟨h.after, h.ordered⟩

/-- The next token is the end of the text, or else it is genuine, starts at the offset or after it,
and leaves less text. -/
theorem next_cases (alphabet : Alphabet) (offset : Nat) (text : List Char) :
    (next alphabet offset text).1.kind = .endOfText ∨
      (next alphabet offset text).1.kind ≠ .endOfText ∧ (next alphabet offset text).1.Genuine ∧
      offset ≤ (next alphabet offset text).1.span.start ∧
      (next alphabet offset text).1.span.start < (next alphabet offset text).1.span.stop ∧
      (next alphabet offset text).2.length < text.length := by
  have hgap := Trivia.skipFrom_length .plain text
  unfold next
  simp only [Trivia.skip]
  generalize Trivia.skipFrom .plain text = gap at hgap ⊢
  cases hrest : gap.rest with
  | nil => exact .inl rfl
  | cons c rest =>
    have hfront := Lexeme.front_cases alphabet c rest
    have happend := congrArg List.length hfront.append
    have hlength := List.length_pos_iff.mpr hfront.text_ne_nil
    rw [hrest] at hgap
    simp only [List.length_append, List.length_cons] at happend hgap
    refine .inr ⟨hfront.kind_ne_endOfText, genuine_of_front hfront rfl rfl, ?_, ?_, ?_⟩
    all_goals
      simp only
      omega

/-- With more room than text, reading stops at the end of the text. -/
theorem read_segmented (alphabet : Alphabet) (limit offset : Nat) (text : List Char)
    (h : text.length < limit) :
    ∃ tokens final, read alphabet limit offset text = tokens ++ [final] ∧
      final.kind = .endOfText ∧ Segmented offset tokens := by
  induction limit generalizing offset text with
  | zero => omega
  | succ limit ih =>
    unfold read
    simp only
    rcases next_cases alphabet offset text with hkind | ⟨hkind, hgenuine, hafter, hnonempty, hless⟩
    · rw [if_pos hkind]
      exact ⟨[], _, rfl, hkind, segmented_nil offset⟩
    · rw [if_neg hkind]
      obtain ⟨tokens, final, htokens, hfinal, hsegmented⟩ :=
        ih (next alphabet offset text).1.span.stop (next alphabet offset text).2 (by omega)
      refine ⟨_ :: tokens, final, by rw [htokens, List.cons_append], hfinal, ?_⟩
      exact hsegmented.cons hkind hgenuine hnonempty hafter

/-- The tokens of a text divide it up from its start, and only the last one is the end of the
text. -/
theorem ofText_segmented (alphabet : Alphabet) (text : List Char) :
    ∃ tokens final, ofText alphabet text = tokens ++ [final] ∧ final.kind = .endOfText ∧
      Segmented 0 tokens :=
  read_segmented alphabet (text.length + 1) 0 text (Nat.lt_succ_self _)

end Token

end ExpressionTyping
