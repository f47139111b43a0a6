import ExpressionTyping.Proofs.Token.Segmentation
import ExpressionTyping.Syntax.Statement

/-!
# Where the tokens of a text stand

Scanning keeps an offset and the text that is left, and the two agree: what is left is the text from
the offset on. So each token names a range of its text, and the characters in that range are those
of the lexeme the token was made of (`Token.Located`). Words and numbers are cut out of the text as
they stand, and a punctuator stands where its span says.

The tokens come in order, the end of the text after all others (`ofText_located`).
-/

set_option autoImplicit false

namespace ExpressionTyping

/-! ## Ranges of a text -/

namespace Span

/-- A span of a text of a given length: its bounds are in order and it does not pass the end. -/
structure Within (span : Span) (length : Nat) : Prop where
  ordered : span.start ≤ span.stop
  bounded : span.stop ≤ length

/-- The characters of a text that a span covers. -/
def cut (span : Span) (text : List Char) : List Char :=
  (text.drop span.start).take span.length

/-- An empty span at an offset of a text lies within it. -/
theorem Within.empty {offset length : Nat} (h : offset ≤ length) :
    (⟨offset, offset⟩ : Span).Within length :=
  ⟨Nat.le_refl offset, h⟩

/-- The characters in front of an offset's rest are what their span cuts out of the text. -/
theorem cut_of_append {text first rest : List Char} {start : Nat}
    (h : text.drop start = first ++ rest) :
    (⟨start, start + first.length⟩ : Span).cut text = first := by
  have hlength : start + first.length - start = first.length := by omega
  simp [cut, Span.length, h, hlength]

/-- What a span covers, a span around it covers too. -/
theorem mem_cut_of_mem {inner outer : Span} {text : List Char} {c : Char}
    (hstart : outer.start ≤ inner.start) (hstop : inner.stop ≤ outer.stop)
    (h : c ∈ inner.cut text) : c ∈ outer.cut text := by
  have hdrop : text.drop inner.start =
      (text.drop outer.start).drop (inner.start - outer.start) := by
    rw [List.drop_drop]
    congr 1
    omega
  have htake : inner.cut text =
      ((outer.cut text).drop (inner.start - outer.start)).take inner.length := by
    unfold cut
    rw [List.drop_take, List.take_take, hdrop]
    congr 1
    unfold Span.length
    omega
  rw [htake] at h
  exact List.mem_of_mem_drop (List.mem_of_mem_take h)

end Span

/-! ## Trivia -/

/-- What is left after skipping is the text from the skipped characters on. -/
theorem Trivia.skipFrom_rest (mode : Mode) (text : List Char) :
    (skipFrom mode text).rest = text.drop (skipFrom mode text).length := by
  fun_induction skipFrom mode text <;> simp_all [Gap.extend]

/-! ## Lexemes that start with a letter -/

/-- Letters come after the digits. -/
theorem not_isDigit_of_isAlpha {c : Char} (h : c.isAlpha = true) : c.isDigit = false := by
  have hlow : 'A'.val ≤ c.val := by
    rcases Bool.or_eq_true_iff.mp h with hupper | hlower
    · change decide ('A'.val ≤ c.val ∧ c.val ≤ 'Z'.val) = true at hupper
      exact (of_decide_eq_true hupper).1
    · obtain ⟨hlow, -⟩ := Bool.and_eq_true_iff.mp hlower
      exact UInt32.le_trans (by decide) (of_decide_eq_true hlow)
  have hhigh : ¬c.val ≤ '9'.val := fun hhigh => absurd (UInt32.le_trans hlow hhigh) (by decide)
  rw [Char.isDigit, decide_eq_false hhigh, Bool.and_false]

/-- No character of a punctuator is a letter. -/
theorem Punctuator.not_isAlpha {p : Punctuator} {c : Char} (h : c ∈ p.spelling) :
    c.isAlpha = false := by
  have hall : p.spelling.all (fun c => !c.isAlpha) = true := by cases p <;> decide
  simpa using List.all_eq_true.mp hall c h

/-- Every character of a keyword is a letter. -/
theorem Keyword.isAlpha {k : Keyword} {c : Char} (h : c ∈ k.spelling) : c.isAlpha = true := by
  have hall : k.spelling.all Char.isAlpha = true := by cases k <;> decide
  exact List.all_eq_true.mp hall c h

namespace Lexeme

/-- A lexeme starts with the character it was found at. -/
theorem front_head (alphabet : Alphabet) (c : Char) (rest : List Char) :
    ∃ tail, (front alphabet c rest).text = c :: tail := by
  have happend := (front_cases alphabet c rest).append
  have hne := (front_cases alphabet c rest).text_ne_nil
  cases htext : (front alphabet c rest).text with
  | nil => exact absurd htext hne
  | cons d tail =>
    rw [htext] at happend
    exact ⟨tail, by rw [(List.cons.inj happend).1]⟩

/-- No string, template, number or punctuator starts with a letter. -/
theorem front_of_isAlpha (alphabet : Alphabet) {c : Char} (rest : List Char)
    (h : c.isAlpha = true) :
    front alphabet c rest = word alphabet c rest ∨
      front alphabet c rest = ⟨.unknown, [c], [], some .invalidCharacter, rest⟩ := by
  have hne {d : Char} (hd : d.isAlpha = false) : c ≠ d := by
    rintro rfl
    exact absurd h (by simp [hd])
  have hquote : ¬(c = '"' ∨ c = '\'') := by
    rintro (rfl | rfl) <;> cases h
  have hbackquote : c ≠ '\x60' := hne rfl
  have hdigit : c.isDigit = false := not_isDigit_of_isAlpha h
  have hnumber : startsNumber (c :: rest) = false := by
    unfold startsNumber
    split
    · rename_i heq
      exact absurd (List.cons.inj heq).1 (hne rfl)
    · rename_i d _ _ heq
      rw [← (List.cons.inj heq).1]
      exact hdigit
    · rfl
  have hmatch : Punctuator.longestMatch? (c :: rest) = none := by
    cases hfound : Punctuator.longestMatch? (c :: rest) with
    | none => rfl
    | some p =>
      obtain ⟨after, hafter⟩ := Punctuator.isPrefix_of_longestMatch? hfound
      obtain ⟨d, tail, hspelling⟩ := List.exists_cons_of_ne_nil p.spelling_ne_nil
      rw [hspelling] at hafter
      have hd : d = c := (List.cons.inj hafter).1
      have hmem : c ∈ p.spelling := by rw [hspelling, hd]; exact List.mem_cons_self
      exact absurd h (by simp [Punctuator.not_isAlpha hmem])
  rw [front_eq_longest]
  simp only [longest, hquote, hbackquote, hnumber, hmatch, if_false]
  by_cases hstarts : alphabet.startsIdentifier c = true
  · simp [hstarts]
  · simp [hstarts]

end Lexeme

/-! ## Tokens -/

namespace Token

/-- A token stands in a text where its span says: it is the end of the text, or the lexeme that the
text has there. -/
structure Located (alphabet : Alphabet) (text : List Char) (token : Token) : Prop where
  within : token.span.Within text.length
  content : token.kind = .endOfText ∧ token.span.start = token.span.stop ∨
    ∃ c rest, text.drop token.span.start = c :: rest ∧
      token.kind = (Lexeme.front alphabet c rest).kind ∧
      token.value = String.ofList (Lexeme.front alphabet c rest).value ∧
      token.span.cut text = (Lexeme.front alphabet c rest).text

/-- The next token stands in the text, at the offset or after it, and what it leaves is the text
after it. -/
theorem next_located (alphabet : Alphabet) {offset : Nat} {text rest : List Char}
    (h : text.drop offset = rest) (hoffset : offset ≤ text.length) :
    (next alphabet offset rest).1.Located alphabet text ∧
      offset ≤ (next alphabet offset rest).1.span.start ∧
      text.drop (next alphabet offset rest).1.span.stop = (next alphabet offset rest).2 := by
  have hlength := Trivia.skipFrom_length .plain rest
  have hrest := Trivia.skipFrom_rest .plain rest
  have hleft : rest.length = text.length - offset := by rw [← h, List.length_drop]
  unfold next
  simp only [Trivia.skip]
  generalize Trivia.skipFrom .plain rest = gap at hlength hrest ⊢
  rw [← h, List.drop_drop] at hrest
  cases hgap : gap.rest with
  | nil =>
    have hend : offset + gap.length = text.length := by
      rw [hgap, List.length_nil] at hlength
      omega
    simp only [endOfText, hend]
    refine ⟨⟨.empty (Nat.le_refl _), .inl ⟨rfl, rfl⟩⟩, hoffset, ?_⟩
    exact List.drop_length
  | cons c tail =>
    simp only
    have happend := (Lexeme.front_cases alphabet c tail).append
    rw [hgap] at hrest
    have hdrop : text.drop (offset + gap.length) = (Lexeme.front alphabet c tail).text ++
        (Lexeme.front alphabet c tail).rest := by rw [← hrest, happend]
    have htotal := congrArg List.length hdrop
    rw [List.length_append, List.length_drop] at htotal
    rw [hgap, List.length_cons] at hlength
    refine ⟨⟨⟨?_, ?_⟩, .inr ⟨c, tail, hrest.symm, rfl, rfl, ?_⟩⟩, ?_, ?_⟩
    · show offset + gap.length ≤ offset + gap.length + _
      omega
    · show offset + gap.length + (Lexeme.front alphabet c tail).text.length ≤ text.length
      omega
    · exact Span.cut_of_append hdrop
    · show offset ≤ offset + gap.length
      omega
    · rw [← List.drop_drop, hdrop, List.drop_left]

/-- Each token that is read lies at its place in the text, at or after the offset, and each ends
before the next starts. -/
theorem read_located (alphabet : Alphabet) (limit : Nat) {offset : Nat} {text rest : List Char}
    (h : text.drop offset = rest) (hoffset : offset ≤ text.length) :
    (∀ token ∈ read alphabet limit offset rest,
      token.Located alphabet text ∧ offset ≤ token.span.start) ∧
    (read alphabet limit offset rest).Pairwise Before := by
  induction limit generalizing offset rest with
  | zero => simp [read]
  | succ limit ih =>
    obtain ⟨hlocated, hafter, hleft⟩ := next_located alphabet h hoffset
    have hbounded := hlocated.within.bounded
    have hordered := hlocated.within.ordered
    unfold read
    simp only
    split
    · simpa using ⟨hlocated, hafter⟩
    · obtain ⟨hall, hpairs⟩ := ih hleft hbounded
      refine ⟨List.forall_mem_cons.mpr ⟨⟨hlocated, hafter⟩, fun token htoken => ?_⟩, ?_⟩
      · obtain ⟨hother, hstart⟩ := hall token htoken
        exact ⟨hother, by omega⟩
      · exact List.pairwise_cons.mpr ⟨fun token htoken => (hall token htoken).2, hpairs⟩

/-- The tokens of a text stand in it where their spans say, in order and apart from each other. -/
theorem ofText_located (alphabet : Alphabet) (text : List Char) :
    (∀ token ∈ ofText alphabet text, token.Located alphabet text) ∧
      (ofText alphabet text).Pairwise Before := by
  have hstart : text.drop 0 = text := rfl
  obtain ⟨hall, hpairs⟩ := read_located alphabet (text.length + 1) hstart (Nat.zero_le _)
  exact ⟨fun token htoken => (hall token htoken).1, hpairs⟩

/-- Every token of a text starts after the one before it. -/
theorem ofText_ordered (alphabet : Alphabet) (text : List Char) :
    (ofText alphabet text).Pairwise fun first second => first.span.start < second.span.start := by
  obtain ⟨tokens, final, htokens, -, hsegmented⟩ := ofText_segmented alphabet text
  have hbefore := (ofText_located alphabet text).2
  rw [htokens] at hbefore ⊢
  obtain ⟨-, -, hlast⟩ := List.pairwise_append.mp hbefore
  have hstep {first second : Token} (hfirst : first ∈ tokens) (h : Before first second) :
      first.span.start < second.span.start :=
    Nat.lt_of_lt_of_le (hsegmented.nonempty first hfirst) h
  refine List.pairwise_append.mpr ⟨?_, by simp, fun first hfirst second hsecond => ?_⟩
  · exact hsegmented.ordered.imp_of_mem fun hfirst _ h => hstep hfirst h
  · exact hstep hfirst (hlast first hfirst second hsecond)

/-- Every text has a token, if only the one at its end. -/
theorem ofText_ne_nil (alphabet : Alphabet) (text : List Char) : ofText alphabet text ≠ [] := by
  obtain ⟨tokens, final, htokens, -⟩ := ofText_segmented alphabet text
  simp [htokens]

/-! ## What stands in the range of a token -/

namespace Located

variable {alphabet : Alphabet} {text : List Char} {token : Token}
  (h : token.Located alphabet text)
include h

/-- What is told by the lexeme of a token that is not the end of the text. -/
theorem front (hkind : token.kind ≠ .endOfText) : ∃ c rest,
    token.kind = (Lexeme.front alphabet c rest).kind ∧
    token.value = String.ofList (Lexeme.front alphabet c rest).value ∧
    token.span.cut text = (Lexeme.front alphabet c rest).text := by
  rcases h.content with ⟨hend, -⟩ | ⟨c, rest, -, hlexeme⟩
  · exact absurd hend hkind
  · exact ⟨c, rest, hlexeme⟩

/-- The end of the text has no width. -/
theorem start_eq_stop (hkind : token.kind = .endOfText) : token.span.start = token.span.stop := by
  rcases h.content with ⟨-, hempty⟩ | ⟨c, rest, -, hfront, -⟩
  · exact hempty
  · have hordinary := (Lexeme.front_cases alphabet c rest).kind_ne_endOfText
    exact absurd (hfront.symm.trans hkind) hordinary

/-- A word or a number is the characters in its range. -/
theorem value_eq_cut
    (hkind : token.kind = .identifier ∨ token.kind.isKeyword = true ∨ token.kind = .number) :
    token.value.toList = token.span.cut text := by
  have hordinary : token.kind ≠ .endOfText := by
    rintro heq
    simp [heq, TokenKind.isKeyword] at hkind
  obtain ⟨c, rest, hfront, hvalue, hcut⟩ := h.front hordinary
  have hcases := Lexeme.front_cases alphabet c rest
  rw [hvalue, hcut, String.toList_ofList]
  rw [hfront] at hkind
  generalize Lexeme.front alphabet c rest = lexeme at hcases hkind
  cases hcases with
  | number => rfl
  | word => rfl
  | string | template | punctuator | unknown =>
    simp [Lexeme.string, Lexeme.template, TokenKind.isKeyword] at hkind

/-- A punctuator has its characters in its range. -/
theorem cut_of_punctuator {p : Punctuator} (hkind : token.kind = .punctuator p) :
    token.span.cut text = p.spelling := by
  obtain ⟨c, rest, hfront, -, hcut⟩ := h.front (by simp [hkind])
  have hcases := Lexeme.front_cases alphabet c rest
  rw [hcut]
  rw [hkind] at hfront
  generalize Lexeme.front alphabet c rest = lexeme at hcases hfront
  cases hcases with
  | punctuator p' =>
    cases hfront
    rfl
  | word =>
    simp only [Lexeme.word] at hfront
    split at hfront <;> cases hfront
  | string | template | number | unknown => cases hfront

/-- What is written as a keyword is that keyword. -/
theorem kind_of_cut {k : Keyword} (hcut : token.span.cut text = k.spelling) :
    token.kind = .keyword k := by
  have hlong : 1 < k.spelling.length := by cases k <;> decide
  rcases h.content with ⟨-, hempty⟩ | ⟨c, rest, -, hkind, -, hfront⟩
  · have hlength : token.span.length = 0 := by
      unfold Span.length
      omega
    rw [Span.cut, hlength, List.take_zero] at hcut
    rw [← hcut] at hlong
    cases hlong
  · obtain ⟨tail, htext⟩ := Lexeme.front_head alphabet c rest
    rw [hcut] at hfront
    have hletter : c.isAlpha = true := by
      refine Keyword.isAlpha (k := k) ?_
      rw [hfront, htext]
      exact List.mem_cons_self
    rcases Lexeme.front_of_isAlpha alphabet rest hletter with hword | hunknown
    · rw [hword] at hkind hfront
      have hspelled : Keyword.ofSpelling? (Lexeme.word alphabet c rest).text = some k := by
        rw [← hfront, Keyword.ofSpelling?_eq_some_iff]
      simp only [Lexeme.word] at hspelled hkind
      rw [hkind, hspelled]
    · rw [hfront, hunknown] at hlong
      exact absurd hlong (Nat.lt_irrefl 1)

end Located

end Token

end ExpressionTyping
