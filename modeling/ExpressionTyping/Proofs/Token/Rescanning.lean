import Mathlib.Data.List.TakeWhile
import ExpressionTyping.Proofs.Token.Faithfulness
import ExpressionTyping.Proofs.Token.Spelling

/-!
# Scanning a text again

What a token is does not depend on what followed it in its text. Every part of a lexeme is
recognised from its own characters (the `_alone` lemmas): the digits, the fraction and the exponent
of a number, the body of a string that was closed, a word, a punctuator. So a lexeme without fault is
the lexeme of its own characters (`Lexeme.front_alone`), and since these start no comment, they are
scanned as that token wherever a space follows (`Token.ReadAs`). A text in which every gap is replaced
by one space therefore has the tokens that it had before (`Token.ofText_respaced`).
-/

set_option autoImplicit false

namespace ExpressionTyping

/-! ## Lexemes alone -/

namespace Lexeme

/-- A run of characters ends where it did when what follows starts with another character. -/
theorem span_append_of_stop {p : Char → Bool} {text rest : List Char}
    (htext : ∀ c ∈ text, p c = true) (hrest : ∀ c ∈ rest.head?, p c = false) :
    (text ++ rest).span p = (text, rest) := by
  rw [List.span_eq_takeWhile_dropWhile, List.takeWhile_append_of_pos htext,
    List.dropWhile_append_of_pos htext]
  cases rest with
  | nil => simp
  | cons c rest => simp [hrest c rfl]

/-- Every character of a run is one of the kind that the run is of. -/
theorem span_all (p : Char → Bool) (text : List Char) : ∀ c ∈ (text.span p).1, p c = true := by
  rw [List.span_eq_takeWhile_dropWhile]
  exact fun c hc => List.mem_takeWhile_imp hc

/-- A run read by itself is all of the run. -/
theorem span_alone (p : Char → Bool) (text : List Char) :
    (text.span p).1.span p = ((text.span p).1, []) := by
  have h := @span_append_of_stop p _ [] (span_all p text) (by simp)
  rwa [List.append_nil] at h

/-- The point comes first in a fraction. -/
theorem fraction_head (text : List Char) : ∀ c ∈ (fraction text).1.head?, c = '.' := by
  unfold fraction
  split <;> simp

/-- An exponent starts with its letter. -/
theorem exponent_head (text : List Char) : ∀ c ∈ (exponent text).1.head?, c = 'e' ∨ c = 'E' := by
  unfold exponent
  split
  · split
    · rename_i h
      simpa using h
    · simp
  · simp

/-- A sign read in front of what is no sign is the same sign. -/
theorem sign_alone (text : List Char) {rest : List Char}
    (h : ∀ c ∈ rest.head?, c ≠ '+' ∧ c ≠ '-') :
    sign ((sign text).1 ++ rest) = ((sign text).1, rest) := by
  have hnone : sign rest = ([], rest) := by
    cases rest with
    | nil => rfl
    | cons c rest =>
      obtain ⟨hplus, hminus⟩ := h c rfl
      simp [sign, hplus, hminus]
  have hcases : (sign text).1 = ['+'] ∨ (sign text).1 = ['-'] ∨ (sign text).1 = [] := by
    unfold sign
    split <;> simp
  rcases hcases with hsign | hsign | hsign
  · rw [hsign]
    rfl
  · rw [hsign]
    rfl
  · rw [hsign]
    exact hnone

/-- An exponent read by itself is the same exponent. -/
theorem exponent_alone (text : List Char) :
    exponent (exponent text).1 = ((exponent text).1, []) := by
  cases text with
  | nil => rfl
  | cons c text =>
    by_cases hc : c = 'e' ∨ c = 'E'
    · have hspan := span_alone isDigitOrSeparator (sign text).2
      have hhead : ∀ d ∈ ((sign text).2.span isDigitOrSeparator).1.head?, d ≠ '+' ∧ d ≠ '-' := by
        intro d hd
        have hdigit := span_all isDigitOrSeparator _ d (List.mem_of_mem_head? hd)
        constructor <;> rintro rfl <;> cases hdigit
      simp only [exponent, if_pos hc, List.cons_append, sign_alone text hhead, hspan]
    · simp only [exponent, if_neg hc]

/-- A fraction ends before the exponent that follows it. -/
theorem fraction_alone (text : List Char) {rest : List Char}
    (h : ∀ c ∈ rest.head?, c = 'e' ∨ c = 'E') :
    fraction ((fraction text).1 ++ rest) = ((fraction text).1, rest) := by
  have hstop : ∀ c ∈ rest.head?, isDigitOrSeparator c = false := by
    intro c hc
    rcases h c hc with rfl | rfl <;> rfl
  have hnone : fraction rest = ([], rest) := by
    cases rest with
    | nil => rfl
    | cons c rest => rcases h c rfl with rfl | rfl <;> rfl
  cases text with
  | nil => exact hnone
  | cons c text =>
    by_cases hc : c = '.'
    · subst hc
      have hspan := span_append_of_stop (span_all isDigitOrSeparator text) hstop
      simp only [fraction, List.cons_append, hspan]
    · have hempty : (fraction (c :: text)).1 = [] := by
        simp [fraction, hc]
      rw [hempty]
      exact hnone

/-- A decimal number read by itself is the same number. -/
theorem decimal_alone (text : List Char) : decimal (decimal text).1 = ((decimal text).1, []) := by
  generalize hrest : (text.span isDigitOrSeparator).2 = rest
  generalize hmore : (fraction rest).2 = more
  have hfraction := fraction_alone rest (exponent_head more)
  have hstop : ∀ c ∈ ((fraction rest).1 ++ (exponent more).1).head?,
      isDigitOrSeparator c = false := by
    intro c hc
    rw [List.head?_append, Option.mem_def, Option.or_eq_some_iff] at hc
    rcases hc with hc | ⟨-, hc⟩
    · rw [fraction_head rest c hc]
      rfl
    · rcases exponent_head more c hc with rfl | rfl <;> rfl
  have hwhole := span_append_of_stop (span_all isDigitOrSeparator text) hstop
  simp only [decimal, hrest, hmore, List.append_assoc, hwhole, hfraction, exponent_alone]

/-- A text starts with the mark of a hexadecimal number. -/
def startsHexadecimal : List Char → Bool
  | '0' :: x :: _ => x = 'x' || x = 'X'
  | _ => false

/-- What does not start with `0x` is read as a decimal number. -/
theorem numeral_of_not_startsHexadecimal {text : List Char} (h : startsHexadecimal text = false) :
    numeral text = decimal text := by
  unfold numeral
  split
  · rename_i x rest
    have hx : ¬ (x = 'x' ∨ x = 'X') := by simpa [startsHexadecimal] using h
    rw [if_neg hx]
  · rfl

/-- What starts with `0x` does so whatever follows. -/
theorem startsHexadecimal_append {text rest : List Char} (h : startsHexadecimal text = true) :
    startsHexadecimal (text ++ rest) = true := by
  unfold startsHexadecimal at h
  split at h
  · exact h
  · cases h

/-- A number read by itself is the same number. -/
theorem numeral_alone (text : List Char) : numeral (numeral text).1 = ((numeral text).1, []) := by
  cases hhex : startsHexadecimal text with
  | true =>
    unfold startsHexadecimal at hhex
    split at hhex
    · rename_i x rest
      have hx : x = 'x' ∨ x = 'X' := by simpa using hhex
      simp only [numeral, if_pos hx, span_alone]
    · cases hhex
  | false =>
    have hshorter : startsHexadecimal (decimal text).1 = false := by
      by_contra h
      have hwhole := @startsHexadecimal_append _ (decimal text).2 (by simpa using h)
      rw [decimal_append, hhex] at hwhole
      cases hwhole
    rw [numeral_of_not_startsHexadecimal hhex, numeral_of_not_startsHexadecimal hshorter,
      decimal_alone]

/-- What starts a number still starts one when text follows. -/
theorem startsNumber_append {text : List Char} (h : startsNumber text = true) (more : List Char) :
    startsNumber (text ++ more) = true := by
  match text, h with
  | [d], h =>
    have hd : d ≠ '.' := by
      rintro rfl
      cases h
    simpa [startsNumber, hd] using h
  | d :: e :: text, h =>
    by_cases hd : d = '.'
    · subst hd
      exact h
    · simpa [startsNumber, hd] using h

/-- The characters of a number start a number. -/
theorem startsNumber_alone {text : List Char} (h : startsNumber text = true) :
    startsNumber (numeral text).1 = true := by
  have hpoint {d : Char} (hd : d.isDigit = true) (rest : List Char) :
      ∃ tail, (numeral ('.' :: d :: rest)).1 = '.' :: d :: tail := by
    have hclass : isDigitOrSeparator d = true := by simp [isDigitOrSeparator, hd]
    have hstop : isDigitOrSeparator '.' = false := rfl
    simp [numeral, decimal, fraction, List.span_eq_takeWhile_dropWhile, hclass, hstop]
  obtain ⟨d, tail, hdigits⟩ := List.exists_cons_of_ne_nil (numeral_ne_nil h)
  have happend := numeral_append text
  rw [hdigits, List.cons_append] at happend
  by_cases hd : d = '.'
  · subst hd
    rw [← happend] at h hdigits ⊢
    cases hrest : tail ++ (numeral text).2 with
    | nil =>
      rw [hrest] at h
      cases h
    | cons e rest =>
      rw [hrest] at h
      obtain ⟨tail, htail⟩ := hpoint h rest
      rw [htail]
      exact h
  · have hother (tail : List Char) : startsNumber (d :: tail) = d.isDigit := by
      simp [startsNumber, hd]
    rw [← happend, hother] at h
    rw [hdigits, hother, h]

/-- The body of a closed literal read by itself is the same body. -/
theorem body_alone {quote : Char} {multiline : Bool} {text : List Char}
    (h : (body quote multiline text).closed = true) :
    body quote multiline (body quote multiline text).text =
      { body quote multiline text with rest := [] } := by
  fun_induction body quote multiline text with
  | case1 => cases h
  | case2 => cases h
  | case3 c text tail ih =>
    simp only [body]
    rw [ih h]
  | case4 text hnil hcons =>
    rw [body_plain (ne_backslash hnil hcons), if_pos rfl]
  | case5 c text => cases h
  | case6 c text hnil hcons hquote hbreak tail ih =>
    rw [body_plain (ne_backslash hnil hcons), if_neg hquote, if_neg hbreak, ih h]

/-- A word starts with its first character, and read by itself it is the same word. -/
theorem word_alone (alphabet : Alphabet) (c : Char) (rest : List Char) :
    ∃ tail, (word alphabet c rest).text = c :: tail ∧
      word alphabet c tail = { word alphabet c rest with rest := [] } := by
  refine ⟨(rest.span alphabet.continuesIdentifier).1, rfl, ?_⟩
  simp only [word, span_alone]

/-- A lexeme without fault is the lexeme of its own characters. -/
theorem front_alone {alphabet : Alphabet} {c : Char} {rest : List Char}
    (h : (front alphabet c rest).fault? = none) :
    ∃ tail, (front alphabet c rest).text = c :: tail ∧
      front alphabet c tail = { front alphabet c rest with rest := [] } := by
  obtain ⟨tail, htail⟩ := front_head alphabet c rest
  refine ⟨tail, htail, ?_⟩
  rw [front_eq_longest] at h htail ⊢
  rw [front_eq_longest]
  unfold longest at h htail ⊢
  split at h
  · rename_i hquote
    have hclosed : (body c false rest).closed = true := by
      simpa [string] using h
    simp only [if_pos hquote, string] at htail ⊢
    obtain rfl := (List.cons.inj htail).2
    rw [body_alone hclosed]
  · rename_i hquote
    rw [if_neg hquote] at htail ⊢
    rw [if_neg hquote]
    split at h
    · rename_i hbackquote
      have hclosed : (body c true rest).closed = true := by
        simpa [template] using h
      simp only [if_pos hbackquote, template] at htail ⊢
      obtain rfl := (List.cons.inj htail).2
      rw [body_alone hclosed]
    · rename_i hbackquote
      rw [if_neg hbackquote] at htail ⊢
      rw [if_neg hbackquote]
      split at h
      · rename_i hnumber
        simp only [if_pos hnumber, number] at htail ⊢
        have hstarts := startsNumber_alone hnumber
        have halone := numeral_alone (c :: rest)
        rw [htail] at hstarts halone
        simp only [if_pos hstarts, halone, htail]
      · rename_i hnumber
        rw [if_neg hnumber] at htail ⊢
        cases hmatch : Punctuator.longestMatch? (c :: rest) with
        | some p =>
          simp only [hmatch] at htail ⊢
          obtain ⟨d, tail', hspelling, -, hfront⟩ := Token.front_punctuator alphabet p
          rw [htail] at hspelling
          obtain ⟨rfl, rfl⟩ := List.cons.inj hspelling
          rw [front_eq_longest, longest, if_neg hquote, if_neg hbackquote] at hfront
          rw [hfront]
        | none =>
          simp only [hmatch] at h htail ⊢
          split at h
          · rename_i hstarts
            simp only [if_pos hstarts] at htail ⊢
            obtain ⟨tail', htext, hword⟩ := word_alone alphabet c rest
            rw [htail] at htext
            obtain rfl := (List.cons.inj htext).2
            have hshorter : c :: tail <+: c :: rest :=
              ⟨(word alphabet c rest).rest, htail ▸ (@Front.word alphabet c rest).append⟩
            have hnumber' : ¬ startsNumber (c :: tail) = true := by
              intro hstart
              obtain ⟨more, hmore⟩ := hshorter
              exact hnumber (hmore ▸ startsNumber_append hstart more)
            have hmatch' : Punctuator.longestMatch? (c :: tail) = none := by
              refine List.find?_eq_none.mpr fun p _ hp => ?_
              have hstarts := List.isPrefixOf_iff_prefix.mp hp
              exact Punctuator.not_prefix_of_longestMatch? hmatch p (hstarts.trans hshorter)
            rw [if_neg hnumber', hmatch', ← hword]
          · cases h

end Lexeme

/-! ## Tokens alone -/

namespace Trivia

/-- Where trivia ends, none starts. -/
theorem skip_skipFrom_rest (mode : Mode) (text : List Char) :
    (skip (skipFrom mode text).rest).length = 0 := by
  fun_induction skipFrom mode text with
  | case1 => rfl
  | case2 rest ih | case4 c rest _ ih | case5 c rest _ ih | case3 c rest _ ih => exact ih
  | case6 rest ih | case7 rest ih => exact ih
  | case8 c rest _ _ _ ih | case9 c rest _ _ _ _ ih => exact ih
  | case10 c rest hline hblock hbreak hblank =>
    show (skipFrom .plain (c :: rest)).length = 0
    rw [skipFrom]
    · rw [if_neg hbreak, if_neg hblank]
    · exact hline
    · exact hblock

/-- What starts with no trivia starts with none when text is taken away behind. -/
theorem skip_length_of_append {c : Char} {text more : List Char}
    (h : (skip (c :: (text ++ more))).length = 0) : (skip (c :: text)).length = 0 := by
  have hlonger : ¬ StartsComment c (text ++ more) := fun hc => length_ne_zero_of_startsComment hc h
  have hshorter : ¬ StartsComment c text := by
    rintro ⟨hc, hhead⟩
    refine hlonger ⟨hc, ?_⟩
    cases text with
    | nil => simp at hhead
    | cons d text => exact hhead
  rw [skip_cons hlonger] at h
  rw [skip_cons hshorter]
  split at h
  · cases h
  · rename_i hbreak
    split at h
    · cases h
    · rename_i hblank
      rw [if_neg hbreak, if_neg hblank]

end Trivia

namespace Token

variable {alphabet : Alphabet}

/-- The characters of a lexeme without fault are scanned as its token. -/
theorem readAs_front {c : Char} {rest : List Char} (hskip : (Trivia.skip (c :: rest)).length = 0)
    (hfault : (Lexeme.front alphabet c rest).fault? = none) :
    ReadAs alphabet (Lexeme.front alphabet c rest).text
      ((Lexeme.front alphabet c rest).kind, String.ofList (Lexeme.front alphabet c rest).value) := by
  obtain ⟨tail, htext, hfront⟩ := Lexeme.front_alone hfault
  have happend := (Lexeme.front_cases alphabet c rest).append
  rw [htext, List.cons_append] at happend
  rw [← happend] at hskip
  rw [htext]
  have hvalue : Lexeme.front alphabet c tail = ⟨(Lexeme.front alphabet c rest).kind,
      (Lexeme.front alphabet c rest).text,
      (String.ofList (Lexeme.front alphabet c rest).value).toList, none, []⟩ := by
    rw [hfront, String.toList_ofList, ← hfault]
  exact readAs_of_front (Trivia.skip_length_of_append hskip) hvalue

/-- Every token of a text was the next one somewhere. -/
theorem exists_next_of_mem_read {limit offset : Nat} {text rest : List Char}
    (h : text.drop offset = rest) (hoffset : offset ≤ text.length) {token : Token}
    (htoken : token ∈ read alphabet limit offset rest) :
    ∃ before ≤ text.length, token = (next alphabet before (text.drop before)).1 := by
  induction limit generalizing offset rest with
  | zero => cases htoken
  | succ limit ih =>
    obtain ⟨hlocated, -, hleft⟩ := next_located alphabet h hoffset
    have hfirst : ∃ before ≤ text.length,
        (next alphabet offset rest).1 = (next alphabet before (text.drop before)).1 :=
      ⟨offset, hoffset, by rw [h]⟩
    unfold read at htoken
    simp only at htoken
    split at htoken
    · rw [List.mem_singleton.mp htoken]
      exact hfirst
    · rcases List.mem_cons.mp htoken with rfl | htoken
      · exact hfirst
      · exact ih hleft hlocated.within.bounded htoken

/-- Every token of a text is the next one at some offset of it. -/
theorem exists_next_of_mem_ofText {text : List Char} {token : Token}
    (h : token ∈ ofText alphabet text) :
    ∃ before ≤ text.length, token = (next alphabet before (text.drop before)).1 :=
  exists_next_of_mem_read rfl (Nat.zero_le _) h

/-- The end of a text has no value. -/
theorem content_of_endOfText {text : List Char} {token : Token} (h : token ∈ ofText alphabet text)
    (hkind : token.kind = .endOfText) : token.content = (.endOfText, "") := by
  obtain ⟨before, -, rfl⟩ := exists_next_of_mem_ofText h
  have hempty := (next_gap alphabet before (text.drop before)).2.2.mp hkind
  simp only [next, hempty]
  rfl

/-- The characters in the range of a token without fault are scanned as that token. -/
theorem readAs_cut {text : List Char} {token : Token} (h : token ∈ ofText alphabet text)
    (hkind : token.kind ≠ .endOfText) (hfault : token.fault? = none) :
    ReadAs alphabet (token.span.cut text) token.content := by
  obtain ⟨before, hbefore, rfl⟩ := exists_next_of_mem_ofText h
  generalize hrest : text.drop before = rest at hkind hfault ⊢
  obtain ⟨c, tail, hskip, -, -, hfault', -⟩ := (next_lexeme alphabet before rest).resolve_left hkind
  obtain ⟨d, tail', hdrop, hkind', hvalue, hcut⟩ :=
    (next_located alphabet hrest hbefore).1.content.resolve_left fun hend => hkind hend.1
  have hstart : text.drop (next alphabet before rest).1.span.start = c :: tail := by
    rw [(next_gap alphabet before rest).1, ← List.drop_drop, hrest, ← hskip]
    exact (Trivia.skipFrom_rest .plain rest).symm
  obtain ⟨rfl, rfl⟩ := List.cons.inj (hdrop.symm.trans hstart)
  have hplain : (Trivia.skip (d :: tail')).length = 0 := by
    rw [← hskip]
    exact Trivia.skip_skipFrom_rest .plain rest
  have hread := readAs_front hplain (hfault'.symm.trans hfault)
  rw [← hcut, ← hkind', ← hvalue] at hread
  exact hread

/-! ## Texts with one space in every gap -/

/-- The tokens of a text as they stand in it, with one space between them. The last token is the end
of the text and has no characters. -/
def respaced (alphabet : Alphabet) (text : List Char) : List Char :=
  [' '].intercalate ((ofText alphabet text).dropLast.map fun token => token.span.cut text)

/-- A text whose tokens have no fault has the same tokens when each gap is replaced by one space, and
again none of them has a fault. -/
theorem ofText_respaced {text : List Char} (h : (ofText alphabet text).filterMap issue? = []) :
    (∃ tokens final, ofText alphabet (respaced alphabet text) = tokens ++ [final] ∧
      final.kind = .endOfText) ∧
    (ofText alphabet (respaced alphabet text)).map content = (ofText alphabet text).map content ∧
    (ofText alphabet (respaced alphabet text)).filterMap issue? = [] := by
  obtain ⟨tokens, final, htokens, hfinal, hsegmented⟩ := ofText_segmented alphabet text
  have hpieces : List.Forall₂ (ReadAs alphabet) (tokens.map fun token => token.span.cut text)
      (tokens.map content) := by
    refine List.forall₂_map_left_iff.mpr (List.forall₂_map_right_iff.mpr ?_)
    refine List.forall₂_same.mpr fun token htoken => ?_
    have hmem : token ∈ ofText alphabet text := by
      rw [htokens]
      exact List.mem_append_left _ htoken
    have hissue : token.issue? = none := List.filterMap_eq_nil_iff.mp h token hmem
    exact readAs_cut hmem (hsegmented.ordinary token htoken) (Option.map_eq_none_iff.mp hissue)
  have hkinds : ∀ pair ∈ tokens.map content, pair.1 ≠ .endOfText := by
    intro pair hpair
    obtain ⟨token, htoken, rfl⟩ := List.mem_map.mp hpair
    exact hsegmented.ordinary token htoken
  have hrespaced : respaced alphabet text =
      [' '].intercalate (tokens.map fun token => token.span.cut text) := by
    rw [respaced, htokens, List.dropLast_concat]
  obtain ⟨again, last, hread, hlast, hcontents, hplain⟩ :=
    read_intercalate hpieces hkinds 0 (Nat.lt_succ_self _)
  have hagain : ofText alphabet (respaced alphabet text) = again ++ [last] := by
    rw [hrespaced]
    exact hread
  refine ⟨⟨again, last, hagain, hlast⟩, ?_, ?_⟩
  · have hmem : last ∈ ofText alphabet (respaced alphabet text) := by simp [hagain]
    have hmem' : final ∈ ofText alphabet text := by simp [htokens]
    have hend : last.content = final.content := by
      rw [content_of_endOfText hmem hlast, content_of_endOfText hmem' hfinal]
    rw [hagain, htokens, List.map_append, List.map_append, hcontents, List.map_singleton,
      List.map_singleton, hend]
  · rw [hagain]
    refine List.filterMap_eq_nil_iff.mpr fun token htoken => ?_
    rw [issue?, (hplain token htoken).1]
    rfl

/-- A text without spaces, in which a space between two tokens is needed only where they would be
read as one, has the same tokens when the spaces are put in. -/
theorem ofText_respaced_dense :
    respaced .standard "1..e+0x/**/=>>>==='\\''".toList = "1. . e + 0x => >> === '\\''".toList ∧
      (ofText .standard (respaced .standard "1..e+0x/**/=>>>==='\\''".toList)).map content =
        (ofText .standard "1..e+0x/**/=>>>==='\\''".toList).map content := by
  have h : (ofText .standard "1..e+0x/**/=>>>==='\\''".toList).filterMap issue? = [] := by
    decide +kernel
  exact ⟨by decide +kernel, (ofText_respaced h).2.1⟩

end Token

end ExpressionTyping
