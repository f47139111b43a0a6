import Mathlib.Logic.Function.Iterate
import ExpressionTyping.Proofs.Token.Location
import ExpressionTyping.Token.Cursor

/-!
# Tokens are faithful to their text

Scanning cuts a text into gaps and tokens, and what a token says of itself is true of the text.
Between tokens stands trivia and nothing else (`Trivia.Stretch`, `skip_stretch`); a token remembers a
line break exactly if its gap has one. A punctuator or a keyword is written as its kind says, and no
longer punctuator stands there; a word or a number is what it was cut from, and a word ends where it
has to; a character that starts no token is reported once, where it stands.

All this is one predicate on a token and the place where the token before it ended
(`Token.Faithful`). It holds of the next token (`next_faithful`), hence of all tokens in order, and a
cursor that goes on reading meets these tokens and then stays at the end of the text
(`Cursor.scan_faithful`).
-/

set_option autoImplicit false

namespace ExpressionTyping

/-! ## What stands between tokens -/

namespace Trivia

/-- Line breaks, blanks and comments. A line comment ends with a line break and a block comment with
the first closing mark; only the last comment of a text may go on to its end. -/
inductive Stretch (final : Bool) : List Char → Prop where
  | nil : Stretch final []
  | lineBreak {c : Char} {rest : List Char} (hc : isLineBreak c = true) (h : Stretch final rest) :
      Stretch final (c :: rest)
  | blank {c : Char} {rest : List Char} (hc : isBlank c = true) (h : Stretch final rest) :
      Stretch final (c :: rest)
  | lineComment {body rest : List Char} {c : Char} (hbody : ∀ d ∈ body, isLineBreak d = false)
      (hc : isLineBreak c = true) (h : Stretch final rest) :
      Stretch final ('/' :: '/' :: (body ++ c :: rest))
  | blockComment {body rest : List Char} (hbody : ¬ ['*', '/'] <:+: body ++ ['*'])
      (h : Stretch final rest) : Stretch final ('/' :: '*' :: (body ++ '*' :: '/' :: rest))
  | lastLineComment {body : List Char} (hfinal : final = true)
      (hbody : ∀ d ∈ body, isLineBreak d = false) : Stretch final ('/' :: '/' :: body)
  | openComment {body : List Char} (hfinal : final = true) (hbody : ¬ ['*', '/'] <:+: body) :
      Stretch final ('/' :: '*' :: body)

/-- How a comment starts; outside comments nothing comes before. -/
def Mode.opening : Mode → List Char
  | .plain => []
  | .lineComment => ['/', '/']
  | .blockComment => ['/', '*']

section Stretch

variable {final : Bool} {c : Char} {text : List Char}

/-- A line comment with one more character in front is a line comment. -/
theorem Stretch.extendLine (h : Stretch final ('/' :: '/' :: text)) (hc : isLineBreak c = false) :
    Stretch final ('/' :: '/' :: c :: text) := by
  cases h with
  | lineBreak hbreak => exact absurd hbreak (by decide)
  | blank hblank => exact absurd hblank (by decide)
  | lineComment hbody hd hrest =>
    exact .lineComment (List.forall_mem_cons.mpr ⟨hc, hbody⟩) hd hrest
  | lastLineComment hfinal hbody =>
    exact .lastLineComment hfinal (List.forall_mem_cons.mpr ⟨hc, hbody⟩)

/-- A character in front of a text without `*/` makes none, unless it is the `*` before a `/`. -/
theorem not_closes_cons {body : List Char} (hbody : ¬ ['*', '/'] <:+: body)
    (hfront : c = '*' → body.head? ≠ some '/') : ¬ ['*', '/'] <:+: c :: body := by
  rw [List.infix_cons_iff]
  rintro (⟨after, hafter⟩ | hinfix)
  · obtain ⟨rfl, rfl⟩ := List.cons.inj hafter
    exact hfront rfl rfl
  · exact hbody hinfix

/-- A block comment with one more character in front is a block comment, unless that closes it. -/
theorem Stretch.extendBlock (h : Stretch final ('/' :: '*' :: text))
    (hc : c = '*' → text.head? ≠ some '/') : Stretch final ('/' :: '*' :: c :: text) := by
  cases h with
  | lineBreak hbreak => exact absurd hbreak (by decide)
  | blank hblank => exact absurd hblank (by decide)
  | @blockComment body rest hbody hrest =>
    refine @Stretch.blockComment final (c :: body) rest (not_closes_cons hbody fun hstar => ?_) hrest
    have hhead := hc hstar
    cases body with
    | nil => simp
    | cons d body => exact hhead
  | openComment hfinal hbody => exact .openComment hfinal (not_closes_cons hbody hc)

end Stretch

/-- What is skipped is a stretch of trivia, behind the opening of the comment in which it starts. -/
theorem skipFrom_stretch (mode : Mode) (text : List Char) :
    Stretch (skipFrom mode text).rest.isEmpty
      (mode.opening ++ text.take (skipFrom mode text).length) := by
  fun_induction skipFrom mode text with
  | case1 mode =>
    cases mode with
    | plain => exact .nil
    | lineComment => exact .lastLineComment rfl (by simp)
    | blockComment => exact .openComment rfl (by simp)
  | case2 rest ih => exact @Stretch.blockComment _ [] _ (by decide) ih
  | case3 c rest hopen ih =>
    refine ih.extendBlock fun hstar hhead => ?_
    change (rest.take _).head? = some '/' at hhead
    rw [List.head?_take] at hhead
    split at hhead
    · cases hhead
    · obtain ⟨tail, htail⟩ := List.head?_eq_some_iff.mp hhead
      exact hopen tail hstar htail
  | case4 c rest hbreak ih => exact @Stretch.lineComment _ [] _ c (by simp) hbreak ih
  | case5 c rest hbreak ih => exact ih.extendLine (by simpa using hbreak)
  | case6 rest ih => exact ih
  | case7 rest ih => exact ih
  | case8 c rest _ _ hbreak ih => exact .lineBreak hbreak ih
  | case9 c rest _ _ _ hblank ih => exact .blank hblank ih
  | case10 => exact .nil

/-- The characters that are skipped are white space and comments, and only the last of them may be a
comment that the end of the text cuts off. -/
theorem skip_stretch (text : List Char) :
    Stretch (skip text).rest.isEmpty (text.take (skip text).length) :=
  skipFrom_stretch .plain text

/-- A line break is noticed exactly when one stands among the characters that are skipped. -/
theorem skipFrom_breaksLine (mode : Mode) (text : List Char) :
    (skipFrom mode text).breaksLine = (text.take (skipFrom mode text).length).any isLineBreak := by
  have hslash : isLineBreak '/' = false := rfl
  have hstar : isLineBreak '*' = false := rfl
  fun_induction skipFrom mode text with
  | case1 | case10 => rfl
  | case2 rest ih | case6 rest ih | case7 rest ih => simp [Gap.extend, ih, hslash, hstar]
  | case3 c rest _ ih => simp [Gap.extend, ih, Bool.or_comm]
  | case4 c rest hbreak ih | case5 c rest hbreak ih => simp [Gap.extend, ih, hbreak]
  | case8 c rest _ _ hbreak ih => simp [Gap.extend, ih, hbreak]
  | case9 c rest _ _ hbreak _ ih => simp [Gap.extend, ih, hbreak]

end Trivia

/-! ## Lexemes that could not be longer -/

namespace Lexeme

variable {alphabet : Alphabet} {c : Char} {rest : List Char}

/-- A lexeme whose kind determines its text is as long as any punctuator that stands there. -/
theorem length_le_of_text? (h : (front alphabet c rest).kind.text?.isSome = true) {p : Punctuator}
    (hp : p.spelling <+: c :: rest) :
    p.spelling.length ≤ (front alphabet c rest).text.length := by
  rw [front_eq_longest] at h ⊢
  unfold longest at h ⊢
  split
  · rename_i hquote
    rw [if_pos hquote] at h
    cases h
  · rename_i hquote
    rw [if_neg hquote] at h
    split
    · rename_i hbackquote
      rw [if_pos hbackquote] at h
      cases h
    · rename_i hbackquote
      rw [if_neg hbackquote] at h
      split
      · rename_i hnumber
        rw [if_pos hnumber] at h
        cases h
      · split
        · rename_i found hfound
          exact Punctuator.length_le_of_longestMatch? hfound hp
        · rename_i hnone
          exact absurd hp (Punctuator.not_prefix_of_longestMatch? hnone p)

/-- No character after a word goes on with it. -/
theorem word_maximal {d : Char} (h : (word alphabet c rest).rest.head? = some d) :
    alphabet.continuesIdentifier d = false := by
  have hstop := List.head?_dropWhile_not alphabet.continuesIdentifier rest
  simp only [word, List.span_eq_takeWhile_dropWhile] at h
  rw [h] at hstop
  exact hstop

/-- A lexeme with the kind of a word is a word, so no character after it goes on with it. -/
theorem front_maximal {d : Char}
    (hword : (front alphabet c rest).kind = .identifier ∨
      (front alphabet c rest).kind.isKeyword = true)
    (h : (front alphabet c rest).rest.head? = some d) : alphabet.continuesIdentifier d = false := by
  have hcases := front_cases alphabet c rest
  generalize front alphabet c rest = lexeme at hcases hword h
  cases hcases with
  | word => exact word_maximal h
  | string | template | number | punctuator | unknown =>
    rcases hword with hword | hword <;> cases hword

/-- An unknown lexeme is one character, which is reported. -/
theorem front_of_unknown (hunknown : (front alphabet c rest).kind = .unknown) :
    (front alphabet c rest).text.length = 1 ∧
      (front alphabet c rest).fault? = some .invalidCharacter := by
  have hcases := front_cases alphabet c rest
  generalize front alphabet c rest = lexeme at hcases hunknown
  cases hcases with
  | unknown => exact ⟨rfl, rfl⟩
  | word =>
    simp only [word] at hunknown
    split at hunknown <;> cases hunknown
  | string | template | number | punctuator => cases hunknown

end Lexeme

/-! ## One token -/

namespace Token

/-- What stands in a text between two offsets. -/
abbrev between (text : List Char) (start stop : Nat) : List Char :=
  (⟨start, stop⟩ : Span).cut text

/-- A token stands in a text where its span says, after the place where the token before it ended,
and what it says of itself is true of the text. -/
structure Faithful (alphabet : Alphabet) (text : List Char) (previous : Nat) (token : Token) :
    Prop where
  within : token.span.Within text.length
  apart : previous ≤ token.span.start
  nonempty : token.kind ≠ .endOfText → token.span.start < token.span.stop
  gap : Trivia.Stretch (token.kind = .endOfText) (between text previous token.span.start)
  lineBreak : token.afterLineBreak = true ↔
    ∃ c ∈ between text previous token.span.start, Trivia.isLineBreak c = true
  /-- What a kind determines stands there, and no longer punctuator does. -/
  spelled : ∀ spelling, token.kind.text? = some spelling → token.span.cut text = spelling.toList
  longest : token.kind.text?.isSome = true → ∀ p : Punctuator,
    p.spelling <+: text.drop token.span.start → p.spelling.length ≤ token.span.length
  /-- Words and numbers are what they were cut from, and words end where they have to. -/
  verbatim : token.kind = .identifier ∨ token.kind.isKeyword = true ∨ token.kind = .number →
    token.value.toList = token.span.cut text
  maximal : token.kind = .identifier ∨ token.kind.isKeyword = true →
    ∀ c, text[token.span.stop]? = some c → alphabet.continuesIdentifier c = false
  unknown : token.kind = .unknown → token.span.stop = token.span.start + 1 ∧
    token.issue? = some ⟨token.span, .invalidCharacter⟩

/-- What stands between an offset and a later one is the front of what is left at the offset. -/
theorem between_of_drop {text rest : List Char} {offset : Nat} (h : text.drop offset = rest)
    (count : Nat) : between text offset (offset + count) = rest.take count := by
  simp [Span.cut, Span.length, h]

/-- The text that a kind determines stands where the token says. -/
theorem Located.cut_of_text? {alphabet : Alphabet} {text : List Char} {token : Token}
    (h : token.Located alphabet text) (hgenuine : token.Genuine) {spelling : String}
    (hspelling : token.kind.text? = some spelling) : token.span.cut text = spelling.toList := by
  cases hkind : token.kind with
  | punctuator p =>
    rw [hkind] at hspelling
    cases hspelling
    exact h.cut_of_punctuator hkind
  | keyword k =>
    rw [hkind] at hspelling
    cases hspelling
    have hvalue : token.value = k.text := congrArg Prod.snd (hgenuine.content_of_keyword hkind)
    rw [← h.value_eq_cut (.inr (.inl (by rw [hkind]; rfl))), hvalue]
  | unknown | endOfText | number | string | template | identifier =>
    rw [hkind] at hspelling
    cases hspelling

/-- The gap before the next token. -/
theorem next_gap (alphabet : Alphabet) (offset : Nat) (rest : List Char) :
    (next alphabet offset rest).1.span.start = offset + (Trivia.skip rest).length ∧
      (next alphabet offset rest).1.afterLineBreak = (Trivia.skip rest).breaksLine ∧
      ((next alphabet offset rest).1.kind = .endOfText ↔ (Trivia.skip rest).rest = []) := by
  unfold next
  simp only
  cases hrest : (Trivia.skip rest).rest with
  | nil => exact ⟨rfl, rfl, iff_of_true rfl rfl⟩
  | cons c tail =>
    have hkind := (Lexeme.front_cases alphabet c tail).kind_ne_endOfText
    exact ⟨rfl, rfl, iff_of_false hkind (List.cons_ne_nil c tail)⟩

/-- The lexeme of the next token, and the text that it leaves. -/
theorem next_lexeme (alphabet : Alphabet) (offset : Nat) (rest : List Char) :
    (next alphabet offset rest).1.kind = .endOfText ∨ ∃ c tail,
      (Trivia.skip rest).rest = c :: tail ∧
      (next alphabet offset rest).1.kind = (Lexeme.front alphabet c tail).kind ∧
      (next alphabet offset rest).1.span.length = (Lexeme.front alphabet c tail).text.length ∧
      (next alphabet offset rest).1.fault? = (Lexeme.front alphabet c tail).fault? ∧
      (next alphabet offset rest).2 = (Lexeme.front alphabet c tail).rest := by
  unfold next
  simp only
  cases hrest : (Trivia.skip rest).rest with
  | nil => exact .inl rfl
  | cons c tail =>
    refine .inr ⟨c, tail, rfl, rfl, ?_, rfl, rfl⟩
    exact Nat.add_sub_cancel_left _ _

/-- The next token is cut out of the text at or after the offset, apart from it by what is
skipped. -/
theorem next_faithful (alphabet : Alphabet) {offset : Nat} {text rest : List Char}
    (h : text.drop offset = rest) (hoffset : offset ≤ text.length) :
    (next alphabet offset rest).1.Faithful alphabet text offset := by
  obtain ⟨hlocated, hapart, hleft⟩ := next_located alphabet h hoffset
  obtain ⟨hstart, hbreak, hend⟩ := next_gap alphabet offset rest
  have hgap : between text offset (next alphabet offset rest).1.span.start =
      rest.take (Trivia.skip rest).length := by
    rw [hstart, between_of_drop h]
  have hfront : text.drop (next alphabet offset rest).1.span.start = (Trivia.skip rest).rest := by
    rw [hstart, ← List.drop_drop, h]
    exact (Trivia.skipFrom_rest .plain rest).symm
  have hcases := next_cases alphabet offset rest
  have hlexeme := next_lexeme alphabet offset rest
  generalize (next alphabet offset rest).1 = token at *
  generalize (next alphabet offset rest).2 = left at *
  have hordinary (hkind : token.kind ≠ .endOfText) :
      token.Genuine ∧ token.span.start < token.span.stop := by
    obtain ⟨-, hgenuine, -, hnonempty, -⟩ := hcases.resolve_left hkind
    exact ⟨hgenuine, hnonempty⟩
  constructor
  case within => exact hlocated.within
  case apart => exact hapart
  case nonempty => exact fun hkind => (hordinary hkind).2
  case gap =>
    have hfinal : decide (token.kind = .endOfText) = (Trivia.skip rest).rest.isEmpty := by
      rw [Bool.eq_iff_iff, decide_eq_true_iff, List.isEmpty_iff, hend]
    rw [hgap, hfinal]
    exact Trivia.skip_stretch rest
  case lineBreak =>
    rw [hgap, hbreak, Trivia.skip, Trivia.skipFrom_breaksLine, List.any_eq_true]
  case spelled =>
    intro spelling hspelling
    refine hlocated.cut_of_text? (hordinary ?_).1 hspelling
    rintro hkind
    rw [hkind] at hspelling
    cases hspelling
  case longest =>
    intro htext p hp
    rcases hlexeme with hkind | ⟨c, tail, hrest, hkind, hlength, -⟩
    · rw [hkind] at htext
      cases htext
    · rw [hkind] at htext
      rw [hfront, hrest] at hp
      rw [hlength]
      exact Lexeme.length_le_of_text? htext hp
  case verbatim => exact hlocated.value_eq_cut
  case maximal =>
    intro hword d hd
    rcases hlexeme with hkind | ⟨c, tail, -, hkind, -, -, hrest⟩
    · rw [hkind] at hword
      rcases hword with hword | hword <;> cases hword
    · rw [← List.head?_drop, hleft, hrest] at hd
      rw [hkind] at hword
      exact Lexeme.front_maximal hword hd
  case unknown =>
    intro hunknown
    rcases hlexeme with hkind | ⟨c, tail, -, hkind, hlength, hfault, -⟩
    · rw [hunknown] at hkind
      cases hkind
    · obtain ⟨hone, hreported⟩ := Lexeme.front_of_unknown (hkind.symm.trans hunknown)
      have hordered := hlocated.within.ordered
      rw [hone, Span.length] at hlength
      refine ⟨by omega, ?_⟩
      rw [issue?, hfault, hreported]
      rfl

/-! ## All tokens of a text -/

/-- Each token is faithful, and has before it the one before it in the list. -/
def FaithfulFrom (alphabet : Alphabet) (text : List Char) : Nat → List Token → Prop
  | _, [] => True
  | previous, token :: rest =>
    token.Faithful alphabet text previous ∧ FaithfulFrom alphabet text token.span.stop rest

/-- Each of several tokens is faithful to the text after some offset. -/
theorem FaithfulFrom.of_mem {alphabet : Alphabet} {text : List Char} {previous : Nat}
    {tokens : List Token} (h : FaithfulFrom alphabet text previous tokens) {token : Token}
    (htoken : token ∈ tokens) : ∃ before, token.Faithful alphabet text before := by
  induction tokens generalizing previous with
  | nil => cases htoken
  | cons first rest ih =>
    rcases List.mem_cons.mp htoken with rfl | htoken
    · exact ⟨previous, h.1⟩
    · exact ih h.2 htoken

/-- The tokens that are read from an offset on are faithful to the text, each after the one before
it. -/
theorem read_faithful (alphabet : Alphabet) (limit : Nat) {offset : Nat} {text rest : List Char}
    (h : text.drop offset = rest) (hoffset : offset ≤ text.length) :
    FaithfulFrom alphabet text offset (read alphabet limit offset rest) := by
  induction limit generalizing offset rest with
  | zero => trivial
  | succ limit ih =>
    have hfaithful := next_faithful alphabet h hoffset
    obtain ⟨-, -, hleft⟩ := next_located alphabet h hoffset
    unfold read
    simp only
    split
    · exact ⟨hfaithful, trivial⟩
    · exact ⟨hfaithful, ih hleft hfaithful.within.bounded⟩

/-- What is reported at the span of a token is what that token reports. -/
theorem Segmented.issues_at {offset : Nat} {tokens : List Token} (h : Segmented offset tokens)
    {token : Token} (htoken : token ∈ tokens) :
    (tokens.filterMap issue?).filter (fun issue => issue.span = token.span) =
      token.issue?.toList := by
  have hself : token.issue?.filter (fun issue => issue.span = token.span) = token.issue? := by
    unfold issue?
    cases token.fault? <;> simp
  have hother {other : Token} (hne : other.span ≠ token.span) :
      other.issue?.filter (fun issue => issue.span = token.span) = none := by
    unfold issue?
    cases other.fault? <;> simp [hne]
  have hnonempty := h.nonempty token htoken
  obtain ⟨before, after, rfl⟩ := List.append_of_mem htoken
  obtain ⟨-, hafter, hbefore⟩ := List.pairwise_append.mp h.ordered
  have hleft : before.filterMap
      (fun other => other.issue?.filter fun issue => issue.span = token.span) = [] := by
    refine List.filterMap_eq_nil_iff.mpr fun other hmem => hother fun heq => ?_
    have hapart : other.span.stop ≤ token.span.start :=
      hbefore other hmem token List.mem_cons_self
    rw [heq] at hapart
    omega
  have hright : after.filterMap
      (fun other => other.issue?.filter fun issue => issue.span = token.span) = [] := by
    refine List.filterMap_eq_nil_iff.mpr fun other hmem => hother fun heq => ?_
    have hapart : token.span.stop ≤ other.span.start := (List.pairwise_cons.mp hafter).1 other hmem
    rw [heq] at hapart
    omega
  rw [List.filter_filterMap, List.filterMap_append, hleft, List.nil_append, List.filterMap_cons,
    hright, hself]
  cases token.issue? <;> rfl

end Token

/-! ## Reading one token after the other -/

namespace Cursor

/-- The tokens that a cursor has before it, at most `limit` of them. -/
def ahead (alphabet : Alphabet) (limit : Nat) (cursor : Cursor) : List Token :=
  Token.read alphabet limit cursor.token.span.stop cursor.rest

/-- What a cursor has left is the text after its token. -/
def At (text : List Char) (cursor : Cursor) : Prop :=
  text.drop cursor.token.span.stop = cursor.rest ∧ cursor.token.span.stop ≤ text.length

/-- Looking ahead yields the tokens of the advanced cursor one after the other, up to the end of the
text. -/
theorem ahead_succ (alphabet : Alphabet) (limit : Nat) (cursor : Cursor) :
    cursor.ahead alphabet (limit + 1) =
      if (cursor.advance alphabet).token.kind = .endOfText then [(cursor.advance alphabet).token]
      else (cursor.advance alphabet).token :: (cursor.advance alphabet).ahead alphabet limit :=
  rfl

/-- A cursor that advances stays at a place of its text. -/
theorem At.iterate {text : List Char} {cursor : Cursor} (h : cursor.At text)
    (alphabet : Alphabet) (i : Nat) : ((advance alphabet)^[i] cursor).At text := by
  induction i generalizing cursor with
  | zero => exact h
  | succ i ih =>
    obtain ⟨hlocated, -, hleft⟩ := Token.next_located alphabet h.1 h.2
    exact ih ⟨hleft, hlocated.within.bounded⟩

/-- Where the end of the text was read, nothing is left and nothing was reported. -/
theorem advance_of_end {alphabet : Alphabet} {cursor : Cursor}
    (h : (cursor.advance alphabet).token.kind = .endOfText) :
    (cursor.advance alphabet).rest = [] ∧ (cursor.advance alphabet).token.issue? = none := by
  change (Token.next alphabet cursor.token.span.stop cursor.rest).1.kind = .endOfText at h
  have hempty := (Token.next_gap alphabet cursor.token.span.stop cursor.rest).2.2.mp h
  show (Token.next alphabet cursor.token.span.stop cursor.rest).2 = [] ∧
    (Token.next alphabet cursor.token.span.stop cursor.rest).1.issue? = none
  simp only [Token.next, hempty, true_and]
  rfl

/-- Reading a token adds what the token reports. -/
theorem advance_issues (alphabet : Alphabet) (cursor : Cursor) :
    (cursor.advance alphabet).issues =
      cursor.issues ++ [(cursor.advance alphabet).token].filterMap Token.issue? := by
  show cursor.issues ++ (cursor.advance alphabet).token.issue?.toList = _
  cases hissue : (cursor.advance alphabet).token.issue? <;> simp [hissue]

/-- Reading all tokens of a text is reading them one after the other. -/
theorem iterate_advance (alphabet : Alphabet) (limit : Nat) (cursor : Cursor) {i : Nat}
    {token : Token} (h : (cursor.ahead alphabet limit)[i]? = some token) :
    ((advance alphabet)^[i + 1] cursor).token = token ∧
      ((advance alphabet)^[i + 1] cursor).issues = cursor.issues ++
        ((cursor.ahead alphabet limit).take (i + 1)).filterMap Token.issue? := by
  induction limit generalizing cursor i with
  | zero => simp [ahead, Token.read] at h
  | succ limit ih =>
    have hissues := cursor.advance_issues alphabet
    rw [Function.iterate_succ_apply]
    by_cases hkind : (cursor.advance alphabet).token.kind = .endOfText
    · rw [ahead_succ, if_pos hkind] at h ⊢
      cases i with
      | zero =>
        cases h
        exact ⟨rfl, hissues⟩
      | succ i => simp at h
    · rw [ahead_succ, if_neg hkind] at h ⊢
      cases i with
      | zero =>
        cases h
        exact ⟨rfl, hissues⟩
      | succ i =>
        obtain ⟨htoken, hrest⟩ := ih (cursor.advance alphabet) h
        refine ⟨htoken, ?_⟩
        rw [hrest, hissues, List.take_succ_cons, List.append_assoc, ← List.filterMap_append]
        rfl

/-- From the end of a text on, a cursor stays where it is. -/
theorem iterate_advance_end (alphabet : Alphabet) {cursor : Cursor} {offset : Nat}
    (hkind : cursor.token.kind = .endOfText) (hspan : cursor.token.span = ⟨offset, offset⟩)
    (hrest : cursor.rest = []) (i : Nat) :
    ((advance alphabet)^[i] cursor).token.kind = .endOfText ∧
      ((advance alphabet)^[i] cursor).token.span = ⟨offset, offset⟩ ∧
      ((advance alphabet)^[i] cursor).issues = cursor.issues := by
  induction i generalizing cursor with
  | zero => exact ⟨hkind, hspan, rfl⟩
  | succ i ih =>
    have hstep : cursor.advance alphabet = ⟨.endOfText offset false, [], cursor.issues⟩ := by
      rw [advance, hrest, hspan]
      exact congrArg _ (List.append_nil cursor.issues)
    rw [Function.iterate_succ_apply, hstep]
    exact ih rfl rfl rfl

/-- After all tokens of a text a cursor stands at its end, with what the tokens reported. -/
theorem iterate_advance_past {alphabet : Alphabet} {text : String} {tokens : List Token}
    {final : Token} (htokens : Token.ofText alphabet text.toList = tokens ++ [final])
    (hfinal : final.kind = .endOfText) (extra : Nat) :
    let cursor := (advance alphabet)^[extra + (tokens.length + 1)] (start text)
    cursor.token.kind = .endOfText ∧ cursor.token.span = ⟨text.length, text.length⟩ ∧
      cursor.issues = tokens.filterMap Token.issue? := by
  have hahead : (start text).ahead alphabet (text.toList.length + 1) = tokens ++ [final] := htokens
  have hget : ((start text).ahead alphabet (text.toList.length + 1))[tokens.length]? = some final := by
    simp [hahead]
  obtain ⟨hlast, hissues⟩ := iterate_advance alphabet _ (start text) hget
  have hat : (start text).At text.toList := ⟨rfl, Nat.zero_le _⟩
  obtain ⟨hleft, hbound⟩ := hat.iterate alphabet (tokens.length + 1)
  have hstep := Function.iterate_succ_apply' (advance alphabet) tokens.length (start text)
  have hkind : ((advance alphabet)^[tokens.length + 1] (start text)).token.kind = .endOfText := by
    rw [hlast, hfinal]
  obtain ⟨hrest, hsilent⟩ := advance_of_end (hstep ▸ hkind)
  rw [← hstep] at hrest hsilent
  rw [hrest, List.drop_eq_nil_iff, String.length_toList] at hleft
  rw [String.length_toList] at hbound
  have hspan : ((advance alphabet)^[tokens.length + 1] (start text)).token.span =
      ⟨text.length, text.length⟩ := by
    have hlocated := (Token.ofText_located alphabet text.toList).1 final (by simp [htokens])
    have hempty := hlocated.start_eq_stop hfinal
    rw [← hlast] at hempty
    have hstop := Nat.le_antisymm hbound hleft
    exact congrArg₂ Span.mk (hempty.trans hstop) hstop
  rw [Function.iterate_add_apply]
  obtain ⟨hkind', hspan', hissues'⟩ := iterate_advance_end alphabet hkind hspan hrest extra
  refine ⟨hkind', hspan', ?_⟩
  rw [hissues', hissues, hahead, List.take_of_length_le (by simp), List.filterMap_append,
    List.filterMap_cons, ← hlast, hsilent]
  simp [start]

/-- Reading a text token by token gives its tokens, each of them faithful to the text, and then the
end of the text for ever. What is reported on the way is what the tokens report, and a character that
starts no token is reported exactly once. -/
theorem scan_faithful (alphabet : Alphabet) (text : String) :
    ∃ tokens final,
      (∀ i token, (tokens ++ [final])[i]? = some token →
        ((advance alphabet)^[i + 1] (start text)).token = token) ∧
      (∀ i, tokens.length < i →
        ((advance alphabet)^[i] (start text)).token.kind = .endOfText ∧
        ((advance alphabet)^[i] (start text)).token.span = ⟨text.length, text.length⟩ ∧
        ((advance alphabet)^[i] (start text)).issues = tokens.filterMap Token.issue?) ∧
      (∀ token ∈ tokens, token.kind ≠ .endOfText) ∧
      Token.FaithfulFrom alphabet text.toList 0 (tokens ++ [final]) ∧
      ∀ token ∈ tokens, token.kind = .unknown →
        (tokens.filterMap Token.issue?).filter (fun issue => issue.span = token.span) =
          [⟨token.span, .invalidCharacter⟩] := by
  obtain ⟨tokens, final, htokens, hfinal, hsegmented⟩ :=
    Token.ofText_segmented alphabet text.toList
  have hfaithful : Token.FaithfulFrom alphabet text.toList 0 (tokens ++ [final]) := by
    rw [← htokens]
    exact Token.read_faithful alphabet _ rfl (Nat.zero_le _)
  refine ⟨tokens, final, fun i token h => ?_, fun i hi => ?_, hsegmented.ordinary, hfaithful,
    fun token htoken hkind => ?_⟩
  · have hahead : (start text).ahead alphabet (text.toList.length + 1) = tokens ++ [final] := htokens
    exact (iterate_advance alphabet _ (start text) (hahead ▸ h)).1
  · obtain ⟨extra, rfl⟩ := Nat.exists_eq_add_of_lt hi
    rw [show tokens.length + extra + 1 = extra + (tokens.length + 1) by omega]
    exact iterate_advance_past htokens hfinal extra
  · obtain ⟨_, hunknown⟩ := hfaithful.of_mem (List.mem_append_left _ htoken)
    rw [hsegmented.issues_at htoken, (hunknown.unknown hkind).2]
    rfl

end Cursor

end ExpressionTyping
