import ExpressionTyping.Proofs.Token.Rescanning

/-!
# Texts with few spaces

A token need not be followed by a space to be scanned as it was written. Some marks are scanned the
same whatever follows (`Punctuator.isFirm`), and a word ends before any character that does not
continue it. Characters that are laid out such that each token is cut off where it ends
(`Token.Laid`) are scanned as these tokens, without fault and on one line (`Token.read_laid`).
-/

set_option autoImplicit false

namespace ExpressionTyping

/-- A text goes on with a character that continues no word, if it goes on. -/
def Alphabet.Ends (alphabet : Alphabet) (rest : List Char) : Prop :=
  ∀ c ∈ rest.head?, alphabet.continuesIdentifier c = false

/-- Whether a mark is scanned the same whatever follows. -/
def Punctuator.isFirm : Punctuator → Bool
  | .openParen | .closeParen | .openBracket | .closeBracket | .comma | .colon | .semicolon
  | .ellipsis | .arrow => true
  | _ => false

/-! ## Words -/

namespace Lexeme

variable {alphabet : Alphabet} {c : Char}

/-- A character that starts a word is none that does not. -/
theorem ne_of_startsIdentifier (starts : alphabet.startsIdentifier c = true) {d : Char}
    (other : alphabet.startsIdentifier d = false) : c ≠ d := by
  rintro rfl
  rw [starts] at other
  cases other

/-- No character of a punctuator starts a word. -/
theorem not_startsIdentifier_of_mem {p : Punctuator} (mem : c ∈ p.spelling) :
    alphabet.startsIdentifier c = false := by
  have all : p.spelling.all (fun d => !(d == '_') && !(d == '$') && !d.isAlpha &&
      decide (d.toNat ≤ 0x7f)) = true := by
    cases p <;> decide
  have here := List.all_eq_true.mp all c mem
  simp only [Bool.and_eq_true, Bool.not_eq_true', decide_eq_true_eq] at here
  obtain ⟨⟨⟨underscore, dollar⟩, alpha⟩, ascii⟩ := here
  simp [Alphabet.startsIdentifier, underscore, dollar, alpha, Nat.not_lt.mpr ascii]

/-- No digit starts a word. -/
theorem not_startsIdentifier_of_isDigit (digit : c.isDigit = true) :
    alphabet.startsIdentifier c = false := by
  have bounds : 48 ≤ c.toNat ∧ c.toNat ≤ 57 := by
    simpa [Char.isDigit, UInt32.le_iff_toNat_le] using digit
  have alpha : c.isAlpha = false := by
    refine Bool.eq_false_iff.mpr fun letter => ?_
    rw [not_isDigit_of_isAlpha letter] at digit
    cases digit
  have underscore : c ≠ '_' := by
    rintro rfl
    cases digit
  have dollar : c ≠ '$' := by
    rintro rfl
    cases digit
  have ascii : ¬0x7f < c.toNat := by omega
  simp [Alphabet.startsIdentifier, underscore, dollar, alpha, ascii]

/-- What starts with a character of an identifier is a word. -/
theorem front_of_startsIdentifier (starts : alphabet.startsIdentifier c = true)
    (rest : List Char) : front alphabet c rest = word alphabet c rest := by
  have differs := fun d => @ne_of_startsIdentifier alphabet c starts d
  have quote : ¬(c = '"' ∨ c = '\'') := by
    rintro (same | same)
    · exact differs '"' rfl same
    · exact differs '\'' rfl same
  have digit : c.isDigit = false := by
    by_contra digit
    rw [not_startsIdentifier_of_isDigit (by simpa using digit)] at starts
    cases starts
  have number : ¬startsNumber (c :: rest) = true := by
    have point := differs '.' rfl
    simp [startsNumber, point, digit]
  have mark : Punctuator.longestMatch? (c :: rest) = none := by
    cases found : Punctuator.longestMatch? (c :: rest) with
    | none => rfl
    | some p =>
      obtain ⟨after, whole⟩ := Punctuator.isPrefix_of_longestMatch? found
      obtain ⟨d, tail, spelling⟩ := List.exists_cons_of_ne_nil p.spelling_ne_nil
      rw [spelling] at whole
      obtain rfl : d = c := (List.cons.inj whole).1
      have none_starts := @not_startsIdentifier_of_mem alphabet d p (spelling ▸ List.mem_cons_self)
      rw [starts] at none_starts
      cases none_starts
  rw [front_eq_longest, longest, if_neg quote, if_neg (differs '\x60' rfl), if_neg number, mark]
  exact if_pos starts

/-- A word that is all of its text is the same word before what does not continue it. -/
theorem word_append {text rest : List Char} (whole : (word alphabet c text).rest = [])
    (ends : alphabet.Ends rest) :
    word alphabet c (text ++ rest) = { word alphabet c text with rest := rest } := by
  have left : (text.span alphabet.continuesIdentifier).2 = [] := whole
  have taken : (text.span alphabet.continuesIdentifier).1 = text := by
    have both := span_append alphabet.continuesIdentifier text
    rwa [left, List.append_nil] at both
  have all : ∀ d ∈ text, alphabet.continuesIdentifier d = true :=
    taken ▸ span_all alphabet.continuesIdentifier text
  simp only [word, span_append_of_stop all ends, taken]

/-- A word stands where an identifier may start. -/
theorem startsIdentifier_of_front {text : List Char}
    (isWord : (front alphabet c text).kind = .identifier ∨
      (front alphabet c text).kind.isKeyword = true) : alphabet.startsIdentifier c = true := by
  by_contra other
  rw [front_eq_longest] at isWord
  unfold longest at isWord
  simp only [if_neg other] at isWord
  split at isWord
  · rcases isWord with isWord | isWord <;> cases isWord
  · split at isWord
    · rcases isWord with isWord | isWord <;> cases isWord
    · split at isWord
      · rcases isWord with isWord | isWord <;> cases isWord
      · split at isWord <;> rcases isWord with isWord | isWord <;> cases isWord

end Lexeme

/-! ## Tokens that are cut off -/

namespace Token

variable {alphabet : Alphabet}

/-- Before some text, characters are scanned as one token and nothing else; no line break stands
before it. -/
def CutAs (alphabet : Alphabet) (chars : List Char) (content : TokenKind × String)
    (rest : List Char) : Prop :=
  ∀ offset, ∃ token, next alphabet offset (chars ++ rest) = (token, rest) ∧
    token.content = content ∧ token.fault? = none ∧ token.afterLineBreak = false

/-- A word is cut off before what does not continue it. -/
theorem cutAs_word {content : TokenKind × String} {c : Char} {text : List Char}
    (skip : (Trivia.skip (c :: text)).length = 0)
    (front : Lexeme.front alphabet c text = ⟨content.1, c :: text, content.2.toList, none, []⟩)
    (isWord : content.1 = .identifier ∨ content.1.isKeyword = true) {rest : List Char}
    (ends : alphabet.Ends rest) : CutAs alphabet (c :: text) content rest := by
  have starts : alphabet.startsIdentifier c = true :=
    Lexeme.startsIdentifier_of_front (by rw [front]; exact isWord)
  rw [Lexeme.front_of_startsIdentifier starts] at front
  have plain : Trivia.skip (c :: (text ++ rest)) = ⟨0, false, c :: (text ++ rest)⟩ := by
    have slash {more : List Char} : ¬Trivia.StartsComment c more := fun comment =>
      Lexeme.ne_of_startsIdentifier starts (d := '/') rfl comment.1
    rw [Trivia.skip_cons slash] at skip ⊢
    split at skip
    · cases skip
    · split at skip
      · cases skip
      · rename_i lineBreak blank
        rw [if_neg lineBreak, if_neg blank]
  have whole : (Lexeme.word alphabet c text).rest = [] := by rw [front]
  intro offset
  rw [List.cons_append, next, plain]
  simp only [Lexeme.front_of_startsIdentifier starts, Lexeme.word_append whole ends, front]
  exact ⟨_, rfl, Prod.ext rfl String.ofList_toList, rfl, rfl⟩

/-- A name is cut off before what does not continue it. -/
theorem Alone.cutAs {content : TokenKind × String} (alone : Alone alphabet content)
    (isWord : content.1 = .identifier ∨ content.1.isKeyword = true) {rest : List Char}
    (ends : alphabet.Ends rest) : CutAs alphabet content.2.toList content rest := by
  obtain ⟨c, text, spelled, skip, front⟩ := alone.front
  rw [spelled]
  exact cutAs_word skip front isWord ends

/-- A keyword in front of what cannot go on a word is cut off as itself. -/
theorem cutAs_keyword (k : Keyword) {rest : List Char} (ends : alphabet.Ends rest) :
    CutAs alphabet k.spelling (TokenKind.keyword k).fixed rest := by
  have front : ∃ c text, k.spelling = c :: text ∧ (Trivia.skip (c :: text)).length = 0 ∧
      Lexeme.front alphabet c text = ⟨.keyword k, k.spelling, k.spelling, none, []⟩ := by
    cases k <;> exact ⟨_, _, rfl, rfl, rfl⟩
  have value : (TokenKind.keyword k).fixed.2.toList = k.spelling := rfl
  obtain ⟨c, text, spelled, skip, front⟩ := front
  rw [← value] at front
  rw [value, spelled] at front
  rw [spelled]
  exact cutAs_word skip (by rw [value, spelled]; exact front) (.inr rfl) ends

/-- A firm mark is cut off before anything. -/
theorem cutAs_firm {p : Punctuator} (firm : p.isFirm = true) (rest : List Char) :
    CutAs alphabet p.spelling (TokenKind.punctuator p).fixed rest := by
  intro offset
  refine ⟨⟨.punctuator p, ⟨offset, offset + p.spelling.length⟩, "", false, none⟩, ?_, rfl, rfl, rfl⟩
  cases p <;> first | rfl | cases firm

/-- A bar in front of a space is cut off as a bar, so it is not read as `||` or `|=`. -/
theorem cutAs_bar (rest : List Char) :
    CutAs alphabet ['|'] (TokenKind.punctuator .bar).fixed (' ' :: rest) :=
  fun offset => punctuator_scans alphabet .bar offset _ (separated_space rest)

/-! ## Texts of several tokens -/

/-- Characters are laid out for tokens: each token is cut off before what follows it, and nothing
but spaces stands between them. -/
inductive Laid (alphabet : Alphabet) : List Char → List (TokenKind × String) → Prop where
  | nil : Laid alphabet [] []
  | space {chars : List Char} {contents : List (TokenKind × String)} (h : Laid alphabet chars contents) :
      Laid alphabet (' ' :: chars) contents
  | token {chars rest : List Char} {content : TokenKind × String}
      {contents : List (TokenKind × String)} (cut : CutAs alphabet chars content rest)
      (h : Laid alphabet rest contents) : Laid alphabet (chars ++ rest) (content :: contents)

/-- A punctuator that nothing lengthens may stand in front of any text that is laid out. -/
theorem Laid.firm {p : Punctuator} (firm : p.isFirm = true) {rest : List Char}
    {contents : List (TokenKind × String)} (h : Laid alphabet rest contents) :
    Laid alphabet (p.spelling ++ rest) ((TokenKind.punctuator p).fixed :: contents) :=
  .token (cutAs_firm firm rest) h

/-- Characters that are laid out for tokens are scanned as these, without fault and on one line, and
then the text ends. -/
theorem read_laid {chars : List Char} {contents : List (TokenKind × String)}
    (h : Laid alphabet chars contents) (ordinary : ∀ content ∈ contents, content.1 ≠ .endOfText)
    {limit : Nat} (offset : Nat) (room : chars.length < limit) :
    ∃ tokens final, read alphabet limit offset chars = tokens ++ [final] ∧
      final.kind = .endOfText ∧ tokens.map content = contents ∧
      ∀ token ∈ tokens ++ [final], token.fault? = none ∧ token.afterLineBreak = false := by
  induction h generalizing limit offset with
  | nil =>
    obtain ⟨limit, rfl⟩ := Nat.exists_eq_add_one_of_ne_zero (Nat.ne_of_gt room)
    exact ⟨[], endOfText offset false, rfl, rfl, rfl, by simp [endOfText]⟩
  | space _ ih =>
    rw [read_space]
    exact ih ordinary _ (Nat.lt_of_succ_lt room)
  | @token chars rest first contents cut _ ih =>
    obtain ⟨limit, rfl⟩ := Nat.exists_eq_add_one_of_ne_zero (Nat.ne_of_gt (Nat.zero_lt_of_lt room))
    obtain ⟨notEnd, ordinary⟩ := List.forall_mem_cons.mp ordinary
    obtain ⟨token, found, same, plain⟩ := cut offset
    have kind : token.kind ≠ .endOfText := by
      rwa [← same] at notEnd
    -- the token took characters, so there is room for the others in what is left
    have less : rest.length < limit := by
      have cases := next_cases alphabet offset (chars ++ rest)
      rw [found] at cases
      have shorter : rest.length < (chars ++ rest).length := (cases.resolve_left kind).2.2.2.2
      omega
    obtain ⟨tokens, final, later, last, contents_eq, others⟩ := ih ordinary token.span.stop less
    have first_read : read alphabet (limit + 1) offset (chars ++ rest) =
        token :: read alphabet limit token.span.stop rest := by
      rw [read, found]
      exact if_neg kind
    refine ⟨token :: tokens, final, by rw [first_read, later, List.cons_append], last, ?_, ?_⟩
    · rw [List.map_cons, same, contents_eq]
    · rw [List.cons_append]
      exact List.forall_mem_cons.mpr ⟨plain, others⟩

/-! ## Texts that are put together -/

/-- A text is laid out for tokens before anything that does not continue a word. -/
def Writes (alphabet : Alphabet) (text : String) (contents : List (TokenKind × String)) : Prop :=
  ∀ rest others, alphabet.Ends rest → Laid alphabet rest others →
    Laid alphabet (text.toList ++ rest) (contents ++ others)

/-- A text is laid out for tokens before anything, and does not continue a word. -/
structure Marks (alphabet : Alphabet) (text : String) (contents : List (TokenKind × String)) :
    Prop where
  ends : ∀ rest, alphabet.Ends (text.toList ++ rest)
  laid : ∀ rest others, Laid alphabet rest others →
    Laid alphabet (text.toList ++ rest) (contents ++ others)

/-- The empty text writes no tokens. -/
theorem writes_nil : Writes alphabet "" [] :=
  fun _ _ _ h => h

/-- The text of a keyword writes the keyword. -/
theorem writes_keyword (k : Keyword) :
    Writes alphabet k.text [(TokenKind.keyword k).fixed] :=
  fun _ _ ends h => .token (cutAs_keyword k ends) h

/-- A word that scans as one token when it stands alone writes that token. -/
theorem Alone.writes {content : TokenKind × String} (alone : Alone alphabet content)
    (isWord : content.1 = .identifier ∨ content.1.isKeyword = true) :
    Writes alphabet content.2 [content] :=
  fun _ _ ends h => .token (alone.cutAs isWord ends) h

section Texts

variable {text before after : String} {contents firsts lasts : List (TokenKind × String)}

/-- Marks in front of a text that writes tokens write theirs too. -/
theorem Marks.writes (h : Marks alphabet before firsts) (h' : Writes alphabet after lasts) :
    Writes alphabet (before ++ after) (firsts ++ lasts) := by
  intro rest others ends laid
  rw [String.toList_append, List.append_assoc, List.append_assoc]
  exact h.laid _ _ (h' rest others ends laid)

/-- Marks after a text that writes tokens write theirs too. -/
theorem Writes.marks (h : Writes alphabet before firsts) (h' : Marks alphabet after lasts) :
    Writes alphabet (before ++ after) (firsts ++ lasts) := by
  intro rest others ends laid
  rw [String.toList_append, List.append_assoc, List.append_assoc]
  exact h _ _ (h'.ends rest) (h'.laid _ _ laid)

/-- Marks between two texts that write tokens keep them apart and write theirs between them. -/
theorem Writes.around (h : Writes alphabet before firsts) (marks : Marks alphabet text contents)
    (h' : Writes alphabet after lasts) :
    Writes alphabet (before ++ text ++ after) (firsts ++ (contents ++ lasts)) := by
  intro rest others ends laid
  rw [String.toList_append, String.toList_append, List.append_assoc, List.append_assoc,
    List.append_assoc, List.append_assoc]
  exact h _ _ (marks.ends _) (marks.laid _ _ (h' rest others ends laid))

/-- A text that writes tokens is laid out for them. -/
theorem Writes.laid (h : Writes alphabet text contents) : Laid alphabet text.toList contents := by
  simpa only [List.append_nil] using h [] [] nofun .nil

end Texts

/-! ## Marks between words -/

/-- A space is no token and ends a word. -/
theorem marks_space : Marks alphabet " " [] where
  ends := by rintro _ _ ⟨⟩; rfl
  laid _ _ h := (Laid.space h :)

/-- An opening parenthesis may stand anywhere and ends a word. -/
theorem marks_openParen : Marks alphabet "(" [(TokenKind.punctuator .openParen).fixed] where
  ends := by rintro _ _ ⟨⟩; rfl
  laid _ _ h := (Laid.firm (p := .openParen) rfl h :)

/-- A pair of brackets may stand anywhere and ends a word. -/
theorem marks_brackets : Marks alphabet "[]"
    [(TokenKind.punctuator .openBracket).fixed, (TokenKind.punctuator .closeBracket).fixed] where
  ends := by rintro _ _ ⟨⟩; rfl
  laid _ _ h := (Laid.firm (p := .openBracket) rfl (Laid.firm (p := .closeBracket) rfl h) :)

/-- A closing parenthesis with a pair of brackets may stand anywhere and ends a word. -/
theorem marks_closeParen : Marks alphabet ")[]" [(TokenKind.punctuator .closeParen).fixed,
    (TokenKind.punctuator .openBracket).fixed, (TokenKind.punctuator .closeBracket).fixed] where
  ends := by rintro _ _ ⟨⟩; rfl
  laid _ _ h := (Laid.firm (p := .closeParen) rfl (marks_brackets.laid _ _ h) :)

/-- A bar between spaces may stand anywhere and ends a word. -/
theorem marks_bar : Marks alphabet " | " [(TokenKind.punctuator .bar).fixed] where
  ends := by rintro _ _ ⟨⟩; rfl
  laid _ _ h := (Laid.space (.token (cutAs_bar _) h.space) :)

/-- A comma with a space may stand anywhere and ends a word. -/
theorem marks_comma : Marks alphabet ", " [(TokenKind.punctuator .comma).fixed] where
  ends := by rintro _ _ ⟨⟩; rfl
  laid _ _ h := (Laid.firm (p := .comma) rfl h.space :)

/-- A colon with a space may stand anywhere and ends a word. -/
theorem marks_colon : Marks alphabet ": " [(TokenKind.punctuator .colon).fixed] where
  ends := by rintro _ _ ⟨⟩; rfl
  laid _ _ h := (Laid.firm (p := .colon) rfl h.space :)

/-- A semicolon may stand anywhere and ends a word. -/
theorem marks_semicolon : Marks alphabet ";" [(TokenKind.punctuator .semicolon).fixed] where
  ends := by rintro _ _ ⟨⟩; rfl
  laid _ _ h := (Laid.firm (p := .semicolon) rfl h :)

/-- Three dots may stand anywhere and end a word. -/
theorem marks_dots : Marks alphabet "..." [(TokenKind.punctuator .ellipsis).fixed] where
  ends := by rintro _ _ ⟨⟩; rfl
  laid _ _ h := (Laid.firm (p := .ellipsis) rfl h :)

/-- A closing parenthesis with an arrow may stand anywhere and ends a word. -/
theorem marks_arrow : Marks alphabet ") => "
    [(TokenKind.punctuator .closeParen).fixed, (TokenKind.punctuator .arrow).fixed] where
  ends := by rintro _ _ ⟨⟩; rfl
  laid _ _ h := 
    (Laid.firm (p := .closeParen) rfl (Laid.space (Laid.firm (p := .arrow) rfl h.space)) :)

end Token

end ExpressionTyping
