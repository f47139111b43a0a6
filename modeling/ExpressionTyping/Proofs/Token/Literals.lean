import ExpressionTyping.Proofs.Token.Faithfulness
import ExpressionTyping.Proofs.Token.Spelling

/-!
# Strings and templates decode their escapes

Between its quotes a string or a template spells a value (`QuoteMark.Spelled`): every character
stands for itself, or is written as a backslash and a character that it is decoded from. A
backslash, the quote, and in a string a line break, have to be written in the second way. A value
that is spelled between two quotes is scanned as one token, whatever follows, and every token that
is scanned without a report was spelled like this (`Cursor.scan_literals`).
-/

set_option autoImplicit false

namespace ExpressionTyping

/-! ## Spelling a value between quotes -/

/-- A mark that starts and ends a string or a template. -/
inductive QuoteMark where
  | single
  | double
  | back
deriving DecidableEq

namespace QuoteMark

/-- The character of a quote. -/
def char : QuoteMark → Char
  | single => '\''
  | double => '"'
  | back => '\x60'

/-- The kind of token between two quotes. -/
def kind : QuoteMark → TokenKind
  | single | double => .string
  | back => .template

/-- Whether a token between two quotes may span lines. -/
def spansLines : QuoteMark → Bool
  | single | double => false
  | back => true

/-- Whether a character between two quotes has to be written with a backslash. -/
def mustEscape (quote : QuoteMark) (c : Char) : Bool :=
  c = '\\' || c = quote.char || !quote.spansLines && Trivia.isLineBreak c

/-- Whether characters between two quotes spell a value. -/
inductive Spelled (quote : QuoteMark) : List Char → List Char → Prop where
  | nil : Spelled quote [] []
  | plain {c : Char} {text value : List Char} (free : quote.mustEscape c = false)
      (rest : Spelled quote text value) : Spelled quote (c :: text) (c :: value)
  | escape {c escaped : Char} {text value : List Char} (decodes : Lexeme.unescape escaped = c)
      (rest : Spelled quote text value) : Spelled quote ('\\' :: escaped :: text) (c :: value)

/-- The characters with every escape decoded, from left to right. -/
def decode : List Char → List Char
  | [] => []
  | ['\\'] => []
  | '\\' :: escaped :: rest => Lexeme.unescape escaped :: decode rest
  | c :: rest => c :: decode rest

variable {quote : QuoteMark}

/-- No quotation mark is a backslash. -/
theorem char_ne_backslash (quote : QuoteMark) : quote.char ≠ '\\' := by
  cases quote <;> decide

/-- A character that needs no escape is no backslash, not the quotation mark, and no line break
where the literal must stay on its line. -/
theorem of_mustEscape_eq_false {c : Char} (free : quote.mustEscape c = false) :
    c ≠ '\\' ∧ c ≠ quote.char ∧ (!quote.spansLines && Trivia.isLineBreak c) = false := by
  simpa [mustEscape, and_assoc] using free

/-- Every character that has to be escaped is decoded from itself. -/
theorem unescape_of_mustEscape {c : Char} (special : quote.mustEscape c = true) :
    Lexeme.unescape c = c := by
  unfold Lexeme.unescape
  split
  all_goals first | rfl | (revert special; cases quote <;> decide)

/-- Every value can be spelled. -/
theorem exists_spelled (quote : QuoteMark) (value : List Char) :
    ∃ text, quote.Spelled text value := by
  induction value with
  | nil => exact ⟨[], .nil⟩
  | cons c value ih =>
    obtain ⟨text, spelled⟩ := ih
    cases special : quote.mustEscape c with
    | false => exact ⟨c :: text, .plain special spelled⟩
    | true => exact ⟨'\\' :: c :: text, .escape (unescape_of_mustEscape special) spelled⟩

/-- What characters spell is what they decode to. -/
theorem Spelled.decode_eq {text value : List Char} (spelled : quote.Spelled text value) :
    decode text = value := by
  induction spelled with
  | nil => rfl
  | plain free rest ih => simp [decode, (of_mustEscape_eq_false free).1, ih]
  | escape decodes rest ih => simp [decode, decodes, ih]

/-! ## Reading what is spelled -/

/-- A spelled value is read up to the quote after it. -/
theorem Spelled.body_eq {text value : List Char} (spelled : quote.Spelled text value)
    (rest : List Char) :
    Lexeme.body quote.char quote.spansLines (text ++ quote.char :: rest) =
      ⟨text ++ [quote.char], value, true, rest⟩ := by
  induction spelled with
  | nil => rw [List.nil_append, Lexeme.body_plain quote.char_ne_backslash, if_pos rfl]; rfl
  | plain free spelled ih =>
    obtain ⟨not_backslash, not_quote, within⟩ := of_mustEscape_eq_false free
    rw [List.cons_append, Lexeme.body_plain not_backslash, if_neg not_quote, if_neg (by simp [within]),
      ih]
    rfl
  | escape decodes spelled ih =>
    rw [List.cons_append, List.cons_append, Lexeme.body]
    simp only [ih, decodes]
    rfl

/-- What is read up to a closing quote is spelled before it. -/
theorem exists_spelled_of_closed {text : List Char}
    (closed : (Lexeme.body quote.char quote.spansLines text).closed = true) :
    ∃ body, (Lexeme.body quote.char quote.spansLines text).text = body ++ [quote.char] ∧
      quote.Spelled body (Lexeme.body quote.char quote.spansLines text).value := by
  fun_induction Lexeme.body quote.char quote.spansLines text with
  | case1 | case2 | case5 => cases closed
  | case3 c rest tail ih =>
    obtain ⟨body, written, spelled⟩ := ih closed
    exact ⟨'\\' :: c :: body, congrArg ('\\' :: c :: ·) written, .escape rfl spelled⟩
  | case4 rest last_backslash backslash => exact ⟨[], rfl, .nil⟩
  | case6 c rest last_backslash backslash not_quote within tail ih =>
    obtain ⟨body, written, spelled⟩ := ih closed
    have free : quote.mustEscape c = false := by
      simpa [mustEscape, not_quote, Lexeme.ne_backslash last_backslash backslash] using within
    exact ⟨c :: body, congrArg (c :: ·) written, .plain free spelled⟩

/-- The lexeme that starts with a quote. -/
def lexeme (quote : QuoteMark) (rest : List Char) : Lexeme :=
  match quote with
  | single | double => Lexeme.string quote.char rest
  | back => Lexeme.template quote.char rest

/-- What starts at a quotation mark is a literal of the kind of the mark, closed or not. -/
theorem lexeme_kind (quote : QuoteMark) (rest : List Char) : (quote.lexeme rest).kind = quote.kind := by
  cases quote <;> rfl

/-- A quotation mark in front decides that a literal is read. -/
theorem front_quote (alphabet : Alphabet) (quote : QuoteMark) (rest : List Char) :
    Lexeme.front alphabet quote.char rest = quote.lexeme rest := by
  cases quote <;> rfl

/-- A string or a template starts with a quote. -/
theorem exists_front_eq {alphabet : Alphabet} {c : Char} {rest : List Char}
    (kind : (Lexeme.front alphabet c rest).kind = .string ∨
      (Lexeme.front alphabet c rest).kind = .template) :
    ∃ quote : QuoteMark, c = quote.char ∧ Lexeme.front alphabet c rest = quote.lexeme rest := by
  by_cases single : c = '\''
  · exact ⟨.single, single, single ▸ front_quote alphabet .single rest⟩
  by_cases double : c = '"'
  · exact ⟨.double, double, double ▸ front_quote alphabet .double rest⟩
  by_cases back : c = '\x60'
  · exact ⟨.back, back, back ▸ front_quote alphabet .back rest⟩
  -- what starts otherwise is neither
  exfalso
  rw [Lexeme.front_eq_longest] at kind
  simp only [Lexeme.longest, single, double, back, or_self, if_false] at kind
  split at kind
  · rcases kind with kind | kind <;> cases kind
  · split at kind
    · rcases kind with kind | kind <;> cases kind
    · split at kind
      · simp only [Lexeme.word] at kind
        split at kind <;> rcases kind with kind | kind <;> cases kind
      · rcases kind with kind | kind <;> cases kind

/-- A spelled value between two quotes is one lexeme, whatever follows. -/
theorem Spelled.lexeme_eq {text value : List Char} (spelled : quote.Spelled text value)
    (rest : List Char) :
    quote.lexeme (text ++ quote.char :: rest) =
      ⟨quote.kind, quote.char :: text ++ [quote.char], value, none, rest⟩ := by
  have body := spelled.body_eq rest
  cases quote with
  | single | double =>
    simp only [spansLines] at body
    simp only [lexeme, Lexeme.string, body]
    rfl
  | back =>
    simp only [spansLines] at body
    simp only [lexeme, Lexeme.template, body]
    rfl

/-- A lexeme without fault that starts with a quote is a spelled value between two quotes. -/
theorem exists_spelled_of_lexeme {rest : List Char} (sound : (quote.lexeme rest).fault? = none) :
    ∃ body, (quote.lexeme rest).text = quote.char :: body ++ [quote.char] ∧
      quote.Spelled body (quote.lexeme rest).value := by
  have closed : (Lexeme.body quote.char quote.spansLines rest).closed = true := by
    cases quote <;>
      simpa [lexeme, Lexeme.string, Lexeme.template, spansLines] using sound
  obtain ⟨body, written, spelled⟩ := exists_spelled_of_closed closed
  cases quote <;> exact ⟨body, congrArg (_ :: ·) written, spelled⟩

end QuoteMark

/-! ## Scanning -/

/-- The next token is the end of the text, or else the lexeme that the text has where it starts, with
the fault of that lexeme. -/
theorem Token.next_front (alphabet : Alphabet) {offset : Nat} {text rest : List Char}
    (h : text.drop offset = rest) (hoffset : offset ≤ text.length) :
    (next alphabet offset rest).1.kind = .endOfText ∨ ∃ c tail,
      (next alphabet offset rest).1.kind = (Lexeme.front alphabet c tail).kind ∧
      (next alphabet offset rest).1.value = String.ofList (Lexeme.front alphabet c tail).value ∧
      (next alphabet offset rest).1.span.cut text = (Lexeme.front alphabet c tail).text ∧
      (next alphabet offset rest).1.fault? = (Lexeme.front alphabet c tail).fault? := by
  obtain ⟨located, -, -⟩ := next_located alphabet h hoffset
  obtain ⟨start, -, -⟩ := next_gap alphabet offset rest
  have front : text.drop (next alphabet offset rest).1.span.start = (Trivia.skip rest).rest := by
    rw [start, ← List.drop_drop, h]
    exact (Trivia.skipFrom_rest .plain rest).symm
  rcases next_lexeme alphabet offset rest with final | ⟨c, tail, left, -, -, fault, -⟩
  · exact .inl final
  · rcases located.content with ⟨final, -⟩ | ⟨c', tail', found, kind, value, cut⟩
    · exact .inl final
    · obtain ⟨rfl, rfl⟩ := List.cons.inj (found.symm.trans (front.trans left))
      exact .inr ⟨c', tail', kind, value, cut, fault⟩

namespace Cursor

open QuoteMark

/-- What is scanned first where a spelled value stands between two quotes. -/
theorem advance_spelled (alphabet : Alphabet) {quote : QuoteMark} {body value : List Char}
    (spelled : quote.Spelled body value) (rest : List Char) :
    (start (String.ofList (quote.char :: body ++ quote.char :: rest))).advance alphabet =
      ⟨⟨quote.kind, ⟨0, body.length + 2⟩, String.ofList value, false, none⟩, rest, []⟩ := by
  have gap : Trivia.skip (quote.char :: (body ++ quote.char :: rest)) =
      ⟨0, false, quote.char :: (body ++ quote.char :: rest)⟩ := by
    cases quote <;> rfl
  simp [advance, start, Token.next, gap, front_quote, spelled.lexeme_eq, Token.issue?]

/-- Where the next token is a string or a template and nothing is reported, a spelled value stands
between two quotes. -/
theorem At.exists_spelled {alphabet : Alphabet} {text : List Char} {cursor : Cursor}
    (at_text : cursor.At text)
    (kind : (cursor.advance alphabet).token.kind = .string ∨
      (cursor.advance alphabet).token.kind = .template)
    (silent : (cursor.advance alphabet).issues = cursor.issues) :
    ∃ (quote : QuoteMark) (body : List Char), (cursor.advance alphabet).token.kind = quote.kind ∧
      (cursor.advance alphabet).token.span.cut text = quote.char :: body ++ [quote.char] ∧
      quote.Spelled body (cursor.advance alphabet).token.value.toList := by
  have sound : (cursor.advance alphabet).token.fault? = none := by
    rw [advance_issues] at silent
    have silent := List.append_right_eq_self.mp silent
    simpa [Token.issue?] using silent
  have front : (cursor.advance alphabet).token.kind = .endOfText ∨ ∃ c tail,
      (cursor.advance alphabet).token.kind = (Lexeme.front alphabet c tail).kind ∧
      (cursor.advance alphabet).token.value = String.ofList (Lexeme.front alphabet c tail).value ∧
      (cursor.advance alphabet).token.span.cut text = (Lexeme.front alphabet c tail).text ∧
      (cursor.advance alphabet).token.fault? = (Lexeme.front alphabet c tail).fault? :=
    Token.next_front alphabet at_text.1 at_text.2
  rcases front with final | ⟨c, tail, same, value, cut, fault⟩
  · rw [final] at kind
    rcases kind with kind | kind <;> cases kind
  · obtain ⟨quote, rfl, lexeme⟩ := exists_front_eq (same ▸ kind)
    rw [lexeme] at same value cut fault
    obtain ⟨body, written, spelled⟩ := exists_spelled_of_lexeme (fault ▸ sound)
    refine ⟨quote, body, same.trans (quote.lexeme_kind tail), cut.trans written, ?_⟩
    rwa [value, String.toList_ofList]

/-- A value that is spelled between two quotes is scanned as one string or template with that value,
up to the second quote and whatever follows it, and nothing is reported; and every value can be
spelled. Conversely, wherever in a text a string or a template is scanned and nothing is reported,
there stand two quotes of one sort with a spelling of its value between them, and the value is what
the characters between them decode to. -/
theorem scan_literals (alphabet : Alphabet) :
    (∀ (quote : QuoteMark) (body value rest : List Char), quote.Spelled body value →
      (start (String.ofList (quote.char :: body ++ quote.char :: rest))).advance alphabet =
        ⟨⟨quote.kind, ⟨0, body.length + 2⟩, String.ofList value, false, none⟩, rest, []⟩) ∧
    (∀ (quote : QuoteMark) (value : List Char), ∃ body, quote.Spelled body value) ∧
    ∀ (text : String) (i : Nat),
      let before := (advance alphabet)^[i] (start text)
      let after := before.advance alphabet
      after.token.kind = .string ∨ after.token.kind = .template → after.issues = before.issues →
        ∃ (quote : QuoteMark) (body : List Char), after.token.kind = quote.kind ∧
          after.token.span.cut text.toList = quote.char :: body ++ [quote.char] ∧
          quote.Spelled body after.token.value.toList ∧
          after.token.value.toList = decode body := by
  refine ⟨fun quote body value rest spelled => advance_spelled alphabet spelled rest,
    QuoteMark.exists_spelled, ?_⟩
  intro text i before after kind silent
  have at_start : (start text).At text.toList := ⟨rfl, Nat.zero_le _⟩
  obtain ⟨quote, body, same, written, spelled⟩ :=
    (at_start.iterate alphabet i).exists_spelled kind silent
  exact ⟨quote, body, same, written, spelled, spelled.decode_eq.symm⟩

end Cursor

end ExpressionTyping
