import ExpressionTyping.Grammar.Basic
import ExpressionTyping.Proofs.Grammar.Step
import ExpressionTyping.Proofs.Syntax.Printing

/-!
# Parsing inverts printing

A tree that is shaped as the grammar asks for is read back from its own tokens. For each level of
the grammar this is one statement about a reader and a tree (`ReadsAccess`, `ReadsUnary`,
`ReadsBinary`, `ReadsAny`), which holds whatever tokens stand after the tree, as long as they do not
go on with it at that level.

The loops of the grammar do not call themselves on a part of the tree: a chain of members or of
operators that group to the left is read from its innermost part outwards. What is shown of a loop is
therefore that after some rounds it stands where it would if the tree had been read at once
(`Loops`), and each link of a chain is one more round (`Loops.extend`).
-/

set_option autoImplicit false

namespace ExpressionTyping

namespace TokenKind

/-- Whether a token goes on with the expression before it as a member, an element or a call. -/
def continuesAccess : TokenKind → Bool
  | punctuator .dot | punctuator .openBracket | punctuator .openParen => true
  | _ => false

/-- Whether a token ends any expression before it. -/
def endsExpression : TokenKind → Bool
  | punctuator .closeParen | punctuator .closeBracket | punctuator .comma | punctuator .colon
  | endOfText => true
  | _ => false

end TokenKind

/-- A token of a content is of its kind. -/
theorem Token.kind_of_content {token : Token} {content : TokenKind × String}
    (h : token.content = content) : token.kind = content.1 :=
  congrArg Prod.fst h

/-- A word is a keyword or a name. -/
theorem TokenKind.ofWord_isWord (text : String) :
    (ofWord text).isKeyword = true ∨ (ofWord text).isName = true := by
  unfold ofWord
  split
  · exact .inl rfl
  · exact .inr rfl

/-- The token that a literal is printed as stands for it. -/
theorem Literal.ofToken?_of_content {token : Token} {value : Literal}
    (h : token.content = value.content) :
    token.kind.isName = false ∧ ofToken? token = some value := by
  have hkind := Token.kind_of_content h
  have hvalue : token.value = value.content.2 := congrArg Prod.snd h
  cases value with
  | boolean value =>
    cases value <;> simp [ofToken?, hkind, content, text?, Literal.kind, TokenKind.fixed,
      TokenKind.isName, TokenKind.isContextualKeyword, Keyword.isContextual]
  | string text | template text | number text =>
    simp [ofToken?, hkind, hvalue, content, text?, Literal.kind, TokenKind.isName,
      TokenKind.isContextualKeyword]
  | null =>
    simp [ofToken?, hkind, content, text?, Literal.kind, TokenKind.fixed, TokenKind.isName,
      TokenKind.isContextualKeyword, Keyword.isContextual]

section Tokens

variable {tokens : List Token} {contents others : List (TokenKind × String)}
  {content closing : TokenKind × String}

/-- Tokens whose contents have a content in their midst have a token of that content there. -/
theorem Token.exists_of_map_append_cons
    (h : tokens.map Token.content = contents ++ content :: others) :
    ∃ before token after, tokens = before ++ token :: after ∧
      before.map Token.content = contents ∧ token.content = content ∧
      after.map Token.content = others := by
  obtain ⟨before, more, rfl, hbefore, hmore⟩ := List.map_eq_append_iff.mp h
  obtain ⟨token, after, rfl, htoken, hafter⟩ := List.map_eq_cons_iff.mp hmore
  exact ⟨before, token, after, rfl, hbefore, htoken, hafter⟩

/-- Tokens between two others, such as brackets. -/
theorem Token.exists_of_map_bracketed
    (h : tokens.map Token.content = content :: (contents ++ [closing])) :
    ∃ first within last, tokens = first :: (within ++ [last]) ∧ first.content = content ∧
      within.map Token.content = contents ∧ last.content = closing := by
  obtain ⟨first, more, rfl, hfirst, hmore⟩ := List.map_eq_cons_iff.mp h
  obtain ⟨within, last, after, rfl, hwithin, hlast, hafter⟩ := exists_of_map_append_cons hmore
  obtain rfl := List.map_eq_nil_iff.mp hafter
  exact ⟨first, within, last, rfl, hfirst, hwithin, hlast⟩

end Tokens

namespace Parse

/-! ## Reading at once and in rounds -/

/-- A parse reads an expression, up to numbers and places, reports nothing and stops before the given
tokens. -/
def Parses (p : Parse Expr) (e : Expr) (s : ParseState) (after : List Token) : Prop :=
  ∃ e' s', p.run s = (e', s') ∧ e'.bare = e.bare ∧ s'.ahead = after ∧ s'.issues = s.issues

/-- A loop with enough rounds left, after its start was read, comes to stand before the given tokens
with an expression read and enough rounds left. -/
def Loops (start : Parse Expr) (tail : Nat → Expr → Parse Expr) (e : Expr) (s : ParseState)
    (after : List Token) : Prop :=
  ∃ head s₁, start.run s = (head, s₁) ∧ s₁.ahead.length ≤ s.ahead.length ∧
    ∀ limit, s₁.ahead.length ≤ limit → ∃ limit' e' s',
      (tail limit head).run s₁ = (tail limit' e').run s' ∧ after.length ≤ limit' ∧
      e'.bare = e.bare ∧ s'.ahead = after ∧ s'.issues = s.issues

variable {start : Parse Expr} {tail : Nat → Expr → Parse Expr} {e e₀ : Expr} {s : ParseState}
  {mid after : List Token}

/-- What is parsed by the start of a loop alone comes to stand there with rounds left. -/
theorem Parses.loops (h : Parses start e s after) (hlength : after.length ≤ s.ahead.length) :
    Loops start tail e s after := by
  obtain ⟨e', s', hrun, hbare, hahead, hissues⟩ := h
  refine ⟨e', s', hrun, by rw [hahead]; exact hlength, fun limit hlimit => ?_⟩
  exact ⟨limit, e', s', rfl, by rw [← hahead]; exact hlimit, hbare, hahead, hissues⟩

/-- One more round of a loop. -/
theorem Loops.extend (h : Loops start tail e₀ s mid) (hless : after.length < mid.length)
    (hround : ∀ limit e₁ s₁, mid.length ≤ limit + 1 → e₁.bare = e₀.bare → s₁.ahead = mid →
      ∃ e₂ s₂, (tail (limit + 1) e₁).run s₁ = (tail limit e₂).run s₂ ∧ e₂.bare = e.bare ∧
        s₂.ahead = after ∧ s₂.issues = s₁.issues) :
    Loops start tail e s after := by
  obtain ⟨head, s₀, hrun, hlength, hloop⟩ := h
  refine ⟨head, s₀, hrun, hlength, fun limit hlimit => ?_⟩
  obtain ⟨limit', e₁, s₁, hrounds, hroom, hbare, hahead, hissues⟩ := hloop limit hlimit
  obtain ⟨limit', rfl⟩ := Nat.exists_eq_add_one_of_ne_zero (show limit' ≠ 0 by omega)
  obtain ⟨e₂, s₂, hrun₂, hbare₂, hahead₂, hissues₂⟩ := hround limit' e₁ s₁ hroom hbare hahead
  exact ⟨limit', e₂, s₂, hrounds.trans hrun₂, by omega, hbare₂, hahead₂, hissues₂.trans hissues⟩

/-- A loop that stops before the given tokens has read the expression. -/
theorem Loops.parses (h : Loops start tail e s after)
    (hstop : ∀ limit e' s', s'.ahead = after → (tail limit e').run s' = (e', s')) :
    Parses (do let head ← start; tail (← remaining) head) e s after := by
  obtain ⟨head, s₁, hrun, -, hloop⟩ := h
  obtain ⟨limit, e', s', hrounds, -, hbare, hahead, hissues⟩ := hloop s₁.ahead.length (Nat.le_refl _)
  refine ⟨e', s', ?_, hbare, hahead, hissues⟩
  rw [run_bind, hrun, run_bind, remaining_run]
  exact hrounds.trans (hstop limit e' s' hahead)

/-- A token always lies ahead, so a loop that has a round for each token has one left. -/
theorem exists_round {s : ParseState} {limit : Nat} (h : s.ahead.length ≤ limit) :
    ∃ rounds, limit = rounds + 1 :=
  Nat.exists_eq_add_one_of_ne_zero (Nat.ne_of_gt (Nat.lt_of_lt_of_le (Nat.succ_pos _) h))

/-! ## The levels of the grammar -/

/-- A reader of any expression reads one before a token that ends it. -/
def ReadsAny (p : Parse Expr) (e : Expr) : Prop :=
  ∀ s tokens next after, s.ahead = tokens ++ next :: after → tokens.map Token.content = e.contents →
    next.kind.endsExpression = true → Parses p e s (next :: after)

/-- With a reader for what is nested in it, the loop over members, elements and calls reads an
expression. -/
def ReadsAccess (assignment : Parse Expr) (e : Expr) : Prop :=
  ∀ s tokens after, s.ahead = tokens ++ after → tokens.map Token.content = e.contents → after ≠ [] →
    Loops (primary assignment) (accessTail assignment) e s after

/-- A reader of operands reads one before a token that does not go on with it. -/
def ReadsUnary (operand : Parse Expr) (e : Expr) : Prop :=
  ∀ s tokens next after, s.ahead = tokens ++ next :: after → tokens.map Token.content = e.contents →
    next.kind.continuesAccess = false → Parses operand e s (next :: after)

section Access

variable {assignment : Parse Expr}

/-- A loop over members, elements and calls stops at a token that goes on with none of them. -/
theorem accessTail_stop {s : ParseState} (h : s.current.kind.continuesAccess = false) (limit : Nat)
    (e : Expr) : (accessTail assignment limit e).run s = (e, s) := by
  have hne (p : Punctuator) (hp : (TokenKind.punctuator p).continuesAccess = true) :
      s.current.kind ≠ .punctuator p := by
    intro hkind
    rw [hkind, hp] at h
    cases h
  cases limit with
  | zero => rfl
  | succ limit =>
    rw [accessTail, run_bind, accept_run_of_ne (hne .dot rfl)]
    simp only [Bool.false_eq_true, if_false]
    rw [run_bind, accept_run_of_ne (hne .openBracket rfl)]
    simp only [Bool.false_eq_true, if_false]
    rw [run_bind, isAtPunctuator, isAt_run, decide_eq_false (hne .openParen rfl)]
    rfl

/-- A name is read as itself. -/
theorem identifier_readsAccess {name : Identifier}
    (hname : (TokenKind.ofWord name.text).isName = true) :
    ReadsAccess assignment (.identifier name) := by
  intro s tokens after hahead hcontents hafter
  rw [Expr.contents] at hcontents
  obtain ⟨token, rfl, htoken⟩ := List.map_eq_singleton_iff.mp hcontents
  obtain rfl := ParseState.current_of_ahead hahead
  have hkind : s.current.kind.isName = true := by
    rw [Token.kind_of_content htoken]
    exact hname
  have hvalue : s.current.value = name.text := congrArg Prod.snd htoken
  refine Parses.loops ⟨.identifier ⟨⟨s.taken.nextId, s.current.span⟩, s.current.value⟩,
    s.taken.numbered, ?_, ?_, ?_, ?_⟩ ?_
  · rw [primary, run_bind, current_run, if_pos hkind, run_bind, identifier_run hkind]
    rfl
  · rw [Expr.bare, Expr.bare, hvalue]
  · exact ParseState.taken_ahead hahead hafter
  · exact s.taken_issues
  · simp [hahead]

/-- A literal is read as itself. -/
theorem literal_readsAccess {node : Node} {value : Literal} :
    ReadsAccess assignment (.literal node value) := by
  intro s tokens after hahead hcontents hafter
  rw [Expr.contents] at hcontents
  obtain ⟨token, rfl, htoken⟩ := List.map_eq_singleton_iff.mp hcontents
  obtain rfl := ParseState.current_of_ahead hahead
  obtain ⟨hname, hvalue⟩ := Literal.ofToken?_of_content htoken
  refine Parses.loops ⟨.literal ⟨s.taken.nextId, s.current.span⟩ value, s.taken.numbered, ?_, ?_, ?_,
    ?_⟩ ?_
  · rw [primary, run_bind, current_run, if_neg (by simp [hname])]
    simp only [hvalue]
    rfl
  · rw [Expr.bare, Expr.bare]
  · exact ParseState.taken_ahead hahead hafter
  · exact s.taken_issues
  · simp [hahead]

/-- An expression is read up to the punctuator that closes it, which is taken. -/
theorem ReadsAny.closed {e : Expr} {s : ParseState} {tokens after : List Token} {closing : Token}
    {p : Punctuator} (h : ReadsAny assignment e)
    (hp : (TokenKind.punctuator p).endsExpression = true)
    (hahead : s.ahead = tokens ++ closing :: after) (hcontents : tokens.map Token.content = e.contents)
    (hclosing : closing.content = (TokenKind.punctuator p).fixed) (hafter : after ≠ []) :
    ∃ e' s', assignment.run s = (e', s') ∧ (expectPunctuator p).run s' = ((), s'.taken) ∧
      e'.bare = e.bare ∧ s'.taken.ahead = after ∧ s'.taken.issues = s.issues := by
  have hkind : closing.kind = .punctuator p := Token.kind_of_content hclosing
  obtain ⟨e', s', hrun, hbare, hahead', hissues⟩ :=
    h s tokens closing after hahead hcontents (by rw [hkind]; exact hp)
  refine ⟨e', s', hrun, expectPunctuator_run ?_, hbare, ParseState.taken_ahead hahead' hafter, ?_⟩
  · rw [ParseState.current_of_ahead hahead', hkind]
  · rw [ParseState.taken_issues, hissues]

/-- An expression in parentheses is read, if the one in them is. -/
theorem parenthesized_readsAccess {node : Node} {inner : Expr} (h : ReadsAny assignment inner) :
    ReadsAccess assignment (.parenthesized node inner) := by
  intro s tokens after hahead hcontents hafter
  rw [Expr.contents] at hcontents
  obtain ⟨opening, within, closing, rfl, hopening, hwithin, hclosing⟩ :=
    Token.exists_of_map_bracketed hcontents
  obtain rfl := ParseState.current_of_ahead hahead
  have hkind : s.current.kind = .punctuator .openParen := Token.kind_of_content hopening
  have hahead₁ : s.taken.ahead = within ++ closing :: after := by
    rw [ParseState.taken_ahead hahead (by simp)]
    simp
  obtain ⟨inner', s₂, hrun, hclose, hbare, hahead₂, hissues⟩ :=
    h.closed rfl hahead₁ hwithin hclosing hafter
  refine Parses.loops ⟨.parenthesized ⟨s₂.taken.nextId, ⟨s.current.span.start, s₂.taken.previousStop⟩⟩
    inner', s₂.taken.numbered, ?_, ?_, hahead₂, hissues.trans s.taken_issues⟩ ?_
  · have hname : ¬ s.current.kind.isName = true := by
      rw [hkind]
      exact Bool.false_ne_true
    have hliteral : Literal.ofToken? s.current = none := by
      simp [Literal.ofToken?, hkind]
    rw [primary, run_bind, current_run, if_neg hname]
    simp only [hliteral]
    rw [run_bind, accept_run_of_eq hkind]
    simp only [if_true]
    rw [run_bind, hrun, run_bind, hclose]
    rfl
  · rw [Expr.bare, Expr.bare, hbare]
  · rw [hahead]
    simp only [List.length_append, List.length_cons, List.length_nil]
    omega

/-- A member is read, if its object is. -/
theorem member_readsAccess {node : Node} {object : Expr} {name : Identifier}
    (h : ReadsAccess assignment object) : ReadsAccess assignment (.member node object name) := by
  intro s tokens after hahead hcontents hafter
  rw [Expr.contents] at hcontents
  obtain ⟨tokens, dot, last, rfl, htokens, hdot, hlast⟩ :=
    Token.exists_of_map_append_cons hcontents
  obtain ⟨token, rfl, htoken⟩ := List.map_eq_singleton_iff.mp hlast
  rw [List.append_assoc] at hahead
  refine (h s tokens _ hahead htokens (by simp)).extend ?_ ?_
  · simp only [List.length_append, List.length_cons, List.length_nil]
    omega
  intro limit e₁ s₁ _ hbare hahead₁
  obtain rfl := ParseState.current_of_ahead hahead₁
  have hkind : s₁.current.kind = .punctuator .dot := Token.kind_of_content hdot
  have hahead₂ : s₁.taken.ahead = token :: after := ParseState.taken_ahead hahead₁ (by simp)
  obtain rfl := ParseState.current_of_ahead hahead₂
  have hword : s₁.taken.current.kind.isKeyword = true ∨ s₁.taken.current.kind.isName = true := by
    rw [Token.kind_of_content htoken]
    exact TokenKind.ofWord_isWord name.text
  have hvalue : s₁.taken.current.value = name.text := congrArg Prod.snd htoken
  have hahead₃ : s₁.taken.taken.ahead = after := ParseState.taken_ahead hahead₂ hafter
  refine ⟨.member ⟨s₁.taken.taken.numbered.nextId, ⟨e₁.span.start, s₁.taken.taken.previousStop⟩⟩ e₁
    ⟨⟨s₁.taken.taken.nextId, s₁.taken.current.span⟩, s₁.taken.current.value⟩,
    s₁.taken.taken.numbered.numbered, ?_, ?_, hahead₃, ?_⟩
  · rw [accessTail, run_bind, accept_run_of_eq hkind]
    simp only [if_true]
    rw [run_bind, memberName_run hword]
    rfl
  · rw [Expr.bare, Expr.bare, hbare, hvalue]
  · rw [ParseState.numbered_issues, ParseState.numbered_issues, ParseState.taken_issues,
      ParseState.taken_issues]

/-- An element is read, if its object and its key are. -/
theorem element_readsAccess {node : Node} {object key : Expr} (h : ReadsAccess assignment object)
    (hkey : ReadsAny assignment key) : ReadsAccess assignment (.element node object key) := by
  intro s tokens after hahead hcontents hafter
  rw [Expr.contents] at hcontents
  obtain ⟨tokens, more, rfl, htokens, hmore⟩ := List.map_eq_append_iff.mp hcontents
  obtain ⟨opening, within, closing, rfl, hopening, hwithin, hclosing⟩ :=
    Token.exists_of_map_bracketed hmore
  rw [List.append_assoc] at hahead
  refine (h s tokens _ hahead htokens (by simp)).extend ?_ ?_
  · simp only [List.length_append, List.length_cons, List.length_nil]
    omega
  intro limit e₁ s₁ _ hbare hahead₁
  obtain rfl := ParseState.current_of_ahead hahead₁
  have hkind : s₁.current.kind = .punctuator .openBracket := Token.kind_of_content hopening
  have hahead₂ : s₁.taken.ahead = within ++ closing :: after := by
    rw [ParseState.taken_ahead hahead₁ (by simp)]
    simp
  obtain ⟨key', s₃, hrun, hclose, hbareKey, hahead₃, hissues⟩ :=
    hkey.closed rfl hahead₂ hwithin hclosing hafter
  refine ⟨.element ⟨s₃.taken.nextId, ⟨e₁.span.start, s₃.taken.previousStop⟩⟩ e₁ key',
    s₃.taken.numbered, ?_, ?_, hahead₃, hissues.trans s₁.taken_issues⟩
  · rw [accessTail, run_bind, accept_run_of_ne (by simp [hkind])]
    simp only [Bool.false_eq_true, if_false]
    rw [run_bind, accept_run_of_eq hkind]
    simp only [if_true]
    rw [run_bind, hrun, run_bind, hclose]
    rfl
  · rw [Expr.bare, Expr.bare, hbare, hbareKey]

/-- An expression does not start with what ends the arguments. -/
theorem argumentsTail_run_cons {e : Expr} {alphabet : Alphabet} {s : ParseState}
    {tokens after : List Token} (hregular : e.Throughout (Expr.Regular alphabet))
    (hahead : s.ahead = tokens ++ after) (hcontents : tokens.map Token.content = e.contents)
    (limit : Nat) :
    (argumentsTail assignment (limit + 1)).run s =
      (do
        let argument ← assignment
        if ← accept .comma then
          return argument :: (← argumentsTail assignment limit)
        else return [argument] : Parse (List Expr)).run s := by
  obtain ⟨first, rest, hfirst, hstarts⟩ := Expr.head_startsExpression hregular
  rw [hfirst] at hcontents
  obtain ⟨token, tokens, rfl, htoken, -⟩ := List.map_eq_cons_iff.mp hcontents
  have hkind : s.current.kind.startsExpression = true := by
    rw [ParseState.current_of_ahead hahead, Token.kind_of_content htoken]
    exact hstarts
  have hclose : s.current.kind ≠ .punctuator .closeParen := by
    intro h
    rw [h] at hkind
    cases hkind
  have hend : s.current.kind ≠ .endOfText := by
    intro h
    rw [h] at hkind
    cases hkind
  rw [argumentsTail, run_bind, isAtPunctuator, isAt_run, run_bind, isAt_run, decide_eq_false hclose,
    decide_eq_false hend]
  rfl

/-- Arguments up to the closing parenthesis are read, if each of them is. -/
theorem argumentsTail_parses {alphabet : Alphabet} {arguments : List Expr}
    (hregular : ∀ e ∈ arguments, e.Throughout (Expr.Regular alphabet))
    (h : ∀ e ∈ arguments, ReadsAny assignment e) {limit : Nat} {s : ParseState}
    {tokens after : List Token} {closing : Token} (hahead : s.ahead = tokens ++ closing :: after)
    (hcontents : tokens.map Token.content = Expr.argumentContents arguments)
    (hclosing : closing.kind = .punctuator .closeParen) (hlimit : s.ahead.length ≤ limit) :
    ∃ values s', (argumentsTail assignment limit).run s = (values, s') ∧
      Expr.bareAll values = Expr.bareAll arguments ∧ s'.ahead = closing :: after ∧
      s'.issues = s.issues := by
  induction arguments generalizing limit s tokens with
  | nil =>
    rw [Expr.argumentContents, List.map_eq_nil_iff] at hcontents
    subst hcontents
    obtain ⟨limit, rfl⟩ := exists_round hlimit
    refine ⟨[], s, ?_, rfl, hahead, rfl⟩
    have hkind : s.current.kind = .punctuator .closeParen := by
      rw [ParseState.current_of_ahead hahead, hclosing]
    rw [argumentsTail, run_bind, isAtPunctuator, isAt_run, run_bind, isAt_run, decide_eq_true hkind]
    rfl
  | cons argument others ih =>
    obtain ⟨hregular₁, hregular⟩ := List.forall_mem_cons.mp hregular
    obtain ⟨h₁, h⟩ := List.forall_mem_cons.mp h
    obtain ⟨limit, rfl⟩ := exists_round hlimit
    cases others with
    | nil =>
      rw [Expr.argumentContents] at hcontents
      obtain ⟨e', s₂, hrun, hbare, hahead₂, hissues⟩ :=
        h₁ s tokens closing after hahead hcontents (by rw [hclosing]; rfl)
      have hcomma : s₂.current.kind ≠ .punctuator .comma := by
        rw [ParseState.current_of_ahead hahead₂, hclosing]
        decide
      refine ⟨[e'], s₂, ?_, by simp [Expr.bareAll, hbare], hahead₂, hissues⟩
      rw [argumentsTail_run_cons hregular₁ hahead hcontents, run_bind, hrun, run_bind,
        accept_run_of_ne hcomma]
      rfl
    | cons next others =>
      rw [Expr.argumentContents_cons_cons] at hcontents
      obtain ⟨first, comma, more, rfl, hfirst, hcomma, hmore⟩ :=
        Token.exists_of_map_append_cons hcontents
      rw [List.append_assoc] at hahead
      have hcommaKind : comma.kind = .punctuator .comma := Token.kind_of_content hcomma
      obtain ⟨e', s₂, hrun, hbare, hahead₂, hissues⟩ :=
        h₁ s first comma (more ++ closing :: after) hahead hfirst (by rw [hcommaKind]; rfl)
      have hcurrent₂ : s₂.current.kind = .punctuator .comma := by
        rw [ParseState.current_of_ahead hahead₂, hcommaKind]
      have hahead₃ : s₂.taken.ahead = more ++ closing :: after :=
        ParseState.taken_ahead hahead₂ (by simp)
      have hlimit₃ : s₂.taken.ahead.length ≤ limit := by
        rw [hahead] at hlimit
        rw [hahead₃]
        simp only [List.length_append, List.length_cons] at hlimit ⊢
        omega
      obtain ⟨values, s₄, hrest, hbares, hahead₄, hissues₄⟩ := ih hregular h hahead₃ hmore hlimit₃
      refine ⟨e' :: values, s₄, ?_, ?_, hahead₄, ?_⟩
      · rw [argumentsTail_run_cons hregular₁ hahead hfirst, run_bind, hrun, run_bind,
          accept_run_of_eq hcurrent₂]
        simp only [if_true]
        rw [run_bind, hrest]
        rfl
      · rw [Expr.bareAll, Expr.bareAll, hbare, hbares]
      · rw [hissues₄, ParseState.taken_issues, hissues]

/-- A call is read, if its callee and its arguments are. -/
theorem call_readsAccess {alphabet : Alphabet} {node : Node} {callee : Expr} {values : List Expr}
    (hregular : ∀ e ∈ values, e.Throughout (Expr.Regular alphabet))
    (h : ReadsAccess assignment callee) (hvalues : ∀ e ∈ values, ReadsAny assignment e) :
    ReadsAccess assignment (.call node callee values) := by
  intro s tokens after hahead hcontents hafter
  rw [Expr.contents] at hcontents
  obtain ⟨tokens, more, rfl, htokens, hmore⟩ := List.map_eq_append_iff.mp hcontents
  obtain ⟨opening, within, closing, rfl, hopening, hwithin, hclosing⟩ :=
    Token.exists_of_map_bracketed hmore
  rw [List.append_assoc] at hahead
  refine (h s tokens _ hahead htokens (by simp)).extend ?_ ?_
  · simp only [List.length_append, List.length_cons, List.length_nil]
    omega
  intro limit e₁ s₁ _ hbare hahead₁
  obtain rfl := ParseState.current_of_ahead hahead₁
  have hkind : s₁.current.kind = .punctuator .openParen := Token.kind_of_content hopening
  have hclosingKind : closing.kind = .punctuator .closeParen := Token.kind_of_content hclosing
  have hahead₂ : s₁.taken.ahead = within ++ closing :: after := by
    rw [ParseState.taken_ahead hahead₁ (by simp)]
    simp
  obtain ⟨values', s₃, hrun, hbares, hahead₃, hissues⟩ :=
    argumentsTail_parses hregular hvalues hahead₂ hwithin hclosingKind (Nat.le_refl _)
  have hcurrent₃ : s₃.current.kind = .punctuator .closeParen := by
    rw [ParseState.current_of_ahead hahead₃, hclosingKind]
  have harguments : (arguments assignment).run s₁ = (values', s₃.taken) := by
    rw [arguments, run_bind, expectPunctuator_run hkind, run_bind, remaining_run, run_bind, hrun,
      run_bind, expectPunctuator_run hcurrent₃]
    rfl
  refine ⟨.call ⟨s₃.taken.nextId, ⟨e₁.span.start, s₃.taken.previousStop⟩⟩ e₁ values',
    s₃.taken.numbered, ?_, ?_, ParseState.taken_ahead hahead₃ hafter, ?_⟩
  · rw [accessTail, run_bind, accept_run_of_ne (by simp [hkind])]
    simp only [Bool.false_eq_true, if_false]
    rw [run_bind, accept_run_of_ne (by simp [hkind])]
    simp only [Bool.false_eq_true, if_false]
    rw [run_bind, isAtPunctuator, isAt_run, decide_eq_true hkind]
    simp only [if_true]
    rw [run_bind, harguments]
    rfl
  · rw [Expr.bare, Expr.bare, hbare, hbares]
  · rw [ParseState.numbered_issues, ParseState.taken_issues, hissues, ParseState.taken_issues]

end Access

section Unary

variable {assignment operand : Parse Expr}

/-- A primary expression with what follows it is read where an operator may stand in front. -/
theorem access_readsUnary {alphabet : Alphabet} {operand? : Option (Parse Expr)} {e : Expr}
    (hregular : e.Throughout (Expr.Regular alphabet)) (haccess : e.isAccess = true)
    (h : ReadsAccess assignment e) : ReadsUnary (unary assignment operand?) e := by
  intro s tokens next after hahead hcontents hnext
  obtain ⟨first, rest, hfirst, hstarts⟩ := Expr.head_of_isAccess hregular haccess
  have hnone : UnaryOp.ofToken? s.current.kind = none := by
    rw [hfirst] at hcontents
    obtain ⟨token, tokens, rfl, htoken, -⟩ := List.map_eq_cons_iff.mp hcontents
    rw [ParseState.current_of_ahead hahead, Token.kind_of_content htoken]
    exact TokenKind.ofToken?_eq_none_of_startsAccess hstarts
  have hrun : (unary assignment operand?).run s = (access assignment).run s := by
    rw [unary, run_bind, current_run]
    simp only [hnone]
  have hparses : Parses (access assignment) e s (next :: after) := by
    refine (h s tokens (next :: after) hahead hcontents (by simp)).parses fun limit e' s' hs' => ?_
    refine accessTail_stop ?_ limit e'
    rw [ParseState.current_of_ahead hs']
    exact hnext
  rw [Parses, hrun]
  exact hparses

/-- An operator in front of an operand is read, if the operand is one frame further in. -/
theorem unary_readsUnary {node : Node} {op : UnaryOp} {e : Expr} (h : ReadsUnary operand e) :
    ReadsUnary (unary assignment (some operand)) (.unary node op e) := by
  intro s tokens next after hahead hcontents hnext
  rw [Expr.contents] at hcontents
  obtain ⟨token, tokens, rfl, htoken, htokens⟩ := List.map_eq_cons_iff.mp hcontents
  obtain rfl := ParseState.current_of_ahead hahead
  have hop : UnaryOp.ofToken? s.current.kind = some op := by
    rw [Token.kind_of_content htoken]
    cases op <;> rfl
  have hahead₁ : s.taken.ahead = tokens ++ next :: after :=
    ParseState.taken_ahead hahead (by simp)
  obtain ⟨e', s₂, hrun, hbare, hahead₂, hissues⟩ :=
    h s.taken tokens next after hahead₁ htokens hnext
  refine ⟨.unary ⟨s₂.nextId, ⟨s.current.span.start, s₂.previousStop⟩⟩ op e', s₂.numbered, ?_, ?_,
    hahead₂, hissues.trans s.taken_issues⟩
  · rw [unary, run_bind, current_run]
    simp only [hop]
    rw [run_bind, advance_run, run_bind, hrun]
    rfl
  · rw [Expr.bare, Expr.bare, hbare]

end Unary

end Parse

/-! ## Operators and their operands -/

/-- The binary operator at the root of an expression. -/
def Expr.operator? : Expr → Option BinaryOp
  | binary _ _ op _ _ => some op
  | _ => none

namespace BinaryOp

/-- Only the right operand of `**` may have the rank of its operator. -/
theorem rightFloor_rank (op : BinaryOp) :
    (op = .power ∧ op.precedence.rank = 12 ∧ op.precedence.rightFloor.rank = 11) ∨
      (op ≠ .power ∧ op.precedence.rank ≤ 11 ∧
        op.precedence.rightFloor.rank = op.precedence.rank) := by
  cases op <;> decide

/-- The bound from which operators are read lies below every operator. -/
theorem floor_rank_lt (op : BinaryOp) : Precedence.floor.rank < op.precedence.rank := by
  cases op <;> decide

/-- The token of a binary operator is read as the operator. -/
theorem ofToken?_token (op : BinaryOp) : ofToken? op.token = some op := by
  cases op <;> rfl

/-- The token of a binary operator goes on with no access. -/
theorem continuesAccess_token (op : BinaryOp) : op.token.continuesAccess = false := by
  cases op <;> rfl

end BinaryOp

namespace Expr

variable {e : Expr} {op inner : BinaryOp}

/-- What stands left of an operator binds at least as tightly, and does not take the operator into
its own right operand. -/
theorem rank_of_fitsLeft (h : e.fitsLeft op = true) (hinner : e.operator? = some inner) :
    op.precedence.rank ≤ inner.precedence.rank ∧
      op.precedence.rank ≤ inner.precedence.rightFloor.rank := by
  cases e with
  | binary =>
    cases hinner
    rcases op.rightFloor_rank with ⟨hop, hrank, -⟩ | ⟨hop, hrank, -⟩
    · rw [fitsLeft, if_pos hop, decide_eq_true_eq] at h
      rcases inner.rightFloor_rank with ⟨-, hinner, hfloor⟩ | ⟨-, hinner, hfloor⟩ <;> omega
    · rw [fitsLeft, if_neg hop, decide_eq_true_eq] at h
      rcases inner.rightFloor_rank with ⟨-, hinner, hfloor⟩ | ⟨-, hinner, hfloor⟩ <;> omega
  | _ => cases hinner

/-- What stands right of an operator binds more tightly than its floor, and takes no operator into
its own right operand that the floor keeps out. -/
theorem rank_of_fitsRight (h : e.fitsRight op = true) (hinner : e.operator? = some inner) :
    op.precedence.rightFloor.rank < inner.precedence.rank ∧
      op.precedence.rightFloor.rank ≤ inner.precedence.rightFloor.rank := by
  cases e with
  | binary =>
    cases hinner
    rcases op.rightFloor_rank with ⟨hop, hrank, hopFloor⟩ | ⟨hop, hrank, hopFloor⟩
    · rw [fitsRight, if_pos hop, decide_eq_true_eq] at h
      rcases inner.rightFloor_rank with ⟨-, hinner, hfloor⟩ | ⟨-, hinner, hfloor⟩ <;> omega
    · rw [fitsRight, if_neg hop, decide_eq_true_eq] at h
      rcases inner.rightFloor_rank with ⟨-, hinner, hfloor⟩ | ⟨-, hinner, hfloor⟩ <;> omega
  | _ => cases hinner

/-- What fits left of an operator stands beside operators only as an operand or an operation. -/
theorem isBinary_of_fitsLeft (h : e.fitsLeft op = true) : e.isBinary = true := by
  cases e with
  | binary => rfl
  | _ => exact h

/-- What fits right of an operator stands beside operators only as an operand or an operation. -/
theorem isBinary_of_fitsRight (h : e.fitsRight op = true) : e.isBinary = true := by
  cases e with
  | binary => rfl
  | _ => exact h

end Expr

namespace Parse

/-- A loop over binary operators above a bound reads an expression, if its own operator is above the
bound and the token after it is no operator that belongs into it. -/
def ReadsBinary (operand : Parse Expr) (e : Expr) : Prop :=
  ∀ bound s tokens next after, s.ahead = tokens ++ next :: after →
    tokens.map Token.content = e.contents → next.kind.continuesAccess = false →
    (∀ op, e.operator? = some op → bound.rank < op.precedence.rank) →
    (∀ op other, e.operator? = some op → BinaryOp.ofToken? next.kind = some other →
      other.precedence.rank ≤ op.precedence.rightFloor.rank) →
    Loops operand (fun limit => binaryTail operand limit bound) e s (next :: after)

section Binary

variable {nested operand : Parse Expr}

/-- A loop over operators above a bound stops at a token that is none of them. -/
theorem binaryTail_stop {s : ParseState} {bound : Precedence}
    (h : ∀ op, BinaryOp.ofToken? s.current.kind = some op → op.precedence.rank ≤ bound.rank)
    (limit : Nat) (e : Expr) : (binaryTail operand limit bound e).run s = (e, s) := by
  cases limit with
  | zero => rfl
  | succ limit =>
    rw [binaryTail, run_bind, current_run]
    cases hop : BinaryOp.ofToken? s.current.kind with
    | none => rfl
    | some op =>
      simp only [if_neg (Nat.not_lt.mpr (h op hop))]
      rfl

/-- An operand is read where operators may join it with others. -/
theorem unary_readsBinary {e : Expr} (h : ReadsUnary operand e) : ReadsBinary operand e := by
  intro bound s tokens next after hahead hcontents hnext _ _
  refine (h s tokens next after hahead hcontents hnext).loops ?_
  simp [hahead]

/-- An operation is read, if its operands are and fit on their sides. -/
theorem binary_readsBinary {node : Node} {left right : Expr} {op : BinaryOp} {mark : Span}
    (hleft : ReadsBinary operand left) (hright : ReadsBinary operand right)
    (hfitsLeft : left.fitsLeft op = true) (hfitsRight : right.fitsRight op = true) :
    ReadsBinary operand (.binary node left op mark right) := by
  intro bound s tokens next after hahead hcontents hnext habove hends
  rw [Expr.contents] at hcontents
  obtain ⟨tokens, token, others, rfl, htokens, htoken, hothers⟩ :=
    Token.exists_of_map_append_cons hcontents
  have hkind : token.kind = op.token := Token.kind_of_content htoken
  have hrank : bound.rank < op.precedence.rank := habove op rfl
  rw [List.append_assoc] at hahead
  -- The left operand is read by the same loop, which then stands at the operator.
  have hloop : Loops operand (fun limit => binaryTail operand limit bound) left s
      (token :: (others ++ next :: after)) := by
    refine hleft bound s tokens token _ hahead htokens ?_ (fun inner hinner => ?_)
      fun inner other hinner hother => ?_
    · rw [hkind, op.continuesAccess_token]
    · exact Nat.lt_of_lt_of_le hrank (Expr.rank_of_fitsLeft hfitsLeft hinner).1
    · rw [hkind, op.ofToken?_token] at hother
      cases hother
      exact (Expr.rank_of_fitsLeft hfitsLeft hinner).2
  refine hloop.extend ?_ ?_
  · simp only [List.length_append, List.length_cons]
    omega
  intro limit e₁ s₁ hroom hbare hahead₁
  obtain rfl := ParseState.current_of_ahead hahead₁
  have hahead₂ : s₁.taken.ahead = others ++ next :: after :=
    ParseState.taken_ahead hahead₁ (by simp)
  -- The right operand has a loop of its own, which the operator after the whole does not enter.
  obtain ⟨head, s₂, hrun, hshorter, hrounds⟩ := hright op.precedence.rightFloor s₁.taken others next
    after hahead₂ hothers hnext
    (fun inner hinner => (Expr.rank_of_fitsRight hfitsRight hinner).1)
    (fun inner other hinner hother => Nat.le_trans (hends op other rfl hother)
      (Expr.rank_of_fitsRight hfitsRight hinner).2)
  have hroom₂ : s₂.ahead.length ≤ limit := by
    rw [hahead₂] at hshorter
    simp only [List.length_cons] at hroom
    omega
  obtain ⟨limit', right', s₃, hrun₃, -, hbareRight, hahead₃, hissues⟩ := hrounds limit hroom₂
  have hstop : (binaryTail operand limit' op.precedence.rightFloor right').run s₃ = (right', s₃) := by
    refine binaryTail_stop (fun other hother => ?_) limit' right'
    rw [ParseState.current_of_ahead hahead₃] at hother
    exact hends op other rfl hother
  refine ⟨.binary ⟨s₃.nextId, ⟨e₁.span.start, s₃.previousStop⟩⟩ e₁ op s₁.current.span right',
    s₃.numbered, ?_, ?_, hahead₃, hissues.trans s₁.taken_issues⟩
  · have hop : BinaryOp.ofToken? s₁.current.kind = some op := by
      rw [hkind, op.ofToken?_token]
    rw [binaryTail, run_bind, current_run]
    simp only [hop, if_pos hrank]
    rw [run_bind, advance_run, run_bind, hrun, run_bind, hrun₃, hstop]
    rfl
  · rw [Expr.bare, Expr.bare, hbare, hbareRight]

/-- Before a token that goes on with nothing, the operators are read to their end. -/
theorem ReadsBinary.parses {e : Expr} {s : ParseState} {tokens after : List Token} {next : Token}
    (h : ReadsBinary operand e) (hahead : s.ahead = tokens ++ next :: after)
    (hcontents : tokens.map Token.content = e.contents)
    (haccess : next.kind.continuesAccess = false)
    (hoperator : BinaryOp.ofToken? next.kind = none) :
    Parses (binary operand) e s (next :: after) := by
  have hloop := h .floor s tokens next after hahead hcontents haccess
    (fun op _ => op.floor_rank_lt) (fun op other _ hother => by rw [hoperator] at hother; cases hother)
  refine hloop.parses fun limit e' s' hs' => binaryTail_stop (fun op hop => ?_) limit e'
  rw [ParseState.current_of_ahead hs', hoperator] at hop
  cases hop

/-! ## Choices and assignments -/

/-- A token that ends an expression goes on with none of its levels. -/
theorem ends_of_endsExpression {kind : TokenKind} (h : kind.endsExpression = true) :
    kind.continuesAccess = false ∧ BinaryOp.ofToken? kind = none ∧
      kind ≠ .punctuator .question ∧ kind ≠ .punctuator .equals := by
  cases kind with
  | punctuator p =>
    revert h
    cases p <;> decide
  | endOfText => exact ⟨rfl, rfl, nofun, nofun⟩
  | unknown | number | string | template | identifier | keyword => cases h

/-- An expression without a question mark after it is no choice. -/
theorem ReadsBinary.conditional {e : Expr} {s : ParseState} {tokens after : List Token}
    {next : Token} (h : ReadsBinary operand e) (hahead : s.ahead = tokens ++ next :: after)
    (hcontents : tokens.map Token.content = e.contents)
    (haccess : next.kind.continuesAccess = false)
    (hoperator : BinaryOp.ofToken? next.kind = none)
    (hquestion : next.kind ≠ .punctuator .question) :
    Parses (conditional nested operand) e s (next :: after) := by
  obtain ⟨e', s', hrun, hbare, hahead', hissues⟩ := h.parses hahead hcontents haccess hoperator
  refine ⟨e', s', ?_, hbare, hahead', hissues⟩
  rw [← ParseState.current_of_ahead hahead'] at hquestion
  rw [Parse.conditional, run_bind, hrun, run_bind, accept_run_of_ne hquestion]
  rfl

/-- An expression without an equals sign after it is no assignment. -/
theorem Parses.assignment {e : Expr} {s : ParseState} {after : List Token} {next : Token}
    (h : Parses (conditional nested operand) e s (next :: after))
    (hequals : next.kind ≠ .punctuator .equals) :
    Parses (assignment nested operand) e s (next :: after) := by
  obtain ⟨e', s', hrun, hbare, hahead, hissues⟩ := h
  refine ⟨e', s', ?_, hbare, hahead, hissues⟩
  rw [← ParseState.current_of_ahead hahead] at hequals
  rw [Parse.assignment, run_bind, hrun, run_bind, accept?_run_of_ne hequals]
  rfl

/-- An operand or an operation is read where an assignment or a choice may stand. -/
theorem binary_readsAny {e : Expr} (h : ReadsBinary operand e) :
    ReadsAny (assignment nested operand) e := by
  intro s tokens next after hahead hcontents hnext
  obtain ⟨haccess, hoperator, hquestion, hequals⟩ := ends_of_endsExpression hnext
  exact (h.conditional hahead hcontents haccess hoperator hquestion).assignment hequals

/-- A choice is read, if its condition and its branches are. -/
theorem conditional_readsAny {node : Node} {condition whenTrue whenFalse : Expr}
    (hcondition : ReadsBinary operand condition) (htrue : ReadsAny nested whenTrue)
    (hfalse : ReadsAny nested whenFalse) :
    ReadsAny (assignment nested operand) (.conditional node condition whenTrue whenFalse) := by
  intro s tokens next after hahead hcontents hnext
  rw [Expr.contents] at hcontents
  obtain ⟨tokens, question, more, rfl, htokens, hquestion, hmore⟩ :=
    Token.exists_of_map_append_cons hcontents
  obtain ⟨positive, colon, negative, rfl, hpositive, hcolon, hnegative⟩ :=
    Token.exists_of_map_append_cons hmore
  have hkind : question.kind = .punctuator .question := Token.kind_of_content hquestion
  have hahead₀ : s.ahead =
      tokens ++ question :: (positive ++ colon :: (negative ++ next :: after)) := by
    rw [hahead]
    simp
  obtain ⟨condition', s₁, hrun₁, hbare₁, hahead₁, hissues₁⟩ :=
    hcondition.parses hahead₀ htokens (by rw [hkind]; rfl) (by rw [hkind]; rfl)
  have hcurrent₁ : s₁.current.kind = .punctuator .question := by
    rw [ParseState.current_of_ahead hahead₁, hkind]
  have hahead₂ : s₁.taken.ahead = positive ++ colon :: (negative ++ next :: after) :=
    ParseState.taken_ahead hahead₁ (by simp)
  obtain ⟨true', s₃, hrun₃, hcolon₃, hbare₃, hahead₃, hissues₃⟩ :=
    htrue.closed rfl hahead₂ hpositive hcolon (by simp)
  obtain ⟨false', s₄, hrun₄, hbare₄, hahead₄, hissues₄⟩ :=
    hfalse s₃.taken negative next after hahead₃ hnegative hnext
  refine Parses.assignment ⟨.conditional ⟨s₄.nextId, ⟨condition'.span.start, s₄.previousStop⟩⟩
    condition' true' false', s₄.numbered, ?_, ?_, hahead₄, ?_⟩ (ends_of_endsExpression hnext).2.2.2
  · rw [conditional, run_bind, hrun₁, run_bind, accept_run_of_eq hcurrent₁]
    simp only [if_true]
    rw [run_bind, hrun₃, run_bind, hcolon₃, run_bind, hrun₄]
    rfl
  · rw [Expr.bare, Expr.bare, hbare₁, hbare₃, hbare₄]
  · rw [ParseState.numbered_issues, hissues₄, hissues₃, ParseState.taken_issues, hissues₁]

/-- An assignment is read, if its target and its value are. -/
theorem assign_readsAny {node : Node} {target value : Expr} {mark : Span}
    (htarget : ReadsBinary operand target) (hvalue : ReadsAny nested value) :
    ReadsAny (assignment nested operand) (.assign node target mark value) := by
  intro s tokens next after hahead hcontents hnext
  rw [Expr.contents] at hcontents
  obtain ⟨tokens, token, others, rfl, htokens, htoken, hothers⟩ :=
    Token.exists_of_map_append_cons hcontents
  have hkind : token.kind = .punctuator .equals := Token.kind_of_content htoken
  rw [List.append_assoc] at hahead
  obtain ⟨target', s₁, hrun₁, hbare₁, hahead₁, hissues₁⟩ :
      Parses (conditional nested operand) target s (token :: (others ++ next :: after)) := by
    refine htarget.conditional hahead htokens ?_ ?_ ?_ <;> rw [hkind]
    · rfl
    · rfl
    · decide
  have hcurrent₁ : s₁.current.kind = .punctuator .equals := by
    rw [ParseState.current_of_ahead hahead₁, hkind]
  have hahead₂ : s₁.taken.ahead = others ++ next :: after :=
    ParseState.taken_ahead hahead₁ (by simp)
  obtain ⟨value', s₃, hrun₃, hbare₃, hahead₃, hissues₃⟩ :=
    hvalue s₁.taken others next after hahead₂ hothers hnext
  refine ⟨.assign ⟨s₃.nextId, ⟨target'.span.start, s₃.previousStop⟩⟩ target' s₁.current.span value',
    s₃.numbered, ?_, ?_, hahead₃, ?_⟩
  · rw [assignment, run_bind, hrun₁, run_bind, accept?_run_of_eq hcurrent₁]
    simp only
    rw [run_bind, hrun₃]
    rfl
  · rw [Expr.bare, Expr.bare, hbare₁, hbare₃]
  · rw [ParseState.numbered_issues, hissues₃, ParseState.taken_issues, hissues₁]

end Binary

/-! ## All levels at every depth -/

/-- An expression is read at each level of the grammar where it may stand, with a depth to spend that
its frames fit into. -/
structure Readable (depth : Nat) (e : Expr) : Prop where
  access : e.isAccess = true → e.frames ≤ depth → ReadsAccess (nested depth).assignment e
  unary : e.isUnary = true → e.frames ≤ depth → ReadsUnary (nested depth).unary e
  binary : e.isBinary = true → e.frames ≤ depth → ReadsBinary (nested depth).unary e
  any : e.frames < depth → ReadsAny (nested depth).assignment e

/-- An argument opens fewer frames than the list of arguments. -/
theorem argument_frames_lt {arguments : List Expr} {e : Expr} (h : e ∈ arguments) :
    e.frames < Expr.argumentFrames arguments := by
  induction arguments with
  | nil => cases h
  | cons argument others ih =>
    rw [Expr.argumentFrames]
    rcases List.mem_cons.mp h with rfl | h
    · omega
    · have := ih h
      omega

section Levels

variable {alphabet : Alphabet} {e : Expr}

/-- A primary expression with what follows it is read at a depth that has room for its frames, if
its children are readable. -/
theorem readable_access (hregular : e.Throughout (Expr.Regular alphabet))
    (ih : ∀ child ∈ e.children, ∀ depth, Readable depth child) (depth : Nat)
    (haccess : e.isAccess = true) (hframes : e.frames ≤ depth) :
    ReadsAccess (nested depth).assignment e := by
  obtain ⟨⟨hfits, hprintable⟩, hbelow⟩ := hregular
  cases e with
  | identifier name => exact identifier_readsAccess hprintable.1
  | literal node value => exact literal_readsAccess
  | parenthesized node inner =>
    rw [Expr.frames] at hframes
    exact parenthesized_readsAccess ((ih inner (by simp) depth).any hframes)
  | member node object name =>
    rw [Expr.frames] at hframes
    exact member_readsAccess ((ih object (by simp) depth).access hfits hframes)
  | element node object key =>
    rw [Expr.frames, Nat.max_le] at hframes
    exact element_readsAccess ((ih object (by simp) depth).access hfits hframes.1)
      ((ih key (by simp) depth).any hframes.2)
  | call node callee arguments =>
    rw [Expr.frames, Nat.max_le] at hframes
    have harguments (argument : Expr) (h : argument ∈ arguments) : argument ∈
        (Expr.call node callee arguments).children := List.mem_cons_of_mem callee h
    refine call_readsAccess (fun argument h => hbelow argument (harguments argument h))
      ((ih callee (by simp) depth).access hfits hframes.1) fun argument h => ?_
    have hargument := argument_frames_lt h
    exact (ih argument (harguments argument h) depth).any (by omega)
  | unary | binary | assign | conditional | missing => cases haccess

/-- An expression with operators in front is read at a depth that has room for its frames, if its
children are readable. -/
theorem readable_unary (hregular : e.Throughout (Expr.Regular alphabet))
    (ih : ∀ child ∈ e.children, ∀ depth, Readable depth child) (depth : Nat)
    (hunary : e.isUnary = true) (hframes : e.frames ≤ depth) :
    ReadsUnary (nested depth).unary e := by
  by_cases haccess : e.isAccess = true
  · have hreads := readable_access hregular ih depth haccess hframes
    cases depth <;> exact access_readsUnary hregular haccess hreads
  · cases e with
    | unary node op operand =>
      obtain ⟨⟨hfits, -⟩, -⟩ := hregular
      rw [Expr.frames] at hframes
      obtain ⟨depth, rfl⟩ := Nat.exists_eq_add_one_of_ne_zero (show depth ≠ 0 by omega)
      have hoperand := (ih operand (by simp) depth).unary hfits (by omega)
      exact unary_readsUnary hoperand
    | identifier | literal | parenthesized | member | element | call => exact absurd rfl haccess
    | binary | assign | conditional | missing => cases hunary

/-- Operands joined by operators are read at a depth that has room for their frames, if the children
are readable. -/
theorem readable_binary (hregular : e.Throughout (Expr.Regular alphabet))
    (ih : ∀ child ∈ e.children, ∀ depth, Readable depth child) (depth : Nat)
    (hbinary : e.isBinary = true) (hframes : e.frames ≤ depth) :
    ReadsBinary (nested depth).unary e := by
  by_cases hunary : e.isUnary = true
  · exact unary_readsBinary (readable_unary hregular ih depth hunary hframes)
  · cases e with
    | binary node left op mark right =>
      obtain ⟨⟨hfits, -⟩, -⟩ := hregular
      rw [Expr.fits, Bool.and_eq_true] at hfits
      rw [Expr.frames, Nat.max_le] at hframes
      have hleft := (ih left (by simp) depth).binary
        (Expr.isBinary_of_fitsLeft hfits.1) hframes.1
      have hright := (ih right (by simp) depth).binary
        (Expr.isBinary_of_fitsRight hfits.2) hframes.2
      exact binary_readsBinary hleft hright hfits.1 hfits.2
    | identifier | literal | parenthesized | member | element | call | unary =>
      exact absurd rfl hunary
    | assign | conditional | missing => cases hbinary

/-- Any expression is read at a depth with more room than its frames need, if its children are
readable. -/
theorem readable_any (hregular : e.Throughout (Expr.Regular alphabet))
    (ih : ∀ child ∈ e.children, ∀ depth, Readable depth child) (depth : Nat)
    (hframes : e.frames < depth) : ReadsAny (nested depth).assignment e := by
  obtain ⟨depth, rfl⟩ := Nat.exists_eq_add_one_of_ne_zero (show depth ≠ 0 by omega)
  by_cases hbinary : e.isBinary = true
  · exact binary_readsAny (readable_binary hregular ih depth hbinary (by omega))
  · obtain ⟨⟨hfits, -⟩, -⟩ := hregular
    cases e with
    | assign node target mark value =>
      rw [Expr.frames] at hframes
      have htarget := (ih target (by simp) depth).binary hfits (by omega)
      have hvalue := (ih value (by simp) depth).any (by omega)
      exact assign_readsAny htarget hvalue
    | conditional node condition whenTrue whenFalse =>
      rw [Expr.frames] at hframes
      have hcondition := (ih condition (by simp) depth).binary hfits (by omega)
      have htrue := (ih whenTrue (by simp) depth).any (by omega)
      have hfalse := (ih whenFalse (by simp) depth).any (by omega)
      exact conditional_readsAny hcondition htrue hfalse
    | identifier | literal | parenthesized | member | element | call | unary | binary =>
      exact absurd rfl hbinary
    | missing => cases hfits

/-- Every regular expression is readable at every depth, by induction on its children. -/
theorem readable (hregular : e.Throughout (Expr.Regular alphabet)) (depth : Nat) :
    Readable depth e := by
  induction hregular generalizing depth with
  | @intro e here below ih =>
    have hregular : e.Throughout (Expr.Regular alphabet) := ⟨here, below⟩
    exact ⟨readable_access hregular ih depth, readable_unary hregular ih depth,
      readable_binary hregular ih depth, readable_any hregular ih depth⟩

end Levels

/-! ## Whole texts -/

/-- Where no token is faulted, the scanner reports nothing. -/
theorem tokenIssues_eq_nil {tokens : List Token} (h : ∀ token ∈ tokens, token.fault? = none)
    (final : ParseState) : tokenIssues tokens final = [] := by
  rw [tokenIssues, List.filterMap_eq_nil_iff]
  intro token htoken
  rw [Token.issue?, h token (List.mem_of_mem_take htoken)]
  rfl

/-- A regular expression whose frames fit is read to the end of the text. -/
theorem wholeExpression_parses {alphabet : Alphabet} {e : Expr} {s : ParseState} {tokens : List Token}
    {final : Token} (hregular : e.Throughout (Expr.Regular alphabet)) (hframes : e.frames < depthLimit)
    (hahead : s.ahead = tokens ++ [final]) (hcontents : tokens.map Token.content = e.contents)
    (hfinal : final.kind = .endOfText) : Parses wholeExpression e s [final] := by
  obtain ⟨e', s', hrun, hbare, hahead', hissues⟩ := (readable hregular depthLimit).any hframes s tokens
    final [] hahead hcontents (by rw [hfinal]; rfl)
  refine ⟨e', s', ?_, hbare, hahead', hissues⟩
  have hend : s'.current.kind = .endOfText := by
    rw [ParseState.current_of_ahead hahead', hfinal]
  rw [wholeExpression, run_bind, expression, hrun, run_bind, current_run, if_pos hend]
  rfl

/-- A parse throughout tokens that reads an expression reports nothing and gives the expression, up
to numbers and places. -/
theorem throughout_parses {p : Parse Expr} {e : Expr} {tokens after : List Token}
    (h : Parses p e (initial tokens) after) (hfaults : ∀ token ∈ tokens, token.fault? = none) :
    (throughout p tokens).issues = [] ∧ (throughout p tokens).tree.bare = e.bare := by
  obtain ⟨e', s', hrun, hbare, -, hissues⟩ := h
  rw [initial_issues] at hissues
  rw [throughout, hrun]
  simp only [hissues, tokenIssues_eq_nil hfaults, List.append_nil]
  exact ⟨List.mergeSort_nil, hbare⟩

end Parse

namespace Expr

/-- The tokens of the printed form are those of the tree, so they are read as it. -/
theorem parse_print_of_regular {e : Expr} (hregular : e.Throughout (Regular Alphabet.standard))
    (hframes : e.frames < Parse.depthLimit) :
    (Expr.parse e.print).issues = [] ∧ (Expr.parse e.print).tree.bare = e.bare := by
  have hwritable := contents_writable (Throughout.imp (fun _ here => here.2) hregular)
  obtain ⟨tokens, final, htokens, hfinal, hcontents, hfaults⟩ :=
    Token.read_written hwritable 0 (Nat.lt_succ_self _)
  have hahead : (Parse.initial (tokens ++ [final])).ahead = tokens ++ [final] :=
    Parse.initial_ahead (by simp)
  have hparses := Parse.wholeExpression_parses hregular hframes hahead hcontents hfinal
  rw [Expr.parse, print, String.toList_ofList, Token.ofText, htokens]
  exact Parse.throughout_parses hparses hfaults

/-- A tree that is shaped as the grammar asks for, whose names and numbers can be written as tokens,
and whose frames fit into the depth limit, is read back from its printed form: nothing is reported,
and the tree is the same up to the numbers and the places of its nodes. -/
theorem parse_print {e : Expr} (hfits : e.Throughout fun node => node.fits = true)
    (hprintable : e.Throughout (Printable Alphabet.standard))
    (hframes : e.frames + 1 ≤ Parse.depthLimit) :
    (Expr.parse e.print).issues = [] ∧ (Expr.parse e.print).tree.bare = e.bare := by
  have hregular : e.Throughout (Regular Alphabet.standard) := hfits.and hprintable
  exact parse_print_of_regular hregular hframes

/-- An assignment to a member of a power of a negated number is read back. -/
theorem parse_print_powers :
    (Expr.parse "x . in = - 1 ** 2 ** \"a\"").issues = [] ∧
      (Expr.parse "x . in = - 1 ** 2 ** \"a\"").tree.bare =
        assign default (member default (identifier ⟨default, "x"⟩) ⟨default, "in"⟩) default
          (binary default (unary default .minus (literal default (.number "1"))) .power default
            (binary default (literal default (.number "2")) .power default
              (literal default (.string "a")))) := by
  refine parse_print (e := assign default (member default (identifier ⟨default, "x"⟩) ⟨default, "in"⟩)
    default (binary default (unary default .minus (literal default (.number "1"))) .power default
      (binary default (literal default (.number "2")) .power default
        (literal default (.string "a"))))) ?_ ?_ ?_
  · simp only [throughout_iff, children, List.Forall]
    decide
  · simp only [throughout_iff, children, List.Forall, Printable]
    decide +kernel
  · decide

end Expr

end ExpressionTyping
