import ExpressionTyping.Grammar.Basic
import ExpressionTyping.Proofs.Grammar.Step

/-!
# A tree covers the tokens it was read from

A parse that reports nothing returns a tree that reads as exactly the tokens taken, with every node
over its own tokens. Each reader of the grammar is shown to do so, given that the readers it calls
do. A loop that extends an expression is anchored where that expression started: if the expression
reads as the tokens from there on, then so does what the loop makes of it.

The last theorem is about whole texts: when nothing is reported, the tree accounts for every token
of the text up to its end.
-/

set_option autoImplicit false

namespace ExpressionTyping

/-! ## The tokens that stand for operators and literals -/

/-- A genuine token of a kind that fixes its text is the mark of the kind. -/
theorem Token.Genuine.isMark {token : Token} {kind : TokenKind} (h : token.Genuine)
    (hkind : token.kind = kind) (hfixed : kind.text?.isSome = true) : token.IsMark kind := by
  cases kind with
  | punctuator p => exact h.content_of_punctuator hkind
  | keyword k => exact h.content_of_keyword hkind
  | unknown | endOfText | number | string | template | identifier => cases hfixed

/-- A token that is read as a binary operator is the token of that operator. -/
theorem BinaryOp.token_of_ofToken? {kind : TokenKind} {op : BinaryOp} (h : ofToken? kind = some op) :
    kind = op.token := by
  unfold ofToken? at h
  split at h <;> cases h <;> rfl

/-- A token that is read as an operator in front is the token of that operator. -/
theorem UnaryOp.token_of_ofToken? {kind : TokenKind} {op : UnaryOp} (h : ofToken? kind = some op) :
    kind = op.token := by
  unfold ofToken? at h
  split at h <;> cases h <;> rfl

/-- A token whose kind fixes its text is not the end of the text. -/
theorem TokenKind.ne_endOfText_of_text {kind : TokenKind} (h : kind.text?.isSome = true) :
    kind ≠ .endOfText := by
  rintro rfl
  cases h

/-- A token that stands for a literal is not the end of the text, and its content is the one of the
literal. -/
theorem Literal.content_of_ofToken? {token : Token} {value : Literal}
    (h : ofToken? token = some value) :
    token.kind ≠ .endOfText ∧ (token.Genuine → token.content = value.content) := by
  unfold ofToken? at h
  split at h
  all_goals
    rename_i hkind
    cases h
  · exact ⟨by simp [hkind], fun _ => Prod.ext hkind rfl⟩
  · exact ⟨by simp [hkind], fun _ => Prod.ext hkind rfl⟩
  · exact ⟨by simp [hkind], fun _ => Prod.ext hkind rfl⟩
  · exact ⟨by simp [hkind], fun hgenuine => hgenuine.content_of_keyword hkind⟩
  · exact ⟨by simp [hkind], fun hgenuine => hgenuine.content_of_keyword hkind⟩
  · exact ⟨by simp [hkind], fun hgenuine => hgenuine.content_of_keyword hkind⟩

namespace Parse

/-! ## Expressions that were read -/

/-- From one state to another an expression was read: it reads as the tokens taken. -/
def Reached (start : ParseState) (e : Expr) (s : ParseState) : Prop :=
  ∃ tokens, start.Took tokens s ∧ e.Reads tokens

/-- A parse that reads expressions. -/
def Reader (p : Parse Expr) : Prop :=
  ∀ s, Quiet p s (Reached s)

/-- A node from the first token taken to the end of the last covers the tokens taken. -/
theorem covers_of_took {s s' : ParseState} {tokens : List Token} {first : Token} {span : Span}
    (h : s.Took tokens s') (hfirst : tokens.head? = some first)
    (hspan : span = ⟨first.span.start, s'.previousStop⟩) : span.Covers tokens := by
  obtain ⟨rest, rfl⟩ := List.head?_eq_some_iff.mp hfirst
  refine ⟨first, _, rfl, List.getLast?_cons, ?_⟩
  rw [hspan, h.previousStop, List.getLast?_cons]
  rfl

/-- A node that starts with an expression covers it and what was taken after it. -/
theorem covers_of_reads {s s' : ParseState} {e : Expr} {tokens more : List Token} {span : Span}
    (h : e.Reads tokens) (htook : s.Took (tokens ++ more) s')
    (hspan : span = ⟨e.span.start, s'.previousStop⟩) : span.Covers (tokens ++ more) := by
  obtain ⟨first, last, hfirst, -, hcovers⟩ := h.covers
  rw [hcovers] at hspan
  exact covers_of_took htook (by rw [List.head?_append, hfirst]; rfl) hspan

/-- A token that the kind determines was taken. -/
theorem isMark_of_advance {s s' : ParseState} {kind : TokenKind} (hkind : s.current.kind = kind)
    (hfixed : kind.text?.isSome = true)
    (hadvance : s.current.kind ≠ .endOfText → s.Took [s.current] s' ∧ s.current.Genuine) :
    s.Took [s.current] s' ∧ s.current.IsMark kind := by
  obtain ⟨htook, hgenuine⟩ := hadvance (hkind ▸ TokenKind.ne_endOfText_of_text hfixed)
  exact ⟨htook, hgenuine.isMark hkind hfixed⟩

/-- A missing expression is always reported. -/
theorem missing_quiet (s : ParseState) : Quiet missing s fun _ _ => False := by
  refine (report_quiet _ s).bind fun _ s₁ => (current_quiet s₁).bind fun token s₂ =>
    (newNode_quiet _ s₂).bind fun node s₃ => .pure ?_
  exact fun _ _ => False.elim

/-- A quiet reading of a primary expression reads the tokens it takes. -/
theorem primary_reader {assignment : Parse Expr} (h : Reader assignment) :
    Reader (primary assignment) := by
  intro s
  refine (current_quiet s).bind fun token s₁ => ?_
  split
  · refine (identifier_quiet s₁).bind fun name s₂ => .pure ?_
    rintro ⟨token, htook, hname⟩ ⟨-, rfl⟩
    exact ⟨[token], htook, .identifier hname⟩
  · split
    · rename_i value hvalue
      refine (advance_quiet s₁).bind fun _ s₂ => (newNode_quiet _ s₂).bind fun node s₃ => .pure ?_
      rintro ⟨hspan, rfl⟩ hadvance ⟨rfl, rfl⟩
      obtain ⟨hkind, hcontent⟩ := Literal.content_of_ofToken? hvalue
      obtain ⟨htook, hgenuine⟩ := hadvance hkind
      exact ⟨[s₁.current], htook.numbered, .literal (hcontent hgenuine) hspan⟩
    · refine (accept_quiet .openParen s₁).bind fun taken s₂ => ?_
      cases taken
      · exact (missing_quiet s₂).mono fun _ _ => False.elim
      · refine (h s₂).bind fun inner s₃ => (expectPunctuator_quiet .closeParen s₃).bind fun _ s₄ =>
          (closeNode_quiet _ s₄).bind fun node s₅ => .pure ?_
        rintro ⟨hspan, rfl⟩ ⟨closing, hclosing, hclosingMark⟩ ⟨tokens, htokens, hinner⟩ haccept
          ⟨rfl, rfl⟩
        obtain ⟨opening, hopening, hopeningMark⟩ := haccept.1 rfl
        have htook := hopening.trans (htokens.trans hclosing)
        rw [htook.current] at hspan
        refine ⟨_, htook.numbered, .parenthesized hopeningMark hinner hclosingMark ?_⟩
        exact covers_of_took htook rfl hspan

/-- What follows an expression extends it. -/
def Extends (p : Expr → Parse Expr) : Prop :=
  ∀ e s, Quiet (p e) s fun e' s' => ∀ start, Reached start e s → Reached start e' s'

/-- A quiet reading of further arguments takes the tokens they read as. -/
theorem argumentsTail_quiet {assignment : Parse Expr} (h : Reader assignment) (limit : Nat)
    (s : ParseState) :
    Quiet (argumentsTail assignment limit) s fun arguments s' =>
      ∃ tokens, s.Took tokens s' ∧ Expr.ReadsArguments Expr.Reads arguments tokens := by
  induction limit generalizing s with
  | zero => exact .pure ⟨[], .refl s, .none⟩
  | succ limit ih =>
    refine (isAt_quiet _ s).bind fun closes s₁ => (isAt_quiet _ s₁).bind fun ends s₂ => ?_
    split
    · refine .pure ?_
      rintro rfl rfl
      exact ⟨[], .refl _, .none⟩
    · refine (h s₂).bind fun argument s₃ => (accept_quiet .comma s₃).bind fun taken s₄ => ?_
      cases taken
      · refine .pure ?_
        rintro haccept ⟨tokens, htokens, hargument⟩ rfl rfl
        obtain rfl := haccept.2 rfl
        exact ⟨tokens, htokens, .last hargument⟩
      · refine (ih s₄).bind fun others s₅ => .pure ?_
        rintro ⟨rest, hrest, hothers⟩ haccept ⟨tokens, htokens, hargument⟩ rfl rfl
        obtain ⟨comma, hcomma, hcommaMark⟩ := haccept.1 rfl
        exact ⟨_, htokens.trans (hcomma.trans hrest), .more hargument hcommaMark hothers⟩

/-- A quiet reading of arguments takes their parentheses and the tokens they read as. -/
theorem arguments_quiet {assignment : Parse Expr} (h : Reader assignment) (s : ParseState) :
    Quiet (arguments assignment) s fun arguments s' => ∃ opening tokens closing,
      s.Took (opening :: (tokens ++ [closing])) s' ∧ opening.IsMark (.punctuator .openParen) ∧
      Expr.ReadsArguments Expr.Reads arguments tokens ∧
      closing.IsMark (.punctuator .closeParen) := by
  refine (expectPunctuator_quiet .openParen s).bind fun _ s₁ => (remaining_quiet s₁).bind
    fun limit s₂ => (argumentsTail_quiet h limit s₂).bind fun values s₃ =>
    (expectPunctuator_quiet .closeParen s₃).bind fun _ s₄ => .pure ?_
  rintro ⟨closing, hclosing, hclosingMark⟩ ⟨tokens, htokens, hvalues⟩ rfl
    ⟨opening, hopening, hopeningMark⟩
  exact ⟨opening, tokens, closing, hopening.trans (htokens.trans hclosing), hopeningMark, hvalues,
    hclosingMark⟩

/-- What follows an expression without a report extends it by the tokens taken. -/
theorem accessTail_extends {assignment : Parse Expr} (h : Reader assignment) (limit : Nat) :
    Extends (accessTail assignment limit) := by
  induction limit with
  | zero => exact fun e s => .pure fun start hreached => hreached
  | succ limit ih =>
    intro e s
    -- A test that fails takes nothing, so each case starts again where `e` ended.
    refine (accept_quiet .dot s).bind fun atDot s₁ => ?_
    cases atDot
    · refine (accept_quiet .openBracket s₁).bind fun atBracket s₂ => ?_
      cases atBracket
      · refine (isAt_quiet _ s₂).bind fun atParen s₃ => ?_
        split
        · refine (arguments_quiet h s₃).bind fun values s₄ => (closeNode_quiet _ s₄).bind
            fun node s₅ => (ih _ s₅).mono fun e' s' hrest => ?_
          rintro ⟨hspan, rfl⟩ ⟨opening, within, closing, hwithin, hopening, hvalues, hclosing⟩ rfl
            hbracket hdot start ⟨tokens, htokens, hreads⟩
          obtain rfl := hbracket.2 rfl
          obtain rfl := hdot.2 rfl
          have htook := htokens.trans hwithin
          refine hrest start ⟨_, htook.numbered, .call hreads hopening hvalues hclosing ?_⟩
          exact covers_of_reads hreads htook hspan
        · refine .pure ?_
          rintro rfl hbracket hdot start hreached
          obtain rfl := hbracket.2 rfl
          obtain rfl := hdot.2 rfl
          exact hreached
      · refine (h s₂).bind fun key s₃ => (expectPunctuator_quiet .closeBracket s₃).bind fun _ s₄ =>
          (closeNode_quiet _ s₄).bind fun node s₅ => (ih _ s₅).mono fun e' s' hrest => ?_
        rintro ⟨hspan, rfl⟩ ⟨closing, hclosing, hclosingMark⟩ ⟨within, hwithin, hkey⟩ hbracket hdot
          start ⟨tokens, htokens, hreads⟩
        obtain ⟨opening, hopening, hopeningMark⟩ := hbracket.1 rfl
        obtain rfl := hdot.2 rfl
        have htook := htokens.trans (hopening.trans (hwithin.trans hclosing))
        refine hrest start ⟨_, htook.numbered, .element hreads hopeningMark hkey hclosingMark ?_⟩
        exact covers_of_reads hreads htook hspan
    · refine (memberName_quiet s₁).bind fun name s₂ => (closeNode_quiet _ s₂).bind fun node s₃ =>
        (ih _ s₃).mono fun e' s' hrest => ?_
      rintro ⟨hspan, rfl⟩ ⟨token, htoken, hname⟩ hdot start ⟨tokens, htokens, hreads⟩
      obtain ⟨dot, hdot, hdotMark⟩ := hdot.1 rfl
      have htook := htokens.trans (hdot.trans htoken)
      refine hrest start ⟨_, htook.numbered, .member hreads hdotMark hname ?_⟩
      exact covers_of_reads hreads htook hspan

/-- A quiet reading of a primary expression with what follows it reads the tokens it takes. -/
theorem access_reader {assignment : Parse Expr} (h : Reader assignment) :
    Reader (access assignment) := by
  intro s
  refine (primary_reader h s).bind fun e s₁ => (remaining_quiet s₁).bind fun limit s₂ =>
    (accessTail_extends h limit e s₂).mono fun e' s' hextends => ?_
  rintro rfl hreached
  exact hextends s hreached

/-- A quiet reading of operators in front of an operand reads the tokens it takes. -/
theorem unary_reader {assignment : Parse Expr} {operand? : Option (Parse Expr)}
    (h : Reader assignment) (hoperand : ∀ operand, operand? = some operand → Reader operand) :
    Reader (unary assignment operand?) := by
  intro s
  refine (current_quiet s).bind fun token s₁ => ?_
  split
  · refine (access_reader h s₁).mono fun e s' hreached => ?_
    rintro ⟨-, rfl⟩
    exact hreached
  · exact (missing_quiet s₁).mono fun _ _ => False.elim
  · rename_i op operand hop
    refine (advance_quiet s₁).bind fun _ s₂ => (hoperand operand rfl s₂).bind fun e s₃ =>
      (closeNode_quiet _ s₃).bind fun node s₄ => .pure ?_
    rintro ⟨hspan, rfl⟩ ⟨tokens, htokens, hreads⟩ hadvance ⟨rfl, rfl⟩
    obtain ⟨htoken, hmark⟩ :=
      isMark_of_advance (UnaryOp.token_of_ofToken? hop) op.token_text hadvance
    have htook := htoken.trans htokens
    refine ⟨_, htook.numbered, .unary hmark hreads ?_⟩
    exact covers_of_took htook rfl hspan

/-- Operators and right operands without a report extend the left operand by the tokens taken. -/
theorem binaryTail_extends {operand : Parse Expr} (h : Reader operand) (limit : Nat)
    (bound : Precedence) : Extends (binaryTail operand limit bound) := by
  induction limit generalizing bound with
  | zero => exact fun e s => .pure fun start hreached => hreached
  | succ limit ih =>
    intro left s
    refine (current_quiet s).bind fun token s₁ => ?_
    split
    · refine .pure ?_
      rintro ⟨-, rfl⟩ start hreached
      exact hreached
    · rename_i op hop
      split
      · refine (advance_quiet s₁).bind fun _ s₂ => (h s₂).bind fun head s₃ =>
          (ih _ head s₃).bind fun right s₄ => (closeNode_quiet _ s₄).bind fun node s₅ =>
          (ih bound _ s₅).mono fun e s' hrest => ?_
        rintro ⟨hspan, rfl⟩ hextends hhead hadvance ⟨rfl, rfl⟩ start ⟨tokens, htokens, hleft⟩
        obtain ⟨htoken, hmark⟩ :=
          isMark_of_advance (BinaryOp.token_of_ofToken? hop) op.token_text hadvance
        -- The right operand is anchored after the operator, the result at the left operand.
        obtain ⟨others, hothers, hright⟩ := hextends s₂ hhead
        have htook := htokens.trans (htoken.trans hothers)
        refine hrest start ⟨_, htook.numbered, .binary hleft hmark rfl hright ?_⟩
        exact covers_of_reads hleft htook hspan
      · refine .pure ?_
        rintro ⟨-, rfl⟩ start hreached
        exact hreached

/-- A quiet reading of operands joined by operators reads the tokens it takes. -/
theorem binary_reader {operand : Parse Expr} (h : Reader operand) : Reader (binary operand) := by
  intro s
  refine (h s).bind fun left s₁ => (remaining_quiet s₁).bind fun limit s₂ =>
    (binaryTail_extends h limit .floor left s₂).mono fun e s' hextends => ?_
  rintro rfl hreached
  exact hextends s hreached

/-- A quiet reading of a choice reads the tokens it takes. -/
theorem conditional_reader {assignment operand : Parse Expr} (h : Reader assignment)
    (hoperand : Reader operand) : Reader (conditional assignment operand) := by
  intro s
  refine (binary_reader hoperand s).bind fun condition s₁ =>
    (accept_quiet .question s₁).bind fun taken s₂ => ?_
  cases taken
  · refine .pure ?_
    rintro haccept hreached
    obtain rfl := haccept.2 rfl
    exact hreached
  · refine (h s₂).bind fun whenTrue s₃ => (expectPunctuator_quiet .colon s₃).bind fun _ s₄ =>
      (h s₄).bind fun whenFalse s₅ => (closeNode_quiet _ s₅).bind fun node s₆ => .pure ?_
    rintro ⟨hspan, rfl⟩ ⟨negative, hnegative, hfalse⟩ ⟨colon, hcolon, hcolonMark⟩
      ⟨positive, hpositive, htrue⟩ haccept ⟨tokens, htokens, hcondition⟩
    obtain ⟨question, hquestion, hquestionMark⟩ := haccept.1 rfl
    have htook :=
      htokens.trans (hquestion.trans (hpositive.trans (hcolon.trans hnegative)))
    refine ⟨_, htook.numbered,
      .conditional hcondition hquestionMark htrue hcolonMark hfalse ?_⟩
    exact covers_of_reads hcondition htook hspan

/-- A quiet reading of an assignment reads the tokens it takes. -/
theorem assignment_reader {nested operand : Parse Expr} (h : Reader nested)
    (hoperand : Reader operand) : Reader (assignment nested operand) := by
  intro s
  refine (conditional_reader h hoperand s).bind fun target s₁ =>
    (accept?_quiet .equals s₁).bind fun mark s₂ => ?_
  cases mark with
  | none =>
    refine .pure ?_
    rintro haccept hreached
    obtain rfl := haccept.2 rfl
    exact hreached
  | some mark =>
    refine (h s₂).bind fun value s₃ => (closeNode_quiet _ s₃).bind fun node s₄ => .pure ?_
    rintro ⟨hspan, rfl⟩ ⟨others, hothers, hvalue⟩ haccept ⟨tokens, htokens, htarget⟩
    obtain ⟨token, htoken, hequals, hmark⟩ := haccept.1 mark rfl
    have htook := htokens.trans (htoken.trans hothers)
    refine ⟨_, htook.numbered, .assign htarget hequals hmark.symm hvalue ?_⟩
    exact covers_of_reads htarget htook hspan

/-- A missing expression is a reader, since it is never quiet. -/
theorem missing_reader : Reader missing :=
  fun s => (missing_quiet s).mono fun _ _ => False.elim

/-- At every depth, expressions and operands are read. -/
theorem nested_reader (depth : Nat) :
    Reader (nested depth).assignment ∧ Reader (nested depth).unary := by
  induction depth with
  | zero => exact ⟨missing_reader, unary_reader missing_reader nofun⟩
  | succ depth ih =>
    obtain ⟨hassignment, hunary⟩ := ih
    have houter := assignment_reader hassignment hunary
    refine ⟨houter, unary_reader houter ?_⟩
    rintro operand ⟨⟩
    exact hunary

/-! ## Whole texts -/

/-- A quiet reading of a whole expression reads all tokens up to the end of the text. -/
theorem wholeExpression_quiet (s : ParseState) :
    Quiet wholeExpression s fun e s' => Reached s e s' ∧ s'.current.kind = .endOfText := by
  refine ((nested_reader depthLimit).1 s).bind fun e s₁ => (current_quiet s₁).bind fun token s₂ => ?_
  split
  · rename_i hend
    refine .pure ?_
    rintro ⟨rfl, rfl⟩ hreached
    exact ⟨hreached, hend⟩
  · refine (report_quiet _ s₂).bind fun _ s₃ => .pure ?_
    exact False.elim

/-- At the end of the text nothing else lies ahead. -/
theorem took_all {tokens taken : List Token} {final : Token} {s : ParseState}
    (htook : (initial (tokens ++ [final])).Took taken s) (hready : s.Ready)
    (hend : s.current.kind = .endOfText) : taken = tokens := by
  obtain ⟨front, last, hahead, -, hordinary, -⟩ := hready
  have hfront : front = [] := by
    cases front with
    | nil => rfl
    | cons token front =>
      have hcurrent := ParseState.current_of_ahead hahead
      exact absurd (hcurrent ▸ hend) (hordinary token List.mem_cons_self)
  have htokens := htook.ahead
  rw [initial_ahead (by simp), hahead, hfront, List.nil_append] at htokens
  exact (List.append_inj_left' htokens rfl).symm

/-- Every text is cut into genuine tokens and an end, so its parse starts ready. -/
theorem initial_ready (text : String) :
    ∃ tokens final, Token.ofText Alphabet.standard text.toList = tokens ++ [final] ∧
      final.kind = .endOfText ∧ Token.Segmented 0 tokens ∧
        (initial (tokens ++ [final])).Ready := by
  obtain ⟨tokens, final, htokens, hfinal, hsegmented⟩ :=
    Token.ofText_segmented Alphabet.standard text.toList
  exact ⟨tokens, final, htokens, hfinal, hsegmented, tokens, final, initial_ahead (by simp), hfinal,
    hsegmented.ordinary, hsegmented.genuine⟩

/-- Sorted issues are none only if there were none. -/
theorem issues_eq_nil_of_sorted {issues : List Issue} (h : Issue.sortByStart issues = []) :
    issues = [] := by
  have hlength := (List.mergeSort_perm issues fun a b => a.span.start ≤ b.span.start).length_eq
  rw [Issue.sortByStart] at h
  rw [h] at hlength
  exact List.length_eq_zero_iff.mp hlength.symm

/-- A parse throughout tokens that reports nothing ends in a state with what quiet runs
establish. -/
theorem throughout_quiet {α : Type} {p : Parse α} {tokens : List Token}
    {Q : α → ParseState → Prop} (hp : Quiet p (initial tokens) Q)
    (hready : (initial tokens).Ready) (h : (throughout p tokens).issues = []) :
    ∃ s, s.Ready ∧ Q (throughout p tokens).tree s := by
  obtain ⟨hready', -, hquiet⟩ := hp hready
  have hissues : (p.run (initial tokens)).2.issues = [] :=
    (List.append_eq_nil_iff.mp (issues_eq_nil_of_sorted h)).1
  refine ⟨_, hready', hquiet ?_⟩
  rw [hissues, initial_issues]

end Parse

namespace Expr

/-- When parsing a text reports nothing, the tree reads as exactly the tokens of the text up to its
end. Every node of it is complete, covers the stretch of tokens it reads as from the start of the
first to the end of the last, and has its parts inside it and one after the other. -/
theorem parse_covers_tokens {text : String} (h : (Expr.parse text).issues = []) :
    ∃ tokens final, Token.ofText Alphabet.standard text.toList = tokens ++ [final] ∧
      final.kind = .endOfText ∧ (∀ token ∈ tokens, token.kind ≠ .endOfText) ∧
      (Expr.parse text).tree.Reads tokens ∧
      (Expr.parse text).tree.Throughout fun node =>
        node.isComplete = true ∧ node.Framed ∧
        ∃ own, own <:+: tokens ∧ node.Reads own ∧ node.span.Covers own := by
  obtain ⟨tokens, final, htokens, hfinal, hsegmented, hready⟩ := Parse.initial_ready text
  rw [Expr.parse, htokens] at h ⊢
  obtain ⟨s, hs, ⟨taken, htook, hreads⟩, hend⟩ :=
    Parse.throughout_quiet (Parse.wholeExpression_quiet _) hready h
  obtain rfl := Parse.took_all htook hs hend
  refine ⟨taken, final, rfl, hfinal, hsegmented.ordinary, hreads, ?_⟩
  refine hreads.throughout fun node own hown hpart => ?_
  have horder : Token.InOrder taken := ⟨hsegmented.nonempty, hsegmented.ordered⟩
  exact ⟨hown.isComplete, hown.framed (horder.sublist hpart.sublist), own, hpart, hown, hown.covers⟩

/-- A text with an assignment, a choice, a call, a member and an element reads as its tokens in
order, and nothing is reported. -/
theorem parse_covers_tokens_choice :
    (Expr.parse "f(a, 1,).in[b] ? -x : y = 2").issues = [] ∧
      (Expr.parse "f(a, 1,).in[b] ? -x : y = 2").tree.Reads
        (Token.ofText Alphabet.standard "f(a, 1,).in[b] ? -x : y = 2".toList).dropLast := by
  have h : (Expr.parse "f(a, 1,).in[b] ? -x : y = 2").issues = [] := by decide +kernel
  obtain ⟨tokens, final, htokens, -, -, hreads, -⟩ := parse_covers_tokens h
  refine ⟨h, ?_⟩
  rw [htokens, List.dropLast_concat]
  exact hreads

end Expr

end ExpressionTyping
