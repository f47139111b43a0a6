import Mathlib.Data.List.Forall2
import ExpressionTyping.Proofs.Grammar.Coverage

/-!
# Statements cover the tokens of a file

What a declaration file says is lost if a token of it ends up in no statement. Here every reader of
types and declarations is shown to take a stretch of tokens whenever it reports nothing (`Moves`),
and from this each statement to cover the stretch it takes (`Statement.Accounts`). A statement takes
a token or more, so the loop over statements comes to an end of its own: it stops at the end of the
text or at a closing brace.

That is all there is to say of a file without reports. At the top of a file a closing brace belongs
to no block, and the parse stops there as quietly as inside one, so that what follows is not read. A
second gap is smaller: when `declare` stands before a word that turns out to be a plain name, the
statement starts with the name. `parse_leaves_out_tokens` shows a text for each.
-/

set_option autoImplicit false

namespace ExpressionTyping

/-- A statement goes from the start of the first of its tokens to the end of the last, or leaves out
a `declare` before a word that is a plain name. -/
inductive Statement.Accounts : Statement → List Token → Prop where
  | whole {statement : Statement} {tokens : List Token} (h : statement.node.span.Covers tokens) :
      Accounts statement tokens
  | afterDeclare {node : Node} {value : Expr} {word name : Token} {rest : List Token}
      (hword : word.kind = .keyword .declareWord)
      (hname : name.kind ∈ [.keyword .letWord, .keyword .interfaceWord, .keyword .typeWord])
      (h : node.span.Covers (name :: rest)) :
      Accounts (.expression node value) (word :: name :: rest)

/-- A statement accounts for at least one token. -/
theorem Statement.Accounts.ne_nil {statement : Statement} {tokens : List Token}
    (h : statement.Accounts tokens) : tokens ≠ [] := by
  cases h with
  | whole h =>
    obtain ⟨first, last, hfirst, -, -⟩ := h
    rintro rfl
    cases hfirst
  | afterDeclare => simp

/-- The tokens of a statement lie inside it, but for a `declare`. -/
theorem Statement.Accounts.inside {statement : Statement} {tokens : List Token}
    (h : statement.Accounts tokens) (horder : Token.InOrder tokens) {token : Token}
    (hmem : token ∈ tokens) :
    (statement.node.span.start ≤ token.span.start ∧ token.span.stop ≤ statement.node.span.stop) ∨
      token.kind = .keyword .declareWord := by
  have hsingle : token.span.Covers [token] := ⟨token, token, rfl, rfl, rfl⟩
  cases h with
  | whole hcovers =>
    have hsub : [token].Sublist tokens := List.singleton_sublist.mpr hmem
    exact .inl (hsingle.inside hcovers horder hsub)
  | @afterDeclare node value word name rest hword _ hcovers =>
    rcases List.mem_cons.mp hmem with rfl | hmem
    · exact .inr hword
    · have hsub : [token].Sublist (name :: rest) := List.singleton_sublist.mpr hmem
      have horder' := horder.sublist (List.sublist_cons_self word (name :: rest))
      exact .inl (hsingle.inside hcovers horder' hsub)

namespace Parse

variable {α β : Type}

/-! ## Readers that take tokens -/

/-- A parse that takes a stretch of tokens, possibly an empty one, when it reports nothing. -/
def Moves (p : Parse α) : Prop :=
  ∀ s, Quiet p s fun _ s' => ∃ tokens, s.Took tokens s'

namespace Moves

/-- A parse that does nothing takes no tokens. -/
theorem pure (a : α) : Moves (pure a) :=
  fun s => .pure ⟨[], .refl s⟩

/-- Parses in a row take stretches of tokens that follow on each other. -/
theorem bind {p : Parse α} {f : α → Parse β} (hp : Moves p) (hf : ∀ a, Moves (f a)) :
    Moves (p >>= f) := by
  intro s
  apply (hp s).bind
  intro a s'
  apply (hf a s').mono
  rintro b s'' ⟨second, hsecond⟩ ⟨first, hfirst⟩
  exact ⟨first ++ second, hfirst.trans hsecond⟩

/-- A choice takes a stretch of tokens when both branches do. -/
theorem ite {c : Prop} [Decidable c] {p q : Parse α} (hp : Moves p) (hq : Moves q) :
    Moves (if c then p else q) := by
  split
  · exact hp
  · exact hq

end Moves

/-- A parse that reports something takes tokens for want of a quiet run. -/
theorem moves_of_loud {p : Parse α} (h : ∀ s, Quiet p s fun _ _ => False) : Moves p :=
  fun s => (h s).mono fun _ _ => False.elim

/-- A parse that leaves the state takes no tokens. -/
theorem moves_of_same {p : Parse α} (h : ∀ s, Quiet p s fun _ s' => s' = s) : Moves p := by
  intro s
  apply (h s).mono
  rintro a s' rfl
  exact ⟨[], .refl _⟩

/-- Looking at the current token takes no tokens. -/
theorem current_moves : Moves current :=
  moves_of_same fun s => (current_quiet s).mono fun _ _ h => h.2

/-- Counting the tokens ahead takes no tokens. -/
theorem remaining_moves : Moves remaining :=
  moves_of_same remaining_quiet

/-- Asking for a kind of token takes no tokens. -/
theorem isAt_moves (kind : TokenKind) : Moves (isAt kind) :=
  moves_of_same (isAt_quiet kind)

/-- Making a node takes no tokens. -/
theorem newNode_moves (span : Span) : Moves (newNode span) := by
  intro s
  apply (newNode_quiet span s).mono
  rintro node s' ⟨-, rfl⟩
  exact ⟨[], (ParseState.Took.refl s).numbered⟩

/-- Closing a node takes no tokens. -/
theorem closeNode_moves (start : Nat) : Moves (closeNode start) := by
  intro s
  apply (closeNode_quiet start s).mono
  rintro node s' ⟨-, rfl⟩
  exact ⟨[], (ParseState.Took.refl s).numbered⟩

/-- A punctuator that may be there is one token or none. -/
theorem accept?_moves (p : Punctuator) : Moves (accept? p) := by
  intro s
  apply (accept?_quiet p s).mono
  rintro mark s' ⟨hsome, hnone⟩
  cases mark with
  | some span =>
    obtain ⟨token, htook, -⟩ := hsome span rfl
    exact ⟨[token], htook⟩
  | none =>
    obtain rfl := hnone rfl
    exact ⟨[], .refl _⟩

/-- A punctuator that is told to have been there is one token or none. -/
theorem accept_moves (p : Punctuator) : Moves (accept p) :=
  (accept?_moves p).bind fun _ => .pure _

/-- An expected punctuator takes its token, or reports. -/
theorem expectPunctuator_moves (p : Punctuator) : Moves (expectPunctuator p) := by
  intro s
  apply (expectPunctuator_quiet p s).mono
  rintro _ s' ⟨token, htook, -⟩
  exact ⟨[token], htook⟩

/-- A name takes its token, or reports. -/
theorem identifier_moves : Moves identifier := by
  intro s
  apply (identifier_quiet s).mono
  rintro name s' ⟨token, htook, -⟩
  exact ⟨[token], htook⟩

/-- The name of a member takes its token, or reports. -/
theorem memberName_moves : Moves memberName := by
  intro s
  apply (memberName_quiet s).mono
  rintro name s' ⟨token, htook, -⟩
  exact ⟨[token], htook⟩

/-- An expression takes the tokens it reads as. -/
theorem expression_moves : Moves expression := by
  intro s
  apply ((nested_reader depthLimit).1 s).mono
  rintro e s' ⟨tokens, htook, -⟩
  exact ⟨tokens, htook⟩

/-- Tokens were taken, or else the text has ended. Where it has, taking the current token stands
still, and nothing can be said of what was taken before. -/
def ToEnd (s s' : ParseState) : Prop :=
  (∃ tokens, s.Took tokens s') ∨ s'.current.kind = .endOfText

/-- Nothing is left at the end of a text. -/
theorem upcoming_eq_nil {s : ParseState} (hready : s.Ready) (h : s.current.kind = .endOfText) :
    s.upcoming = [] := by
  obtain ⟨tokens, final, hahead, -, hordinary, -⟩ := hready
  cases tokens with
  | nil => exact (List.cons.inj hahead).2
  | cons token tokens =>
    have hcurrent := ParseState.current_of_ahead hahead
    exact absurd (hcurrent ▸ h) (hordinary token List.mem_cons_self)

/-- Taking a token takes it unless the text has ended. -/
theorem advance_toEnd (s : ParseState) : Quiet advance s fun _ s' => ToEnd s s' := by
  refine .of_run (advance_run s) .taken s.taken_issues fun hready => ?_
  by_cases h : s.current.kind = .endOfText
  · have hnil := upcoming_eq_nil hready h
    obtain ⟨current, upcoming, previousStop, nextId, issues⟩ := s
    cases hnil
    exact .inr h
  · exact .inl ⟨_, hready.took_taken h⟩

/-- Taking tokens, or reaching the end of the text, twice is doing so once. -/
theorem ToEnd.trans {s s' s'' : ParseState} (hready : s'.Ready) (h : ToEnd s s')
    (h' : ToEnd s' s'') : ToEnd s s'' := by
  rcases h' with ⟨second, hsecond⟩ | hend
  · rcases h with ⟨first, hfirst⟩ | hend
    · exact .inl ⟨_, hfirst.trans hsecond⟩
    · have hnil := upcoming_eq_nil hready hend
      have hahead : s'.current :: [] = second ++ s''.ahead := by
        rw [← hsecond.ahead, ParseState.ahead, hnil]
      have hlength := congrArg List.length hahead
      cases second with
      | nil => exact .inr ((List.cons.inj hahead).1 ▸ hend)
      | cons token second =>
        simp only [ParseState.ahead, List.length_append, List.length_cons,
          List.length_nil] at hlength
        omega
  · exact .inr hend

/-- A parse that takes tokens takes them or reaches the end of the text. -/
theorem Moves.toEnd {p : Parse α} (h : Moves p) (s : ParseState) :
    Quiet p s fun _ s' => ToEnd s s' :=
  (h s).mono fun _ _ => .inl

/-- Parses that each take tokens or reach the end of the text do so in a row. -/
theorem toEnd_bind {p : Parse α} {f : α → Parse β} {s : ParseState}
    (hp : Quiet p s fun _ s' => ToEnd s s')
    (hf : ∀ a s', Quiet (f a) s' fun _ s'' => ToEnd s' s'') :
    Quiet (p >>= f) s fun _ s'' => ToEnd s s'' := by
  have hp' : Quiet p s fun _ s' => s'.Ready ∧ ToEnd s s' := by
    intro hready
    obtain ⟨hready', hgrows, hpost⟩ := hp hready
    exact ⟨hready', hgrows, fun hquiet => ⟨hready', hpost hquiet⟩⟩
  apply hp'.bind
  intro a s'
  apply (hf a s').mono
  rintro b s'' hsecond ⟨hready', hfirst⟩
  exact hfirst.trans hready' hsecond

/-- A parse that looks around first goes on with what it saw. -/
theorem quiet_look_bind {p : Parse β} {b : β} {f : β → Parse α} {s : ParseState}
    {Q : α → ParseState → Prop} (hrun : p.run s = (b, s)) (h : Quiet (f b) s Q) :
    Quiet (p >>= f) s Q := by
  apply h.congr_run
  rw [run_bind, hrun]

/-- A parse that takes the current token goes on from the next one. -/
theorem quiet_taken_bind {f : Unit → Parse α} {s : ParseState} {Q : α → ParseState → Prop}
    (h : s.Ready → Quiet (f ()) s.taken Q) : Quiet (advance >>= f) s Q := by
  intro hready
  have hrest := h hready hready.taken
  rw [s.taken_issues] at hrest
  exact hrest

/-- A parse that takes the current token and goes on takes tokens, unless the text ends here. -/
theorem quiet_advance_bind {f : Unit → Parse α} {s : ParseState}
    (hkind : s.current.kind ≠ .endOfText) (h : Moves (f ())) :
    Quiet (advance >>= f) s fun _ s' => ∃ tokens, s.Took (s.current :: tokens) s' := by
  apply (advance_quiet s).bind
  intro _ s'
  apply (h s').mono
  rintro a s'' ⟨tokens, htokens⟩ hadvance
  exact ⟨tokens, (hadvance hkind).1.trans htokens⟩

/-! ## Types -/

/-- A missing type takes no tokens and reports. -/
theorem missingType_moves : Moves missingType := by
  apply moves_of_loud
  intro s
  refine (report_quiet _ s).bind fun _ s₁ => (current_quiet s₁).bind fun token s₂ =>
    (newNode_quiet _ s₂).bind fun node s₃ => .pure ?_
  exact fun _ _ => False.elim

section

variable {type : Parse TypeNode} (h : Moves type)
include h

/-- An annotation takes a stretch of tokens. -/
theorem optionalType_moves : Moves (optionalType type) :=
  (accept_moves .colon).bind fun _ => .ite (h.bind fun _ => .pure _) (.pure _)

/-- A parameter takes a stretch of tokens. -/
theorem parameter_moves : Moves (parameter type) :=
  current_moves.bind fun _ => (accept?_moves .ellipsis).bind fun _ => identifier_moves.bind fun _ =>
    (accept_moves .question).bind fun _ => (optionalType_moves h).bind fun _ =>
    (closeNode_moves _).bind fun _ => .pure _

/-- Further parameters take a stretch of tokens. -/
theorem parametersTail_moves (limit : Nat) (afterRest : Bool) :
    Moves (parametersTail type limit afterRest) := by
  induction limit generalizing afterRest with
  | zero => exact .pure _
  | succ limit ih =>
    have hfirst : Moves (parameter type >>= fun first => do
        if ← accept .comma then
          return first :: (← parametersTail type limit first.isRest)
        else return [first]) :=
      (parameter_moves h).bind fun first => (accept_moves .comma).bind fun _ =>
        .ite ((ih first.isRest).bind fun _ => .pure _) (.pure _)
    have hreport : Moves (report .restParameterNotLast) :=
      moves_of_loud (report_quiet _)
    refine (isAt_moves _).bind fun _ => (isAt_moves _).bind fun _ => .ite (.pure _) ?_
    exact .ite (hreport.bind fun _ => hfirst) hfirst

/-- Parameters take a stretch of tokens. -/
theorem parameters_moves : Moves (parameters type) :=
  (expectPunctuator_moves .openParen).bind fun _ => remaining_moves.bind fun limit =>
    (parametersTail_moves h limit false).bind fun _ =>
    (expectPunctuator_moves .closeParen).bind fun _ => .pure _

/-- A member takes a stretch of tokens. -/
theorem element_moves : Moves (element type) :=
  current_moves.bind fun _ => memberName_moves.bind fun _ => (accept_moves .question).bind fun _ =>
    (isAt_moves _).bind fun _ => .ite
      ((parameters_moves h).bind fun _ => (optionalType_moves h).bind fun _ =>
        (closeNode_moves _).bind fun _ => .pure _)
      ((optionalType_moves h).bind fun _ => (closeNode_moves _).bind fun _ => .pure _)

/-- Further members take tokens, or reach the end of the text, where the closing brace is
missing. -/
theorem elementsTail_toEnd (limit : Nat) (s : ParseState) :
    Quiet (elementsTail type limit) s fun _ s' => ToEnd s s' := by
  induction limit generalizing s with
  | zero => exact .pure (.inl ⟨[], .refl s⟩)
  | succ limit ih =>
    have hrest (start : Nat) (first : TypeElement) (s : ParseState) : Quiet (do
        if (← current).span.start = start then advance
        return first :: (← elementsTail type limit)) s fun _ s' => ToEnd s s' := by
      have htail (s : ParseState) : Quiet (do
          return first :: (← elementsTail type limit)) s fun _ s' => ToEnd s s' :=
        toEnd_bind (ih s) fun _ s' => (Moves.pure _).toEnd s'
      refine toEnd_bind (current_moves.toEnd s) fun token s₁ => ?_
      split
      · exact toEnd_bind (advance_toEnd s₁) fun _ s₂ => htail s₂
      · exact htail s₁
    refine toEnd_bind ((isAt_moves _).toEnd s) fun closes s₁ =>
      toEnd_bind ((isAt_moves _).toEnd s₁) fun ends s₂ => ?_
    split
    · exact (Moves.pure _).toEnd s₂
    · refine toEnd_bind (current_moves.toEnd s₂) fun token s₃ =>
        toEnd_bind ((element_moves h).toEnd s₃) fun first s₄ =>
        toEnd_bind ((accept_moves _).toEnd s₄) fun semicolon s₅ => ?_
      cases semicolon
      · exact toEnd_bind ((accept_moves _).toEnd s₅) fun _ s₆ => hrest _ first s₆
      · exact hrest _ first s₅

/-- Members take a stretch of tokens, up to the closing brace. -/
theorem elements_moves : Moves (elements type) := by
  intro s
  refine (expectPunctuator_moves _ s).bind fun _ s₁ => (remaining_moves s₁).bind fun limit s₂ =>
    (elementsTail_toEnd h limit s₂).bind fun members s₃ =>
    (expectPunctuator_quiet .closeBrace s₃).bind fun _ s₄ => .pure ?_
  rintro ⟨closing, hclosing, hmark⟩ htail ⟨none, hnone⟩ ⟨opening, hopening⟩
  rcases htail with ⟨tokens, htokens⟩ | hend
  · exact ⟨_, hopening.trans (hnone.trans (htokens.trans hclosing))⟩
  -- A closing brace stands here, so the text has not ended.
  · have hkind : closing.kind = .punctuator .closeBrace := congrArg Prod.fst hmark
    rw [hclosing.current, hkind] at hend
    cases hend

omit h in
/-- Looking ahead for a function type looks through the tokens ahead and leaves the state. -/
theorem startsFunctionType_run (s : ParseState) :
    startsFunctionType.run s = (arrowFollows 0 s.ahead, s) := rfl

/-- A primary type takes a stretch of tokens. -/
theorem primaryType_moves : Moves (primaryType type) := by
  intro s
  apply quiet_look_bind (current_run s)
  have hadvance {f : Unit → Parse TypeNode} (hkind : s.current.kind ≠ .endOfText)
      (hf : Moves (f ())) : Quiet (advance >>= f) s fun _ s' => ∃ tokens, s.Took tokens s' :=
    (quiet_advance_bind hkind hf).mono fun _ _ ⟨tokens, htokens⟩ => ⟨_, htokens⟩
  split
  · rename_i word hword
    apply hadvance
    · intro hend
      rw [hend] at hword
      cases hword
    · exact (newNode_moves _).bind fun _ => .pure _
  · rename_i value _ hvalue
    apply hadvance (Literal.content_of_ofToken? hvalue).1
    exact (newNode_moves _).bind fun _ => (closeNode_moves _).bind fun _ => .pure _
  · split
    · exact ((elements_moves h).bind fun _ => (closeNode_moves _).bind fun _ => .pure _) s
    · split
      · rename_i hparen
        apply quiet_look_bind (startsFunctionType_run s)
        split
        · exact ((parameters_moves h).bind fun _ => (expectPunctuator_moves _).bind fun _ =>
            h.bind fun _ => (closeNode_moves _).bind fun _ => .pure _) s
        · apply hadvance
          · simp [hparen]
          · exact h.bind fun _ => (expectPunctuator_moves _).bind fun _ =>
              (closeNode_moves _).bind fun _ => .pure _
      · exact (Moves.ite (identifier_moves.bind fun _ => (closeNode_moves _).bind fun _ => .pure _)
          missingType_moves) s

omit h in
/-- Brackets after a type take a stretch of tokens. -/
theorem arrayTail_moves (start limit : Nat) (element : TypeNode) :
    Moves (arrayTail start limit element) := by
  induction limit generalizing element with
  | zero => exact .pure _
  | succ limit ih =>
    intro s
    apply quiet_look_bind (current_run s)
    split
    · rename_i hbracket
      have hkind : s.current.kind = .punctuator .openBracket := by
        simp only [Bool.and_eq_true, decide_eq_true_eq] at hbracket
        exact hbracket.1
      have hround : Moves (do
          expectPunctuator .closeBracket
          arrayTail start limit (.array (← closeNode start) element)) :=
        (expectPunctuator_moves _).bind fun _ => (closeNode_moves _).bind fun _ => ih _
      apply (quiet_advance_bind (by simp [hkind]) hround).mono
      rintro _ s' ⟨tokens, htokens⟩
      exact ⟨_, htokens⟩
    · exact Moves.pure _ s

/-- An array type takes a stretch of tokens. -/
theorem arrayType_moves : Moves (arrayType type) :=
  current_moves.bind fun _ => (primaryType_moves h).bind fun _ => remaining_moves.bind fun _ =>
    arrayTail_moves _ _ _

/-- Further members of a union take a stretch of tokens. -/
theorem unionTail_moves (limit : Nat) : Moves (unionTail type limit) := by
  induction limit with
  | zero => exact .pure _
  | succ limit ih =>
    exact (accept_moves .bar).bind fun _ =>
      .ite ((arrayType_moves h).bind fun _ => ih.bind fun _ => .pure _) (.pure _)

/-- A union takes a stretch of tokens. -/
theorem unionType_moves : Moves (unionType type) :=
  current_moves.bind fun _ => (accept_moves .bar).bind fun _ => (arrayType_moves h).bind fun _ =>
    remaining_moves.bind fun limit => (unionTail_moves h limit).bind fun _ =>
    .ite (.pure _) ((closeNode_moves _).bind fun _ => .pure _)

end

/-- A nested type takes a stretch of tokens. -/
theorem nestedType_moves (depth : Nat) : Moves (nestedType depth) := by
  induction depth with
  | zero => exact missingType_moves
  | succ depth ih => exact unionType_moves ih

/-- A type takes a stretch of tokens. -/
theorem typeNode_moves : Moves typeNode :=
  nestedType_moves depthLimit

/-! ## Statements -/

/-- The end of a statement takes its semicolon, or no tokens. -/
theorem endStatement_moves : Moves endStatement := by
  intro s
  apply quiet_look_bind (current_run s)
  split
  · rename_i hkind
    apply (advance_quiet s).mono
    intro _ s' hadvance
    exact ⟨_, (hadvance (by simp [hkind])).1⟩
  · exact (Moves.ite (.pure _) (moves_of_loud (report_quiet _))) s

/-- A variable declaration takes a stretch of tokens. -/
theorem variableDeclaration_moves : Moves variableDeclaration :=
  current_moves.bind fun _ => identifier_moves.bind fun _ =>
    (optionalType_moves typeNode_moves).bind fun _ => (accept_moves .equals).bind fun _ => .ite
      (expression_moves.bind fun _ => (Moves.pure _).bind fun _ => (closeNode_moves _).bind fun _ =>
        .pure _)
      ((Moves.pure _).bind fun _ => (closeNode_moves _).bind fun _ => .pure _)

/-- Further variable declarations take a stretch of tokens. -/
theorem variablesTail_moves (limit : Nat) : Moves (variablesTail limit) := by
  induction limit with
  | zero => exact .pure _
  | succ limit ih =>
    exact variableDeclaration_moves.bind fun _ => (accept_moves .comma).bind fun _ =>
      .ite (ih.bind fun _ => .pure _) (.pure _)

/-- A parse that takes tokens and ends with a statement from an offset to the last token taken. -/
def Closing (start : Nat) (p : Parse Statement) : Prop :=
  ∀ s, Quiet p s fun statement s' =>
    (∃ tokens, s.Took tokens s') ∧ statement.node.span = ⟨start, s'.previousStop⟩

/-- What is read first belongs to the statement that ends with the last token taken. -/
theorem Moves.closing {start : Nat} {p : Parse α} {f : α → Parse Statement} (hp : Moves p)
    (hf : ∀ a, Closing start (f a)) : Closing start (p >>= f) := by
  intro s
  apply (hp s).bind
  intro a s'
  apply (hf a s').mono
  rintro statement s'' ⟨⟨second, hsecond⟩, hspan⟩ ⟨first, hfirst⟩
  exact ⟨⟨_, hfirst.trans hsecond⟩, hspan⟩

/-- A statement whose node is closed last goes from its start to the last token taken. -/
theorem closing_node {start : Nat} {f : Node → Statement} (hnode : ∀ node, (f node).node = node) :
    Closing start (closeNode start >>= fun node => pure (f node)) := by
  intro s
  refine (closeNode_quiet start s).bind fun node s₁ => .pure ?_
  rintro ⟨hspan, rfl⟩
  rw [hnode, hspan]
  exact ⟨⟨[], (ParseState.Took.refl s).numbered⟩, rfl⟩

/-- What is said of a declaration that was read from the current token on, and whose statement
starts at an offset: the statement goes from there to the last token taken. A word that is a plain
name after all makes an expression, which starts at the word. -/
def Declares (start : Nat) (s : ParseState) (statement : Statement) (s' : ParseState) : Prop :=
  ∃ tokens, s.Took (s.current :: tokens) s' ∧
    (statement.node.span = ⟨start, s'.previousStop⟩ ∨
      (∃ node value, statement = .expression node value) ∧
      statement.node.span.Covers (s.current :: tokens) ∧
      (startsDeclaration s.current.kind = true →
        s.current.kind ∈ [.keyword .letWord, .keyword .interfaceWord, .keyword .typeWord]))

/-- A statement that starts with a word takes the word and what follows it. -/
theorem Closing.declares {start : Nat} {p : Unit → Parse Statement} {s : ParseState}
    (hkind : s.current.kind ≠ .endOfText) (hp : Closing start (p ())) :
    Quiet (advance >>= p) s (Declares start s) := by
  apply (advance_quiet s).bind
  intro _ s'
  apply (hp s').mono
  rintro statement s'' ⟨⟨tokens, htokens⟩, hspan⟩ hadvance
  exact ⟨tokens, (hadvance hkind).1.trans htokens, .inl hspan⟩

/-- A variable statement goes from its start to the last token taken. -/
theorem variableStatement_declares (start : Nat) (ambient : Bool) (form : VariableForm)
    {s : ParseState} (hkind : s.current.kind ≠ .endOfText) :
    Quiet (variableStatement start ambient form) s (Declares start s) := by
  apply quiet_look_bind (current_run s)
  apply Closing.declares hkind
  exact remaining_moves.closing fun limit => (variablesTail_moves limit).closing fun _ =>
    (closeNode_moves _).closing fun _ => endStatement_moves.closing fun _ =>
    closing_node fun _ => rfl

/-- A function declaration goes from its start to the last token taken. -/
theorem functionDeclaration_declares (start : Nat) (ambient : Bool) {s : ParseState}
    (hkind : s.current.kind ≠ .endOfText) :
    Quiet (functionDeclaration start ambient) s (Declares start s) := by
  apply Closing.declares hkind
  exact identifier_moves.closing fun _ => (parameters_moves typeNode_moves).closing fun _ =>
    (optionalType_moves typeNode_moves).closing fun _ => endStatement_moves.closing fun _ =>
    closing_node fun _ => rfl

/-- An interface declaration goes from its start to the last token taken. -/
theorem interfaceDeclaration_declares (start : Nat) {s : ParseState}
    (hkind : s.current.kind ≠ .endOfText) :
    Quiet (interfaceDeclaration start) s (Declares start s) := by
  apply Closing.declares hkind
  exact identifier_moves.closing fun _ => (elements_moves typeNode_moves).closing fun _ =>
    closing_node fun _ => rfl

/-- An alias declaration goes from its start to the last token taken. -/
theorem aliasDeclaration_declares (start : Nat) {s : ParseState}
    (hkind : s.current.kind ≠ .endOfText) :
    Quiet (aliasDeclaration start) s (Declares start s) := by
  apply Closing.declares hkind
  exact identifier_moves.closing fun _ => (expectPunctuator_moves _).closing fun _ =>
    typeNode_moves.closing fun _ => endStatement_moves.closing fun _ => closing_node fun _ => rfl

/-- An expression statement goes from its first to its last token, and starts at the word if the
word is a plain name after all. -/
theorem expressionStatement_declares (start : Nat) {s : ParseState}
    (hword : startsDeclaration s.current.kind = true →
      s.current.kind ∈ [.keyword .letWord, .keyword .interfaceWord, .keyword .typeWord]) :
    Quiet expressionStatement s (Declares start s) := by
  apply quiet_look_bind (current_run s)
  refine ((nested_reader depthLimit).1 s).bind fun value s₁ => (endStatement_moves s₁).bind
    fun _ s₂ => (closeNode_quiet _ s₂).bind fun node s₃ => .pure ?_
  rintro ⟨hspan, rfl⟩ ⟨more, hmore⟩ ⟨tokens, htokens, hreads⟩
  obtain ⟨first, last, hfirst, -, -⟩ := hreads.covers
  obtain ⟨rest, rfl⟩ := List.head?_eq_some_iff.mp hfirst
  have htook := htokens.trans hmore
  have hcurrent : s.current = first := htook.current
  have hcovers : node.span.Covers (first :: rest ++ more) := by
    apply covers_of_took htook rfl
    rw [hspan, hcurrent]
  rw [← hcurrent] at hcovers htook
  exact ⟨rest ++ more, htook.numbered, .inr ⟨⟨node, value, rfl⟩, hcovers, hword⟩⟩

/-- Whatever a declaration turns out to be, it is read from the current token on. -/
theorem declaration_declares (start : Nat) (ambient : Bool) {s : ParseState}
    (hkind : s.current.kind ≠ .endOfText) :
    Quiet (declaration start ambient) s (Declares start s) := by
  apply quiet_look_bind (current_run s)
  -- A word that may be a name is told by the token after it.
  have hnext (f : TokenKind → Parse Statement)
      (hf : ∀ kind, Quiet (f kind) s (Declares start s)) :
      Quiet (nextKind >>= f) s (Declares start s) :=
    quiet_look_bind rfl (hf _)
  split
  · exact variableStatement_declares start ambient _ hkind
  · exact variableStatement_declares start ambient _ hkind
  · rename_i hlet
    apply hnext
    intro kind
    split
    · exact variableStatement_declares start ambient _ hkind
    · exact expressionStatement_declares start fun _ => by simp [hlet]
  · exact functionDeclaration_declares start ambient hkind
  · rename_i hinterface
    apply hnext
    intro kind
    split
    · exact interfaceDeclaration_declares start hkind
    · exact expressionStatement_declares start fun _ => by simp [hinterface]
  · rename_i htype
    apply hnext
    intro kind
    split
    · exact aliasDeclaration_declares start hkind
    · exact expressionStatement_declares start fun _ => by simp [htype]
  · apply expressionStatement_declares
    intro hstarts
    unfold startsDeclaration at hstarts
    split at hstarts <;> simp_all

/-- A declaration read from the current token on accounts for the tokens taken. -/
theorem Declares.accounts {s s' : ParseState} {statement : Statement}
    (h : Declares s.current.span.start s statement s') :
    ∃ tokens, s.Took tokens s' ∧ statement.Accounts tokens := by
  obtain ⟨tokens, htook, hspan | ⟨-, hcovers, -⟩⟩ := h
  · exact ⟨_, htook, .whole (covers_of_took htook rfl hspan)⟩
  · exact ⟨_, htook, .whole hcovers⟩

/-- A declaration after `declare` starts there, and an expression does not. -/
theorem Declares.accounts_after {s s₁ s' : ParseState} {statement : Statement}
    (htaken : s.Took [s.current] s₁) (hdeclare : s.current.kind = .keyword .declareWord)
    (hstarts : startsDeclaration s₁.current.kind = true)
    (h : Declares s.current.span.start s₁ statement s') :
    ∃ tokens, s.Took tokens s' ∧ statement.Accounts tokens := by
  obtain ⟨tokens, htook, hspan | ⟨⟨node, value, rfl⟩, hcovers, hword⟩⟩ := h
  · have hall := htaken.trans htook
    exact ⟨_, hall, .whole (covers_of_took hall rfl hspan)⟩
  · exact ⟨_, htaken.trans htook, .afterDeclare hdeclare (hword hstarts) hcovers⟩

/-- A block accounts for its braces and the tokens between them. -/
theorem block_quiet {body : Parse (List Statement)} (hbody : Moves body) (s : ParseState)
    (hkind : s.current.kind ≠ .endOfText) :
    Quiet (do
      advance
      let statements ← body
      expectPunctuator .closeBrace
      return Statement.block (← closeNode s.current.span.start) statements) s fun statement s' =>
        ∃ tokens, s.Took tokens s' ∧ statement.Accounts tokens := by
  have hclosing : Closing s.current.span.start (do
      let statements ← body
      expectPunctuator .closeBrace
      return Statement.block (← closeNode s.current.span.start) statements) :=
    hbody.closing fun _ => (expectPunctuator_moves _).closing fun _ => closing_node fun _ => rfl
  exact (Closing.declares hkind hclosing).mono fun _ _ => Declares.accounts

/-- Looking at the next token gives its kind, or the end of the text, and leaves the state. -/
theorem nextKind_run (s : ParseState) :
    nextKind.run s = ((s.upcoming.head?.map Token.kind).getD .endOfText, s) := rfl

/-- A word that starts a declaration becomes the current token when the one before it is taken. -/
theorem current_taken_kind {s : ParseState}
    (h : startsDeclaration ((s.upcoming.head?.map Token.kind).getD .endOfText) = true) :
    s.taken.current.kind = (s.upcoming.head?.map Token.kind).getD .endOfText := by
  obtain ⟨current, upcoming, previousStop, nextId, issues⟩ := s
  cases upcoming with
  | nil => cases h
  | cons token rest => rfl

/-- Away from the end of the text a statement accounts for the tokens it takes. -/
theorem statement_quiet {body : Parse (List Statement)} (hbody : Moves body) (s : ParseState)
    (hkind : s.current.kind ≠ .endOfText) :
    Quiet (statement body) s fun statement s' =>
      ∃ tokens, s.Took tokens s' ∧ statement.Accounts tokens := by
  apply quiet_look_bind (current_run s)
  have hplain : Quiet (declaration s.current.span.start false) s fun statement s' =>
      ∃ tokens, s.Took tokens s' ∧ statement.Accounts tokens :=
    (declaration_declares _ false hkind).mono fun _ _ => Declares.accounts
  split
  · refine (advance_quiet s).bind fun _ s₁ => (newNode_quiet _ s₁).bind fun node s₂ => .pure ?_
    rintro ⟨hspan, rfl⟩ hadvance
    have htook := (hadvance hkind).1
    exact ⟨_, htook.numbered, .whole ⟨_, _, rfl, rfl, hspan⟩⟩
  · exact block_quiet hbody s hkind
  · rename_i hdeclare
    apply quiet_look_bind (nextKind_run s)
    split
    · rename_i hstarts
      apply quiet_taken_bind
      intro hready
      have htaken := hready.took_taken hkind
      rw [← current_taken_kind hstarts] at hstarts
      have hkind' : s.taken.current.kind ≠ .endOfText := by
        intro hend
        rw [hend] at hstarts
        cases hstarts
      apply (declaration_declares _ true hkind').mono
      intro statement s' hdeclares
      exact hdeclares.accounts_after htaken hdeclare hstarts
    · exact hplain
  · exact hplain

/-- Statements account for the tokens they take, and with room for all tokens ahead they go on to
the end of the text or to a closing brace. -/
theorem statementsTail_quiet (limit : Nat) (s : ParseState) :
    Quiet (statementsTail limit) s fun statements s' =>
      ∃ groups, s.Took groups.flatten s' ∧ List.Forall₂ Statement.Accounts statements groups ∧
        (s.ahead.length ≤ limit →
          s'.current.kind = .endOfText ∨ s'.current.kind = .punctuator .closeBrace) := by
  induction limit generalizing s with
  | zero =>
    refine .pure ⟨[], .refl s, .nil, fun hroom => ?_⟩
    simp [ParseState.ahead] at hroom
  | succ limit ih =>
    have hbody : Moves (statementsTail limit) := by
      intro s
      apply (ih s).mono
      rintro statements s' ⟨groups, htook, -⟩
      exact ⟨_, htook⟩
    apply quiet_look_bind (isAt_run _ s)
    apply quiet_look_bind (isAt_run _ s)
    split
    · rename_i hstop
      refine .pure ⟨[], .refl s, .nil, fun _ => ?_⟩
      simpa using hstop
    · rename_i hgo
      have hkind : s.current.kind ≠ .endOfText := by
        intro hend
        simp [hend] at hgo
      apply quiet_look_bind (current_run s)
      refine (statement_quiet hbody s hkind).bind fun first s₁ => ?_
      apply quiet_look_bind (current_run s₁)
      split
      · refine (report_quiet _ s₁).bind fun _ s₂ => (advance_quiet s₂).bind fun _ s₃ =>
          (ih s₃).bind fun rest s₄ => .pure ?_
        exact fun _ _ => False.elim
      · refine (ih s₁).bind fun rest s₂ => .pure ?_
        rintro ⟨groups, hgroups, hrest, hstops⟩ ⟨tokens, htokens, hfirst⟩
        refine ⟨tokens :: groups, htokens.trans hgroups, .cons hfirst hrest, fun hroom => ?_⟩
        -- The first statement took a token, so there is room for the tokens that are left.
        apply hstops
        have hlength := congrArg List.length htokens.ahead
        have hpositive := List.length_pos_iff.mpr hfirst.ne_nil
        rw [List.length_append] at hlength
        omega

/-- A file that is read without a report takes all tokens up to the end of the text or a closing
brace, each for one of its statements. -/
theorem wholeFile_quiet (name : String) (text : List Char) (s : ParseState) :
    Quiet (wholeFile name text) s fun file s' =>
      ∃ groups, s.Took groups.flatten s' ∧
        List.Forall₂ Statement.Accounts file.statements groups ∧
        (s'.current.kind = .endOfText ∨ s'.current.kind = .punctuator .closeBrace) := by
  have hstatements : Quiet statements s fun content s' => ∃ groups, s.Took groups.flatten s' ∧
      List.Forall₂ Statement.Accounts content groups ∧
      (s'.current.kind = .endOfText ∨ s'.current.kind = .punctuator .closeBrace) := by
    apply quiet_look_bind (remaining_run s)
    apply (statementsTail_quiet _ s).mono
    rintro content s' ⟨groups, htook, hgroups, hstops⟩
    exact ⟨groups, htook, hgroups, hstops (Nat.le_refl _)⟩
  refine hstatements.bind fun content s₁ => (newNode_quiet _ s₁).bind fun node s₂ => .pure ?_
  rintro ⟨-, rfl⟩ ⟨groups, htook, hgroups, hstops⟩
  exact ⟨groups, htook.numbered, hgroups, hstops⟩

/-- What holds after every quiet run holds of the run over a text of which nothing is reported. -/
theorem run_of_throughout {p : Parse α} {tokens : List Token} {Q : α → ParseState → Prop}
    (hp : Quiet p (initial tokens) Q) (hready : (initial tokens).Ready)
    (h : (throughout p tokens).issues = []) :
    (p.run (initial tokens)).2.Ready ∧
      Q (throughout p tokens).tree (p.run (initial tokens)).2 := by
  obtain ⟨hready', -, hquiet⟩ := hp hready
  have hissues : (p.run (initial tokens)).2.issues = [] :=
    (List.append_eq_nil_iff.mp (issues_eq_nil_of_sorted h)).1
  refine ⟨hready', hquiet ?_⟩
  rw [hissues, initial_issues]

end Parse

namespace SourceFile

/-- The token on which the parse of a declaration file stops. -/
def stopToken (name text : String) : Token :=
  ((Parse.wholeFile name text.toList).run
    (Parse.initial (Token.ofText Alphabet.standard text.toList))).2.current

/-- A token lies in one of the statements of a file. -/
def Holds (file : SourceFile) (token : Token) : Prop :=
  ∃ statement ∈ file.statements,
    statement.node.span.start ≤ token.span.start ∧ token.span.stop ≤ statement.node.span.stop

/-- The parse of a file goes to the end of the text, and every token lies in a statement. -/
def ParsedWhole (name text : String) : Prop :=
  (stopToken name text).kind = .endOfText ∧
    ∀ token ∈ Token.ofText Alphabet.standard text.toList, token.kind ≠ .endOfText →
      (SourceFile.parse name text).tree.Holds token

instance (file : SourceFile) (token : Token) : Decidable (file.Holds token) :=
  inferInstanceAs (Decidable (∃ statement ∈ file.statements, _ ∧ _))

instance (name text : String) : Decidable (ParsedWhole name text) :=
  inferInstanceAs (Decidable (_ ∧ ∀ token ∈ _, _ → _))

/-- A token that statements account for lies in one of them, or is a `declare` that is left out. -/
theorem holds_of_accounts {statements : List Statement} {groups : List (List Token)}
    (h : List.Forall₂ Statement.Accounts statements groups)
    (horder : Token.InOrder groups.flatten) {token : Token} (hmem : token ∈ groups.flatten) :
    (∃ statement ∈ statements, statement.node.span.start ≤ token.span.start ∧
      token.span.stop ≤ statement.node.span.stop) ∨ token.kind = .keyword .declareWord := by
  induction h with
  | nil => cases hmem
  | @cons statement group statements groups hfirst _ ih =>
    rw [List.flatten_cons] at horder hmem
    rcases List.mem_append.mp hmem with hmem | hmem
    · have horder' := horder.sublist (List.sublist_append_left group _)
      rcases hfirst.inside horder' hmem with hinside | hdeclare
      · exact .inl ⟨statement, List.mem_cons_self, hinside⟩
      · exact .inr hdeclare
    · have horder' := horder.sublist (List.sublist_append_right group _)
      rcases ih horder' hmem with ⟨other, hother, hinside⟩ | hdeclare
      · exact .inl ⟨other, List.mem_cons_of_mem _ hother, hinside⟩
      · exact .inr hdeclare

/-- When parsing a declaration file reports nothing, the tokens up to where the parse stops fall
into groups, one for each statement and in order, and each statement covers its group; only a
`declare` that declares nothing may be left out. The parse stops at the end of the text, or else at
a closing brace that belongs to no block. -/
theorem parse_accounts_for_tokens {name text : String}
    (h : (SourceFile.parse name text).issues = []) :
    ∃ groups rest, Token.ofText Alphabet.standard text.toList =
        groups.flatten ++ stopToken name text :: rest ∧
      List.Forall₂ Statement.Accounts (SourceFile.parse name text).tree.statements groups ∧
      (∀ token ∈ groups.flatten,
        (SourceFile.parse name text).tree.Holds token ∨ token.kind = .keyword .declareWord) ∧
      ((stopToken name text).kind = .endOfText ∧ rest = [] ∨
        (stopToken name text).kind = .punctuator .closeBrace) := by
  obtain ⟨tokens, final, htokens, hfinal, hsegmented, hready⟩ := Parse.initial_ready text
  unfold stopToken
  rw [SourceFile.parse, htokens] at h ⊢
  obtain ⟨hready', groups, htook, hgroups, hstops⟩ :=
    Parse.run_of_throughout (Parse.wholeFile_quiet _ _ _) hready h
  have hall := htook.ahead
  rw [Parse.initial_ahead (by simp)] at hall
  have horder : Token.InOrder groups.flatten := by
    have hinOrder : Token.InOrder tokens := ⟨hsegmented.nonempty, hsegmented.ordered⟩
    have hdropped := congrArg List.dropLast hall
    rw [List.dropLast_concat, ParseState.ahead,
      List.dropLast_append_of_ne_nil (List.cons_ne_nil _ _)] at hdropped
    apply hinOrder.sublist
    rw [hdropped]
    exact List.sublist_append_left _ _
  refine ⟨groups, _, hall, hgroups, fun token hmem => holds_of_accounts hgroups horder hmem, ?_⟩
  rcases hstops with hend | hbrace
  · exact .inl ⟨hend, Parse.upcoming_eq_nil hready' hend⟩
  · exact .inr hbrace

/-- A variable with `declare` and a block account for all tokens of their text. -/
theorem parse_accounts_for_tokens_block :
    (SourceFile.parse "test.d.ts" "declare var a: number; \x7b a = 1 \x7d").issues = [] ∧
      ∃ groups rest,
        Token.ofText Alphabet.standard "declare var a: number; \x7b a = 1 \x7d".toList =
          groups.flatten ++ stopToken "test.d.ts" "declare var a: number; \x7b a = 1 \x7d" :: rest ∧
        List.Forall₂ Statement.Accounts
          (SourceFile.parse "test.d.ts" "declare var a: number; \x7b a = 1 \x7d").tree.statements
          groups ∧
        groups.length = 2 ∧ rest = [] := by
  have h : (SourceFile.parse "test.d.ts" "declare var a: number; \x7b a = 1 \x7d").issues = [] := by
    decide +kernel
  have hlength : (SourceFile.parse "test.d.ts"
      "declare var a: number; \x7b a = 1 \x7d").tree.statements.length = 2 := by
    decide +kernel
  have hend : (stopToken "test.d.ts" "declare var a: number; \x7b a = 1 \x7d").kind =
      .endOfText := by
    decide +kernel
  obtain ⟨groups, rest, htokens, hgroups, -, ⟨-, hrest⟩ | hbrace⟩ := parse_accounts_for_tokens h
  · exact ⟨h, groups, rest, htokens, hgroups, hgroups.length_eq ▸ hlength, hrest⟩
  · rw [hend] at hbrace
    cases hbrace

/-- Nothing is reported of a closing brace at the top of a file, though what follows it is not read,
nor of a `declare` that belongs to no statement. -/
theorem parse_leaves_out_tokens :
    ((SourceFile.parse "test.d.ts" "\x7d let a: number;").issues = [] ∧
      ¬ ParsedWhole "test.d.ts" "\x7d let a: number;") ∧
    (SourceFile.parse "test.d.ts" "declare let;").issues = [] ∧
      ¬ ParsedWhole "test.d.ts" "declare let;" := by
  decide +kernel

end SourceFile

end ExpressionTyping
