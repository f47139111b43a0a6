import ExpressionTyping.Proofs.Grammar.Descent
import ExpressionTyping.Proofs.Grammar.TypeRoundTrip

/-!
# Parsing terminates on every text

Productions do what the parses of the grammar do. This is shown parse by parse (`Plan.Does`). A loop
of the grammar has a limit, while its production calls itself without one; but every round takes a
token, so a limit above the number of unread tokens is never reached. A level of the grammar is given
the readers of the level below, and its production calls that level by its depth.

So a text is parsed as by productions that call each other without any bound, and these come to an
end because of what they take (`parse_terminates`).
-/

set_option autoImplicit false

namespace ExpressionTyping

open Parse (depthLimit)

namespace Plan

variable {α β : Type}

/-- In a state with the end of a text ahead, a plan ends as a parse runs. -/
def Does (plan : Plan α) (p : Parse α) (s : ParseState) : Prop :=
  s.Ready → plan.Ends s (p.run s).1 (p.run s).2

namespace Does

variable {plan plan' : Plan α} {p p' : Parse α} {s : ParseState}

/-- A plan that is done ends as a parse that does nothing. -/
theorem pure (result : α) : Does (Pure.pure result) (Pure.pure result) s :=
  fun _ => .done

/-- Plans that end as parses run, one after the other, end as the parses run in a row. -/
theorem bind {f : α → Plan β} {g : α → Parse β} (h : Does plan p s)
    (hf : ∀ answer s', s'.After s → Does (f answer) (g answer) s') :
    Does (plan >>= f) (p >>= g) s := by
  intro hready
  have hends := h hready
  exact hends.bind (hf _ _ hends.after (hready.after hends.after))

/-- A choice of plans ends as the choice of parses runs. -/
theorem ite {c : Prop} [Decidable c] (h : c → Does plan p s) (h' : ¬c → Does plan' p' s) :
    Does (if c then plan else plan') (if c then p else p') s := by
  split
  · exact h ‹_›
  · exact h' ‹_›

/-- A call ends as a parse runs when the plan of what is called does. -/
theorem call {callee : Production} {p : Parse callee.Result} (h : Does callee.plan p s) :
    Does (call callee) p s :=
  fun hready => ends_call.mpr (h hready)

/-- Only a parse asks how many tokens are left. -/
theorem remaining {g : Nat → Parse α} (h : Does plan (g (s.unread + 1)) s) :
    Does plan (Parse.remaining >>= g) s :=
  h

/-- After the current token is looked at, plan and parse go on with it. -/
theorem current {f : Token → Plan α} {g : Token → Parse α}
    (h : Does (f s.current) (g s.current) s) : Does (current >>= f) (Parse.current >>= g) s :=
  fun hready => (current_ends s).bind (h hready)

/-- After a kind of token is asked for, plan and parse go on with the answer. -/
theorem isAt {kind : TokenKind} {f : Bool → Plan α} {g : Bool → Parse α}
    (h : Does (f (decide (s.current.kind = kind))) (g (decide (s.current.kind = kind))) s) :
    Does (isAt kind >>= f) (Parse.isAt kind >>= g) s :=
  fun hready => (isAt_ends kind s).bind (h hready)

/-- After a report, plan and parse go on from it. -/
theorem report {problem : Problem} {f : Unit → Plan α} {g : Unit → Parse α}
    (h : Does (f ()) (g ()) ((Parse.report problem).run s).2) :
    Does (report problem >>= f) (Parse.report problem >>= g) s :=
  fun hready => .tell (h hready)

/-- Where a step takes a token, it is one less that is unread. -/
theorem taking {answer : α} {f : α → Plan β} {g : α → Parse β} (hends : plan.Ends s answer s.taken)
    (hrun : p.run s = (answer, s.taken)) (hkind : s.current.kind ≠ .endOfText)
    (h : s.taken.unread < s.unread → Does (f answer) (g answer) s.taken) :
    Does (plan >>= f) (p >>= g) s := by
  intro hready
  rw [Parse.run_bind, hrun]
  exact hends.bind (h (hready.taken_less hkind) hready.taken)

/-- After a token other than the end of the text is taken, plan and parse go on with fewer tokens
left. -/
theorem advance {f : Unit → Plan α} {g : Unit → Parse α} (hkind : s.current.kind ≠ .endOfText)
    (h : s.taken.unread < s.unread → Does (f ()) (g ()) s.taken) :
    Does (advance >>= f) (Parse.advance >>= g) s :=
  taking (advance_ends s) (Parse.advance_run s) hkind h

/-- After a punctuator is taken, plan and parse go on with fewer tokens left, or else as they
stand. -/
theorem accept {punctuator : Punctuator} {f : Bool → Plan α} {g : Bool → Parse α}
    (htaken : s.taken.unread < s.unread → Does (f true) (g true) s.taken)
    (h : Does (f false) (g false) s) :
    Does (accept punctuator >>= f) (Parse.accept punctuator >>= g) s := by
  by_cases hkind : s.current.kind = .punctuator punctuator
  · exact taking (accept_ends_of_eq hkind) (Parse.accept_run_of_eq hkind) (by simp [hkind]) htaken
  · intro hready
    rw [Parse.run_bind, Parse.accept_run_of_ne hkind]
    exact (accept_ends_of_ne hkind).bind (h hready)

/-- A list in parentheses that is read at the opening one has taken a token. -/
theorem opening {callee : Production} {p : Parse callee.Result} {f : callee.Result → Plan α}
    {g : callee.Result → Parse α} (hfirst : (⟨callee, s⟩ : Activation).TakesFirst)
    (h : Does callee.plan p s)
    (hf : ∀ answer s', s'.unread < s.unread → Does (f answer) (g answer) s') :
    Does (Plan.call callee >>= f) (p >>= g) s := by
  intro hready
  have hends := h hready
  exact (ends_call.mpr hends).bind
    (hf _ _ (hends.takesFirst hready hfirst) (hready.after hends.after))

end Does

variable {s : ParseState}

/-! ## Steps -/

/-- The plan of looking at the next token ends as the parse runs. -/
theorem nextKind_does : Does nextKind Parse.nextKind s :=
  fun _ => .lookAhead .done

/-- The plan of taking a token ends as the parse runs. -/
theorem advance_does : Does advance Parse.advance s :=
  fun _ => .take .done

/-- The plan of a report ends as the parse runs. -/
theorem report_does (problem : Problem) : Does (report problem) (Parse.report problem) s :=
  fun _ => .tell .done

/-- The plan of making a node ends as the parse runs. -/
theorem newNode_does (span : Span) : Does (newNode span) (Parse.newNode span) s :=
  fun _ => .number .done

/-- The plan of closing a node ends as the parse runs. -/
theorem closeNode_does (start : Nat) : Does (closeNode start) (Parse.closeNode start) s :=
  fun _ => .lookBack (.number .done)

/-- The plan of closing a node and making a tree of it ends as the parse runs. -/
theorem close_does (make : Node → α) (start : Nat) :
    Does (do return make (← closeNode start)) (do return make (← Parse.closeNode start)) s :=
  (closeNode_does start).bind fun _ _ _ => .pure _

/-- The plan of making a node and a tree of it ends as the parse runs. -/
theorem node_does (make : Node → α) (span : Span) :
    Does (do return make (← newNode span)) (do return make (← Parse.newNode span)) s :=
  (newNode_does span).bind fun _ _ _ => .pure _

/-- The plan of expecting a punctuator ends as the parse runs. -/
theorem expectPunctuator_does (punctuator : Punctuator) :
    Does (expectPunctuator punctuator) (Parse.expectPunctuator punctuator) s :=
  .isAt <| .ite (fun _ => advance_does) fun _ => report_does _

/-- The plan of taking a punctuator, if it is there, ends as the parse runs. -/
theorem accept?_does (punctuator : Punctuator) :
    Does (accept? punctuator) (Parse.accept? punctuator) s :=
  .isAt <| .ite (fun _ => .current <| advance_does.bind fun _ _ _ => .pure _) fun _ => .pure _

/-- The plan of taking a punctuator and telling whether it was there ends as the parse runs. -/
theorem accept_does (punctuator : Punctuator) :
    Does (accept punctuator) (Parse.accept punctuator) s :=
  (accept?_does punctuator).bind fun _ _ _ => .pure _

/-- The plan of a name ends as the parse runs. -/
theorem identifier_does : Does identifier Parse.identifier s :=
  .current <| .ite
    (fun _ => advance_does.bind fun _ _ _ => node_does _ _)
    fun _ => (report_does _).bind fun _ _ _ => node_does _ _

/-- The plan of the name of a member ends as the parse runs. -/
theorem memberName_does : Does memberName Parse.memberName s :=
  .current <| .ite (fun _ => advance_does.bind fun _ _ _ => node_does _ _)
    fun _ => identifier_does

/-- The plan of a missing expression ends as the parse runs. -/
theorem missing_does : Does missing Parse.missing s :=
  (report_does _).bind fun _ _ _ => .current <| node_does _ _

/-- The plan of a missing type ends as the parse runs. -/
theorem missingType_does : Does missingType Parse.missingType s :=
  (report_does _).bind fun _ _ _ => .current <| node_does _ _

/-- The plan of the end of a statement ends as the parse runs. -/
theorem endStatement_does : Does endStatement Parse.endStatement s :=
  .current <| .ite (fun _ => advance_does) fun _ => .ite (fun _ => .pure _) fun _ => report_does _

/-! ## Types -/

/-- The search for the arrow of a function type goes through the tokens ahead. -/
theorem arrow_ends (hready : s.Ready) (depth : Nat) :
    ∃ s', (arrow depth).Ends s (Parse.arrowFollows depth s.ahead) s' := by
  induction hahead : s.ahead generalizing s depth with
  | nil => cases hahead
  | cons token rest ih =>
    obtain rfl := ParseState.current_of_ahead hahead
    unfold arrow
    by_cases hend : s.current.kind = .endOfText
    · have hlast : rest = [] := hready.rest_eq_nil hahead hend
      refine ⟨s, (current_ends s).bind ?_⟩
      simp only [hend, hlast, Parse.arrowFollows]
      exact .done
    have hrest : s.taken.ahead = rest := by
      have htook := (hready.took_taken hend).ahead
      rw [hahead] at htook
      exact (List.cons.inj htook).2.symm
    by_cases hopen : s.current.kind = .punctuator .openParen
    · obtain ⟨s', hends⟩ := ih hready.taken (depth + 1) hrest
      refine ⟨s', (current_ends s).bind ?_⟩
      simp only [hopen, Parse.arrowFollows_open hopen]
      exact (advance_ends s).bind (ends_call.mpr hends)
    by_cases hclose : s.current.kind = .punctuator .closeParen
    · by_cases hdepth : depth ≤ 1
      · refine ⟨s.taken, (current_ends s).bind ?_⟩
        simp only [hclose, if_pos hdepth, ← hrest, ParseState.ahead,
          Parse.arrowFollows_last hclose hdepth]
        exact (advance_ends s).bind ((current_ends _).bind .done)
      · obtain ⟨s', hends⟩ := ih hready.taken (depth - 1) hrest
        refine ⟨s', (current_ends s).bind ?_⟩
        simp only [hclose, if_neg hdepth, Parse.arrowFollows_close hclose (Nat.lt_of_not_le hdepth)]
        exact (advance_ends s).bind (ends_call.mpr hends)
    · obtain ⟨s', hends⟩ := ih hready.taken depth hrest
      refine ⟨s', (current_ends s).bind ?_⟩
      rw [Parse.arrowFollows_other hopen hclose]
      split
      · exact absurd ‹_› hend
      · exact absurd ‹_› hopen
      · exact absurd ‹_› hclose
      · exact (advance_ends s).bind (ends_call.mpr hends)

/-- The plan of looking ahead for a function type ends as the parse runs. -/
theorem startsFunctionType_does : Does startsFunctionType Parse.startsFunctionType s := by
  intro hready
  obtain ⟨s', hends⟩ := arrow_ends hready 0
  exact .scout hends .done

section Types

variable {depth : Nat} {type : Parse TypeNode} (h : ∀ s, Does (typeNode depth) type s)
include h

/-- The plan of an annotation ends as the parse runs, if that of a type does. -/
theorem optionalType_does : Does (optionalType depth) (Parse.optionalType type) s :=
  (accept_does _).bind fun _ s' _ => .ite (fun _ => Does.bind (.call (h s')) fun _ _ _ => .pure _)
    fun _ => .pure _

/-- The plan of a parameter ends as the parse runs, if that of a type does. -/
theorem parameter_does : Does (parameter depth) (Parse.parameter type) s :=
  .current <| (accept?_does _).bind fun _ _ _ => identifier_does.bind fun _ _ _ =>
    (accept_does _).bind fun _ _ _ => Does.bind (.call (optionalType_does h)) fun _ _ _ =>
    close_does _ _

/-- The plan of further parameters ends as the parse runs with any limit above the tokens left. -/
theorem parametersTail_does (limit : Nat) (afterRest : Bool) (hlimit : s.unread < limit) :
    Does (parametersTail depth afterRest) (Parse.parametersTail type limit afterRest) s := by
  induction limit generalizing s afterRest with
  | zero => exact absurd hlimit (Nat.not_lt_zero _)
  | succ limit ih =>
    refine .isAt <| .isAt <| .ite (fun _ => .pure _) fun _ => ?_
    have hround {s' : ParseState} (hafter : s'.After s) : Does
        (do
          let first ← call (.parameter depth)
          if ← accept .comma then return first :: (← call (.parametersTail depth first.isRest))
          else return [first])
        (do
          let first ← Parse.parameter type
          if ← Parse.accept .comma then
            return first :: (← Parse.parametersTail type limit first.isRest)
          else return [first]) s' := by
      refine Does.bind (.call (parameter_does h)) fun first s₁ hafter₁ =>
        .accept (fun htaken => ?_) (.pure _)
      have hunread := (hafter₁.trans hafter).unread_le
      exact Does.bind (.call (ih first.isRest (by omega))) fun _ _ _ => .pure _
    cases afterRest with
    | false => exact hround (.refl s)
    | true => exact (report_does _).bind fun _ _ hafter => hround hafter

/-- The plan of parameters ends as the parse runs, if that of a type does. -/
theorem parameters_does : Does (parameters depth) (Parse.parameters type) s :=
  (expectPunctuator_does _).bind fun _ s' _ => .remaining <|
    Does.bind (.call (parametersTail_does h _ false (Nat.lt_succ_self s'.unread))) fun _ _ _ =>
    (expectPunctuator_does _).bind fun _ _ _ => .pure _

/-- The plan of a member ends as the parse runs, if that of a type does. -/
theorem element_does : Does (element depth) (Parse.element type) s :=
  .current <| memberName_does.bind fun _ _ _ => (accept_does _).bind fun _ _ _ => .isAt <| .ite
    (fun _ => Does.bind (.call (parameters_does h)) fun _ _ _ =>
      Does.bind (.call (optionalType_does h)) fun _ _ _ => close_does _ _)
    fun _ => Does.bind (.call (optionalType_does h)) fun _ _ _ => close_does _ _

/-- The plan of further members ends as the parse runs with any limit above the tokens left. -/
theorem elementsTail_does (limit : Nat) (hlimit : s.unread < limit) :
    Does (elementsTail depth) (Parse.elementsTail type limit) s := by
  induction limit generalizing s with
  | zero => exact absurd hlimit (Nat.not_lt_zero _)
  | succ limit ih =>
    refine .isAt <| .isAt <| .ite (fun _ => .pure _) fun hgoes => .current <|
      Does.bind (.call (element_does h)) fun first s₁ hafter => ?_
    have hkind : s.current.kind ≠ .endOfText := by
      intro hend
      simp [hend] at hgoes
    have hothers {s' : ParseState} (hless : s'.unread < s.unread) : Does
        (do return first :: (← call (.elementsTail depth)))
        (do return first :: (← Parse.elementsTail type limit)) s' :=
      Does.bind (.call (ih (by omega))) fun _ _ _ => .pure _
    have hmoves {s' : ParseState} (hafter : s'.After s) : Does
        (do
          if (← current).span.start = s.current.span.start then advance
          return first :: (← call (.elementsTail depth)))
        (do
          if (← Parse.current).span.start = s.current.span.start then Parse.advance
          return first :: (← Parse.elementsTail type limit)) s' := by
      refine .current ?_
      rcases hafter.less_or_same with hless | hsame
      · refine .ite (fun _ => advance_does.bind fun _ s'' hafter' => hothers ?_) fun _ =>
          hothers hless
        exact Nat.lt_of_le_of_lt hafter'.unread_le hless
      · refine .ite (fun _ => .advance (hsame ▸ hkind) fun htaken => hothers ?_) fun hmoved =>
          absurd (congrArg (·.span.start) hsame) hmoved
        exact Nat.lt_of_lt_of_le htaken hafter.unread_le
    refine .accept (fun _ => hmoves (s₁.taken_after.trans hafter)) ?_
    exact (accept_does _).bind fun _ s' hafter' => hmoves (hafter'.trans hafter)

/-- The plan of members ends as the parse runs, if that of a type does. -/
theorem elements_does : Does (elements depth) (Parse.elements type) s :=
  (expectPunctuator_does _).bind fun _ s' _ => .remaining <|
    Does.bind (.call (elementsTail_does h _ (Nat.lt_succ_self s'.unread))) fun _ _ _ =>
    (expectPunctuator_does _).bind fun _ _ _ => .pure _

/-- The plan of a primary type ends as the parse runs, if that of a type does. -/
theorem primaryType_does : Does (primaryType depth) (Parse.primaryType type) s := by
  refine .current ?_
  simp only
  cases TypeWord.ofToken? s.current.kind with
  | some word => exact advance_does.bind fun _ _ _ => node_does _ _
  | none =>
    cases Literal.ofToken? s.current with
    | some value =>
      exact advance_does.bind fun _ _ _ => (newNode_does _).bind fun _ _ _ => close_does _ _
    | none =>
      refine .ite (fun _ => Does.bind (.call (elements_does h)) fun _ _ _ => close_does _ _)
        fun _ => .ite (fun _ => ?_) fun _ => .ite (fun _ => ?_) fun _ => missingType_does
      · refine startsFunctionType_does.bind fun _ _ _ => .ite (fun _ => ?_) fun _ => ?_
        · exact Does.bind (.call (parameters_does h)) fun _ _ _ =>
            (expectPunctuator_does _).bind fun _ s' _ => Does.bind (.call (h s')) fun _ _ _ =>
            close_does _ _
        · exact advance_does.bind fun _ s' _ => Does.bind (.call (h s')) fun _ _ _ =>
            (expectPunctuator_does _).bind fun _ _ _ => close_does _ _
      · exact identifier_does.bind fun _ _ _ => close_does _ _

omit h in
/-- The plan of brackets after a type ends as the parse runs with any limit above the tokens
left. -/
theorem arrayTail_does (start limit : Nat) (inner : TypeNode) (hlimit : s.unread < limit) :
    Does (arrayTail start inner) (Parse.arrayTail start limit inner) s := by
  induction limit generalizing s inner with
  | zero => exact absurd hlimit (Nat.not_lt_zero _)
  | succ limit ih =>
    refine .current <| .ite (fun hopen => ?_) fun _ => .pure _
    have hkind : s.current.kind ≠ .endOfText := by
      rw [Bool.and_eq_true, decide_eq_true_eq] at hopen
      simp [hopen.1]
    refine .advance hkind fun htaken => (expectPunctuator_does _).bind fun _ s₁ hafter =>
      (closeNode_does _).bind fun node s₂ hafter' => .call (ih _ ?_)
    have hunread := (hafter'.trans hafter).unread_le
    omega

/-- The plan of an array type ends as the parse runs, if that of a type does. -/
theorem arrayType_does : Does (arrayType depth) (Parse.arrayType type) s :=
  .current <| Does.bind (.call (primaryType_does h)) fun _ s' _ => .remaining <|
    .call (arrayTail_does _ _ _ (Nat.lt_succ_self s'.unread))

/-- The plan of further members of a union ends as the parse runs with any limit above the tokens
left. -/
theorem unionTail_does (limit : Nat) (hlimit : s.unread < limit) :
    Does (unionTail depth) (Parse.unionTail type limit) s := by
  induction limit generalizing s with
  | zero => exact absurd hlimit (Nat.not_lt_zero _)
  | succ limit ih =>
    refine .accept (fun htaken => ?_) (.pure _)
    refine Does.bind (.call (arrayType_does h)) fun member s' hafter => ?_
    have hunread := hafter.unread_le
    exact Does.bind (.call (ih (by omega))) fun _ _ _ => .pure _

/-- The plan of a union ends as the parse runs, if that of a type does. -/
theorem unionType_does : Does (unionType depth) (Parse.unionType type) s :=
  .current <| (accept_does _).bind fun _ _ _ => Does.bind (.call (arrayType_does h)) fun _ s' _ =>
    .remaining <| Does.bind (.call (unionTail_does h _ (Nat.lt_succ_self s'.unread)))
    fun _ _ _ => .ite (fun _ => .pure _) fun _ => close_does _ _

end Types

/-- The plan of a type ends as the parse of nested types runs, by induction on the depth. -/
theorem typeNode_does (depth : Nat) (s : ParseState) :
    Does (typeNode depth) (Parse.nestedType depth) s := by
  induction depth generalizing s with
  | zero => exact missingType_does
  | succ depth ih => exact .call (unionType_does ih)

/-! ## Expressions -/

section Expressions

variable {depth : Nat} {nested : Parse Expr} (h : ∀ s, Does (assignment depth) nested s)
include h

/-- The plan of a primary expression ends as the parse runs, if that of an assignment does. -/
theorem primary_does : Does (primary depth) (Parse.primary nested) s := by
  refine .current <| .ite (fun _ => identifier_does.bind fun _ _ _ => .pure _) fun _ => ?_
  cases Literal.ofToken? s.current with
  | some value => exact advance_does.bind fun _ _ _ => (newNode_does _).bind fun _ _ _ => .pure _
  | none =>
    exact (accept_does _).bind fun _ s' _ => .ite
      (fun _ => Does.bind (.call (h s')) fun _ _ _ => (expectPunctuator_does _).bind fun _ _ _ =>
        (closeNode_does _).bind fun _ _ _ => .pure _)
      fun _ => missing_does

/-- The plan of further arguments ends as the parse runs with any limit above the tokens left. -/
theorem argumentsTail_does (limit : Nat) (hlimit : s.unread < limit) :
    Does (argumentsTail depth) (Parse.argumentsTail nested limit) s := by
  induction limit generalizing s with
  | zero => exact absurd hlimit (Nat.not_lt_zero _)
  | succ limit ih =>
    refine .isAt <| .isAt <| .ite (fun _ => .pure _) fun _ => ?_
    refine Does.bind (.call (h s)) fun argument s' hafter => .accept (fun htaken => ?_) (.pure _)
    have hunread := hafter.unread_le
    exact Does.bind (.call (ih (by omega))) fun _ _ _ => .pure _

/-- The plan of arguments ends as the parse runs, if that of an assignment does. -/
theorem arguments_does : Does (arguments depth) (Parse.arguments nested) s :=
  (expectPunctuator_does _).bind fun _ s' _ => .remaining <|
    Does.bind (.call (argumentsTail_does h _ (Nat.lt_succ_self s'.unread))) fun _ _ _ =>
    (expectPunctuator_does _).bind fun _ _ _ => .pure _

/-- The plan of members, keys and calls ends as the parse runs with any limit above the tokens
left. -/
theorem accessTail_does (limit : Nat) (e : Expr) (hlimit : s.unread < limit) :
    Does (accessTail depth e) (Parse.accessTail nested limit e) s := by
  induction limit generalizing s e with
  | zero => exact absurd hlimit (Nat.not_lt_zero _)
  | succ limit ih =>
    refine .accept (fun htaken => ?_) <| .accept (fun htaken => ?_) <| .isAt <| .ite
      (fun hopen => ?_) fun _ => .pure _
    · refine memberName_does.bind fun name s₁ hafter => (closeNode_does _).bind
        fun node s₂ hafter' => .call (ih _ ?_)
      have hunread := (hafter'.trans hafter).unread_le
      omega
    · refine Does.bind (.call (h _)) fun key s₁ hafter => (expectPunctuator_does _).bind
        fun _ s₂ hafter₁ => (closeNode_does _).bind fun node s₃ hafter₂ => .call (ih _ ?_)
      have hunread := (hafter₂.trans (hafter₁.trans hafter)).unread_le
      omega
    · have hkind : s.current.kind = .punctuator .openParen := of_decide_eq_true hopen
      refine .opening hkind (arguments_does h) fun values s₁ hless => (closeNode_does _).bind
        fun node s₂ hafter => .call (ih _ ?_)
      have hunread := hafter.unread_le
      omega

/-- The plan of a primary expression with what follows it ends as the parse runs. -/
theorem access_does : Does (access depth) (Parse.access nested) s :=
  Does.bind (.call (primary_does h)) fun _ s' _ => .remaining <|
    .call (accessTail_does h _ _ (Nat.lt_succ_self s'.unread))

end Expressions

/-- At the depth limit an operator in front has no operand to read. -/
theorem unary_zero_does {nested : Parse Expr} (h : ∀ s, Does (assignment 0) nested s) :
    Does (unary 0) (Parse.unary nested none) s := by
  refine .current ?_
  cases UnaryOp.ofToken? s.current.kind with
  | none => exact .call (access_does h)
  | some op => exact missing_does

/-- The plan of operators in front ends as the parse runs above the depth limit. -/
theorem unary_succ_does {depth : Nat} {nested operand : Parse Expr}
    (h : ∀ s, Does (assignment (depth + 1)) nested s)
    (hoperand : ∀ s, Does (unary depth) operand s) :
    Does (unary (depth + 1)) (Parse.unary nested (some operand)) s := by
  refine .current ?_
  cases UnaryOp.ofToken? s.current.kind with
  | none => exact .call (access_does h)
  | some op =>
    exact advance_does.bind fun _ s' _ => Does.bind (.call (hoperand s')) fun _ _ _ =>
      (closeNode_does _).bind fun _ _ _ => .pure _

section Operators

variable {depth : Nat} {nested operand : Parse Expr}
  (hoperand : ∀ s, Does (unary depth) operand s)
include hoperand

/-- The plan of operators and right operands ends as the parse runs with any limit above the tokens
left. -/
theorem binaryTail_does (limit : Nat) (bound : Precedence) (left : Expr)
    (hlimit : s.unread < limit) :
    Does (binaryTail depth bound left) (Parse.binaryTail operand limit bound left) s := by
  induction limit generalizing s bound left with
  | zero => exact absurd hlimit (Nat.not_lt_zero _)
  | succ limit ih =>
    refine .current ?_
    cases hop : BinaryOp.ofToken? s.current.kind with
    | none => exact .pure _
    | some op =>
      refine .ite (fun _ => .advance (BinaryOp.ne_endOfText hop) fun htaken => ?_)
        fun _ => .pure _
      -- The right operand is the first one and what follows it above the precedence of the operator.
      have hright : Does (binary depth op.precedence.rightFloor)
          (do Parse.binaryTail operand limit op.precedence.rightFloor (← operand)) s.taken := by
        refine Does.bind (.call (hoperand _)) fun first s₁ hafter => .call (ih _ _ ?_)
        have hunread := hafter.unread_le
        omega
      rw [← bind_assoc]
      refine Does.bind (.call hright) fun right s₁ hafter => (closeNode_does _).bind
        fun node s₂ hafter' => .call (ih _ _ ?_)
      have hunread := (hafter'.trans hafter).unread_le
      omega

/-- The plan of operands joined by operators ends as the parse runs. -/
theorem binary_does : Does (binary depth .floor) (Parse.binary operand) s :=
  Does.bind (.call (hoperand s)) fun _ s' _ => .remaining <|
    .call (binaryTail_does hoperand _ _ _ (Nat.lt_succ_self s'.unread))

variable (h : ∀ s, Does (assignment depth) nested s)
include h

/-- The plan of a choice ends as the parse runs. -/
theorem conditional_does : Does (conditional depth) (Parse.conditional nested operand) s :=
  Does.bind (.call (binary_does hoperand)) fun _ _ _ => (accept_does _).bind fun _ s₁ _ => .ite
    (fun _ => Does.bind (.call (h s₁)) fun _ _ _ => (expectPunctuator_does _).bind fun _ s₂ _ =>
      Does.bind (.call (h s₂)) fun _ _ _ => (closeNode_does _).bind fun _ _ _ => .pure _)
    fun _ => .pure _

/-- The plan of an assignment ends as the parse runs above the depth limit. -/
theorem assignment_does : Does (assignment (depth + 1)) (Parse.assignment nested operand) s := by
  refine Does.bind (.call (conditional_does hoperand h)) fun target _ _ =>
    (accept?_does _).bind fun mark s' _ => ?_
  cases mark with
  | some mark =>
    exact Does.bind (.call (h s')) fun _ _ _ => (closeNode_does _).bind fun _ _ _ => .pure _
  | none => exact .pure _

end Operators

/-- The readers of nested expressions, level by level. -/
theorem nested_does (depth : Nat) :
    (∀ s, Does (assignment depth) (Parse.nested depth).assignment s) ∧
      ∀ s, Does (unary depth) (Parse.nested depth).unary s := by
  induction depth with
  | zero => exact ⟨fun s => missing_does, fun s => unary_zero_does fun s => missing_does⟩
  | succ depth ih =>
    obtain ⟨hnested, hoperand⟩ := ih
    have houter (s : ParseState) :
        Does (assignment (depth + 1)) (Parse.nested (depth + 1)).assignment s :=
      assignment_does hoperand hnested
    exact ⟨houter, fun s => unary_succ_does houter hoperand⟩

/-- The plan of an expression ends as the parse runs. -/
theorem expression_does (s : ParseState) : Does (assignment depthLimit) Parse.expression s :=
  (nested_does depthLimit).1 s

/-! ## Statements -/

/-- The plan of a variable declaration ends as the parse runs. -/
theorem variableDeclaration_does : Does variableDeclaration Parse.variableDeclaration s := by
  refine .current <| identifier_does.bind fun name _ _ =>
    Does.bind (.call (optionalType_does (typeNode_does depthLimit))) fun written _ _ =>
    (accept_does _).bind fun _ s' _ => .ite (fun _ => ?_) fun _ => ?_
  · exact Does.bind (.call (expression_does s')) fun _ _ _ => (Does.pure _).bind fun _ _ _ =>
      (closeNode_does _).bind fun _ _ _ => .pure _
  · exact (Does.pure _).bind fun _ _ _ => (closeNode_does _).bind fun _ _ _ => .pure _

/-- The plan of further variable declarations ends as the parse runs with any limit above the tokens
left. -/
theorem variablesTail_does (limit : Nat) (hlimit : s.unread < limit) :
    Does variablesTail (Parse.variablesTail limit) s := by
  induction limit generalizing s with
  | zero => exact absurd hlimit (Nat.not_lt_zero _)
  | succ limit ih =>
    refine Does.bind (.call variableDeclaration_does) fun first s' hafter =>
      .accept (fun htaken => ?_) (.pure _)
    have hunread := hafter.unread_le
    exact Does.bind (.call (ih (by omega))) fun _ _ _ => .pure _

/-- The plan of a variable statement ends as the parse runs. -/
theorem variableStatement_does (start : Nat) (ambient : Bool) (form : VariableForm) :
    Does (variableStatement start ambient form) (Parse.variableStatement start ambient form) s :=
  .current <| advance_does.bind fun _ s' _ => .remaining <|
    Does.bind (.call (variablesTail_does _ (Nat.lt_succ_self s'.unread))) fun _ _ _ =>
    (closeNode_does _).bind fun _ _ _ => endStatement_does.bind fun _ _ _ =>
    (closeNode_does _).bind fun _ _ _ => .pure _

/-- The plan of a function declaration ends as the parse runs. -/
theorem functionDeclaration_does (start : Nat) (ambient : Bool) :
    Does (functionDeclaration start ambient) (Parse.functionDeclaration start ambient) s :=
  advance_does.bind fun _ _ _ => identifier_does.bind fun _ _ _ =>
    Does.bind (.call (parameters_does (typeNode_does depthLimit))) fun _ _ _ =>
    Does.bind (.call (optionalType_does (typeNode_does depthLimit))) fun _ _ _ =>
    endStatement_does.bind fun _ _ _ => (closeNode_does _).bind fun _ _ _ => .pure _

/-- The plan of an interface declaration ends as the parse runs. -/
theorem interfaceDeclaration_does (start : Nat) :
    Does (interfaceDeclaration start) (Parse.interfaceDeclaration start) s :=
  advance_does.bind fun _ _ _ => identifier_does.bind fun _ _ _ =>
    Does.bind (.call (elements_does (typeNode_does depthLimit))) fun _ _ _ =>
    (closeNode_does _).bind fun _ _ _ => .pure _

/-- The plan of an alias declaration ends as the parse runs. -/
theorem aliasDeclaration_does (start : Nat) :
    Does (aliasDeclaration start) (Parse.aliasDeclaration start) s :=
  advance_does.bind fun _ _ _ => identifier_does.bind fun _ _ _ =>
    (expectPunctuator_does _).bind fun _ s' _ =>
    Does.bind (.call (typeNode_does depthLimit s')) fun _ _ _ =>
    endStatement_does.bind fun _ _ _ => (closeNode_does _).bind fun _ _ _ => .pure _

/-- The plan of an expression statement ends as the parse runs. -/
theorem expressionStatement_does : Does expressionStatement Parse.expressionStatement s :=
  .current <| Does.bind (.call (expression_does s)) fun _ _ _ => endStatement_does.bind
    fun _ _ _ => (closeNode_does _).bind fun _ _ _ => .pure _

/-- The plan of a statement other than a block ends as the parse runs. -/
theorem declaration_does (start : Nat) (ambient : Bool) :
    Does (declaration start ambient) (Parse.declaration start ambient) s := by
  refine .current ?_
  cases s.current.kind with
  | keyword word =>
    cases word with
    | varWord | constWord => exact .call (variableStatement_does _ _ _)
    | letWord =>
      exact nextKind_does.bind fun _ _ _ => .ite (fun _ => .call (variableStatement_does _ _ _))
        fun _ => .call expressionStatement_does
    | functionWord => exact .call (functionDeclaration_does _ _)
    | interfaceWord =>
      exact nextKind_does.bind fun _ _ _ => .ite (fun _ => .call (interfaceDeclaration_does _))
        fun _ => .call expressionStatement_does
    | typeWord =>
      exact nextKind_does.bind fun _ _ _ => .ite (fun _ => .call (aliasDeclaration_does _))
        fun _ => .call expressionStatement_does
    | _ => exact .call expressionStatement_does
  | _ => exact .call expressionStatement_does

/-- The statements of a block are read behind its opening brace. -/
theorem statement_does {body : Parse (List Statement)}
    (h : ∀ s', s'.unread < s.unread → Does statements body s') :
    Does statement (Parse.statement body) s := by
  refine .current ?_
  simp only
  cases hkind : s.current.kind with
  | punctuator mark =>
    cases mark with
    | semicolon =>
      exact advance_does.bind fun _ _ _ => (newNode_does _).bind fun _ _ _ => .pure _
    | openBrace =>
      refine .advance (by simp [hkind]) fun htaken => ?_
      exact Does.bind (.call (h _ htaken)) fun _ _ _ => (expectPunctuator_does _).bind
        fun _ _ _ => (closeNode_does _).bind fun _ _ _ => .pure _
    | _ => exact .call (declaration_does _ _)
  | keyword word =>
    cases word with
    | declareWord =>
      exact nextKind_does.bind fun _ _ _ => .ite
        (fun _ => advance_does.bind fun _ _ _ => .call (declaration_does _ _))
        fun _ => .call (declaration_does _ _)
    | _ => exact .call (declaration_does _ _)
  | _ => exact .call (declaration_does _ _)

/-- The plan of statements ends as the parse runs with any limit above the tokens left, by induction
on the limit. -/
theorem statementsTail_does (limit : Nat) (hlimit : s.unread < limit) :
    Does statements (Parse.statementsTail limit) s := by
  induction limit generalizing s with
  | zero => exact absurd hlimit (Nat.not_lt_zero _)
  | succ limit ih =>
    refine .isAt <| .isAt <| .ite (fun _ => .pure _) fun hgoes => .current <|
      Does.bind (.call (statement_does fun s' hless => ih (by omega))) fun first s₁ hafter =>
      .current ?_
    have hkind : s.current.kind ≠ .endOfText := by
      intro hend
      simp [hend] at hgoes
    have hothers {s' : ParseState} (hless : s'.unread < s.unread) : Does
        (do return first :: (← call .statements))
        (do return first :: (← Parse.statementsTail limit)) s' :=
      Does.bind (.call (ih (by omega))) fun _ _ _ => .pure _
    rcases hafter.less_or_same with hless | hsame
    · refine .ite (fun _ => (report_does _).bind fun _ s₂ hafter₁ => advance_does.bind
        fun _ s₃ hafter₂ => hothers ?_) fun _ => hothers hless
      exact Nat.lt_of_le_of_lt (hafter₂.trans hafter₁).unread_le hless
    · refine .ite (fun _ => .report <| .advance (hsame ▸ hkind) fun htaken => hothers ?_)
        fun hmoved => absurd (by simp [hsame, hkind]) hmoved
      exact Nat.lt_of_lt_of_le htaken hafter.unread_le

/-- The plan of statements ends as the parse runs. -/
theorem statements_does : Does statements Parse.statements s :=
  .remaining <| statementsTail_does _ (Nat.lt_succ_self s.unread)

/-- The plan of a whole expression ends as the parse runs. -/
theorem wholeExpression_does : Does wholeExpression Parse.wholeExpression s :=
  Does.bind (.call (expression_does s)) fun _ _ _ => .current <| .ite (fun _ => .pure _) fun _ =>
    (report_does _).bind fun _ _ _ => .pure _

/-- The plan of a file ends as the parse runs. -/
theorem wholeFile_does (name : String) (text : List Char) :
    Does (wholeFile name text) (Parse.wholeFile name text) s :=
  Does.bind (.call statements_does) fun _ _ _ => (newNode_does _).bind fun _ _ _ => .pure _

end Plan

/-! ## Whole texts -/

/-- On the tokens of a text a production terminates, and a parse of the text is what it comes to. -/
structure Production.ParsesTo (callee : Production) (text : String)
    (parsed : Parsed callee.Result) : Prop where
  terminates : Activation.Terminates
    ⟨callee, Parse.initial (Token.ofText Alphabet.standard text.toList)⟩
  ends : ∃ final,
    callee.plan.Ends (Parse.initial (Token.ofText Alphabet.standard text.toList)) parsed.tree final ∧
      parsed.issues = Issue.sortByStart (final.issues ++
        Parse.tokenIssues (Token.ofText Alphabet.standard text.toList) final)

/-- A production whose plan ends as a parse runs terminates on every text, with what the parse
gives. -/
theorem Production.ParsesTo.of_does {callee : Production} {p : Parse callee.Result}
    (h : ∀ s, callee.plan.Does p s) (text : String) :
    callee.ParsesTo text (Parse.throughout p (Token.ofText Alphabet.standard text.toList)) := by
  have hready := (ParseState.Placed.initial text.toList).ready
  exact ⟨Activation.terminates _ hready, _, h _ hready, rfl⟩

/-- Every text is parsed to an end, as an expression and as a declaration file: each round of a loop
but the last takes a token, and so does each cycle of calls. -/
theorem parse_terminates (name text : String) :
    Production.wholeExpression.ParsesTo text (Expr.parse text) ∧
      (Production.wholeFile name text.toList).ParsesTo text (SourceFile.parse name text) := by
  have hexpression (s : ParseState) :
      Plan.Does Production.wholeExpression.plan Parse.wholeExpression s :=
    Plan.wholeExpression_does
  have hfile (s : ParseState) : Plan.Does (Production.wholeFile name text.toList).plan
      (Parse.wholeFile name text.toList) s :=
    Plan.wholeFile_does name text.toList
  exact ⟨.of_does hexpression text, .of_does hfile text⟩

end ExpressionTyping
