import Mathlib.Data.Prod.Lex
import ExpressionTyping.Proofs.Grammar.Precedence
import ExpressionTyping.Proofs.Grammar.Productions

/-!
# Calls descend

A production that is called has less to do than its caller: fewer tokens are unread, or as many and
it stands above the caller in the list of productions (`Activation.measure`). Missing names, types
and expressions are read without taking a token, so a production may come back with as many tokens
unread as before. Therefore the order of the list counts, and the loops over statements and over
members of object types pass over a token that their round has left.

One exception is made to the order. Arguments stand below expressions, which they are made of, and
are called for a call expression; but they are called at their opening parenthesis then, and take it
before anything else (`Activation.TakesFirst`). The same holds for the parameters of function types.

`Plan.Below` says that all calls of a plan descend, as long as it goes on from where a production was
called. It is shown production by production, each of them only up to the first token that is taken
for certain. What follows is `Activation.terminates`: the calls of a production come to an end, and
so does the production.
-/

set_option autoImplicit false

namespace ExpressionTyping

namespace ParseState

/-- The number of tokens after the current one. -/
def unread (s : ParseState) : Nat :=
  s.upcoming.length

/-- One state comes after another: what lies ahead of it lay ahead of the other. -/
def After (s' s : ParseState) : Prop :=
  s'.ahead <:+ s.ahead

/-- A state comes after itself. -/
theorem After.refl (s : ParseState) : s.After s :=
  List.suffix_refl _

/-- Coming after is transitive. -/
theorem After.trans {s s' s'' : ParseState} (h : s''.After s') (h' : s'.After s) : s''.After s :=
  List.IsSuffix.trans h h'

/-- The state after taking a token comes after the one before. -/
theorem taken_after (s : ParseState) : s.taken.After s := by
  obtain ⟨current, upcoming, previousStop, nextId, issues⟩ := s
  cases upcoming with
  | nil => exact List.suffix_refl _
  | cons next rest => exact List.suffix_cons current (next :: rest)

/-- In a later state no more tokens are left to read. -/
theorem After.unread_le {s s' : ParseState} (h : s'.After s) : s'.unread ≤ s.unread :=
  Nat.le_of_succ_le_succ h.length_le

/-- A state that comes after another with as much unread stands on the same token. -/
theorem After.current_eq {s s' : ParseState} (h : s'.After s) (hsame : s'.unread = s.unread) :
    s'.current = s.current :=
  (List.cons.inj (h.eq_of_length (congrArg Nat.succ hsame))).1

/-- Either a token was taken or the state still stands on the same one. -/
theorem After.less_or_same {s s' : ParseState} (h : s'.After s) :
    s'.unread < s.unread ∨ s'.current = s.current :=
  (Nat.lt_or_eq_of_le h.unread_le).imp_right h.current_eq

/-- A state that comes after one that ends in the end of the text ends there too. -/
theorem Ready.after {s s' : ParseState} (h : s.Ready) (hafter : s'.After s) : s'.Ready := by
  obtain ⟨tokens, final, hahead, hfinal, hordinary, hgenuine⟩ := h
  rw [After, hahead] at hafter
  rcases List.suffix_concat_iff.mp hafter with hnil | ⟨rest, hrest, hsuffix⟩
  · cases hnil
  · exact ⟨rest, final, hrest, hfinal, fun token htoken => hordinary token (hsuffix.mem htoken),
      fun token htoken => hgenuine token (hsuffix.mem htoken)⟩

/-- Nothing is ahead of the end of a text. -/
theorem Ready.rest_eq_nil {s : ParseState} {token : Token} {rest : List Token} (h : s.Ready)
    (hahead : s.ahead = token :: rest) (hkind : token.kind = .endOfText) : rest = [] := by
  obtain ⟨tokens, final, hready, -, hordinary, -⟩ := h
  rw [hahead] at hready
  cases tokens with
  | nil => exact (List.cons.inj hready).2
  | cons first tokens =>
    obtain ⟨rfl, -⟩ := List.cons.inj hready
    exact absurd hkind (hordinary token List.mem_cons_self)

/-- A token that is taken, unless it is the end of the text, is not unread any more. -/
theorem Ready.taken_less {s : ParseState} (h : s.Ready) (hkind : s.current.kind ≠ .endOfText) :
    s.taken.unread < s.unread := by
  have hahead := congrArg List.length (h.took_taken hkind).ahead
  simp only [ahead, List.length_cons, List.length_append, List.length_nil] at hahead
  unfold unread
  omega

end ParseState

/-- A production stands above another one in their list. -/
def Production.above (callee caller : Production) : Bool :=
  callee.ctorIdx < caller.ctorIdx

namespace Activation

/-- A list in parentheses takes the opening one before anything else. -/
def TakesFirst (a : Activation) : Prop :=
  match a.production with
  | .arguments _ | .parameters _ => a.state.current.kind = .punctuator .openParen
  | _ => False

/-- Whether an activation does so can be told from its constructor and its token. -/
theorem takesFirst_iff {a : Activation} : a.TakesFirst ↔
    (a.production.ctorIdx = (Production.parameters 0).ctorIdx ∨
      a.production.ctorIdx = (Production.arguments 0).ctorIdx) ∧
    a.state.current.kind = .punctuator .openParen := by
  obtain ⟨production, state⟩ := a
  cases production <;> simp [TakesFirst, Production.ctorIdx]

instance (a : Activation) : Decidable a.TakesFirst :=
  decidable_of_iff _ takesFirst_iff.symm

/-- The place of an activation in the order of calls. -/
def place (a : Activation) : Nat :=
  if a.TakesFirst then 0 else a.production.ctorIdx + 1

/-- What is left to do. -/
def measure (a : Activation) : Nat ×ₗ Nat :=
  toLex (a.state.unread, a.place)

/-- What is left to do cannot become less forever. -/
theorem measure_wf : WellFounded fun a b : Activation => a.measure < b.measure :=
  InvImage.wf measure wellFounded_lt

variable {caller called : Activation}

/-- An activation with fewer tokens left has less to do. -/
theorem measure_lt_of_less (h : called.state.unread < caller.state.unread) :
    called.measure < caller.measure :=
  Prod.Lex.toLex_lt_toLex.mpr (.inl h)

/-- An activation with no more tokens left and a lower place in the order of calls has less to
do. -/
theorem measure_lt_of_place (hle : called.state.unread ≤ caller.state.unread)
    (h : called.place < caller.place) : called.measure < caller.measure := by
  rcases Nat.lt_or_eq_of_le hle with hless | heq
  · exact measure_lt_of_less hless
  · exact Prod.Lex.toLex_lt_toLex.mpr (.inr ⟨heq, h⟩)

/-- A list in parentheses that takes the opening one at once has a lower place than what does not
start so. -/
theorem place_lt_of_first (hfirst : called.TakesFirst) (hlate : ¬caller.TakesFirst) :
    called.place < caller.place := by
  unfold place
  rw [if_pos hfirst, if_neg hlate]
  exact Nat.succ_pos _

/-- Among activations that take no token first, a callee that stands above the caller in the list of
productions has the lower place. -/
theorem place_lt (hlate : ¬caller.TakesFirst)
    (h : called.production.ctorIdx < caller.production.ctorIdx) : called.place < caller.place := by
  unfold place
  rw [if_neg hlate]
  split <;> omega

end Activation

namespace Plan

variable {α β : Type}

/-! ## Runs of plans -/

/-- A plan only goes forward. -/
theorem Ends.after {plan : Plan α} {s s' : ParseState} {result : α} (h : plan.Ends s result s') :
    s'.After s := by
  induction h with
  | done => exact .refl _
  | look _ ih | lookBack _ ih | lookAhead _ ih | scout _ _ _ ih => exact ih
  | tell _ ih | number _ ih => exact ih
  | take _ ih => exact ih.trans (ParseState.taken_after _)
  | ask _ _ ihCalled ih => exact ih.trans ihCalled

/-- Plans that end one after the other end together. -/
theorem Ends.bind {plan : Plan α} {f : α → Plan β} {s s₁ s' : ParseState} {answer : α} {result : β}
    (h : plan.Ends s answer s₁) (hf : (f answer).Ends s₁ result s') :
    (plan >>= f).Ends s result s' := by
  induction h with
  | done => exact hf
  | look _ ih => exact .look (ih hf)
  | lookBack _ ih => exact .lookBack (ih hf)
  | lookAhead _ ih => exact .lookAhead (ih hf)
  | take _ ih => exact .take (ih hf)
  | tell _ ih => exact .tell (ih hf)
  | number _ ih => exact .number (ih hf)
  | ask called _ _ ih => exact .ask called (ih hf)
  | scout called _ _ ih => exact .scout called (ih hf)

/-- A plan comes to one end at most. -/
theorem Ends.unique {plan : Plan α} {s s' s'' : ParseState} {result other : α}
    (h : plan.Ends s result s') (h' : plan.Ends s other s'') : result = other ∧ s' = s'' := by
  induction h generalizing s'' with
  | done =>
    cases h'
    exact ⟨rfl, rfl⟩
  | look _ ih =>
    cases h' with
    | look h' => exact ih h'
  | lookBack _ ih =>
    cases h' with
    | lookBack h' => exact ih h'
  | lookAhead _ ih =>
    cases h' with
    | lookAhead h' => exact ih h'
  | take _ ih =>
    cases h' with
    | take h' => exact ih h'
  | tell _ ih =>
    cases h' with
    | tell h' => exact ih h'
  | number _ ih =>
    cases h' with
    | number h' => exact ih h'
  | ask _ _ ihCalled ih =>
    cases h' with
    | ask called' h' =>
      obtain ⟨rfl, rfl⟩ := ihCalled called'
      exact ih h'
  | scout _ _ ihCalled ih =>
    cases h' with
    | scout called' h' =>
      obtain ⟨rfl, -⟩ := ihCalled called'
      exact ih h'

/-- What is left of a plan whose first part has ended. -/
theorem Ends.rest {plan : Plan α} {f : α → Plan β} {s s₁ s' : ParseState} {answer : α} {result : β}
    (h : plan.Ends s answer s₁) (hends : (plan >>= f).Ends s result s') :
    (f answer).Ends s₁ result s' := by
  induction h with
  | done => exact hends
  | look _ ih =>
    cases hends with
    | look hends => exact ih hends
  | lookBack _ ih =>
    cases hends with
    | lookBack hends => exact ih hends
  | lookAhead _ ih =>
    cases hends with
    | lookAhead hends => exact ih hends
  | take _ ih =>
    cases hends with
    | take hends => exact ih hends
  | tell _ ih =>
    cases hends with
    | tell hends => exact ih hends
  | number _ ih =>
    cases hends with
    | number hends => exact ih hends
  | ask called _ _ ih =>
    cases hends with
    | ask called' hends =>
      obtain ⟨rfl, rfl⟩ := called.unique called'
      exact ih hends
  | scout called _ _ ih =>
    cases hends with
    | scout called' hends =>
      obtain ⟨rfl, -⟩ := called.unique called'
      exact ih hends

/-- If all that a plan calls comes to an end, then so does the plan. -/
theorem exists_ends {plan : Plan α} {s : ParseState}
    (h : ∀ called, plan.Calls s called →
      ∃ answer s', called.production.plan.Ends called.state answer s') :
    ∃ result s', plan.Ends s result s' := by
  induction plan generalizing s with
  | done result => exact ⟨result, s, .done⟩
  | look next ih =>
    obtain ⟨result, s', hends⟩ := ih _ h
    exact ⟨result, s', .look hends⟩
  | lookBack next ih =>
    obtain ⟨result, s', hends⟩ := ih _ h
    exact ⟨result, s', .lookBack hends⟩
  | lookAhead next ih =>
    obtain ⟨result, s', hends⟩ := ih _ h
    exact ⟨result, s', .lookAhead hends⟩
  | take next ih =>
    obtain ⟨result, s', hends⟩ := ih h
    exact ⟨result, s', .take hends⟩
  | tell problem next ih =>
    obtain ⟨result, s', hends⟩ := ih h
    exact ⟨result, s', .tell hends⟩
  | number span next ih =>
    obtain ⟨result, s', hends⟩ := ih _ h
    exact ⟨result, s', .number hends⟩
  | ask callee next ih =>
    obtain ⟨answer, s₁, hanswer⟩ := h ⟨callee, s⟩ (.inl rfl)
    obtain ⟨result, s', hends⟩ := ih answer fun called hcalls =>
      h called (.inr ⟨answer, s₁, hanswer, hcalls⟩)
    exact ⟨result, s', .ask hanswer hends⟩
  | scout callee next ih =>
    obtain ⟨answer, s₁, hanswer⟩ := h ⟨callee, s⟩ (.inl rfl)
    obtain ⟨result, s', hends⟩ := ih answer fun called hcalls =>
      h called (.inr ⟨answer, s₁, hanswer, hcalls⟩)
    exact ⟨result, s', .scout hanswer hends⟩

/-- What a plan calls is called at a state that comes after. -/
theorem Calls.after {plan : Plan α} {s : ParseState} {called : Activation}
    (h : plan.Calls s called) : called.state.After s := by
  induction plan generalizing s with
  | done result => exact h.elim
  | look next ih | lookBack next ih | lookAhead next ih => exact ih _ h
  -- A report and a number leave what lies ahead as it was.
  | tell problem next ih => exact (ih h).trans (.refl s)
  | number span next ih => exact (ih _ h).trans (.refl s)
  | take next ih => exact (ih h).trans s.taken_after
  | ask callee next ih =>
    rcases h with rfl | ⟨answer, s', hends, h⟩
    · exact .refl _
    · exact (ih answer h).trans hends.after
  | scout callee next ih =>
    rcases h with rfl | ⟨answer, s', -, h⟩
    · exact .refl _
    · exact ih answer h

/-- What is called by one plan after another is called by the first, or by the second where the
first has ended. -/
theorem Calls.of_bind {plan : Plan α} {f : α → Plan β} {s : ParseState} {called : Activation}
    (h : (plan >>= f).Calls s called) :
    plan.Calls s called ∨ ∃ answer s', plan.Ends s answer s' ∧ (f answer).Calls s' called := by
  induction plan generalizing s with
  | done result => exact .inr ⟨result, s, .done, h⟩
  | look next ih =>
    exact (ih _ h).imp_right fun ⟨answer, s', hends, h⟩ => ⟨answer, s', .look hends, h⟩
  | lookBack next ih =>
    exact (ih _ h).imp_right fun ⟨answer, s', hends, h⟩ => ⟨answer, s', .lookBack hends, h⟩
  | lookAhead next ih =>
    exact (ih _ h).imp_right fun ⟨answer, s', hends, h⟩ => ⟨answer, s', .lookAhead hends, h⟩
  | take next ih =>
    exact (ih h).imp_right fun ⟨answer, s', hends, h⟩ => ⟨answer, s', .take hends, h⟩
  | tell problem next ih =>
    exact (ih h).imp_right fun ⟨answer, s', hends, h⟩ => ⟨answer, s', .tell hends, h⟩
  | number span next ih =>
    exact (ih _ h).imp_right fun ⟨answer, s', hends, h⟩ => ⟨answer, s', .number hends, h⟩
  | ask callee next ih =>
    rcases h with rfl | ⟨reply, s₁, hreply, h⟩
    · exact .inl (.inl rfl)
    · refine (ih reply h).imp (fun h => .inr ⟨reply, s₁, hreply, h⟩) ?_
      exact fun ⟨answer, s', hends, h⟩ => ⟨answer, s', .ask hreply hends, h⟩
  | scout callee next ih =>
    rcases h with rfl | ⟨reply, s₁, hreply, h⟩
    · exact .inl (.inl rfl)
    · refine (ih reply h).imp (fun h => .inr ⟨reply, s₁, hreply, h⟩) ?_
      exact fun ⟨answer, s', hends, h⟩ => ⟨answer, s', .scout hreply hends, h⟩

/-! ## How steps end -/

/-- Looking at the current token ends with it, in the same state. -/
theorem current_ends (s : ParseState) : current.Ends s s.current s :=
  .look .done

/-- Taking a token ends in the state after it. -/
theorem advance_ends (s : ParseState) : advance.Ends s () s.taken :=
  .take .done

/-- Asking for a kind of token ends with whether the current one is of it. -/
theorem isAt_ends (kind : TokenKind) (s : ParseState) :
    (isAt kind).Ends s (decide (s.current.kind = kind)) s :=
  .look .done

/-- A call ends as the plan of what is called does. -/
theorem ends_call {callee : Production} {s s' : ParseState} {answer : callee.Result} :
    (call callee).Ends s answer s' ↔ callee.plan.Ends s answer s' := by
  constructor
  · rintro (_ | _ | _ | _ | _ | _ | _ | ⟨called, ⟨⟩⟩)
    exact called
  · exact fun called => .ask called .done

/-- A call only calls what it names, in the state where it stands. -/
theorem calls_call {callee : Production} {s : ParseState} {called : Activation} :
    (call callee).Calls s called ↔ called = ⟨callee, s⟩ := by
  constructor
  · rintro (h | ⟨_, _, _, h⟩)
    · exact h
    · exact h.elim
  · exact .inl

section Punctuator

variable {punctuator : Punctuator} {s : ParseState}

/-- An expected punctuator that is there is taken. -/
theorem expectPunctuator_ends (h : s.current.kind = .punctuator punctuator) :
    (expectPunctuator punctuator).Ends s () s.taken := by
  refine (isAt_ends _ s).bind ?_
  rw [if_pos (decide_eq_true h)]
  exact advance_ends s

/-- Where a punctuator stands, taking it ends with its place. -/
theorem accept?_ends_of_eq (h : s.current.kind = .punctuator punctuator) :
    (accept? punctuator).Ends s (some s.current.span) s.taken := by
  refine (isAt_ends _ s).bind ?_
  rw [if_pos (decide_eq_true h)]
  exact (current_ends s).bind ((advance_ends s).bind .done)

/-- Where a punctuator does not stand, nothing is taken. -/
theorem accept?_ends_of_ne (h : s.current.kind ≠ .punctuator punctuator) :
    (accept? punctuator).Ends s none s := by
  refine (isAt_ends _ s).bind ?_
  rw [if_neg (ne_true_of_eq_false (decide_eq_false h))]
  exact .done

/-- Where a punctuator stands, it is taken and said to have been there. -/
theorem accept_ends_of_eq (h : s.current.kind = .punctuator punctuator) :
    (accept punctuator).Ends s true s.taken :=
  (accept?_ends_of_eq h).bind .done

/-- Where a punctuator does not stand, it is said not to have been there. -/
theorem accept_ends_of_ne (h : s.current.kind ≠ .punctuator punctuator) :
    (accept punctuator).Ends s false s :=
  (accept?_ends_of_ne h).bind .done

end Punctuator

/-! ## Plans that call nothing -/

/-- A plan calls nothing. -/
def Silent (plan : Plan α) : Prop :=
  ∀ s called, ¬plan.Calls s called

namespace Silent

/-- A plan that is done calls nothing. -/
theorem done (result : α) : Silent (done result) :=
  fun _ _ => id

/-- Plans that call nothing call nothing one after the other. -/
theorem bind {plan : Plan α} {f : α → Plan β} (h : Silent plan) (hf : ∀ answer, Silent (f answer)) :
    Silent (plan >>= f) := by
  intro s called hcalls
  rcases hcalls.of_bind with hcalls | ⟨answer, s', -, hcalls⟩
  · exact h s called hcalls
  · exact hf answer s' called hcalls

/-- A choice calls nothing when neither branch does. -/
theorem ite {c : Prop} [Decidable c] {p q : Plan α} (hp : Silent p) (hq : Silent q) :
    Silent (if c then p else q) := by
  split
  · exact hp
  · exact hq

end Silent

/-- Looking at the current token calls nothing. -/
theorem current_silent : Silent current :=
  fun _ _ => id

/-- Looking at the next token calls nothing. -/
theorem nextKind_silent : Silent nextKind :=
  fun _ _ => id

/-- Taking a token calls nothing. -/
theorem advance_silent : Silent advance :=
  fun _ _ => id

/-- Reporting a problem calls nothing. -/
theorem report_silent (problem : Problem) : Silent (report problem) :=
  fun _ _ => id

/-- Making a node calls nothing. -/
theorem newNode_silent (span : Span) : Silent (newNode span) :=
  fun _ _ => id

/-- Closing a node calls nothing. -/
theorem closeNode_silent (start : Nat) : Silent (closeNode start) :=
  fun _ _ => id

/-- Asking for a kind of token calls nothing. -/
theorem isAt_silent (kind : TokenKind) : Silent (isAt kind) :=
  fun _ _ => id

/-- Expecting a punctuator calls nothing. -/
theorem expectPunctuator_silent (p : Punctuator) : Silent (expectPunctuator p) :=
  (isAt_silent _).bind fun _ => .ite advance_silent (report_silent _)

/-- Taking a punctuator, if it is there, calls nothing. -/
theorem accept?_silent (p : Punctuator) : Silent (accept? p) :=
  (isAt_silent _).bind fun _ => .ite
    (current_silent.bind fun _ => advance_silent.bind fun _ => .done _) (.done _)

/-- Taking a punctuator and telling whether it was there calls nothing. -/
theorem accept_silent (p : Punctuator) : Silent (accept p) :=
  (accept?_silent p).bind fun _ => .done _

/-- Reading a name calls nothing. -/
theorem identifier_silent : Silent identifier :=
  current_silent.bind fun _ => .ite
    (advance_silent.bind fun _ => (newNode_silent _).bind fun _ => .done _)
    ((report_silent _).bind fun _ => (newNode_silent _).bind fun _ => .done _)

/-- Reading the name of a member calls nothing. -/
theorem memberName_silent : Silent memberName :=
  current_silent.bind fun _ => .ite
    (advance_silent.bind fun _ => (newNode_silent _).bind fun _ => .done _) identifier_silent

/-- A missing expression calls nothing. -/
theorem missing_silent : Silent missing :=
  (report_silent _).bind fun _ => current_silent.bind fun _ => (newNode_silent _).bind fun _ =>
    .done _

/-- A missing type calls nothing. -/
theorem missingType_silent : Silent missingType :=
  (report_silent _).bind fun _ => current_silent.bind fun _ => (newNode_silent _).bind fun _ =>
    .done _

/-- The end of a statement calls nothing. -/
theorem endStatement_silent : Silent endStatement :=
  current_silent.bind fun _ => .ite advance_silent (.ite (.done _) (report_silent _))

/-- Closing a node and making a tree of it calls nothing. -/
theorem close_silent (make : Node → α) (start : Nat) :
    Silent (do return make (← closeNode start)) :=
  (closeNode_silent start).bind fun _ => .done _

/-! ## Plans that call what has less to do -/

/-- A list in parentheses takes the opening one. -/
theorem Ends.takesFirst {callee : Production} {s s' : ParseState} {answer : callee.Result}
    (h : callee.plan.Ends s answer s') (hready : s.Ready)
    (hfirst : (⟨callee, s⟩ : Activation).TakesFirst) : s'.unread < s.unread := by
  have htaken (hkind : s.current.kind = .punctuator .openParen) (hafter : s'.After s.taken) :
      s'.unread < s.unread :=
    Nat.lt_of_le_of_lt hafter.unread_le (hready.taken_less (by simp [hkind]))
  cases callee with
  | arguments depth | parameters depth =>
    exact htaken hfirst ((expectPunctuator_ends hfirst).rest h).after
  | _ => exact hfirst.elim

/-- From a state that comes after the one in which an activation was called, a plan only calls what
has less to do than the activation. -/
def Below (plan : Plan α) (s : ParseState) (caller : Activation) : Prop :=
  caller.state.Ready → s.After caller.state →
    ∀ called, plan.Calls s called → called.measure < caller.measure

namespace Below

variable {plan p q : Plan α} {f : α → Plan β} {s : ParseState} {caller : Activation}

/-- A plan that calls nothing calls nothing that has too much to do. -/
theorem silent (h : plan.Silent) : Below plan s caller :=
  fun _ _ called hcalls => (h s called hcalls).elim

/-- Once a token was taken, all that is called has less to do. -/
theorem of_less (h : s.unread < caller.state.unread) : Below plan s caller :=
  fun _ _ _ hcalls =>
    Activation.measure_lt_of_less (Nat.lt_of_le_of_lt hcalls.after.unread_le h)

/-- Of plans in a row, the second need only be looked at where the first can end. -/
theorem bind (h : Below plan s caller)
    (hf : ∀ answer s', plan.Ends s answer s' → Below (f answer) s' caller) :
    Below (plan >>= f) s caller := by
  intro hready hafter called hcalls
  rcases hcalls.of_bind with hcalls | ⟨answer, s', hends, hcalls⟩
  · exact h hready hafter called hcalls
  · exact hf answer s' hends hready (hends.after.trans hafter) called hcalls

/-- Of a choice, each branch need only be looked at under its condition. -/
theorem ite {c : Prop} [Decidable c] (hp : c → Below p s caller) (hq : ¬c → Below q s caller) :
    Below (if c then p else q) s caller := by
  split
  · exact hp ‹_›
  · exact hq ‹_›

/-- A step is gone through. -/
theorem step (h : plan.Silent) (hf : ∀ answer s', Below (f answer) s' caller) :
    Below (plan >>= f) s caller :=
  (silent h).bind fun answer s' _ => hf answer s'

/-- After looking at the current token, a plan goes on with it. -/
theorem current {f : Token → Plan α} (h : Below (f s.current) s caller) :
    Below (Plan.current >>= f) s caller :=
  h

/-- After asking for a kind of token, a plan goes on with whether the current one is of it. -/
theorem isAt {kind : TokenKind} {f : Bool → Plan α}
    (h : Below (f (decide (s.current.kind = kind))) s caller) :
    Below (Plan.isAt kind >>= f) s caller :=
  h

/-- After a report, a plan goes on in a state with as many tokens left. -/
theorem report {problem : Problem} {f : Unit → Plan α}
    (h : Below (f ()) ((Parse.report problem).run s).2 caller) :
    Below (Plan.report problem >>= f) s caller :=
  h

/-- Where no token was taken, the plan still stands on the token of the activation. -/
theorem of_same (h : s.current = caller.state.current → Below plan s caller) :
    Below plan s caller := by
  intro hready hafter
  rcases hafter.less_or_same with hless | hsame
  · exact of_less hless hready hafter
  · exact h hsame hready hafter

/-- Where a step takes a token that is not the end of the text, there is nothing to check. -/
theorem taking {answer : α} (h : plan.Silent) (hends : plan.Ends s answer s.taken)
    (hkind : s.current.kind ≠ .endOfText) : Below (plan >>= f) s caller := by
  intro hready hafter
  have hless : s.taken.unread < s.unread := (hready.after hafter).taken_less hkind
  refine (silent h).bind (fun answer' s' hends' => ?_) hready hafter
  obtain ⟨-, rfl⟩ := hends'.unique hends
  exact of_less (Nat.lt_of_lt_of_le hless hafter.unread_le)

/-- After taking a token other than the end of the text, a plan may call anything: fewer tokens are
left. -/
theorem advance {f : Unit → Plan α} (h : s.current.kind ≠ .endOfText) :
    Below (Plan.advance >>= f) s caller :=
  taking advance_silent (advance_ends s) h

/-- After taking an expected punctuator that is there, a plan may call anything. -/
theorem expectPunctuator {punctuator : Punctuator} {f : Unit → Plan α}
    (h : s.current.kind = .punctuator punctuator) :
    Below (Plan.expectPunctuator punctuator >>= f) s caller :=
  taking (expectPunctuator_silent _) (expectPunctuator_ends h) (by simp [h])

/-- Where a punctuator may be taken, only the case that it is not there needs to be looked at. -/
theorem accept? {punctuator : Punctuator} {f : Option Span → Plan α}
    (h : Below (f none) s caller) : Below (Plan.accept? punctuator >>= f) s caller := by
  by_cases hkind : s.current.kind = .punctuator punctuator
  · exact taking (accept?_silent punctuator) (accept?_ends_of_eq hkind) (by simp [hkind])
  · refine (silent (accept?_silent punctuator)).bind fun mark s' hends => ?_
    obtain ⟨rfl, rfl⟩ := hends.unique (accept?_ends_of_ne hkind)
    exact h

/-- Where a punctuator may be taken and is told to be there, only the other case needs to be looked
at. -/
theorem accept {punctuator : Punctuator} {f : Bool → Plan α}
    (h : Below (f false) s caller) : Below (Plan.accept punctuator >>= f) s caller := by
  by_cases hkind : s.current.kind = .punctuator punctuator
  · exact taking (accept_silent punctuator) (accept_ends_of_eq hkind) (by simp [hkind])
  · refine (silent (accept_silent punctuator)).bind fun found s' hends => ?_
    obtain ⟨rfl, rfl⟩ := hends.unique (accept_ends_of_ne hkind)
    exact h

/-- A production may end with a call of one that stands above it. -/
theorem last {callee : Production} (habove : callee.above caller.production = true)
    (hlate : ¬caller.TakesFirst) : Below (call callee) s caller := by
  intro hready hafter called hcalls
  rw [calls_call.mp hcalls]
  exact Activation.measure_lt_of_place hafter.unread_le
    (Activation.place_lt hlate (of_decide_eq_true habove))

/-- A production may call one that stands above it. -/
theorem call {callee : Production} {f : callee.Result → Plan α}
    (habove : callee.above caller.production = true) (hlate : ¬caller.TakesFirst)
    (hf : ∀ answer s', Below (f answer) s' caller) : Below (Plan.call callee >>= f) s caller :=
  (last habove hlate).bind fun answer s' _ => hf answer s'

/-- A production may look ahead by one that stands above it. -/
theorem scout {callee : Production} {f : callee.Result → Plan α}
    (habove : callee.above caller.production = true) (hlate : ¬caller.TakesFirst)
    (hf : ∀ answer, Below (f answer) s caller) :
    Below (Plan.scout callee Plan.done >>= f) s caller := by
  rintro hready hafter called (rfl | ⟨answer, -, -, hcalls⟩)
  · exact Activation.measure_lt_of_place hafter.unread_le
      (Activation.place_lt hlate (of_decide_eq_true habove))
  · exact hf answer hready hafter called hcalls

/-- A list in parentheses may be called at the opening one by all other productions, and a token was
taken when it comes back. -/
theorem opening {callee : Production} {f : callee.Result → Plan α}
    (hfirst : (⟨callee, s⟩ : Activation).TakesFirst) (hlate : ¬caller.TakesFirst) :
    Below (Plan.call callee >>= f) s caller := by
  intro hready hafter
  have hcall : Below (Plan.call callee) s caller := by
    intro _ _ called hcalls
    rw [calls_call.mp hcalls]
    exact Activation.measure_lt_of_place hafter.unread_le
      (Activation.place_lt_of_first hfirst hlate)
  refine hcall.bind (fun answer s' hends => of_less ?_) hready hafter
  have hless := (ends_call.mp hends).takesFirst (hready.after hafter) hfirst
  exact Nat.lt_of_lt_of_le hless hafter.unread_le

end Below

/-! ## What productions call -/

section Productions

variable (s : ParseState)

/-- What an arrow is followed by comes after the arrow has been taken. -/
theorem arrow_below (depth : Nat) : Below (arrow depth) s ⟨.arrow depth, s⟩ := by
  refine .current ?_
  split
  · exact .silent (.done _)
  · exact .advance (by simp [*])
  · exact .advance (by simp [*])
  · exact .advance ‹_›

/-- The type of an annotation comes after the colon has been taken. -/
theorem optionalType_below (depth : Nat) : Below (optionalType depth) s ⟨.optionalType depth, s⟩ :=
  .accept <| .silent (.done _)

/-- The parts of a parameter come after a token has been taken, or have a lower place. -/
theorem parameter_below (depth : Nat) : Below (parameter depth) s ⟨.parameter depth, s⟩ :=
  .current <| .accept? <| .step identifier_silent fun _ _ => .accept <|
    .call rfl id fun _ _ => .silent (close_silent _ _)

/-- Each further parameter has less to do: it has a lower place, or comes after a token has been
taken. -/
theorem parametersTail_below (depth : Nat) (afterRest : Bool) :
    Below (parametersTail depth afterRest) s ⟨.parametersTail depth afterRest, s⟩ := by
  have hround {s' : ParseState} : Below
      (do
        let first ← call (.parameter depth)
        if ← accept .comma then return first :: (← call (.parametersTail depth first.isRest))
        else return [first])
      s' ⟨.parametersTail depth afterRest, s⟩ :=
    .call rfl id fun _ _ => .accept <| .silent (.done _)
  refine .isAt <| .isAt <| .ite (fun _ => .silent (.done _)) fun _ => ?_
  cases afterRest with
  | false => exact hround
  | true => exact .step (report_silent _) fun _ _ => hround

/-- The parameters come after the opening parenthesis has been taken, or have a lower place. -/
theorem parameters_below (depth : Nat) : Below (parameters depth) s ⟨.parameters depth, s⟩ := by
  by_cases hkind : s.current.kind = .punctuator .openParen
  · exact .expectPunctuator hkind
  · exact .step (expectPunctuator_silent _) fun _ _ => .call rfl hkind fun _ _ =>
      .silent ((expectPunctuator_silent _).bind fun _ => .done _)

/-- The parts of a member come after a token has been taken, or have a lower place. -/
theorem element_below (depth : Nat) : Below (element depth) s ⟨.element depth, s⟩ :=
  .current <| .step memberName_silent fun _ _ => .accept <| .isAt <| .ite
    (fun _ => .call rfl id fun _ _ => .call rfl id fun _ _ => .silent (close_silent _ _))
    (fun _ => .call rfl id fun _ _ => .silent (close_silent _ _))

/-- Each further member has less to do: it has a lower place, or comes after a token has been
taken. -/
theorem elementsTail_below (depth : Nat) : Below (elementsTail depth) s ⟨.elementsTail depth, s⟩ := by
  refine .isAt <| .isAt <| .ite (fun _ => .silent (.done _)) fun hgoes => ?_
  have hkind : s.current.kind ≠ .endOfText := by
    rintro hend
    simp [hend] at hgoes
  -- A member that takes nothing stands before the token it was called at, which is then passed over.
  have hmoves {first : TypeElement} {s' : ParseState} : Below
      (do
        if (← Plan.current).span.start = s.current.span.start then Plan.advance
        return first :: (← call (.elementsTail depth)))
      s' ⟨.elementsTail depth, s⟩ :=
    .of_same fun hsame => .current <| .ite (fun _ => .advance (hsame ▸ hkind)) fun hmoved =>
      absurd (congrArg (·.span.start) hsame) hmoved
  exact .current <| .call rfl id fun _ _ => .accept <| .accept hmoves

/-- The members come after the opening brace has been taken, or have a lower place. -/
theorem elements_below (depth : Nat) : Below (elements depth) s ⟨.elements depth, s⟩ :=
  .step (expectPunctuator_silent _) fun _ _ => .call rfl id fun _ _ =>
    .silent ((expectPunctuator_silent _).bind fun _ => .done _)

/-- The types in a primary type come after a token has been taken, or have a lower place. -/
theorem primaryType_below (depth : Nat) : Below (primaryType depth) s ⟨.primaryType depth, s⟩ := by
  refine .current ?_
  simp only
  split
  · exact .silent (advance_silent.bind fun _ => (newNode_silent _).bind fun _ => .done _)
  · exact .silent (advance_silent.bind fun _ => (newNode_silent _).bind fun _ => close_silent _ _)
  · refine .ite (fun _ => ?_) fun _ => .ite (fun hopen => ?_) fun _ => .silent ?_
    · exact .call rfl id fun _ _ => .silent (close_silent _ _)
    · refine .scout rfl id fun _ => .ite (fun _ => .opening hopen id) fun _ => .advance ?_
      simp [hopen]
    · exact .ite (identifier_silent.bind fun _ => close_silent _ _) missingType_silent

/-- Further brackets come after a pair has been taken. -/
theorem arrayTail_below (start : Nat) (inner : TypeNode) :
    Below (arrayTail start inner) s ⟨.arrayTail start inner, s⟩ := by
  refine .current <| .ite (fun hopen => .advance ?_) fun _ => .silent (.done _)
  rw [Bool.and_eq_true, decide_eq_true_eq] at hopen
  simp [hopen.1]

/-- The parts of an array type have a lower place. -/
theorem arrayType_below (depth : Nat) : Below (arrayType depth) s ⟨.arrayType depth, s⟩ :=
  .current <| .call rfl id fun _ _ => .last rfl id

/-- A further member of a union comes after the bar has been taken. -/
theorem unionTail_below (depth : Nat) : Below (unionTail depth) s ⟨.unionTail depth, s⟩ :=
  .accept <| .silent (.done _)

/-- The parts of a union have a lower place. -/
theorem unionType_below (depth : Nat) : Below (unionType depth) s ⟨.unionType depth, s⟩ :=
  .current <| .accept <| .call rfl id fun _ _ => .call rfl id fun _ _ =>
    .silent (.ite (.done _) (close_silent _ _))

/-- The union that is read for a type has a lower place. -/
theorem typeNode_below (depth : Nat) : Below (typeNode depth) s ⟨.typeNode depth, s⟩ := by
  cases depth with
  | zero => exact .silent missingType_silent
  | succ depth => exact .last rfl id

/-- The expressions in a primary expression come after a token has been taken, or have a lower
place. -/
theorem primary_below (depth : Nat) : Below (primary depth) s ⟨.primary depth, s⟩ := by
  refine .current <| .ite (fun _ => .silent (identifier_silent.bind fun _ => .done _)) fun _ => ?_
  split
  · exact .silent (advance_silent.bind fun _ => (newNode_silent _).bind fun _ => .done _)
  · exact .accept <| .silent missing_silent

/-- What follows an access comes after a token has been taken. -/
theorem accessTail_below (depth : Nat) (e : Expr) :
    Below (accessTail depth e) s ⟨.accessTail depth e, s⟩ := by
  refine .accept <| .accept <| .isAt <| .ite (fun hopen => ?_) fun _ => .silent (.done _)
  have hkind : s.current.kind = .punctuator .openParen := of_decide_eq_true hopen
  exact .opening hkind id

/-- The parts of an access have a lower place. -/
theorem access_below (depth : Nat) : Below (access depth) s ⟨.access depth, s⟩ :=
  .call rfl id fun _ _ => .last rfl id

/-- The operand of an operator in front comes after the operator has been taken, and an access has a
lower place. -/
theorem unary_below (depth : Nat) : Below (unary depth) s ⟨.unary depth, s⟩ := by
  refine .current ?_
  split
  · exact .last rfl id
  · exact .silent missing_silent
  · exact .advance (UnaryOp.ne_endOfText ‹_›)

/-- A right operand comes after the operator has been taken. -/
theorem binaryTail_below (depth : Nat) (bound : Precedence) (left : Expr) :
    Below (binaryTail depth bound left) s ⟨.binaryTail depth bound left, s⟩ := by
  refine .current ?_
  split
  · exact .silent (.done _)
  · exact .ite (fun _ => .advance (BinaryOp.ne_endOfText ‹_›)) fun _ => .silent (.done _)

/-- The operands that are joined by operators have a lower place. -/
theorem binary_below (depth : Nat) (bound : Precedence) :
    Below (binary depth bound) s ⟨.binary depth bound, s⟩ :=
  .call rfl id fun _ _ => .last rfl id

/-- The branches of a choice come after the question mark has been taken, and its condition has a
lower place. -/
theorem conditional_below (depth : Nat) : Below (conditional depth) s ⟨.conditional depth, s⟩ :=
  .call rfl id fun _ _ => .accept <| .silent (.done _)

/-- The value of an assignment comes after the operator has been taken, and its target has a lower
place. -/
theorem assignment_below (depth : Nat) : Below (assignment depth) s ⟨.assignment depth, s⟩ := by
  cases depth with
  | zero => exact .silent missing_silent
  | succ depth => exact .call rfl id fun _ _ => .accept? <| .silent (.done _)

/-- Each further argument has less to do: it has a lower place, or comes after a token has been
taken. -/
theorem argumentsTail_below (depth : Nat) :
    Below (argumentsTail depth) s ⟨.argumentsTail depth, s⟩ :=
  .isAt <| .isAt <| .ite (fun _ => .silent (.done _)) fun _ => .call rfl id fun _ _ =>
    .accept <| .silent (.done _)

/-- The arguments come after the opening parenthesis has been taken, or have a lower place. -/
theorem arguments_below (depth : Nat) : Below (arguments depth) s ⟨.arguments depth, s⟩ := by
  by_cases hkind : s.current.kind = .punctuator .openParen
  · exact .expectPunctuator hkind
  · exact .step (expectPunctuator_silent _) fun _ _ => .call rfl hkind fun _ _ =>
      .silent ((expectPunctuator_silent _).bind fun _ => .done _)

/-- The parts of a variable declaration come after a token has been taken, or have a lower place. -/
theorem variableDeclaration_below : Below variableDeclaration s ⟨.variableDeclaration, s⟩ :=
  .current <| .step identifier_silent fun _ _ => .call rfl id fun _ _ => .accept <|
    .silent (close_silent _ _)

/-- A further variable declaration comes after the comma has been taken. -/
theorem variablesTail_below : Below variablesTail s ⟨.variablesTail, s⟩ :=
  .call rfl id fun _ _ => .accept <| .silent (.done _)

/-- The declarations of a variable statement come after the word that starts it. -/
theorem variableStatement_below (start : Nat) (ambient : Bool) (form : VariableForm) :
    Below (variableStatement start ambient form) s ⟨.variableStatement start ambient form, s⟩ :=
  .current <| .step advance_silent fun _ _ => .call rfl id fun _ _ => .silent <|
    (closeNode_silent _).bind fun _ => endStatement_silent.bind fun _ => close_silent _ _

/-- The parts of a function declaration come after the word that starts it. -/
theorem functionDeclaration_below (start : Nat) (ambient : Bool) :
    Below (functionDeclaration start ambient) s ⟨.functionDeclaration start ambient, s⟩ :=
  .step advance_silent fun _ _ => .step identifier_silent fun _ _ => .call rfl id fun _ _ =>
    .call rfl id fun _ _ => .silent (endStatement_silent.bind fun _ => close_silent _ _)

/-- The members of an interface come after the word that starts it. -/
theorem interfaceDeclaration_below (start : Nat) :
    Below (interfaceDeclaration start) s ⟨.interfaceDeclaration start, s⟩ :=
  .step advance_silent fun _ _ => .step identifier_silent fun _ _ => .call rfl id fun _ _ =>
    .silent (close_silent _ _)

/-- The type of an alias comes after the word that starts it. -/
theorem aliasDeclaration_below (start : Nat) :
    Below (aliasDeclaration start) s ⟨.aliasDeclaration start, s⟩ :=
  .step advance_silent fun _ _ => .step identifier_silent fun _ _ =>
    .step (expectPunctuator_silent _) fun _ _ => .call rfl id fun _ _ =>
    .silent (endStatement_silent.bind fun _ => close_silent _ _)

/-- The expression of an expression statement has a lower place. -/
theorem expressionStatement_below : Below expressionStatement s ⟨.expressionStatement, s⟩ :=
  .current <| .call rfl id fun _ _ => .silent <| endStatement_silent.bind fun _ => close_silent _ _

/-- Each kind of declaration has a lower place than the choice between them. -/
theorem declaration_below (start : Nat) (ambient : Bool) :
    Below (declaration start ambient) s ⟨.declaration start ambient, s⟩ := by
  refine .current ?_
  split
  · exact .last rfl id
  · exact .last rfl id
  · exact .step nextKind_silent fun _ _ => .ite (fun _ => .last rfl id) fun _ => .last rfl id
  · exact .last rfl id
  · exact .step nextKind_silent fun _ _ => .ite (fun _ => .last rfl id) fun _ => .last rfl id
  · exact .step nextKind_silent fun _ _ => .ite (fun _ => .last rfl id) fun _ => .last rfl id
  · exact .last rfl id

/-- The parts of a statement come after a token has been taken, or have a lower place. -/
theorem statement_below : Below statement s ⟨.statement, s⟩ := by
  refine .current ?_
  simp only
  split
  · exact .silent (advance_silent.bind fun _ => (newNode_silent _).bind fun _ => .done _)
  · exact .advance (by simp [*])
  · exact .step nextKind_silent fun _ _ => .ite
      (fun _ => .step advance_silent fun _ _ => .last rfl id) fun _ => .last rfl id
  · exact .last rfl id

/-- Each further statement has less to do: it has a lower place, or comes after a token has been
taken. -/
theorem statements_below : Below statements s ⟨.statements, s⟩ := by
  refine .isAt <| .isAt <| .ite (fun _ => .silent (.done _)) fun hgoes => ?_
  have hkind : s.current.kind ≠ .endOfText := by
    rintro hend
    simp [hend] at hgoes
  refine .current <| .call rfl id fun first s' => .of_same fun hsame => .current <| .ite
    (fun _ => .report <| .advance (hsame ▸ hkind)) fun hmoved => absurd ?_ hmoved
  simp [hsame, hkind]

/-- The expression that a text consists of has a lower place. -/
theorem wholeExpression_below : Below wholeExpression s ⟨.wholeExpression, s⟩ :=
  .call rfl id fun _ _ => .silent <| current_silent.bind fun _ => .ite (.done _) <|
    (report_silent _).bind fun _ => .done _

/-- The statements that a file consists of have a lower place. -/
theorem wholeFile_below (name : String) (text : List Char) :
    Below (wholeFile name text) s ⟨.wholeFile name text, s⟩ :=
  .call rfl id fun _ _ => .silent <| (newNode_silent _).bind fun _ => .done _

end Productions

/-- Whatever a production calls has less to do. -/
theorem plan_below (callee : Production) (s : ParseState) : Below callee.plan s ⟨callee, s⟩ := by
  cases callee with
  | arrow depth => exact arrow_below s depth
  | optionalType depth => exact optionalType_below s depth
  | parameter depth => exact parameter_below s depth
  | parametersTail depth afterRest => exact parametersTail_below s depth afterRest
  | parameters depth => exact parameters_below s depth
  | element depth => exact element_below s depth
  | elementsTail depth => exact elementsTail_below s depth
  | elements depth => exact elements_below s depth
  | primaryType depth => exact primaryType_below s depth
  | arrayTail start inner => exact arrayTail_below s start inner
  | arrayType depth => exact arrayType_below s depth
  | unionTail depth => exact unionTail_below s depth
  | unionType depth => exact unionType_below s depth
  | typeNode depth => exact typeNode_below s depth
  | primary depth => exact primary_below s depth
  | accessTail depth e => exact accessTail_below s depth e
  | access depth => exact access_below s depth
  | unary depth => exact unary_below s depth
  | binaryTail depth bound left => exact binaryTail_below s depth bound left
  | binary depth bound => exact binary_below s depth bound
  | conditional depth => exact conditional_below s depth
  | assignment depth => exact assignment_below s depth
  | argumentsTail depth => exact argumentsTail_below s depth
  | arguments depth => exact arguments_below s depth
  | variableDeclaration => exact variableDeclaration_below s
  | variablesTail => exact variablesTail_below s
  | variableStatement start ambient form => exact variableStatement_below s start ambient form
  | functionDeclaration start ambient => exact functionDeclaration_below s start ambient
  | interfaceDeclaration start => exact interfaceDeclaration_below s start
  | aliasDeclaration start => exact aliasDeclaration_below s start
  | expressionStatement => exact expressionStatement_below s
  | declaration start ambient => exact declaration_below s start ambient
  | statement => exact statement_below s
  | statements => exact statements_below s
  | wholeExpression => exact wholeExpression_below s
  | wholeFile name text => exact wholeFile_below s name text

end Plan

namespace Activation

variable {a b c : Activation}

/-- What an activation calls has less to do than itself, if the text ends. -/
theorem Calls.measure_lt (h : a.Calls b) (hready : a.state.Ready) : b.measure < a.measure :=
  Plan.plan_below a.production a.state hready (.refl _) b h

/-- What an activation calls is called in a later state. -/
theorem Calls.after (h : a.Calls b) : b.state.After a.state :=
  Plan.Calls.after h

/-- What is called directly or through others stands at a state that comes after. -/
theorem after_of_reaches (h : Relation.ReflTransGen Calls a b) : b.state.After a.state := by
  induction h with
  | refl => exact .refl _
  | tail _ hcalls ih => exact hcalls.after.trans ih

/-- Whatever an activation reaches by calls has less to do than itself. -/
theorem measure_lt_of_reaches (h : Relation.TransGen Calls a b) (hready : a.state.Ready) :
    b.measure < a.measure := by
  induction h with
  | single hcalls => exact hcalls.measure_lt hready
  | tail hreaches hcalls ih =>
    exact (hcalls.measure_lt (hready.after (after_of_reaches hreaches.to_reflTransGen))).trans ih

/-- A production that comes to call itself has taken a token before. -/
theorem unread_lt_of_cycle (h : Relation.TransGen Calls a b) (hready : a.state.Ready)
    (hsame : b.production.ctorIdx = a.production.ctorIdx) : b.state.unread < a.state.unread := by
  have hafter := after_of_reaches h.to_reflTransGen
  rcases Prod.Lex.toLex_lt_toLex.mp (measure_lt_of_reaches h hready) with hless | ⟨hunread, hplace⟩
  · exact hless
  -- On one token, both or none of the two activations take an opening parenthesis first.
  · have hfirst : b.TakesFirst ↔ a.TakesFirst := by
      rw [takesFirst_iff, takesFirst_iff, hsame, hafter.current_eq hunread]
    simp only [place, hfirst, hsame] at hplace
    exact absurd hplace (Nat.lt_irrefl _)

/-- Calls that go on from a state before the end of a text come to an end. -/
theorem acc (a : Activation) (hready : a.state.Ready) :
    Acc (fun called caller => Calls caller called) a := by
  induction a using (measure_wf).induction with
  | _ a ih =>
    exact ⟨a, fun b hcalls => ih b (hcalls.measure_lt hready) (hready.after hcalls.after)⟩

/-- Every activation on a text that ends comes to an end, by induction on what is left to do. -/
theorem exists_ends (a : Activation) (hready : a.state.Ready) :
    ∃ result s', a.production.plan.Ends a.state result s' := by
  induction a using (measure_wf).induction with
  | _ a ih =>
    exact Plan.exists_ends fun b hcalls =>
      ih b (Calls.measure_lt hcalls hready) (hready.after (Calls.after hcalls))

end Activation

/-- A parse that is called in a state comes to an end, and this can be told from the calls alone. -/
structure Activation.Terminates (a : Activation) : Prop where
  /-- Whatever is called while the parse runs leaves fewer tokens unread than its caller, or as many
  and stands above it in the order of calls. -/
  descends : ∀ b c, Relation.ReflTransGen Calls a b → b.Calls c → c.measure < b.measure
  /-- From one round of a loop to the next, and along every cycle of calls, a token is taken. -/
  progresses : ∀ b c, Relation.ReflTransGen Calls a b → Relation.TransGen Calls b c →
    c.production.ctorIdx = b.production.ctorIdx → c.state.unread < b.state.unread
  /-- There is no infinite sequence of calls. -/
  finite : Acc (fun called caller => Calls caller called) a
  /-- The parse comes to exactly one end. -/
  ends : ∃! outcome : a.production.Result × ParseState,
    a.production.plan.Ends a.state outcome.1 outcome.2

/-- Every activation on a text that ends terminates: calls descend and there is a result. -/
theorem Activation.terminates (a : Activation) (hready : a.state.Ready) : a.Terminates where
  descends b c hreaches hcalls :=
    hcalls.measure_lt (hready.after (after_of_reaches hreaches))
  progresses b c hreaches hcycle hsame :=
    unread_lt_of_cycle hcycle (hready.after (after_of_reaches hreaches)) hsame
  finite := a.acc hready
  ends := by
    obtain ⟨result, s', hends⟩ := a.exists_ends hready
    refine ⟨(result, s'), hends, fun other hother => ?_⟩
    obtain ⟨hresult, hstate⟩ := hother.unique hends
    exact Prod.ext hresult hstate

end ExpressionTyping
