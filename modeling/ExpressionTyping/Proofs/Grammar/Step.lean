import ExpressionTyping.Grammar.State
import ExpressionTyping.Proofs.Syntax.Reading

/-!
# What one step of a parse does

A parse moves over the tokens that lie ahead of it. For each step this file says where it ends and
what it gives (the `_run` lemmas), and what follows when it reports nothing (the `_quiet` lemmas).

Reports are never taken back, so a parse that reports nothing did so in none of its steps. `Quiet`
puts the two facts together, and `Quiet.bind` is the rule that lets a postcondition of a parse be
found by going through its steps in order. The postconditions speak of `Took`: the tokens that were
taken between two states.
-/

set_option autoImplicit false

namespace ExpressionTyping

namespace ParseState

/-- The tokens from the current one on. -/
def ahead (s : ParseState) : List Token :=
  s.current :: s.upcoming

/-- The state after the current token is taken. -/
def taken (s : ParseState) : ParseState :=
  (Parse.advance.run s).2

/-- The state after a node is numbered. -/
def numbered (s : ParseState) : ParseState :=
  { s with nextId := s.nextId + 1 }

/-- Giving a number reports nothing. -/
@[simp] theorem numbered_issues (s : ParseState) : s.numbered.issues = s.issues := rfl

/-- Taking a token reports nothing. -/
@[simp] theorem taken_issues (s : ParseState) : s.taken.issues = s.issues := by
  obtain ⟨current, upcoming, previousStop, nextId, issues⟩ := s
  cases upcoming <;> rfl

/-- After a token is taken, it is the one that ended last. -/
@[simp] theorem taken_previousStop (s : ParseState) :
    s.taken.previousStop = s.current.span.stop := by
  obtain ⟨current, upcoming, previousStop, nextId, issues⟩ := s
  cases upcoming <;> rfl

/-- Taking a token leaves those after it ahead. -/
theorem taken_ahead {s : ParseState} {token : Token} {rest : List Token}
    (h : s.ahead = token :: rest) (hrest : rest ≠ []) : s.taken.ahead = rest := by
  obtain ⟨current, upcoming, previousStop, nextId, issues⟩ := s
  obtain ⟨rfl, rfl⟩ := List.cons.inj h
  cases upcoming with
  | nil => exact absurd rfl hrest
  | cons next upcoming => rfl

/-- The current token is the first of those ahead. -/
theorem current_of_ahead {s : ParseState} {token : Token} {rest : List Token}
    (h : s.ahead = token :: rest) : s.current = token :=
  (List.cons.inj h).1

/-! ## The tokens between two states -/

/-- Between two states a list of tokens was taken, and the later state knows where it ended. -/
structure Took (s : ParseState) (tokens : List Token) (s' : ParseState) : Prop where
  ahead : s.ahead = tokens ++ s'.ahead
  previousStop : s'.previousStop = (tokens.getLast?.map (·.span.stop)).getD s.previousStop

/-- Between a state and itself no tokens were taken. -/
theorem Took.refl (s : ParseState) : s.Took [] s :=
  ⟨rfl, rfl⟩

/-- Tokens taken up to a state and those taken from it on were taken in a row. -/
theorem Took.trans {s s' s'' : ParseState} {first second : List Token} (h : s.Took first s')
    (h' : s'.Took second s'') : s.Took (first ++ second) s'' := by
  constructor
  · rw [h.ahead, h'.ahead, List.append_assoc]
  · rw [h'.previousStop, h.previousStop, List.getLast?_append]
    cases second.getLast? <;> rfl

/-- Where tokens were taken, the first of them was the current one. -/
theorem Took.current {s s' : ParseState} {token : Token} {tokens : List Token}
    (h : s.Took (token :: tokens) s') : s.current = token :=
  current_of_ahead h.ahead

/-- A node over the tokens taken last may be numbered at any time. -/
theorem Took.numbered {s s' : ParseState} {tokens : List Token} (h : s.Took tokens s') :
    s.Took tokens s'.numbered :=
  ⟨h.ahead, h.previousStop⟩

/-- What lies ahead are genuine tokens and then the end of the text. -/
def Ready (s : ParseState) : Prop :=
  ∃ tokens final, s.ahead = tokens ++ [final] ∧ final.kind = .endOfText ∧
    (∀ token ∈ tokens, token.kind ≠ .endOfText) ∧ ∀ token ∈ tokens, token.Genuine

/-- Taking tokens leaves genuine tokens and the end of the text ahead. -/
theorem Ready.took {s s' : ParseState} {tokens : List Token} (h : s.Ready)
    (htook : s.Took tokens s') : s'.Ready := by
  obtain ⟨all, final, hahead, hfinal, hordinary, hgenuine⟩ := h
  rw [htook.ahead, List.append_eq_append_iff] at hahead
  rcases hahead with ⟨middle, rfl, hmiddle⟩ | ⟨middle, rfl, hmiddle⟩
  · refine ⟨middle, final, hmiddle, hfinal, fun token h => ?_, fun token h => ?_⟩
    · exact hordinary token (List.mem_append_right tokens h)
    · exact hgenuine token (List.mem_append_right tokens h)
  -- Nothing is left ahead of the end, so the tokens taken are all the others.
  · have hnil : middle = [] := by
      rcases List.append_eq_singleton_iff.mp hmiddle.symm with ⟨h, -⟩ | ⟨-, h⟩
      · exact h
      · exact absurd h (List.cons_ne_nil _ _)
    subst hnil
    exact ⟨[], final, hmiddle.symm, hfinal, by simp, by simp⟩

/-- A current token before the end of the text is genuine. -/
theorem Ready.genuine {s : ParseState} (h : s.Ready) (hkind : s.current.kind ≠ .endOfText) :
    s.current.Genuine := by
  obtain ⟨tokens, final, hahead, hfinal, -, hgenuine⟩ := h
  cases tokens with
  | nil => exact absurd (current_of_ahead hahead ▸ hfinal) hkind
  | cons token tokens =>
    rw [current_of_ahead hahead]
    exact hgenuine token List.mem_cons_self

/-- The current token is taken, unless it is the end of the text. -/
theorem Ready.took_taken {s : ParseState} (h : s.Ready) (hkind : s.current.kind ≠ .endOfText) :
    s.Took [s.current] s.taken := by
  obtain ⟨tokens, final, hahead, hfinal, -⟩ := h
  cases tokens with
  | nil => exact absurd (current_of_ahead hahead ▸ hfinal) hkind
  | cons token tokens =>
    refine ⟨?_, s.taken_previousStop⟩
    rw [taken_ahead hahead (by simp), hahead, current_of_ahead hahead]
    rfl

/-- Taking a token leaves genuine tokens and the end of the text ahead. -/
theorem Ready.taken {s : ParseState} (h : s.Ready) : s.taken.Ready := by
  by_cases hkind : s.current.kind = .endOfText
  · obtain ⟨current, upcoming, previousStop, nextId, issues⟩ := s
    obtain ⟨tokens, final, hahead, hfinal, hordinary, hgenuine⟩ := h
    cases tokens with
    | nil =>
      obtain ⟨rfl, rfl⟩ := List.cons.inj hahead
      exact ⟨[], current, rfl, hfinal, by simp, by simp⟩
    | cons token tokens =>
      exact absurd (current_of_ahead hahead ▸ hkind) (hordinary token List.mem_cons_self)
  · exact h.took (h.took_taken hkind)

/-- A punctuator that is taken is the only token taken, and it is the mark of its kind. -/
theorem Ready.took_punctuator {s : ParseState} {p : Punctuator} (h : s.Ready)
    (hkind : s.current.kind = .punctuator p) :
    s.Took [s.current] s.taken ∧ s.current.IsMark (.punctuator p) := by
  have hordinary : s.current.kind ≠ .endOfText := by simp [hkind]
  exact ⟨h.took_taken hordinary, (h.genuine hordinary).content_of_punctuator hkind⟩

end ParseState

namespace Parse

variable {α β : Type}

/-! ## Where a step ends -/

/-- At the start, all tokens are ahead. -/
theorem initial_ahead {tokens : List Token} (h : tokens ≠ []) : (initial tokens).ahead = tokens := by
  cases tokens with
  | nil => exact absurd rfl h
  | cons token rest => rfl

/-- At the start, nothing is reported. -/
theorem initial_issues (tokens : List Token) : (initial tokens).issues = [] := by
  cases tokens <;> rfl

/-- A parse after another runs from the state that the first one leaves. -/
theorem run_bind (p : Parse α) (f : α → Parse β) (s : ParseState) :
    (p >>= f).run s = (f (p.run s).1).run (p.run s).2 := rfl

/-- A run of looking at the current token gives it. -/
theorem current_run (s : ParseState) : current.run s = (s.current, s) := rfl

/-- A run of counting the tokens ahead gives their number. -/
theorem remaining_run (s : ParseState) : remaining.run s = (s.ahead.length, s) := rfl

/-- A run of taking a token leaves the state after it. -/
theorem advance_run (s : ParseState) : advance.run s = ((), s.taken) := rfl

/-- A run of closing a node gives it the next number and ends it where the token taken last
stopped. -/
theorem closeNode_run (start : Nat) (s : ParseState) :
    (closeNode start).run s = (⟨s.nextId, ⟨start, s.previousStop⟩⟩, s.numbered) := rfl

/-- A run of making a node gives it the next number. -/
theorem newNode_run (span : Span) (s : ParseState) :
    (newNode span).run s = (⟨s.nextId, span⟩, s.numbered) := rfl

/-- A run of asking for a kind of token compares it with that of the current one. -/
theorem isAt_run (kind : TokenKind) (s : ParseState) :
    (isAt kind).run s = (decide (s.current.kind = kind), s) := rfl

/-- Where a punctuator stands, a run of taking it gives its place. -/
theorem accept?_run_of_eq {p : Punctuator} {s : ParseState} (h : s.current.kind = .punctuator p) :
    (accept? p).run s = (some s.current.span, s.taken) := by
  rw [accept?, isAtPunctuator, run_bind, isAt_run, decide_eq_true h]
  rfl

/-- Where a punctuator does not stand, a run of taking it gives nothing and changes nothing. -/
theorem accept?_run_of_ne {p : Punctuator} {s : ParseState} (h : s.current.kind ≠ .punctuator p) :
    (accept? p).run s = (none, s) := by
  rw [accept?, isAtPunctuator, run_bind, isAt_run, decide_eq_false h]
  rfl

/-- Where a punctuator stands, a run of taking it says so. -/
theorem accept_run_of_eq {p : Punctuator} {s : ParseState} (h : s.current.kind = .punctuator p) :
    (accept p).run s = (true, s.taken) := by
  rw [accept, run_bind, accept?_run_of_eq h]
  rfl

/-- Where a punctuator does not stand, a run of taking it says so and changes nothing. -/
theorem accept_run_of_ne {p : Punctuator} {s : ParseState} (h : s.current.kind ≠ .punctuator p) :
    (accept p).run s = (false, s) := by
  rw [accept, run_bind, accept?_run_of_ne h]
  rfl

/-- An expected punctuator that is there is taken and nothing is reported. -/
theorem expectPunctuator_run {p : Punctuator} {s : ParseState}
    (h : s.current.kind = .punctuator p) : (expectPunctuator p).run s = ((), s.taken) := by
  rw [expectPunctuator, expect, run_bind, isAt_run, decide_eq_true h]
  rfl

/-- Where a name stands, a run of reading one takes it as it is. -/
theorem identifier_run {s : ParseState} (h : s.current.kind.isName = true) :
    identifier.run s = (⟨⟨s.taken.nextId, s.current.span⟩, s.current.value⟩, s.taken.numbered) := by
  rw [identifier, run_bind, current_run, if_pos h]
  rfl

/-- Where a word stands, a run of reading the name of a member takes it as it is. -/
theorem memberName_run {s : ParseState}
    (h : s.current.kind.isKeyword = true ∨ s.current.kind.isName = true) :
    memberName.run s = (⟨⟨s.taken.nextId, s.current.span⟩, s.current.value⟩, s.taken.numbered) := by
  by_cases hkeyword : s.current.kind.isKeyword = true
  · rw [memberName, run_bind, current_run, if_pos hkeyword]
    rfl
  · rw [memberName, run_bind, current_run, if_neg hkeyword]
    exact identifier_run (h.resolve_left hkeyword)

/-! ## Runs that report nothing -/

/-- A run of a parse from a state with genuine tokens ahead leaves genuine tokens ahead and takes no
report back, and when it reports nothing then a condition holds of its result and of the state it
ends in. -/
def Quiet (p : Parse α) (s : ParseState) (Q : α → ParseState → Prop) : Prop :=
  s.Ready → (p.run s).2.Ready ∧ s.issues.length ≤ (p.run s).2.issues.length ∧
    ((p.run s).2.issues.length = s.issues.length → Q (p.run s).1 (p.run s).2)

namespace Quiet

/-- A parse that does nothing is quiet, and what holds goes on to hold. -/
theorem pure {a : α} {s : ParseState} {Q : α → ParseState → Prop} (h : Q a s) :
    Quiet (pure a) s Q :=
  fun hready => ⟨hready, Nat.le_refl _, fun _ => h⟩

/-- The second parse may rely on what the first one established, but it has to keep the reports in
any case. -/
theorem bind {p : Parse α} {f : α → Parse β} {s : ParseState} {P : α → ParseState → Prop}
    {Q : β → ParseState → Prop} (hp : Quiet p s P)
    (hf : ∀ a s', Quiet (f a) s' fun b s'' => P a s' → Q b s'') : Quiet (p >>= f) s Q := by
  intro hready
  obtain ⟨hready', hgrows, hpost⟩ := hp hready
  obtain ⟨hready'', hgrows', hpost'⟩ := hf (p.run s).1 (p.run s).2 hready'
  rw [run_bind]
  refine ⟨hready'', Nat.le_trans hgrows hgrows', fun hquiet => ?_⟩
  exact hpost' (by omega) (hpost (by omega))

/-- What holds after a quiet run may be weakened. -/
theorem mono {p : Parse α} {s : ParseState} {P Q : α → ParseState → Prop} (h : Quiet p s P)
    (himp : ∀ a s', P a s' → Q a s') : Quiet p s Q := by
  intro hready
  obtain ⟨hready', hgrows, hpost⟩ := h hready
  exact ⟨hready', hgrows, fun hquiet => himp _ _ (hpost hquiet)⟩

/-- Parses that run alike are quiet alike. -/
theorem congr_run {p q : Parse α} {s : ParseState} {Q : α → ParseState → Prop} (h : Quiet q s Q)
    (hrun : p.run s = q.run s) : Quiet p s Q := by
  intro hready
  rw [hrun]
  exact h hready

/-- A step that reports nothing has the result it runs to. -/
theorem of_run {p : Parse α} {s s' : ParseState} {a : α} {Q : α → ParseState → Prop}
    (hrun : p.run s = (a, s')) (hready : s.Ready → s'.Ready) (hissues : s'.issues = s.issues)
    (h : s.Ready → Q a s') : Quiet p s Q := by
  intro hs
  rw [hrun, hissues]
  exact ⟨hready hs, Nat.le_refl _, fun _ => h hs⟩

end Quiet

/-- Looking at the current token is quiet and changes nothing. -/
theorem current_quiet (s : ParseState) :
    Quiet current s fun token s' => token = s.current ∧ s' = s :=
  .of_run (current_run s) id rfl fun _ => ⟨rfl, rfl⟩

/-- Counting the tokens ahead is quiet and changes nothing. -/
theorem remaining_quiet (s : ParseState) : Quiet remaining s fun _ s' => s' = s :=
  .of_run (remaining_run s) id rfl fun _ => rfl

/-- Asking for a kind of token is quiet and changes nothing. -/
theorem isAt_quiet (kind : TokenKind) (s : ParseState) : Quiet (isAt kind) s fun _ s' => s' = s :=
  .of_run (isAt_run kind s) id rfl fun _ => rfl

/-- Making a node is quiet and gives it the span asked for. -/
theorem newNode_quiet (span : Span) (s : ParseState) :
    Quiet (newNode span) s fun node s' => node.span = span ∧ s' = s.numbered :=
  .of_run (newNode_run span s) id rfl fun _ => ⟨rfl, rfl⟩

/-- Closing a node is quiet and ends it where the token taken last stopped. -/
theorem closeNode_quiet (start : Nat) (s : ParseState) :
    Quiet (closeNode start) s fun node s' =>
      node.span = ⟨start, s.previousStop⟩ ∧ s' = s.numbered :=
  .of_run (closeNode_run start s) id rfl fun _ => ⟨rfl, rfl⟩

/-- Taking a token before the end of the text is quiet, and the token is genuine. -/
theorem advance_quiet (s : ParseState) :
    Quiet advance s fun _ s' => s.current.kind ≠ .endOfText →
      s.Took [s.current] s' ∧ s.current.Genuine :=
  .of_run (advance_run s) ParseState.Ready.taken s.taken_issues fun hready hkind =>
    ⟨hready.took_taken hkind, hready.genuine hkind⟩

/-- Nothing is quiet after a report. -/
theorem report_quiet (problem : Problem) (s : ParseState) :
    Quiet (report problem) s fun _ _ => False := by
  intro hready
  have hlength : ((report problem).run s).2.issues.length = s.issues.length + 1 :=
    List.length_append
  rw [hlength]
  refine ⟨hready, Nat.le_succ _, fun h => ?_⟩
  omega

/-- A punctuator that may be there is taken as its mark, or nothing is changed. -/
theorem accept?_quiet (p : Punctuator) (s : ParseState) :
    Quiet (accept? p) s fun mark s' =>
      (∀ span, mark = some span → ∃ token, s.Took [token] s' ∧
        token.IsMark (.punctuator p) ∧ token.span = span) ∧
      (mark = none → s' = s) := by
  by_cases h : s.current.kind = .punctuator p
  · refine .of_run (accept?_run_of_eq h) .taken s.taken_issues fun hready => ⟨?_, nofun⟩
    rintro span ⟨⟩
    obtain ⟨htook, hcontent⟩ := hready.took_punctuator h
    exact ⟨s.current, htook, hcontent, rfl⟩
  · exact .of_run (accept?_run_of_ne h) id rfl fun _ => ⟨nofun, fun _ => rfl⟩

/-- A punctuator that is told to be there is taken as its mark, or nothing is changed. -/
theorem accept_quiet (p : Punctuator) (s : ParseState) :
    Quiet (accept p) s fun taken s' =>
      (taken = true → ∃ token, s.Took [token] s' ∧
        token.IsMark (.punctuator p)) ∧
      (taken = false → s' = s) := by
  refine (accept?_quiet p s).bind fun mark s' => .pure fun h => ?_
  cases mark with
  | some span =>
    obtain ⟨token, htook, hcontent, -⟩ := h.1 span rfl
    exact ⟨fun _ => ⟨token, htook, hcontent⟩, nofun⟩
  | none => exact ⟨nofun, fun _ => h.2 rfl⟩

/-- An expected punctuator is taken as its mark, unless it is reported. -/
theorem expectPunctuator_quiet (p : Punctuator) (s : ParseState) :
    Quiet (expectPunctuator p) s fun _ s' => ∃ token, s.Took [token] s' ∧
      token.IsMark (.punctuator p) := by
  by_cases h : s.current.kind = .punctuator p
  · refine .of_run (expectPunctuator_run h) .taken s.taken_issues fun hready => ?_
    exact ⟨s.current, hready.took_punctuator h⟩
  · have hrun : (expectPunctuator p).run s =
        (report (.tokenExpected ((TokenKind.punctuator p).text?.getD "token"))).run s := by
      rw [expectPunctuator, expect, run_bind, isAt_run, decide_eq_false h]
      rfl
    exact ((report_quiet _ s).mono fun _ _ => False.elim).congr_run hrun

/-- A word that was taken spells a name. -/
theorem names_of_advance {s s' : ParseState} {node : Node}
    (h : s.current.kind = .identifier ∨ s.current.kind.isKeyword = true)
    (hadvance : s.current.kind ≠ .endOfText → s.Took [s.current] s' ∧ s.current.Genuine)
    (hspan : node.span = s.current.span) :
    s.Took [s.current] s'.numbered ∧ (Identifier.mk node s.current.value).Names s.current := by
  have hordinary : s.current.kind ≠ .endOfText := by
    rcases h with h | h <;> intro hend <;> rw [hend] at h <;> cases h
  obtain ⟨htook, hgenuine⟩ := hadvance hordinary
  obtain ⟨hkind, hvalue⟩ := hgenuine.word h
  exact ⟨htook.numbered, Prod.ext hkind rfl, hvalue, hspan⟩

/-- A name is spelled by the token that is taken, unless it is reported. -/
theorem identifier_quiet (s : ParseState) :
    Quiet identifier s fun name s' => ∃ token, s.Took [token] s' ∧ name.Names token := by
  refine (current_quiet s).bind fun token s₁ => ?_
  split
  · rename_i hname
    refine (advance_quiet s₁).bind fun _ s₂ => (newNode_quiet _ s₂).bind fun node s₃ => .pure ?_
    rintro ⟨hspan, rfl⟩ hadvance ⟨rfl, rfl⟩
    obtain ⟨htook, hnames⟩ := names_of_advance (TokenKind.isWord_of_isName hname) hadvance hspan
    exact ⟨s₁.current, htook, hnames⟩
  · refine (report_quiet _ s₁).bind fun _ s₂ => (newNode_quiet _ s₂).bind fun node s₃ => .pure ?_
    exact fun _ => False.elim

/-- The name of a member is spelled by the token that is taken, unless it is reported. -/
theorem memberName_quiet (s : ParseState) :
    Quiet memberName s fun name s' => ∃ token, s.Took [token] s' ∧ name.Names token := by
  refine (current_quiet s).bind fun token s₁ => ?_
  split
  · rename_i hkeyword
    refine (advance_quiet s₁).bind fun _ s₂ => (newNode_quiet _ s₂).bind fun node s₃ => .pure ?_
    rintro ⟨hspan, rfl⟩ hadvance ⟨rfl, rfl⟩
    obtain ⟨htook, hnames⟩ := names_of_advance (.inr hkeyword) hadvance hspan
    exact ⟨s₁.current, htook, hnames⟩
  · refine (identifier_quiet s₁).mono fun name s' hname => ?_
    rintro ⟨rfl, rfl⟩
    exact hname

end Parse

end ExpressionTyping
