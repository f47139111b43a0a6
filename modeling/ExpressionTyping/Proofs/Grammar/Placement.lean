import ExpressionTyping.Grammar.Basic
import ExpressionTyping.Proofs.Grammar.Step
import ExpressionTyping.Proofs.Syntax.Children
import ExpressionTyping.Proofs.Token.Location

/-!
# Where the nodes of a tree stand

A node that is closed stops where the token taken last stopped. Where something is missing no token
is taken, so such a node could stop before it starts. In an expression it does not: every form of
expression that is closed has taken a token of its own, and the parse never stood before the place
where the expression starts.

The invariant is `ParseState.Placed`: the tokens ahead stand in the text in order, and the token
taken last stopped before the current one starts. `Runs` carries it through the steps of a parse,
also through those that report, and remembers that a parse goes forward (`ParseState.Leads`).
-/

set_option autoImplicit false

namespace ExpressionTyping

open Token (Before)

namespace ParseState

/-- The tokens ahead stand in the text and in order, the token taken last stopped before them, and
what was reported lies in the text. -/
structure Placed (text : List Char) (s : ParseState) : Prop where
  ready : s.Ready
  located : ∀ token ∈ s.ahead, token.Located Alphabet.standard text
  ordered : s.ahead.Pairwise Before
  behind : s.previousStop ≤ s.current.span.start
  issues : ∀ issue ∈ s.issues, issue.span.Within text.length

/-- One state is reached from another by going forward. -/
structure Leads (s s' : ParseState) : Prop where
  ahead : s'.ahead <:+ s.ahead
  start : s.current.span.start ≤ s'.current.span.start
  previousStop : s.previousStop ≤ s'.previousStop
  nextId : s.nextId ≤ s'.nextId

/-- A state leads to itself. -/
theorem Leads.refl (s : ParseState) : s.Leads s :=
  ⟨List.suffix_refl _, Nat.le_refl _, Nat.le_refl _, Nat.le_refl _⟩

/-- Going forward twice is going forward. -/
theorem Leads.trans {s s' s'' : ParseState} (h : s.Leads s') (h' : s'.Leads s'') : s.Leads s'' :=
  ⟨h'.ahead.trans h.ahead, Nat.le_trans h.start h'.start,
    Nat.le_trans h.previousStop h'.previousStop, Nat.le_trans h.nextId h'.nextId⟩

/-- Giving a number is going forward. -/
theorem leads_numbered (s : ParseState) : s.Leads s.numbered :=
  ⟨List.suffix_refl _, Nat.le_refl _, Nat.le_refl _, Nat.le_succ _⟩

namespace Placed

variable {text : List Char} {s : ParseState} (h : s.Placed text)
include h

/-- The current token stands at its place in the text. -/
theorem current : s.current.Located Alphabet.standard text :=
  h.located s.current List.mem_cons_self

/-- The current token lies in the text. -/
theorem within : s.current.span.Within text.length :=
  h.current.within

/-- A span between the places of two states lies in the text. -/
theorem within_of_le {start : Nat} (hstart : start ≤ s.previousStop) :
    (⟨start, s.previousStop⟩ : Span).Within text.length := by
  have hbehind := h.behind
  have hwithin := h.within
  have hordered := hwithin.ordered
  have hbounded := hwithin.bounded
  refine ⟨hstart, ?_⟩
  show s.previousStop ≤ text.length
  omega

/-- Giving a number keeps the tokens in place. -/
theorem numbered : s.numbered.Placed text :=
  ⟨h.ready, h.located, h.ordered, h.behind, h.issues⟩

/-- Taking a token keeps the order: the next one starts after it, and the end of the text, which is
taken again and again, has no width. -/
theorem taken : s.taken.Placed text := by
  have hready := h.ready.taken
  have hissues : ∀ issue ∈ s.taken.issues, issue.span.Within text.length := by
    rw [s.taken_issues]
    exact h.issues
  obtain ⟨current, upcoming, previousStop, nextId, issues⟩ := s
  cases upcoming with
  | cons next rest =>
    have hpairs := List.pairwise_cons.mp h.ordered
    refine ⟨hready, fun token htoken => ?_, hpairs.2, ?_, hissues⟩
    · exact h.located token (List.mem_cons_of_mem current htoken)
    · exact hpairs.1 next List.mem_cons_self
  | nil =>
    have hend : current.kind = .endOfText := by
      obtain ⟨tokens, final, hahead, hfinal, -⟩ := h.ready
      cases tokens with
      | nil =>
        obtain ⟨rfl, -⟩ := List.cons.inj hahead
        exact hfinal
      | cons token tokens => simp [ahead] at hahead
    exact ⟨hready, h.located, h.ordered, Nat.le_of_eq (h.current.start_eq_stop hend).symm, hissues⟩

/-- Taking a token is going forward. -/
theorem leads_taken : s.Leads s.taken := by
  have hbehind := h.behind
  have hordered := h.within.ordered
  have hnext := h.taken.behind
  have hstop := s.taken_previousStop
  have hid : s.taken.nextId = s.nextId := by
    obtain ⟨current, upcoming, previousStop, nextId, issues⟩ := s
    cases upcoming <;> rfl
  have hahead : s.taken.ahead <:+ s.ahead := by
    obtain ⟨current, upcoming, previousStop, nextId, issues⟩ := s
    cases upcoming with
    | nil => exact List.suffix_refl _
    | cons next rest => exact List.suffix_cons current (next :: rest)
  exact ⟨hahead, by omega, by omega, Nat.le_of_eq hid.symm⟩

/-- The token that was taken is behind. -/
theorem start_le_taken : s.current.span.start ≤ s.taken.previousStop := by
  have hordered := h.within.ordered
  have hstop := s.taken_previousStop
  omega

end Placed

/-- At the start, the tokens of a text are in place. -/
theorem Placed.initial (text : List Char) :
    (Parse.initial (Token.ofText Alphabet.standard text)).Placed text := by
  obtain ⟨hlocated, hordered⟩ := Token.ofText_located Alphabet.standard text
  obtain ⟨tokens, final, htokens, hfinal, hsegmented⟩ :=
    Token.ofText_segmented Alphabet.standard text
  have hahead := Parse.initial_ahead (Token.ofText_ne_nil Alphabet.standard text)
  refine ⟨⟨tokens, final, hahead.trans htokens, hfinal, hsegmented.ordinary, hsegmented.genuine⟩,
    ?_, ?_, ?_, ?_⟩
  · rw [hahead]
    exact hlocated
  · rw [hahead]
    exact hordered
  · cases Token.ofText Alphabet.standard text <;> exact Nat.zero_le _
  · rw [Parse.initial_issues]
    exact nofun

end ParseState

namespace Expr

/-- The name of the member that an expression picks. -/
def memberName? : Expr → Option Identifier
  | member _ _ name => some name
  | _ => none

/-- The node of an expression lies in a text of a given length, and so does the name of the member
it picks. -/
structure InText (length : Nat) (e : Expr) : Prop where
  span : e.span.Within length
  name : ∀ name, e.memberName? = some name → name.node.span.Within length

/-- All nodes of an expression that names no member lie in a text when it does and those of its
children do. -/
theorem throughout_inText {length : Nat} {e : Expr} (hspan : e.span.Within length)
    (hname : e.memberName? = none)
    (hchildren : ∀ child ∈ e.children, child.Throughout (InText length)) :
    e.Throughout (InText length) :=
  ⟨⟨hspan, fun _ h => absurd (h.symm.trans hname) nofun⟩, hchildren⟩

end Expr

namespace Parse

open ParseState

variable {α β : Type} {text : List Char}

/-! ## Runs over the tokens of a text -/

/-- A run of a parse over the tokens of a text goes forward, keeps the tokens in place, and ends
with a condition on its result and on the state it ends in. -/
def Runs (text : List Char) (p : Parse α) (s : ParseState) (Q : α → ParseState → Prop) : Prop :=
  s.Placed text → (p.run s).2.Placed text ∧ s.Leads (p.run s).2 ∧ Q (p.run s).1 (p.run s).2

namespace Runs

/-- Doing nothing establishes what holds already. -/
theorem pure {a : α} {s : ParseState} {Q : α → ParseState → Prop} (h : Q a s) :
    Runs text (pure a) s Q :=
  fun hplaced => ⟨hplaced, .refl s, h⟩

/-- The second parse starts where the first one has led. -/
theorem bind {p : Parse α} {f : α → Parse β} {s : ParseState} {P : α → ParseState → Prop}
    {Q : β → ParseState → Prop} (hp : Runs text p s P)
    (hf : ∀ a s', s'.Placed text → s.Leads s' → P a s' → Runs text (f a) s' Q) :
    Runs text (p >>= f) s Q := by
  intro hplaced
  obtain ⟨hplaced', hleads, hpost⟩ := hp hplaced
  obtain ⟨hplaced'', hleads', hpost'⟩ := hf _ _ hplaced' hleads hpost hplaced'
  exact ⟨hplaced'', hleads.trans hleads', hpost'⟩

/-- What a run establishes may be weakened, knowing that the run went forward. -/
theorem mono {p : Parse α} {s : ParseState} {P Q : α → ParseState → Prop} (h : Runs text p s P)
    (himp : ∀ a s', s'.Placed text → s.Leads s' → P a s' → Q a s') : Runs text p s Q := by
  intro hplaced
  obtain ⟨hplaced', hleads, hpost⟩ := h hplaced
  exact ⟨hplaced', hleads, himp _ _ hplaced' hleads hpost⟩

/-- What is known where a run starts may be used to show where it ends. -/
theorem of_placed {p : Parse α} {s : ParseState} {Q : α → ParseState → Prop}
    (h : s.Placed text → Runs text p s Q) : Runs text p s Q :=
  fun hplaced => h hplaced hplaced

/-- A single run that keeps the tokens in place and goes forward establishes its condition. -/
theorem of_run {p : Parse α} {s s' : ParseState} {a : α} {Q : α → ParseState → Prop}
    (hrun : p.run s = (a, s'))
    (h : s.Placed text → s'.Placed text ∧ s.Leads s' ∧ Q a s') : Runs text p s Q := by
  intro hplaced
  rw [hrun]
  exact h hplaced

/-- A choice establishes what both branches establish. -/
theorem ite {c : Prop} [Decidable c] {p q : Parse α} {s : ParseState} {Q : α → ParseState → Prop}
    (hp : c → Runs text p s Q) (hq : ¬c → Runs text q s Q) :
    Runs text (if c then p else q) s Q := by
  split
  · exact hp ‹_›
  · exact hq ‹_›

end Runs

/-! ## Steps -/

/-- The current token is given, and the state stays. -/
theorem current_runs (s : ParseState) :
    Runs text current s fun token s' => token = s.current ∧ s' = s :=
  .of_run (current_run s) fun h => ⟨h, .refl s, rfl, rfl⟩

/-- Counting the tokens ahead leaves the state. -/
theorem remaining_runs (s : ParseState) : Runs text remaining s fun _ s' => s' = s :=
  .of_run (remaining_run s) fun h => ⟨h, .refl s, rfl⟩

/-- The kind of the current token is compared, and the state stays. -/
theorem isAt_runs (kind : TokenKind) (s : ParseState) :
    Runs text (isAt kind) s fun found s' => found = decide (s.current.kind = kind) ∧ s' = s :=
  .of_run (isAt_run kind s) fun h => ⟨h, .refl s, rfl, rfl⟩

/-- A new node takes the next number. -/
theorem newNode_runs (span : Span) (s : ParseState) :
    Runs text (newNode span) s fun node s' => node = ⟨s.nextId, span⟩ ∧ s' = s.numbered :=
  .of_run (newNode_run span s) fun h => ⟨h.numbered, s.leads_numbered, rfl, rfl⟩

/-- Closing a node spans from its start to where the token taken last stopped, and takes the next
number. -/
theorem closeNode_runs (start : Nat) (s : ParseState) :
    Runs text (closeNode start) s fun node s' =>
      node = ⟨s.nextId, ⟨start, s.previousStop⟩⟩ ∧ s' = s.numbered :=
  .of_run (closeNode_run start s) fun h => ⟨h.numbered, s.leads_numbered, rfl, rfl⟩

/-- Taking a token leads to the state after it. -/
theorem advance_runs (s : ParseState) : Runs text advance s fun _ s' => s' = s.taken :=
  .of_run (advance_run s) fun h => ⟨h.taken, h.leads_taken, rfl⟩

/-- A report is made at the current token, which lies in the text. -/
theorem report_runs (problem : Problem) (s : ParseState) :
    Runs text (report problem) s fun _ s' =>
      s' = { s with issues := s.issues ++ [⟨s.current.span, problem⟩] } := by
  intro h
  refine ⟨⟨h.ready, h.located, h.ordered, h.behind, ?_⟩, ⟨List.suffix_refl _, Nat.le_refl _,
    Nat.le_refl _, Nat.le_refl _⟩, rfl⟩
  intro issue hissue
  rcases List.mem_append.mp hissue with hold | hnew
  · exact h.issues issue hold
  · obtain rfl := List.mem_singleton.mp hnew
    exact h.within

/-- A punctuator is taken with its place where it stands, and nothing is done otherwise. -/
theorem accept?_runs (p : Punctuator) (s : ParseState) :
    Runs text (accept? p) s fun mark s' =>
      s.current.kind = .punctuator p ∧ mark = some s.current.span ∧ s' = s.taken ∨
        mark = none ∧ s' = s := by
  by_cases hkind : s.current.kind = .punctuator p
  · exact .of_run (accept?_run_of_eq hkind) fun h =>
      ⟨h.taken, h.leads_taken, .inl ⟨hkind, rfl, rfl⟩⟩
  · exact .of_run (accept?_run_of_ne hkind) fun h => ⟨h, .refl s, .inr ⟨rfl, rfl⟩⟩

/-- A punctuator is taken where it stands, and nothing is done otherwise. -/
theorem accept_runs (p : Punctuator) (s : ParseState) :
    Runs text (accept p) s fun taken s' =>
      s.current.kind = .punctuator p ∧ taken = true ∧ s' = s.taken ∨ taken = false ∧ s' = s := by
  by_cases hkind : s.current.kind = .punctuator p
  · exact .of_run (accept_run_of_eq hkind) fun h =>
      ⟨h.taken, h.leads_taken, .inl ⟨hkind, rfl, rfl⟩⟩
  · exact .of_run (accept_run_of_ne hkind) fun h => ⟨h, .refl s, .inr ⟨rfl, rfl⟩⟩

/-- An expected punctuator is taken where it stands. -/
theorem expectPunctuator_runs (p : Punctuator) (s : ParseState) :
    Runs text (expectPunctuator p) s fun _ s' =>
      s.current.kind = .punctuator p → s' = s.taken := by
  by_cases hkind : s.current.kind = .punctuator p
  · exact .of_run (expectPunctuator_run hkind) fun h => ⟨h.taken, h.leads_taken, fun _ => rfl⟩
  · unfold expectPunctuator expect
    refine (isAt_runs _ s).bind fun found s' _ _ h => ?_
    obtain ⟨rfl, rfl⟩ := h
    rw [decide_eq_false hkind]
    exact (report_runs _ _).mono fun _ _ _ _ _ h => absurd h hkind

/-- A name stands in the text, and it stands where the parse stood. -/
def Names (text : List Char) (s : ParseState) (name : Identifier) : Prop :=
  name.node.span.Within text.length ∧ name.node.span.start = s.current.span.start

/-- The name that is read stands in the text, at or after the current token. -/
theorem identifier_runs (s : ParseState) :
    Runs text identifier s fun name _ => Names text s name := by
  refine (current_runs s).bind fun token s₁ hplaced _ h => ?_
  obtain ⟨rfl, rfl⟩ := h
  refine .ite (fun _ => ?_) fun _ => ?_
  · refine (advance_runs _).bind fun _ s₂ _ _ _ => (newNode_runs _ _).bind fun node s₃ _ _ h => ?_
    obtain ⟨rfl, -⟩ := h
    exact .pure ⟨hplaced.within, rfl⟩
  · refine (report_runs _ _).bind fun _ s₂ _ _ _ => (newNode_runs _ _).bind fun node s₃ _ _ h => ?_
    obtain ⟨rfl, -⟩ := h
    refine .pure ⟨.empty ?_, rfl⟩
    exact Nat.le_trans hplaced.within.ordered hplaced.within.bounded

/-- The name of a member that is read stands in the text, at or after the current token. -/
theorem memberName_runs (s : ParseState) :
    Runs text memberName s fun name _ => Names text s name := by
  refine (current_runs s).bind fun token s₁ hplaced _ h => ?_
  obtain ⟨rfl, rfl⟩ := h
  refine .ite (fun _ => ?_) fun _ => identifier_runs _
  refine (advance_runs _).bind fun _ s₂ _ _ _ => (newNode_runs _ _).bind fun node s₃ _ _ h => ?_
  obtain ⟨rfl, -⟩ := h
  exact .pure ⟨hplaced.within, rfl⟩

/-! ## Expressions -/

/-- A parse that reads an expression all of whose nodes lie in the text; it starts where the parse
stood. -/
def Places (text : List Char) (p : Parse Expr) : Prop :=
  ∀ s, Runs text p s fun e _ =>
    e.Throughout (Expr.InText text.length) ∧ e.span.start = s.current.span.start

/-- A loop that extends an expression keeps its nodes in the text and leaves its start. -/
def PlacesMore (text : List Char) (p : Expr → Parse Expr) : Prop :=
  ∀ e s, e.Throughout (Expr.InText text.length) → e.span.start ≤ s.current.span.start →
    Runs text (p e) s fun e' _ =>
      e'.Throughout (Expr.InText text.length) ∧ e'.span.start = e.span.start

/-- A node is closed in order once a token was taken that starts at its start or after it. -/
theorem closeNode_within {start : Nat} {s : ParseState} (h : start ≤ s.previousStop) :
    Runs text (closeNode start) s fun node _ =>
      node.span.Within text.length ∧ node.span.start = start := by
  refine .of_placed fun hplaced => (closeNode_runs start s).mono fun node _ _ _ hnode => ?_
  obtain ⟨rfl, -⟩ := hnode
  exact ⟨hplaced.within_of_le h, rfl⟩

/-- A missing expression has an empty place at the current token. -/
theorem missing_places : Places text missing := by
  intro s
  refine (report_runs _ s).bind fun _ s₁ hplaced _ h => (current_runs s₁).bind
    fun token s₂ _ _ h₂ => (newNode_runs _ s₂).bind fun node s₃ _ _ h₃ => ?_
  obtain ⟨rfl, rfl⟩ := h₂
  obtain ⟨rfl, -⟩ := h₃
  have hbound := Nat.le_trans hplaced.within.ordered hplaced.within.bounded
  subst h
  exact .pure ⟨Expr.throughout_inText (.empty hbound) rfl nofun, rfl⟩

/-- The nodes of a primary expression lie in the text. -/
theorem primary_places {assignment : Parse Expr} (h : Places text assignment) :
    Places text (primary assignment) := by
  intro s
  refine (current_runs s).bind fun token s₁ hplaced _ hs₁ => ?_
  obtain ⟨rfl, rfl⟩ := hs₁
  refine .ite (fun _ => ?_) fun _ => ?_
  · refine (identifier_runs _).bind fun name s₂ _ _ hname => .pure ?_
    exact ⟨Expr.throughout_inText hname.1 rfl nofun, hname.2⟩
  · split
    · refine (advance_runs _).bind fun _ s₂ _ _ _ => (newNode_runs _ _).bind
        fun node s₃ _ _ hnode => .pure ?_
      obtain ⟨rfl, -⟩ := hnode
      exact ⟨Expr.throughout_inText hplaced.within rfl nofun, rfl⟩
    · refine (accept_runs _ _).bind fun taken s₂ _ _ htaken => ?_
      rcases htaken with ⟨-, rfl, rfl⟩ | ⟨rfl, rfl⟩
      · refine (h _).bind fun inner s₃ _ hleads hinner => ?_
        refine (expectPunctuator_runs _ _).bind fun _ s₄ _ hleads' _ => ?_
        -- the opening parenthesis was taken
        have hstart := hplaced.start_le_taken
        have hstop := hleads.previousStop
        have hstop' := hleads'.previousStop
        refine (closeNode_within (by omega)).bind fun node s₅ _ _ hnode => .pure ?_
        refine ⟨Expr.throughout_inText hnode.1 rfl ?_, hnode.2⟩
        simpa using hinner.1
      · exact missing_places _

/-- The nodes of further arguments lie in the text. -/
theorem argumentsTail_runs {assignment : Parse Expr} (h : Places text assignment) (limit : Nat)
    (s : ParseState) :
    Runs text (argumentsTail assignment limit) s fun arguments _ =>
      ∀ argument ∈ arguments, argument.Throughout (Expr.InText text.length) := by
  induction limit generalizing s with
  | zero => exact .pure nofun
  | succ limit ih =>
    refine (isAt_runs _ s).bind fun closing s₁ _ _ h₁ => (isAt_runs _ s₁).bind
      fun ending s₂ _ _ h₂ => .ite (fun _ => .pure nofun) fun _ => ?_
    refine (h s₂).bind fun argument s₃ _ _ hargument => ?_
    refine (accept_runs _ s₃).bind fun more s₄ _ _ _ => .ite (fun _ => ?_) fun _ => ?_
    · refine (ih s₄).bind fun rest s₅ _ _ hrest => .pure ?_
      exact List.forall_mem_cons.mpr ⟨hargument.1, hrest⟩
    · exact .pure (by simpa using hargument.1)

/-- The opening parenthesis of arguments is there, so it is taken. -/
theorem arguments_runs {assignment : Parse Expr} (h : Places text assignment) {s : ParseState}
    (hkind : s.current.kind = .punctuator .openParen) :
    Runs text (arguments assignment) s fun arguments s' =>
      (∀ argument ∈ arguments, argument.Throughout (Expr.InText text.length)) ∧
        s.current.span.start ≤ s'.previousStop := by
  refine .of_placed fun hplaced => (expectPunctuator_runs _ s).bind fun _ s₁ _ _ h₁ => ?_
  obtain rfl := h₁ hkind
  refine (remaining_runs _).bind fun limit s₂ _ hleads₂ _ => ?_
  refine (argumentsTail_runs h limit s₂).bind fun arguments s₃ _ hleads₃ harguments => ?_
  refine (expectPunctuator_runs _ s₃).bind fun _ s₄ _ hleads₄ _ => .pure ⟨harguments, ?_⟩
  have hstart := hplaced.start_le_taken
  have hleads := (hleads₂.trans hleads₃).trans hleads₄
  have hstop := hleads.previousStop
  omega

/-- The nodes of what follows an expression lie in the text, and the expression starts where it
did. -/
theorem accessTail_places {assignment : Parse Expr} (h : Places text assignment) (limit : Nat) :
    PlacesMore text (accessTail assignment limit) := by
  induction limit with
  | zero => exact fun e s he _ => .pure ⟨he, rfl⟩
  | succ limit ih =>
    intro e s he hstart
    refine .of_placed fun hplaced => (accept_runs _ s).bind fun dot s₁ _ hleads₁ h₁ => ?_
    have htaken := hplaced.start_le_taken
    -- each round closes a node over the expression so far and goes on with it
    have hround {node : Node} {s' : ParseState} {e' : Expr} (hnode : e'.node = node)
        (hspan : node.span.Within text.length ∧ node.span.start = e.span.start)
        (he' : e'.Throughout (Expr.InText text.length)) (hleads : s.Leads s') :
        Runs text (accessTail assignment limit e') s' fun e'' _ =>
          e''.Throughout (Expr.InText text.length) ∧ e''.span.start = e.span.start := by
      have heq : e'.span.start = e.span.start := by rw [Expr.span, hnode, hspan.2]
      have hforward := hleads.start
      refine (ih e' s' he' (by omega)).mono fun e'' _ _ _ hmore => ⟨hmore.1, ?_⟩
      rw [hmore.2, heq]
    rcases h₁ with ⟨-, rfl, rfl⟩ | ⟨rfl, rfl⟩
    · refine (memberName_runs _).bind fun name s₂ _ hleads₂ hname => ?_
      have hstop := hleads₂.previousStop
      refine (closeNode_within (by omega)).bind fun node s₃ _ hleads₃ hnode => ?_
      refine hround rfl hnode ⟨⟨hnode.1, ?_⟩, by simpa using he⟩
        ((hleads₁.trans hleads₂).trans hleads₃)
      rintro _ ⟨⟩
      exact hname.1
    · refine (accept_runs _ _).bind fun bracket s₂ _ hleads₂ h₂ => ?_
      rcases h₂ with ⟨-, rfl, rfl⟩ | ⟨rfl, rfl⟩
      · refine (h _).bind fun key s₃ _ hleads₃ hkey => ?_
        refine (expectPunctuator_runs _ _).bind fun _ s₄ _ hleads₄ _ => ?_
        have hstop₃ := hleads₃.previousStop
        have hstop₄ := hleads₄.previousStop
        refine (closeNode_within (by omega)).bind fun node s₅ _ hleads₅ hnode => ?_
        refine hround rfl hnode (Expr.throughout_inText hnode.1 rfl ?_)
          (((hleads₂.trans hleads₃).trans hleads₄).trans hleads₅)
        simpa using ⟨he, hkey.1⟩
      · refine (isAt_runs _ _).bind fun paren s₂ _ hleads₂ h₂ => ?_
        obtain ⟨rfl, rfl⟩ := h₂
        refine .ite (fun hkind => ?_) fun _ => .pure ⟨he, rfl⟩
        refine (arguments_runs h (of_decide_eq_true hkind)).bind ?_
        intro values s₃ _ hleads₃ hvalues
        obtain ⟨harguments, hstop⟩ := hvalues
        refine (closeNode_within (by omega)).bind fun node s₄ _ hleads₄ hnode => ?_
        refine hround rfl hnode (Expr.throughout_inText hnode.1 rfl ?_) (hleads₃.trans hleads₄)
        exact List.forall_mem_cons.mpr ⟨he, harguments⟩

/-- A loop goes on with what was read where the parse stood. -/
theorem Places.bind_more {p : Parse Expr} {q : Nat → Expr → Parse Expr} (hp : Places text p)
    (hq : ∀ limit, PlacesMore text (q limit)) :
    Places text (do let e ← p; q (← remaining) e) := by
  intro s
  refine (hp s).bind fun e s₁ _ hleads he => (remaining_runs s₁).bind fun limit s₂ _ hleads' _ => ?_
  have hstart := hleads.start
  have hstart' := hleads'.start
  refine (hq limit e s₂ he.1 (by omega)).mono fun e' _ _ _ he' => ⟨he'.1, ?_⟩
  rw [he'.2, he.2]

/-- The nodes of a primary expression with what follows it lie in the text. -/
theorem access_places {assignment : Parse Expr} (h : Places text assignment) :
    Places text (access assignment) :=
  (primary_places h).bind_more (accessTail_places h)

/-- The nodes of an expression with operators in front lie in the text. -/
theorem unary_places {assignment : Parse Expr} {operand? : Option (Parse Expr)}
    (h : Places text assignment)
    (hoperand : ∀ operand, operand? = some operand → Places text operand) :
    Places text (unary assignment operand?) := by
  intro s
  refine (current_runs s).bind fun token s₁ hplaced _ hs₁ => ?_
  obtain ⟨rfl, rfl⟩ := hs₁
  split
  · exact access_places h _
  · exact missing_places _
  · rename_i op operand _
    refine (advance_runs _).bind fun _ s₂ _ _ h₂ => ?_
    subst h₂
    refine (hoperand operand rfl _).bind fun e s₃ _ hleads he => ?_
    have hstart := hplaced.start_le_taken
    have hstop := hleads.previousStop
    refine (closeNode_within (by omega)).bind fun node s₄ _ _ hnode => .pure ?_
    refine ⟨Expr.throughout_inText hnode.1 rfl ?_, hnode.2⟩
    simpa using he.1

/-- The nodes of right operands lie in the text, and the expression starts where its left operand
did. -/
theorem binaryTail_places {operand : Parse Expr} (h : Places text operand) (limit : Nat)
    (bound : Precedence) : PlacesMore text (binaryTail operand limit bound) := by
  induction limit generalizing bound with
  | zero => exact fun e s he _ => .pure ⟨he, rfl⟩
  | succ limit ih =>
    intro left s hleft hstart
    refine (current_runs s).bind fun token s₁ hplaced _ hs₁ => ?_
    obtain ⟨rfl, rfl⟩ := hs₁
    split
    · exact .pure ⟨hleft, rfl⟩
    · rename_i op _
      refine .ite (fun _ => ?_) fun _ => .pure ⟨hleft, rfl⟩
      refine (advance_runs _).bind fun _ s₂ _ hleads₂ h₂ => ?_
      subst h₂
      refine (h _).bind fun first s₃ _ hleads₃ hfirst => ?_
      have hfront := hleads₃.start
      refine (ih _ first s₃ hfirst.1 (by omega)).bind fun right s₄ _ hleads₄ hright => ?_
      -- the operator was taken
      have htaken := hplaced.start_le_taken
      have hstop₃ := hleads₃.previousStop
      have hstop₄ := hleads₄.previousStop
      refine (closeNode_within (by omega)).bind fun node s₅ _ hleads₅ hnode => ?_
      have hleads := ((hleads₂.trans hleads₃).trans hleads₄).trans hleads₅
      have hforward := hleads.start
      have hmore := ih bound (.binary node left op s₁.current.span right) s₅
        (Expr.throughout_inText hnode.1 rfl (by simpa using ⟨hleft, hright.1⟩))
        (by rw [Expr.span, Expr.node, hnode.2]; omega)
      exact hmore.mono fun e _ _ _ he => ⟨he.1, he.2.trans hnode.2⟩

/-- The nodes of operands joined by operators lie in the text. -/
theorem binary_places {operand : Parse Expr} (h : Places text operand) :
    Places text (binary operand) :=
  h.bind_more fun limit => binaryTail_places h limit .floor

/-- The nodes of a choice lie in the text. -/
theorem conditional_places {assignment operand : Parse Expr} (h : Places text assignment)
    (hoperand : Places text operand) : Places text (conditional assignment operand) := by
  intro s
  refine (binary_places hoperand s).bind fun condition s₁ hplaced hleads₁ hcondition => ?_
  refine (accept_runs _ s₁).bind fun question s₂ _ hleads₂ h₂ => ?_
  rcases h₂ with ⟨-, rfl, rfl⟩ | ⟨rfl, rfl⟩
  · refine (h _).bind fun whenTrue s₃ _ hleads₃ htrue => ?_
    refine (expectPunctuator_runs _ s₃).bind fun _ s₄ _ hleads₄ _ => ?_
    refine (h _).bind fun whenFalse s₅ _ hleads₅ hfalse => ?_
    have hfront := hleads₁.start
    have htaken := hplaced.start_le_taken
    have hleads := (hleads₃.trans hleads₄).trans hleads₅
    have hstop := hleads.previousStop
    refine (closeNode_within (by omega)).bind fun node s₆ _ _ hnode => .pure ?_
    refine ⟨Expr.throughout_inText hnode.1 rfl ?_, hnode.2.trans hcondition.2⟩
    simpa using ⟨hcondition.1, htrue.1, hfalse.1⟩
  · exact .pure hcondition

/-- The nodes of an assignment lie in the text. -/
theorem assignment_places {nested operand : Parse Expr} (h : Places text nested)
    (hoperand : Places text operand) : Places text (assignment nested operand) := by
  intro s
  refine (conditional_places h hoperand s).bind fun target s₁ hplaced hleads₁ htarget => ?_
  refine (accept?_runs _ s₁).bind fun mark s₂ _ hleads₂ h₂ => ?_
  rcases h₂ with ⟨-, rfl, rfl⟩ | ⟨rfl, rfl⟩
  · refine (h _).bind fun value s₃ _ hleads₃ hvalue => ?_
    have hfront := hleads₁.start
    have htaken := hplaced.start_le_taken
    have hstop := hleads₃.previousStop
    refine (closeNode_within (by omega)).bind fun node s₄ _ _ hnode => .pure ?_
    refine ⟨Expr.throughout_inText hnode.1 rfl ?_, hnode.2.trans htarget.2⟩
    simpa using ⟨htarget.1, hvalue.1⟩
  · exact .pure htarget

/-- The nodes of nested expressions lie in the text at every depth. -/
theorem nested_places (depth : Nat) :
    Places text (nested depth).assignment ∧ Places text (nested depth).unary := by
  induction depth with
  | zero => exact ⟨missing_places, unary_places missing_places nofun⟩
  | succ depth ih =>
    have houter := assignment_places ih.1 ih.2
    refine ⟨houter, unary_places houter ?_⟩
    rintro _ ⟨⟩
    exact ih.2

/-- The nodes of an expression lie in the text. -/
theorem expression_places : Places text expression :=
  (nested_places depthLimit).1

/-- The nodes of a whole expression lie in the text. -/
theorem wholeExpression_places : Places text wholeExpression := by
  intro s
  refine (expression_places s).bind fun e s₁ _ _ he => (current_runs s₁).bind
    fun token s₂ _ _ h₂ => ?_
  obtain ⟨rfl, rfl⟩ := h₂
  by_cases hkind : s₂.current.kind = .endOfText
  · simpa [hkind] using Runs.pure he
  · simp only [hkind, if_false]
    exact (report_runs _ s₂).bind fun _ s₃ _ _ _ => .pure he

/-! ## Whole texts -/

/-- The issues that the scanner found in the tokens read lie in the text. -/
theorem within_of_mem_tokenIssues {s : ParseState} {issue : Issue}
    (h : issue ∈ tokenIssues (Token.ofText Alphabet.standard text) s) :
    issue.span.Within text.length := by
  obtain ⟨token, htoken, hissue⟩ := List.mem_filterMap.mp h
  have hmem := List.mem_of_mem_take htoken
  have hwithin := ((Token.ofText_located Alphabet.standard text).1 token hmem).within
  obtain ⟨problem, -, rfl⟩ := Option.map_eq_some_iff.mp hissue
  exact hwithin

/-- What a parse of a text reports lies in the text, and so does what is wrong with its tokens. -/
theorem throughout_within {p : Parse α} {Q : α → Prop}
    (h : ∀ s, Runs text p s fun a _ => Q a) :
    Q (throughout p (Token.ofText Alphabet.standard text)).tree ∧
      ∀ issue ∈ (throughout p (Token.ofText Alphabet.standard text)).issues,
        issue.span.Within text.length := by
  obtain ⟨hplaced, -, hpost⟩ := h _ (Placed.initial text)
  refine ⟨hpost, fun issue hissue => ?_⟩
  rcases List.mem_append.mp (List.mem_mergeSort.mp hissue) with hreported | htoken
  · exact hplaced.issues issue hreported
  · exact within_of_mem_tokenIssues htoken

end Parse

/-- The nodes of a parsed expression, the names of members in it, and what was reported lie in the
text. -/
theorem Expr.parse_within (text : String) :
    (Expr.parse text).tree.Throughout (Expr.InText text.length) ∧
      ∀ issue ∈ (Expr.parse text).issues, issue.span.Within text.length := by
  have hlength : text.toList.length = text.length := String.length_toList
  rw [← hlength]
  exact Parse.throughout_within fun s =>
    (Parse.wholeExpression_places s).mono fun _ _ _ _ h => h.1

end ExpressionTyping
