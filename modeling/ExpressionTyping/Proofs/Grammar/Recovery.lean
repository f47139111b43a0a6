import ExpressionTyping.Grammar.Basic
import ExpressionTyping.Proofs.Grammar.Placement
import ExpressionTyping.Proofs.Syntax.Placeholders
import ExpressionTyping.Proofs.Token.Faults

/-!
# Placeholders are reported where they stand

A parse puts a placeholder into its tree where it reports that something is missing, and nowhere
else. So what was reported of missing expressions, names and types is at every moment a list of the
placeholders that the parse has made, in the order in which they were numbered, and this is the
order of the text, since a parse goes forward (`ParseState.Files`). `Parse.Records` says which
placeholders a parse adds: those of the tree that it gives. Most steps add none (`Parse.Omits`).

At the end the reports are sorted together with the faults of the tokens, which are no reports of
anything missing, so the placeholders of the tree and these reports still answer each other one by
one (`parse_reports_placeholders`).
-/

set_option autoImplicit false

namespace ExpressionTyping

/-! ## Reports of something missing -/

/-- What an issue reports as missing, and where, if it does. -/
def Issue.missing? (issue : Issue) : Option (Placeholder.Kind × Nat) :=
  match issue.problem with
  | .expressionExpected => some (.expression, issue.span.start)
  | .identifierExpected => some (.name, issue.span.start)
  | .typeExpected => some (.type, issue.span.start)
  | _ => none

/-- A report that something of a kind is missing is read as such, at the start of its span. -/
theorem Issue.missing?_of_kind (span : Span) (kind : Placeholder.Kind) :
    Issue.missing? ⟨span, kind.problem⟩ = some (kind, span.start) := by
  cases kind <;> rfl

/-- An issue reports something of a kind as missing at an offset exactly when its problem is that of
the kind and its span starts there. -/
theorem Issue.missing?_eq_some_iff {issue : Issue} {kind : Placeholder.Kind} {start : Nat} :
    issue.missing? = some (kind, start) ↔
      issue.problem = kind.problem ∧ issue.span.start = start := by
  obtain ⟨span, problem⟩ := issue
  cases problem <;> cases kind <;> simp [Issue.missing?, Placeholder.Kind.problem]

/-- Where something of a kind was reported as missing, in order. -/
theorem map_start_filter_problem (issues : List Issue) (kind : Placeholder.Kind) :
    (issues.filter fun issue => issue.problem = kind.problem).map (·.span.start) =
      ((issues.filterMap Issue.missing?).filter (·.1 = kind)).map (·.2) := by
  induction issues with
  | nil => rfl
  | cons issue rest ih =>
    by_cases hproblem : issue.problem = kind.problem
    · have hmissing := Issue.missing?_eq_some_iff.mpr ⟨hproblem, rfl⟩
      simp [hproblem, hmissing, ih]
    · cases hmissing : issue.missing? with
      | none => simp [hproblem, hmissing, ih]
      | some report =>
        obtain ⟨other, start⟩ := report
        have hother : other ≠ kind := by
          rintro rfl
          exact hproblem (Issue.missing?_eq_some_iff.mp hmissing).1
        simp [hproblem, hmissing, hother, ih]

/-- One placeholder was made before another, and stands where that one does or before it. -/
structure Placeholder.Precedes (first second : Placeholder) : Prop where
  id : first.node.id < second.node.id
  start : first.start ≤ second.start

/-- A token that stands in a text covers characters, unless it is the end of the text. -/
theorem Token.Located.nonempty {alphabet : Alphabet} {text : List Char} {token : Token}
    (h : token.Located alphabet text) (hkind : token.kind ≠ .endOfText) :
    token.span.start < token.span.stop := by
  obtain ⟨c, rest, -, -, hcut⟩ := h.front hkind
  have hlength := List.length_pos_iff.mpr (Lexeme.front_cases alphabet c rest).text_ne_nil
  rw [← hcut, Span.cut, List.length_take, Span.length] at hlength
  omega

namespace ParseState

/-- What was reported as missing are the given placeholders, which were made in that order, and
nothing stands behind the current token. -/
structure Files (s : ParseState) (placeholders : List Placeholder) : Prop where
  placed : ∃ text, s.Placed text
  reports : s.issues.filterMap Issue.missing? =
    placeholders.map fun placeholder => (placeholder.kind, placeholder.start)
  ordered : placeholders.Pairwise Placeholder.Precedes
  made : ∀ placeholder ∈ placeholders, placeholder.node.id < s.nextId
  behind : ∀ placeholder ∈ placeholders, placeholder.start ≤ s.current.span.start

namespace Files

variable {s : ParseState} {placeholders : List Placeholder} (h : s.Files placeholders)
include h

/-- Giving a number keeps what has been filed. -/
theorem numbered : s.numbered.Files placeholders := by
  obtain ⟨text, hplaced⟩ := h.placed
  refine ⟨⟨text, hplaced.numbered⟩, h.reports, h.ordered, fun placeholder hmem => ?_, h.behind⟩
  exact Nat.lt_succ_of_lt (h.made placeholder hmem)

/-- Taking a token keeps what has been filed, since placeholders only stand at or before the current
token. -/
theorem taken : s.taken.Files placeholders := by
  obtain ⟨text, hplaced⟩ := h.placed
  have hleads := hplaced.leads_taken
  constructor
  case placed => exact ⟨text, hplaced.taken⟩
  case reports => rw [s.taken_issues, h.reports]
  case ordered => exact h.ordered
  case made =>
    exact fun placeholder hmem => Nat.lt_of_lt_of_le (h.made placeholder hmem) hleads.nextId
  case behind =>
    exact fun placeholder hmem => Nat.le_trans (h.behind placeholder hmem) hleads.start

/-- A report that nothing is missing leaves the placeholders as they are. -/
theorem report {problem : Problem} (hproblem : ∀ kind, problem ≠ Placeholder.Kind.problem kind) :
    ((Parse.report problem).run s).2.Files placeholders := by
  obtain ⟨text, hplaced⟩ := h.placed
  have hnone : Issue.missing? ⟨s.current.span, problem⟩ = none := by
    rw [Option.eq_none_iff_forall_ne_some]
    rintro ⟨kind, start⟩ hsome
    exact hproblem kind (Issue.missing?_eq_some_iff.mp hsome).1
  have hreports : (s.issues ++ [(⟨s.current.span, problem⟩ : Issue)]).filterMap Issue.missing? =
      s.issues.filterMap Issue.missing? := by
    simp [hnone]
  exact ⟨⟨text, (Parse.report_runs problem s hplaced).1⟩, hreports.trans h.reports, h.ordered,
    h.made, h.behind⟩

/-- Something is reported as missing, and a placeholder is made for it. -/
theorem reported (kind : Placeholder.Kind) :
    ((Parse.report kind.problem).run s).2.numbered.Files
      (placeholders ++
        [⟨kind, ⟨s.nextId, ⟨s.current.span.start, s.current.span.start⟩⟩⟩]) := by
  obtain ⟨text, hplaced⟩ := h.placed
  constructor
  case placed => exact ⟨text, (Parse.report_runs kind.problem s hplaced).1.numbered⟩
  case reports =>
    show (s.issues ++ [(⟨s.current.span, kind.problem⟩ : Issue)]).filterMap Issue.missing? = _
    simp [Issue.missing?_of_kind, h.reports, Placeholder.start]
  case ordered =>
    refine List.pairwise_append.mpr ⟨h.ordered, List.pairwise_singleton _ _, ?_⟩
    intro placeholder hmem new hnew
    rw [List.mem_singleton.mp hnew]
    exact ⟨h.made placeholder hmem, h.behind placeholder hmem⟩
  case made =>
    refine List.forall_mem_append.mpr ⟨fun placeholder hmem => ?_, ?_⟩
    · exact Nat.lt_succ_of_lt (h.made placeholder hmem)
    · rw [List.forall_mem_singleton]
      exact Nat.lt_succ_self _
  case behind =>
    refine List.forall_mem_append.mpr ⟨h.behind, ?_⟩
    rw [List.forall_mem_singleton]
    exact Nat.le_refl _

end Files

/-- At the start of a text, nothing is filed as missing. -/
theorem files_initial (text : List Char) :
    (Parse.initial (Token.ofText Alphabet.standard text)).Files [] := by
  refine ⟨⟨text, .initial text⟩, ?_, .nil, nofun, nofun⟩
  rw [Parse.initial_issues]
  rfl

end ParseState

namespace Parse

variable {α β : Type}

/-- A parse that starts with some placeholders made ends with others, whatever was made before. -/
def Records (before : List Placeholder) (p : Parse α) (after : α → List Placeholder) : Prop :=
  ∀ (context : List Placeholder) (s : ParseState), s.Files (context ++ before) →
    (p.run s).2.Files (context ++ after (p.run s).1)

/-- A parse makes no placeholder. -/
def Omits (p : Parse α) : Prop :=
  ∀ (placeholders : List Placeholder) (s : ParseState), s.Files placeholders →
    (p.run s).2.Files placeholders

namespace Records

variable {before : List Placeholder} {p : Parse α} {made : α → List Placeholder}

/-- A parse that does nothing makes the placeholders that were made before. -/
theorem pure {a : α} (h : before = made a) : Records before (pure a) made := by
  intro context s hbefore
  rw [h] at hbefore
  exact hbefore

/-- Parses in a row hand on the placeholders from one to the next. -/
theorem bind {f : α → Parse β} {final : β → List Placeholder} (hp : Records before p made)
    (hf : ∀ a, Records (made a) (f a) final) : Records before (p >>= f) final :=
  fun context s h => hf _ context _ (hp context s h)

/-- A choice ends with the placeholders with which both branches end. -/
theorem ite {c : Prop} [Decidable c] {q : Parse α} (hp : Records before p made)
    (hq : Records before q made) : Records before (if c then p else q) made := by
  split
  · exact hp
  · exact hq

/-- What was made before stays in front. -/
theorem frame (first : List Placeholder) (h : Records before p made) :
    Records (first ++ before) p fun a => first ++ made a := by
  intro context s hall
  rw [← List.append_assoc] at hall ⊢
  exact h (context ++ first) s hall

/-- A parse that starts with nothing adds what it makes at the end. -/
theorem after (first : List Placeholder) (h : Records [] p made) :
    Records first p fun a => first ++ made a := by
  have hframe := h.frame first
  rwa [List.append_nil] at hframe

/-- The current token covers characters, unless it is the end of the text. -/
theorem current {f : Token → Parse α} (h : ∀ token : Token,
    (token.kind ≠ .endOfText → token.span.start < token.span.stop) →
      Records before (f token) made) : Records before (Parse.current >>= f) made := by
  intro context s hfiles
  obtain ⟨text, hplaced⟩ := hfiles.placed
  exact h s.current hplaced.current.nonempty context s hfiles

/-- A new node has the span it is made with. -/
theorem newNode {f : Node → Parse α} {span : Span}
    (h : ∀ id, Records before (f ⟨id, span⟩) made) : Records before (Parse.newNode span >>= f) made :=
  fun context s hfiles => h s.nextId context s.numbered hfiles.numbered

end Records

namespace Omits

/-- Steps in a row that make no placeholder make none together. -/
theorem bind {p : Parse α} {f : α → Parse β} (hp : Omits p) (hf : ∀ a, Omits (f a)) :
    Omits (p >>= f) :=
  fun placeholders s h => hf _ placeholders _ (hp placeholders s h)

/-- A choice between steps that make no placeholder makes none. -/
theorem ite {c : Prop} [Decidable c] {p q : Parse α} (hp : Omits p) (hq : Omits q) :
    Omits (if c then p else q) := by
  split
  · exact hp
  · exact hq

/-- A step that makes no placeholder leaves the others as they are. -/
theorem next {p : Parse α} {f : α → Parse β} {before : List Placeholder}
    {made : β → List Placeholder} (hp : Omits p) (hf : ∀ a, Records before (f a) made) :
    Records before (p >>= f) made :=
  fun context s h => hf _ context _ (hp _ s h)

end Omits

/-! ## Steps -/

/-- Doing nothing makes no placeholder. -/
theorem pure_omits (a : α) : Omits (pure a) :=
  fun _ _ h => h

/-- Looking at the current token makes no placeholder. -/
theorem current_omits : Omits current :=
  fun _ _ h => h

/-- Counting the tokens ahead makes no placeholder. -/
theorem remaining_omits : Omits remaining :=
  fun _ _ h => h

/-- Asking for the kind of the current token makes no placeholder. -/
theorem isAt_omits (kind : TokenKind) : Omits (isAt kind) :=
  fun _ _ h => h

/-- Asking for a punctuator makes no placeholder. -/
theorem isAtPunctuator_omits (p : Punctuator) : Omits (isAtPunctuator p) :=
  isAt_omits _

/-- Taking a token makes no placeholder. -/
theorem advance_omits : Omits advance :=
  fun _ _ h => h.taken

/-- Closing a node makes no placeholder. -/
theorem closeNode_omits (start : Nat) : Omits (closeNode start) :=
  fun _ _ h => h.numbered

/-- A report of another problem than a missing name, expression or type makes no placeholder. -/
theorem report_omits {problem : Problem}
    (h : ∀ kind, problem ≠ Placeholder.Kind.problem kind) : Omits (report problem) :=
  fun _ _ hfiles => hfiles.report h

/-- Expecting a punctuator makes no placeholder, for it reports another problem. -/
theorem expectPunctuator_omits (p : Punctuator) : Omits (expectPunctuator p) :=
  (isAt_omits _).bind fun _ => .ite advance_omits (report_omits fun kind => by cases kind <;> nofun)

/-- Taking a punctuator, if it is there, makes no placeholder. -/
theorem accept?_omits (p : Punctuator) : Omits (accept? p) :=
  (isAtPunctuator_omits p).bind fun _ => .ite
    (current_omits.bind fun _ => advance_omits.bind fun _ => pure_omits _) (pure_omits _)

/-- Taking a punctuator and telling whether it was there makes no placeholder. -/
theorem accept_omits (p : Punctuator) : Omits (accept p) :=
  (accept?_omits p).bind fun _ => pure_omits _

/-- A name that the current token spells has characters. -/
theorem placeholders_of_word {s : ParseState} {placeholders : List Placeholder}
    (hfiles : s.Files placeholders)
    (hkind : s.current.kind = .identifier ∨ s.current.kind.isKeyword = true) (node : Node) :
    (Identifier.mk node s.current.value).placeholders = [] := by
  obtain ⟨text, hplaced⟩ := hfiles.placed
  have hordinary : s.current.kind ≠ .endOfText := by
    rcases hkind with h | h <;> intro hend <;> rw [hend] at h <;> cases h
  have hvalue := ((hplaced.ready.genuine hordinary).word hkind).2
  simp [Identifier.placeholders, Identifier.isMissing, hvalue]

/-- A name is a placeholder where none stands, and this is reported. -/
theorem identifier_records : Records [] identifier Identifier.placeholders := by
  intro context s hfiles
  by_cases hname : s.current.kind.isName = true
  · rw [identifier_run hname]
    rw [placeholders_of_word hfiles (TokenKind.isWord_of_isName hname)]
    exact hfiles.taken.numbered
  · have hrun : identifier.run s = (⟨⟨s.nextId, ⟨s.current.span.start, s.current.span.start⟩⟩, ""⟩,
        ((report .identifierExpected).run s).2.numbered) := by
      rw [identifier, run_bind, current_run, if_neg hname]
      rfl
    rw [List.append_nil] at hfiles
    rw [hrun]
    exact hfiles.reported .name

/-- The name of a member is a placeholder where none stands, and this is reported. -/
theorem memberName_records : Records [] memberName Identifier.placeholders := by
  intro context s hfiles
  by_cases hkeyword : s.current.kind.isKeyword = true
  · rw [memberName_run (.inl hkeyword), placeholders_of_word hfiles (.inr hkeyword)]
    exact hfiles.taken.numbered
  · have hrun : memberName.run s = identifier.run s := by
      rw [memberName, run_bind, current_run, if_neg hkeyword]
    rw [hrun]
    exact identifier_records context s hfiles

/-! ## Expressions -/

/-- A parse makes the placeholders of the expression that it gives. -/
abbrev RecordsExpr (before : List Placeholder) (p : Parse Expr) : Prop :=
  Records before p Expr.placeholders

/-- A missing expression is a placeholder, and this is reported. -/
theorem missing_records : RecordsExpr [] missing := by
  intro context s hfiles
  rw [List.append_nil] at hfiles
  exact hfiles.reported .expression

section Levels

variable {assignment operand : Parse Expr} (h : RecordsExpr [] assignment)
include h

/-- A primary expression makes the placeholders of its parts. -/
theorem primary_records : RecordsExpr [] (primary assignment) := by
  refine current_omits.next fun token => .ite (identifier_records.bind fun _ => .pure rfl) ?_
  cases Literal.ofToken? token with
  | some value => exact advance_omits.next fun _ => .newNode fun id => .pure rfl
  | none =>
    refine (accept_omits _).next fun _ => .ite ?_ missing_records
    exact Records.bind h fun _ => (expectPunctuator_omits _).next fun _ =>
      (closeNode_omits _).next fun _ => .pure rfl

/-- Further arguments make their placeholders from left to right. -/
theorem argumentsTail_records (limit : Nat) :
    Records [] (argumentsTail assignment limit) argumentPlaceholders := by
  induction limit with
  | zero => exact .pure rfl
  | succ limit ih =>
    refine (isAtPunctuator_omits _).next fun _ => (isAt_omits _).next fun _ => .ite (.pure rfl) ?_
    refine Records.bind h fun argument => (accept_omits _).next fun _ => .ite ?_ (.pure ?_)
    · exact (ih.after argument.placeholders).bind fun _ => .pure rfl
    · exact (List.append_nil _).symm

/-- Arguments make their placeholders from left to right. -/
theorem arguments_records : Records [] (arguments assignment) argumentPlaceholders :=
  (expectPunctuator_omits _).next fun _ => remaining_omits.next fun limit =>
    (argumentsTail_records h limit).bind fun _ => (expectPunctuator_omits _).next fun _ => .pure rfl

/-- Members, keys and calls add their placeholders to those of the expression before them. -/
theorem accessTail_records (limit : Nat) (e : Expr) :
    RecordsExpr e.placeholders (accessTail assignment limit e) := by
  induction limit generalizing e with
  | zero => exact .pure rfl
  | succ limit ih =>
    refine (accept_omits _).next fun _ => .ite ?_ ?_
    · exact (memberName_records.after e.placeholders).bind fun name =>
        (closeNode_omits _).next fun node => ih (.member node e name)
    refine (accept_omits _).next fun _ => .ite ?_ ?_
    · exact (Records.after e.placeholders h).bind fun key =>
        (expectPunctuator_omits _).next fun _ =>
          (closeNode_omits _).next fun node => ih (.element node e key)
    refine (isAtPunctuator_omits _).next fun _ => .ite ?_ (.pure rfl)
    exact ((arguments_records h).after e.placeholders).bind fun values =>
      (closeNode_omits _).next fun node => ih (.call node e values)

/-- A primary expression with what follows it makes the placeholders of its tree. -/
theorem access_records : RecordsExpr [] (access assignment) :=
  (primary_records h).bind fun e => remaining_omits.next fun limit => accessTail_records h limit e

/-- Operators in front make the placeholders of the operand. -/
theorem unary_records {operand? : Option (Parse Expr)}
    (hoperand : ∀ operand ∈ operand?, RecordsExpr [] operand) :
    RecordsExpr [] (unary assignment operand?) := by
  refine current_omits.next fun token => ?_
  cases UnaryOp.ofToken? token.kind with
  | none => exact access_records h
  | some op =>
    cases operand? with
    | none => exact missing_records
    | some operand =>
      exact advance_omits.next fun _ => (hoperand operand rfl).bind fun e =>
        (closeNode_omits _).next fun _ => .pure rfl

end Levels

section Levels

variable {assignment operand : Parse Expr} (hoperand : RecordsExpr [] operand)
include hoperand

/-- Operators and right operands add their placeholders to those of the left operand. -/
theorem binaryTail_records (limit : Nat) (bound : Precedence) (left : Expr) :
    RecordsExpr left.placeholders (binaryTail operand limit bound left) := by
  induction limit generalizing bound left with
  | zero => exact .pure rfl
  | succ limit ih =>
    refine current_omits.next fun token => ?_
    cases BinaryOp.ofToken? token.kind with
    | none => exact .pure rfl
    | some op =>
      refine .ite (advance_omits.next fun _ => ?_) (.pure rfl)
      -- the right operand is read while the left one waits
      refine (Records.after left.placeholders hoperand).bind fun first => ?_
      refine ((ih op.precedence.rightFloor first).frame left.placeholders).bind fun right => ?_
      exact (closeNode_omits _).next fun node => ih bound (.binary node left op token.span right)

/-- Operands joined by operators make the placeholders of their tree. -/
theorem binary_records : RecordsExpr [] (binary operand) :=
  Records.bind hoperand fun left => remaining_omits.next fun limit =>
    binaryTail_records hoperand limit .floor left

variable (h : RecordsExpr [] assignment)
include h

/-- A choice makes the placeholders of its condition and its branches. -/
theorem conditional_records : RecordsExpr [] (conditional assignment operand) := by
  refine (binary_records hoperand).bind fun condition => (accept_omits _).next fun _ =>
    .ite ?_ (.pure rfl)
  refine (Records.after condition.placeholders h).bind fun whenTrue =>
    (expectPunctuator_omits _).next fun _ => ?_
  refine (Records.after (condition.placeholders ++ whenTrue.placeholders) h).bind fun _ =>
    (closeNode_omits _).next fun _ => .pure ?_
  exact List.append_assoc _ _ _

/-- An assignment makes the placeholders of its target and its value. -/
theorem assignment_records : RecordsExpr [] (Parse.assignment assignment operand) := by
  refine (conditional_records hoperand h).bind fun target => (accept?_omits _).next fun mark => ?_
  cases mark with
  | none => exact .pure rfl
  | some mark =>
    exact (Records.after target.placeholders h).bind fun _ =>
      (closeNode_omits _).next fun _ => .pure rfl

end Levels

/-- Nested expressions make the placeholders of their trees at every depth. -/
theorem nested_records (depth : Nat) :
    RecordsExpr [] (nested depth).assignment ∧ RecordsExpr [] (nested depth).unary := by
  induction depth with
  | zero => exact ⟨missing_records, unary_records missing_records nofun⟩
  | succ depth ih =>
    obtain ⟨hassignment, hunary⟩ := ih
    have houter := assignment_records hunary hassignment
    refine ⟨houter, unary_records houter ?_⟩
    rintro operand ⟨⟩
    exact hunary

/-- An expression makes the placeholders of its tree. -/
theorem expression_records : RecordsExpr [] expression :=
  (nested_records depthLimit).1

/-- A whole expression makes the placeholders of its tree and no others. -/
theorem wholeExpression_records : RecordsExpr [] wholeExpression := by
  refine expression_records.bind fun _ => current_omits.next fun token => .ite ?_ ?_
  · exact .pure rfl
  · exact (report_omits fun kind => by cases kind <;> nofun).next fun _ => .pure rfl

/-! ## Types -/

/-- A parse makes the placeholders of the type that it gives. -/
abbrev RecordsType (before : List Placeholder) (p : Parse TypeNode) : Prop :=
  Records before p TypeNode.placeholders

/-- Looking ahead for a function type makes no placeholder. -/
theorem startsFunctionType_omits : Omits startsFunctionType :=
  fun _ _ h => h

/-- A missing type is a placeholder, and this is reported. -/
theorem missingType_records : RecordsType [] missingType := by
  intro context s hfiles
  have hrun : missingType.run s =
      (.word ⟨s.nextId, ⟨s.current.span.start, s.current.span.start⟩⟩ .any,
        ((report .typeExpected).run s).2.numbered) := rfl
  rw [List.append_nil] at hfiles
  rw [hrun, TypeNode.placeholders, if_pos ⟨rfl, rfl⟩]
  exact hfiles.reported .type

section Types

variable {type : Parse TypeNode} (h : RecordsType [] type)
include h

/-- An annotation makes the placeholders of its type. -/
theorem optionalType_records : Records [] (optionalType type) annotationPlaceholders :=
  (accept_omits _).next fun _ => .ite (Records.bind h fun _ => .pure rfl) (.pure rfl)

/-- A parameter makes the placeholders of its name and its type. -/
theorem parameter_records : Records [] (parameter type) Parameter.placeholders := by
  refine current_omits.next fun token => (accept?_omits _).next fun rest => ?_
  refine identifier_records.bind fun name => (accept_omits _).next fun _ => ?_
  exact ((optionalType_records h).after name.placeholders).bind fun _ =>
    (closeNode_omits _).next fun _ => .pure rfl

/-- Further parameters make their placeholders from left to right. -/
theorem parametersTail_records (limit : Nat) (afterRest : Bool) :
    Records [] (parametersTail type limit afterRest) parameterPlaceholders := by
  induction limit generalizing afterRest with
  | zero => exact .pure rfl
  | succ limit ih =>
    refine (isAtPunctuator_omits _).next fun _ => (isAt_omits _).next fun _ => .ite (.pure rfl) ?_
    have hothers : Records [] (do
        let first ← parameter type
        if ← accept .comma then
          return first :: (← parametersTail type limit first.isRest)
        else return [first]) parameterPlaceholders := by
      refine (parameter_records h).bind fun first => (accept_omits _).next fun _ =>
        .ite ?_ (.pure ?_)
      · exact ((ih first.isRest).after first.placeholders).bind fun _ => .pure rfl
      · exact (List.append_nil _).symm
    have hreport : Omits (report .restParameterNotLast) :=
      report_omits fun kind => by cases kind <;> nofun
    exact .ite (hreport.next fun _ => hothers) hothers

/-- Parameters make their placeholders from left to right. -/
theorem parameters_records : Records [] (parameters type) parameterPlaceholders :=
  (expectPunctuator_omits _).next fun _ => remaining_omits.next fun limit =>
    (parametersTail_records h limit false).bind fun _ =>
      (expectPunctuator_omits _).next fun _ => .pure rfl

/-- A member makes the placeholders of its name, its parameters and its type. -/
theorem element_records : Records [] (element type) TypeElement.placeholders := by
  refine current_omits.next fun token => memberName_records.bind fun name =>
    (accept_omits _).next fun _ => (isAtPunctuator_omits _).next fun _ => .ite ?_ ?_
  · refine ((parameters_records h).after name.placeholders).bind fun values => ?_
    refine ((optionalType_records h).after
      (name.placeholders ++ parameterPlaceholders values)).bind fun _ => ?_
    exact (closeNode_omits _).next fun _ => .pure (List.append_assoc _ _ _)
  · exact ((optionalType_records h).after name.placeholders).bind fun _ =>
      (closeNode_omits _).next fun _ => .pure rfl

/-- Further members make their placeholders from left to right. -/
theorem elementsTail_records (limit : Nat) :
    Records [] (elementsTail type limit) elementPlaceholders := by
  induction limit with
  | zero => exact .pure rfl
  | succ limit ih =>
    refine (isAtPunctuator_omits _).next fun _ => (isAt_omits _).next fun _ => .ite (.pure rfl) ?_
    refine current_omits.next fun token => (element_records h).bind fun first => ?_
    have hothers : Records first.placeholders (do
        return first :: (← elementsTail type limit)) elementPlaceholders :=
      (ih.after first.placeholders).bind fun _ => .pure rfl
    have hmoves : Records first.placeholders (do
        if (← current).span.start = token.span.start then advance
        return first :: (← elementsTail type limit)) elementPlaceholders :=
      current_omits.next fun _ => .ite (advance_omits.next fun _ => hothers) hothers
    exact (accept_omits _).next fun _ => .ite hmoves ((accept_omits _).next fun _ => hmoves)

/-- Members make their placeholders from left to right. -/
theorem elements_records : Records [] (elements type) elementPlaceholders :=
  (expectPunctuator_omits _).next fun _ => remaining_omits.next fun limit =>
    (elementsTail_records h limit).bind fun _ => (expectPunctuator_omits _).next fun _ => .pure rfl

/-- A primary type makes the placeholders of its parts. -/
theorem primaryType_records : RecordsType [] (primaryType type) := by
  refine Records.current fun token hwide => ?_
  cases hword : TypeWord.ofToken? token.kind with
  | some word =>
    have hordinary : token.kind ≠ .endOfText := by
      intro hend
      rw [hend] at hword
      cases hword
    have hwidth := Nat.ne_of_lt (hwide hordinary)
    refine advance_omits.next fun _ => .newNode fun id => .pure ?_
    rw [TypeNode.placeholders, if_neg fun hempty => hwidth hempty.2]
  | none =>
    cases Literal.ofToken? token with
    | some value =>
      exact advance_omits.next fun _ => .newNode fun _ => (closeNode_omits _).next fun _ =>
        .pure rfl
    | none =>
      refine .ite ?_ (.ite ?_ (.ite ?_ missingType_records))
      · exact (elements_records h).bind fun _ => (closeNode_omits _).next fun _ => .pure rfl
      · refine startsFunctionType_omits.next fun _ => .ite ?_ ?_
        · refine (parameters_records h).bind fun values =>
            (expectPunctuator_omits _).next fun _ => ?_
          exact (Records.after (parameterPlaceholders values) h).bind fun _ =>
            (closeNode_omits _).next fun _ => .pure rfl
        · exact advance_omits.next fun _ => Records.bind h fun _ =>
            (expectPunctuator_omits _).next fun _ => (closeNode_omits _).next fun _ => .pure rfl
      · exact identifier_records.bind fun _ => (closeNode_omits _).next fun _ => .pure rfl

omit h in
/-- Brackets after a type add no placeholder to it. -/
theorem arrayTail_records (start limit : Nat) (element : TypeNode) :
    RecordsType element.placeholders (arrayTail start limit element) := by
  induction limit generalizing element with
  | zero => exact .pure rfl
  | succ limit ih =>
    refine current_omits.next fun token => .ite ?_ (.pure rfl)
    exact advance_omits.next fun _ => (expectPunctuator_omits _).next fun _ =>
      (closeNode_omits _).next fun node => ih (.array node element)

/-- An array type makes the placeholders of its element. -/
theorem arrayType_records : RecordsType [] (arrayType type) :=
  current_omits.next fun _ => (primaryType_records h).bind fun element =>
    remaining_omits.next fun limit => arrayTail_records _ limit element

/-- Further members of a union make their placeholders from left to right. -/
theorem unionTail_records (limit : Nat) : Records [] (unionTail type limit) typePlaceholders := by
  induction limit with
  | zero => exact .pure rfl
  | succ limit ih =>
    refine (accept_omits _).next fun _ => .ite ?_ (.pure rfl)
    exact (arrayType_records h).bind fun member => (ih.after member.placeholders).bind fun _ =>
      .pure rfl

/-- A union makes the placeholders of its members. -/
theorem unionType_records : RecordsType [] (unionType type) := by
  refine current_omits.next fun token => (accept_omits _).next fun _ =>
    (arrayType_records h).bind fun first => remaining_omits.next fun limit =>
      ((unionTail_records h limit).after first.placeholders).bind fun others => ?_
  cases others with
  | nil => exact .pure (List.append_nil _)
  | cons second others => exact (closeNode_omits _).next fun _ => .pure rfl

end Types

/-- Nested types make the placeholders of their trees at every depth. -/
theorem nestedType_records (depth : Nat) : RecordsType [] (nestedType depth) := by
  induction depth with
  | zero => exact missingType_records
  | succ depth ih => exact unionType_records ih

/-- A type makes the placeholders of its tree. -/
theorem typeNode_records : RecordsType [] typeNode :=
  nestedType_records depthLimit

/-! ## Statements -/

/-- The end of a statement makes no placeholder, for it reports another problem. -/
theorem endStatement_omits : Omits endStatement :=
  current_omits.bind fun _ => .ite advance_omits
    (.ite (pure_omits _) (report_omits fun kind => by cases kind <;> nofun))

/-- Looking at the next token makes no placeholder. -/
theorem nextKind_omits : Omits nextKind :=
  fun _ _ h => h

/-- A variable declaration makes the placeholders of its name, its type and its value. -/
theorem variableDeclaration_records :
    Records [] variableDeclaration VariableDeclaration.placeholders := by
  refine current_omits.next fun token => identifier_records.bind fun name => ?_
  refine ((optionalType_records typeNode_records).after name.placeholders).bind fun written => ?_
  have hclose (value : Option Expr) :
      Records ((name.placeholders ++ annotationPlaceholders written) ++
          argumentPlaceholders value.toList)
        (do return (⟨← closeNode token.span.start, name, written, value⟩ : VariableDeclaration))
        VariableDeclaration.placeholders :=
    (closeNode_omits _).next fun node => .pure (List.append_assoc _ _ _)
  refine (accept_omits _).next fun _ => .ite ?_ ?_
  · refine (expression_records.after _).bind fun value => ?_
    have hsome := hclose (some value)
    rwa [Option.toList_some, argumentPlaceholders, argumentPlaceholders, List.append_nil] at hsome
  · have hnone := hclose none
    rwa [Option.toList_none, argumentPlaceholders, List.append_nil] at hnone

/-- Further variable declarations make their placeholders from left to right. -/
theorem variablesTail_records (limit : Nat) :
    Records [] (variablesTail limit) fun declarations =>
      declarations.flatMap VariableDeclaration.placeholders := by
  induction limit with
  | zero => exact .pure rfl
  | succ limit ih =>
    refine variableDeclaration_records.bind fun first => (accept_omits _).next fun _ =>
      .ite ?_ (.pure ?_)
    · exact (ih.after first.placeholders).bind fun _ => .pure List.flatMap_cons.symm
    · exact (List.flatMap_singleton _ _).symm

/-- A parse makes the placeholders of the statement that it gives. -/
abbrev RecordsStatement (before : List Placeholder) (p : Parse Statement) : Prop :=
  Records before p Statement.placeholders

/-- A variable statement makes the placeholders of its declarations. -/
theorem variableStatement_records (start : Nat) (ambient : Bool) (form : VariableForm) :
    RecordsStatement [] (variableStatement start ambient form) :=
  current_omits.next fun _ => advance_omits.next fun _ => remaining_omits.next fun limit =>
    (variablesTail_records limit).bind fun _ => (closeNode_omits _).next fun _ =>
      endStatement_omits.next fun _ => (closeNode_omits _).next fun _ => .pure rfl

/-- A function declaration makes the placeholders of its name, its parameters and its result. -/
theorem functionDeclaration_records (start : Nat) (ambient : Bool) :
    RecordsStatement [] (functionDeclaration start ambient) := by
  refine advance_omits.next fun _ => identifier_records.bind fun name => ?_
  refine ((parameters_records typeNode_records).after name.placeholders).bind fun values => ?_
  refine ((optionalType_records typeNode_records).after
    (name.placeholders ++ parameterPlaceholders values)).bind fun _ => ?_
  exact endStatement_omits.next fun _ => (closeNode_omits _).next fun _ =>
    .pure (List.append_assoc _ _ _)

/-- An interface declaration makes the placeholders of its name and its members. -/
theorem interfaceDeclaration_records (start : Nat) :
    RecordsStatement [] (interfaceDeclaration start) :=
  advance_omits.next fun _ => identifier_records.bind fun name =>
    ((elements_records typeNode_records).after name.placeholders).bind fun _ =>
      (closeNode_omits _).next fun _ => .pure rfl

/-- An alias declaration makes the placeholders of its name and its type. -/
theorem aliasDeclaration_records (start : Nat) : RecordsStatement [] (aliasDeclaration start) :=
  advance_omits.next fun _ => identifier_records.bind fun name =>
    (expectPunctuator_omits _).next fun _ => (typeNode_records.after name.placeholders).bind
      fun _ => endStatement_omits.next fun _ => (closeNode_omits _).next fun _ => .pure rfl

/-- An expression statement makes the placeholders of its expression. -/
theorem expressionStatement_records : RecordsStatement [] expressionStatement :=
  current_omits.next fun _ => expression_records.bind fun _ => endStatement_omits.next fun _ =>
    (closeNode_omits _).next fun _ => .pure rfl

/-- A statement other than a block makes the placeholders of its tree. -/
theorem declaration_records (start : Nat) (ambient : Bool) :
    RecordsStatement [] (declaration start ambient) := by
  refine current_omits.next fun token => ?_
  split
  · exact variableStatement_records start ambient .hoisted
  · exact variableStatement_records start ambient .constant
  · exact nextKind_omits.next fun _ =>
      .ite (variableStatement_records start ambient .block) expressionStatement_records
  · exact functionDeclaration_records start ambient
  · exact nextKind_omits.next fun _ =>
      .ite (interfaceDeclaration_records start) expressionStatement_records
  · exact nextKind_omits.next fun _ =>
      .ite (aliasDeclaration_records start) expressionStatement_records
  · exact expressionStatement_records

/-- A statement makes the placeholders of its tree, if the statements of a block make theirs. -/
theorem statement_records {body : Parse (List Statement)}
    (h : Records [] body statementPlaceholders) : RecordsStatement [] (statement body) := by
  refine current_omits.next fun token => ?_
  dsimp only
  split
  · exact advance_omits.next fun _ => .newNode fun _ => .pure rfl
  · exact advance_omits.next fun _ => Records.bind h fun _ =>
      (expectPunctuator_omits _).next fun _ => (closeNode_omits _).next fun _ => .pure rfl
  · refine nextKind_omits.next fun _ => .ite ?_ (declaration_records _ false)
    exact advance_omits.next fun _ => declaration_records _ true
  · exact declaration_records _ false

/-- Statements make their placeholders from left to right. -/
theorem statementsTail_records (limit : Nat) :
    Records [] (statementsTail limit) statementPlaceholders := by
  induction limit with
  | zero => exact .pure rfl
  | succ limit ih =>
    refine (isAt_omits _).next fun _ => (isAtPunctuator_omits _).next fun _ => .ite (.pure rfl) ?_
    refine current_omits.next fun token => (statement_records ih).bind fun first => ?_
    have hothers : Records first.placeholders (do
        return first :: (← statementsTail limit)) statementPlaceholders :=
      (ih.after first.placeholders).bind fun _ => .pure rfl
    have hreport : Omits (report .statementExpected) :=
      report_omits fun kind => by cases kind <;> nofun
    refine current_omits.next fun _ => .ite ?_ hothers
    exact hreport.next fun _ => advance_omits.next fun _ => hothers

/-- A file makes the placeholders of its tree and no others. -/
theorem wholeFile_records (name : String) (text : List Char) :
    Records [] (wholeFile name text) SourceFile.placeholders := by
  have hstatements : Records [] statements statementPlaceholders :=
    remaining_omits.next fun limit => statementsTail_records limit
  exact hstatements.bind fun _ => .newNode fun _ => .pure rfl

end Parse

/-! ## What is reported in the end -/

/-- The placeholders of a tree are numbered in their order, and what is reported as missing, each
kind of it, are the places of these placeholders. -/
structure Parsed.Accounts {α : Type} (parsed : Parsed α) (placeholders : List Placeholder) :
    Prop where
  numbered : placeholders.Pairwise fun first second => first.node.id < second.node.id
  reported : ∀ kind : Placeholder.Kind,
    (parsed.issues.filter fun issue => issue.problem = kind.problem).map (·.span.start) =
      (placeholders.filter fun placeholder => placeholder.kind = kind).map (·.start)
  quiet : parsed.issues = [] → placeholders = []

namespace Parse

variable {α : Type}

/-- Faults of tokens do not say that something is missing. -/
theorem filter_tokenIssues (text : List Char) (final : ParseState) (kind : Placeholder.Kind) :
    (tokenIssues (Token.ofText Alphabet.standard text) final).filter
      (fun issue => issue.problem = kind.problem) = [] := by
  rw [List.filter_eq_nil_iff]
  intro issue hissue
  obtain ⟨token, htoken, hfault⟩ := List.mem_filterMap.mp hissue
  have hproblem := Token.ofText_isLexical Alphabet.standard text token
    (List.mem_of_mem_take htoken) issue hfault
  intro heq
  rw [of_decide_eq_true heq] at hproblem
  cases kind <;> cases hproblem

/-- A parse that makes the placeholders of its result reports them. -/
theorem Records.accounts {p : Parse α} {made : α → List Placeholder} (h : Records [] p made)
    (text : List Char) :
    (throughout p (Token.ofText Alphabet.standard text)).Accounts
      (made (throughout p (Token.ofText Alphabet.standard text)).tree) := by
  have hfiles := h [] _ (ParseState.files_initial text)
  rw [List.nil_append] at hfiles
  have hfaults := filter_tokenIssues text
  unfold throughout
  generalize Token.ofText Alphabet.standard text = tokens at hfiles hfaults ⊢
  generalize p.run (initial tokens) = result at hfiles ⊢
  obtain ⟨tree, final⟩ := result
  dsimp only at hfiles ⊢
  have hstarts (kind : Placeholder.Kind) :
      (final.issues.filter fun issue => issue.problem = kind.problem).map (·.span.start) =
        ((made tree).filter fun placeholder => placeholder.kind = kind).map (·.start) := by
    rw [map_start_filter_problem, hfiles.reports, List.filter_map, List.map_map]
    rfl
  have hreported (kind : Placeholder.Kind) :
      ((Issue.sortByStart (final.issues ++ tokenIssues tokens final)).filter fun issue =>
        issue.problem = kind.problem).map (·.span.start) =
      ((made tree).filter fun placeholder => placeholder.kind = kind).map (·.start) := by
    rw [Issue.filter_sortByStart, List.filter_append, hfaults, List.append_nil, hstarts]
    rw [List.filter_append, hfaults, List.append_nil]
    rw [← List.pairwise_map (R := (· ≤ ·)), hstarts, List.pairwise_map]
    exact (hfiles.ordered.filter _).imp Placeholder.Precedes.start
  refine ⟨hfiles.ordered.imp Placeholder.Precedes.id, hreported, fun hquiet => ?_⟩
  rw [List.eq_nil_iff_forall_not_mem]
  intro placeholder hmem
  have hkind := hreported placeholder.kind
  dsimp only at hquiet
  rw [hquiet, List.filter_nil, List.map_nil, eq_comm, List.map_eq_nil_iff,
    List.filter_eq_nil_iff] at hkind
  exact hkind placeholder hmem (decide_eq_true rfl)

end Parse

/-- In a parsed expression and in a parsed file there is a placeholder for each report that
something is missing, where it says, in the order in which nodes are numbered, and there is no
other. -/
theorem parse_reports_placeholders (name text : String) :
    (Expr.parse text).Accounts (Expr.parse text).tree.placeholders ∧
      (SourceFile.parse name text).Accounts (SourceFile.parse name text).tree.placeholders :=
  ⟨Parse.wholeExpression_records.accounts text.toList,
    (Parse.wholeFile_records name text.toList).accounts text.toList⟩

end ExpressionTyping
