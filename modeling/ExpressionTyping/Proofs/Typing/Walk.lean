import ExpressionTyping.Proofs.Syntax.Children
import ExpressionTyping.Proofs.Typing.Repository
import ExpressionTyping.Typing.Check

/-!
# The walk computes a recursion

A check reports by putting issues in at a mark of a growing list. Here that walk is shown to compute
a plain recursion: `infer` gives the type of an expression and its issues, those of the expression
itself before those of its parts, and knows no list but its own result. From any state of the
reports, `visit` ends with that type and with those issues added at the end (`visit_yields`). The
mark of an expression is the length of what was reported before it, so splicing at the mark is
appending to that (`settle_yields`).

The recursion reports every expression at the depth limit and the walk only the first, so what is
added to a state depends on whether nesting was reported before: `CheckState.add` says how.
-/

set_option autoImplicit false

namespace ExpressionTyping

open Std.Do

/-! ## What is added to the reports -/

/-- Whether an issue is about nesting. -/
def Issue.isNesting (issue : Issue) : Bool :=
  issue.problem = .tooDeeplyNested

namespace Check

/-- Drops the issues about nesting, all of them if nesting was reported and else all but the first. -/
def nestingOnce : (reported : Bool) → List Issue → List Issue
  | _, [] => []
  | reported, issue :: rest =>
    if issue.isNesting then
      if reported then nestingOnce true rest else issue :: nestingOnce true rest
    else issue :: nestingOnce reported rest

/-- Issues in a row are kept or dropped one part after the other. -/
theorem nestingOnce_append (reported : Bool) (first second : List Issue) :
    nestingOnce reported (first ++ second) =
      nestingOnce reported first ++ nestingOnce (reported || first.any Issue.isNesting) second := by
  induction first generalizing reported with
  | nil => simp [nestingOnce]
  | cons issue rest ih =>
    cases hissue : issue.isNesting <;> cases reported <;> simp [nestingOnce, hissue, ih]

/-- Nothing is dropped where no issue is about nesting. -/
theorem nestingOnce_eq_self (reported : Bool) {issues : List Issue}
    (h : ∀ issue ∈ issues, issue.isNesting = false) : nestingOnce reported issues = issues := by
  induction issues with
  | nil => rfl
  | cons issue rest ih =>
    have hissue : issue.isNesting = false := h issue List.mem_cons_self
    have hrest := ih fun other hother => h other (List.mem_cons_of_mem issue hother)
    simp [nestingOnce, hissue, hrest]

end Check

namespace CheckState

/-- The state after issues were found, of which those about nesting are reported once. -/
def add (s : CheckState) (issues : List Issue) : CheckState :=
  ⟨s.issues ++ Check.nestingOnce s.nestingReported issues,
    s.nestingReported || issues.any Issue.isNesting⟩

/-- Adding no issues changes nothing, since nesting is not reported anew. -/
@[simp] theorem add_nil (s : CheckState) : s.add [] = s := by
  simp [add, Check.nestingOnce]

/-- Adding issues in two steps is adding them at once. -/
@[simp] theorem add_add (s : CheckState) (first second : List Issue) :
    (s.add first).add second = s.add (first ++ second) := by
  simp [add, Check.nestingOnce_append, Bool.or_assoc]

end CheckState

/-! ## What rules may say -/

variable {τ : Type}

/-- The type that a rule gives, canonical types taken from `answer`. -/
def Outcome.resolve (answer : TypeKind → τ) : Outcome τ → τ
  | given type => type
  | canonical kind => answer kind

/-- A verdict that can be settled: it asks for no canonical type of `other`, and it says nothing
about nesting. -/
structure Verdict.Settled (verdict : Verdict τ) : Prop where
  outcome : verdict.outcome ≠ .canonical .other
  issues : ∀ issue ∈ verdict.issues, issue.isNesting = false

/-- Whether a problem is one that an operator, a member or a call has with the types of its parts. -/
def Problem.isAboutParts : Problem → Bool
  | leftOperandNotNumber | rightOperandNotNumber | additionMismatch _ _ | instanceNotObject
  | classNotFunction | keyNotScalar | keyedNotObject | missingMember _ _ | notCallable _
  | argumentCount _ _ | tooFewArguments _ _ => true
  | _ => false

/-- A verdict on the types of the parts of an expression. -/
structure Verdict.OnParts (verdict : Verdict τ) : Prop where
  outcome : verdict.outcome ≠ .canonical .other
  issues : ∀ issue ∈ verdict.issues, issue.problem.isAboutParts = true

/-- An issue about the parts of an expression is not about nesting. -/
theorem Issue.isNesting_eq_false {issue : Issue} (h : issue.problem.isAboutParts = true) :
    issue.isNesting = false := by
  obtain ⟨span, problem⟩ := issue
  cases problem <;> first | rfl | cases h

/-- A verdict on the types of the parts can be settled. -/
theorem Verdict.OnParts.settled {verdict : Verdict τ} (h : verdict.OnParts) : verdict.Settled :=
  ⟨h.outcome, fun issue hissue => Issue.isNesting_eq_false (h.issues issue hissue)⟩

namespace Rule

/-- A canonical type that can be asked for is a verdict on the types of the parts. -/
theorem plain_onParts {kind : TypeKind} (h : kind ≠ .other) : (plain kind : Verdict τ).OnParts :=
  ⟨by simpa [plain] using h, by simp [plain]⟩

/-- A type that is given is a verdict on the types of the parts. -/
theorem given_onParts (type : τ) : (⟨[], .given type⟩ : Verdict τ).OnParts :=
  ⟨by simp, by simp⟩

/-- A verdict with one issue about the parts, after which the type is `any`. -/
theorem failed_onParts (span : Span) {problem : Problem} (h : problem.isAboutParts = true) :
    (⟨[⟨span, problem⟩], .canonical .any⟩ : Verdict τ).OnParts :=
  ⟨by simp, by simpa using h⟩

/-- The kind of a literal has a canonical type. -/
theorem literalKind_ne_other (value : Literal) : literalKind value ≠ .other := by
  cases value <;> simp [literalKind]

/-- The kind that an operator in front gives has a canonical type. -/
theorem unaryKind_ne_other (op : UnaryOp) : unaryKind op ≠ .other := by
  cases op <;> simp [unaryKind]

/-- The verdict on a name can be settled. -/
theorem identifier_settled (scope : SymbolTable τ) (name : Identifier) :
    (identifier scope name).Settled := by
  unfold identifier
  cases scope.get? name.text with
  | some type => exact (given_onParts type).settled
  | none =>
    simp only
    split
    · exact (plain_onParts (by simp)).settled
    · exact ⟨by simp, by simp [Issue.isNesting]⟩

variable [TypeView τ]

/-- The type on which operands agree is a verdict on the types of the parts. -/
theorem agreeing_onParts (left right : τ) : (⟨[], agreeing left right⟩ : Verdict τ).OnParts := by
  unfold agreeing
  split
  · exact given_onParts left
  · exact plain_onParts (by simp)

/-- Whether a type of a kind is known by its members. -/
def isStructured (kind : TypeKind) : Bool :=
  kind ∈ [.object, .function, .other]

/-- Members are looked up in structured types only. -/
theorem member_eq (object : τ) (name : Identifier) :
    member object name =
      if isStructured (TypeView.kind object) then
        match (TypeView.members object).get? name.text with
        | some type => ⟨[], .given type⟩
        | none =>
          ⟨[⟨name.node.span, .missingMember name.text (TypeView.name object)⟩], .canonical .any⟩
      else plain .any := by
  unfold member
  cases TypeView.kind object <;> rfl

/-- The rule for a member gives a verdict on the types of the parts. -/
theorem member_onParts (object : τ) (name : Identifier) : (member object name).OnParts := by
  rw [member_eq]
  split
  · cases (TypeView.members object).get? name.text with
    | some type => exact given_onParts type
    | none => exact failed_onParts _ rfl
  · exact plain_onParts (by simp)

/-- The rule for a call gives a verdict on the types of the parts. -/
theorem call_onParts (callSpan calleeSpan : Span) (callee : τ) (count : Nat) :
    (call callSpan calleeSpan callee count).OnParts := by
  unfold call
  split
  · exact plain_onParts (by simp)
  · split
    · exact given_onParts _
    · split
      · exact failed_onParts _ (by split <;> rfl)
      · split
        · exact plain_onParts (by simp)
        · exact failed_onParts _ rfl

/-- The rule for `+` gives a verdict on the types of the parts. -/
theorem add_onParts (span : Span) (left right : τ) : (add span left right).OnParts := by
  unfold add
  split
  · exact plain_onParts (by simp)
  · split
    · exact plain_onParts (by simp)
    · split
      · exact plain_onParts (by simp)
      · exact failed_onParts _ rfl

/-- The rule for a binary operator gives a verdict on the types of the parts. -/
theorem binary_onParts (op : BinaryOp) (span leftSpan rightSpan : Span) (left right : τ) :
    (binary op span leftSpan rightSpan left right).OnParts := by
  have hrequire {kind : TypeKind} (hkind : kind ≠ .other) (first second : Bool)
      {p q : Problem} (hp : p.isAboutParts = true) (hq : q.isAboutParts = true) :
      (⟨require first leftSpan p ++ require second rightSpan q, .canonical kind⟩ :
        Verdict τ).OnParts := by
    refine ⟨by simpa using hkind, ?_⟩
    cases first <;> cases second <;> simp [require, hp, hq]
  cases op with
  | multiply | divide | subtract | remainder | power | instanceOf | isIn =>
    exact hrequire (by simp) _ _ rfl rfl
  | add => exact add_onParts span left right
  | logicalAnd => exact given_onParts right
  | logicalOr | coalesce => exact agreeing_onParts left right
  | equal | notEqual | strictEqual | strictNotEqual | less | greater | lessOrEqual
  | greaterOrEqual | bitAnd | bitOr | bitXor | shiftLeft | shiftRight | shiftRightUnsigned =>
    exact plain_onParts (by simp)

end Rule

/-! ## The recursion -/

/-- A type and what is wrong with the expression that has it. -/
structure Inferred (τ : Type) where
  /-- The type. -/
  type : τ
  /-- What is wrong, an expression before its parts. -/
  issues : List Issue

namespace Check

variable [TypeView τ]

/-- What a rule says of an expression, followed by what is wrong with its parts. -/
def conclude (answer : TypeKind → τ) (verdict : Verdict τ) (parts : List Issue) : Inferred τ :=
  ⟨verdict.outcome.resolve answer, verdict.issues ++ parts⟩

mutual

/-- The type of an expression and what is wrong with it, looking `levels` levels deep. -/
def infer (answer : TypeKind → τ) (scope : SymbolTable τ) (levels : Nat) (e : Expr) : Inferred τ :=
  match levels, e with
  | 0, e => ⟨answer .any, [⟨e.span, .tooDeeplyNested⟩]⟩
  | _ + 1, .identifier name => conclude answer (Rule.identifier scope name) []
  | _ + 1, .literal _ value => conclude answer (Rule.plain (Rule.literalKind value)) []
  | levels + 1, .parenthesized _ inner => infer answer scope levels inner
  | levels + 1, .member _ object name =>
    let object := infer answer scope levels object
    conclude answer (Rule.member object.type name) object.issues
  | levels + 1, .element _ object key =>
    conclude answer (Rule.plain .any)
      ((infer answer scope levels object).issues ++ (infer answer scope levels key).issues)
  | levels + 1, .call node callee arguments =>
    let function := infer answer scope levels callee
    conclude answer (Rule.call node.span callee.span function.type arguments.length)
      (function.issues ++ inferAll answer scope levels arguments)
  | levels + 1, .unary _ op operand =>
    conclude answer (Rule.plain (Rule.unaryKind op)) (infer answer scope levels operand).issues
  | levels + 1, .binary node left op _ right =>
    let first := infer answer scope levels left
    let second := infer answer scope levels right
    conclude answer (Rule.binary op node.span left.span right.span first.type second.type)
      (first.issues ++ second.issues)
  | levels + 1, .assign _ target _ value =>
    let value := infer answer scope levels value
    conclude answer ⟨[], .given value.type⟩
      ((infer answer scope levels target).issues ++ value.issues)
  | levels + 1, .conditional _ condition whenTrue whenFalse =>
    let first := infer answer scope levels whenTrue
    let second := infer answer scope levels whenFalse
    conclude answer ⟨[], Rule.agreeing first.type second.type⟩
      ((infer answer scope levels condition).issues ++ (first.issues ++ second.issues))
  | _ + 1, .missing _ => conclude answer (Rule.plain .any) []

/-- What is wrong with expressions in order. -/
def inferAll (answer : TypeKind → τ) (scope : SymbolTable τ) (levels : Nat) (es : List Expr) :
    List Issue :=
  match es with
  | [] => []
  | e :: rest => (infer answer scope levels e).issues ++ inferAll answer scope levels rest

end

/-! ## The walk computes the recursion -/

variable {m : Type → Type} {ps : PostShape} [Monad m] [WPMonad m ps] {inv : Assertion ps}
  {canonical : TypeKind → m τ} {answer : TypeKind → τ}

omit [TypeView τ] [WPMonad m ps] in
/-- The mark of an expression is the length of what was reported before it. -/
theorem mark_run [LawfulMonad m] (s : CheckState) :
    (mark : StateT CheckState m Nat).run s = pure (s.issues.length, s) := by
  simp [mark]

omit [TypeView τ] in
/-- Issues put in at the mark where an expression began stand before those of the parts that were
walked since. -/
theorem emit_run (s : CheckState) {own : List Issue}
    (hown : ∀ issue ∈ own, issue.isNesting = false) (parts : List Issue) :
    (emit s.issues.length own : StateT CheckState m Unit).run (s.add parts) =
      pure ((), s.add (own ++ parts)) := by
  have hany : own.any Issue.isNesting = false := by simpa using hown
  simp [emit, CheckState.add, nestingOnce_append, nestingOnce_eq_self _ hown, hany]

omit [TypeView τ] in
/-- Settling a verdict at the mark where an expression began gives the type the rule gives, and the
issues of the expression before those of its parts. -/
theorem settle_yields (h : Answers inv canonical answer) {verdict : Verdict τ}
    (hverdict : verdict.Settled) (s : CheckState) (parts : List Issue) :
    Yields inv ((settle canonical s.issues.length verdict).run (s.add parts))
      (verdict.outcome.resolve answer, s.add (verdict.issues ++ parts)) := by
  have hemit := emit_run (m := m) s hverdict.issues parts
  obtain ⟨issues, outcome⟩ := verdict
  cases outcome with
  | given type =>
    have hrun : (settle canonical s.issues.length ⟨issues, .given type⟩).run (s.add parts) =
        pure (type, s.add (issues ++ parts)) := by
      simp [settle, hemit]
    rw [hrun]
    exact Yields.pure inv _
  | canonical kind =>
    have hkind : kind ≠ .other := fun heq => hverdict.outcome (by rw [heq])
    have hrun : (settle canonical s.issues.length ⟨issues, .canonical kind⟩).run (s.add parts) =
        canonical kind >>= fun type => pure (type, s.add (issues ++ parts)) := by
      simp [settle, hemit]
    rw [hrun]
    exact (h kind hkind).bind (Yields.pure inv _)

omit [TypeView τ] in
/-- An expression below the depth limit is reported unless one was before. -/
theorem stopAt_yields (h : Answers inv canonical answer) (span : Span) (s : CheckState) :
    Yields inv ((stopAt canonical span).run s)
      (answer .any, s.add [⟨span, .tooDeeplyNested⟩]) := by
  have hrun : (stopAt canonical span).run s =
      canonical .any >>= fun type => pure (type, s.add [⟨span, .tooDeeplyNested⟩]) := by
    obtain ⟨issues, reported⟩ := s
    cases reported <;> simp [stopAt, mark, emit, CheckState.add, nestingOnce, Issue.isNesting]
  rw [hrun]
  exact (h .any (by simp)).bind (Yields.pure inv _)

/-- If walking each of some expressions adds its issues, walking them in order adds all issues. -/
theorem visitAll_yields {scope : SymbolTable τ} {depth levels : Nat} {es : List Expr}
    (hes : ∀ e ∈ es, ∀ s, Yields inv ((visit canonical scope depth e).run s)
      ((infer answer scope levels e).type, s.add (infer answer scope levels e).issues))
    {s : CheckState} :
    Yields inv ((visitAll canonical scope depth es).run s)
      ((), s.add (inferAll answer scope levels es)) := by
  induction es generalizing s with
  | nil => simpa [visitAll, inferAll] using Yields.pure inv ((), s)
  | cons e rest ih =>
    simp only [visitAll, inferAll, StateT.run_bind]
    refine (hes e List.mem_cons_self s).bind ?_
    rw [← CheckState.add_add]
    exact ih fun other hother => hes other (List.mem_cons_of_mem e hother)

omit [WPMonad m ps] in
/-- From the depth limit on, an expression is not looked at. -/
theorem visit_of_limit_le (canonical : TypeKind → m τ) (scope : SymbolTable τ) {depth : Nat}
    (h : depthLimit ≤ depth) (e : Expr) :
    visit canonical scope depth e = stopAt canonical e.span := by
  cases e <;> simp [visit, h]

/-- Walking an expression from any state gives the type that the recursion gives and adds the issues
that it gives. -/
theorem visit_yields (h : Answers inv canonical answer) (scope : SymbolTable τ) (depth : Nat)
    (e : Expr) (s : CheckState) :
    Yields inv ((visit canonical scope depth e).run s)
      ((infer answer scope (depthLimit - depth) e).type,
        s.add (infer answer scope (depthLimit - depth) e).issues) := by
  induction e using Expr.induction_on_children generalizing depth s with
  | step e ih =>
  by_cases hdepth : depthLimit ≤ depth
  · have hlevels : depthLimit - depth = 0 := by omega
    rw [visit_of_limit_le canonical scope hdepth, hlevels]
    simpa only [infer] using stopAt_yields h e.span s
  -- One level down, the walk is one deeper and the recursion has one level less.
  · obtain ⟨levels, hlevels, hnext⟩ : ∃ levels, depthLimit - depth = levels + 1 ∧
        depthLimit - (depth + 1) = levels := ⟨depthLimit - (depth + 1), by omega, rfl⟩
    rw [hlevels]
    have hchild := fun child hc => ih child hc (depth + 1)
    rw [hnext] at hchild
    rw [visit, if_neg hdepth]
    simp only [StateT.run_bind, mark_run, pure_bind]
    cases e with
    | identifier name =>
      simpa [infer, conclude] using settle_yields h (Rule.identifier_settled scope name) s []
    | literal node value =>
      simpa [infer, conclude] using
        settle_yields h (Rule.plain_onParts (Rule.literalKind_ne_other value)).settled s []
    | missing node =>
      simpa [infer, conclude] using settle_yields h (Rule.plain_onParts (by simp)).settled s []
    | parenthesized node inner =>
      simpa only [infer] using hchild inner (by simp) s
    | member node object name =>
      simp only [StateT.run_bind, infer, conclude]
      refine (hchild object (by simp) s).bind ?_
      exact settle_yields h (Rule.member_onParts _ name).settled s _
    | element node object key =>
      simp only [StateT.run_bind, infer, conclude]
      refine (hchild object (by simp) s).bind ?_
      refine (hchild key (by simp) _).bind ?_
      rw [CheckState.add_add]
      exact settle_yields h (Rule.plain_onParts (by simp)).settled s _
    | call node callee arguments =>
      simp only [StateT.run_bind, infer, conclude]
      refine (hchild callee (by simp) s).bind ?_
      have hall : ∀ child ∈ arguments, child ∈ (Expr.call node callee arguments).children :=
        fun child hc => List.mem_cons_of_mem _ hc
      refine (visitAll_yields fun child hc => hchild child (hall child hc)).bind ?_
      rw [CheckState.add_add]
      exact settle_yields h (Rule.call_onParts _ _ _ _).settled s _
    | unary node op operand =>
      simp only [StateT.run_bind, infer, conclude]
      refine (hchild operand (by simp) s).bind ?_
      exact settle_yields h (Rule.plain_onParts (Rule.unaryKind_ne_other op)).settled s _
    | binary node left op mark right =>
      simp only [StateT.run_bind, infer, conclude]
      refine (hchild left (by simp) s).bind ?_
      refine (hchild right (by simp) _).bind ?_
      rw [CheckState.add_add]
      exact settle_yields h (Rule.binary_onParts op _ _ _ _ _).settled s _
    | assign node target mark value =>
      simp only [StateT.run_bind, infer, conclude]
      refine (hchild target (by simp) s).bind ?_
      refine (hchild value (by simp) _).bind ?_
      rw [CheckState.add_add]
      exact settle_yields h (Rule.given_onParts _).settled s _
    | conditional node condition whenTrue whenFalse =>
      simp only [StateT.run_bind, infer, conclude]
      refine (hchild condition (by simp) s).bind ?_
      refine (hchild whenTrue (by simp) _).bind ?_
      refine (hchild whenFalse (by simp) _).bind ?_
      rw [CheckState.add_add, CheckState.add_add, List.append_assoc]
      exact settle_yields h (Rule.agreeing_onParts _ _).settled s _

/-- A check reports the issues of the recursion, those about nesting once. -/
theorem check_yields (h : Answers inv canonical answer) (scope : SymbolTable τ) (e : Expr) :
    Yields inv (e.check canonical scope)
      (nestingOnce false (infer answer scope depthLimit e).issues) := by
  unfold Expr.check
  refine (visit_yields h scope 0 e initial).bind ?_
  exact Yields.pure inv _

end Check

end ExpressionTyping
