import ExpressionTyping.Proofs.Typing.Simulation

/-!
# Giving a name the type `any`

An expression is checked twice: under a scope, and under the scope in which one name has, or gets, a
type of kind `any`. The second check finds, wherever the first finds a type, the same type or one of
kind `any`, and every rule is monotone in this: of an operand of kind `any` nothing is reported, and
what comes out is again the same or of kind `any`. So the second check reports nothing new
(`rebound_simulation`).

If the name was not bound, the first check found `any` for it too, and the two differ in nothing but
the reports that the name is not defined (`unbound_simulation`). Both comparisons keep the issues
about nesting, of which only the first is reported.
-/

set_option autoImplicit false

namespace ExpressionTyping

open Std.Do TypeView

/-- Whether an issue reports that a name is not defined. -/
def Issue.reportsName (name : String) (issue : Issue) : Bool :=
  issue.problem = .undefinedName name

namespace Check

variable {τ : Type} [TypeView τ] {answer : TypeKind → τ} {scope : SymbolTable τ}

/-! ## Fewer issues -/

/-- The second list leaves out issues of the first, but none about nesting. -/
def Thins (issues issues' : List Issue) : Prop :=
  issues'.Sublist issues ∧ issues'.filter Issue.isNesting = issues.filter Issue.isNesting

/-- Leaving out nothing leaves out no issue about nesting. -/
theorem Thins.refl (issues : List Issue) : Thins issues issues :=
  ⟨List.Sublist.refl issues, rfl⟩

/-- Leaving out issues in each of two parts leaves them out of the whole. -/
theorem Thins.append {a a' b b' : List Issue} (first : Thins a a') (second : Thins b b') :
    Thins (a ++ b) (a' ++ b') := by
  refine ⟨first.1.append second.1, ?_⟩
  rw [List.filter_append, List.filter_append, first.2, second.2]

/-- Issues of which none is about nesting may all be left out. -/
theorem Thins.nil {issues : List Issue} (h : ∀ issue ∈ issues, issue.isNesting = false) :
    Thins issues [] := by
  refine ⟨List.nil_sublist _, ?_⟩
  symm
  rw [List.filter_nil, List.filter_eq_nil_iff]
  intro issue hissue
  simp [h issue hissue]

/-- Leaving out issues before those about nesting are dropped leaves out issues after it. -/
theorem Thins.nestingOnce {issues issues' : List Issue} (h : Thins issues issues')
    (reported : Bool) :
    (nestingOnce reported issues').Sublist (nestingOnce reported issues) := by
  obtain ⟨hsublist, hnesting⟩ := h
  induction hsublist generalizing reported with
  | slnil => exact List.Sublist.refl _
  | @cons kept all issue hkept ih =>
    -- an issue about nesting is not left out, since the other list would have one less of them
    have hissue : issue.isNesting = false := by
      by_contra hne
      have hlength := (hkept.filter Issue.isNesting).length_le
      rw [hnesting, List.filter_cons_of_pos (by simpa using hne), List.length_cons] at hlength
      omega
    have hrest : kept.filter Issue.isNesting = all.filter Issue.isNesting := by
      rwa [List.filter_cons_of_neg (by simp [hissue])] at hnesting
    simp only [Check.nestingOnce, hissue]
    exact (ih reported hrest).cons issue
  | @cons_cons kept all issue hkept ih =>
    cases hissue : issue.isNesting with
    | false =>
      simp only [List.filter_cons, hissue] at hnesting
      simp only [Check.nestingOnce, hissue]
      exact (ih reported hnesting).cons_cons issue
    | true =>
      simp only [List.filter_cons, hissue, if_true, List.cons.injEq, true_and] at hnesting
      cases reported with
      | false =>
        simp only [Check.nestingOnce, hissue]
        exact (ih true hnesting).cons_cons issue
      | true =>
        simp only [Check.nestingOnce, hissue]
        exact ih true hnesting

/-! ## Rules are monotone -/

/-- The second type is the first or of kind `any`. -/
def Blurs (type type' : τ) : Prop :=
  type' = type ∨ kind type' = .any

/-- Each type blurs itself. -/
theorem Blurs.refl (type : τ) : Blurs type type :=
  .inl rfl

/-- An operand that is required to be of a kind that admits `any` is not reported for being `any`. -/
theorem require_thins {type type' : τ} (h : Blurs type type') {admits : TypeKind → Bool}
    (hany : admits .any = true) (span : Span) {problem : Problem}
    (hproblem : problem.isAboutParts = true) :
    Thins (Rule.require (admits (kind type)) span problem)
      (Rule.require (admits (kind type')) span problem) := by
  rcases h with rfl | h
  · exact Thins.refl _
  · rw [h, hany]
    apply Thins.nil
    intro issue hissue
    apply Issue.isNesting_eq_false
    cases hkind : admits (kind type) <;> simp_all [Rule.require]

/-- Operands that blur to `any` make the type on which they agree blur to `any` too. -/
theorem blurs_agreeing (hanswer : kind (answer .any) = .any) {left left' right right' : τ}
    (hleft : Blurs left left') (hright : Blurs right right') :
    Blurs ((Rule.agreeing left right).resolve answer)
      ((Rule.agreeing left' right').resolve answer) := by
  by_cases hsame : left' = left ∧ right' = right
  · rw [hsame.1, hsame.2]
    exact Blurs.refl _
  · -- one of the types became `any`, so the result is `any` whether the kinds agree or not
    right
    unfold Rule.agreeing
    split
    next hkinds =>
      rcases hleft with rfl | hleft
      · rcases hright with rfl | hright
        · exact absurd ⟨rfl, rfl⟩ hsame
        · exact hkinds.trans hright
      · exact hleft
    next => exact hanswer

/-- Against a verdict on parts, saying nothing and giving `any` is allowed. -/
theorem plain_any_related (hanswer : kind (answer .any) = .any) {verdict : Verdict τ}
    (h : verdict.Settled) :
    RelatedBy Blurs Thins (conclude answer verdict []) (conclude answer (Rule.plain .any) []) := by
  refine ⟨.inr hanswer, ?_⟩
  simpa [conclude, Rule.plain] using Thins.nil h.issues

/-- A member of `any` is `any`, and nothing is wrong with it. -/
theorem member_of_any {object : τ} (h : kind object = .any) (name : Identifier) :
    Rule.member object name = Rule.plain .any := by
  simp [Rule.member, h]

/-- A call of `any` gives `any`, and nothing is wrong with it. -/
theorem call_of_any {callee : τ} (h : kind callee = .any) (callSpan calleeSpan : Span)
    (count : Nat) : Rule.call callSpan calleeSpan callee count = Rule.plain .any := by
  simp [Rule.call, h]

/-- A sum with `any` in it is a string if the other operand is one, else `any`, and nothing is wrong
with it. -/
theorem add_of_any {left right : τ} (h : kind left = .any ∨ kind right = .any) (span : Span) :
    Rule.add span left right =
      if kind left = .string ∨ kind right = .string then Rule.plain .string
      else Rule.plain .any := by
  unfold Rule.add
  rw [if_pos h]

/-- A sum with an operand that became `any` is still a string if the other operand is one, and else
it is `any`. -/
theorem add_related (hanswer : kind (answer .any) = .any) {left left' right right' : τ}
    (span : Span) (hleft : Blurs left left') (hright : Blurs right right') :
    RelatedBy Blurs Thins (conclude answer (Rule.add span left right) [])
      (conclude answer (Rule.add span left' right') []) := by
  by_cases hsame : left' = left ∧ right' = right
  · rw [hsame.1, hsame.2]
    exact ⟨Blurs.refl _, Thins.refl _⟩
  · have hany : kind left' = .any ∨ kind right' = .any := by
      rcases hleft with rfl | hleft
      · rcases hright with rfl | hright
        · exact absurd ⟨rfl, rfl⟩ hsame
        · exact .inr hright
      · exact .inl hleft
    rw [add_of_any hany]
    split
    next hstring =>
      have hbefore : kind left = .string ∨ kind right = .string := by
        rcases hstring with h | h
        · rcases hleft with rfl | hleft
          · exact .inl h
          · simp [hleft] at h
        · rcases hright with rfl | hright
          · exact .inr h
          · simp [hright] at h
      rw [Rule.add, if_pos hbefore]
      exact ⟨Blurs.refl _, Thins.refl _⟩
    next => exact plain_any_related hanswer (Rule.add_onParts span left right).settled

/-- Blurring the operands of a binary operator blurs its type and leaves out issues only. -/
theorem binary_related (hanswer : kind (answer .any) = .any) {left left' right right' : τ}
    (op : BinaryOp) (span leftSpan rightSpan : Span) (hleft : Blurs left left')
    (hright : Blurs right right') :
    RelatedBy Blurs Thins (conclude answer (Rule.binary op span leftSpan rightSpan left right) [])
      (conclude answer (Rule.binary op span leftSpan rightSpan left' right') []) := by
  have hchecked {first second : TypeKind → Bool} (hfirst : first .any = true)
      (hsecond : second .any = true) {p q : Problem} (hp : p.isAboutParts = true)
      (hq : q.isAboutParts = true) (result : TypeKind) :
      RelatedBy Blurs Thins
        (conclude answer ⟨Rule.require (first (kind left)) leftSpan p ++
          Rule.require (second (kind right)) rightSpan q, .canonical result⟩ [])
        (conclude answer ⟨Rule.require (first (kind left')) leftSpan p ++
          Rule.require (second (kind right')) rightSpan q, .canonical result⟩ []) := by
    refine ⟨Blurs.refl _, ?_⟩
    simp only [conclude, List.append_nil]
    exact (require_thins hleft hfirst leftSpan hp).append
      (require_thins hright hsecond rightSpan hq)
  cases op with
  | multiply | divide | subtract | remainder | power | instanceOf | isIn =>
    exact hchecked rfl rfl rfl rfl _
  | add => exact add_related hanswer span hleft hright
  | logicalAnd => exact ⟨hright, Thins.refl _⟩
  | logicalOr | coalesce => exact ⟨blurs_agreeing hanswer hleft hright, Thins.refl _⟩
  | equal | notEqual | strictEqual | strictNotEqual | less | greater | lessOrEqual
  | greaterOrEqual | bitAnd | bitOr | bitXor | shiftLeft | shiftRight | shiftRightUnsigned =>
    exact ⟨Blurs.refl _, Thins.refl _⟩

/-- Under a scope in which a name has a type of kind `any`, every type is the same as before or of
kind `any`, and issues are only left out. -/
theorem rebound_simulation (hanswer : kind (answer .any) = .any) (scope : SymbolTable τ)
    (name : String) {type : τ} (htype : kind type = .any) :
    Simulation answer answer scope (scope.insert name type) Blurs Thins where
  nil := Thins.refl []
  append := Thins.append
  nesting span := Thins.refl _
  canonical kind _ := Blurs.refl _
  identifier other := by
    by_cases hother : other.text = name
    · have hrule : Rule.identifier (scope.insert name type) other = ⟨[], .given type⟩ := by
        simp [Rule.identifier, SymbolTable.get?_insert, hother]
      rw [hrule]
      refine ⟨.inr htype, ?_⟩
      simpa [conclude] using Thins.nil (Rule.identifier_settled scope other).issues
    · have hrule : Rule.identifier (scope.insert name type) other =
          Rule.identifier scope other := by
        simp [Rule.identifier, SymbolTable.get?_insert, hother]
      rw [hrule]
      exact ⟨Blurs.refl _, Thins.refl _⟩
  agreeing := blurs_agreeing hanswer
  member name hobject := by
    rcases hobject with rfl | hobject
    · exact ⟨Blurs.refl _, Thins.refl _⟩
    · rw [member_of_any hobject]
      exact plain_any_related hanswer (Rule.member_onParts _ name).settled
  call callSpan calleeSpan count hcallee := by
    rcases hcallee with rfl | hcallee
    · exact ⟨Blurs.refl _, Thins.refl _⟩
    · rw [call_of_any hcallee]
      exact plain_any_related hanswer (Rule.call_onParts _ _ _ _).settled
  binary := binary_related hanswer

/-! ## Binding a name that was not bound -/

/-- The second list leaves out the reports that a name is not defined, and nothing else. -/
def Defines (name : String) (issues issues' : List Issue) : Prop :=
  issues' = issues.filter fun issue => !issue.reportsName name

/-- Leaving out the reports on a name in each of two parts leaves them out of the whole. -/
theorem Defines.append {name : String} {a a' b b' : List Issue} (first : Defines name a a')
    (second : Defines name b b') : Defines name (a ++ b) (a' ++ b') := by
  unfold Defines at *
  rw [List.filter_append, first, second]

/-- Nothing is left out of issues with the types of parts. -/
theorem Defines.refl {name : String} {issues : List Issue}
    (h : ∀ issue ∈ issues, issue.problem.isAboutParts = true) : Defines name issues issues := by
  unfold Defines
  symm
  rw [List.filter_eq_self]
  intro issue hissue
  have habout := h issue hissue
  obtain ⟨span, problem⟩ := issue
  cases problem <;> first | rfl | cases habout

/-- Issues about nesting are dropped alike with and without the reports on a name. -/
theorem Defines.nestingOnce {name : String} {issues issues' : List Issue}
    (h : Defines name issues issues') (reported : Bool) :
    Defines name (nestingOnce reported issues) (nestingOnce reported issues') := by
  unfold Defines at *
  subst h
  induction issues generalizing reported with
  | nil => rfl
  | cons issue rest ih =>
    cases hreports : issue.reportsName name with
    | true =>
      have hissue : issue.isNesting = false := by
        simp only [Issue.reportsName, decide_eq_true_eq] at hreports
        simp [Issue.isNesting, hreports]
      simp [Check.nestingOnce, hreports, hissue, ih]
    | false =>
      cases hissue : issue.isNesting <;> cases reported <;>
        simp [Check.nestingOnce, hreports, hissue, ih]

/-- Both types are the same or both of kind `any`. -/
def SameOrAny (type type' : τ) : Prop :=
  type' = type ∨ kind type = .any ∧ kind type' = .any

/-- Each type is the same as itself. -/
theorem SameOrAny.refl (type : τ) : SameOrAny type type :=
  .inl rfl

/-- The same type, and another of kind `any` for one of kind `any`, is of the same kind. -/
theorem SameOrAny.kind_eq {type type' : τ} (h : SameOrAny type type') : kind type' = kind type := by
  rcases h with rfl | ⟨h, h'⟩
  · rfl
  · rw [h, h']

/-- Operands that are the same up to `any` agree on a type that is the same up to `any`. -/
theorem sameOrAny_agreeing {left left' right right' : τ} (hleft : SameOrAny left left')
    (hright : SameOrAny right right') :
    SameOrAny ((Rule.agreeing left right).resolve answer)
      ((Rule.agreeing left' right').resolve answer) := by
  unfold Rule.agreeing
  rw [hleft.kind_eq, hright.kind_eq]
  split
  · exact hleft
  · exact SameOrAny.refl _

/-- A verdict on parts that stays the same is related to itself. -/
theorem unchanged_related (answer : TypeKind → τ) {verdict : Verdict τ} (h : verdict.OnParts)
    (name : String) :
    RelatedBy SameOrAny (Defines name) (conclude answer verdict []) (conclude answer verdict []) :=
  ⟨SameOrAny.refl _, Defines.refl (by simpa [conclude] using h.issues)⟩

/-- The rule of a sum sees the kinds only, unless neither operand is `any`. -/
theorem add_unchanged {left left' right right' : τ} (hleft : SameOrAny left left')
    (hright : SameOrAny right right') (span : Span) :
    Rule.add span left' right' = Rule.add span left right := by
  by_cases hany : kind left = .any ∨ kind right = .any
  · have hany' : kind left' = .any ∨ kind right' = .any := by
      rwa [hleft.kind_eq, hright.kind_eq]
    rw [add_of_any hany, add_of_any hany', hleft.kind_eq, hright.kind_eq]
  · rcases hleft with rfl | ⟨hleft, -⟩
    · rcases hright with rfl | ⟨hright, -⟩
      · rfl
      · exact absurd (.inr hright) hany
    · exact absurd (.inl hleft) hany

/-- Operands that are the same up to `any` leave the type of a binary operator the same up to `any`,
with the same issues. -/
theorem binary_unchanged_related {left left' right right' : τ} (name : String) (op : BinaryOp)
    (span leftSpan rightSpan : Span) (hleft : SameOrAny left left')
    (hright : SameOrAny right right') :
    RelatedBy SameOrAny (Defines name)
      (conclude answer (Rule.binary op span leftSpan rightSpan left right) [])
      (conclude answer (Rule.binary op span leftSpan rightSpan left' right') []) := by
  have hself := unchanged_related answer
    (Rule.binary_onParts op span leftSpan rightSpan left right) name
  cases op with
  | logicalAnd => exact ⟨hright, hself.2⟩
  | logicalOr | coalesce => exact ⟨sameOrAny_agreeing hleft hright, hself.2⟩
  | add =>
    simp only [Rule.binary, add_unchanged hleft hright] at hself ⊢
    exact hself
  | multiply | divide | subtract | remainder | power | instanceOf | isIn =>
    simp only [Rule.binary, hleft.kind_eq, hright.kind_eq] at hself ⊢
    exact hself
  | equal | notEqual | strictEqual | strictNotEqual | less | greater | lessOrEqual
  | greaterOrEqual | bitAnd | bitOr | bitXor | shiftLeft | shiftRight | shiftRightUnsigned =>
    exact hself

/-- Giving a type of kind `any` to a name that was not bound changes no type but that of the name,
which was `any`, and leaves out the reports on the name. -/
theorem unbound_simulation (hanswer : kind (answer .any) = .any) {scope : SymbolTable τ}
    {name : String} (hunbound : scope.get? name = none) (hname : name ≠ "undefined") {type : τ}
    (htype : kind type = .any) :
    Simulation answer answer scope (scope.insert name type) SameOrAny (Defines name) where
  nil := rfl
  append := Defines.append
  nesting span := rfl
  canonical kind _ := SameOrAny.refl _
  identifier other := by
    by_cases hother : other.text = name
    · have hbefore : Rule.identifier scope other =
          ⟨[⟨other.node.span, .undefinedName name⟩], .canonical .any⟩ := by
        simp [Rule.identifier, hother, hunbound, hname]
      have hafter : Rule.identifier (scope.insert name type) other = ⟨[], .given type⟩ := by
        simp [Rule.identifier, SymbolTable.get?_insert, hother]
      rw [hbefore, hafter]
      exact ⟨.inr ⟨hanswer, htype⟩, by simp [Defines, conclude, Issue.reportsName]⟩
    · have hafter : Rule.identifier (scope.insert name type) other =
          Rule.identifier scope other := by
        simp [Rule.identifier, SymbolTable.get?_insert, hother]
      rw [hafter]
      refine ⟨SameOrAny.refl _, ?_⟩
      simp only [conclude, List.append_nil, Rule.identifier]
      split
      · rfl
      · split
        · rfl
        · simp [Defines, Issue.reportsName, hother]
  agreeing := sameOrAny_agreeing
  member member hobject := by
    rcases hobject with rfl | ⟨hobject, hobject'⟩
    · exact unchanged_related answer (Rule.member_onParts _ member) name
    · rw [member_of_any hobject, member_of_any hobject']
      exact unchanged_related answer (Rule.plain_onParts (by simp)) name
  call callSpan calleeSpan count hcallee := by
    rcases hcallee with rfl | ⟨hcallee, hcallee'⟩
    · exact unchanged_related answer (Rule.call_onParts _ _ _ _) name
    · rw [call_of_any hcallee, call_of_any hcallee']
      exact unchanged_related answer (Rule.plain_onParts (by simp)) name
  binary := binary_unchanged_related name

end Check

variable {τ : Type} [TypeView τ] {m : Type → Type} {ps : PostShape} [Monad m] [WPMonad m ps]
  {inv : Assertion ps} {canonical : TypeKind → m τ} {answer : TypeKind → τ}

/-- Giving a name a type of kind `any` never introduces an issue: what is reported then is a part, in
order, of what was reported before. If the name was not bound, exactly the reports that it is not
defined are gone. -/
theorem check_insert_any (h : Answers inv canonical answer) (hanswer : kind (answer .any) = .any)
    (scope : SymbolTable τ) (e : Expr) (x : String) (type : τ) (htype : kind type = .any) :
    ∃ before after, Yields inv (e.check canonical scope) before ∧
      Yields inv (e.check canonical (scope.insert x type)) after ∧
      after.Sublist before ∧
      (scope.get? x = none → x ≠ "undefined" →
        after = before.filter fun issue => !issue.reportsName x) := by
  refine ⟨_, _, Check.check_yields h scope e, Check.check_yields h (scope.insert x type) e, ?_, ?_⟩
  · have hrelated := (Check.rebound_simulation hanswer scope x htype).infer Check.depthLimit e
    exact hrelated.2.nestingOnce false
  · intro hunbound hname
    have hrelated :=
      (Check.unbound_simulation hanswer hunbound hname htype).infer Check.depthLimit e
    exact hrelated.2.nestingOnce false

/-- The static repository, asked about `x - "a"` without and with a type for `x`. -/
theorem check_insert_any_difference :
    ∃ before after,
      Yields (fun cache => ⌜StaticRepository.Sound cache⌝)
        ((Expr.binary ⟨2, ⟨0, 7⟩⟩ (.identifier ⟨⟨0, ⟨0, 1⟩⟩, "x"⟩) .subtract ⟨2, 3⟩
          (.literal ⟨1, ⟨4, 7⟩⟩ (.string "a"))).check StaticRepository.typeOf .empty) before ∧
      Yields (fun cache => ⌜StaticRepository.Sound cache⌝)
        ((Expr.binary ⟨2, ⟨0, 7⟩⟩ (.identifier ⟨⟨0, ⟨0, 1⟩⟩, "x"⟩) .subtract ⟨2, 3⟩
          (.literal ⟨1, ⟨4, 7⟩⟩ (.string "a"))).check StaticRepository.typeOf
            (SymbolTable.empty.insert "x" (.ofKind .any))) after ∧
      after = before.filter fun issue => !issue.reportsName "x" := by
  obtain ⟨before, after, hbefore, hafter, -, hfilter⟩ :=
    check_insert_any StaticRepository.answers rfl .empty
      (.binary ⟨2, ⟨0, 7⟩⟩ (.identifier ⟨⟨0, ⟨0, 1⟩⟩, "x"⟩) .subtract ⟨2, 3⟩
        (.literal ⟨1, ⟨4, 7⟩⟩ (.string "a"))) "x" (.ofKind .any) rfl
  exact ⟨before, after, hbefore, hafter, hfilter rfl (by decide)⟩

end ExpressionTyping
