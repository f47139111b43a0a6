import ExpressionTyping.Proofs.Typing.RuleTable

/-!
# The depth limit only truncates

A check does not look at what lies at the depth limit. So checking an expression is checking the
expression cut there (`Check.visit_cut`), and apart from nesting it reports what the table of rules
says of that one. Of the nodes at the limit the first that the walk comes to is reported, in the
order in which it comes to them, and no other (`check_truncates`).

The recursion that a check computes reports every node at the limit. What it gives is split into the
issues about nesting, one for each of these nodes, and the violations of the cut expression; from
the former a check takes the first.
-/

set_option autoImplicit false

namespace ExpressionTyping

open Std.Do

variable {τ : Type} [TypeView τ]

/-! ## Walking what is cut -/

namespace Check

variable {m : Type → Type} [Monad m]

/-- Expressions that are walked alike one by one are walked alike in order. -/
theorem visitAll_map (canonical : TypeKind → m τ) (scope : SymbolTable τ) (depth : Nat)
    (f : Expr → Expr) {es : List Expr}
    (h : ∀ e ∈ es, visit canonical scope depth (f e) = visit canonical scope depth e) :
    visitAll canonical scope depth (es.map f) = visitAll canonical scope depth es := by
  induction es with
  | nil => rfl
  | cons e rest ih =>
    have hrest := ih fun other hother => h other (List.mem_cons_of_mem e hother)
    rw [List.map_cons, visitAll, visitAll, h e List.mem_cons_self, hrest]

/-- Walking an expression cut at the depth limit is walking the expression. -/
theorem visit_cut (canonical : TypeKind → m τ) (scope : SymbolTable τ) (depth : Nat) (e : Expr) :
    visit canonical scope depth (e.cut (depthLimit - depth)) = visit canonical scope depth e := by
  induction e using Expr.induction_on_children generalizing depth with
  | step e ih =>
  by_cases hdepth : depthLimit ≤ depth
  · rw [visit_of_limit_le canonical scope hdepth, visit_of_limit_le canonical scope hdepth,
      Expr.span_cut]
  · obtain ⟨levels, hlevels, hnext⟩ : ∃ levels, depthLimit - depth = levels + 1 ∧
        depthLimit - (depth + 1) = levels := ⟨depthLimit - (depth + 1), by omega, rfl⟩
    have hchild := fun child hc => ih child hc (depth + 1)
    rw [hnext] at hchild
    rw [hlevels, visit, visit.eq_1 canonical scope depth e, if_neg hdepth, if_neg hdepth]
    cases e with
    | identifier | literal | missing => rfl
    | call node callee arguments =>
      have hcallee := hchild callee List.mem_cons_self
      have harguments := visitAll_map canonical scope (depth + 1) (Expr.cut levels)
        fun argument hc => hchild argument (List.mem_cons_of_mem callee hc)
      simp only [Expr.cut, hcallee, harguments, Expr.span_cut, List.length_map]
    | parenthesized | member | element | unary | binary | assign | conditional =>
      simp only [Expr.children, List.forall_mem_cons] at hchild
      simp only [Expr.cut, hchild, Expr.span_cut]

end Check

/-! ## The two parts of what is reported -/

/-- The issue that reports a node as nested too deeply. -/
def Expr.nestingIssue (e : Expr) : Issue :=
  ⟨e.span, .tooDeeplyNested⟩

namespace Check

/-- Dropping issues about nesting keeps all others. -/
theorem filter_not_nestingOnce (reported : Bool) (issues : List Issue) :
    (nestingOnce reported issues).filter (fun issue => !issue.isNesting) =
      issues.filter fun issue => !issue.isNesting := by
  induction issues generalizing reported with
  | nil => rfl
  | cons issue rest ih =>
    cases hissue : issue.isNesting <;> cases reported <;> simp [nestingOnce, hissue, ih]

/-- Of the issues about nesting the first is kept, unless one was reported. -/
theorem filter_nestingOnce (reported : Bool) (issues : List Issue) :
    (nestingOnce reported issues).filter Issue.isNesting =
      if reported then [] else (issues.filter Issue.isNesting).head?.toList := by
  induction issues generalizing reported with
  | nil => cases reported <;> rfl
  | cons issue rest ih =>
    cases hissue : issue.isNesting <;> cases reported <;> simp [nestingOnce, hissue, ih]

end Check

namespace RuleTable

variable (answer : TypeKind → τ) (scope : SymbolTable τ)

/-- Nesting is found once for every node at the depth where the levels end. -/
theorem filter_found (levels : Nat) (e : Expr) :
    (found answer scope levels e).filter Issue.isNesting =
      (e.nodesAt levels).map Expr.nestingIssue := by
  induction levels generalizing e with
  | zero => rfl
  | succ levels ih =>
    have hown : (own answer scope (e.cut (levels + 1))).filter Issue.isNesting = [] := by
      simpa [List.filter_eq_nil_iff] using own_isNesting answer scope (e.cut (levels + 1))
    rw [found, List.filter_append, hown, List.nil_append, List.filter_flatMap, Expr.nodesAt,
      List.map_flatMap]
    exact congrArg (e.children.flatMap ·) (funext ih)

/-- All else that is found are the violations of the expression cut where the levels end. -/
theorem filter_not_found (levels : Nat) (e : Expr) :
    ((found answer scope levels e).filter fun issue => !issue.isNesting) =
      violations answer scope (e.cut levels) := by
  induction levels generalizing e with
  | zero =>
    rw [violations_eq]
    rfl
  | succ levels ih =>
    have hown : (own answer scope (e.cut (levels + 1))).filter (fun issue => !issue.isNesting) =
        own answer scope (e.cut (levels + 1)) := by
      simpa [List.filter_eq_self] using own_isNesting answer scope (e.cut (levels + 1))
    rw [found, List.filter_append, hown, List.filter_flatMap, violations_eq, Expr.children_cut,
      List.flatMap_map]
    exact congrArg (_ ++ e.children.flatMap ·) (funext ih)

end RuleTable

/-- The first node that a walk meets at a depth is the first of the nodes there. -/
theorem Expr.find?_preorder (depth : Nat) (e : Expr) :
    ((e.preorder 0).find? fun place => place.1 = depth) =
      (e.nodesAt depth).head?.map (depth, ·) := by
  have hfilter := e.filter_preorder 0 depth
  rw [Nat.zero_add] at hfilter
  rw [← List.head?_filter, hfilter, List.head?_map]

/-! ## A check of the whole and of what is cut -/

variable {m : Type → Type} {ps : PostShape} [Monad m] [WPMonad m ps] {inv : Assertion ps}
  {canonical : TypeKind → m τ} {answer : TypeKind → τ}

/-- Checking an expression is checking it cut at the depth limit. If a node lies at the limit, the
first that the walk comes to is reported as nested too deeply; no other issue is about nesting, and
the others are the violations of the cut expression, in their order. -/
theorem check_truncates (h : Answers inv canonical answer) (scope : SymbolTable τ) (e : Expr) :
    e.check canonical scope = (e.cut Check.depthLimit).check canonical scope ∧
      ∃ issues, Yields inv (e.check canonical scope) issues ∧
        issues.filter Issue.isNesting =
          (((e.preorder 0).find? fun place => place.1 = Check.depthLimit).map fun place =>
            place.2.nestingIssue).toList ∧
        (issues.filter fun issue => !issue.isNesting) =
          RuleTable.violations answer scope (e.cut Check.depthLimit) := by
  have hcut := Check.visit_cut canonical scope 0 e
  have hcheck := Check.check_yields h scope e
  rw [RuleTable.infer_eq_found] at hcheck
  refine ⟨?_, _, hcheck, ?_, ?_⟩
  · unfold Expr.check
    rw [← hcut, Nat.sub_zero]
  · rw [Check.filter_nestingOnce, RuleTable.filter_found, Expr.find?_preorder]
    cases e.nodesAt Check.depthLimit <;> rfl
  · rw [Check.filter_not_nestingOnce, RuleTable.filter_not_found]

/-- The expression `"a" * (… x …)` with so many parentheses that `x` lies at the depth limit. -/
def deepProduct : Expr :=
  .binary ⟨502, ⟨0, 1005⟩⟩ (.literal ⟨0, ⟨0, 3⟩⟩ (.string "a")) .multiply ⟨4, 5⟩
    ((Expr.parenthesized ⟨501, ⟨6, 1005⟩⟩)^[499] (.identifier ⟨⟨1, ⟨505, 506⟩⟩, "x"⟩))

/-- Of `"a" * (… x …)` the left operand is reported, and `x` as nested too deeply, but not that `x`
is undefined nor anything about the type of the right operand. -/
theorem check_truncates_product :
    ∃ issues, Yields (fun cache => ⌜StaticRepository.Sound cache⌝)
        (deepProduct.check StaticRepository.typeOf .empty) issues ∧
      issues.filter Issue.isNesting = [⟨⟨505, 506⟩, .tooDeeplyNested⟩] ∧
      (issues.filter fun issue => !issue.isNesting) = [⟨⟨0, 3⟩, .leftOperandNotNumber⟩] := by
  obtain ⟨-, issues, hyields, hnesting, hothers⟩ :=
    check_truncates StaticRepository.answers .empty deepProduct
  rw [Expr.find?_preorder] at hnesting
  rw [← RuleTable.filter_not_found] at hothers
  refine ⟨issues, hyields, hnesting.trans ?_, hothers.trans ?_⟩
  · decide +kernel
  · decide +kernel

end ExpressionTyping
