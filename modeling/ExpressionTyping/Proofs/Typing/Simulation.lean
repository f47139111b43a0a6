import ExpressionTyping.Proofs.Typing.Walk

/-!
# Two checks side by side

Two checks of one expression, under two scopes or two repositories, are compared by relating the
types they find and the issues they report. If every rule takes related types to related types and
related issues, so does the whole recursion (`Simulation.infer`). A comparison of two checks is then
only a matter of the rules.
-/

set_option autoImplicit false

namespace ExpressionTyping

namespace Check

variable {τ : Type} [TypeView τ]

/-- What two checks find of one expression: related types and related issues. -/
def RelatedBy (types : τ → τ → Prop) (issues : List Issue → List Issue → Prop)
    (first second : Inferred τ) : Prop :=
  types first.type second.type ∧ issues first.issues second.issues

/-- Two settings of a check whose rules agree up to a relation of types and one of issues. -/
structure Simulation (answer answer' : TypeKind → τ) (scope scope' : SymbolTable τ)
    (types : τ → τ → Prop) (issues : List Issue → List Issue → Prop) : Prop where
  nil : issues [] []
  append : ∀ {a a' b b'}, issues a a' → issues b b' → issues (a ++ b) (a' ++ b')
  nesting : ∀ span, issues [⟨span, .tooDeeplyNested⟩] [⟨span, .tooDeeplyNested⟩]
  canonical : ∀ kind, kind ≠ .other → types (answer kind) (answer' kind)
  identifier : ∀ name, RelatedBy types issues (conclude answer (Rule.identifier scope name) [])
    (conclude answer' (Rule.identifier scope' name) [])
  agreeing : ∀ {left left' right right'}, types left left' → types right right' →
    types ((Rule.agreeing left right).resolve answer) ((Rule.agreeing left' right').resolve answer')
  member : ∀ {object object'} name, types object object' →
    RelatedBy types issues (conclude answer (Rule.member object name) [])
      (conclude answer' (Rule.member object' name) [])
  call : ∀ {callee callee'} callSpan calleeSpan count, types callee callee' →
    RelatedBy types issues (conclude answer (Rule.call callSpan calleeSpan callee count) [])
      (conclude answer' (Rule.call callSpan calleeSpan callee' count) [])
  binary : ∀ {left left' right right'} op span leftSpan rightSpan,
    types left left' → types right right' →
    RelatedBy types issues
      (conclude answer (Rule.binary op span leftSpan rightSpan left right) [])
      (conclude answer' (Rule.binary op span leftSpan rightSpan left' right') [])

namespace Simulation

variable {answer answer' : TypeKind → τ} {scope scope' : SymbolTable τ} {types : τ → τ → Prop}
  {issues : List Issue → List Issue → Prop}

/-- Related verdicts stay related when related issues of the parts are put after them. -/
theorem conclude (h : Simulation answer answer' scope scope' types issues)
    {verdict verdict' : Verdict τ} {parts parts' : List Issue}
    (hverdict : RelatedBy types issues (conclude answer verdict []) (conclude answer' verdict' []))
    (hparts : issues parts parts') :
    RelatedBy types issues (Check.conclude answer verdict parts)
      (Check.conclude answer' verdict' parts') := by
  refine ⟨hverdict.1, h.append ?_ hparts⟩
  simpa [Check.conclude] using hverdict.2

/-- A canonical type that both settings give is related, with related issues of the parts. -/
theorem plain (h : Simulation answer answer' scope scope' types issues) {kind : TypeKind}
    (hkind : kind ≠ .other) {parts parts' : List Issue} (hparts : issues parts parts') :
    RelatedBy types issues (Check.conclude answer (Rule.plain kind) parts)
      (Check.conclude answer' (Rule.plain kind) parts') :=
  ⟨h.canonical kind hkind, by simpa [Check.conclude, Rule.plain] using hparts⟩

/-- If each of some expressions has related issues, so have they in order. -/
theorem inferAll (h : Simulation answer answer' scope scope' types issues) {levels : Nat}
    {es : List Expr}
    (hes : ∀ e ∈ es, RelatedBy types issues (infer answer scope levels e)
      (infer answer' scope' levels e)) :
    issues (Check.inferAll answer scope levels es) (Check.inferAll answer' scope' levels es) := by
  induction es with
  | nil => simpa [Check.inferAll] using h.nil
  | cons e rest ih =>
    simp only [Check.inferAll]
    refine h.append (hes e List.mem_cons_self).2 (ih ?_)
    exact fun other hother => hes other (List.mem_cons_of_mem e hother)

/-- What two checks find of any expression is related. -/
theorem infer (h : Simulation answer answer' scope scope' types issues) (levels : Nat) (e : Expr) :
    RelatedBy types issues (infer answer scope levels e) (infer answer' scope' levels e) := by
  induction e using Expr.induction_on_children generalizing levels with
  | step e ih =>
  cases levels with
  | zero => cases e <;> exact ⟨h.canonical .any (by simp), h.nesting _⟩
  | succ levels =>
    have hchild := fun child hc => ih child hc levels
    cases e with
    | identifier name => exact h.identifier name
    | literal node value => exact h.plain (Rule.literalKind_ne_other value) h.nil
    | missing node => exact h.plain (by simp) h.nil
    | parenthesized node inner => exact hchild inner (by simp)
    | member node object name =>
      have hobject := hchild object (by simp)
      exact h.conclude (h.member name hobject.1) hobject.2
    | element node object key =>
      have hobject := hchild object (by simp)
      have hkey := hchild key (by simp)
      exact h.plain (by simp) (h.append hobject.2 hkey.2)
    | call node callee arguments =>
      have hcallee := hchild callee (by simp)
      have harguments := h.inferAll fun argument hargument =>
        hchild argument (List.mem_cons_of_mem callee hargument)
      exact h.conclude (h.call node.span callee.span arguments.length hcallee.1)
        (h.append hcallee.2 harguments)
    | unary node op operand =>
      have hoperand := hchild operand (by simp)
      exact h.plain (Rule.unaryKind_ne_other op) hoperand.2
    | binary node left op mark right =>
      have hleft := hchild left (by simp)
      have hright := hchild right (by simp)
      exact h.conclude (h.binary op node.span left.span right.span hleft.1 hright.1)
        (h.append hleft.2 hright.2)
    | assign node target mark value =>
      have htarget := hchild target (by simp)
      have hvalue := hchild value (by simp)
      exact h.conclude ⟨hvalue.1, h.nil⟩ (h.append htarget.2 hvalue.2)
    | conditional node condition whenTrue whenFalse =>
      have hcondition := hchild condition (by simp)
      have htrue := hchild whenTrue (by simp)
      have hfalse := hchild whenFalse (by simp)
      exact h.conclude ⟨h.agreeing htrue.1 hfalse.1, h.nil⟩
        (h.append hcondition.2 (h.append htrue.2 hfalse.2))

end Simulation

end Check

end ExpressionTyping
