import Mathlib.Data.List.Basic
import ExpressionTyping.Syntax.Expr

/-!
# The parts of an expression

The children of an expression are the expressions directly inside it, left to right: what is called
before its arguments, and a condition before its branches. The root of a tree has depth zero and a
child is one deeper than its parent. What holds of an expression whenever it holds of its children
holds of every expression.
-/

set_option autoImplicit false

namespace ExpressionTyping

namespace Expr

/-- The expressions directly inside an expression, left to right. -/
def children : Expr → List Expr
  | identifier _ | literal _ _ | missing _ => []
  | parenthesized _ inner => [inner]
  | member _ object _ => [object]
  | element _ object key => [object, key]
  | call _ callee arguments => callee :: arguments
  | unary _ _ operand => [operand]
  | binary _ left _ _ right => [left, right]
  | assign _ target _ value => [target, value]
  | conditional _ condition whenTrue whenFalse => [condition, whenTrue, whenFalse]

attribute [simp] children

/-- A child is smaller than its parent. -/
theorem sizeOf_lt_of_mem_children {e child : Expr} (h : child ∈ e.children) :
    sizeOf child < sizeOf e := by
  cases e with
  | call node callee arguments =>
    rcases List.mem_cons.mp h with rfl | h
    · simp only [call.sizeOf_spec]
      omega
    · have := List.sizeOf_lt_of_mem h
      simp only [call.sizeOf_spec]
      omega
  | identifier | literal | missing => simp at h
  | parenthesized | member | element | unary | binary | assign | conditional =>
    simp only [children, List.mem_cons, List.not_mem_nil, or_false] at h
    rcases h with rfl | rfl | rfl <;> simp <;> omega

/-- What passes from the children of every expression to the expression holds of all. -/
theorem induction_on_children {P : Expr → Prop}
    (step : ∀ e, (∀ child ∈ e.children, P child) → P e) (e : Expr) : P e :=
  step e fun child _ => induction_on_children step child
termination_by sizeOf e
decreasing_by exact sizeOf_lt_of_mem_children ‹_›

/-- A condition holds of an expression and of all expressions inside it. -/
inductive Throughout (P : Expr → Prop) : Expr → Prop where
  | intro {e : Expr} (here : P e) (below : ∀ child ∈ e.children, Throughout P child) :
      Throughout P e

/-- A condition holds throughout an expression when it holds of the expression itself and throughout
each of its children. -/
theorem throughout_iff {P : Expr → Prop} {e : Expr} :
    e.Throughout P ↔ P e ∧ e.children.Forall (Throughout P) := by
  rw [List.forall_iff_forall_mem]
  constructor
  · rintro ⟨here, below⟩
    exact ⟨here, below⟩
  · rintro ⟨here, below⟩
    exact ⟨here, below⟩

/-- A weaker condition also holds throughout. -/
theorem Throughout.imp {P Q : Expr → Prop} (h : ∀ e, P e → Q e) {e : Expr} (hP : e.Throughout P) :
    e.Throughout Q := by
  induction hP with
  | intro here _ ih => exact ⟨h _ here, ih⟩

/-- Two conditions that each hold throughout an expression hold together of every node of it. -/
theorem Throughout.and {P Q : Expr → Prop} {e : Expr} (hP : e.Throughout P) (hQ : e.Throughout Q) :
    e.Throughout fun node => P node ∧ Q node := by
  induction hP with
  | intro here _ ih =>
    obtain ⟨hereQ, belowQ⟩ := hQ
    exact ⟨⟨here, hereQ⟩, fun child hchild => ih child hchild (belowQ child hchild)⟩

/-- Whether every node lies at a depth below a limit, where the root has depth zero. -/
def depthBelow : (limit : Nat) → Expr → Bool
  | 0, _ => false
  | limit + 1, e => e.children.all (depthBelow limit)

/-- The nodes of a tree with their depths. -/
inductive AtDepth (root : Expr) : (depth : Nat) → (node : Expr) → Prop where
  | root : AtDepth root 0 root
  | child {depth : Nat} {parent node : Expr} (h : AtDepth root depth parent)
      (hchild : node ∈ parent.children) : AtDepth root (depth + 1) node

/-- Below a node of a tree there is as much room as its depth leaves. -/
theorem AtDepth.depthBelow {root node : Expr} {depth limit : Nat} (h : AtDepth root depth node)
    (hroot : root.depthBelow limit = true) :
    depth < limit ∧ node.depthBelow (limit - depth) = true := by
  induction h with
  | root =>
    cases limit with
    | zero => cases hroot
    | succ limit => exact ⟨Nat.succ_pos limit, hroot⟩
  | @child depth parent node _ hchild ih =>
    obtain ⟨hlt, hparent⟩ := ih
    obtain ⟨room, hroom⟩ : ∃ room, limit - depth = room + 1 := ⟨limit - depth - 1, by omega⟩
    rw [hroom, Expr.depthBelow, List.all_eq_true] at hparent
    have hnode := hparent node hchild
    have heq : limit - (depth + 1) = room := by omega
    refine ⟨?_, by rw [heq]; exact hnode⟩
    cases room with
    | zero => cases hnode
    | succ room => omega

end Expr

end ExpressionTyping
