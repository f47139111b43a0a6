import ExpressionTyping.Proofs.Syntax.Children

/-!
# Expressions cut at a depth

Cutting an expression at a depth puts a hole in the place of every node at that depth, over the same
characters, and leaves everything above as it is. The nodes at a depth are listed left to right:
they are those that a walk of the tree, parents before children, meets at that depth
(`filter_preorder`).
-/

set_option autoImplicit false

namespace ExpressionTyping

namespace Expr

/-! ## Cutting -/

/-- The expression with a hole in the place of every node at a depth. -/
def cut : (depth : Nat) → Expr → Expr
  | 0, e => missing e.node
  | _ + 1, identifier name => identifier name
  | _ + 1, literal node value => literal node value
  | depth + 1, parenthesized node inner => parenthesized node (inner.cut depth)
  | depth + 1, member node object name => member node (object.cut depth) name
  | depth + 1, element node object key => element node (object.cut depth) (key.cut depth)
  | depth + 1, call node callee arguments =>
    call node (callee.cut depth) (arguments.map (cut depth))
  | depth + 1, unary node op operand => unary node op (operand.cut depth)
  | depth + 1, binary node left op mark right =>
    binary node (left.cut depth) op mark (right.cut depth)
  | depth + 1, assign node target mark value =>
    assign node (target.cut depth) mark (value.cut depth)
  | depth + 1, conditional node condition whenTrue whenFalse =>
    conditional node (condition.cut depth) (whenTrue.cut depth) (whenFalse.cut depth)
  | _ + 1, missing node => missing node

/-- Cutting keeps the node of the root, also where the root becomes a hole. -/
@[simp] theorem node_cut (depth : Nat) (e : Expr) : (e.cut depth).node = e.node := by
  cases depth <;> cases e <;> rfl

/-- Cutting keeps the place of the root. -/
@[simp] theorem span_cut (depth : Nat) (e : Expr) : (e.cut depth).span = e.span :=
  congrArg Node.span (node_cut depth e)

/-- The children of a cut tree are the children cut one level less deep. -/
theorem children_cut (depth : Nat) (e : Expr) :
    (e.cut (depth + 1)).children = e.children.map (cut depth) := by
  cases e <;> rfl

/-- Where no node lies at the depth, nothing is cut. -/
theorem cut_eq_self {depth : Nat} {e : Expr} (h : e.depthBelow depth = true) : e.cut depth = e := by
  induction e using Expr.induction_on_children generalizing depth with
  | step e ih =>
  cases depth with
  | zero => cases h
  | succ depth =>
    have hchild : ∀ child ∈ e.children, child.cut depth = child := by
      intro child hc
      exact ih child hc (List.all_eq_true.mp h child hc)
    cases e with
    | identifier | literal | missing => rfl
    | call node callee arguments =>
      have hcallee := hchild callee List.mem_cons_self
      have harguments : arguments.map (cut depth) = arguments :=
        (List.map_congr_left fun argument hc =>
          hchild argument (List.mem_cons_of_mem callee hc)).trans (List.map_id arguments)
      rw [cut, hcallee, harguments]
    | parenthesized | member | element | unary | binary | assign | conditional =>
      simp only [children, List.forall_mem_cons] at hchild
      simp only [cut, hchild]

/-! ## The nodes at a depth -/

/-- The nodes of an expression that lies at a depth, with their depths: a node before its children,
and these left to right. -/
def preorder (depth : Nat) (e : Expr) : List (Nat × Expr) :=
  (depth, e) :: e.children.attach.flatMap fun child => preorder (depth + 1) child.1
termination_by sizeOf e
decreasing_by exact sizeOf_lt_of_mem_children child.2

/-- The root comes first in pre-order, then its children one after the other, one level deeper. -/
theorem preorder_eq (depth : Nat) (e : Expr) :
    e.preorder depth = (depth, e) :: e.children.flatMap (preorder (depth + 1)) := by
  rw [preorder, List.flatMap_subtype (g := preorder (depth + 1)) (fun _ _ => rfl),
    List.unattach_attach]

/-- The nodes at a depth, left to right. -/
def nodesAt : (depth : Nat) → Expr → List Expr
  | 0, e => [e]
  | depth + 1, e => e.children.flatMap (nodesAt depth)

/-- No node lies higher than the root. -/
theorem le_of_mem_preorder {start : Nat} {e : Expr} {place : Nat × Expr}
    (h : place ∈ e.preorder start) : start ≤ place.1 := by
  induction e using Expr.induction_on_children generalizing start with
  | step e ih =>
  rw [preorder_eq, List.mem_cons, List.mem_flatMap] at h
  rcases h with rfl | ⟨child, hchild, hplace⟩
  · exact Nat.le_refl start
  · have := ih child hchild hplace
    omega

/-- The nodes that a walk meets at a depth are those at that depth, left to right. -/
theorem filter_preorder (start depth : Nat) (e : Expr) :
    (e.preorder start).filter (fun place => place.1 = start + depth) =
      (e.nodesAt depth).map (start + depth, ·) := by
  induction depth generalizing start e with
  | zero =>
    have hbelow : ∀ place ∈ e.children.flatMap (preorder (start + 1)),
        ¬ decide (place.1 = start + 0) = true := by
      intro place hplace
      obtain ⟨child, -, hplace⟩ := List.mem_flatMap.mp hplace
      have := le_of_mem_preorder hplace
      simp only [decide_eq_true_eq]
      omega
    rw [preorder_eq, List.filter_cons_of_pos (by simp), List.filter_eq_nil_iff.mpr hbelow]
    rfl
  | succ depth ih =>
    have hchild : ∀ child : Expr,
        (child.preorder (start + 1)).filter (fun place => place.1 = start + (depth + 1)) =
          (child.nodesAt depth).map (start + (depth + 1), ·) := by
      intro child
      have := ih (start + 1) child
      rwa [Nat.add_right_comm start 1 depth] at this
    rw [preorder_eq, List.filter_cons_of_neg (by simp), List.filter_flatMap, nodesAt,
      List.map_flatMap]
    exact congrArg (e.children.flatMap ·) (funext hchild)

end Expr

end ExpressionTyping
