import Mathlib.Data.List.Infix
import ExpressionTyping.Syntax.Outline

/-!
# The numbered nodes of a tree

Without names, texts and spans a parsed tree is a tree of node numbers; tokens that have no number,
such as an operator or the dots of a rest parameter, are not part of it. The children of a node stand
in the order of the text, as an outline lists them (`Outline.ofFile_numbers`).

In postorder every node comes after all that is inside it. A forest is `Numbered start stop` if its
nodes have the numbers from `start` up to `stop` in postorder. Such forests can be put side by side
and taken apart, and a new node with the number `stop` may enclose one.
-/

set_option autoImplicit false

namespace ExpressionTyping

/-- A tree of node numbers. -/
inductive NodeTree where
  /-- A node and its children. -/
  | mk (id : Nat) (children : List NodeTree)

/-- The number of the root. -/
def NodeTree.id : NodeTree → Nat
  | mk id _ => id

/-- The trees below the root, in order. -/
def NodeTree.children : NodeTree → List NodeTree
  | mk _ children => children

mutual

/-- The numbers of a tree, each node after all that is inside it. -/
def NodeTree.postorder : NodeTree → List Nat
  | .mk id children => postorderAll children ++ [id]

/-- The numbers of a forest, each node after all that is inside it. -/
def postorderAll : List NodeTree → List Nat
  | [] => []
  | tree :: others => tree.postorder ++ postorderAll others

end

mutual

/-- The numbers of a tree with their depths, each node before all that is inside it. -/
def NodeTree.descent (depth : Nat) : NodeTree → List (Nat × Nat)
  | .mk id children => (depth, id) :: descentAll (depth + 1) children

/-- The numbers of a forest with their depths, each node before all that is inside it. -/
def descentAll (depth : Nat) : List NodeTree → List (Nat × Nat)
  | [] => []
  | tree :: others => tree.descent depth ++ descentAll depth others

end

attribute [simp] NodeTree.descent descentAll

/-! ## The nodes of syntax trees -/

/-- The node of a name. -/
def Identifier.nodeTree (name : Identifier) : NodeTree :=
  .mk name.node.id []

mutual

/-- The nodes of an expression. -/
def Expr.nodeTree : Expr → NodeTree
  | .identifier name => name.nodeTree
  | .literal node _ => .mk node.id []
  | .parenthesized node inner => .mk node.id [inner.nodeTree]
  | .member node object name => .mk node.id [object.nodeTree, name.nodeTree]
  | .element node object key => .mk node.id [object.nodeTree, key.nodeTree]
  | .call node callee arguments => .mk node.id (callee.nodeTree :: argumentTrees arguments)
  | .unary node _ operand => .mk node.id [operand.nodeTree]
  | .binary node left _ _ right => .mk node.id [left.nodeTree, right.nodeTree]
  | .assign node target _ value => .mk node.id [target.nodeTree, value.nodeTree]
  | .conditional node condition whenTrue whenFalse =>
    .mk node.id [condition.nodeTree, whenTrue.nodeTree, whenFalse.nodeTree]
  | .missing node => .mk node.id []

/-- The nodes of arguments. -/
def argumentTrees : List Expr → List NodeTree
  | [] => []
  | argument :: rest => argument.nodeTree :: argumentTrees rest

end

mutual

/-- The nodes of a type annotation. -/
def TypeNode.nodeTree : TypeNode → NodeTree
  | .word node _ => .mk node.id []
  | .literal node constant _ => .mk node.id [.mk constant.id []]
  | .reference node name => .mk node.id [name.nodeTree]
  | .array node element => .mk node.id [element.nodeTree]
  | .union node members => .mk node.id (typeTrees members)
  | .function node parameters result =>
    .mk node.id (parameterTrees parameters ++ [result.nodeTree])
  | .object node members => .mk node.id (elementTrees members)
  | .parenthesized node inner => .mk node.id [inner.nodeTree]

/-- The nodes of types. -/
def typeTrees : List TypeNode → List NodeTree
  | [] => []
  | type :: rest => type.nodeTree :: typeTrees rest

/-- The nodes of an optional type annotation. -/
def annotationTrees : Option TypeNode → List NodeTree
  | none => []
  | some type => [type.nodeTree]

/-- The nodes of a parameter. -/
def Parameter.nodeTree : Parameter → NodeTree
  | .mk node _ name type? => .mk node.id (name.nodeTree :: annotationTrees type?)

/-- The nodes of parameters. -/
def parameterTrees : List Parameter → List NodeTree
  | [] => []
  | parameter :: rest => parameter.nodeTree :: parameterTrees rest

/-- The nodes of a member of an object type. -/
def TypeElement.nodeTree : TypeElement → NodeTree
  | .property node name type? => .mk node.id (name.nodeTree :: annotationTrees type?)
  | .method node name parameters result =>
    .mk node.id (name.nodeTree :: (parameterTrees parameters ++ annotationTrees result))

/-- The nodes of the members of an object type. -/
def elementTrees : List TypeElement → List NodeTree
  | [] => []
  | element :: rest => element.nodeTree :: elementTrees rest

end

/-- The nodes of a declared variable. -/
def VariableDeclaration.nodeTree (declaration : VariableDeclaration) : NodeTree :=
  .mk declaration.node.id (declaration.name.nodeTree ::
    (annotationTrees declaration.type? ++ argumentTrees declaration.initializer.toList))

mutual

/-- The nodes of a statement. -/
def Statement.nodeTree : Statement → NodeTree
  | .variableList statement =>
    .mk statement.node.id
      [.mk statement.list.id (statement.declarations.map VariableDeclaration.nodeTree)]
  | .function declaration =>
    .mk declaration.node.id (declaration.name.nodeTree ::
      (parameterTrees declaration.parameters ++ annotationTrees declaration.result))
  | .interface declaration =>
    .mk declaration.node.id (declaration.name.nodeTree :: elementTrees declaration.members)
  | .typeAlias declaration =>
    .mk declaration.node.id [declaration.name.nodeTree, declaration.type.nodeTree]
  | .block node statements => .mk node.id (statementTrees statements)
  | .expression node value => .mk node.id [value.nodeTree]
  | .empty node => .mk node.id []

/-- The nodes of statements. -/
def statementTrees : List Statement → List NodeTree
  | [] => []
  | statement :: rest => statement.nodeTree :: statementTrees rest

end

/-- The nodes of a file. -/
def SourceFile.nodeTree (file : SourceFile) : NodeTree :=
  .mk file.node.id (statementTrees file.statements)

/-! ## Forests numbered in postorder -/

/-- The post-order of trees in a row is the post-orders one after the other. -/
theorem postorderAll_append (trees others : List NodeTree) :
    postorderAll (trees ++ others) = postorderAll trees ++ postorderAll others := by
  induction trees with
  | nil => rfl
  | cons tree trees ih => simp [postorderAll, ih]

/-- In postorder the nodes of a forest have the numbers from `start` up to `stop`. -/
def Numbered (start stop : Nat) (forest : List NodeTree) : Prop :=
  start ≤ stop ∧ postorderAll forest = List.range' start (stop - start)

namespace Numbered

variable {start middle stop : Nat} {trees others : List NodeTree}

/-- No trees use up no numbers. -/
theorem nil (start : Nat) : Numbered start start [] :=
  ⟨Nat.le_refl start, by rw [Nat.sub_self]; rfl⟩

/-- Trees whose numbers go on where those of earlier trees stop are numbered with them. -/
theorem append (h : Numbered start middle trees) (h' : Numbered middle stop others) :
    Numbered start stop (trees ++ others) := by
  obtain ⟨hle, htrees⟩ := h
  obtain ⟨hle', hothers⟩ := h'
  refine ⟨Nat.le_trans hle hle', ?_⟩
  have hlength : stop - start = (middle - start) + (stop - middle) := by omega
  have hmiddle : start + 1 * (middle - start) = middle := by omega
  rw [postorderAll_append, htrees, hothers, hlength, ← List.range'_append, hmiddle]

/-- Where the first forest ends, the second one starts. -/
theorem of_append (h : Numbered start stop (trees ++ others)) :
    ∃ middle, Numbered start middle trees ∧ Numbered middle stop others := by
  obtain ⟨hle, hall⟩ := h
  rw [postorderAll_append] at hall
  obtain ⟨count, hcount, htrees, hothers⟩ := List.range'_eq_append_iff.mp hall.symm
  rw [Nat.mul_one] at hothers
  refine ⟨start + count, ⟨Nat.le_add_right _ _, ?_⟩, by omega, ?_⟩
  · rw [htrees, Nat.add_sub_cancel_left]
  · rw [hothers, Nat.sub_sub]

/-- The next number goes to a node that encloses the forest. -/
theorem enclose (h : Numbered start stop trees) :
    Numbered start (stop + 1) [.mk stop trees] := by
  obtain ⟨hle, htrees⟩ := h
  have hlength : stop + 1 - start = (stop - start) + 1 := by omega
  have hlast : start + 1 * (stop - start) = stop := by omega
  refine ⟨Nat.le_succ_of_le hle, ?_⟩
  rw [hlength, List.range'_concat, hlast, ← htrees]
  simp [postorderAll, NodeTree.postorder]

end Numbered

namespace NodeTree

/-- The nodes of a tree, the root among them. -/
inductive Within (root : NodeTree) : NodeTree → Prop where
  | root : Within root root
  | child {parent node : NodeTree} (h : Within root parent) (hchild : node ∈ parent.children) :
      Within root node

/-- The post-order of a node inside a tree is a contiguous part of the post-order of the tree. -/
theorem Within.postorder_infix {root node : NodeTree} (h : root.Within node) :
    node.postorder <:+: root.postorder := by
  induction h with
  | root => exact List.infix_refl _
  | @child parent node _ hchild ih =>
    obtain ⟨id, children⟩ := parent
    obtain ⟨before, after, rfl⟩ := List.append_of_mem hchild
    refine List.IsInfix.trans ⟨postorderAll before, postorderAll after ++ [id], ?_⟩ ih
    simp [postorder, postorderAll, postorderAll_append]

/-- The numbers below `count` are those of the nodes of a tree in postorder; so no number is given
twice, none is lost, and a node has a greater number than all that is inside it. -/
structure InPostorder (tree : NodeTree) (count : Nat) : Prop where
  postorder : tree.postorder = List.range count
  unique : tree.postorder.Nodup
  descendants_lt : ∀ parent, tree.Within parent → ∀ id ∈ postorderAll parent.children,
    id < parent.id

/-- A single tree whose numbers start at zero lists all its numbers in post-order. -/
theorem inPostorder {tree : NodeTree} {count : Nat} (h : Numbered 0 count [tree]) :
    tree.InPostorder count := by
  have horder : tree.postorder = List.range count := by
    simpa [postorderAll, List.range_eq_range'] using h.2
  refine ⟨horder, horder ▸ List.nodup_range, fun parent hparent id hid => ?_⟩
  have hincreasing : parent.postorder.Pairwise (· < ·) := by
    refine List.Pairwise.sublist hparent.postorder_infix.sublist ?_
    rw [horder]
    exact List.pairwise_lt_range
  obtain ⟨last, children⟩ := parent
  rw [postorder, List.pairwise_append] at hincreasing
  exact hincreasing.2.2 id hid last List.mem_cons_self

end NodeTree

/-! ## The numbers in an outline -/

/-- The numbers in an outline with their depths; bare tokens have none. -/
def Outline.numbers (lines : List Outline) : List (Nat × Nat) :=
  lines.filterMap fun line => line.id?.map (line.depth, ·)

/-- The descent into trees in a row is the descents one after the other. -/
@[simp] theorem descentAll_append (depth : Nat) (trees others : List NodeTree) :
    descentAll depth (trees ++ others) = descentAll depth trees ++ descentAll depth others := by
  induction trees with
  | nil => rfl
  | cons tree trees ih => simp [ih]

namespace Outline

/-- A plain line stands at the depth it is given. -/
@[simp] theorem plain_depth (depth : Nat) (role kind : String) (node : Node) :
    (plain depth role kind node).depth = depth := rfl

/-- A plain line carries the number of its node. -/
@[simp] theorem plain_id? (depth : Nat) (role kind : String) (node : Node) :
    (plain depth role kind node).id? = some node.id := rfl

/-- An empty outline has no numbers. -/
@[simp] theorem numbers_nil : numbers [] = [] := rfl

/-- The numbers of two outlines in a row are the numbers of the first and then of the second. -/
@[simp] theorem numbers_append (lines others : List Outline) :
    numbers (lines ++ others) = numbers lines ++ numbers others :=
  List.filterMap_append

/-- A line that carries a number contributes that number with its depth. -/
@[simp] theorem numbers_cons_some {line : Outline} {id : Nat} (lines : List Outline)
    (h : line.id? = some id) : numbers (line :: lines) = (line.depth, id) :: numbers lines := by
  simp [numbers, h]

/-- A line for a bare token contributes no number. -/
@[simp] theorem numbers_bare (depth : Nat) (role : String) (kind : TokenKind) (span : Span)
    (lines : List Outline) : numbers (bare depth role kind span :: lines) = numbers lines := rfl

/-- A line for a name contributes what the tree of the name lists. -/
@[simp] theorem numbers_identifier (depth : Nat) (role : String) (name : Identifier)
    (lines : List Outline) :
    numbers (ofIdentifier depth role name :: lines) =
      name.nodeTree.descent depth ++ numbers lines := rfl

mutual

/-- The outline of an expression shows the numbers of its tree, each at its depth. -/
theorem ofExpr_numbers (depth : Nat) (role : String) :
    (e : Expr) → numbers (ofExpr depth role e) = e.nodeTree.descent depth
  | .identifier name => by simp [ofExpr, Expr.nodeTree]
  | .literal node value => rfl
  | .parenthesized node inner => by
    simp [ofExpr, ofExpr_numbers, Expr.nodeTree]
  | .member node object name => by
    simp [ofExpr, ofExpr_numbers, Expr.nodeTree]
  | .element node object key => by
    simp [ofExpr, ofExpr_numbers, Expr.nodeTree]
  | .call node callee arguments => by
    simp [ofExpr, ofExpr_numbers, ofArguments_numbers, Expr.nodeTree]
  | .unary node op operand => by
    simp [ofExpr, ofExpr_numbers, Expr.nodeTree]
  | .binary node left op mark right => by
    simp [ofExpr, ofExpr_numbers, Expr.nodeTree]
  | .assign node target mark value => by
    simp [ofExpr, ofExpr_numbers, Expr.nodeTree]
  | .conditional node condition whenTrue whenFalse => by
    simp [ofExpr, ofExpr_numbers, Expr.nodeTree]
  | .missing node => rfl

/-- The outline of arguments shows the numbers of their trees. -/
theorem ofArguments_numbers (depth : Nat) : (arguments : List Expr) →
    numbers (ofArguments depth arguments) = descentAll depth (argumentTrees arguments)
  | [] => rfl
  | argument :: rest => by
    simp [ofArguments, ofExpr_numbers, ofArguments_numbers, argumentTrees]

end

mutual

/-- The outline of a type shows the numbers of its tree, each at its depth. -/
theorem ofType_numbers (depth : Nat) (role : String) :
    (type : TypeNode) → numbers (ofType depth role type) = type.nodeTree.descent depth
  | .word node word => rfl
  | .literal node constant value => rfl
  | .reference node name => by
    simp [ofType, TypeNode.nodeTree]
  | .array node element => by
    simp [ofType, ofType_numbers, TypeNode.nodeTree]
  | .union node members => by
    simp [ofType, ofTypes_numbers, TypeNode.nodeTree]
  | .function node parameters result => by
    simp [ofType, ofType_numbers, ofParameters_numbers, TypeNode.nodeTree]
  | .object node members => by
    simp [ofType, ofElements_numbers, TypeNode.nodeTree]
  | .parenthesized node inner => by
    simp [ofType, ofType_numbers, TypeNode.nodeTree]

/-- The outline of types in a row shows the numbers of their trees. -/
theorem ofTypes_numbers (depth : Nat) : (types : List TypeNode) →
    numbers (ofTypes depth types) = descentAll depth (typeTrees types)
  | [] => rfl
  | type :: rest => by simp [ofTypes, ofType_numbers, ofTypes_numbers, typeTrees]

/-- The outline of an annotation, if there is one, shows the numbers of its tree. -/
theorem ofOptionalType_numbers (depth : Nat) (role : String) : (type? : Option TypeNode) →
    numbers (ofOptionalType depth role type?) = descentAll depth (annotationTrees type?)
  | none => rfl
  | some type => by simp [ofOptionalType, ofType_numbers, annotationTrees]

/-- The outline of a parameter shows the numbers of its tree. -/
theorem ofParameter_numbers (depth : Nat) : (parameter : Parameter) →
    numbers (ofParameter depth parameter) = parameter.nodeTree.descent depth
  | .mk node rest name type? => by
    cases rest <;> simp [ofParameter, ofOptionalType_numbers, Parameter.nodeTree]

/-- The outline of parameters shows the numbers of their trees. -/
theorem ofParameters_numbers (depth : Nat) : (parameters : List Parameter) →
    numbers (ofParameters depth parameters) = descentAll depth (parameterTrees parameters)
  | [] => rfl
  | parameter :: rest => by
    simp [ofParameters, ofParameter_numbers, ofParameters_numbers, parameterTrees]

/-- The outline of a member of an object type shows the numbers of its tree. -/
theorem ofElement_numbers (depth : Nat) : (element : TypeElement) →
    numbers (ofElement depth element) = element.nodeTree.descent depth
  | .property node name type? => by
    simp [ofElement, ofOptionalType_numbers, TypeElement.nodeTree]
  | .method node name parameters result => by
    simp [ofElement, ofParameters_numbers, ofOptionalType_numbers, TypeElement.nodeTree]

/-- The outline of the members of an object type shows the numbers of their trees. -/
theorem ofElements_numbers (depth : Nat) : (elements : List TypeElement) →
    numbers (ofElements depth elements) = descentAll depth (elementTrees elements)
  | [] => rfl
  | element :: rest => by
    simp [ofElements, ofElement_numbers, ofElements_numbers, elementTrees]

end

/-- The outline of a variable declaration shows the numbers of its tree. -/
theorem ofVariable_numbers (depth : Nat) (declaration : VariableDeclaration) :
    numbers (ofVariable depth declaration) = declaration.nodeTree.descent depth := by
  obtain ⟨node, name, type?, initializer⟩ := declaration
  cases initializer <;> simp [ofVariable, ofOptionalType_numbers, ofExpr_numbers,
    VariableDeclaration.nodeTree, argumentTrees]

/-- The outline of the declarations of a statement shows the numbers of their trees. -/
theorem ofVariables_numbers (depth : Nat) (declarations : List VariableDeclaration) :
    numbers (declarations.flatMap (ofVariable depth)) =
      descentAll depth (declarations.map VariableDeclaration.nodeTree) := by
  induction declarations with
  | nil => rfl
  | cons declaration rest ih => simp [ofVariable_numbers, ih]

mutual

/-- The outline of a statement shows the numbers of its tree, each at its depth. -/
theorem ofStatement_numbers (depth : Nat) : (statement : Statement) →
    numbers (ofStatement depth statement) = statement.nodeTree.descent depth
  | .variableList statement => by
    simp [ofStatement, ofVariables_numbers, Statement.nodeTree]
  | .function declaration => by
    simp [ofStatement, ofParameters_numbers, ofOptionalType_numbers, Statement.nodeTree]
  | .interface declaration => by
    simp [ofStatement, ofElements_numbers, Statement.nodeTree]
  | .typeAlias declaration => by
    simp [ofStatement, ofType_numbers, Statement.nodeTree]
  | .block node statements => by
    simp [ofStatement, ofStatements_numbers, Statement.nodeTree]
  | .expression node value => by
    simp [ofStatement, ofExpr_numbers, Statement.nodeTree]
  | .empty node => rfl

/-- The outline of statements shows the numbers of their trees. -/
theorem ofStatements_numbers (depth : Nat) : (statements : List Statement) →
    numbers (ofStatements depth statements) = descentAll depth (statementTrees statements)
  | [] => rfl
  | statement :: rest => by
    simp [ofStatements, ofStatement_numbers, ofStatements_numbers, statementTrees]

end

/-- The numbers that the outline of a file lists are those of its nodes, in order and depth. -/
theorem ofFile_numbers (file : SourceFile) :
    numbers (ofFile file) = file.nodeTree.descent 0 := by
  simp [ofFile, ofStatements_numbers, SourceFile.nodeTree]

end Outline

end ExpressionTyping
