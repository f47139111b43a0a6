import ExpressionTyping.Proofs.Syntax.TypePrinting

/-!
# The trees of types

A type that is built from words, arrays, unions and functions is a tree (`TypeTree`). In the trees of
types that annotations mean, unions have several members, of which none is a union or `any`, and
members are repeated only if they contain functions (`TypeTree.Normal`).

A tree is written as an annotation in one way: only unions and functions before the brackets of an
array stand in parentheses (`TypeTree.node`). This annotation is of the forms that the grammar asks
for, unless a function is a member of a union but the last one (`TypeTree.isGrouped`).
-/

set_option autoImplicit false

namespace ExpressionTyping

/-- What a type is built from. -/
inductive TypeTree where
  /-- A type with a word of its own. -/
  | word (word : TypeWord)
  /-- An array. -/
  | array (element : TypeTree)
  /-- A union. -/
  | union (members : List TypeTree)
  /-- A function by the names and types of its parameters, the last of which may be a rest
  parameter, and its result. -/
  | function (parameters : List (String × TypeTree)) (hasRest : Bool) (result : TypeTree)

namespace TypeTree

/-! ## The trees inside a tree -/

/-- The trees directly inside a tree, left to right. -/
def children : TypeTree → List TypeTree
  | word _ => []
  | array element => [element]
  | union members => members
  | function parameters _ result => parameters.map Prod.snd ++ [result]

attribute [simp] children

/-- A child of a type tree is smaller than the tree, so recursion on children ends. -/
theorem sizeOf_lt_of_mem_children {tree child : TypeTree} (h : child ∈ tree.children) :
    sizeOf child < sizeOf tree := by
  cases tree with
  | word => cases h
  | array element =>
    cases List.mem_singleton.mp h
    simp only [array.sizeOf_spec]
    omega
  | union members =>
    have member : sizeOf child < sizeOf members := List.sizeOf_lt_of_mem h
    simp only [union.sizeOf_spec]
    omega
  | function parameters hasRest result =>
    simp only [function.sizeOf_spec]
    rcases List.mem_append.mp h with h | h
    · obtain ⟨⟨name, tree⟩, mem, rfl⟩ := List.mem_map.mp h
      have parameter := List.sizeOf_lt_of_mem mem
      simp only [Prod.mk.sizeOf_spec] at parameter ⊢
      omega
    · cases List.mem_singleton.mp h
      omega

/-- What passes from the children of every tree to the tree holds of all. -/
theorem induction_on_children {P : TypeTree → Prop}
    (step : ∀ tree, (∀ child ∈ tree.children, P child) → P tree) (tree : TypeTree) : P tree :=
  step tree fun child _ => induction_on_children step child
termination_by sizeOf tree
decreasing_by exact sizeOf_lt_of_mem_children ‹_›

/-- A condition holds of a tree and of all trees inside it. -/
inductive Throughout (P : TypeTree → Prop) : TypeTree → Prop where
  | intro {tree : TypeTree} (here : P tree) (below : ∀ child ∈ tree.children, Throughout P child) :
      Throughout P tree

/-- A condition holds throughout a type tree when it holds of the tree itself and throughout each of
its children. -/
theorem throughout_iff {P : TypeTree → Prop} {tree : TypeTree} :
    tree.Throughout P ↔ P tree ∧ tree.children.Forall (Throughout P) := by
  rw [List.forall_iff_forall_mem]
  constructor
  · rintro ⟨here, below⟩
    exact ⟨here, below⟩
  · rintro ⟨here, below⟩
    exact ⟨here, below⟩

/-- Whether a tree has at most so many levels. -/
def isWithin : Nat → TypeTree → Bool
  | 0, _ => false
  | levels + 1, tree => tree.children.all (isWithin levels)

/-- Whether a tree is a union. -/
def isUnion : TypeTree → Bool
  | union _ => true
  | _ => false

/-- Whether a tree is a function. -/
def isFunction : TypeTree → Bool
  | function _ _ _ => true
  | _ => false

/-- There is a function in a tree. -/
inductive HasFunction : TypeTree → Prop where
  | itself {tree : TypeTree} (h : tree.isFunction = true) : HasFunction tree
  | inside {tree child : TypeTree} (mem : child ∈ tree.children) (h : HasFunction child) :
      HasFunction tree

/-- A tree has a function in it when it is one or when one of its children has one in it. -/
theorem hasFunction_iff {tree : TypeTree} :
    tree.HasFunction ↔ tree.isFunction = true ∨ ∃ child ∈ tree.children, child.HasFunction := by
  constructor
  · rintro (here | ⟨mem, inside⟩)
    · exact .inl here
    · exact .inr ⟨_, mem, inside⟩
  · rintro (here | ⟨child, mem, inside⟩)
    · exact .itself here
    · exact .inside mem inside

/-- An array has a function in it when its element has. -/
theorem hasFunction_array {element : TypeTree} :
    (array element).HasFunction ↔ element.HasFunction := by
  rw [hasFunction_iff]
  simp [isFunction]

/-- A union has a function in it when one of its members has. -/
theorem hasFunction_union {members : List TypeTree} :
    (union members).HasFunction ↔ ∃ member ∈ members, member.HasFunction := by
  rw [hasFunction_iff]
  simp [isFunction]

/-- A word has no function in it. -/
theorem not_hasFunction_word {typeWord : TypeWord} : ¬(word typeWord).HasFunction := by
  rw [hasFunction_iff]
  simp [isFunction]

/-! ## The trees of annotations -/

/-- What holds of each tree in the tree of an annotation. -/
def Normal (alphabet : Alphabet) : TypeTree → Prop
  | union members => 2 ≤ members.length ∧
      (∀ member ∈ members, member.isUnion = false ∧ member ≠ .word .any) ∧
      members.Pairwise fun a b => a = b → a.HasFunction
  | function parameters hasRest _ => (hasRest = true → parameters ≠ []) ∧
      ∀ parameter ∈ parameters, Identifier.Usable alphabet ⟨default, parameter.1⟩
  | _ => True

/-- Whether no function stands before another member of a union. -/
def isGrouped : TypeTree → Bool
  | union members => members.dropLast.all fun member => !member.isFunction
  | _ => true

mutual

/-- A tree as an annotation, with unions and functions before the brackets of an array in
parentheses. -/
def node : TypeTree → TypeNode
  | word typeWord => .word default typeWord
  | array element =>
    .array default
      (if element.isUnion || element.isFunction then .parenthesized default element.node
      else element.node)
  | union members => .union default (nodes members)
  | function parameters hasRest result =>
    .function default (parameterNodes hasRest parameters) result.node

/-- Trees as annotations. -/
def nodes : List TypeTree → List TypeNode
  | [] => []
  | first :: rest => first.node :: nodes rest

/-- Parameters with annotations, the last of them with dots if it is a rest parameter. -/
def parameterNodes (hasRest : Bool) : List (String × TypeTree) → List Parameter
  | [] => []
  | (name, tree) :: rest =>
    .mk default (if hasRest && rest.isEmpty then some default else none) ⟨default, name⟩
      (some tree.node) :: parameterNodes hasRest rest

end

section Nodes

variable {typeWord : TypeWord} {element result first : TypeTree} {members rest : List TypeTree}
  {hasRest : Bool} {parameter : String × TypeTree} {parameters : List (String × TypeTree)}

/-- A word stands for the same word in the grammar. -/
theorem node_word : (word typeWord).node = .word default typeWord := rfl

/-- An array stands for the array of its element, in parentheses where the element is a union or a
function. -/
theorem node_array : (array element).node = .array default
    (if element.isUnion || element.isFunction then .parenthesized default element.node
    else element.node) := rfl

/-- A union stands for the union of what its members stand for. -/
theorem node_union : (union members).node = .union default (nodes members) := rfl

/-- A function stands for the function of its parameters and its result. -/
theorem node_function : (function parameters hasRest result).node =
    .function default (parameterNodes hasRest parameters) result.node := rfl

/-- No trees stand for no types. -/
theorem nodes_nil : nodes [] = [] := rfl

/-- The first of several trees stands for the first of the types. -/
theorem nodes_cons : nodes (first :: rest) = first.node :: nodes rest := rfl

/-- No parameters stand for no parameters. -/
theorem parameterNodes_nil : parameterNodes hasRest [] = [] := rfl

/-- A parameter stands for one with an annotation, and the last one is a rest parameter where the
function has one. -/
theorem parameterNodes_cons : parameterNodes hasRest (parameter :: parameters) =
    .mk default (if hasRest && parameters.isEmpty then some default else none) ⟨default, parameter.1⟩
      (some parameter.2.node) :: parameterNodes hasRest parameters := rfl

end Nodes

/-- The types that trees stand for are those of the single trees, in order. -/
theorem nodes_eq (trees : List TypeTree) : nodes trees = trees.map node := by
  induction trees with
  | nil => rfl
  | cons first rest ih => rw [nodes_cons, ih, List.map_cons]

/-- A tree is a union when the type it stands for is one. -/
theorem isUnion_node (tree : TypeTree) : tree.node.isUnion = tree.isUnion := by
  cases tree <;> rfl

/-- A tree is a function when the type it stands for is one. -/
theorem isFunction_node (tree : TypeTree) : tree.node.isFunction = tree.isFunction := by
  cases tree <;> rfl

section Parameters

variable {hasRest : Bool} {parameters : List (String × TypeTree)}

/-- The types of the parameters that a function stands for are those of its own parameters. -/
theorem types_parameterNodes : (parameterNodes hasRest parameters).filterMap Parameter.type? =
    parameters.map fun parameter => parameter.2.node := by
  induction parameters with
  | nil => rfl
  | cons first rest ih =>
    simp only [parameterNodes_cons, List.filterMap_cons, Parameter.type?, ih, List.map_cons]

/-- The names of the parameters that a function stands for are those of its own parameters. -/
theorem names_parameterNodes : (parameterNodes hasRest parameters).map Parameter.name =
    parameters.map fun parameter => ⟨default, parameter.1⟩ := by
  induction parameters with
  | nil => rfl
  | cons first rest ih => simp only [parameterNodes_cons, List.map_cons, Parameter.name, ih]

/-- Only the last of the parameters that a function stands for can be a rest parameter. -/
theorem restOnlyLast_parameterNodes : restOnlyLast (parameterNodes hasRest parameters) = true := by
  induction parameters with
  | nil => rfl
  | cons first rest ih =>
    cases rest with
    | nil => rfl
    | cons second rest =>
      simp only [parameterNodes_cons, restOnlyLast, List.isEmpty_cons, Bool.and_false] at ih ⊢
      simpa [Parameter.isRest] using ih

end Parameters

/-- The annotation of a tree has neither numbers nor places. -/
theorem bare_node (tree : TypeTree) : tree.node.bare = tree.node := by
  induction tree using induction_on_children with
  | step tree ih =>
    cases tree with
    | word typeWord => rw [node_word, TypeNode.bare]
    | array element =>
      have inner := ih element List.mem_cons_self
      rw [node_array, TypeNode.bare]
      split
      · rw [TypeNode.bare, inner]
      · rw [inner]
    | union members =>
      have all : bareTypes (nodes members) = nodes members := by
        change ∀ member ∈ members, _ at ih
        induction members with
        | nil => rfl
        | cons first rest ih' =>
          obtain ⟨here, others⟩ := List.forall_mem_cons.mp ih
          rw [nodes_cons, bareTypes, here, ih' others]
      rw [node_union, TypeNode.bare, all]
    | function parameters hasRest result =>
      obtain ⟨inside, last⟩ := List.forall_mem_append.mp ih
      have all : bareParameters (parameterNodes hasRest parameters) =
          parameterNodes hasRest parameters := by
        clear ih
        induction parameters with
        | nil => rfl
        | cons first rest ih' =>
          obtain ⟨here, others⟩ := List.forall_mem_cons.mp inside
          rw [parameterNodes_cons, bareParameters, Parameter.bare, bareType?, here, ih' others]
          cases hasRest && rest.isEmpty <;> rfl
      rw [node_function, TypeNode.bare, all, last result List.mem_cons_self]

/-! ## Annotations that can be read back -/

variable {alphabet : Alphabet} {tree : TypeTree}

/-- The annotation of a tree is of the forms that the grammar asks for, and can be written. -/
theorem node_readable (normal : tree.Throughout (Normal alphabet))
    (grouped : tree.Throughout fun part => part.isGrouped = true) :
    tree.node.Throughout fun node => node.fits = true ∧ node.Printable alphabet := by
  induction tree using induction_on_children with
  | step tree ih =>
    obtain ⟨here, below⟩ := normal
    obtain ⟨group, groups⟩ := grouped
    have inside := fun child mem => ih child mem (below child mem) (groups child mem)
    cases tree with
    | word word =>
      rw [node_word]
      exact ⟨⟨rfl, trivial⟩, nofun⟩
    | array element =>
      have inner := inside element List.mem_cons_self
      rw [node_array]
      by_cases compound : (element.isUnion || element.isFunction) = true
      · rw [if_pos compound]
        refine ⟨⟨rfl, trivial⟩, ?_⟩
        simp only [TypeNode.children, List.forall_mem_singleton]
        refine ⟨⟨rfl, trivial⟩, ?_⟩
        simpa only [TypeNode.children, List.forall_mem_singleton] using inner
      · rw [if_neg compound]
        refine ⟨⟨?_, trivial⟩, by simpa only [TypeNode.children, List.forall_mem_singleton]⟩
        rw [TypeNode.fits, isUnion_node, isFunction_node]
        simpa using compound
    | union members =>
      obtain ⟨several, flat, -⟩ := here
      simp only [isGrouped, List.all_eq_true, Bool.not_eq_true'] at group
      rw [node_union, nodes_eq]
      refine ⟨⟨?_, trivial⟩, ?_⟩
      · simp only [TypeNode.fits, List.length_map, ← List.map_dropLast, List.all_map,
          Bool.and_eq_true, decide_eq_true_eq, List.all_eq_true, Function.comp, isUnion_node,
          isFunction_node, Bool.not_eq_true']
        exact ⟨⟨several, fun member mem => (flat member mem).1⟩, group⟩
      · simp only [TypeNode.children, List.forall_mem_map]
        exact inside
    | function parameters hasRest result =>
      rw [node_function]
      refine ⟨⟨restOnlyLast_parameterNodes, fun parameter mem => ?_⟩, ?_⟩
      · have name := List.mem_map_of_mem (f := Parameter.name) mem
        rw [names_parameterNodes] at name
        obtain ⟨written, mem, same⟩ := List.mem_map.mp name
        rw [← same]
        exact here.2 written mem
      · simp only [TypeNode.children, types_parameterNodes, List.forall_mem_append,
          List.forall_mem_map, List.forall_mem_singleton]
        refine ⟨fun parameter mem => inside _ ?_, inside result ?_⟩
        · exact List.mem_append_left _ (List.mem_map_of_mem mem)
        · exact List.mem_append_right _ List.mem_cons_self

/-- Parameters are nested as deeply as a bound on the types of each allows. -/
theorem parameterNesting_le {levels : Nat} {hasRest : Bool} {parameters : List (String × TypeTree)}
    (h : ∀ parameter ∈ parameters, parameter.2.node.nesting < levels) :
    parameterNesting (parameterNodes hasRest parameters) ≤ levels := by
  induction parameters with
  | nil =>
    rw [parameterNodes_nil, parameterNesting]
    exact Nat.zero_le _
  | cons first rest ih =>
    obtain ⟨here, others⟩ := List.forall_mem_cons.mp h
    rw [parameterNodes_cons, parameterNesting, annotationNesting]
    exact Nat.max_le.mpr ⟨here, ih others⟩

/-- A union is nested as deeply as a bound on its members allows. -/
theorem unionNesting_le {levels : Nat} {members : List TypeTree}
    (h : ∀ member ∈ members, member.node.nesting < levels) :
    unionNesting (nodes members) ≤ levels := by
  induction members with
  | nil =>
    rw [nodes_nil, unionNesting]
    exact Nat.zero_le _
  | cons first rest ih =>
    obtain ⟨here, others⟩ := List.forall_mem_cons.mp h
    rw [nodes_cons, unionNesting]
    exact Nat.max_le.mpr ⟨Nat.le_of_lt here, ih others⟩

/-- The annotation of a tree nests no deeper than the tree. -/
theorem node_nesting_lt {levels : Nat} (h : tree.isWithin levels = true) :
    tree.node.nesting < levels := by
  induction levels generalizing tree with
  | zero => cases h
  | succ levels ih =>
    have inside : ∀ child ∈ tree.children, child.node.nesting < levels :=
      fun child mem => ih (List.all_eq_true.mp h child mem)
    apply Nat.lt_succ_of_le
    cases tree with
    | word word =>
      rw [node_word, TypeNode.nesting]
      exact Nat.zero_le _
    | array element =>
      have inner := inside element List.mem_cons_self
      rw [node_array, TypeNode.nesting]
      split
      · rw [TypeNode.nesting]
        exact inner
      · exact Nat.le_of_lt inner
    | union members =>
      rw [node_union, TypeNode.nesting]
      exact unionNesting_le inside
    | function parameters hasRest result =>
      rw [node_function, TypeNode.nesting]
      refine Nat.max_le.mpr ⟨parameterNesting_le fun parameter mem => inside _ ?_, inside result ?_⟩
      · exact List.mem_append_left _ (List.mem_map_of_mem mem)
      · exact List.mem_append_right _ List.mem_cons_self

end TypeTree

end ExpressionTyping
