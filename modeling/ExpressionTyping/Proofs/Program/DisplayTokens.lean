import ExpressionTyping.Program.Display
import ExpressionTyping.Proofs.Program.TypeStructure
import ExpressionTyping.Proofs.Token.Layout

/-!
# The tokens of a displayed type

The text of a type is laid out for the tokens of the annotation that its tree is written as, if the
tree has no more levels than are shown (`Program.display_writes`). What a function is shown with, and
where parentheses stand, is read off the tree.
-/

set_option autoImplicit false

namespace ExpressionTyping

variable {alphabet : Alphabet}

open Token TypeTable

namespace Program

variable {program : Program}

/-! ## The parts of a displayed type -/

section Parts

variable {table : TypeTable} {text : TypeId → String}

/-- The texts of the members of a union, with bars between them. -/
theorem members_write {ids : List TypeId} {members : List TypeTree}
    (h : table.HaveTrees ids members)
    (each : ∀ tree ∈ members, ∀ id, table.HasTree id tree →
      Writes alphabet (text id) tree.node.contents) :
    Writes alphabet (" | ".intercalate (ids.map text))
      (TypeNode.union default (TypeTree.nodes members)).contents := by
  induction ids generalizing members with
  | nil =>
    cases h
    simp only [List.map_nil, String.intercalate_nil, TypeTree.nodes_nil, TypeNode.contents]
    exact writes_nil
  | cons id ids ih =>
    cases h with
    | @cons _ _ first trees found rest =>
      obtain ⟨here, others⟩ := List.forall_mem_cons.mp each
      have written := here id found
      cases rest with
      | nil =>
        simpa only [List.map_cons, List.map_nil, String.intercalate_singleton, TypeTree.nodes_cons,
          TypeTree.nodes_nil, TypeNode.contents, furtherContents, List.append_nil] using written
      | cons found' rest =>
        have further := ih (.cons found' rest) others
        simp only [List.map_cons, TypeTree.nodes_cons, TypeNode.contents] at further ⊢
        rw [String.intercalate_cons_cons, furtherContents]
        exact written.around marks_bar further

/-- A parameter, with dots if it is a rest parameter. -/
theorem parameter_writes {name : String} {id : TypeId} {tree : TypeTree} (dots : Bool)
    (usable : Identifier.Usable alphabet ⟨default, name⟩)
    (h : Writes alphabet (text id) tree.node.contents) :
    Writes alphabet ((if dots = true then "..." else "") ++ name ++ ": " ++ text id)
      (Parameter.mk default (if dots = true then some default else none) ⟨default, name⟩
        (some tree.node)).contents := by
  have named : Writes alphabet name [Identifier.content ⟨default, name⟩] :=
    usable.2.writes (TokenKind.isWord_of_isName usable.1)
  cases dots with
  | false =>
    simp only [Bool.false_eq_true, if_false, String.empty_append, Parameter.contents,
      annotationContents]
    exact named.around marks_colon h
  | true =>
    simp only [if_true, Parameter.contents, annotationContents]
    exact (marks_dots.writes named).around marks_colon h

/-- The texts of parameters from one place on, with commas between them. -/
theorem parameters_write {hasRest : Bool} {last : Nat} {types : List (String × TypeId)}
    {parameters : List (String × TypeTree)} (h : table.ParametersHaveTrees types parameters)
    (usable : ∀ parameter ∈ parameters, Identifier.Usable alphabet ⟨default, parameter.1⟩)
    (each : ∀ parameter ∈ parameters, ∀ id, table.HasTree id parameter.2 →
      Writes alphabet (text id) parameter.2.node.contents)
    {place : Nat} (ends : types ≠ [] → place + types.length = last + 1) :
    Writes alphabet (", ".intercalate ((types.zipIdx place).map fun p =>
      (if (hasRest && p.2 == last) = true then "..." else "") ++ p.1.1 ++ ": " ++ text p.1.2))
      (parameterContents (TypeTree.parameterNodes hasRest parameters)) := by
  induction types generalizing parameters place with
  | nil =>
    cases h
    simp only [List.zipIdx_nil, List.map_nil, String.intercalate_nil,
      TypeTree.parameterNodes_nil, parameterContents]
    exact writes_nil
  | cons type types ih =>
    cases h with
    | @cons name id _ tree trees found rest =>
      obtain ⟨named, names⟩ := List.forall_mem_cons.mp usable
      obtain ⟨here, others⟩ := List.forall_mem_cons.mp each
      have written := fun dots => parameter_writes dots named (here id found)
      have total := ends (List.cons_ne_nil _ _)
      rw [List.length_cons] at total
      cases rest with
      | nil =>
        have dots : (place == last) = true := by
          simp only [List.length_nil] at total
          exact beq_iff_eq.mpr (by omega)
        simp only [List.zipIdx_cons, List.zipIdx_nil, List.map_cons, List.map_nil,
          String.intercalate_singleton, TypeTree.parameterNodes_cons, TypeTree.parameterNodes_nil,
          parameterContents, List.isEmpty_nil, dots, Bool.and_true]
        exact written hasRest
      | @cons next place' later tree' trees' found' rest =>
        have dots : (place == last) = false := by
          simp only [List.length_cons] at total
          exact beq_eq_false_iff_ne.mpr (by omega)
        have further := @ih _ (.cons found' rest) names others (place + 1) fun _ => by omega
        simp only [List.zipIdx_cons, List.map_cons, TypeTree.parameterNodes_cons,
          List.isEmpty_cons, dots, Bool.and_false] at further ⊢
        rw [String.intercalate_cons_cons, parameterContents_cons_cons]
        exact (written false).around marks_comma further

end Parts

/-- A type is put in parentheses before brackets if its tree is a union or a function. -/
theorem needsParentheses_eq {table : TypeTable} {id : TypeId} {tree : TypeTree}
    (h : table.HasTree id tree) :
    needsParentheses (table.get id) = (tree.isUnion || tree.isFunction) := by
  cases h with
  | word h | array h | union h | function h =>
    rw [get_of_entries h]
    rfl

/-! ## The text of a type -/

/-- A type is displayed as the annotation of its tree, if all levels of it are shown. -/
theorem display_writes {levels : Nat} {id : TypeId} {tree : TypeTree}
    (h : program.types.HasTree id tree) (within : tree.isWithin levels = true)
    (normal : tree.Throughout (TypeTree.Normal alphabet)) :
    Writes alphabet (program.display levels id) tree.node.contents := by
  induction levels generalizing id tree with
  | zero => cases within
  | succ levels ih =>
    obtain ⟨here, below⟩ := normal
    have inside : ∀ child ∈ tree.children, ∀ id, program.types.HasTree id child →
        Writes alphabet (program.display levels id) child.node.contents :=
      fun child mem id found => ih found (List.all_eq_true.mp within child mem) (below child mem)
    cases h with
    | @word word h =>
      simp only [display, get_of_entries h, TypeTree.node_word, TypeNode.contents]
      exact writes_keyword word.keyword
    | @array _ part element h inner =>
      have written := inside element List.mem_cons_self part inner
      simp only [display, get_of_entries h, needsParentheses_eq inner, TypeTree.node_array]
      split
      · simp only [TypeNode.contents, List.cons_append, List.append_assoc, List.nil_append]
        exact (marks_openParen.writes written).marks marks_closeParen
      · simp only [TypeNode.contents]
        exact written.marks marks_brackets
    | union h inner =>
      simp only [display, get_of_entries h, TypeTree.node_union]
      exact members_write inner inside
    | @function _ type types hasRest parameters result h inner last =>
      have written := inside result (List.mem_append_right _ List.mem_cons_self) type last
      have places : types ≠ [] → 0 + types.length = types.length - 1 + 1 := fun some => by
        have := List.length_pos_iff.mpr some
        omega
      have list := @parameters_write _ _ (program.display levels) hasRest _ _ _ inner here.2
        (fun parameter mem id found => inside parameter.2
          (List.mem_append_left _ (List.mem_map_of_mem mem)) id found) _ places
      simp only [display, get_of_entries h, SymbolTable.empty, TypeTree.node_function,
        TypeNode.contents, parametersText]
      exact (marks_openParen.writes list).around marks_arrow written

end Program

end ExpressionTyping
