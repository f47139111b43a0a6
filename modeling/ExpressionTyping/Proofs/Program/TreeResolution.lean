import ExpressionTyping.Program.Resolve
import ExpressionTyping.Proofs.Program.Settled
import ExpressionTyping.Proofs.Program.TypeStructure

/-!
# Resolving the annotation of a tree

When the annotation that a normal tree is written as is resolved, the type that comes out has this
tree, whatever types are in the table already (`Resolve.typeNode_makes`). Functions are never shared,
so a type that contains one gets a place that is new, and members of a union that are repeated stay
apart.
-/

set_option autoImplicit false

namespace ExpressionTyping

/-- The parts of an array or of a union stand among the first places of a table. -/
def TypeData.PartsWithin (size : Nat) : TypeData → Prop
  | array part => part.index < size
  | union members => ∀ member ∈ members, member.index < size
  | _ => True

/-- Parts among some first places are among more of them. -/
theorem TypeData.PartsWithin.mono {size size' : Nat} {data : TypeData} (h : data.PartsWithin size)
    (le : size ≤ size') : data.PartsWithin size' := by
  cases data with
  | array part => exact Nat.lt_of_lt_of_le h le
  | union members => exact fun member mem => Nat.lt_of_lt_of_le (h member mem) le
  | _ => trivial

namespace TypeTable

/-! ## Tables that are added to -/

/-- Types with words of their own are at their places, and arrays and unions have their parts in the
table. -/
structure Founded (table : TypeTable) : Prop where
  words : ∀ word, table.entries[(TypeId.ofWord word).index]? = some (.intrinsic word)
  parts : ∀ (i : Nat) data, table.entries[i]? = some data → data.PartsWithin table.entries.size

/-- A founded table is added to. -/
structure Adds (table later : TypeTable) : Prop where
  kept : Kept table.entries later.entries
  founded : later.Founded

variable {table later last : TypeTable} {data : TypeData}

/-- Adding twice is adding. -/
theorem Adds.trans (h : table.Adds later) (h' : later.Adds last) : table.Adds last :=
  ⟨h.kept.trans h'.kept, h'.founded⟩

/-- What stands in a table, and has a part that is new, is new itself. -/
theorem Founded.le_of_parts (h : table.Founded) (kept : Kept table.entries later.entries) {i : Nat}
    (there : later.entries[i]? = some data) (parts : ¬data.PartsWithin table.entries.size) :
    table.entries.size ≤ i := by
  by_contra old
  refine parts (h.parts i data ?_)
  rw [← kept i (Nat.not_le.mp old), there]

namespace Founded

variable (h : table.Founded)
include h

/-- A founded table is added to by nothing. -/
theorem refl : table.Adds table :=
  ⟨fun _ _ => rfl, h⟩

/-- Adding a type whose parts are there adds to a founded table. -/
theorem add (parts : data.PartsWithin table.entries.size) : table.Adds (table.add data).2 where
  kept := table.kept_add data
  founded := by
    have kept := table.kept_add data
    refine ⟨fun word => kept.of_some (h.words word), fun i found there => ?_⟩
    change (table.entries.push data)[i]? = some found at there
    have here : found.PartsWithin table.entries.size := by
      rw [Array.getElem?_push] at there
      split at there
      · cases there
        exact parts
      · exact h.parts i found there
    exact here.mono kept.size_le

/-- Sharing a type whose parts are there adds to a founded table, and the type stands where it
says. -/
theorem share (parts : data.PartsWithin table.entries.size) :
    table.Adds (table.share data).2 ∧
      (table.share data).2.entries[(table.share data).1.index]? = some data := by
  rcases table.share_cases data with ⟨i, there, same⟩ | ⟨-, same⟩
  · rw [same]
    exact ⟨h.refl, there⟩
  · rw [same]
    exact ⟨h.add parts, Array.getElem?_push_size⟩

end Founded

/-- A type that is no union is made of itself. -/
theorem HasTree.constituents_eq {id : TypeId} {tree : TypeTree} (h : table.HasTree id tree)
    (flat : tree.isUnion = false) : table.constituents id = [id] := by
  unfold TypeTable.constituents
  cases h with
  | word h | array h | function h => rw [get_of_entries h]
  | union => cases flat

/-- Several different types, none of which is a union or `any`, make up a union as they are. -/
theorem unionOf_eq_share (founded : table.Founded) {ids : List TypeId} {trees : List TypeTree}
    (h : table.HaveTrees ids trees) (several : 2 ≤ trees.length)
    (flat : ∀ tree ∈ trees, tree.isUnion = false ∧ tree ≠ .word .any) (once : ids.Nodup) :
    table.unionOf ids = table.share (.union ids) := by
  have parts : ids.flatMap table.constituents = ids := by
    have each : ∀ id ∈ ids, table.constituents id = [id] := by
      intro id mem
      obtain ⟨tree, inside, found⟩ := h.exists_of_mem mem
      exact found.constituents_eq (flat tree inside).1
    rw [List.flatMap_congr each, List.flatMap_singleton']
  have noAny : ids.contains .any = false := by
    rw [List.contains_eq_mem, decide_eq_false_iff_not]
    intro mem
    obtain ⟨tree, inside, found⟩ := h.exists_of_mem mem
    exact (flat tree inside).2 (found.unique (.word (founded.words .any)))
  unfold unionOf
  simp only [parts, Resolve.eraseDups_of_nodup once, noAny, Bool.false_eq_true, if_false]
  match ids, trees, h with
  | [], _, .nil => cases several
  | [_], [_], .cons _ .nil => exact absurd several (Nat.not_le.mpr (Nat.lt_succ_self 1))
  | _ :: _ :: _, _, _ => rfl

end TypeTable

namespace ResolveState

/-- A state with another table of types. -/
def withTypes (s : ResolveState) (table : TypeTable) : ResolveState :=
  { s with program := { s.program with types := table } }

/-- A step makes a type with a tree: it adds to the table of types and changes nothing else, and a
type that contains a function is new. -/
def Makes (s : ResolveState) (tree : TypeTree) (made : TypeId × ResolveState) : Prop :=
  ∃ id table, made = (id, s.withTypes table) ∧ s.program.types.Adds table ∧
    table.HasTree id tree ∧ (tree.HasFunction → s.program.types.entries.size ≤ id.index)

variable {s : ResolveState} {tree : TypeTree} {data : TypeData}

/-- Sharing a type that has the new part of a tree makes the tree. -/
theorem makes_share {table : TypeTable} (adds : s.program.types.Adds table)
    (founded : s.program.types.Founded) (parts : data.PartsWithin table.entries.size)
    (found : (table.share data).2.HasTree (table.share data).1 tree)
    (new : tree.HasFunction → ¬data.PartsWithin s.program.types.entries.size) :
    s.Makes tree ((table.share data).1, s.withTypes (table.share data).2) := by
  obtain ⟨shared, there⟩ := adds.founded.share parts
  exact ⟨_, _, rfl, adds.trans shared, found, fun function =>
    founded.le_of_parts (adds.trans shared).kept there (new function)⟩

end ResolveState

namespace Resolve

variable {alphabet : Alphabet} {file : FileId} {lookup : TypeLookup} {scope : ScopeId}

/-- A reader of annotations makes the trees of some annotations. -/
abbrev MakesTree (file : FileId) (lookup : TypeLookup) (scope : ScopeId) (tree : TypeTree) : Prop :=
  ∀ (node : TypeNode) (s : ResolveState), node.bare = tree.node → s.program.types.Founded →
    s.Makes tree ((typeNode file lookup scope node).run s)

/-- Annotations of trees, one after the other. Trees are repeated only if they contain functions, so
the places are all different. -/
theorem typeNodes_makes {trees : List TypeTree}
    (each : ∀ tree ∈ trees, MakesTree file lookup scope tree)
    (once : trees.Pairwise fun a b => a = b → a.HasFunction) {nodes : List TypeNode}
    (same : bareTypes nodes = TypeTree.nodes trees) {s : ResolveState}
    (founded : s.program.types.Founded) :
    ∃ ids table, (typeNodes file lookup scope nodes).run s = (ids, s.withTypes table) ∧
      s.program.types.Adds table ∧ table.HaveTrees ids trees ∧ ids.Nodup ∧
      ∀ id ∈ ids, ∀ tree, table.HasTree id tree → tree.HasFunction →
        s.program.types.entries.size ≤ id.index := by
  induction trees generalizing nodes s with
  | nil =>
    cases nodes with
    | cons => simp [bareTypes, TypeTree.nodes_nil] at same
    | nil => exact ⟨[], _, rfl, founded.refl, .nil, .nil, nofun⟩
  | cons tree trees ih =>
    cases nodes with
    | nil => simp [bareTypes, TypeTree.nodes_cons] at same
    | cons node nodes =>
      rw [bareTypes, TypeTree.nodes_cons, List.cons.injEq] at same
      obtain ⟨apart, once⟩ := List.pairwise_cons.mp once
      obtain ⟨here, others⟩ := List.forall_mem_cons.mp each
      obtain ⟨id, table, run, adds, found, new⟩ := here node s same.1 founded
      obtain ⟨ids, later, run', adds', rest, nodup, new'⟩ :=
        @ih others once nodes same.2 (s.withTypes table) adds.founded
      have size : s.program.types.entries.size ≤ table.entries.size := adds.kept.size_le
      have first := found.kept adds'.kept
      refine ⟨id :: ids, later, ?_, adds.trans adds', .cons first rest, ?_, ?_⟩
      · rw [typeNodes, StateT.run_bind, run]
        show ((typeNodes file lookup scope nodes >>= fun ids => pure (id :: ids)).run
          (s.withTypes table)) = _
        rw [StateT.run_bind, run']
        rfl
      · refine List.nodup_cons.mpr ⟨fun mem => ?_, nodup⟩
        obtain ⟨other, inside, found'⟩ := rest.exists_of_mem mem
        obtain rfl := first.unique found'
        exact Nat.not_le.mpr found.lt_size (new' id mem tree first (apart tree inside rfl))
      · refine List.forall_mem_cons.mpr ⟨fun tree' found' function => ?_, ?_⟩
        · obtain rfl := first.unique found'
          exact new function
        · exact fun place mem tree' found' function =>
            Nat.le_trans size (new' place mem tree' found' function)

/-- Parameters with annotations of trees. -/
theorem parameterTypes_makes {hasRest : Bool} {trees : List (String × TypeTree)}
    (each : ∀ parameter ∈ trees, MakesTree file lookup scope parameter.2)
    {parameters : List Parameter}
    (same : bareParameters parameters = TypeTree.parameterNodes hasRest trees) {s : ResolveState}
    (founded : s.program.types.Founded) :
    ∃ types table, (parameterTypes file lookup scope parameters).run s =
        ((types, hasRest && !trees.isEmpty), s.withTypes table) ∧
      s.program.types.Adds table ∧ table.ParametersHaveTrees types trees := by
  induction trees generalizing parameters s with
  | nil =>
    cases parameters with
    | cons => simp [bareParameters, TypeTree.parameterNodes_nil] at same
    | nil =>
      refine ⟨[], _, ?_, founded.refl, .nil⟩
      rw [parameterTypes, List.isEmpty_nil, Bool.not_true, Bool.and_false]
      rfl
  | cons parameter trees ih =>
    obtain ⟨name, tree⟩ := parameter
    cases parameters with
    | nil => simp [bareParameters, TypeTree.parameterNodes_cons] at same
    | cons first parameters =>
      obtain ⟨node, rest, written, type?⟩ := first
      rw [bareParameters, TypeTree.parameterNodes_cons, List.cons.injEq, Parameter.bare,
        Parameter.mk.injEq] at same
      obtain ⟨⟨-, dots, named, annotated⟩, same⟩ := same
      obtain ⟨here, others⟩ := List.forall_mem_cons.mp each
      cases type? with
      | none => cases annotated
      | some type =>
        rw [bareType?, Option.some.injEq] at annotated
        obtain ⟨id, table, run, adds, found, -⟩ := here type s annotated founded
        obtain ⟨types, later, run', adds', list⟩ :=
          @ih others parameters same (s.withTypes table) adds.founded
        have text : written.text = name := congrArg Identifier.text named
        refine ⟨(name, id) :: types, later, ?_, adds.trans adds', .cons (found.kept adds'.kept) list⟩
        have step : (parameterType file lookup scope (.mk node rest written (some type))).run s =
            ((name, id), s.withTypes table) := by
          rw [parameterType, StateT.run_bind, run, ← text]
          rfl
        have last : (if parameters.isEmpty then rest.isSome else hasRest && !trees.isEmpty) =
            (hasRest && !((name, tree) :: trees).isEmpty) := by
          have isRest : rest.isSome = (hasRest && trees.isEmpty) := by
            have both := congrArg Option.isSome dots
            rw [Option.isSome_map] at both
            rw [both]
            cases hasRest && trees.isEmpty <;> rfl
          cases parameters with
          | nil =>
            cases trees with
            | nil => simpa using isRest
            | cons => simp [bareParameters, TypeTree.parameterNodes_cons] at same
          | cons =>
            cases trees with
            | nil => simp [bareParameters, TypeTree.parameterNodes_nil] at same
            | cons => simp
        rw [parameterTypes, StateT.run_bind, step]
        show ((parameterTypes file lookup scope parameters >>= fun p => pure
          ((name, id) :: p.1, if parameters.isEmpty then rest.isSome else p.2)).run
          (s.withTypes table)) = _
        rw [StateT.run_bind, run', ← last]
        rfl

/-- The annotation of the elements of an array, which may be in parentheses. -/
theorem element_makes {tree : TypeTree} (h : MakesTree file lookup scope tree) {node : TypeNode}
    (same : node.bare = if (tree.isUnion || tree.isFunction) = true then
      .parenthesized default tree.node else tree.node) {s : ResolveState}
    (founded : s.program.types.Founded) :
    s.Makes tree ((typeNode file lookup scope node).run s) := by
  split at same
  · cases node with
    | parenthesized node inner =>
      rw [TypeNode.bare, TypeNode.parenthesized.injEq] at same
      rw [typeNode]
      exact h inner s same.2 founded
    | _ => simp [TypeNode.bare] at same
  · exact h node s same founded

/-- When the annotation of a normal tree is resolved, a type with this tree is made. -/
theorem typeNode_makes {tree : TypeTree} (normal : tree.Throughout (TypeTree.Normal alphabet)) :
    MakesTree file lookup scope tree := by
  induction normal with
  | @intro tree here below ih =>
    intro node s same founded
    cases tree with
    | word word =>
      cases node with
      | word node written =>
        rw [TypeNode.bare, TypeTree.node_word, TypeNode.word.injEq] at same
        obtain ⟨-, rfl⟩ := same
        refine ⟨_, _, ?_, founded.refl, .word (founded.words written), fun function =>
          absurd function TypeTree.not_hasFunction_word⟩
        rw [typeNode]
        rfl
      | _ => simp [TypeNode.bare, TypeTree.node_word] at same
    | array element =>
      cases node with
      | array node inner =>
        rw [TypeNode.bare, TypeTree.node_array, TypeNode.array.injEq] at same
        obtain ⟨id, table, run, adds, found, new⟩ :=
          element_makes (ih element List.mem_cons_self) same.2 founded
        have parts : TypeData.PartsWithin table.entries.size (.array id) := found.lt_size
        obtain ⟨shared, there⟩ := adds.founded.share parts
        rw [typeNode, StateT.run_bind, run]
        refine ResolveState.makes_share adds founded parts (.array there (found.kept shared.kept))
          fun function => ?_
        exact Nat.not_lt.mpr (new (TypeTree.hasFunction_array.mp function))
      | _ => simp [TypeNode.bare, TypeTree.node_array] at same
    | union members =>
      obtain ⟨several, flat, once⟩ := here
      cases node with
      | union node nodes =>
        rw [TypeNode.bare, TypeTree.node_union, TypeNode.union.injEq] at same
        obtain ⟨ids, table, run, adds, found, nodup, new⟩ := typeNodes_makes ih once same.2 founded
        have shares := TypeTable.unionOf_eq_share adds.founded found several flat nodup
        have parts : TypeData.PartsWithin table.entries.size (.union ids) := found.lt_size
        obtain ⟨shared, there⟩ := adds.founded.share parts
        have step : (typeNode file lookup scope (.union node nodes)).run s =
            ((table.share (.union ids)).1, s.withTypes (table.share (.union ids)).2) := by
          rw [typeNode, StateT.run_bind, run, ← shares]
          rfl
        rw [step]
        refine ResolveState.makes_share adds founded parts (.union there (found.kept shared.kept))
          fun function within => ?_
        obtain ⟨member, mem, inside⟩ := TypeTree.hasFunction_union.mp function
        obtain ⟨id, place, found⟩ := found.exists_place mem
        exact Nat.not_le.mpr (within id place) (new id place member found inside)
      | _ => simp [TypeNode.bare, TypeTree.node_union] at same
    | function parameters hasRest result =>
      cases node with
      | function node list last =>
        rw [TypeNode.bare, TypeTree.node_function, TypeNode.function.injEq] at same
        obtain ⟨types, table, run, adds, signs⟩ := parameterTypes_makes
          (fun parameter mem => ih _ (List.mem_append_left _ (List.mem_map_of_mem mem))) same.2.1
          founded
        obtain ⟨type, later, run', adds', found, -⟩ := ih result
          (List.mem_append_right _ List.mem_cons_self) last (s.withTypes table) same.2.2 adds.founded
        have rest : (hasRest && !parameters.isEmpty) = hasRest := by
          cases hasRest with
          | false => rfl
          | true => simpa using here.1 rfl
        let data : TypeData := .object none .empty [⟨types, type, hasRest⟩]
        have added : later.Adds (later.add data).2 := adds'.founded.add trivial
        have all := adds.trans adds'
        refine ⟨_, (later.add data).2, ?_, all.trans added, .function Array.getElem?_push_size
          (signs.kept (adds'.trans added).kept) (found.kept added.kept), fun _ => all.kept.size_le⟩
        rw [typeNode, StateT.run_bind, run, rest]
        show ((typeNode file lookup scope last >>= fun type =>
          compile (Compile.addType (.object none .empty [⟨types, type, hasRest⟩]))).run
          (s.withTypes table)) = _
        rw [StateT.run_bind, run']
        rfl
      | _ => simp [TypeNode.bare, TypeTree.node_function] at same

end Resolve

end ExpressionTyping
