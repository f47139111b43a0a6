import ExpressionTyping.Proofs.Program.Denotation
import ExpressionTyping.Proofs.Program.TableSteps
import ExpressionTyping.Proofs.Syntax.TypeTrees

/-!
# The structure of a type in a table

The places of a table that a type refers to unfold into a tree (`TypeTable.HasTree`), and into one
only. Types without functions that have the same tree stand at the same place, since their parts are
shared; functions each have a place of their own. So the members of a union, which stand at different
places, are repeated only if they contain functions, and an annotation of words, arrays, unions and
functions means a type with a normal tree (`TypeNode.Means.exists_tree`).
-/

set_option autoImplicit false

namespace ExpressionTyping

namespace TypeTable

mutual

/-- A place in a table unfolds into a tree. -/
inductive HasTree (table : TypeTable) : TypeId → TypeTree → Prop where
  | word {word : TypeWord}
      (h : table.entries[(TypeId.ofWord word).index]? = some (.intrinsic word)) :
      HasTree table (.ofWord word) (.word word)
  | array {id part : TypeId} {element : TypeTree}
      (h : table.entries[id.index]? = some (.array part)) (inner : HasTree table part element) :
      HasTree table id (.array element)
  | union {id : TypeId} {ids : List TypeId} {members : List TypeTree}
      (h : table.entries[id.index]? = some (.union ids)) (inner : HaveTrees table ids members) :
      HasTree table id (.union members)
  | function {id type : TypeId} {types : List (String × TypeId)} {hasRest : Bool}
      {parameters : List (String × TypeTree)} {result : TypeTree}
      (h : table.entries[id.index]? = some (.object none .empty [⟨types, type, hasRest⟩]))
      (inner : ParametersHaveTrees table types parameters) (last : HasTree table type result) :
      HasTree table id (.function parameters hasRest result)

/-- Places in a table unfold into trees, one by one. -/
inductive HaveTrees (table : TypeTable) : List TypeId → List TypeTree → Prop where
  | nil : HaveTrees table [] []
  | cons {id : TypeId} {ids : List TypeId} {tree : TypeTree} {trees : List TypeTree}
      (h : HasTree table id tree) (rest : HaveTrees table ids trees) :
      HaveTrees table (id :: ids) (tree :: trees)

/-- The types of parameters unfold into trees, one by one; the names are the same. -/
inductive ParametersHaveTrees (table : TypeTable) :
    List (String × TypeId) → List (String × TypeTree) → Prop where
  | nil : ParametersHaveTrees table [] []
  | cons {name : String} {id : TypeId} {types : List (String × TypeId)} {tree : TypeTree}
      {parameters : List (String × TypeTree)} (h : HasTree table id tree)
      (rest : ParametersHaveTrees table types parameters) :
      ParametersHaveTrees table ((name, id) :: types) ((name, tree) :: parameters)

end

variable {table later : TypeTable}

/-- Different words have different places. -/
theorem ofWord_inj {word other : TypeWord} (h : TypeId.ofWord word = .ofWord other) :
    word = other := by
  cases word <;> cases other <;> first | rfl | cases h

/-- A place that unfolds into a tree is one of the table. -/
theorem HasTree.lt_size {id : TypeId} {tree : TypeTree} (h : table.HasTree id tree) :
    id.index < table.entries.size := by
  cases h with
  | word h | array h | union h | function h => exact (Array.getElem?_eq_some_iff.mp h).1

/-- Only the type `any` unfolds into that word. -/
theorem HasTree.eq_any {id : TypeId} (h : table.HasTree id (.word .any)) : id = .any := by
  cases h
  rfl

/-- Places that unfold into trees are places of the table. -/
theorem HaveTrees.lt_size {ids : List TypeId} {trees : List TypeTree}
    (h : table.HaveTrees ids trees) : ∀ id ∈ ids, id.index < table.entries.size := by
  induction ids generalizing trees with
  | nil => exact List.forall_mem_nil _
  | cons id ids ih =>
    cases h with
    | cons h rest => exact List.forall_mem_cons.mpr ⟨h.lt_size, ih rest⟩

/-- Each of some places that unfold into trees unfolds into one of them. -/
theorem HaveTrees.exists_of_mem {ids : List TypeId} {trees : List TypeTree}
    (h : table.HaveTrees ids trees) {id : TypeId} (mem : id ∈ ids) :
    ∃ tree ∈ trees, table.HasTree id tree := by
  induction ids generalizing trees with
  | nil => cases mem
  | cons first ids ih =>
    cases h with
    | cons h rest =>
      rcases List.mem_cons.mp mem with rfl | mem
      · exact ⟨_, List.mem_cons_self, h⟩
      · obtain ⟨tree, inside, found⟩ := ih rest mem
        exact ⟨tree, List.mem_cons_of_mem _ inside, found⟩

/-- Each of some trees is unfolded from one of the places. -/
theorem HaveTrees.exists_place {ids : List TypeId} {trees : List TypeTree}
    (h : table.HaveTrees ids trees) {tree : TypeTree} (mem : tree ∈ trees) :
    ∃ id ∈ ids, table.HasTree id tree := by
  induction ids generalizing trees with
  | nil =>
    cases h
    cases mem
  | cons first ids ih =>
    cases h with
    | cons h rest =>
      rcases List.mem_cons.mp mem with rfl | mem
      · exact ⟨_, List.mem_cons_self, h⟩
      · obtain ⟨id, inside, found⟩ := ih rest mem
        exact ⟨id, List.mem_cons_of_mem _ inside, found⟩

/-! ## Trees stay -/

mutual

/-- A place unfolds into the same tree in a table that keeps more. -/
theorem HasTree.kept (kept : Kept table.entries later.entries) {id : TypeId} {tree : TypeTree}
    (h : table.HasTree id tree) : later.HasTree id tree := by
  cases h with
  | word h => exact .word (kept.of_some h)
  | array h inner => exact .array (kept.of_some h) (inner.kept kept)
  | union h inner => exact .union (kept.of_some h) (inner.kept kept)
  | function h inner last => exact .function (kept.of_some h) (inner.kept kept) (last.kept kept)

/-- Places unfold into the same trees in a table that keeps more. -/
theorem HaveTrees.kept (kept : Kept table.entries later.entries) {ids : List TypeId}
    {trees : List TypeTree} (h : table.HaveTrees ids trees) : later.HaveTrees ids trees := by
  cases h with
  | nil => exact .nil
  | cons h rest => exact .cons (h.kept kept) (rest.kept kept)

/-- The types of parameters unfold into the same trees in a table that keeps more. -/
theorem ParametersHaveTrees.kept (kept : Kept table.entries later.entries)
    {types : List (String × TypeId)} {parameters : List (String × TypeTree)}
    (h : table.ParametersHaveTrees types parameters) :
    later.ParametersHaveTrees types parameters := by
  cases h with
  | nil => exact .nil
  | cons h rest => exact .cons (h.kept kept) (rest.kept kept)

end

/-! ## A type has one tree -/

mutual

/-- A place unfolds into one tree only. -/
theorem HasTree.unique {id : TypeId} {tree other : TypeTree} (h : table.HasTree id tree)
    (h' : table.HasTree id other) : tree = other := by
  cases h with
  | @word word h =>
    generalize place : TypeId.ofWord word = id at h h'
    cases h' with
    | word h' => rw [ofWord_inj place]
    | array h' | union h' | function h' => cases h.symm.trans h'
  | array h inner =>
    cases h' with
    | word h' | union h' | function h' => cases h.symm.trans h'
    | array h' inner' =>
      cases h.symm.trans h'
      rw [inner.unique inner']
  | union h inner =>
    cases h' with
    | word h' | array h' | function h' => cases h.symm.trans h'
    | union h' inner' =>
      cases h.symm.trans h'
      rw [inner.unique inner']
  | function h inner last =>
    cases h' with
    | word h' | array h' | union h' => cases h.symm.trans h'
    | function h' inner' last' =>
      cases h.symm.trans h'
      rw [inner.unique inner', last.unique last']

/-- Places unfold into one list of trees only. -/
theorem HaveTrees.unique {ids : List TypeId} {trees others : List TypeTree}
    (h : table.HaveTrees ids trees) (h' : table.HaveTrees ids others) : trees = others := by
  cases h with
  | nil =>
    cases h'
    rfl
  | cons h rest =>
    cases h' with
    | cons h' rest' => rw [h.unique h', rest.unique rest']

/-- The types of parameters unfold into one list of trees only. -/
theorem ParametersHaveTrees.unique {types : List (String × TypeId)}
    {parameters others : List (String × TypeTree)} (h : table.ParametersHaveTrees types parameters)
    (h' : table.ParametersHaveTrees types others) : parameters = others := by
  cases h with
  | nil =>
    cases h'
    rfl
  | cons h rest =>
    cases h' with
    | cons h' rest' => rw [h.unique h', rest.unique rest']

end

/-! ## Types without functions are shared -/

mutual

/-- Types without functions that have the same tree stand at the same place. -/
theorem HasTree.eq_of_shared (shared : table.SharedOnce) {a b : TypeId} {tree : TypeTree}
    (h : table.HasTree a tree) (h' : table.HasTree b tree) (free : ¬tree.HasFunction) : a = b := by
  cases h with
  | word =>
    cases h'
    rfl
  | array h inner =>
    cases h' with
    | array h' inner' =>
      obtain rfl := inner.eq_of_shared shared inner' fun function =>
        free (.inside List.mem_cons_self function)
      exact congrArg TypeId.mk (shared rfl h h')
  | union h inner =>
    cases h' with
    | union h' inner' =>
      obtain rfl := inner.eq_of_shared shared inner' fun tree mem function =>
        free (.inside mem function)
      exact congrArg TypeId.mk (shared rfl h h')
  | function => exact absurd (.itself rfl) free

/-- Where shared types stand at one place only, trees without functions are unfolded from one list
of places only. -/
theorem HaveTrees.eq_of_shared (shared : table.SharedOnce) {ids others : List TypeId}
    {trees : List TypeTree} (h : table.HaveTrees ids trees) (h' : table.HaveTrees others trees)
    (free : ∀ tree ∈ trees, ¬tree.HasFunction) : ids = others := by
  cases h with
  | nil =>
    cases h'
    rfl
  | cons h rest =>
    cases h' with
    | cons h' rest' =>
      obtain ⟨first, others⟩ := List.forall_mem_cons.mp free
      rw [h.eq_of_shared shared h' first, rest.eq_of_shared shared rest' others]

end

/-- Different types have the same tree only if it contains a function. -/
theorem HaveTrees.pairwise (shared : table.SharedOnce) {ids : List TypeId} {trees : List TypeTree}
    (h : table.HaveTrees ids trees) (once : ids.Nodup) :
    trees.Pairwise fun a b => a = b → a.HasFunction := by
  induction ids generalizing trees with
  | nil =>
    cases h
    exact .nil
  | cons id ids ih =>
    obtain ⟨new, once⟩ := List.nodup_cons.mp once
    cases h with
    | @cons _ _ tree trees h rest =>
      refine .cons (fun other mem same => ?_) (ih rest once)
      subst same
      by_contra free
      obtain ⟨place, there, found⟩ := rest.exists_place mem
      exact new (h.eq_of_shared shared found free ▸ there)

/-! ## Trees of unions -/

/-- Places that each unfold into a tree unfold into trees one by one. -/
theorem exists_haveTrees {P : TypeTree → Prop} {ids : List TypeId}
    (h : ∀ id ∈ ids, ∃ tree, table.HasTree id tree ∧ P tree) :
    ∃ trees, table.HaveTrees ids trees ∧ ∀ tree ∈ trees, P tree := by
  induction ids with
  | nil => exact ⟨[], .nil, nofun⟩
  | cons id ids ih =>
    obtain ⟨here, others⟩ := List.forall_mem_cons.mp h
    obtain ⟨tree, found, holds⟩ := here
    obtain ⟨trees, rest, all⟩ := ih others
    exact ⟨tree :: trees, .cons found rest, List.forall_mem_cons.mpr ⟨holds, all⟩⟩

/-- Types of parameters that each unfold into a tree do so one by one. -/
theorem exists_parametersHaveTrees {P : String × TypeTree → Prop} {types : List (String × TypeId)}
    (h : ∀ type ∈ types, ∃ tree, table.HasTree type.2 tree ∧ P (type.1, tree)) :
    ∃ parameters, table.ParametersHaveTrees types parameters ∧
      ∀ parameter ∈ parameters, P parameter := by
  induction types with
  | nil => exact ⟨[], .nil, nofun⟩
  | cons type types ih =>
    obtain ⟨here, others⟩ := List.forall_mem_cons.mp h
    obtain ⟨tree, found, holds⟩ := here
    obtain ⟨parameters, rest, all⟩ := ih others
    exact ⟨_, .cons found rest, List.forall_mem_cons.mpr ⟨holds, all⟩⟩

variable {alphabet : Alphabet}

/-- The parts of a type with a normal tree have normal trees, and none is a union. -/
theorem HasTree.constituents {id : TypeId} {tree : TypeTree} (h : table.HasTree id tree)
    (normal : tree.Throughout (TypeTree.Normal alphabet)) :
    ∀ part ∈ table.constituents id, ∃ tree, table.HasTree part tree ∧
      tree.Throughout (TypeTree.Normal alphabet) ∧ tree.isUnion = false := by
  have single (data : TypeData) (there : table.entries[id.index]? = some data)
      (plain : ∀ members, data ≠ .union members) (flat : tree.isUnion = false) :
      ∀ part ∈ table.constituents id, ∃ tree, table.HasTree part tree ∧
        tree.Throughout (TypeTree.Normal alphabet) ∧ tree.isUnion = false := by
    intro part mem
    rw [TypeTable.constituents, get_of_entries there] at mem
    split at mem
    · exact absurd rfl (plain _)
    · cases List.mem_singleton.mp mem
      exact ⟨tree, h, normal, flat⟩
  cases h with
  | word entry => exact single _ entry (by rintro _ ⟨⟩) rfl
  | array entry => exact single _ entry (by rintro _ ⟨⟩) rfl
  | function entry => exact single _ entry (by rintro _ ⟨⟩) rfl
  | union entry inner =>
    obtain ⟨⟨-, flat, -⟩, below⟩ := normal
    intro part mem
    rw [TypeTable.constituents, get_of_entries entry] at mem
    obtain ⟨member, there, found⟩ := inner.exists_of_mem mem
    exact ⟨member, found, below member there, (flat member there).1⟩

/-- Different types that are no unions are together a type with a normal tree. -/
theorem exists_tree_of_joinIs {r : Reading} (shared : r.types.SharedOnce)
    (words : ∀ word, r.types.entries[(TypeId.ofWord word).index]? = some (.intrinsic word))
    {members : List TypeId} (once : members.Nodup)
    (h : ∀ member ∈ members, ∃ tree, r.types.HasTree member tree ∧
      tree.Throughout (TypeTree.Normal alphabet) ∧ tree.isUnion = false)
    {id : TypeId} (join : r.JoinIs members id) :
    ∃ tree, r.types.HasTree id tree ∧ tree.Throughout (TypeTree.Normal alphabet) := by
  unfold Reading.JoinIs at join
  split at join
  · subst join
    exact ⟨_, .word (words .any), ⟨trivial, nofun⟩⟩
  · rename_i noAny
    have others := exists_haveTrees (P := fun tree =>
      tree.Throughout (TypeTree.Normal alphabet) ∧ tree.isUnion = false ∧ tree ≠ .word .any)
      fun member mem => by
        obtain ⟨tree, found, normal, flat⟩ := h member mem
        refine ⟨tree, found, normal, flat, ?_⟩
        rintro rfl
        exact noAny (found.eq_any ▸ mem)
    obtain ⟨trees, found, all⟩ := others
    have pairwise := found.pairwise shared once
    match members, join, found with
    | [], join, _ =>
      subst join
      exact ⟨_, .word (words .never), ⟨trivial, nofun⟩⟩
    | [only], join, .cons found .nil =>
      subst join
      exact ⟨_, found, (all _ List.mem_cons_self).1⟩
    | first :: second :: rest, join, .cons found (.cons found' others) =>
      refine ⟨_, .union (entries_of_get join nofun) (.cons found (.cons found' others)),
        ⟨?_, ?_, ?_⟩, ?_⟩
      · simp
      · exact fun tree mem => (all tree mem).2
      · exact pairwise
      · exact fun tree mem => (all tree mem).1

end TypeTable

/-! ## Annotations mean types with normal trees -/

/-- A part of an annotation is a word, an array, a union, a type in parentheses, or a function whose
parameters all have usable names and annotations. -/
def TypeNode.Plain (alphabet : Alphabet) : TypeNode → Prop
  | .word _ _ | .array _ _ | .union _ _ | .parenthesized _ _ => True
  | .function _ parameters _ => ∀ parameter ∈ parameters,
      parameter.name.Usable alphabet ∧ parameter.type?.isSome = true
  | .literal _ _ _ | .reference _ _ | .object _ _ => False

section Meanings

variable {r : Reading} {scope : ScopeId}

/-- Each of some types is what one of the annotations means. -/
theorem TypeNodes.Mean.exists_of_mem {nodes : List TypeNode} {ids : List TypeId}
    (h : TypeNodes.Mean r scope nodes ids) {id : TypeId} (mem : id ∈ ids) :
    ∃ node ∈ nodes, node.Means r scope id := by
  induction ids generalizing nodes with
  | nil => cases mem
  | cons first ids ih =>
    cases h with
    | cons h rest =>
      rcases List.mem_cons.mp mem with rfl | mem
      · exact ⟨_, List.mem_cons_self, h⟩
      · obtain ⟨node, inside, means⟩ := ih rest mem
        exact ⟨node, List.mem_cons_of_mem _ inside, means⟩

/-- The type of each of some parameters is what one of the written parameters means. -/
theorem Parameters.Mean.exists_of_mem {parameters : List Parameter} {types : List (String × TypeId)}
    {hasRest : Bool} (h : Parameters.Mean r scope parameters types hasRest)
    {type : String × TypeId} (mem : type ∈ types) :
    ∃ parameter ∈ parameters, parameter.Means r scope type := by
  induction types generalizing parameters hasRest with
  | nil => cases mem
  | cons first types ih =>
    cases h with
    | cons h rest =>
      rcases List.mem_cons.mp mem with rfl | mem
      · exact ⟨_, List.mem_cons_self, h⟩
      · obtain ⟨parameter, inside, means⟩ := ih rest mem
        exact ⟨parameter, List.mem_cons_of_mem _ inside, means⟩

variable {alphabet : Alphabet}

/-- A plain annotation means a type with a normal tree. -/
theorem TypeNode.Means.exists_tree (shared : r.types.SharedOnce)
    (words : ∀ word, r.types.entries[(TypeId.ofWord word).index]? = some (.intrinsic word))
    {node : TypeNode} (plain : node.Throughout (TypeNode.Plain alphabet)) {id : TypeId}
    (means : node.Means r scope id) :
    ∃ tree, r.types.HasTree id tree ∧ tree.Throughout (TypeTree.Normal alphabet) := by
  induction plain generalizing id with
  | @intro node here below ih =>
    cases means with
    | word => exact ⟨_, .word (words _), ⟨trivial, nofun⟩⟩
    | literal | reference | object => cases here
    | array element h =>
      obtain ⟨tree, found, normal⟩ := ih _ List.mem_cons_self element
      refine ⟨_, .array (TypeTable.entries_of_get h (by simp)) found, ⟨trivial, ?_⟩⟩
      exact List.forall_mem_singleton.mpr normal
    | parenthesized inner => exact ih _ List.mem_cons_self inner
    | union members join =>
      refine TypeTable.exists_tree_of_joinIs shared words (nodup_eraseDups _) (fun part mem => ?_)
        join.2
      obtain ⟨member, there, mem⟩ := List.mem_flatMap.mp (List.mem_eraseDups.mp mem)
      obtain ⟨node, inside, means⟩ := members.exists_of_mem there
      obtain ⟨tree, found, normal⟩ := ih node inside means
      exact found.constituents normal part mem
    | @function _ parameters result types hasRest type _ signs last h =>
      obtain ⟨tree, found, normal⟩ := ih result (List.mem_append_right _ List.mem_cons_self) last
      obtain ⟨trees, all, names⟩ := TypeTable.exists_parametersHaveTrees (P := fun parameter =>
          Identifier.Usable alphabet ⟨default, parameter.1⟩ ∧
          parameter.2.Throughout (TypeTree.Normal alphabet)) fun type mem => by
        obtain ⟨parameter, there, means⟩ := signs.exists_of_mem mem
        obtain ⟨usable, annotated⟩ := here parameter there
        cases means with
        | plain | rest => cases annotated
        | @annotated _ _ name written id means =>
          obtain ⟨tree, found, normal⟩ := ih written (List.mem_append_left _
            (List.mem_filterMap.mpr ⟨_, there, rfl⟩)) means
          exact ⟨tree, found, usable, normal⟩
      have rest : hasRest = true → trees ≠ [] := by
        rintro rfl rfl
        cases all
        cases signs
      refine ⟨.function trees hasRest tree, .function (TypeTable.entries_of_get h (by simp)) all found,
        ⟨rest, fun parameter mem => (names parameter mem).1⟩, fun child mem => ?_⟩
      rcases List.mem_append.mp mem with mem | mem
      · obtain ⟨parameter, there, rfl⟩ := List.mem_map.mp mem
        exact (names parameter there).2
      · cases List.mem_singleton.mp mem
        exact normal

end Meanings

end ExpressionTyping
