import ExpressionTyping.Proofs.Grammar.VariableRoundTrip
import ExpressionTyping.Proofs.Program.DisplayTokens
import ExpressionTyping.Proofs.Program.Interfaces
import ExpressionTyping.Proofs.Program.TreeResolution

/-!
# Reading a displayed type again

The text of a type that is built from words, arrays, unions and functions is an annotation. If all
levels of the type are shown, it is read without issues and means a type with the same tree, in
whatever program it is compiled, unless a function is a member of a union before the last one
(`Program.typeText_reads_back`). Functions in unions are shown without parentheses, so the members
after such a function are read as part of its result (`Program.typeText_ambiguous`).
-/

set_option autoImplicit false

namespace ExpressionTyping

open Resolve

namespace Program

variable {program : Program} {file : SourceFile} {list : VariableStatement}
  {declaration : VariableDeclaration}

/-! ## A file with one variable -/

/-- A program in which a file that declares one variable is bound. -/
def withVariable (program : Program) (file : SourceFile) (declaration : VariableDeclaration) :
    Program :=
  let scope : ScopeId := ⟨program.scopes.size⟩
  let symbol : SymbolId := ⟨program.symbols.size⟩
  { program with
    symbols := program.symbols.push ⟨declaration.name.text, .blockVariable,
      [⟨⟨program.files.size⟩, declaration.name.node.span.start⟩], .any⟩
    scopes := program.scopes.push ⟨[], ⟨0, file.node.span.stop⟩,
      SymbolTable.empty.insert declaration.name.text symbol, .empty, []⟩
    files := program.files.push ⟨file.name, file.node.span.stop, [scope],
      [(declaration.node.id, symbol)]⟩ }

/-- Binding a file with a single variable adds the variable and hands it on under its symbol. -/
theorem boundIn_variable (statements : file.statements = [.variableList list])
    (form : list.form = .block) (declarations : list.declarations = [declaration])
    (named : declaration.name.isMissing = false) :
    program.boundIn file = ((⟨program.files.size⟩, [.declaration ⟨program.symbols.size⟩
      (.variableDecl ⟨program.scopes.size⟩ false declaration.type? declaration.initializer)]),
      program.withVariable file declaration) := by
  simp only [boundIn, Bind.wholeFile, statements, Bind.statements, Bind.statement, declarations,
    Bind.variableList, named, form, Bind.variableTarget, Bind.declareValue, Bind.recordDeclaration,
    Compile.addFile, Compile.addScope, Compile.addSymbol, Compile.addLocation, Compile.updateFile,
    Compile.updateScope, Compile.updateSymbol, StateT.run_bind, Bool.false_eq_true, if_false]
  simp [modify_push_size, Program.scope, SymbolTable.empty, SymbolTable.get?, withVariable]
  rfl

/-- The only variable of a file is resolved by its annotation. -/
theorem resolvedIn_variable (statements : file.statements = [.variableList list])
    (form : list.form = .block) (declarations : list.declarations = [declaration])
    (named : declaration.name.isMissing = false) {type : TypeNode}
    (written : declaration.type? = some type) (none : declaration.initializer = none) :
    ∃ lookup, ∀ id s, (typeNode ⟨program.files.size⟩ lookup ⟨program.scopes.size⟩ type).run
        ⟨program.withVariable file declaration, []⟩ = (id, s) →
      program.resolvedIn file = ⟨{ s.program with
        symbols := s.program.symbols.modify program.symbols.size fun symbol =>
          { symbol with type := id } }, ⟨program.symbols.size⟩ :: s.resolved⟩ := by
  let id : SymbolId := ⟨program.symbols.size⟩
  let made : Declaration := .variableDecl ⟨program.scopes.size⟩ false (some type) Option.none
  let pending : Pending := [(id, made)]
  let file' : FileId := ⟨program.files.size⟩
  let lookup : TypeLookup := reference file' (Resolve.symbol file' pending 1 [id])
  let start : ResolveState := ⟨program.withVariable file declaration, []⟩
  refine ⟨lookup, fun typeId s run => ?_⟩
  have declared : pending.declarationsOf id = [made] := by
    simp [Pending.declarationsOf, pending]
  have members : (membersOfInterface file' pending id).run start = ((), start) := by
    rw [membersOfInterface_run, if_neg]
    simp [start, withVariable, Program.symbol, id]
  have resolved := @symbol_run file' pending 1 [] id made List.not_mem_nil declared start
  have annotated : declaredType file' (Resolve.symbol file' pending 1 [id]) id made [made] =
      typeNode file' lookup ⟨program.scopes.size⟩ type := rfl
  rw [if_neg List.not_mem_nil, annotated, run] at resolved
  rw [resolvedIn, boundIn_variable statements form declarations named, written, none]
  show (((membersOfInterface file' pending id) >>= fun _ => fresh file' pending id).run start).2 = _
  rw [StateT.run_bind, members]
  exact congrArg Prod.snd resolved

/-- What a text means as the annotation of a variable: it is read without issues, and the type of the
variable has a tree. -/
def ReadsAs (program : Program) (name text : String) (tree : TypeTree) : Prop :=
  let parsed := SourceFile.parse name ("let again: " ++ text ++ ";")
  let added := (program.add parsed.tree).2
  parsed.issues = [] ∧ added.issues = program.issues ∧ ∃ list declaration id,
    parsed.tree.statements = [.variableList list] ∧ list.declarations = [declaration] ∧
    added.typeOf? ⟨program.files.size⟩ declaration.node.id = some id ∧ added.types.HasTree id tree

/-- A text means at most one type. -/
theorem ReadsAs.unique {name text : String} {tree other : TypeTree}
    (h : program.ReadsAs name text tree) (h' : program.ReadsAs name text other) : tree = other := by
  unfold ReadsAs at h h'
  generalize SourceFile.parse name ("let again: " ++ text ++ ";") = parsed at h h'
  generalize (program.add parsed.tree).2 = added at h h'
  obtain ⟨-, -, list, declaration, id, statements, declarations, typeOf, found⟩ := h
  obtain ⟨-, -, list', declaration', id', statements', declarations', typeOf', found'⟩ := h'
  cases statements.symm.trans statements'
  cases declarations.symm.trans declarations'
  cases typeOf.symm.trans typeOf'
  exact found.unique found'

/-- In a sound program, the types of words stand at their places. -/
theorem Sound.founded (h : program.Sound) : program.types.Founded where
  words word := by
    have entry : TypeTable.initial.entries[(TypeId.ofWord word).index]? = some (.intrinsic word) := by
      cases word <;> rfl
    rw [h.initial _ (Array.getElem?_eq_some_iff.mp entry).1, entry]
  parts i data there := by
    have within := h.closed.types i data there
    cases data with
    | array | union => exact within
    | _ => trivial

/-- The annotation of a normal tree means a type with this tree. -/
theorem Sound.add_variable (h : program.Sound) {tree : TypeTree}
    (normal : tree.Throughout (TypeTree.Normal Alphabet.standard))
    (statements : file.statements = [.variableList list]) (form : list.form = .block)
    (declarations : list.declarations = [declaration])
    (named : declaration.name.isMissing = false) {type : TypeNode}
    (written : declaration.type? = some type) (none : declaration.initializer = none)
    (same : type.bare = tree.node) :
    (program.add file).2.issues = program.issues ∧ ∃ id,
      (program.add file).2.typeOf? ⟨program.files.size⟩ declaration.node.id = some id ∧
      (program.add file).2.types.HasTree id tree := by
  obtain ⟨lookup, resolved⟩ :=
    @resolvedIn_variable program _ _ _ statements form declarations named _ written none
  obtain ⟨id, table, run, -, found, -⟩ := @typeNode_makes Alphabet.standard ⟨program.files.size⟩
    lookup ⟨program.scopes.size⟩ tree normal type ⟨program.withVariable file declaration, []⟩ same
    h.founded
  rw [add_eq, resolved _ _ run]
  refine ⟨rfl, id, ?_, found⟩
  simp [typeOf?, symbolOf?, ResolveState.withTypes, withVariable, Program.symbol, modify_push_size]

/-- A text that is laid out for the annotation of a normal tree means a type with this tree. -/
theorem Sound.readsAs (h : program.Sound) {tree : TypeTree}
    (normal : tree.Throughout (TypeTree.Normal Alphabet.standard))
    (grouped : tree.Throughout fun part => part.isGrouped = true)
    (nesting : tree.node.nesting + 1 ≤ Parse.depthLimit) {text : String}
    (writes : Token.Writes Alphabet.standard text tree.node.contents) (name : String) :
    program.ReadsAs name text tree := by
  have usable : Identifier.Usable Alphabet.standard ⟨default, "again"⟩ := by
    refine ⟨rfl, ?_⟩
    show Token.Alone Alphabet.standard (.identifier, "again")
    decide +kernel
  have read := TypeNode.parse_annotated (TypeTree.node_readable normal grouped) nesting writes usable
    name
  have spelled : "let " ++ "again" ++ ": " = "let again: " := rfl
  simp only [spelled] at read
  unfold ReadsAs
  generalize SourceFile.parse name ("let again: " ++ text ++ ";") = parsed at read ⊢
  obtain ⟨quiet, statement, statements, list, declaration, type, rfl, form, declarations, label,
    written, none, same⟩ := read
  have named : declaration.name.isMissing = false := by
    rw [Identifier.isMissing, label]
    rfl
  obtain ⟨issues, id, typeOf, found⟩ := h.add_variable normal statements form declarations named
    written none (same.trans tree.bare_node)
  exact ⟨quiet, issues, list, declaration, id, statements, declarations, typeOf, found⟩

/-! ## Displayed types -/

/-- A type that is built from words, arrays, unions and functions has a tree, wherever its annotation
stands. If all of its levels are shown, and no function stands in a union before another member, the
text of the type means a type with this tree in every program, and nothing is reported. Types that
annotations of variables and aliases are resolved to are what the annotations mean. -/
theorem typeText_reads_back (before : List (String × String)) (name text : String) :
    let host := ofTexts before
    let file := (SourceFile.parse name text).tree
    let pending := Resolve.pendingOf (host.boundIn file).1.2
    let program := (host.add file).2
    (∀ symbol first rest, pending.declarationsOf symbol = first :: rest →
      first.Gives (program.readingInCircles ⟨host.files.size⟩) (program.symbol symbol).type) ∧
    ∀ r : Reading, r.types = program.types → ∀ (scope : ScopeId) (node : TypeNode) id,
      node.Throughout (TypeNode.Plain Alphabet.standard) → node.Means r scope id →
      (∃ tree, program.types.HasTree id tree) ∧
      ∀ tree, program.types.HasTree id tree → tree.isWithin displayLevels = true →
        (tree.Throughout fun part => part.isGrouped = true) → ∀ sources label,
        (ofTexts sources).ReadsAs label (program.typeText id) tree := by
  obtain ⟨compiled, -⟩ := ofTexts_compiled before
  have placed := (SourceFile.parse_placed name text).1
  generalize ofTexts before = host at compiled ⊢
  generalize (SourceFile.parse name text).tree = file at placed ⊢
  intro host file pending program
  refine ⟨fun symbol first rest declared => ?_, fun r types scope node id plain means => ?_⟩
  · exact (compiled.hasDeclaredType placed ⟨_, Pending.mem_of_declarationsOf declared⟩ first rest
      declared).1
  · have sound : program.Sound := (compiled.add placed).sound
    obtain ⟨tree, found, normal⟩ := means.exists_tree (types ▸ sound.sharedOnce)
      (types ▸ sound.founded.words) plain
    rw [types] at found
    refine ⟨⟨tree, found⟩, fun other found' within grouped sources label => ?_⟩
    obtain rfl := found.unique found'
    have nesting := TypeTree.node_nesting_lt within
    exact (ofTexts_compiled sources).1.sound.readsAs normal grouped
      (Nat.le_trans nesting (by decide)) (display_writes found within normal) label

/-- An array of functions with a rest parameter, or `null`. -/
def callbacks : TypeTree :=
  .union [.array (.function [("x", .word .string), ("rest", .array (.word .any))] true (.word .void)),
    .word .null]

/-- An annotation of this type. -/
def callbacksNode : TypeNode :=
  .union default [.array default (.parenthesized default (.function default
    [.mk default none ⟨default, "x"⟩ (some (.word default .string)),
      .mk default (some default) ⟨default, "rest"⟩ (some (.array default (.word default .any)))]
    (.word default .void))), .word default .null]

/-- The type of a variable that takes and gives functions is displayed as a text that, written as an
annotation, gives the type back. -/
theorem typeText_reads_back_callbacks :
    let file := (SourceFile.parse "test.d.ts"
      "let a: ((x: string, ...rest: any[]) => void)[] | null;").tree
    let program := ((ofTexts []).add file).2
    program.typeOf? ⟨0⟩ 14 = some ⟨18⟩ ∧
    callbacksNode.Throughout (TypeNode.Plain Alphabet.standard) ∧
    callbacksNode.Means (program.reading ⟨0⟩) ⟨0⟩ ⟨18⟩ ∧ program.types.HasTree ⟨18⟩ callbacks ∧
    callbacks.isWithin displayLevels = true ∧
    (callbacks.Throughout fun part => part.isGrouped = true) ∧
    program.typeText ⟨18⟩ = "((x: string, ...rest: any[]) => void)[] | null" ∧
    (ofTexts [("other.d.ts", "type A = string[];")]).ReadsAs "again.d.ts" (program.typeText ⟨18⟩)
      callbacks := by
  intro file program
  obtain ⟨typeOf, shown⟩ : program.typeOf? ⟨0⟩ 14 = some ⟨18⟩ ∧
      program.typeText ⟨18⟩ = "((x: string, ...rest: any[]) => void)[] | null" := by
    decide +kernel
  obtain ⟨anys, function, functions, union, join⟩ :
      program.types.entries[15]? = some (.array ⟨0⟩) ∧
      program.types.entries[16]? =
        some (.object none .empty [⟨[("x", ⟨2⟩), ("rest", ⟨15⟩)], ⟨6⟩, true⟩]) ∧
      program.types.entries[17]? = some (.array ⟨16⟩) ∧
      program.types.entries[18]? = some (.union [⟨17⟩, ⟨8⟩]) ∧
      ([⟨17⟩, ⟨8⟩].flatMap program.types.constituents).eraseDups = [⟨17⟩, ⟨8⟩] := by
    decide +kernel
  have sound : program.Sound := ((ofTexts_compiled []).1.add (SourceFile.parse_placed _ _).1).sound
  have within : callbacks.isWithin displayLevels = true := by decide
  have grouped : callbacks.Throughout fun part => part.isGrouped = true := by
    simp only [callbacks, TypeTree.throughout_iff, TypeTree.children, List.map_cons, List.map_nil,
      List.cons_append, List.nil_append, List.Forall]
    decide
  have plain : callbacksNode.Throughout (TypeNode.Plain Alphabet.standard) := by
    simp only [callbacksNode, TypeNode.throughout_iff, TypeNode.children, TypeNode.Plain,
      Identifier.Usable, Parameter.type?, List.filterMap_cons, List.filterMap_nil, List.cons_append,
      List.nil_append, List.Forall]
    decide +kernel
  have found : program.types.HasTree ⟨18⟩ callbacks := by
    clear_value program
    have word (word : TypeWord) := TypeTable.HasTree.word (sound.founded.words word)
    exact .union union (.cons (.array functions (.function function
      (.cons (word .string) (.cons (.array anys (word .any)) .nil)) (word .void)))
      (.cons (word .null) .nil))
  have means : callbacksNode.Means (program.reading ⟨0⟩) ⟨0⟩ ⟨18⟩ := by
    clear_value program
    refine .union (.cons (.array (.parenthesized (.function (.cons (.annotated .word) (.cons
      (.annotated (.array .word (TypeTable.get_of_entries anys))) .nil)) .word
      (TypeTable.get_of_entries function))) (TypeTable.get_of_entries functions))
      (.cons .word .nil)) ⟨?_, ?_⟩
    · have size := found.lt_size
      change 18 < program.types.entries.size at size
      intro part mem
      have le : part.index ≤ 18 := by
        revert part
        decide
      exact Nat.lt_of_le_of_lt le size
    · have join : ([⟨17⟩, .ofWord .null].flatMap
          (program.reading ⟨0⟩).types.constituents).eraseDups = [⟨17⟩, ⟨8⟩] := join
      unfold Reading.JoinIs
      rw [join, if_neg (by decide)]
      exact TypeTable.get_of_entries union
  have reads := (typeText_reads_back [] "test.d.ts"
    "let a: ((x: string, ...rest: any[]) => void)[] | null;").2
  have same : program = ((ofTexts []).add (SourceFile.parse "test.d.ts"
    "let a: ((x: string, ...rest: any[]) => void)[] | null;").tree).2 := rfl
  rw [← same] at reads
  refine ⟨typeOf, plain, means, found, within, grouped, shown, ?_⟩
  clear_value program
  exact (reads (program.reading ⟨0⟩) rfl ⟨0⟩ callbacksNode ⟨18⟩ plain means).2 callbacks found within
    grouped [("other.d.ts", "type A = string[];")] "again.d.ts"

/-- A function that is shown in a union before another member takes this member as part of its
result when it is read again. -/
theorem typeText_ambiguous :
    let program := ofTexts [("test.d.ts", "let a: (() => string) | number;")]
    let tree : TypeTree := .union [.function [] false (.word .string), .word .number]
    program.typeOf? ⟨0⟩ 6 = some ⟨16⟩ ∧ program.types.HasTree ⟨16⟩ tree ∧
      program.typeText ⟨16⟩ = "() => string | number" ∧
      ¬(ofTexts []).ReadsAs "again.d.ts" (program.typeText ⟨16⟩) tree := by
  intro program tree
  obtain ⟨typeOf, shown⟩ : program.typeOf? ⟨0⟩ 6 = some ⟨16⟩ ∧
      program.typeText ⟨16⟩ = "() => string | number" := by
    decide +kernel
  have found : program.types.HasTree ⟨16⟩ tree := by
    obtain ⟨function, union⟩ :
        program.types.entries[15]? = some (.object none .empty [⟨[], ⟨2⟩, false⟩]) ∧
        program.types.entries[16]? = some (.union [⟨15⟩, ⟨3⟩]) := by
      decide +kernel
    have sound : program.Sound := (ofTexts_compiled _).1.sound
    clear_value program
    exact .union union (.cons (.function function .nil (.word (sound.founded.words .string)))
      (.cons (.word (sound.founded.words .number)) .nil))
  have longer : (ofTexts []).ReadsAs "again.d.ts" "() => string | number"
      (.function [] false (.union [.word .string, .word .number])) := by
    let other := ofTexts [("other.d.ts", "let b: () => string | number;")]
    obtain ⟨shown, union, function⟩ : other.typeText ⟨16⟩ = "() => string | number" ∧
        other.types.entries[15]? = some (.union [⟨2⟩, ⟨3⟩]) ∧
        other.types.entries[16]? = some (.object none .empty [⟨[], ⟨15⟩, false⟩]) := by
      decide +kernel
    have sound : other.Sound := (ofTexts_compiled _).1.sound
    clear_value other
    have found := TypeTable.HasTree.function function .nil (.union union
      (.cons (.word (sound.founded.words .string))
        (.cons (.word (sound.founded.words .number)) .nil)))
    have normal : (TypeTree.function [] false (.union [.word .string, .word .number])).Throughout
        (TypeTree.Normal Alphabet.standard) := by
      simp [TypeTree.throughout_iff, TypeTree.children, TypeTree.Normal, TypeTree.isUnion]
    rw [← shown]
    refine (ofTexts_compiled []).1.sound.readsAs normal ?_ ?_
      (display_writes found (by decide) normal) _
    · simp [TypeTree.throughout_iff, TypeTree.children, TypeTree.isGrouped, TypeTree.isFunction]
    · exact Nat.le_trans (@TypeTree.node_nesting_lt _ 4 rfl) (by decide)
  refine ⟨typeOf, found, shown, fun reads => ?_⟩
  rw [shown] at reads
  cases (longer.unique reads : TypeTree.function _ _ _ = .union _)

end Program

end ExpressionTyping
