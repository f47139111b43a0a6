import ExpressionTyping.Proofs.Program.Isolation
import ExpressionTyping.Proofs.Program.Ledger
import ExpressionTyping.Proofs.Session.Requests

/-!
# Built-in types under their kinds

The kind of a built-in type is read off the text of one annotation, but the type is that of the
symbol which the annotated variable was bound to. The two agree where the first declaration of the
symbol is annotated with the same keyword: an annotation that is written as the keyword of a word is
that word, and a resolved symbol has the type of the word that its first declaration is annotated
with. A variable shares its symbol only with `var` variables of its name, so this may go wrong only
where a `var` variable is declared again under the keyword of another kind, and there it does
(`Session.typeOf_redeclared`). Everywhere else a session answers with a type of the kind, or with
none (`Session.typeOf_kind`).
-/

set_option autoImplicit false

namespace ExpressionTyping

/-! ## Annotated variables of a parsed file -/

mutual

/-- The variables that are met in a statement of a parsed file lie in its text. -/
theorem Statement.Placed.variable {text : List Char} {statement : Statement}
    (h : statement.Placed text) {list : VariableStatement} {declaration : VariableDeclaration}
    (hmem : .variableDecl list declaration ∈ statement.visits) : declaration.Placed text := by
  cases statement with
  | variableList other =>
    cases h with
    | variableList h =>
      obtain ⟨_, hdeclaration, heq⟩ := List.mem_map.mp hmem
      cases heq
      exact h _ hdeclaration
  | block node body =>
    cases h with
    | block _ h => exact Statement.placed_variable h hmem
  | function | interface | typeAlias | expression => cases List.mem_singleton.mp hmem
  | empty => cases hmem

/-- A variable that is met in placed statements is placed. -/
theorem Statement.placed_variable {text : List Char} {list : List Statement}
    (h : ∀ statement ∈ list, statement.Placed text) {statement : VariableStatement}
    {declaration : VariableDeclaration}
    (hmem : .variableDecl statement declaration ∈ visitAll list) :
    declaration.Placed text := by
  cases list with
  | nil => cases hmem
  | cons first rest =>
    obtain ⟨hfirst, hrest⟩ := List.forall_mem_cons.mp h
    rcases List.mem_append.mp hmem with hmem | hmem
    · exact hfirst.variable hmem
    · exact Statement.placed_variable hrest hmem

end

/-- The blocks and names of a file lie in its text, and its declarations have numbers that rise. -/
structure SourceFile.Placed (file : SourceFile) : Prop where
  statements : ∀ statement ∈ file.statements, statement.Placed file.text
  numbers : (file.visits.filterMap Visit.number?).Pairwise (· < ·)

/-- What is parsed is placed in its own text. -/
theorem SourceFile.placed_of_parse (name text : String) :
    (SourceFile.parse name text).tree.Placed := by
  obtain ⟨hplaced, hnumbers, htext, -⟩ := SourceFile.parse_placed name text
  exact ⟨htext ▸ hplaced, hnumbers⟩

/-- The name of a `var` variable. -/
def Visit.hoistedName? : Visit → Option String
  | .variableDecl statement declaration =>
    if statement.form = .hoisted then some declaration.name.text else none
  | _ => none

namespace Session

/-- The scalar kind whose keyword is the type that a visited variable is annotated with. -/
def kindOf? (file : SourceFile) (visit : Visit) : Option TypeKind :=
  (builtInOf? file visit).map Prod.fst

/-- A `var` variable that is declared again under the keyword of a kind was declared under that
keyword before. -/
def KeepsKind (file : SourceFile) (kind : TypeKind) : Prop :=
  file.visits.Pairwise fun earlier later =>
    earlier.hoistedName?.isSome = true → earlier.hoistedName? = later.hoistedName? →
      kindOf? file later = some kind → kindOf? file earlier = some kind

instance (file : SourceFile) (kind : TypeKind) : Decidable (KeepsKind file kind) :=
  inferInstanceAs (Decidable (file.visits.Pairwise _))

/-- A text that names a scalar kind is the keyword of that kind. -/
theorem scalarOf?_spec {text : String} {kind : TypeKind} (h : scalarOf? text = some kind) :
    kind.isScalar = true ∧ text.toList = (wordOf kind).keyword.spelling := by
  unfold scalarOf? at h
  split at h <;> cases h <;> exact ⟨rfl, by decide⟩

/-- A variable whose type is written as the keyword of a kind is annotated with the word of that
kind. -/
theorem annotated_word {file : SourceFile} {statement : VariableStatement}
    {declaration : VariableDeclaration} {kind : TypeKind}
    (h : kindOf? file (.variableDecl statement declaration) = some kind)
    (hplaced : declaration.Placed file.text) :
    kind.isScalar = true ∧ ∃ node, declaration.type? = some (.word node (wordOf kind)) := by
  obtain ⟨entry, hentry, rfl⟩ := Option.map_eq_some_iff.mp h
  obtain ⟨type, htype, hsome⟩ := Option.bind_eq_some_iff.mp hentry
  obtain ⟨kind, hkind, heq⟩ := Option.bind_eq_some_iff.mp hsome
  cases heq
  obtain ⟨hscalar, htext⟩ := scalarOf?_spec hkind
  rw [SourceFile.textOf, String.toList_ofList] at htext
  obtain ⟨node, rfl⟩ := (hplaced.type type htype).2 _ htext
  exact ⟨hscalar, node, htype⟩

end Session

/-- A variable that is annotated with the keyword of a kind has the type of that word, if a `var`
variable keeps the kind under which it was declared first. -/
theorem Program.WellFormed.typeOf?_annotated {program : Program} (h : program.WellFormed)
    {file : SourceFile} (hfile : file.Placed) {statement : VariableStatement}
    {declaration : VariableDeclaration} (hvisit : .variableDecl statement declaration ∈ file.visits)
    {kind : TypeKind}
    (hkind : Session.kindOf? file (.variableDecl statement declaration) = some kind)
    (hkeeps : Session.KeepsKind file kind) {type : TypeId}
    (htype : (program.add file).2.typeOf? (program.add file).1 declaration.node.id = some type) :
    kind.isScalar = true ∧ type = .ofWord (Session.wordOf kind) := by
  obtain ⟨-, hend, -, hfiles, hresolved⟩ := h.resolvedIn hfile.statements
  obtain ⟨before, log, hnone, hlog⟩ := h.boundIn_logs hfile.statements
  -- the symbol of the variable, and the first declaration of that symbol
  rw [add_eq] at htype
  obtain ⟨id, hid, rfl⟩ := Option.map_eq_some_iff.mp htype
  rw [symbolOf?_eq, records, file?, hfiles] at hid
  obtain ⟨first, made, rest, hdeclarations, hmakes, hshares⟩ :=
    hlog.first hnone hfile.numbers hvisit rfl hid
  have hfirst : ∃ list declared, first = .variableDecl list declared ∧
      .variableDecl list declared ∈ file.visits ∧
      Session.kindOf? file (.variableDecl list declared) = some kind := by
    rcases hshares with rfl | ⟨hmerges, hsublist⟩
    · exact ⟨_, _, rfl, hvisit, hkind⟩
    · obtain ⟨hform, list, declared, rfl, hform', hname⟩ := hmerges.hoisted
      refine ⟨_, _, rfl, hsublist.subset List.mem_cons_self, ?_⟩
      have hpair := (List.pairwise_cons.mp (List.Pairwise.sublist hsublist hkeeps)).1 _
        List.mem_cons_self
      apply hpair
      · simp [Visit.hoistedName?, hform']
      · simp [Visit.hoistedName?, hform, hform', hname]
      · exact hkind
  obtain ⟨list, declared, rfl, hmem, hkind'⟩ := hfirst
  obtain ⟨scope, constant, rfl⟩ := hmakes _ _ rfl
  obtain ⟨hscalar, node, hannotation⟩ :=
    Session.annotated_word hkind' (Statement.placed_variable hfile.statements hmem)
  have hmember := hresolved id ⟨_, Pending.mem_of_declarationsOf hdeclarations⟩
  refine ⟨hscalar, hend.words id hmember _ ?_⟩
  rw [Pending.wordOf?, hdeclarations, hannotation]
  rfl

namespace Session

/-! ## What a session answers -/

/-- The types that a file brings for a kind into a sound program have nothing to them but the
keyword of the kind. -/
theorem broughtBy_isBlank {program : Program} (hsound : program.Sound) {file : SourceFile}
    (hfile : file.Placed) {kind : TypeKind} (hkeeps : KeepsKind file kind) {type : SessionType}
    (hmem : (kind, type) ∈ broughtBy file program) : IsBlank kind type := by
  obtain ⟨⟨kind, node⟩, hscalar, hsome⟩ := List.mem_filterMap.mp hmem
  obtain ⟨id, hid, heq⟩ := Option.map_eq_some_iff.mp hsome
  cases heq
  obtain ⟨visit, hvisit, hbuiltIn⟩ := List.mem_filterMap.mp hscalar
  have hkind : kindOf? file visit = some kind := by
    rw [kindOf?, hbuiltIn]
    rfl
  cases visit with
  | function | interface | typeAlias | expression => cases hbuiltIn
  | variableDecl statement declaration =>
    have hnode : declaration.node = node := by
      obtain ⟨_, -, hsome⟩ := Option.bind_eq_some_iff.mp hbuiltIn
      obtain ⟨_, -, heq⟩ := Option.bind_eq_some_iff.mp hsome
      cases heq
      rfl
    subst hnode
    -- compiled alone the file gives the variable a word, which is its own copy
    obtain ⟨links, hembeds⟩ := hsound.add_embeds file
    rw [Program.add_filePlace] at hid
    obtain ⟨symbol, hsymbol, -⟩ := Option.map_eq_some_iff.mp hid
    rw [hembeds.symbolOf?] at hsymbol
    obtain ⟨own, hown, -⟩ := Option.map_eq_some_iff.mp hsymbol
    have halone : (Program.empty.add file).2.typeOf? (Program.empty.add file).1
        declaration.node.id = some ((Program.empty.add file).2.symbol own).type := by
      rw [Program.typeOf?, hown]
      rfl
    obtain ⟨hscalarKind, hword⟩ :=
      Program.empty_wellFormed.typeOf?_annotated hfile hvisit hkind hkeeps halone
    rw [hword] at halone
    cases hid.symm.trans (hembeds.typeOf?_word halone)
    exact isBlank_word (hsound.add file) _ hscalarKind

/-- A type that is found under a kind is listed under it. -/
theorem mem_of_find? {types : List (TypeKind × SessionType)} {kind : TypeKind} {type : SessionType}
    (h : BuiltInCache.find? types kind = some type) : (kind, type) ∈ types := by
  obtain ⟨_, _, hsplit, -⟩ := List.lookup_eq_some_iff.mp h
  rw [← List.mem_reverse, hsplit]
  exact List.mem_append_cons_self

/-- Asked for the first canonical type, of a scalar kind, a session on any program and with any
text of built-in declarations answers with a type of that kind and with its keyword as its name, or
reports that it has none; unless the text declares a `var` variable again under the keyword of that
kind after it was declared otherwise. -/
theorem typeOf_kind (source : String) (files : List SourceFile) {kind : TypeKind}
    (hkind : kind.isScalar = true) (hkeeps : KeepsKind (builtInsFile source) kind) :
    ((typeOf source kind).runFrom ⟨.empty, Program.ofFiles files⟩).1 =
        .error (.missingBuiltIn kind) ∨
      ∃ type, ((typeOf source kind).runFrom ⟨.empty, Program.ofFiles files⟩).1 = .ok type ∧
        type.kind = kind ∧ type.name = kind.keyword := by
  have htypes : SessionState.types (loadBuiltIns source) ⟨.empty, Program.ofFiles files⟩ =
      broughtBy (builtInsFile source) (Program.ofFiles files) := by
    show ((loadBuiltIns source).run (Program.ofFiles files)).1 = _
    rw [loadBuiltIns_run]
  rw [typeOf_runFrom_scalar source _ hkind, htypes]
  cases hfound : BuiltInCache.find? (broughtBy (builtInsFile source) (Program.ofFiles files))
      kind with
  | none => exact .inl rfl
  | some type =>
    have hblank := broughtBy_isBlank (Program.ofFiles_sound files)
      (SourceFile.placed_of_parse builtInsName source) hkeeps (mem_of_find? hfound)
    exact .inr ⟨type, rfl, hblank.kind, hblank.name⟩

/-- A variable declared twice under one keyword, next to a block that declares it otherwise. -/
theorem typeOf_kind_repeated :
    let source := "var a: number; \x7b let a: string; \x7d var a: number;"
    KeepsKind (builtInsFile source) .number ∧
      (((typeOf source .number).runFrom ⟨.empty, Program.ofFiles []⟩).1 =
          .error (.missingBuiltIn .number) ∨
        ∃ type, ((typeOf source .number).runFrom ⟨.empty, Program.ofFiles []⟩).1 = .ok type ∧
          type.kind = .number ∧ type.name = TypeKind.number.keyword) := by
  intro source
  have hkeeps : KeepsKind (builtInsFile source) .number := by decide +kernel
  exact ⟨hkeeps, typeOf_kind source [] rfl hkeeps⟩

/-- A variable declared again under another keyword is found under the kind of that keyword, with
the type it was declared with first. -/
theorem typeOf_redeclared :
    ((typeOf "var a: string; var a: number;" .number).runFrom .start).1.toOption.map
        (fun type => (type.kind, type.name)) = some (.string, "string") := by
  decide +kernel

end Session

end ExpressionTyping
