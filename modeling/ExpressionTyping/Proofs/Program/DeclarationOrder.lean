import ExpressionTyping.Grammar.Basic
import ExpressionTyping.Proofs.Program.BindingOnce
import ExpressionTyping.Proofs.Program.Isolation

/-!
# Declarations may stand in any order

When every name of a file is declared once in each of its meanings, and no alias and no variable
without an annotation refers to itself in a circle, the order of the declarations makes no
difference: every declared name has the same type at the end of the file, as its text and as far as
it is followed, and the same problems are reported (`Program.add_reordered`).

Resolving starts at different symbols in different orders and is interrupted at different points, so
the tables of the two programs differ. But both programs are described by the same shapes and
accounts (`Solves.perm`), and types with one shape look the same (`Layout.Agrees.mirrors`).
-/

set_option autoImplicit false

namespace ExpressionTyping

open Relation (TransGen)

/-! ## Programs that are described alike -/

/-- Two lists that are each paired with a third are paired through it. -/
theorem Forall₂.join {α β γ : Type} {R : α → γ → Prop} {S : β → γ → Prop} {as : List α}
    {bs : List β} {cs : List γ} (h : List.Forall₂ R as cs) (h' : List.Forall₂ S bs cs) :
    List.Forall₂ (fun a b => ∃ c, R a c ∧ S b c) as bs := by
  induction h generalizing bs with
  | nil =>
    cases h'
    exact .nil
  | cons hfirst _ ih =>
    obtain _ | ⟨hfirst', hrest'⟩ := h'
    exact .cons ⟨_, hfirst, hfirst'⟩ (ih hrest')

/-- Types of two programs that have one shape. -/
def Naming.SameShape (naming naming' : Naming) (a b : TypeId) : Prop :=
  ∃ shape, naming.Types a shape ∧ naming'.Types b shape

/-- Symbols of two programs that are the same member. -/
def Naming.SameMember (naming naming' : Naming) (id id' : SymbolId) : Prop :=
  ∃ member, naming.Symbols id member ∧ naming'.Symbols id' member

section Mirrors

variable {naming naming' : Naming}

/-- The types that every program starts with look the same in all of them. -/
theorem TypeTable.initial_get_mirrors (types : TypeId → TypeId → Prop)
    (symbols : SymbolId → SymbolId → Prop) (id : TypeId) :
    (TypeTable.initial.get id).Mirrors types symbols (TypeTable.initial.get id) := by
  cases hdata : TypeTable.initial.entries[id.index]? with
  | none =>
    rw [TypeTable.get_of_entries_none hdata]
    exact .intrinsic .any
  | some data =>
    rw [TypeTable.get_of_entries hdata]
    exact TypeTable.initial_mirrors types symbols data (Array.mem_of_getElem? hdata)

/-- Signatures of one shape look the same. -/
theorem Naming.Signs.mirrors {signature signature' : Signature} {shape : SignatureShape}
    (h : naming.Signs signature shape) (h' : naming'.Signs signature' shape) :
    signature.Mirrors (naming.SameShape naming') signature' where
  parameters := (Forall₂.join h.parameters h'.parameters).imp fun _ _ ⟨_, hp, hp'⟩ =>
    ⟨hp'.1.symm.trans hp.1, _, hp.2, hp'.2⟩
  result := ⟨_, h.result, h'.result⟩
  hasRest := h'.hasRest.symm.trans h.hasRest

/-- Members of the same shapes look the same. -/
theorem Naming.members_mirrors {members members' : SymbolTable SymbolId}
    {shapes : SymbolTable MemberShape} (h : members.Pairs naming.Symbols shapes)
    (h' : members'.Pairs naming'.Symbols shapes) :
    members.Pairs (naming.SameMember naming') members' :=
  (Forall₂.join h h').imp fun _ _ ⟨_, hp, hp'⟩ => ⟨hp'.1.symm.trans hp.1, _, hp.2, hp'.2⟩

/-- What one shape stands for looks the same. -/
theorem Naming.Describes.mirrors {accounts : Key → Account} {data data' : TypeData}
    {shape : Shape} (h : naming.Describes accounts data shape)
    (h' : naming'.Describes accounts data' shape) :
    data.Mirrors (naming.SameShape naming') (naming.SameMember naming') data' := by
  cases h with
  | initial hid =>
    cases h' with
    | initial hid' =>
      rw [← hid, ← hid']
      exact TypeTable.initial_get_mirrors _ _ _
  | stringLiteral value =>
    cases h'
    exact .stringLiteral value
  | numberLiteral text =>
    cases h'
    exact .numberLiteral text
  | interface hmembers =>
    obtain _ | _ | _ | hmembers' := h'
    exact .object _ (Naming.members_mirrors hmembers hmembers') .nil
  | object hcontent hmembers hsignatures =>
    obtain _ | _ | _ | _ | ⟨hcontent', hmembers', hsignatures'⟩ := h'
    cases hcontent.symm.trans hcontent'
    refine .object none (Naming.members_mirrors hmembers hmembers') ?_
    exact (Forall₂.join hsignatures hsignatures').imp fun _ _ ⟨_, hs, hs'⟩ => hs.mirrors hs'
  | array helement =>
    obtain _ | _ | _ | _ | _ | helement' := h'
    exact .array ⟨_, helement, helement'⟩
  | union hmembers =>
    obtain _ | _ | _ | _ | _ | _ | hmembers' := h'
    exact .union (Forall₂.join hmembers hmembers')

/-- Two programs that the same accounts describe look alike. -/
theorem Layout.Agrees.mirrors {layout layout' : Layout} {accounts : Key → Account}
    {program program' : Program} (h : layout.Agrees accounts naming program)
    (h' : layout'.Agrees accounts naming' program') (location location' : Location) :
    Mirrors (naming.SameShape naming') (naming.SameMember naming') program location program'
      location' := by
  have hmember {id id' : SymbolId} (hid : naming.SameMember naming' id id') :
      (program'.symbol id').name = (program.symbol id).name ∧
        (program'.symbol id').sort = (program.symbol id).sort ∧
          naming.SameShape naming' (program.symbol id).type (program'.symbol id').type := by
    obtain ⟨member, hid, hid'⟩ := hid
    obtain ⟨symbol, hsymbol, hname, hsort, htype⟩ := h.symbols hid
    obtain ⟨symbol', hsymbol', hname', hsort', htype'⟩ := h'.symbols hid'
    rw [Program.symbol_of_symbols hsymbol, Program.symbol_of_symbols hsymbol']
    exact ⟨hname'.trans hname.symm, hsort'.trans hsort.symm, _, htype, htype'⟩
  constructor
  case get =>
    rintro a b ⟨shape, ha, hb⟩
    exact (h.get ha).mirrors (h'.get hb)
  case name => exact fun hid => (hmember hid).1
  case sort => exact fun hid => (hmember hid).2.1
  case type => exact fun hid => (hmember hid).2.2
  case typeAt =>
    intro id id' hid
    rw [h.typeAt, h'.typeAt]
    exact (hmember hid).2.2
  case length => exact ⟨_, naming.length, naming'.length⟩

end Mirrors

/-! ## A file of declarations -/

/-- Forgetting places keeps whether a declaration takes its type from elsewhere. -/
theorem Declaration.isDerived_bare (declaration : Declaration) :
    declaration.bare.isDerived = declaration.isDerived := by
  cases declaration with
  | variableDecl scope constant type? initializer => cases type? <;> rfl
  | _ => rfl

/-- Forgetting places keeps whether a statement is a declaration. -/
theorem Statement.isDeclaration_bare (statement : Statement) :
    statement.bare.isDeclaration = statement.isDeclaration := by
  cases statement <;> rfl

/-- What a file declares at its top. -/
def SourceFile.declared (file : SourceFile) : List (Key × Declaration) :=
  file.statements.flatMap (Statement.declared ⟨0⟩)

/-- A file of declarations that declares every name once in each of its meanings, and in which no
alias and no variable without an annotation refers to itself in a circle. -/
structure SourceFile.Orderly (file : SourceFile) : Prop where
  declarations : ∀ statement ∈ file.statements, statement.isDeclaration = true
  once : (file.declared.map Prod.fst).Nodup
  acyclic : ∀ key, ¬ TransGen (Refers file.declared) key key

/-- Declarations that can be ranked such that aliases and variables without annotations refer to
lower ranks only do not refer to themselves in circles. -/
theorem acyclic_of_rank {declared : List (Key × Declaration)} (rank : Key → Nat)
    (h : ∀ entry ∈ declared, entry.2.isDerived = true →
      ∀ other ∈ entry.2.references, rank other < rank entry.1) (key : Key) :
    ¬ TransGen (Refers declared) key key := by
  have hlower {first last : Key} (hpath : TransGen (Refers declared) first last) :
      rank last < rank first := by
    induction hpath with
    | single hstep =>
      obtain ⟨declaration, hmem, hderived, hother⟩ := hstep
      exact h _ hmem hderived _ hother
    | tail _ hstep ih =>
      obtain ⟨declaration, hmem, hderived, hother⟩ := hstep
      exact Nat.lt_trans (h _ hmem hderived _ hother) ih
  exact fun hcircle => Nat.lt_irrefl _ (hlower hcircle)

/-- Two files have the same statements in some order, up to the places where they stand. -/
def SourceFile.Reorders (file file' : SourceFile) : Prop :=
  (file.statements.map Statement.bare).Perm (file'.statements.map Statement.bare)

/-- What a statement declares is declared in the meaning of its name. -/
theorem Statement.keysFit_declared (scope : ScopeId) (statement : Statement) :
    KeysFit (statement.declared scope) := by
  cases statement with
  | variableList list =>
    intro entry hentry
    obtain ⟨declaration, -, rfl⟩ := List.mem_map.mp hentry
    rfl
  | function declaration =>
    intro entry hentry
    simp only [declared] at hentry
    split at hentry
    · cases hentry
    · cases List.mem_singleton.mp hentry
      rfl
  | interface | typeAlias =>
    intro entry hentry
    cases List.mem_singleton.mp hentry
    rfl
  | block | expression | empty => exact List.forall_mem_nil _

namespace SourceFile

variable {file file' : SourceFile}

/-- What a file declares at its top is declared in the meaning of its name. -/
theorem keysFit_declared (file : SourceFile) : KeysFit file.declared := by
  intro entry hentry
  obtain ⟨statement, -, hmem⟩ := List.mem_flatMap.mp hentry
  exact statement.keysFit_declared ⟨0⟩ entry hmem

/-- Files with the same statements declare the same things, in some order and up to places. -/
theorem Reorders.declared (h : file.Reorders file') :
    (file.declared.map fun entry => (entry.1, entry.2.bare)).Perm
      (file'.declared.map fun entry => (entry.1, entry.2.bare)) := by
  have hbare (file : SourceFile) : (file.declared.map fun entry => (entry.1, entry.2.bare)) =
      (file.statements.map Statement.bare).flatMap (Statement.declared ⟨0⟩) := by
    unfold SourceFile.declared
    rw [List.map_flatMap, List.flatMap_map]
    exact List.flatMap_congr fun statement _ => (statement.declared_bare ⟨0⟩).symm
  rw [hbare, hbare]
  exact h.flatMap_right _

/-- Files with the same statements declare the same names, in some order. -/
theorem Reorders.keys (h : file.Reorders file') :
    (file.declared.map Prod.fst).Perm (file'.declared.map Prod.fst) := by
  have hkeys := h.declared.map Prod.fst
  rwa [List.map_map, List.map_map] at hkeys

/-- A name refers to the same others in a file and in one with the same statements. -/
theorem Reorders.refers (h : file.Reorders file') {key other : Key}
    (hrefers : Refers file'.declared key other) : Refers file.declared key other := by
  obtain ⟨declaration, hmem, hderived, hother⟩ := hrefers
  have hbare := h.declared.mem_iff.mpr (List.mem_map_of_mem hmem)
  obtain ⟨⟨key', declaration'⟩, hmem', heq⟩ := List.mem_map.mp hbare
  obtain ⟨rfl, hdeclaration⟩ := Prod.mk.inj heq
  refine ⟨declaration', hmem', ?_, ?_⟩
  · rw [← declaration'.isDerived_bare, hdeclaration, declaration.isDerived_bare]
    exact hderived
  · rw [← declaration'.references_bare, hdeclaration, declaration.references_bare]
    exact hother

/-- A file with the statements of an orderly one is orderly. -/
theorem Orderly.reorders (h : file.Orderly) (hreorders : file.Reorders file') : file'.Orderly where
  declarations statement hmem := by
    have hbare := hreorders.mem_iff.mpr (List.mem_map_of_mem hmem)
    obtain ⟨statement', hmem', heq⟩ := List.mem_map.mp hbare
    rw [← statement.isDeclaration_bare, ← heq, statement'.isDeclaration_bare]
    exact h.declarations statement' hmem'
  once := hreorders.keys.nodup_iff.mp h.once
  acyclic key hcircle := h.acyclic key (hcircle.lift id fun _ _ => hreorders.refers)

/-- Declarations of an orderly file do not wait in circles. -/
theorem Orderly.depends_acyclic (h : file.Orderly) (key : Key) :
    ¬ TransGen (Depends file.declared) key key :=
  fun hcircle => h.acyclic key (refers_of_depends_circle file.keysFit_declared hcircle)

/-- What an orderly file declares has a solution: shapes for its types and types for its names. -/
theorem Orderly.exists_solves (h : file.Orderly) :
    ∃ shapes accounts, Solves file.declared shapes accounts := by
  refine ExpressionTyping.exists_solves h.once ?_
  refine wellFounded_of_acyclic (file.declared.map Prod.fst) ?_ h.depends_acyclic
  rintro key other ⟨declaration, hmem, -⟩
  exact List.mem_map_of_mem hmem

/-- What a file adds to the empty program is what binding its statements hands on, resolved. -/
theorem empty_add (file : SourceFile) :
    let bound := (Bind.statements (Bind.topOf ⟨0⟩) file.statements).run
      (Program.opened file.name file.node.span.stop)
    Program.empty.add file =
      (⟨0⟩, ((Resolve.everything ⟨0⟩ bound.1).run ⟨bound.2, []⟩).2.program) :=
  rfl

/-- Alone in a program, an orderly file leaves what shapes and accounts that fit it describe. -/
theorem Orderly.described (h : file.Orderly) {shapes : Key → Option Shape}
    {accounts : Key → Account} (hsolves : Solves file.declared shapes accounts) :
    ∃ (layout : Layout) (naming : Naming), layout.declared = file.declared ∧
      layout.shapes = shapes ∧ (∀ entry ∈ layout.entries, entry.id ∈ naming.resolved) ∧
        layout.Agrees accounts naming (Program.empty.add file).2 := by
  have hadmits : (Layout.start ⟨0, file.node.span.stop⟩ shapes).Admits file.declared := by
    constructor
    case once => exact h.once
    case interface =>
      intro key declaration hmem hinterface
      show shapes key = _
      rw [hsolves.shape hmem, Describe.declaration_interface hinterface]
  obtain ⟨layout, added, hshapes, hentries, hdeclared, hbound, naming, hagrees, hresolved, -⟩ :=
    Bind.statements_laysOut ⟨0⟩ h.declarations _ _
      (Layout.start_lays file.name file.node.span.stop shapes) hadmits
  have hadded : layout.entries = added := hentries
  have hsame : layout.declared = file.declared := by
    unfold Layout.declared
    rw [hadded]
    exact hdeclared
  let outlook : Outlook := ⟨layout, accounts, by rw [hsame, hshapes]; exact hsolves⟩
  have hacyclic : ∀ key, ¬ TransGen (Depends outlook.declared) key key := by
    show ∀ key, ¬ TransGen (Depends layout.declared) key key
    rw [hsame]
    exact h.depends_acyclic
  have hstart : outlook.Holds (Resolve.heldBy outlook []) naming
      ⟨((Bind.statements (Bind.topOf ⟨0⟩) file.statements).run
        (Program.opened file.name file.node.span.stop)).2, []⟩ := by
    refine ⟨?_, hresolved.symm⟩
    rw [hresolved, funext Resolve.accountsAt_heldBy_nil]
    exact hagrees
  obtain ⟨naming', hall, hend⟩ := Resolve.everything_settled ⟨0⟩ hacyclic hstart
  refine ⟨layout, naming', hsame, hshapes, hall, ?_⟩
  rw [empty_add, hbound, ← hadded]
  exact hend

end SourceFile

/-! ## What is seen of a declared name -/

namespace Program

/-- The symbol that a name declared at the top of a file has. -/
def topSymbol? (program : Program) (file : FileId) (key : Key) : Option SymbolId := do
  let info ← program.files[file.index]?
  let scope ← info.scopes.head?
  program.find? scope key

/-- The type of a symbol at a location: its text, and what it looks like to a depth. -/
def shownType (program : Program) (location : Location) (depth : Nat) (id : SymbolId) :
    String × TypeSketch :=
  (program.typeText (program.typeAt id location),
    program.sketch location depth (program.typeAt id location))

/-- The type of a name declared at the top of a file, seen from the end of the file. -/
def shownAtEnd? (program : Program) (file : FileId) (depth : Nat) (key : Key) :
    Option (String × TypeSketch) :=
  (program.endOfFile? file).bind fun location =>
    (program.topSymbol? file key).map (program.shownType location depth)

/-- The messages of the problems found. -/
def messages (program : Program) : List String :=
  program.issues.map fun report => report.diagnostic.message

end Program

/-- A declared name is found and its type is shown. -/
theorem Layout.Agrees.shownAtEnd?_eq {layout : Layout} {accounts : Key → Account}
    {naming : Naming} {program : Program} (h : layout.Agrees accounts naming program)
    {entry : Entry} (hentry : entry ∈ layout.entries) :
    ∃ location, ∀ depth, program.shownAtEnd? ⟨0⟩ depth entry.key =
      some (program.typeText (program.symbol entry.id).type,
        program.sketch location depth (program.symbol entry.id).type) := by
  obtain ⟨info, hinfo, hscopes⟩ := h.filed
  refine ⟨⟨⟨0⟩, info.length⟩, fun depth => ?_⟩
  have hend : program.endOfFile? ⟨0⟩ = some ⟨⟨0⟩, info.length⟩ := by
    unfold Program.endOfFile?
    rw [hinfo]
    rfl
  have hid : program.topSymbol? ⟨0⟩ entry.key = some entry.id := by
    unfold Program.topSymbol?
    simp only [hinfo, hscopes, Option.bind_eq_bind, Option.bind_some, List.head?_cons]
    rw [h.find?]
    exact layout.found entry hentry
  unfold Program.shownAtEnd?
  rw [hend, hid, Option.bind_some, Option.map_some, Program.shownType, h.typeAt]

namespace Embeds

variable {base own all : Program} {links : Links} (h : Embeds base links own all)
include h

/-- A name declared in a scope of a file leads to the copy of its symbol where the file is
embedded. -/
theorem find? (scope : ScopeId) (key : Key) :
    all.find? (base.scopePlace scope) key = (own.find? scope key).map base.symbolPlace := by
  cases key with
  | value name => exact h.resolveValue? scope name
  | type name => exact h.resolveType? scope name

variable {file : FileId} (hfile : file.index < own.files.size)
include hfile

/-- A name declared at the top of a file leads to the copy of its symbol where the file is
embedded. -/
theorem topSymbol? (key : Key) :
    all.topSymbol? (base.filePlace file) key = (own.topSymbol? file key).map base.symbolPlace := by
  have hinfo := Array.getElem?_eq_getElem hfile
  obtain ⟨info, hinfo', hmatches⟩ := h.files.new _ _ hinfo
  have hcopy : all.files[(base.filePlace file).index]? = some info := hinfo'
  unfold Program.topSymbol?
  rw [hinfo, hcopy]
  simp only [Option.bind_eq_bind, Option.bind_some, hmatches.scopes, List.head?_map]
  cases own.files[file.index].scopes.head? with
  | none => rfl
  | some scope => exact h.find? scope key

/-- The end of a file that is embedded is the copy of its end. -/
theorem endOfFile? :
    all.endOfFile? (base.filePlace file) = (own.endOfFile? file).map base.locationPlace := by
  have hinfo := Array.getElem?_eq_getElem hfile
  obtain ⟨info, hinfo', hmatches⟩ := h.files.new _ _ hinfo
  have hcopy : all.files[(base.filePlace file).index]? = some info := hinfo'
  unfold Program.endOfFile?
  rw [hinfo, hcopy, Option.map_some, Option.map_some, Option.map_some, hmatches.length]
  rfl

/-- A name declared in a file is shown alike in a program that holds other files. -/
theorem shownAtEnd? (depth : Nat) (key : Key) :
    all.shownAtEnd? (base.filePlace file) depth key = own.shownAtEnd? file depth key := by
  have hshown (location : Location) (id : SymbolId) :
      all.shownType (base.locationPlace location) depth (base.symbolPlace id) =
        own.shownType location depth id := by
    have hmirrors := h.mirrors location
    have htype := h.typeAt id location
    unfold Program.shownType
    rw [hmirrors.typeText_eq htype, hmirrors.sketch_eq depth htype]
  unfold Program.shownAtEnd?
  rw [h.endOfFile? hfile, h.topSymbol? hfile]
  cases own.endOfFile? file with
  | none => rw [Option.map_none, Option.bind_none, Option.bind_none]
  | some location =>
    rw [Option.map_some, Option.bind_some, Option.bind_some, Option.map_map]
    congr 1
    exact funext (hshown location)

end Embeds

/-! ## The order of declarations -/

/-- Alone in a program, the declarations of an orderly file bring the same in any order. -/
theorem SourceFile.Orderly.empty_add_reordered {file file' : SourceFile} (h : file.Orderly)
    (hreorders : file.Reorders file') :
    (∀ key ∈ file.declared.map Prod.fst, ∀ depth, ∃ shown,
      (Program.empty.add file).2.shownAtEnd? ⟨0⟩ depth key = some shown ∧
        (Program.empty.add file').2.shownAtEnd? ⟨0⟩ depth key = some shown) ∧
      (Program.empty.add file).2.messages.Perm (Program.empty.add file').2.messages := by
  obtain ⟨shapes, accounts, hsolves⟩ := h.exists_solves
  obtain ⟨layout, naming, hdeclared, rfl, hresolved, hagrees⟩ := h.described hsolves
  obtain ⟨layout', naming', hdeclared', hshapes, hresolved', hagrees'⟩ :=
    (h.reorders hreorders).described (hsolves.perm hreorders.declared)
  have hkeys : layout.keys = file.declared.map Prod.fst := by
    rw [← layout.map_fst_declared, hdeclared]
  have hkeys' : layout'.keys = file'.declared.map Prod.fst := by
    rw [← layout'.map_fst_declared, hdeclared']
  constructor
  · intro key hkey depth
    obtain ⟨entry, hentry, rfl⟩ := List.mem_map.mp (hkeys ▸ hkey : key ∈ layout.keys)
    have hmem' : entry.key ∈ layout'.keys := hkeys' ▸ hreorders.keys.mem_iff.mp hkey
    obtain ⟨entry', hentry', hkey'⟩ := List.mem_map.mp hmem'
    obtain ⟨location, hshown⟩ := hagrees.shownAtEnd?_eq hentry
    obtain ⟨location', hshown'⟩ := hagrees'.shownAtEnd?_eq hentry'
    have hshape : layout.shapes entry.key =
        some ((Describe.declaration layout.shapes entry.key entry.declaration).run .start).1 :=
      hsolves.shape (hdeclared ▸ List.mem_map_of_mem hentry)
    have htype := hagrees.symbol_type hentry (.inl (hresolved entry hentry)) hshape
    have htype' := hagrees'.symbol_type hentry' (.inl (hresolved' entry' hentry'))
      (by rw [hshapes, hkey', hshape])
    have hmirrors := hagrees.mirrors hagrees' location location'
    refine ⟨_, hshown depth, ?_⟩
    rw [← hkey', hshown' depth, hmirrors.typeText_eq ⟨_, htype, htype'⟩,
      hmirrors.sketch_eq depth ⟨_, htype, htype'⟩]
  · have hperm : (layout.keys.flatMap fun key => (accounts key).reports).Perm
        (layout'.keys.flatMap fun key => (accounts key).reports) := by
      rw [hkeys, hkeys']
      exact hreorders.keys.flatMap_right _
    have hproblems := (hagrees.issues.trans hperm).trans hagrees'.issues.symm
    have hmessages (program : Program) : program.messages =
        (program.issues.map fun report => report.issue.problem).map fun problem =>
          (Issue.diagnostic none ⟨default, problem⟩).message := by
      unfold Program.messages
      rw [List.map_map]
      rfl
    rw [hmessages, hmessages]
    exact hproblems.map _

/-- The order of the declarations of an orderly file makes no difference: whatever other files a
program holds, each declared name has a type at the end of the file, with the same text and looking
the same to any depth in every order, and the same problems are reported, as often. -/
theorem Program.add_reordered (others : List SourceFile) {file file' : SourceFile}
    (h : file.Orderly) (hreorders : file.Reorders file') :
    let host := ofFiles others
    let added := host.add file
    let added' := host.add file'
    (∀ key ∈ file.declared.map Prod.fst, ∀ depth, ∃ shown,
      added.2.shownAtEnd? added.1 depth key = some shown ∧
        added'.2.shownAtEnd? added'.1 depth key = some shown) ∧
      added.2.messages.Perm added'.2.messages := by
  intro host added added'
  obtain ⟨links, hembeds⟩ := (ofFiles_sound others).add_embeds file
  obtain ⟨links', hembeds'⟩ := (ofFiles_sound others).add_embeds file'
  obtain ⟨hshown, hmessages⟩ := h.empty_add_reordered hreorders
  constructor
  · intro key hkey depth
    obtain ⟨shown, hown, hown'⟩ := hshown key hkey depth
    refine ⟨shown, ?_, ?_⟩
    · rw [← hown]
      exact hembeds.shownAtEnd? (empty_add_file_lt file) depth key
    · rw [← hown']
      exact hembeds'.shownAtEnd? (empty_add_file_lt file') depth key
  · unfold messages at hmessages ⊢
    rw [hembeds.issues, hembeds'.issues, List.map_append, List.map_append]
    exact hmessages.append_left _

/-- A file with its statements from the last to the first. -/
def SourceFile.reversed (file : SourceFile) : SourceFile :=
  { file with statements := file.statements.reverse }

/-- A file has the same statements as the file with its statements from the last to the first. -/
theorem SourceFile.reorders_reversed (file : SourceFile) : file.Reorders file.reversed :=
  (List.reverse_perm file.statements).symm.map Statement.bare

/-- A file whose declarations refer to later ones. -/
def SourceFile.forwards : SourceFile :=
  (SourceFile.parse "test.d.ts"
    "let x = y; const y: L = 1; type L = I[]; interface I \x7b l: L; bad: Gone; \x7d").tree

/-- A file whose declarations refer to later ones shows the same type of a variable, and has the
same messages, when they stand in the opposite order. -/
theorem Program.add_reordered_reversed :
    (SourceFile.forwards.Orderly ∧ SourceFile.forwards.Reorders SourceFile.forwards.reversed ∧
      Key.value "x" ∈ SourceFile.forwards.declared.map Prod.fst) ∧
    (∀ depth, ∃ shown,
      ((ofFiles []).add SourceFile.forwards).2.shownAtEnd?
          ((ofFiles []).add SourceFile.forwards).1 depth (.value "x") = some shown ∧
        ((ofFiles []).add SourceFile.forwards.reversed).2.shownAtEnd?
          ((ofFiles []).add SourceFile.forwards.reversed).1 depth (.value "x") = some shown) ∧
    ((ofFiles []).add SourceFile.forwards).2.messages.Perm
      ((ofFiles []).add SourceFile.forwards.reversed).2.messages := by
  have horderly : SourceFile.forwards.Orderly := by
    constructor
    case declarations => decide +kernel
    case once => decide +kernel
    case acyclic =>
      -- only a variable and an alias refer to others, and those refer to nothing
      refine acyclic_of_rank (fun key => if key = .value "x" ∨ key = .type "L" then 1 else 0) ?_
      decide +kernel
  have hreorders := SourceFile.forwards.reorders_reversed
  have hkey : Key.value "x" ∈ SourceFile.forwards.declared.map Prod.fst := by decide +kernel
  obtain ⟨hshown, hmessages⟩ := Program.add_reordered [] horderly hreorders
  exact ⟨⟨horderly, hreorders, hkey⟩, hshown _ hkey, hmessages⟩

end ExpressionTyping
