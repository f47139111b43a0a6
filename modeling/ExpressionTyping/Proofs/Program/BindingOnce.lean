import ExpressionTyping.Proofs.Program.BindingRuns
import ExpressionTyping.Proofs.Program.Settled

/-!
# Binding names that are declared once

In a file of declarations in which no name is declared twice in one meaning, binding gives every
declaration a symbol of its own, in order, and reports nothing. What it leaves is the layout of the
file: the entries are the declarations with their symbols, and only interfaces have types so far
(`statements_lays`).
-/

set_option autoImplicit false

namespace ExpressionTyping

/-! ## Layouts that grow -/

/-- The scope with one more name. -/
def Scope.insert (scope : Scope) (key : Key) (id : SymbolId) : Scope :=
  match key with
  | .value name => { scope with values := scope.values.insert name id }
  | .type name => { scope with types := scope.types.insert name id }

/-- A name that is inserted leads to its symbol, and the others lead where they did. -/
theorem Scope.get?_insert (scope : Scope) (key other : Key) (id : SymbolId) :
    (scope.insert key id).get? other = if other = key then some id else scope.get? other := by
  cases key with
  | value name =>
    cases other with
    | value other =>
      show (scope.values.insert name id).get? other = _
      rw [SymbolTable.get?_insert]
      simp only [Key.value.injEq]
      rfl
    | type other => rfl
  | type name =>
    cases other with
    | value other => rfl
    | type other =>
      show (scope.types.insert name id).get? other = _
      rw [SymbolTable.get?_insert]
      simp only [Key.type.injEq]
      rfl

namespace Layout

/-- The layout of a file before anything is declared. -/
def start (span : Span) (shapes : Key → Option Shape) : Layout where
  entries := []
  scope := ⟨[], span, .empty, .empty, []⟩
  shapes := shapes
  keysOnce := List.nodup_nil
  idsOnce := List.nodup_nil
  inScope _ h := absurd h List.not_mem_nil
  found _ h := absurd h List.not_mem_nil
  only {key id} h := by cases key <;> cases h
  outermost := rfl
  unassigned := rfl

/-- The layout with one more declaration. -/
def add (layout : Layout) (entry : Entry) (hkey : entry.key ∉ layout.keys)
    (hid : entry.id ∉ layout.entries.map Entry.id) (hscope : entry.declaration.scope = ⟨0⟩) :
    Layout where
  entries := layout.entries ++ [entry]
  scope := layout.scope.insert entry.key entry.id
  shapes := layout.shapes
  keysOnce := by
    rw [List.map_append]
    refine List.nodup_append.mpr ⟨layout.keysOnce, List.nodup_singleton _, ?_⟩
    rintro a ha b hb rfl
    exact hkey (List.mem_singleton.mp hb ▸ ha)
  idsOnce := by
    rw [List.map_append]
    refine List.nodup_append.mpr ⟨layout.idsOnce, List.nodup_singleton _, ?_⟩
    rintro a ha b hb rfl
    exact hid (List.mem_singleton.mp hb ▸ ha)
  inScope other hother := by
    rcases List.mem_append.mp hother with hother | hother
    · exact layout.inScope other hother
    · cases List.mem_singleton.mp hother
      exact hscope
  found other hother := by
    rw [Scope.get?_insert]
    rcases List.mem_append.mp hother with hother | hother
    · have hne : other.key ≠ entry.key := fun heq => hkey (heq ▸ List.mem_map_of_mem hother)
      rw [if_neg hne]
      exact layout.found other hother
    · cases List.mem_singleton.mp hother
      exact if_pos rfl
  only {key id} h := by
    rw [Scope.get?_insert] at h
    split at h
    · rename_i heq
      cases h
      exact ⟨entry, List.mem_append_right _ (List.mem_singleton_self _), heq.symm, rfl⟩
    · obtain ⟨other, hother, heq⟩ := layout.only h
      exact ⟨other, List.mem_append_left _ hother, heq⟩
  outermost := by
    cases entry.key <;> exact layout.outermost
  unassigned := by
    cases entry.key <;> exact layout.unassigned

/-- A program holds what a layout says and nothing else: only interfaces have types, and no symbol is
resolved. -/
def Lays (layout : Layout) (program : Program) : Prop :=
  ∃ naming, layout.Agrees (fun _ => .start) naming program ∧ naming.resolved = [] ∧
    ∀ owner, .interface owner ∈ naming.shapes → owner ∈ layout.keys

variable {layout : Layout} {accounts : Key → Account} {naming : Naming} {program : Program}

/-- The symbols that a layout lists stand in a program that agrees with it. -/
theorem Agrees.id_lt (h : layout.Agrees accounts naming program) {entry : Entry}
    (hentry : entry ∈ layout.entries) : entry.id.index < program.symbols.size := by
  obtain ⟨-, symbol, hsymbol, -⟩ := h.declared entry hentry
  exact (Array.getElem?_eq_some_iff.mp hsymbol).1

/-- The next symbol of a program is none that an agreeing layout lists. -/
theorem Agrees.new_id (h : layout.Agrees accounts naming program) :
    (⟨program.symbols.size⟩ : SymbolId) ∉ layout.entries.map Entry.id := by
  intro hmem
  obtain ⟨entry, hentry, hid⟩ := List.mem_map.mp hmem
  have hlt := h.id_lt hentry
  rw [hid] at hlt
  exact Nat.lt_irrefl _ hlt

/-- A declaration gets a new symbol. -/
theorem Agrees.addEntry (h : layout.Agrees (fun _ => .start) naming program) {key : Key}
    (hkey : key ∉ layout.keys) {declaration : Declaration} (hscope : declaration.scope = ⟨0⟩)
    (symbol : Symbol) (hsort : symbol.sort = .interface ↔ declaration.isInterface = true)
    (hresolved : naming.resolved = [])
    (htype : declaration.isInterface = true →
      ∃ shape, layout.shapes key = some shape ∧ naming.Types symbol.type shape)
    {files : Array FileInfo} (hfiled : ∃ info, files[0]? = some info ∧ info.scopes = [⟨0⟩]) :
    let layout' := layout.add ⟨key, ⟨program.symbols.size⟩, declaration⟩ hkey h.new_id hscope
    layout'.Agrees (fun _ => .start) (naming.addSymbol none) { program with
      symbols := program.symbols.push symbol
      scopes := #[layout'.scope]
      files } := by
  intro layout'
  have hadded : layout.Agrees (fun _ => .start) (naming.addSymbol none)
      { program with symbols := program.symbols.push symbol } :=
    h.addSymbol none fun _ hmem => nomatch hmem
  refine { hadded with declared := ?_, scopes := rfl, filed := hfiled, issues := ?_ }
  · intro entry hentry
    rcases List.mem_append.mp hentry with hentry | hentry
    · exact hadded.declared entry hentry
    · cases List.mem_singleton.mp hentry
      refine ⟨?_, symbol, Array.getElem?_push_size, hsort, fun hdone => htype ?_⟩
      · show (naming.members ++ [none])[program.symbols.size]? = some none
        rw [← h.count]
        exact List.getElem?_concat_length
      · rcases hdone with hmem | hinterface
        · have hnil : _ ∈ naming.resolved := hmem
          rw [hresolved] at hnil
          cases hnil
        · exact hinterface
  · have hissues := h.issues
    have hempty (keys : List Key) : keys.flatMap (fun _ => Account.start.reports) = [] :=
      List.flatMap_eq_nil_iff.mpr fun _ _ => rfl
    rw [hempty] at hissues ⊢
    exact hissues

/-- The names of a file may still be declared: none is declared already or twice, and an interface
stands for itself. -/
structure Admits (layout : Layout) (declared : List (Key × Declaration)) : Prop where
  once : (layout.keys ++ declared.map Prod.fst).Nodup
  interface : ∀ {key declaration}, (key, declaration) ∈ declared → declaration.isInterface = true →
    layout.shapes key = some (.interface key)

/-- What may be declared with others may be declared without them. -/
theorem Admits.left {declared others : List (Key × Declaration)}
    (h : layout.Admits (declared ++ others)) : layout.Admits declared where
  once := by
    have honce := h.once
    rw [List.map_append, ← List.append_assoc] at honce
    exact (List.nodup_append.mp honce).1
  interface hmem := h.interface (List.mem_append_left _ hmem)

/-- A name that the file does not declare has no symbol in its scope. -/
theorem get?_eq_none {key : Key} (hkey : key ∉ layout.keys) : layout.scope.get? key = none := by
  rw [Option.eq_none_iff_forall_ne_some]
  intro id hid
  obtain ⟨entry, hentry, rfl, -⟩ := layout.only hid
  exact hkey (List.mem_map_of_mem hentry)

/-- A program that a layout describes has the scope of the layout and no other. -/
theorem Lays.scopes (h : layout.Lays program) : program.scopes = #[layout.scope] := by
  obtain ⟨naming, hagrees, -⟩ := h
  exact hagrees.scopes

/-- A program that a layout describes has one file, which has that scope. -/
theorem Lays.filed (h : layout.Lays program) :
    ∃ info, program.files[0]? = some info ∧ info.scopes = [⟨0⟩] := by
  obtain ⟨naming, hagrees, -⟩ := h
  exact hagrees.filed

/-- The layout and the program after one more declaration. -/
def Declares (layout : Layout) (program : Program) (key : Key) (declaration : Declaration)
    (program' : Program) : Prop :=
  ∃ layout' : Layout, layout'.shapes = layout.shapes ∧
    layout'.entries = layout.entries ++ [⟨key, ⟨program.symbols.size⟩, declaration⟩] ∧
    layout'.Lays program'

/-- A new declaration that is no interface. -/
theorem Lays.declares (h : layout.Lays program) {key : Key} (hkey : key ∉ layout.keys)
    {declaration : Declaration} (hscope : declaration.scope = ⟨0⟩)
    (hinterface : declaration.isInterface = false) {symbol : Symbol}
    (hsort : symbol.sort ≠ .interface) {files : Array FileInfo}
    (hfiled : ∃ info, files[0]? = some info ∧ info.scopes = [⟨0⟩]) :
    layout.Declares program key declaration { program with
      symbols := program.symbols.push symbol
      scopes := #[layout.scope.insert key ⟨program.symbols.size⟩]
      files } := by
  obtain ⟨naming, hagrees, hresolved, howners⟩ := h
  have hadded := hagrees.addEntry hkey hscope symbol
    (iff_of_false hsort (by rw [hinterface]; exact Bool.false_ne_true)) hresolved
    (fun htrue => nomatch hinterface.symm.trans htrue) hfiled
  refine ⟨layout.add _ hkey hagrees.new_id hscope, rfl, rfl, _, hadded, hresolved,
    fun owner howner => ?_⟩
  exact List.map_subset _ (List.subset_append_left _ _) (howners owner howner)

/-- A new interface. -/
theorem Lays.declares_interface (h : layout.Lays program) {key : Key} (hkey : key ∉ layout.keys)
    {declaration : Declaration} (hscope : declaration.scope = ⟨0⟩)
    (hinterface : declaration.isInterface = true)
    (hshape : layout.shapes key = some (.interface key)) {symbol : Symbol}
    (hsort : symbol.sort = .interface)
    (htype : symbol.type = (program.types.add (.named key.name)).1) {files : Array FileInfo}
    (hfiled : ∃ info, files[0]? = some info ∧ info.scopes = [⟨0⟩]) :
    layout.Declares program key declaration { program with
      types := (program.types.add (.named key.name)).2
      symbols := program.symbols.push symbol
      scopes := #[layout.scope.insert key ⟨program.symbols.size⟩]
      files } := by
  obtain ⟨naming, hagrees, hresolved, howners⟩ := h
  have hdescribes : naming.Describes (fun _ => .start) (.named key.name) (.interface key) :=
    .interface List.Forall₂.nil
  obtain ⟨htyped, hplace⟩ := hagrees.addType hdescribes fun hmem => hkey (howners key hmem)
  have hadded := htyped.addEntry hkey hscope symbol (iff_of_true hsort hinterface)
    hresolved (fun _ => ⟨_, hshape, htype ▸ hplace⟩) hfiled
  refine ⟨layout.add _ hkey hagrees.new_id hscope, rfl, rfl, _, hadded, hresolved,
    fun owner howner => ?_⟩
  show owner ∈ (layout.entries ++ [_]).map Entry.key
  rw [List.map_append]
  rcases List.mem_append.mp howner with hold | hnew
  · exact List.mem_append_left _ (howners owner hold)
  · cases List.mem_singleton.mp hnew
    exact List.mem_append_right _ (List.mem_singleton_self _)

end Layout

/-! ## Single declarations -/

namespace Bind

variable {layout : Layout} {program : Program} {site : Site}

/-- What is known of the files when one more symbol is noted down. -/
def notedFiles (site : Site) (node : Nat) (program : Program) : Array FileInfo :=
  program.files.modify site.file.index fun info =>
    { info with declarations := (node, ⟨program.symbols.size⟩) :: info.declarations }

/-- Noting down a symbol leaves the file its scope. -/
theorem notedFiles_filed (node : Nat)
    (h : ∃ info, program.files[0]? = some info ∧ info.scopes = [⟨0⟩]) :
    ∃ info, (notedFiles site node program)[0]? = some info ∧ info.scopes = [⟨0⟩] := by
  obtain ⟨info, hinfo, hscopes⟩ := h
  unfold notedFiles
  rw [Array.getElem?_modify, hinfo]
  split
  · exact ⟨_, rfl, hscopes⟩
  · exact ⟨info, rfl, hscopes⟩

/-- A new value gets a symbol in the scope of the file. -/
theorem declareValue_run {scope : Scope} (hscopes : program.scopes = #[scope]) (name : Identifier)
    (hnew : scope.get? (.value name.text) = none) (sort : SymbolSort) (node : Nat) :
    (declareValue site ⟨0⟩ name sort node).run program = (⟨program.symbols.size⟩,
      { program with
        symbols := program.symbols.push
          ⟨name.text, sort, [⟨site.file, name.node.span.start⟩], .any⟩
        scopes := #[scope.insert (.value name.text) ⟨program.symbols.size⟩]
        files := notedFiles site node program }) := by
  have hnone : (program.scope ⟨0⟩).values.get? name.text = none := by
    unfold Program.scope
    rw [hscopes]
    exact hnew
  have hpushed := Resolve.modify_push_size program.symbols ⟨name.text, sort, [], .any⟩
    fun symbol => { symbol with
      declarations := symbol.declarations ++ [⟨site.file, name.node.span.start⟩] }
  have hinserted : program.scopes.modify 0 (fun scope =>
      { scope with values := scope.values.insert name.text ⟨program.symbols.size⟩ }) =
      #[scope.insert (.value name.text) ⟨program.symbols.size⟩] := by
    rw [hscopes]
    rfl
  simp only [List.nil_append] at hpushed
  rw [← hpushed, ← hinserted]
  exact declareValue_run_of_new site hnone node

/-- A new interface or alias gets a symbol in the scope of the file, and a new interface a type. -/
theorem declareType_run {scope : Scope} (hscopes : program.scopes = #[scope])
    (hsite : site.scope = ⟨0⟩) (name : Identifier)
    (hnew : scope.get? (.type name.text) = none) (sort : SymbolSort) (node : Nat) :
    (declareType site name sort node).run program = (some ⟨program.symbols.size⟩,
      { program with
        types := (startType name.text sort program.types).2
        symbols := program.symbols.push ⟨name.text, sort, [⟨site.file, name.node.span.start⟩],
          (startType name.text sort program.types).1⟩
        scopes := #[scope.insert (.type name.text) ⟨program.symbols.size⟩]
        files := notedFiles site node program }) := by
  have hnone : (program.scope site.scope).types.get? name.text = none := by
    unfold Program.scope
    rw [hsite, hscopes]
    exact hnew
  have hpushed (type : TypeId) := Resolve.modify_push_size program.symbols
    ⟨name.text, sort, [], type⟩ fun symbol => { symbol with
      declarations := symbol.declarations ++ [⟨site.file, name.node.span.start⟩] }
  have hinserted : program.scopes.modify site.scope.index (fun scope =>
      { scope with types := scope.types.insert name.text ⟨program.symbols.size⟩ }) =
      #[scope.insert (.type name.text) ⟨program.symbols.size⟩] := by
    rw [hscopes, hsite]
    rfl
  simp only [List.nil_append] at hpushed
  rw [← hpushed, ← hinserted]
  exact declareType_run_of_new hnone node

/-- Declaring a value under a name that is free adds one declaration to the layout. -/
theorem declareValue_declares (site : Site) (h : layout.Lays program) {name : Identifier}
    (hkey : .value name.text ∉ layout.keys) (declaration : Declaration)
    (hscope : declaration.scope = ⟨0⟩) (hinterface : declaration.isInterface = false)
    {sort : SymbolSort} (hsort : sort ≠ .interface) (node : Nat) :
    ∃ program', (declareValue site ⟨0⟩ name sort node).run program =
      (⟨program.symbols.size⟩, program') ∧
        layout.Declares program (.value name.text) declaration program' :=
  ⟨_, declareValue_run h.scopes name (Layout.get?_eq_none hkey) sort node,
    h.declares hkey hscope hinterface hsort (notedFiles_filed node h.filed)⟩

/-- Declaring a type under a name that is free adds one declaration to the layout. -/
theorem declareType_declares (site : Site) (h : layout.Lays program)
    (hsite : site.scope = ⟨0⟩) {name : Identifier} (hkey : .type name.text ∉ layout.keys)
    (declaration : Declaration) (hscope : declaration.scope = ⟨0⟩) (sort : SymbolSort)
    (hsort : sort = .interface ↔ declaration.isInterface = true)
    (hshape : declaration.isInterface = true →
      layout.shapes (.type name.text) = some (.interface (.type name.text))) (node : Nat) :
    ∃ program', (declareType site name sort node).run program =
      (some ⟨program.symbols.size⟩, program') ∧
        layout.Declares program (.type name.text) declaration program' := by
  have hrun := declareType_run h.scopes hsite name (Layout.get?_eq_none hkey) sort node
  by_cases hinterface : sort = .interface
  · have htrue := hsort.mp hinterface
    rw [startType, if_pos hinterface] at hrun
    exact ⟨_, hrun, h.declares_interface hkey hscope htrue (hshape htrue) hinterface rfl
      (notedFiles_filed node h.filed)⟩
  · have hfalse : declaration.isInterface = false :=
      Bool.eq_false_iff.mpr fun htrue => hinterface (hsort.mpr htrue)
    rw [startType, if_neg hinterface] at hrun
    exact ⟨_, hrun, h.declares hkey hscope hfalse hinterface (notedFiles_filed node h.filed)⟩

/-! ## Statements -/

/-- A step of binding gives what it declares symbols of its own, in order, and hands it on. -/
def LaysOut (step : Compile (List Bound)) (declared : List (Key × Declaration)) : Prop :=
  ∀ (layout : Layout) (program : Program), layout.Lays program → layout.Admits declared →
    ∃ (layout' : Layout) (added : List Entry), layout'.shapes = layout.shapes ∧
      layout'.entries = layout.entries ++ added ∧
      (added.map fun entry => (entry.key, entry.declaration)) = declared ∧
      (step.run program).1 = added.map Entry.bound ∧ layout'.Lays (step.run program).2

/-- Doing nothing lays out nothing. -/
theorem LaysOut.nil : LaysOut (pure []) [] := by
  intro layout program h _
  exact ⟨layout, [], rfl, (List.append_nil _).symm, rfl, rfl, h⟩

/-- A step that declares one name. -/
theorem LaysOut.single {step : Compile (List Bound)} {key : Key} {declaration : Declaration}
    (hstep : ∀ (layout : Layout) (program : Program), layout.Lays program → key ∉ layout.keys →
      layout.Admits [(key, declaration)] → ∃ program', step.run program =
        ([.declaration ⟨program.symbols.size⟩ declaration], program') ∧
          layout.Declares program key declaration program') :
    LaysOut step [(key, declaration)] := by
  intro layout program h hadmits
  have hkey : key ∉ layout.keys := fun hmem =>
    (List.nodup_append.mp hadmits.once).2.2 key hmem key (List.mem_singleton_self _) rfl
  obtain ⟨program', hrun, layout', hshapes, hentries, hlays⟩ := hstep layout program h hkey hadmits
  rw [hrun]
  exact ⟨layout', _, hshapes, hentries, rfl, rfl, hlays⟩

/-- One step after another. -/
theorem LaysOut.append {first second : Compile (List Bound)}
    {declared declared' : List (Key × Declaration)} (h : LaysOut first declared)
    (h' : LaysOut second declared') :
    LaysOut (do let bound ← first; return bound ++ (← second)) (declared ++ declared') := by
  intro layout program hlays hadmits
  obtain ⟨layout₁, added₁, hshapes₁, hentries₁, hdeclared₁, hbound₁, hlays₁⟩ :=
    h layout program hlays hadmits.left
  have hadmits₁ : layout₁.Admits declared' := by
    constructor
    case once =>
      have honce := hadmits.once
      rw [← hdeclared₁, List.map_append, List.map_map, ← List.append_assoc] at honce
      unfold Layout.keys at honce ⊢
      rw [hentries₁, List.map_append]
      exact honce
    case interface =>
      intro key declaration hmem hinterface
      rw [hshapes₁]
      exact hadmits.interface (List.mem_append_right _ hmem) hinterface
  obtain ⟨layout₂, added₂, hshapes₂, hentries₂, hdeclared₂, hbound₂, hlays₂⟩ :=
    h' layout₁ _ hlays₁ hadmits₁
  refine ⟨layout₂, added₁ ++ added₂, hshapes₂.trans hshapes₁, ?_, ?_, ?_, hlays₂⟩
  · rw [hentries₂, hentries₁, List.append_assoc]
  · rw [List.map_append, hdeclared₁, hdeclared₂]
  · rw [List.map_append, ← hbound₁, ← hbound₂]
    rfl

/-- The site of the top of a file that is alone in its program. -/
def topOf (file : FileId) : Site :=
  ⟨file, ⟨0⟩, ⟨0⟩, []⟩

variable (file : FileId)

/-- Declaring one variable lays out its name with its declaration. -/
theorem variable_laysOut (form : VariableForm) (declaration : VariableDeclaration) :
    LaysOut (do
      let symbol ← declareValue (topOf file) (variableTarget (topOf file) form).1 declaration.name
        (variableTarget (topOf file) form).2 declaration.node.id
      return [.declaration symbol (.variableDecl ⟨0⟩ (form = .constant) declaration.type?
        declaration.initializer)])
      [(.value declaration.name.text,
        .variableDecl ⟨0⟩ (form = .constant) declaration.type? declaration.initializer)] := by
  apply LaysOut.single
  intro layout program h hkey _
  have htarget : (variableTarget (topOf file) form).1 = ⟨0⟩ := by cases form <;> rfl
  obtain ⟨program', hrun, hdeclares⟩ := declareValue_declares (topOf file) h hkey
    (.variableDecl ⟨0⟩ (form = .constant) declaration.type? declaration.initializer)
    rfl rfl (variableTarget_ne_interface (topOf file) form) declaration.node.id
  refine ⟨program', ?_, hdeclares⟩
  rw [htarget, StateT.run_bind, hrun]
  rfl

/-- A list of variables lays out the names that are there, in order. -/
theorem variableList_laysOut (form : VariableForm) (list : List VariableDeclaration) :
    LaysOut (variableList (topOf file) form list)
      ((list.filter fun declaration => !declaration.name.isMissing).map fun declaration =>
        (.value declaration.name.text,
          .variableDecl ⟨0⟩ (form = .constant) declaration.type? declaration.initializer)) := by
  induction list with
  | nil => exact .nil
  | cons declaration rest ih =>
    by_cases hmissing : declaration.name.isMissing = true
    · rw [variableList, if_pos hmissing, List.filter_cons_of_neg (by simp [hmissing])]
      exact ih
    · rw [variableList, if_neg hmissing, List.filter_cons_of_pos (by simp [hmissing])]
      exact (variable_laysOut file form declaration).append ih

/-- A function lays out its name with its declaration, if the name is there. -/
theorem function_laysOut (declaration : FunctionDeclaration) :
    LaysOut (function (topOf file) declaration)
      (Statement.declared ⟨0⟩ (.function declaration)) := by
  by_cases hmissing : declaration.name.isMissing = true
  · simp only [function, Statement.declared, if_pos hmissing]
    exact .nil
  · simp only [function, Statement.declared, if_neg hmissing]
    apply LaysOut.single
    intro layout program h hkey _
    obtain ⟨program', hrun, hdeclares⟩ := declareValue_declares (topOf file) h hkey
      (.function ⟨0⟩ declaration.parameters declaration.result) rfl rfl
      (show SymbolSort.function ≠ .interface by decide) declaration.node.id
    refine ⟨program', ?_, hdeclares⟩
    show StateT.run (declareValue (topOf file) ⟨0⟩ _ _ _ >>= _) program = _
    rw [StateT.run_bind, hrun]
    rfl

/-- An interface lays out its name with its declaration. -/
theorem interface_laysOut (declaration : InterfaceDeclaration) :
    LaysOut (interface (topOf file) declaration)
      (Statement.declared ⟨0⟩ (.interface declaration)) := by
  apply LaysOut.single
  intro layout program h hkey hadmits
  have hshape := hadmits.interface (List.mem_singleton_self _)
  obtain ⟨program', hrun, hdeclares⟩ := declareType_declares (topOf file) h rfl hkey
    (.interface ⟨0⟩ declaration.members) rfl .interface (iff_of_true rfl rfl) hshape
    declaration.node.id
  refine ⟨program', ?_, hdeclares⟩
  rw [interface, StateT.run_bind, hrun]
  rfl

/-- An alias lays out its name with its declaration. -/
theorem typeAlias_laysOut (declaration : AliasDeclaration) :
    LaysOut (typeAlias (topOf file) declaration)
      (Statement.declared ⟨0⟩ (.typeAlias declaration)) := by
  apply LaysOut.single
  intro layout program h hkey hadmits
  have hshape := hadmits.interface (List.mem_singleton_self _)
  obtain ⟨program', hrun, hdeclares⟩ := declareType_declares (topOf file) h rfl hkey
    (.typeAlias ⟨0⟩ declaration.name.node.span declaration.type) rfl .typeAlias
    (iff_of_false nofun nofun) hshape declaration.node.id
  refine ⟨program', ?_, hdeclares⟩
  rw [typeAlias, StateT.run_bind, hrun]
  rfl

/-- A statement that declares something lays out what it declares. -/
theorem statement_laysOut {statement : Statement} (h : statement.isDeclaration = true) :
    LaysOut (Bind.statement (topOf file) statement) (statement.declared ⟨0⟩) := by
  cases statement with
  | variableList list => exact variableList_laysOut file list.form list.declarations
  | function declaration => exact function_laysOut file declaration
  | interface declaration => exact interface_laysOut file declaration
  | typeAlias declaration => exact typeAlias_laysOut file declaration
  | block | expression => cases h
  | empty => exact LaysOut.nil

/-- Statements that declare something lay out what they declare, in order. -/
theorem statements_laysOut {statements : List Statement}
    (h : ∀ statement ∈ statements, statement.isDeclaration = true) :
    LaysOut (Bind.statements (topOf file) statements)
      (statements.flatMap (Statement.declared ⟨0⟩)) := by
  induction statements with
  | nil => exact LaysOut.nil
  | cons first rest ih =>
    obtain ⟨hfirst, hrest⟩ := List.forall_mem_cons.mp h
    rw [Bind.statements, List.flatMap_cons]
    exact (statement_laysOut file hfirst).append (ih hrest)

end Bind

/-! ## An empty file -/

/-- The naming of a program in which nothing is declared. -/
def Naming.start : Naming where
  shapes := (List.range TypeTable.initial.entries.size).map fun i => .initial ⟨i⟩
  members := [some ⟨"length", .property, .word .number⟩]
  resolved := []
  once := List.nodup_range.map fun i j h => by
    injection h with h
    injection h
  wellKnown i hi := by rw [List.getElem?_map, List.getElem?_range hi, Option.map_some]
  length := rfl

/-- Before anything is declared, only the types that every program starts with are named. -/
theorem Naming.start_types {a : TypeId} {shape : Shape} (h : Naming.start.Types a shape) :
    a.index < TypeTable.initial.entries.size ∧ shape = .initial a := by
  unfold Types start at h
  rw [List.getElem?_map, Option.map_eq_some_iff] at h
  obtain ⟨i, hi, rfl⟩ := h
  obtain ⟨hlt, rfl⟩ := List.getElem?_eq_some_iff.mp hi
  rw [List.length_range] at hlt
  refine ⟨hlt, ?_⟩
  rw [List.getElem_range]

/-- The program with one file in which nothing is declared. -/
def Program.opened (name : String) (length : Nat) : Program :=
  { Program.empty with
    scopes := #[⟨[], ⟨0, length⟩, .empty, .empty, []⟩]
    files := #[⟨name, length, [⟨0⟩], []⟩] }

/-- A program with one file in which nothing is declared is described by the layout with which a
file starts. -/
theorem Layout.start_lays (name : String) (length : Nat) (shapes : Key → Option Shape) :
    (Layout.start ⟨0, length⟩ shapes).Lays (Program.opened name length) := by
  refine ⟨Naming.start, ?_, rfl, ?_⟩
  · constructor
    case size => rfl
    case types =>
      intro a shape ha
      obtain ⟨hlt, rfl⟩ := Naming.start_types ha
      have hdata := Array.getElem?_eq_getElem hlt
      refine ⟨_, hdata, .initial ?_⟩
      exact TypeTable.get_of_entries hdata
    case count => rfl
    case symbols =>
      rintro ⟨i⟩ member hmember
      obtain ⟨hlt, hget⟩ := List.getElem?_eq_some_iff.mp hmember
      cases Nat.lt_one_iff.mp hlt
      cases hget
      exact ⟨_, rfl, rfl, rfl, Naming.start.word .number⟩
    case declared => exact nofun
    case scopes => rfl
    case filed => exact ⟨_, rfl, rfl⟩
    case issues => exact .refl _
  · intro owner hmem
    obtain ⟨i, -, hi⟩ := List.mem_map.mp hmem
    cases hi

end ExpressionTyping
