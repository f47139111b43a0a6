import ExpressionTyping.Proofs.Program.DeclaredNames
import ExpressionTyping.Proofs.Program.Members

/-!
# Interfaces that are declared again

Declarations of one interface add to each other. While a file is bound, the symbol of an interface
is handed on with one declaration after the other, in the order of the text: with all those of its
name in its scope, and with no others (`Bind.Collects`). When the file is resolved, the interface
gets one member for each name that the elements of these declarations have, as if they stood in one
(`Program.members_follow_elements`).
-/

set_option autoImplicit false

namespace ExpressionTyping

/-! ## The interfaces that a file declares -/

mutual

/-- The interfaces that a statement declares, each with its scope, when it stands in a scope and the
next scope has a given number. -/
def Statement.interfaces (site : Site) (next : Nat) :
    Statement → List (ScopeId × InterfaceDeclaration)
  | .interface declaration => [(site.scope, declaration)]
  | .block _ body => interfacesOf (site.inside ⟨next⟩) (next + 1) body
  | .variableList _ | .function _ | .typeAlias _ | .expression _ _ | .empty _ => []

/-- The interfaces that statements declare, in order. -/
def interfacesOf (site : Site) (next : Nat) :
    List Statement → List (ScopeId × InterfaceDeclaration)
  | [] => []
  | first :: rest =>
    first.interfaces site next ++
      interfacesOf site (next + (first.blocks (site.scope :: site.enclosing) next).length) rest

end

/-- The element lists of the interfaces of a name in a scope. -/
def elementLists (scope : ScopeId) (name : String)
    (interfaces : List (ScopeId × InterfaceDeclaration)) : List (List TypeElement) :=
  (interfaces.filter fun entry => entry.1 = scope ∧ entry.2.name.text = name).map (·.2.members)

/-- The elements that a file lists for an interface of a name in a scope, in all its declarations,
when it is added to a program. -/
def Program.elementsOf (program : Program) (file : SourceFile) (scope : ScopeId) (name : String) :
    List TypeElement :=
  (elementLists scope name (interfacesOf
    ⟨⟨program.files.size⟩, ⟨program.scopes.size⟩, ⟨program.scopes.size⟩, []⟩
    (program.scopes.size + 1) file.statements)).flatten

section ElementLists

variable {scope target : ScopeId} {name : String} {declaration : InterfaceDeclaration}

/-- One more declaration of an interface adds its elements behind the others. -/
theorem elementLists_append_self (interfaces : List (ScopeId × InterfaceDeclaration)) :
    elementLists scope declaration.name.text (interfaces ++ [(scope, declaration)]) =
      elementLists scope declaration.name.text interfaces ++ [declaration.members] := by
  simp [elementLists]

/-- A declaration of another interface adds no elements. -/
theorem elementLists_append_of_ne (interfaces : List (ScopeId × InterfaceDeclaration))
    (h : target = scope → declaration.name.text ≠ name) :
    elementLists scope name (interfaces ++ [(target, declaration)]) =
      elementLists scope name interfaces := by
  have hnone : ¬(target = scope ∧ declaration.name.text = name) := fun hboth => h hboth.1 hboth.2
  simp [elementLists, hnone]

end ElementLists

/-! ## Binding -/

/-- A name that leads nowhere led nowhere before. -/
theorem Program.Binds.missing {file : FileId} {before after : Program} {opened : List BlockScope}
    (h : before.Binds file after opened) {scope : ScopeId} {key : Key}
    (hnone : (after.scope scope).get? key = none) : (before.scope scope).get? key = none := by
  refine Option.eq_none_iff_forall_ne_some.mpr fun id hid => ?_
  cases (h.found hid).symm.trans hnone

namespace Bind

/-- Finding or adding a name leaves the other symbols. -/
theorem Prepares.symbol?_of_ne {s middle : Program} {target : ScopeId} {key : Key}
    {sort : SymbolSort} {id other : SymbolId} (h : Prepares s target key sort id middle)
    (hne : other ≠ id) : middle.symbol? other = s.symbol? other := by
  cases h with
  | merged => rfl
  | taken | added =>
    show (s.symbols.push _)[other.index]? = s.symbols[other.index]?
    rw [Array.getElem?_push, if_neg]
    exact fun heq => hne (congrArg SymbolId.mk heq)

variable {base s after : Program} {done : List (ScopeId × InterfaceDeclaration)}
  {bound more : List Bound}

/-- An interface has a name in a new scope, and was handed on with the interfaces of that name
there. -/
structure Merges (base : Program) (done : List (ScopeId × InterfaceDeclaration)) (s : Program)
    (bound : List Bound) (id : SymbolId) (scope : ScopeId) (name : String) : Prop where
  new : base.scopes.size ≤ scope.index
  found : (s.scope scope).get? (.type name) = some id
  declared : elementLists scope name done ≠ []
  declarations : (Resolve.pendingOf bound).declarationsOf id =
    (elementLists scope name done).map (.interface scope)

/-- While a file is bound, every interface that is not older has a name in a scope of the file, and
was handed on with the interfaces of that name there. Where a name leads nowhere, none has it. -/
structure Collects (base : Program) (done : List (ScopeId × InterfaceDeclaration)) (s : Program)
    (bound : List Bound) : Prop where
  sorted : s.Sorted
  kinds : Kinds s bound
  merged : ∀ id symbol, s.symbol? id = some symbol → symbol.sort = .interface →
    base.HasSymbol id ∨ ∃ scope name, Merges base done s bound id scope name
  missing : ∀ scope name, base.scopes.size ≤ scope.index →
    (s.scope scope).get? (.type name) = none → elementLists scope name done = []

namespace Collects

variable (h : Collects base done s bound)
include h

/-- Nothing changes if no interface is declared. -/
theorem keep {file : FileId} {opened : List BlockScope} (hbinds : s.Binds file after opened)
    (hkinds : Kinds after more) (hinterfaces : ∀ id symbol, after.symbol? id = some symbol →
      symbol.sort = .interface → s.symbol? id = some symbol)
    (hmore : ∀ id made, .declaration id made ∈ more → made.isInterface = false) :
    Collects base done after (bound ++ more) where
  sorted := hbinds.sorted h.sorted
  kinds := (h.kinds.mono hbinds.symbols).append hkinds
  merged id symbol hsymbol hsort := by
    refine (h.merged id symbol (hinterfaces id symbol hsymbol hsort) hsort).imp_right ?_
    rintro ⟨scope, name, hmerges⟩
    refine ⟨scope, name, hmerges.new, hbinds.found hmerges.found, hmerges.declared, ?_⟩
    rw [Resolve.declarationsOf_append, hmerges.declarations, Resolve.declarationsOf_eq_nil,
      List.append_nil]
    intro made hmem
    obtain ⟨found, hfound, hof⟩ := hkinds id made hmem
    cases hsymbol.symm.trans hfound
    have hinterface := hmore id made hmem
    rw [Declaration.isInterface_eq hof, hsort] at hinterface
    cases hinterface
  missing scope name hscope hnone := h.missing scope name hscope (hbinds.missing hnone)

variable {site : Site} {target : ScopeId} {key : Key} {sort : SymbolSort} {id : SymbolId}
  {middle : Program} {made : Declaration}

/-- A name is declared, but not as an interface. -/
theorem declare_other (hprepares : Prepares s target key sort id middle)
    (hsort : sort.isType = key.isType) (hother : sort ≠ .interface)
    (hmade : made.isOf sort = true) (name : Identifier) (number : Nat) :
    Collects base done (recorded site id name number middle)
      (bound ++ [.declaration id made]) := by
  refine h.keep (hprepares.recorded_binds hsort (Declaration.ne_method hmade) site name number)
    (hprepares.recorded_kinds h.sorted made hmade site name number) ?_ ?_
  · intro other symbol hsymbol hinterface
    have hne : other ≠ id := by
      rintro rfl
      obtain ⟨own, hown, -, hsame⟩ := hprepares.recorded_symbol h.sorted site name number
      cases hown.symm.trans hsymbol
      exact hother (hsame.symm.trans hinterface)
    rwa [recorded_symbol?_of_ne site hne, hprepares.symbol?_of_ne hne] at hsymbol
  · intro other found hmem
    cases List.mem_singleton.mp hmem
    rw [Declaration.isInterface_eq hmade, decide_eq_false hother]

/-- The symbol of an interface was handed on with the interfaces of its name before. -/
theorem declarationsOf_eq {name : String} (hscope : base.scopes.size ≤ target.index)
    (hprepares : Prepares s target (.type name) .interface id middle) :
    base.HasSymbol id ∨ (Resolve.pendingOf bound).declarationsOf id =
      (elementLists target name done).map (.interface target) := by
  cases hprepares with
  | merged hfound hmerges =>
    obtain ⟨symbol, hsymbol, -⟩ := h.sorted.named hfound
    obtain ⟨-, rfl⟩ := Program.HasSymbol.of_symbol? hsymbol
    refine (h.merged id _ hsymbol (SymbolSort.eq_of_merges hmerges)).imp_right ?_
    rintro ⟨scope, name', hmerged⟩
    obtain rfl := h.sorted.apart hfound hmerged.found
    cases h.sorted.key_eq hfound hmerged.found
    exact hmerged.declarations
  | taken _ _ _ hvalue => cases hvalue
  | added hmissing =>
    rw [h.missing target name hscope hmissing]
    exact .inr (Resolve.declarationsOf_eq_nil h.kinds.not_mem_new)

/-- A name is declared as an interface. -/
theorem declare_interface (declaration : InterfaceDeclaration) (number : Nat)
    (hsite : site.OpenedSince base s)
    (hprepares : Prepares s site.scope (.type declaration.name.text) .interface id middle) :
    Collects base (done ++ [(site.scope, declaration)])
      (recorded site id declaration.name number middle)
      (bound ++ [.declaration id (.interface site.scope declaration.members)]) := by
  have hbinds := hprepares.recorded_binds rfl nofun site declaration.name number
  have hkinds := hprepares.recorded_kinds h.sorted (.interface site.scope declaration.members) rfl
    site declaration.name number
  have hled : ((recorded site id declaration.name number middle).scope site.scope).get?
      (.type declaration.name.text) = some id :=
    (hprepares.leads hsite.scope.2).resolve_right nofun
  refine ⟨hbinds.sorted h.sorted, (h.kinds.mono hbinds.symbols).append hkinds,
    fun other symbol hsymbol hsort => ?_, fun scope name hscope hnone => ?_⟩
  · by_cases heq : other = id
    · subst heq
      refine (h.declarationsOf_eq hsite.scope.1 hprepares).imp_right fun hdeclarations => ?_
      refine ⟨site.scope, declaration.name.text, hsite.scope.1, hled, ?_, ?_⟩
      · rw [elementLists_append_self]
        exact List.append_ne_nil_of_right_ne_nil _ (List.cons_ne_nil _ _)
      · rw [Resolve.declarationsOf_append, hdeclarations, Resolve.declarationsOf_single,
          elementLists_append_self, List.map_append, List.map_singleton]
    · rw [recorded_symbol?_of_ne site heq, hprepares.symbol?_of_ne heq] at hsymbol
      refine (h.merged other symbol hsymbol hsort).imp_right ?_
      rintro ⟨scope, name, hmerges⟩
      have hfound := hbinds.found hmerges.found
      have hother : site.scope = scope → declaration.name.text ≠ name := by
        rintro rfl rfl
        exact heq (Option.some.inj (hfound.symm.trans hled))
      have hlists := elementLists_append_of_ne done hother
      refine ⟨scope, name, hmerges.new, hfound, hlists ▸ hmerges.declared, ?_⟩
      rw [Resolve.declarationsOf_append, hmerges.declarations, Resolve.declarationsOf_eq_nil,
        List.append_nil, hlists]
      intro made hmem
      cases List.mem_singleton.mp hmem
      exact heq rfl
  · rw [elementLists_append_of_ne]
    · exact h.missing scope name hscope (hbinds.missing hnone)
    · rintro rfl rfl
      cases hled.symm.trans hnone

/-- A name that is taken is not declared as an interface. -/
theorem refuse_interface (declaration : InterfaceDeclaration) {other : SymbolId}
    (hfound : (s.scope site.scope).get? (.type declaration.name.text) = some other)
    (hmerges : ¬(s.symbol other).sort.merges .interface = true) (issues : List FileIssue) :
    Collects base (done ++ [(site.scope, declaration)]) { s with issues } bound := by
  refine ⟨(Program.Binds.issues site.file s issues).sorted h.sorted, h.kinds,
    fun id symbol hsymbol hsort => ?_, fun scope name hscope hnone => ?_⟩
  · refine (h.merged id symbol hsymbol hsort).imp_right ?_
    rintro ⟨scope, name, hmerged⟩
    have hother : site.scope = scope → declaration.name.text ≠ name := by
      rintro rfl rfl
      cases hfound.symm.trans hmerged.found
      obtain ⟨-, rfl⟩ := Program.HasSymbol.of_symbol? hsymbol
      have hinterface : (s.symbol other).sort = .interface := hsort
      rw [hinterface] at hmerges
      exact hmerges rfl
    have hlists := elementLists_append_of_ne done hother
    exact ⟨scope, name, hmerged.new, hmerged.found, hlists ▸ hmerged.declared,
      hmerged.declarations.trans (congrArg _ hlists.symm)⟩
  · rw [elementLists_append_of_ne]
    · exact h.missing scope name hscope hnone
    · rintro rfl rfl
      cases hfound.symm.trans hnone

end Collects

/-! ## Statements -/

section Statements

variable {site : Site} (h : Collects base done s bound)
include h

/-- Nothing is bound. -/
theorem Collects.nothing (hmore : Resolve.pendingOf more = []) :
    Collects base done s (bound ++ more) := by
  have hnone := Resolve.not_mem_of_pendingOf hmore
  have hsame : s.Binds ⟨0⟩ s [] := .refl _ s
  exact h.keep hsame (fun id made hmem => absurd hmem (hnone id made)) (fun _ _ hsymbol _ => hsymbol)
    fun id made hmem => absurd hmem (hnone id made)

/-- Variables add to no interface. -/
theorem variableList_collects (site : Site) (form : VariableForm)
    (list : List VariableDeclaration) :
    let run := (variableList site form list).run s
    Collects base done run.2 (bound ++ run.1) := by
  induction list generalizing s bound with
  | nil => exact h.nothing rfl
  | cons declaration rest ih =>
    by_cases hmissing : declaration.name.isMissing = true
    · rw [variableList_run_of_missing site form hmissing]
      exact ih h
    · obtain ⟨id, middle, hprepares, hdeclared⟩ := declareValue_prepares site
        (variableTarget site form).1 declaration.name (variableTarget site form).2
        declaration.node.id s
      rw [variableList_cons_run site form rest hmissing hdeclared]
      have hfirst : Collects base done (recorded site id declaration.name declaration.node.id middle)
          _ := h.declare_other hprepares (isType_variableTarget site form)
        (variableTarget_ne_interface site form)
        (isOf_variableTarget site form site.scope declaration.type? declaration.initializer)
        declaration.name declaration.node.id
      have hrest := ih hfirst
      simp only [List.append_assoc] at hrest
      exact hrest

/-- A function adds to no interface. -/
theorem function_collects (site : Site) (declaration : FunctionDeclaration) :
    let run := (Bind.function site declaration).run s
    Collects base done run.2 (bound ++ run.1) := by
  by_cases hmissing : declaration.name.isMissing = true
  · rw [function_run_of_missing site hmissing]
    exact h.nothing rfl
  · obtain ⟨id, middle, hprepares, hdeclared⟩ := declareValue_prepares site site.scope
      declaration.name .function declaration.node.id s
    rw [function_run site hmissing hdeclared]
    exact h.declare_other hprepares rfl (by decide) rfl declaration.name declaration.node.id

/-- An alias adds to no interface. -/
theorem typeAlias_collects (site : Site) (declaration : AliasDeclaration) :
    let run := (Bind.typeAlias site declaration).run s
    Collects base done run.2 (bound ++ run.1) := by
  let made : Declaration :=
    .typeAlias site.scope declaration.name.node.span declaration.type
  show Collects base done
    ((handOnType site declaration.name .typeAlias declaration.node.id made).run s).2
    (bound ++ ((handOnType site declaration.name .typeAlias declaration.node.id made).run s).1)
  rcases handOnType_run site declaration.name .typeAlias declaration.node.id made s with
    ⟨_, issues, -, -, hrun⟩ | ⟨id, middle, hprepares, hrun⟩
  · rw [hrun]
    exact h.keep (.issues site.file s issues) nofun (fun _ _ hsymbol _ => hsymbol) nofun
  · rw [hrun]
    exact h.declare_other hprepares rfl nofun rfl declaration.name declaration.node.id

/-- A declaration of an interface is handed on with those of its name in its scope. -/
theorem interface_collects {site : Site} (hsite : site.OpenedSince base s)
    (declaration : InterfaceDeclaration) :
    let run := (Bind.interface site declaration).run s
    Collects base (done ++ [(site.scope, declaration)]) run.2 (bound ++ run.1) := by
  let made : Declaration := .interface site.scope declaration.members
  show Collects base _
    ((handOnType site declaration.name .interface declaration.node.id made).run s).2
    (bound ++ ((handOnType site declaration.name .interface declaration.node.id made).run s).1)
  rcases handOnType_run site declaration.name .interface declaration.node.id made s with
    ⟨other, issues, hfound, hmerges, hrun⟩ | ⟨id, middle, hprepares, hrun⟩
  · rw [hrun, List.append_nil]
    exact h.refuse_interface declaration hfound hmerges issues
  · rw [hrun]
    exact h.declare_interface declaration declaration.node.id hsite hprepares

end Statements

mutual

/-- A statement hands on its interfaces with those of their names in their scopes. -/
theorem statement_collects (statement : Statement) {site : Site}
    {done : List (ScopeId × InterfaceDeclaration)} {s : Program} {bound : List Bound}
    (h : Collects base done s bound) (hsite : site.OpenedSince base s) :
    let run := (Bind.statement site statement).run s
    Collects base (done ++ statement.interfaces site s.scopes.size) run.2 (bound ++ run.1) := by
  cases statement with
  | interface declaration => exact interface_collects h hsite declaration
  | variableList list =>
    rw [Statement.interfaces, List.append_nil]
    exact variableList_collects h site list.form list.declarations
  | function declaration =>
    rw [Statement.interfaces, List.append_nil]
    exact function_collects h site declaration
  | typeAlias declaration =>
    rw [Statement.interfaces, List.append_nil]
    exact typeAlias_collects h site declaration
  | expression node value =>
    rw [Statement.interfaces, List.append_nil]
    exact h.nothing (Resolve.pendingOf_assignment site node value)
  | empty node =>
    rw [Statement.interfaces, List.append_nil]
    exact h.nothing rfl
  | block node body =>
    have hopens := addScope_binds site.file (site.scope :: site.enclosing) node.span s
    have hstart : Collects base done
        ((Compile.addScope site.file (site.scope :: site.enclosing) node.span).run s).2
        (bound ++ []) := h.keep hopens nofun (fun _ _ hsymbol _ => hsymbol) nofun
    rw [List.append_nil] at hstart
    have hopened : (site.inside ⟨s.scopes.size⟩).OpenedSince base
        ((Compile.addScope site.file (site.scope :: site.enclosing) node.span).run s).2 := by
      refine ⟨⟨Nat.le_trans hsite.scope.1 (Nat.le_of_lt hsite.scope.2), ?_⟩,
        (hsite.mono hopens.size_le).fileScope⟩
      show s.scopes.size < Array.size _
      rw [hopens.size]
      exact Nat.lt_succ_self _
    have hbody := statements_collects body hstart hopened
    rw [hopens.size] at hbody
    exact hbody

/-- Statements hand on the interfaces that they declare. -/
theorem statements_collects (list : List Statement) {site : Site}
    {done : List (ScopeId × InterfaceDeclaration)} {s : Program} {bound : List Bound}
    (h : Collects base done s bound) (hsite : site.OpenedSince base s) :
    let run := (statements site list).run s
    Collects base (done ++ interfacesOf site s.scopes.size list) run.2 (bound ++ run.1) := by
  cases list with
  | nil =>
    rw [interfacesOf, List.append_nil]
    exact h.nothing rfl
  | cons first rest =>
    obtain ⟨hbinds, -⟩ := statement_binds site first s
    have hfirst := statement_collects first h hsite
    have hrest := statements_collects rest hfirst (hsite.mono hbinds.size_le)
    rw [hbinds.size] at hrest
    simp only [List.append_assoc] at hrest
    rw [interfacesOf]
    exact hrest

end

end Bind

/-! ## Compiled files -/

namespace Program

/-- What a program knows, except that an alias may also be left at `any` that is reported as
referring to itself. -/
def readingInCircles (program : Program) (file : FileId) : Reading :=
  { program.reading file with
    names := fun scope name id => (program.reading file).names scope name id ∨
      id = .any ∧ ∃ symbol, program.resolveType? scope name.text = some symbol ∧
        program.ReportsCircle file symbol }

/-- A type is what declarations of one symbol say: what the annotation of the first one means, if it
has one, or an object with the signatures of all of them, if they are functions. -/
def HasDeclaredType (program : Program) (file : FileId) (declarations : List Declaration)
    (type : TypeId) : Prop :=
  ∀ first rest, declarations = first :: rest →
    first.Gives (program.readingInCircles file) type ∧
    (first.isFunction = true → ∃ signatures,
      program.types.get type = .object none .empty signatures ∧
      Declarations.Sign (program.reading file) declarations signatures)

variable {program : Program} {file : SourceFile} {text : List Char}

/-- Binding a file hands on the interfaces that it declares. -/
theorem Sorted.boundIn_collects (h : program.Sorted) (file : SourceFile) :
    Bind.Collects program (interfacesOf
        ⟨⟨program.files.size⟩, ⟨program.scopes.size⟩, ⟨program.scopes.size⟩, []⟩
        (program.scopes.size + 1) file.statements)
      (program.boundIn file).2 (program.boundIn file).1.2 := by
  let site : Site := ⟨⟨program.files.size⟩, ⟨program.scopes.size⟩, ⟨program.scopes.size⟩, []⟩
  let opened := ((Compile.addScope ⟨program.files.size⟩ [] ⟨0, file.node.span.stop⟩).run
    (program.withFile file)).2
  have hopened := Bind.addScope_binds ⟨program.files.size⟩ [] ⟨0, file.node.span.stop⟩
    (program.withFile file)
  have hsize : opened.scopes.size = program.scopes.size + 1 := hopened.size
  have hstart : Bind.Collects program [] opened [] :=
    { sorted := hopened.sorted (h.withFile file)
      kinds := nofun
      merged := fun id symbol hsymbol _ => .inl (HasSymbol.of_symbol? hsymbol).1
      missing := fun _ _ _ _ => rfl }
  have hscope : program.scopes.size ≤ program.scopes.size ∧
      opened.HasScope ⟨program.scopes.size⟩ := by
    refine ⟨Nat.le_refl _, ?_⟩
    show _ < opened.scopes.size
    rw [hsize]
    exact Nat.lt_succ_self _
  have hsite : site.OpenedSince program opened := ⟨hscope, hscope⟩
  have hcollects := Bind.statements_collects file.statements hstart hsite
  rw [hsize] at hcollects
  exact hcollects

/-- What is known when a file is resolved is known to its program. -/
theorem readingInCircles_extends (file : FileId) (pending : Pending) (s : ResolveState) :
    (s.readingInCircles file pending).Extends (s.program.readingInCircles file) where
  file := rfl
  types := .refl TypeData.Endures.refl _
  symbols := fun _ _ _ h => h.2
  names scope name id hname := by
    simp only [ResolveState.readingWith, true_and] at hname
    simp only [readingInCircles, reading]
    split at hname
    · exact .inl (by rwa [if_pos ‹_›])
    · rw [if_neg ‹_›]
      split at hname
      · rename_i symbol hsymbol
        rcases hname with ⟨hany, hcircle⟩ | ⟨-, htype⟩
        · exact .inr ⟨hany, symbol, hsymbol, hcircle⟩
        · exact .inl htype
      · exact .inl hname

/-- An interface that was given its members has those of its declarations. -/
theorem Tidy.furnished_hasMembers {s : ResolveState} (h : s.program.Tidy) {file : FileId}
    {pending : Pending} {id : SymbolId} (hfurnished : s.Furnished file pending id)
    {scope : ScopeId} {lists : List (List TypeElement)}
    (hdeclarations : pending.declarationsOf id = lists.map (.interface scope)) :
    s.program.HasMembers (s.program.reading file) scope lists.flatten
      (s.program.symbol id).type := by
  obtain ⟨-, -, name, drafts, members, hentry, hgather, hmembers⟩ := hfurnished
  have hextends := ResolveState.reading_extends file pending s
  rw [hdeclarations] at hgather
  exact h.hasMembers (hgather.mono hextends).flatten (hmembers.imp fun _ _ => hextends.memberIs)
    (TypeTable.get_of_entries hentry)

namespace Compiled

/-- Every interface of a compiled file has the members of its declarations. -/
theorem interfaces_hasMembers (h : program.Compiled)
    (hplaced : ∀ statement ∈ file.statements, statement.Placed text) {id : SymbolId}
    {symbol : Symbol} (hsymbol : (program.add file).2.symbol? id = some symbol)
    (hsort : symbol.sort = .interface) (hnew : ¬program.HasSymbol id) :
    let added := (program.add file).2
    ∃ scope name, program.scopes.size ≤ scope.index ∧
      (added.scope scope).types.get? name = some id ∧
      added.HasMembers (added.reading ⟨program.files.size⟩) scope
        (program.elementsOf file scope name) symbol.type := by
  intro added
  obtain ⟨hexplains, -⟩ := h.resolvedIn_explains hplaced
  obtain ⟨old, hold, hsame, -⟩ := hexplains.interfaces id symbol hsymbol hsort
  obtain ⟨scope, name, hmerges⟩ :=
    ((h.sorted.boundIn_collects file).merged id old hold (hsame.trans hsort)).resolve_left hnew
  obtain ⟨-, heq⟩ := HasSymbol.of_symbol? hsymbol
  obtain ⟨members, others, hcons⟩ := List.exists_cons_of_ne_nil hmerges.declared
  have hdeclares := hmerges.declarations
  rw [hcons, List.map_cons] at hdeclares
  have hfurnished := hexplains.furnished id ⟨_, Pending.mem_of_declarationsOf hdeclares⟩
    (heq ▸ hsort)
  refine ⟨scope, name, hmerges.new, ?_, ?_⟩
  · have hkept : (added.scope scope).types = ((program.boundIn file).2.scope scope).types :=
      (hexplains.scope scope).types
    rw [hkept]
    exact hmerges.found
  · rw [← heq]
    exact hexplains.tidy.furnished_hasMembers hfurnished hmerges.declarations

/-- What a compiled file declares has the types that its declarations say. -/
theorem hasDeclaredType (h : program.Compiled)
    (hplaced : ∀ statement ∈ file.statements, statement.Placed text) {id : SymbolId}
    (hdeclares : (Resolve.pendingOf (program.boundIn file).1.2).Declares id) :
    let added := (program.add file).2
    added.HasDeclaredType ⟨program.files.size⟩
      ((Resolve.pendingOf (program.boundIn file).1.2).declarationsOf id) (added.symbol id).type := by
  intro added first rest hdeclarations
  obtain ⟨hexplains, hresolved⟩ := h.resolvedIn_explains hplaced
  have hid := hresolved id hdeclares
  have hmade := Pending.mem_of_declarationsOf hdeclarations
  obtain ⟨-, hgiven⟩ := (hexplains.given id hid).resolve_left List.not_mem_nil
  refine ⟨(hgiven first rest hdeclarations).mono (readingInCircles_extends _ _ _),
    fun hfunction => ?_⟩
  have hvalue : ¬((program.resolvedIn file).program.symbol id).sort.isType = true := by
    rw [hexplains.sorted.isType_eq hmade]
    cases first with
    | function => exact nofun
    | variableDecl | interface | typeAlias => cases hfunction
  obtain ⟨-, hsigned⟩ := ((hexplains.signed id hid).resolve_left List.not_mem_nil).resolve_left hvalue
  obtain ⟨signatures, hget, hsign⟩ := hsigned first rest hdeclarations hfunction
  rw [hdeclarations]
  exact ⟨signatures, hget, hsign.mono (ResolveState.reading_extends _ _ _)⟩

end Compiled

/-- When a text, which may have errors, is added to a program of compiled texts, every interface
that it declares has the members that the elements of all its declarations list, one after the
other. What is declared otherwise has the type that its declarations say, and type literals in them
mean types with the members that they list, too. -/
theorem members_follow_elements (before : List (String × String)) (name text : String) :
    let host := ofTexts before
    let file := (SourceFile.parse name text).tree
    let fileId : FileId := ⟨host.files.size⟩
    let pending := Resolve.pendingOf (host.boundIn file).1.2
    let program := (host.add file).2
    host.add? file = some (host.add file) ∧
    (∀ id symbol, program.symbol? id = some symbol → symbol.sort = .interface →
      ¬host.HasSymbol id → ∃ scope name, host.scopes.size ≤ scope.index ∧
        (program.scope scope).types.get? name = some id ∧
        program.HasMembers (program.reading fileId) scope (host.elementsOf file scope name)
          symbol.type) ∧
    (∀ id, pending.Declares id →
      program.HasDeclaredType fileId (pending.declarationsOf id) (program.symbol id).type) ∧
    ∀ r : Reading, r.types = program.types → ∀ scope node elements type,
      TypeNode.Means r scope (.object node elements) type →
        program.HasMembers r scope elements type := by
  obtain ⟨hcompiled, -⟩ := ofTexts_compiled before
  have hplaced := (SourceFile.parse_placed name text).1
  generalize ofTexts before = host at hcompiled ⊢
  generalize (SourceFile.parse name text).tree = file at hplaced ⊢
  intro host file fileId pending program
  have htidy : program.Tidy := (hcompiled.add hplaced).tidy
  refine ⟨(hcompiled.wellFormed.add hplaced).1, fun id symbol hsymbol hsort hnew => ?_,
    fun id hdeclares => ?_, fun r htypes scope node elements type hmeans => ?_⟩
  · exact hcompiled.interfaces_hasMembers hplaced hsymbol hsort hnew
  · exact hcompiled.hasDeclaredType hplaced hdeclares
  · exact htidy.literal_hasMembers htypes hmeans

/-- The methods after a property of the same name are one method, and a later property takes the
place of an earlier one. -/
example :
    let file := (SourceFile.parse "test.d.ts"
      "interface A \x7b f: string; a: number; f(): number \x7d
       interface A \x7b f(x: string): number; a: string \x7d").tree
    let program := (Program.empty.add file).2
    (program.properties (program.symbol ⟨1⟩).type).map (fun id => ((program.symbol id).name,
      (program.symbol id).sort, (program.signatures (program.symbol id).type).length)) =
        [("f", .method, 2), ("a", .property, 0)] := by
  decide +kernel

end Program

end ExpressionTyping
