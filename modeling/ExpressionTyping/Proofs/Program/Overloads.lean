import ExpressionTyping.Proofs.Program.Scoping

/-!
# Functions that are declared again

Declarations of one function add to each other. So a name that the scope of a file has from
functions only keeps one symbol while the file is bound, and that symbol is handed on with one
declaration after the other, in the order of the text (`Bind.Gathers`). Variables of the name would
take it first or be taken for a second declaration: those at the top of the file, and `var`
variables wherever they stand. What blocks declare otherwise goes into scopes of their own.

When the file is resolved, the symbol has a type with one signature for each of these functions, and
each signature is what the declaration says (`Program.Compiled.overloads`).
-/

set_option autoImplicit false

namespace ExpressionTyping

/-! ## What the scope of a file gets from statements -/

/-- The names of variables that are declared together; a missing name declares nothing. -/
def declaredNames (list : List VariableDeclaration) : List String :=
  (list.filter fun declaration => !declaration.name.isMissing).map fun declaration =>
    declaration.name.text

mutual

/-- The names of the `var` variables of a statement, wherever they stand in it. -/
def Statement.hoistedNames : Statement → List String
  | .variableList list => if list.form = .hoisted then declaredNames list.declarations else []
  | .block _ body => hoistedNamesOf body
  | _ => []

/-- The names of the `var` variables of statements. -/
def hoistedNamesOf : List Statement → List String
  | [] => []
  | first :: rest => first.hoistedNames ++ hoistedNamesOf rest

end

/-- The names of the variables that a statement of a file declares in the scope of the file. -/
def Statement.fileVariables : Statement → List String
  | .variableList list => declaredNames list.declarations
  | statement => statement.hoistedNames

/-- The `var` variables of a statement are among the variables it declares in the scope of the
file. -/
theorem Statement.hoistedNames_subset (statement : Statement) :
    statement.hoistedNames ⊆ statement.fileVariables := by
  cases statement with
  | variableList list =>
    rw [Statement.hoistedNames]
    split
    · exact List.Subset.refl _
    · exact List.nil_subset _
  | _ => exact List.Subset.refl _

/-- The names of the variables that the statements of a file declare in the scope of the file. -/
def fileVariablesOf (list : List Statement) : List String :=
  list.flatMap Statement.fileVariables

/-- The function of a name that a statement of a file declares in the scope of the file, if it is
one. -/
def Statement.overloads (name : String) : Statement → List FunctionDeclaration
  | .function declaration =>
    if ¬declaration.name.isMissing ∧ declaration.name.text = name then [declaration] else []
  | _ => []

/-- The functions of a name that the statements of a file declare in the scope of the file, in
order. -/
def overloadsOf (name : String) (list : List Statement) : List FunctionDeclaration :=
  list.flatMap (Statement.overloads name)

/-- What a function is handed on as by binding. -/
def FunctionDeclaration.made (scope : ScopeId) (declaration : FunctionDeclaration) : Declaration :=
  .function scope declaration.parameters declaration.result

/-! ## Declarations of one symbol -/

namespace Resolve

/-- A symbol has the declarations handed on first and then the later ones. -/
theorem declarationsOf_append (bound more : List Bound) (id : SymbolId) :
    (pendingOf (bound ++ more)).declarationsOf id =
      (pendingOf bound).declarationsOf id ++ (pendingOf more).declarationsOf id := by
  unfold pendingOf Pending.declarationsOf
  rw [List.filterMap_append, List.filter_append, List.map_append]

/-- A symbol has a declaration exactly when it was handed on under it. -/
theorem mem_pendingOf {bound : List Bound} {id : SymbolId} {made : Declaration} :
    (id, made) ∈ pendingOf bound ↔ Bound.declaration id made ∈ bound := by
  unfold pendingOf
  rw [List.mem_filterMap]
  constructor
  · rintro ⟨b, hb, heq⟩
    cases b with
    | declaration => cases heq; exact hb
    | assignment => cases heq
  · exact fun hmem => ⟨_, hmem, rfl⟩

/-- A symbol under which nothing is handed on has no declarations. -/
theorem declarationsOf_eq_nil {bound : List Bound} {id : SymbolId}
    (h : ∀ made, Bound.declaration id made ∉ bound) : (pendingOf bound).declarationsOf id = [] := by
  rw [List.eq_nil_iff_forall_not_mem]
  intro made hmade
  exact h made (mem_pendingOf.mp (Pending.mem_of_mem_declarationsOf hmade))

/-- If nothing is declared, nothing is handed on under a symbol. -/
theorem not_mem_of_pendingOf {bound : List Bound} (h : pendingOf bound = []) (id : SymbolId)
    (made : Declaration) : Bound.declaration id made ∉ bound := by
  rw [← mem_pendingOf, h]
  exact List.not_mem_nil

/-- An assignment declares nothing. -/
theorem pendingOf_assignment (site : Site) (node : Node) (value : Expr) :
    pendingOf (Bind.assignment site node value) = [] := by
  unfold Bind.assignment
  split <;> rfl

/-- A symbol that is handed on once has one declaration. -/
theorem declarationsOf_single (id : SymbolId) (made : Declaration) :
    (pendingOf [.declaration id made]).declarationsOf id = [made] := by
  simp [pendingOf, Pending.declarationsOf]

end Resolve

namespace Bind

variable {scope : ScopeId} {name : String} {s after : Program} {bound more : List Bound}
  {made : List Declaration}

/-- While a file is bound, a value of its scope is not declared yet, or it is a function that was
handed on with declarations. -/
structure Gathers (scope : ScopeId) (name : String) (s : Program) (bound : List Bound)
    (made : List Declaration) : Prop where
  sorted : s.Sorted
  hasScope : s.HasScope scope
  kinds : Kinds s bound
  missing : (s.scope scope).get? (.value name) = none → made = []
  found : ∀ id, (s.scope scope).get? (.value name) = some id →
    (s.symbol id).sort = .function ∧ (Resolve.pendingOf bound).declarationsOf id = made

namespace Gathers

variable (h : Gathers scope name s bound made)
include h

/-- Nothing changes if the name leads where it led and its symbol is not declared again. -/
theorem keep {file : FileId} {opened : List BlockScope} (hbinds : s.Binds file after opened)
    (hkinds : Kinds after more)
    (hsame : (after.scope scope).get? (.value name) = (s.scope scope).get? (.value name))
    (hother : ∀ id, (s.scope scope).get? (.value name) = some id →
      ∀ made, Bound.declaration id made ∉ more) :
    Gathers scope name after (bound ++ more) made where
  sorted := hbinds.sorted h.sorted
  hasScope := hbinds.hasScope h.hasScope
  kinds := (h.kinds.mono hbinds.symbols).append hkinds
  missing hnone := h.missing (hsame ▸ hnone)
  found id hid := by
    rw [hsame] at hid
    obtain ⟨hsort, hdeclarations⟩ := h.found id hid
    obtain ⟨symbol, hsymbol, -⟩ := h.sorted.named hid
    obtain ⟨later, hlater, hgrows⟩ := hbinds.symbols _ _ hsymbol
    obtain ⟨-, rfl⟩ := Program.HasSymbol.of_symbol? hsymbol
    obtain ⟨-, rfl⟩ := Program.HasSymbol.of_symbol? hlater
    refine ⟨hgrows.sort.trans hsort, ?_⟩
    rw [Resolve.declarationsOf_append, hdeclarations,
      Resolve.declarationsOf_eq_nil (hother id hid), List.append_nil]

variable {target : ScopeId} {key : Key} {sort : SymbolSort} {id : SymbolId} {middle : Program}
  (site : Site) (declared : Identifier) (number : Nat)

/-- Another name, or the name in another scope, is declared. -/
theorem declare_other (hprepares : Prepares s target key sort id middle)
    (hsort : sort.isType = key.isType) {d : Declaration} (hmade : d.isOf sort = true)
    (hne : target = scope → key ≠ .value name) :
    Gathers scope name (recorded site id declared number middle) (bound ++ [.declaration id d])
      made := by
  refine h.keep (hprepares.recorded_binds hsort (Declaration.ne_method hmade) site declared number)
    (hprepares.recorded_kinds h.sorted d hmade site declared number) ?_ ?_
  · show (middle.scope scope).get? (.value name) = _
    rcases hprepares.scope_cases scope with heq | ⟨rfl, -, -, -, heq⟩
    · rw [heq]
    · rw [heq, Scope.get?_insert, if_neg (hne rfl).symm]
  · -- the symbol that is declared is not the one that the name has
    rintro id' hid' d' hmem
    cases List.mem_singleton.mp hmem
    cases hprepares with
    | merged hfound hmerges =>
      exact hne (h.sorted.apart hfound hid') (h.sorted.key_eq hfound hid')
    | taken | added => exact h.sorted.get?_ne_new _ _ hid'

/-- The name is declared as a function. -/
theorem declare_function (hprepares : Prepares s scope (.value name) .function id middle)
    {d : Declaration} (hmade : d.isOf .function = true) :
    Gathers scope name (recorded site id declared number middle) (bound ++ [.declaration id d])
      (made ++ [d]) := by
  have hbinds := hprepares.recorded_binds rfl nofun site declared number
  have hkinds := hprepares.recorded_kinds h.sorted d hmade site declared number
  have htaken (other : SymbolId) (hfound : (s.scope scope).get? (.value name) = some other)
      (hmerges : ¬(s.symbol other).sort.merges .function = true) : False := by
    rw [(h.found _ hfound).1] at hmerges
    exact hmerges rfl
  have hled := (hprepares.leads h.hasScope).resolve_right
    fun ⟨_, other, hfound, hmerges⟩ => htaken other hfound hmerges
  have hbefore : (Resolve.pendingOf bound).declarationsOf id = made := by
    cases hprepares with
    | merged hfound => exact (h.found id hfound).2
    | taken hfound hmerges => exact (htaken _ hfound hmerges).elim
    | added hmissing =>
      rw [h.missing hmissing]
      exact Resolve.declarationsOf_eq_nil h.kinds.not_mem_new
  obtain ⟨symbol, hsymbol, -, hsort⟩ := hprepares.symbol h.sorted
  obtain ⟨later, hlater, hgrows⟩ :=
    (Bind.recorded_binds site id declared number middle).symbols _ _ hsymbol
  obtain ⟨-, rfl⟩ := Program.HasSymbol.of_symbol? hlater
  refine ⟨hbinds.sorted h.sorted, hbinds.hasScope h.hasScope,
    (h.kinds.mono hbinds.symbols).append hkinds, fun hnone => ?_, fun id' hid' => ?_⟩
  · cases hled.symm.trans hnone
  · cases hled.symm.trans hid'
    refine ⟨hgrows.sort.trans hsort, ?_⟩
    rw [Resolve.declarationsOf_append, hbefore, Resolve.declarationsOf_single]

end Gathers

/-! ## Statements -/

section Statements

variable (h : Gathers scope name s bound made)
include h

/-- Nothing is bound. -/
theorem Gathers.nothing (hmore : Resolve.pendingOf more = []) :
    Gathers scope name s (bound ++ more) made := by
  have hnone := Resolve.not_mem_of_pendingOf hmore
  have hsame : s.Binds ⟨0⟩ s [] := .refl _ s
  exact h.keep hsame (fun id d hmem => absurd hmem (hnone id d)) rfl fun id _ d => hnone id d

/-- Variables of other names leave a function of the scope of the file as it is gathered. -/
theorem variableList_gathers (site : Site) (form : VariableForm) (list : List VariableDeclaration)
    (hname : (variableTarget site form).1 = scope → name ∉ declaredNames list) :
    let run := (variableList site form list).run s
    Gathers scope name run.2 (bound ++ run.1) made := by
  induction list generalizing s bound with
  | nil => exact h.nothing rfl
  | cons declaration rest ih =>
    by_cases hmissing : declaration.name.isMissing = true
    · rw [variableList_run_of_missing site form hmissing]
      refine ih h fun htarget hmem => hname htarget ?_
      simpa [declaredNames, hmissing] using hmem
    · obtain ⟨id, middle, hprepares, hdeclared⟩ := declareValue_prepares site
        (variableTarget site form).1 declaration.name (variableTarget site form).2
        declaration.node.id s
      rw [variableList_cons_run site form rest hmissing hdeclared]
      have hnames : declaredNames (declaration :: rest) =
          declaration.name.text :: declaredNames rest := by
        simp [declaredNames, hmissing]
      rw [hnames] at hname
      have hfirst := h.declare_other site declaration.name declaration.node.id hprepares
        (isType_variableTarget site form)
        (isOf_variableTarget site form site.scope declaration.type? declaration.initializer)
        fun htarget hkey => hname htarget (Key.value.inj hkey ▸ List.mem_cons_self)
      have hrest := ih hfirst fun htarget hmem => hname htarget (List.mem_cons_of_mem _ hmem)
      simp only [List.append_assoc] at hrest
      exact hrest

/-- Types leave a function of the scope of the file as it is gathered. -/
theorem handOnType_gathers (site : Site) (declared : Identifier) {sort : SymbolSort} (number : Nat)
    (d : Declaration) (hsort : sort.isType = true) (hmade : d.isOf sort = true) :
    let run := (handOnType site declared sort number d).run s
    Gathers scope name run.2 (bound ++ run.1) made := by
  rcases handOnType_run site declared sort number d s with ⟨_, issues, -, -, hrun⟩ |
    ⟨id, middle, hprepares, hrun⟩
  · rw [hrun]
    exact h.keep (.issues site.file s issues) nofun rfl fun _ _ _ => List.not_mem_nil
  · rw [hrun]
    exact h.declare_other site declared number hprepares hsort hmade
      fun _ => nofun

/-- A function of another name, or one that is declared in a block, has a symbol of its own. -/
theorem otherFunction_gathers (site : Site) (declaration : FunctionDeclaration)
    (hother : site.scope = scope → Statement.overloads name (.function declaration) = []) :
    let run := (Bind.function site declaration).run s
    Gathers scope name run.2 (bound ++ run.1) made := by
  by_cases hmissing : declaration.name.isMissing = true
  · rw [function_run_of_missing site hmissing]
    exact h.nothing rfl
  · obtain ⟨id, middle, hprepares, hdeclared⟩ := declareValue_prepares site site.scope
      declaration.name .function declaration.node.id s
    rw [function_run site hmissing hdeclared]
    refine h.declare_other site declaration.name declaration.node.id hprepares rfl rfl ?_
    intro hscope hkey
    have hnone := hother hscope
    rw [Statement.overloads, if_pos ⟨hmissing, Key.value.inj hkey⟩] at hnone
    cases hnone

/-- A function of the scope of the file is gathered behind those of its name. -/
theorem function_gathers (site : Site) (declaration : FunctionDeclaration)
    (hscope : site.scope = scope) :
    let run := (Bind.function site declaration).run s
    Gathers scope name run.2 (bound ++ run.1)
      (made ++ (Statement.overloads name (.function declaration)).map (·.made scope)) := by
  by_cases hname : ¬declaration.name.isMissing = true ∧ declaration.name.text = name
  · obtain ⟨hmissing, rfl⟩ := hname
    obtain rfl := hscope
    obtain ⟨id, middle, hprepares, hdeclared⟩ := declareValue_prepares site site.scope
      declaration.name .function declaration.node.id s
    rw [function_run site hmissing hdeclared, Statement.overloads, if_pos ⟨hmissing, rfl⟩]
    exact h.declare_function site declaration.name declaration.node.id hprepares rfl
  · have hnone : Statement.overloads name (.function declaration) = [] := if_neg hname
    rw [hnone, List.map_nil, List.append_nil]
    exact otherFunction_gathers h site declaration fun _ => hnone

end Statements

mutual

/-- A statement hands on nothing for a value of the scope of the file that it does not declare
there: what stands in a block is declared there only if it is a `var` variable. -/
theorem otherStatement_gathers {site : Site} {s : Program} {bound : List Bound}
    (statement : Statement) (h : Gathers scope name s bound made) (hfile : site.fileScope = scope)
    (hhoisted : name ∉ statement.hoistedNames)
    (hother : site.scope = scope → name ∉ statement.fileVariables ∧ statement.overloads name = []) :
    let run := (Bind.statement site statement).run s
    Gathers scope name run.2 (bound ++ run.1) made := by
  cases statement with
  | variableList list =>
    refine variableList_gathers h site list.form list.declarations fun htarget => ?_
    rw [Statement.hoistedNames] at hhoisted
    cases hform : list.form with
    | hoisted => rwa [if_pos hform] at hhoisted
    | block | constant =>
      rw [hform] at htarget
      exact (hother htarget).1
  | function declaration =>
    exact otherFunction_gathers h site declaration fun hscope => (hother hscope).2
  | interface declaration =>
    exact handOnType_gathers h site declaration.name declaration.node.id
      (.interface site.scope declaration.members) rfl rfl
  | typeAlias declaration =>
    exact handOnType_gathers h site declaration.name declaration.node.id
      (.typeAlias site.scope declaration.name.node.span declaration.type) rfl rfl
  | expression node value => exact h.nothing (Resolve.pendingOf_assignment site node value)
  | empty node => exact h.nothing rfl
  | block node body =>
    have hopened : Gathers scope name
        ((Compile.addScope site.file (site.scope :: site.enclosing) node.span).run s).2
        (bound ++ []) made :=
      h.keep (addScope_binds site.file (site.scope :: site.enclosing) node.span s) nofun
        (addScope_get? ..) fun _ _ _ => List.not_mem_nil
    rw [List.append_nil] at hopened
    have hnew : (⟨s.scopes.size⟩ : ScopeId) ≠ scope := by
      rintro rfl
      exact Nat.lt_irrefl _ h.hasScope
    let inner : Site :=
      { site with scope := ⟨s.scopes.size⟩, enclosing := site.scope :: site.enclosing }
    have hinner : inner.fileScope = scope := hfile
    exact innerStatements_gathers body hopened hinner hnew hhoisted

/-- Statements in a block leave a function of the scope of the file as it is gathered, unless they
declare a `var` of its name. -/
theorem innerStatements_gathers {site : Site} {s : Program} {bound : List Bound}
    (list : List Statement) (h : Gathers scope name s bound made) (hfile : site.fileScope = scope)
    (hinner : site.scope ≠ scope) (hhoisted : name ∉ hoistedNamesOf list) :
    let run := (statements site list).run s
    Gathers scope name run.2 (bound ++ run.1) made := by
  cases list with
  | nil => exact h.nothing rfl
  | cons first rest =>
    rw [hoistedNamesOf, List.mem_append, not_or] at hhoisted
    have hfirst := otherStatement_gathers first h hfile hhoisted.1
      fun hscope => absurd hscope hinner
    have hrest := innerStatements_gathers rest hfirst hfile hinner hhoisted.2
    simp only [List.append_assoc] at hrest
    exact hrest

end

/-- Statements of a file hand on the functions of a name that no variable has, in order. -/
theorem statements_gathers {site : Site} (list : List Statement)
    (h : Gathers scope name s bound made) (hfile : site.fileScope = scope)
    (hscope : site.scope = scope) (hname : name ∉ fileVariablesOf list) :
    let run := (statements site list).run s
    Gathers scope name run.2 (bound ++ run.1)
      (made ++ (overloadsOf name list).map (·.made scope)) := by
  induction list generalizing s bound made with
  | nil =>
    rw [overloadsOf, List.flatMap_nil, List.map_nil, List.append_nil]
    exact h.nothing rfl
  | cons first rest ih =>
    rw [fileVariablesOf, List.flatMap_cons, List.mem_append, not_or] at hname
    obtain ⟨hvariables, hname⟩ := hname
    have hhoisted := fun hmem => hvariables (first.hoistedNames_subset hmem)
    have hfirst : Gathers scope name ((Bind.statement site first).run s).2
        (bound ++ ((Bind.statement site first).run s).1)
        (made ++ (first.overloads name).map (·.made scope)) := by
      cases first with
      | function declaration => exact function_gathers h site declaration hscope
      | variableList | interface | typeAlias | block | expression | empty =>
        simp only [Statement.overloads, List.map_nil, List.append_nil]
        exact otherStatement_gathers _ h hfile hhoisted fun _ => ⟨hvariables, rfl⟩
    have hrest := ih hfirst hname
    rw [overloadsOf, List.flatMap_cons, List.map_append]
    simp only [List.append_assoc] at hrest ⊢
    exact hrest

end Bind

/-! ## Compiled files -/

/-- What is known while a file is resolved, when nothing is left to resolve, is what its program
knows. -/
theorem ResolveState.reading_extends (file : FileId) (pending : Pending) (s : ResolveState) :
    (s.reading file pending []).Extends (s.program.reading file) where
  file := rfl
  types := .refl TypeData.Endures.refl _
  symbols := fun _ _ _ h => h.2
  names scope name id hname := by
    simp only [ResolveState.reading, ResolveState.readingWith, List.not_mem_nil, false_and,
      false_or] at hname
    simp only [Program.reading]
    split at hname
    · rwa [if_pos ‹_›]
    · rw [if_neg ‹_›]
      split at hname
      · exact hname.2
      · exact hname

/-- Functions of a scope are signed one by one. -/
theorem Declarations.Sign.forall₂ {r : Reading} {scope : ScopeId}
    {declarations : List FunctionDeclaration} {signatures : List Signature}
    (h : Declarations.Sign r (declarations.map (·.made scope)) signatures) :
    List.Forall₂ (fun declaration signature => signature.Means r scope declaration.parameters
      declaration.result) declarations signatures := by
  induction declarations generalizing signatures with
  | nil =>
    cases h
    exact .nil
  | cons declaration rest ih =>
    cases h with
    | function hfirst hrest => exact .cons hfirst (ih hrest)
    | other hother => cases hother

namespace Program

variable {program : Program} {file : SourceFile} {text : List Char} {name : String}

/-- Binding a file hands on the functions of a name that no variable of the file has. -/
theorem Sorted.boundIn_gathers (h : program.Sorted)
    (hname : name ∉ fileVariablesOf file.statements) :
    Bind.Gathers ⟨program.scopes.size⟩ name (program.boundIn file).2 (program.boundIn file).1.2
      ((overloadsOf name file.statements).map (·.made ⟨program.scopes.size⟩)) := by
  let opened := (Compile.addScope ⟨program.files.size⟩ [] ⟨0, file.node.span.stop⟩).run
    (program.withFile file)
  have hopened := Bind.addScope_binds ⟨program.files.size⟩ [] ⟨0, file.node.span.stop⟩
    (program.withFile file)
  have hempty (key : Key) : (opened.2.scope ⟨program.scopes.size⟩).get? key = none := by
    have hnew : (program.withFile file).scope ⟨program.scopes.size⟩ = default :=
      scope_of_le (Nat.le_refl program.scopes.size)
    rw [Bind.addScope_get?, hnew, get?_default]
  have hstart : Bind.Gathers ⟨program.scopes.size⟩ name opened.2 [] [] :=
    { sorted := hopened.sorted (h.withFile file)
      hasScope := by
        show _ < opened.2.scopes.size
        rw [hopened.size]
        exact Nat.lt_succ_self _
      kinds := nofun
      missing := fun _ => rfl
      found := fun id hid => by
        rw [hempty] at hid
        cases hid }
  let site : Site :=
    ⟨⟨program.files.size⟩, ⟨program.scopes.size⟩, ⟨program.scopes.size⟩, []⟩
  have hsite : site.fileScope = ⟨program.scopes.size⟩ := rfl
  exact Bind.statements_gathers file.statements hstart hsite rfl hname

/-- A name that the scope of a compiled file has from functions only stands for a value with one
signature for each of them, in order, and each signature is what its function is declared with. -/
theorem Compiled.overloads (h : program.Compiled)
    (hplaced : ∀ statement ∈ file.statements, statement.Placed text)
    (hname : name ∉ fileVariablesOf file.statements)
    (hne : overloadsOf name file.statements ≠ []) :
    let added := (program.add file).2
    ∃ id signatures, (added.scope ⟨program.scopes.size⟩).values.get? name = some id ∧
      added.HasSymbol id ∧
      added.types.get (added.symbol id).type = .object none .empty signatures ∧
      List.Forall₂ (fun declaration signature =>
          signature.Means (added.reading ⟨program.files.size⟩) ⟨program.scopes.size⟩
            declaration.parameters declaration.result)
        (overloadsOf name file.statements) signatures := by
  intro added
  have hgathers := h.sorted.boundIn_gathers hname
  obtain ⟨hgoesOn, -, hresolved⟩ := h.resolvedIn hplaced
  obtain ⟨id, hid⟩ : ∃ id, ((program.boundIn file).2.scope ⟨program.scopes.size⟩).get?
      (.value name) = some id := by
    refine Option.ne_none_iff_exists'.mp fun hnone => hne ?_
    exact List.map_eq_nil_iff.mp (hgathers.missing hnone)
  obtain ⟨hsort, hdeclarations⟩ := hgathers.found id hid
  obtain ⟨symbol, hsymbol, -⟩ := hgathers.sorted.named hid
  have hhas := (HasSymbol.of_symbol? hsymbol).1
  obtain ⟨first, rest, hcons⟩ := List.exists_cons_of_ne_nil hne
  rw [hcons, List.map_cons] at hdeclarations
  have hdeclares := Pending.mem_of_declarationsOf hdeclarations
  have hvalue : (added.symbol id).sort.isType = false := by
    have hkept : (added.symbol id).sort = ((program.boundIn file).2.symbol id).sort :=
      (hgoesOn.symbol hhas).sort
    rw [hkept, hsort]
    rfl
  have hsigned := (hresolved id ⟨_, hdeclares⟩).resolve_left fun htype =>
    Bool.false_ne_true (hvalue.symm.trans htype)
  obtain ⟨signatures, hget, hsign⟩ := hsigned.2 _ _ hdeclarations rfl
  have hfound : (added.scope ⟨program.scopes.size⟩).values.get? name = some id := by
    have hkept : (added.scope ⟨program.scopes.size⟩).values =
        ((program.boundIn file).2.scope ⟨program.scopes.size⟩).values :=
      (hgoesOn.scope ⟨program.scopes.size⟩).values
    rw [hkept]
    exact hid
  refine ⟨id, signatures, hfound, hsigned.1, hget, ?_⟩
  rw [hcons]
  refine Declarations.Sign.forall₂ (hsign.mono ?_)
  exact ResolveState.reading_extends _ _ (program.resolvedIn file)

end Program

end ExpressionTyping
