import ExpressionTyping.Proofs.Program.Overloads

/-!
# What binding hands on

What is met when a file is visited stands in the scope of the file or in that of a block, and the
scopes have numbers in the order in which the blocks start; so where everything stands is known
before a name is bound (`Program.placedVisits`).

Every declaration that has a name is handed on in its scope, under a symbol of its name and of its
sort, unless it is a type and its name is taken there by a declaration that it does not add to: then
it is reported and gets no symbol (`Handling.Fits`). Nothing else is reported while names are bound
(`Program.boundIn_hands`).

Declarations of most sorts do not add to each other, so a constant or an alias is the only
declaration of its symbol (`Program.Compiled.declarationsOf_eq`).
-/

set_option autoImplicit false

namespace ExpressionTyping

/-! ## Where declarations stand -/

/-- The place inside a block, whose scope is new. -/
def Site.inside (site : Site) (scope : ScopeId) : Site :=
  { site with scope, enclosing := site.scope :: site.enclosing }

mutual

/-- What is met in a statement and where, when the statement stands at a place and the next scope has
a given number. -/
def Statement.placedVisits (site : Site) (next : Nat) : Statement → List (Site × Visit)
  | .variableList statement =>
    statement.declarations.map fun declaration => (site, .variableDecl statement declaration)
  | .function declaration => [(site, .function declaration)]
  | .interface declaration => [(site, .interface declaration)]
  | .typeAlias declaration => [(site, .typeAlias declaration)]
  | .block _ body => placedVisitsOf (site.inside ⟨next⟩) (next + 1) body
  | .expression node value => [(site, .expression node value)]
  | .empty _ => []

/-- What is met in statements and where, in order. -/
def placedVisitsOf (site : Site) (next : Nat) : List Statement → List (Site × Visit)
  | [] => []
  | first :: rest =>
    first.placedVisits site next ++
      placedVisitsOf site
        (next + (first.blocks (site.scope :: site.enclosing) next).length) rest

end

/-- Where a file starts in a program, whose next file and next scope it is. -/
def Program.nextSite (program : Program) : Site :=
  ⟨⟨program.files.size⟩, ⟨program.scopes.size⟩, ⟨program.scopes.size⟩, []⟩

/-- What is met in a file and where, in a program whose next file it is. -/
def Program.placedVisits (program : Program) (file : SourceFile) : List (Site × Visit) :=
  placedVisitsOf program.nextSite (program.scopes.size + 1) file.statements

mutual

/-- What is met in a statement is what a visitor meets there. -/
theorem Statement.placedVisits_visits (site : Site) (next : Nat) : (statement : Statement) →
    (statement.placedVisits site next).map Prod.snd = statement.visits
  | .variableList statement => by
    rw [Statement.placedVisits, Statement.visits, List.map_map]
    rfl
  | .function _ | .interface _ | .typeAlias _ | .expression _ _ | .empty _ => rfl
  | .block _ body => placedVisitsOf_visits (site.inside ⟨next⟩) (next + 1) body

/-- What is met in statements is what a visitor meets there, in the same order. -/
theorem placedVisitsOf_visits (site : Site) (next : Nat) : (statements : List Statement) →
    (placedVisitsOf site next statements).map Prod.snd = visitAll statements
  | [] => rfl
  | first :: rest => by
    rw [placedVisitsOf, visitAll, List.map_append, Statement.placedVisits_visits,
      placedVisitsOf_visits]

end

mutual

/-- Where something is met in a statement, the scope is that of the place of the statement or of a
block that the statement opens. -/
theorem Statement.site_of_placedVisits (site : Site) (next : Nat) : (statement : Statement) →
    ∀ met ∈ statement.placedVisits site next, met.1 = site ∨
      ∃ block ∈ statement.blocks (site.scope :: site.enclosing) next,
        block.id = met.1.scope ∧ block.enclosing = met.1.enclosing
  | .variableList statement, _, hmet => by
    obtain ⟨_, -, rfl⟩ := List.mem_map.mp hmet
    exact .inl rfl
  | .function _, _, hmet | .interface _, _, hmet | .typeAlias _, _, hmet
  | .expression _ _, _, hmet => by
    obtain rfl := List.mem_singleton.mp hmet
    exact .inl rfl
  | .empty _, _, hmet => absurd hmet List.not_mem_nil
  | .block _ body, met, hmet => by
    rcases site_of_placedVisitsOf (site.inside ⟨next⟩) (next + 1) body met hmet with
      heq | ⟨block, hblock, hid⟩
    · exact .inr ⟨_, List.mem_cons_self, heq ▸ ⟨rfl, rfl⟩⟩
    · exact .inr ⟨block, List.mem_cons_of_mem _ hblock, hid⟩

/-- Where something is met in statements, the scope is that of their place or of a block that they
open. -/
theorem site_of_placedVisitsOf (site : Site) (next : Nat) : (statements : List Statement) →
    ∀ met ∈ placedVisitsOf site next statements, met.1 = site ∨
      ∃ block ∈ blocksOf (site.scope :: site.enclosing) next statements,
        block.id = met.1.scope ∧ block.enclosing = met.1.enclosing
  | [], _, hmet => absurd hmet List.not_mem_nil
  | first :: rest, met, hmet => by
    rw [blocksOf]
    rcases List.mem_append.mp hmet with hmet | hmet
    · refine (Statement.site_of_placedVisits site next first met hmet).imp_right ?_
      rintro ⟨block, hblock, hid⟩
      exact ⟨block, List.mem_append_left _ hblock, hid⟩
    · refine (site_of_placedVisitsOf site _ rest met hmet).imp_right ?_
      rintro ⟨block, hblock, hid⟩
      exact ⟨block, List.mem_append_right _ hblock, hid⟩

end

/-! ## What comes of a visit -/

namespace Visit

/-- The name that a declaration declares. -/
def name? : Visit → Option Identifier
  | .variableDecl _ declaration => some declaration.name
  | .function declaration => some declaration.name
  | .interface declaration => some declaration.name
  | .typeAlias declaration => some declaration.name
  | .expression _ _ => none

/-- What a declaration is handed on as when it stands in a scope. -/
def made? (scope : ScopeId) : Visit → Option Declaration
  | .variableDecl statement declaration =>
    some (.variableDecl scope (statement.form = .constant) declaration.type?
      declaration.initializer)
  | .function declaration => some (.function scope declaration.parameters declaration.result)
  | .interface declaration => some (.interface scope declaration.members)
  | .typeAlias declaration => some (.typeAlias scope declaration.name.node.span declaration.type)
  | .expression _ _ => none

end Visit

/-- The report of a name that is declared a second time. -/
def Identifier.taken (file : String) (name : Identifier) : FileIssue :=
  ⟨file, ⟨name.node.span, .duplicateName name.text⟩⟩

/-- What comes of something that is met when names are bound: what is handed on, and what is
reported. -/
structure Handling where
  /-- Where it is met. -/
  site : Site
  /-- What is met. -/
  visit : Visit
  /-- What is handed on. -/
  bound : List Bound
  /-- What is reported. -/
  issues : List FileIssue

/-- What is met, and where. -/
def Handling.met (handling : Handling) : Site × Visit :=
  (handling.site, handling.visit)

/-- A declaration is handed on in its scope under a symbol of its name and sort, and may be reported
as a second one; or it is a type that is only reported, and its name leads in its scope to a type of
a sort that it does not add to; or it has no name. -/
inductive Handling.Fits (file : String) (program : Program) : Handling → Prop where
  | declared {site : Site} {visit : Visit} {name : Identifier} {id : SymbolId}
      {made : Declaration} {symbol : Symbol} {issues : List FileIssue}
      (hname : visit.name? = some name) (hmade : visit.made? site.scope = some made)
      (hsymbol : program.symbol? id = some symbol)
      (hdeclares : visit.declares? = some (symbol.name, symbol.sort))
      (hissues : issues = [] ∨ issues = [name.taken file]) :
      Handling.Fits file program ⟨site, visit, [.declaration id made], issues⟩
  | refused {site : Site} {visit : Visit} {name : Identifier} {sort : SymbolSort} {id : SymbolId}
      {symbol : Symbol} (hname : visit.name? = some name)
      (hdeclares : visit.declares? = some (name.text, sort)) (htype : sort.isType = true)
      (hfound : (program.scope site.scope).get? (.type name.text) = some id)
      (hsymbol : program.symbol? id = some symbol) (hmerges : ¬symbol.sort.merges sort = true) :
      Handling.Fits file program ⟨site, visit, [], [name.taken file]⟩
  | nameless {site : Site} {visit : Visit} {name : Identifier} (hname : visit.name? = some name)
      (hmissing : name.isMissing = true) : Handling.Fits file program ⟨site, visit, [], []⟩
  | expression {site : Site} {node : Node} {value : Expr} :
      Handling.Fits file program
        ⟨site, .expression node value, Bind.assignment site node value, []⟩

/-- What comes of a visit is the same in a program in which symbols keep their names and sorts and
names lead where they did. -/
theorem Handling.Fits.mono {file : String} {before after : Program} {handling : Handling}
    (h : handling.Fits file before)
    (hsymbols : Continues Symbol.Grows before.symbols after.symbols)
    (hfound : ∀ {scope : ScopeId} {key : Key} {id : SymbolId},
      (before.scope scope).get? key = some id → (after.scope scope).get? key = some id) :
    handling.Fits file after := by
  cases h with
  | declared hname hmade hsymbol hdeclares hissues =>
    obtain ⟨later, hlater, hgrows⟩ := hsymbols _ _ hsymbol
    refine .declared hname hmade hlater ?_ hissues
    rw [hgrows.name, hgrows.sort]
    exact hdeclares
  | refused hname hdeclares htype hkey hsymbol hmerges =>
    obtain ⟨later, hlater, hgrows⟩ := hsymbols _ _ hsymbol
    exact .refused hname hdeclares htype (hfound hkey) hlater (hgrows.sort ▸ hmerges)
  | nameless hname hmissing => exact .nameless hname hmissing
  | expression => exact .expression

/-- A declaration that is handed on is that of the visit, under a symbol of its name and sort. -/
theorem Handling.Fits.of_mem {file : String} {program : Program} {handling : Handling}
    (h : handling.Fits file program) {id : SymbolId} {made : Declaration}
    (hmem : .declaration id made ∈ handling.bound) :
    ∃ symbol, handling.visit.made? handling.site.scope = some made ∧
      program.symbol? id = some symbol ∧
      handling.visit.declares? = some (symbol.name, symbol.sort) := by
  cases h with
  | declared _ hmade hsymbol hdeclares =>
    cases List.mem_singleton.mp hmem
    exact ⟨_, hmade, hsymbol, hdeclares⟩
  | refused | nameless => cases hmem
  | expression =>
    unfold Bind.assignment at hmem
    split at hmem
    · cases List.mem_singleton.mp hmem
    · cases hmem

/-- A file keeps its name when what else is known of it changes. -/
theorem Program.fileName_modify {before after : Program} (id : FileId) (f : FileInfo → FileInfo)
    (hfiles : after.files = before.files.modify id.index f) (hf : ∀ info, (f info).name = info.name)
    (file : FileId) : after.fileName file = before.fileName file := by
  unfold fileName
  rw [hfiles, Array.getElem?_modify]
  split
  · cases before.files[file.index]? with
    | none => rfl
    | some info => exact hf info
  · rfl

/-- What binding names does over some visits, visit by visit. -/
structure Bind.Hands (file : FileId) (before after : Program) (met : List (Site × Visit))
    (bound : List Bound) : Prop where
  fileName : after.fileName file = before.fileName file
  handlings : ∃ handlings : List Handling, handlings.map Handling.met = met ∧
    handlings.flatMap Handling.bound = bound ∧
    after.issues = before.issues ++ handlings.flatMap Handling.issues ∧
    (before.Sorted → ∀ handling ∈ handlings, handling.Fits (before.fileName file) after)

namespace Bind

variable {file : FileId} {before after later : Program}

/-- No visit. -/
theorem Hands.refl (file : FileId) (program : Program) : Hands file program program [] [] :=
  ⟨rfl, [], rfl, rfl, (List.append_nil _).symm, fun _ => nofun⟩

/-- One visit. -/
theorem Hands.single (handling : Handling) (hname : after.fileName file = before.fileName file)
    (hissues : after.issues = before.issues ++ handling.issues)
    (hfits : before.Sorted → handling.Fits (before.fileName file) after) :
    Hands file before after [handling.met] handling.bound :=
  ⟨hname, [handling], rfl, List.append_nil _, by simpa using hissues,
    fun hs => List.forall_mem_singleton.mpr (hfits hs)⟩

/-- Some visits after others. -/
theorem Hands.trans {met met' : List (Site × Visit)} {bound bound' : List Bound}
    {opened opened' : List BlockScope}
    (h : Hands file before after met bound) (h' : Hands file after later met' bound')
    (hbinds : before.Binds file after opened) (hbinds' : after.Binds file later opened') :
    Hands file before later (met ++ met') (bound ++ bound') := by
  obtain ⟨hname, handlings, rfl, rfl, hissues, hfits⟩ := h
  obtain ⟨hname', handlings', rfl, rfl, hissues', hfits'⟩ := h'
  refine ⟨hname'.trans hname, handlings ++ handlings', List.map_append, List.flatMap_append, ?_,
    fun hs handling hmem => ?_⟩
  · rw [hissues', hissues, List.flatMap_append, List.append_assoc]
  · rcases List.mem_append.mp hmem with hmem | hmem
    · exact (hfits hs handling hmem).mono hbinds'.symbols hbinds'.found
    · rw [← hname]
      exact hfits' (hbinds.sorted hs) handling hmem

/-! ## Declaring one name -/

variable {s : Program} {site : Site}

/-- A declaration that is recorded does not change the names of files. -/
theorem recorded_fileName (site : Site) (id : SymbolId) (name : Identifier) (number : Nat)
    (s : Program) (file : FileId) :
    (recorded site id name number s).fileName file = s.fileName file :=
  Program.fileName_modify site.file
    (fun info => { info with declarations := (number, id) :: info.declarations }) rfl
    (fun _ => rfl) file

/-- A scope that is opened does not change the names of files. -/
theorem addScope_fileName (opened : FileId) (enclosing : List ScopeId) (span : Span) (s : Program)
    (file : FileId) :
    ((Compile.addScope opened enclosing span).run s).2.fileName file = s.fileName file :=
  Program.fileName_modify opened
    (fun info => { info with scopes := info.scopes ++ [⟨s.scopes.size⟩] }) rfl (fun _ => rfl) file

/-- To find a symbol for a declaration does not change the names of files. -/
theorem Prepares.fileName {target : ScopeId} {key : Key} {sort : SymbolSort} {id : SymbolId}
    {middle : Program} (h : Prepares s target key sort id middle) (file : FileId) :
    middle.fileName file = s.fileName file := by
  cases h <;> rfl

/-- A declaration is recorded for a symbol of its name and sort. -/
theorem Prepares.recorded_symbol {target : ScopeId} {key : Key} {sort : SymbolSort} {id : SymbolId}
    {middle : Program} (h : Prepares s target key sort id middle) (hs : s.Sorted) (site : Site)
    (name : Identifier) (number : Nat) :
    ∃ symbol, (recorded site id name number middle).symbol? id = some symbol ∧
      symbol.name = key.name ∧ symbol.sort = sort := by
  obtain ⟨symbol, hsymbol, hname, hsort⟩ := h.symbol hs
  obtain ⟨later, hlater, hgrows⟩ :=
    (Bind.recorded_binds site id name number middle).symbols _ _ hsymbol
  exact ⟨later, hlater, hgrows.name.trans hname, hgrows.sort.trans hsort⟩

/-- When a value is declared, at most its name is reported. -/
theorem declareValue_issues (site : Site) (target : ScopeId) (name : Identifier)
    (sort : SymbolSort) (number : Nat) (s : Program) :
    ∃ issues, (issues = [] ∨ issues = [name.taken (s.fileName site.file)]) ∧
      ((declareValue site target name sort number).run s).2.issues = s.issues ++ issues := by
  cases hfound : (s.scope target).values.get? name.text with
  | some existing =>
    by_cases hmerges : (s.symbol existing).sort.merges sort = true
    · rw [declareValue_run_of_merges site hfound hmerges]
      exact ⟨[], .inl rfl, (List.append_nil _).symm⟩
    · rw [declareValue_run_of_taken site hfound hmerges]
      exact ⟨_, .inr rfl, rfl⟩
  | none =>
    rw [declareValue_run_of_new site hfound]
    exact ⟨[], .inl rfl, (List.append_nil _).symm⟩

/-- When a type is declared, it gets a symbol and nothing is reported, or it gets none and its name
is reported. -/
theorem declareType_issues (site : Site) (name : Identifier) (sort : SymbolSort) (number : Nat)
    (s : Program) :
    let declared := (declareType site name sort number).run s
    (∃ id, declared.1 = some id ∧ declared.2.issues = s.issues) ∨
      declared.1 = none ∧ declared.2.fileName site.file = s.fileName site.file ∧
        declared.2.issues = s.issues ++ [name.taken (s.fileName site.file)] := by
  cases hfound : (s.scope site.scope).types.get? name.text with
  | some existing =>
    by_cases hmerges : (s.symbol existing).sort.merges sort = true
    · rw [declareType_run_of_merges hfound hmerges]
      exact .inl ⟨existing, rfl, rfl⟩
    · rw [declareType_run_of_taken hfound hmerges]
      exact .inr ⟨rfl, rfl, rfl⟩
  | none =>
    rw [declareType_run_of_new hfound]
    exact .inl ⟨⟨s.symbols.size⟩, rfl, rfl⟩

/-! ## Statements -/

/-- A value is handed on under the symbol that it declares. -/
theorem declareValue_hands (site : Site) (target : ScopeId) {name : Identifier} {sort : SymbolSort}
    {number : Nat} {visit : Visit} {made : Declaration} {id : SymbolId} {middle : Program}
    (hprepares : Prepares s target (.value name.text) sort id middle)
    (hdeclared : (declareValue site target name sort number).run s =
      (id, recorded site id name number middle))
    (hname : visit.name? = some name) (hmade : visit.made? site.scope = some made)
    (hdeclares : visit.declares? = some (name.text, sort)) :
    Hands site.file s (recorded site id name number middle) [(site, visit)]
      [.declaration id made] := by
  obtain ⟨issues, hcases, hissues⟩ := declareValue_issues site target name sort number s
  rw [hdeclared] at hissues
  refine .single (⟨site, visit, [.declaration id made], issues⟩) ?_ hissues fun hs => ?_
  · exact (recorded_fileName site id name number middle site.file).trans (hprepares.fileName _)
  · obtain ⟨symbol, hsymbol, hsymbolName, rfl⟩ := hprepares.recorded_symbol hs site name number
    refine .declared hname hmade hsymbol ?_ hcases
    rw [hsymbolName]
    exact hdeclares

/-- What binding the variables of a statement hands on, and what it reports. -/
theorem variableList_hands (site : Site) (statement : VariableStatement)
    (list : List VariableDeclaration) (s : Program) :
    Hands site.file s ((variableList site statement.form list).run s).2
      (list.map fun declaration => (site, .variableDecl statement declaration))
      ((variableList site statement.form list).run s).1 := by
  induction list generalizing s with
  | nil => exact .refl _ _
  | cons declaration rest ih =>
    by_cases hmissing : declaration.name.isMissing = true
    · have hfirst : Hands site.file s s [(site, .variableDecl statement declaration)] [] :=
        .single (⟨site, .variableDecl statement declaration, [], []⟩) rfl
          (List.append_nil _).symm fun _ => .nameless rfl hmissing
      rw [variableList_run_of_missing site statement.form hmissing]
      exact hfirst.trans (ih s) (.refl _ _) (variableList_binds site statement.form rest s).1
    · obtain ⟨id, middle, hprepares, hdeclared⟩ := declareValue_prepares site
        (variableTarget site statement.form).1 declaration.name
        (variableTarget site statement.form).2 declaration.node.id s
      rw [variableList_cons_run site statement.form rest hmissing hdeclared]
      have hbinds := hprepares.recorded_binds (isType_variableTarget site statement.form)
        (variableTarget_ne_method site statement.form) site
        declaration.name declaration.node.id
      refine (declareValue_hands site _ hprepares hdeclared rfl rfl ?_).trans (ih _) hbinds
        (variableList_binds site statement.form rest _).1
      rw [variableTarget_sort]
      rfl

/-- What binding a function hands on, and what it reports. -/
theorem function_hands (site : Site) (declaration : FunctionDeclaration) (s : Program) :
    Hands site.file s ((Bind.function site declaration).run s).2 [(site, .function declaration)]
      ((Bind.function site declaration).run s).1 := by
  by_cases hmissing : declaration.name.isMissing = true
  · rw [function_run_of_missing site hmissing]
    exact .single (⟨site, .function declaration, [], []⟩) rfl (List.append_nil _).symm
      fun _ => .nameless rfl hmissing
  · obtain ⟨id, middle, hprepares, hdeclared⟩ := declareValue_prepares site site.scope
      declaration.name .function declaration.node.id s
    rw [function_run site hmissing hdeclared]
    exact declareValue_hands site _ hprepares hdeclared rfl rfl rfl

/-- A type is handed on if it gets a symbol, and is reported if it gets none because its name is
taken in its scope. -/
theorem handOnType_hands (site : Site) {name : Identifier} {sort : SymbolSort} {number : Nat}
    {visit : Visit} {made : Declaration} (hname : visit.name? = some name)
    (htype : sort.isType = true) (hmade : visit.made? site.scope = some made)
    (hdeclares : visit.declares? = some (name.text, sort)) (s : Program) :
    Hands site.file s ((handOnType site name sort number made).run s).2 [(site, visit)]
      ((handOnType site name sort number made).run s).1 := by
  have hissues := declareType_issues site name sort number s
  rw [handOnType_eq]
  rcases declareType_prepares site name sort number s with
    ⟨other, issues, hfound, hmerges, hdeclared⟩ | ⟨id, middle, hprepares, hdeclared⟩
  · rw [hdeclared] at hissues ⊢
    obtain ⟨_, hid, -⟩ | ⟨-, hfile, hreported⟩ := hissues
    · cases hid
    refine .single (⟨site, visit, [], [name.taken (s.fileName site.file)]⟩) hfile hreported
      fun hs => ?_
    obtain ⟨symbol, hsymbol, -, -⟩ := hs.named hfound
    obtain ⟨-, rfl⟩ := Program.HasSymbol.of_symbol? hsymbol
    exact .refused hname hdeclares htype hfound hsymbol hmerges
  · rw [hdeclared] at hissues ⊢
    obtain ⟨_, -, hquiet⟩ | ⟨hnone, -⟩ := hissues
    · refine .single (⟨site, visit, [.declaration id made], []⟩) ?_ ?_ fun hs => ?_
      · exact (recorded_fileName site id name number middle site.file).trans (hprepares.fileName _)
      · exact hquiet.trans (List.append_nil _).symm
      · obtain ⟨symbol, hsymbol, hsymbolName, rfl⟩ := hprepares.recorded_symbol hs site name number
        refine .declared hname hmade hsymbol ?_ (.inl rfl)
        rw [hsymbolName]
        exact hdeclares
    · cases hnone

mutual

/-- What binding a statement hands on, and what it reports. -/
theorem statement_hands (site : Site) (statement : Statement) (s : Program) :
    Hands site.file s ((Bind.statement site statement).run s).2
      (statement.placedVisits site s.scopes.size) ((Bind.statement site statement).run s).1 := by
  cases statement with
  | variableList list => exact variableList_hands site list list.declarations s
  | function declaration => exact function_hands site declaration s
  | interface declaration => exact handOnType_hands site rfl rfl rfl rfl s
  | typeAlias declaration => exact handOnType_hands site rfl rfl rfl rfl s
  | expression node value =>
    exact .single (⟨site, .expression node value, assignment site node value, []⟩) rfl
      (List.append_nil _).symm fun _ => .expression
  | empty node => exact .refl _ _
  | block node body =>
    have hopened := addScope_binds site.file (site.scope :: site.enclosing) node.span s
    have hfirst : Hands site.file s ((Compile.addScope site.file (site.scope :: site.enclosing)
        node.span).run s).2 [] [] :=
      ⟨addScope_fileName site.file _ _ s site.file, [], rfl, rfl, (List.append_nil _).symm,
        fun _ => nofun⟩
    have hbody := statements_hands (site.inside ⟨s.scopes.size⟩) body
      ((Compile.addScope site.file (site.scope :: site.enclosing) node.span).run s).2
    rw [hopened.size] at hbody
    exact hfirst.trans hbody hopened
      (statements_binds (site.inside ⟨s.scopes.size⟩) body _).1

/-- What binding the statements of a file hands on, and what it reports. -/
theorem statements_hands (site : Site) (list : List Statement) (s : Program) :
    Hands site.file s ((statements site list).run s).2 (placedVisitsOf site s.scopes.size list)
      ((statements site list).run s).1 := by
  cases list with
  | nil => exact .refl _ _
  | cons first rest =>
    have hbinds := (statement_binds site first s).1
    have hrest := statements_hands site rest ((Bind.statement site first).run s).2
    rw [hbinds.size] at hrest
    exact (statement_hands site first s).trans hrest hbinds (statements_binds site rest _).1

end

end Bind

/-! ## The declarations of a file -/

/-- A constant is declared once. -/
theorem Declaration.not_merges_of_constant {scope : ScopeId} {type? : Option TypeNode}
    {initializer : Option Expr} {sort : SymbolSort}
    (h : (Declaration.variableDecl scope true type? initializer).isOf sort = true) :
    ¬sort.merges sort = true := by
  cases sort with
  | constant => exact nofun
  | _ => cases h

/-- What a visit declares is of the sort that it declares. -/
theorem Visit.isOf_of_made {visit : Visit} {scope : ScopeId} {made : Declaration} {name : String}
    {sort : SymbolSort} (hmade : visit.made? scope = some made)
    (hdeclares : visit.declares? = some (name, sort)) : made.isOf sort = true := by
  cases visit with
  | variableDecl statement declaration =>
    cases hmade
    cases hdeclares
    show (statement.form.sort.isVariable && _) = true
    cases statement.form <;> rfl
  | function | interface | typeAlias =>
    cases hmade
    cases hdeclares
    rfl
  | expression => cases hmade

namespace Program

variable {program : Program} {file : SourceFile}

/-- Where something is met in a file, the scope is one that the file opens. -/
theorem site_of_mem_placedVisits (program : Program) (file : SourceFile) {met : Site × Visit}
    (hmet : met ∈ program.placedVisits file) :
    ∃ block ∈ program.openedBy file,
      block.id = met.1.scope ∧ block.enclosing = met.1.enclosing := by
  rcases site_of_placedVisitsOf _ _ _ met hmet with heq | ⟨block, hblock, hid⟩
  · exact ⟨_, List.mem_cons_self, heq ▸ ⟨rfl, rfl⟩⟩
  · exact ⟨block, List.mem_cons_of_mem _ hblock, hid⟩

/-- What comes of everything that is met in a file when its names are bound. -/
theorem boundIn_hands (h : program.Sorted) (file : SourceFile) :
    (program.boundIn file).2.fileName ⟨program.files.size⟩ = file.name ∧
      ∃ handlings : List Handling, handlings.map Handling.met = program.placedVisits file ∧
        handlings.flatMap Handling.bound = (program.boundIn file).1.2 ∧
        (program.boundIn file).2.issues = program.issues ++ handlings.flatMap Handling.issues ∧
        ∀ handling ∈ handlings, handling.Fits file.name (program.boundIn file).2 := by
  let opened := ((Compile.addScope ⟨program.files.size⟩ [] ⟨0, file.node.span.stop⟩).run
    (program.withFile file)).2
  have hname : opened.fileName ⟨program.files.size⟩ = file.name := by
    rw [Bind.addScope_fileName, fileName, withFile, Array.getElem?_push_size]
    rfl
  have hopened := Bind.addScope_binds ⟨program.files.size⟩ [] ⟨0, file.node.span.stop⟩
    (program.withFile file)
  obtain ⟨hfile, handlings, hmet, hbound, hissues, hfits⟩ :=
    Bind.statements_hands program.nextSite file.statements opened
  rw [hopened.size] at hmet
  rw [show program.nextSite.file = ⟨program.files.size⟩ from rfl, hname] at hfile hfits
  exact ⟨hfile, handlings, hmet, hbound, hissues, hfits (hopened.sorted (h.withFile file))⟩

/-- While names are bound only names that are taken are reported. -/
theorem boundIn_issues (h : program.Sorted) (file : SourceFile) :
    ∃ refused, (program.boundIn file).2.issues = program.issues ++ refused ∧
      ∀ issue ∈ refused, ∃ name : Identifier, issue = name.taken file.name := by
  obtain ⟨-, handlings, -, -, hissues, hfits⟩ := boundIn_hands h file
  refine ⟨_, hissues, fun issue hissue => ?_⟩
  obtain ⟨handling, hhandling, hmem⟩ := List.mem_flatMap.mp hissue
  cases hfits handling hhandling with
  | declared _ _ _ _ hreports =>
    rcases hreports with rfl | rfl
    · cases hmem
    · exact ⟨_, List.mem_singleton.mp hmem⟩
  | refused => exact ⟨_, List.mem_singleton.mp hmem⟩
  | nameless | expression => cases hmem

/-- What is handed on is of the sort of its symbol. -/
theorem isOf_of_mem (h : program.Sorted) {id : SymbolId} {made : Declaration}
    (hmade : (id, made) ∈ Resolve.pendingOf (program.boundIn file).1.2) :
    made.isOf ((program.boundIn file).2.symbol id).sort = true := by
  obtain ⟨-, handlings, -, hbound, -, hfits⟩ := boundIn_hands h file
  have hmem := Resolve.mem_pendingOf.mp hmade
  rw [← hbound] at hmem
  obtain ⟨handling, hhandling, hmem⟩ := List.mem_flatMap.mp hmem
  obtain ⟨symbol, hvisit, hsymbol, hdeclares⟩ := (hfits handling hhandling).of_mem hmem
  obtain ⟨-, rfl⟩ := HasSymbol.of_symbol? hsymbol
  exact Visit.isOf_of_made hvisit hdeclares

/-- Symbols that are handed on twice are of a sort whose declarations add to each other. -/
theorem Compiled.pairwise_merges (h : program.Compiled) {text : List Char}
    (hplaced : ∀ statement ∈ file.statements, statement.Placed text) :
    ((Resolve.pendingOf (program.boundIn file).1.2).map Prod.fst).Pairwise fun id later =>
      id = later → ((program.boundIn file).2.symbol id).sort.merges
        ((program.boundIn file).2.symbol id).sort = true := by
  obtain ⟨before, log, -, hlogs⟩ := h.wellFormed.boundIn_logs hplaced
  have hids : (Resolve.pendingOf (program.boundIn file).1.2).map Prod.fst = log.map Prod.fst := by
    have hsame := hlogs.makes.imp fun entry logged h => h.1
    rw [← List.forall₂_eq_eq_eq, List.forall₂_map_left_iff, List.forall₂_map_right_iff]
    exact hsame
  rw [hids, List.pairwise_map]
  refine hlogs.shared.imp_of_mem fun {entry later} hentry _ hmerges heq => ?_
  obtain ⟨⟨symbol, hsymbol, hdeclares⟩, -⟩ := hlogs.entered entry hentry
  obtain ⟨name, sort, hsame, -, hadds⟩ := hmerges heq
  cases hdeclares.symm.trans hsame
  obtain ⟨-, heq⟩ := HasSymbol.of_symbol? hsymbol
  rw [heq]
  exact hadds

/-- The only declaration of a symbol whose sort does not add to itself. -/
theorem Compiled.declarationsOf_eq (h : program.Compiled) {text : List Char}
    (hplaced : ∀ statement ∈ file.statements, statement.Placed text) {id : SymbolId}
    {made : Declaration} (hmade : (id, made) ∈ Resolve.pendingOf (program.boundIn file).1.2)
    (hsort : ¬((program.boundIn file).2.symbol id).sort.merges
      ((program.boundIn file).2.symbol id).sort = true) :
    (Resolve.pendingOf (program.boundIn file).1.2).declarationsOf id = [made] := by
  have hpairs := h.pairwise_merges hplaced
  generalize Resolve.pendingOf (program.boundIn file).1.2 = pending at hmade hpairs
  have hnone {rest : Pending} (hrest : ∀ later ∈ rest.map Prod.fst, id = later →
      ((program.boundIn file).2.symbol id).sort.merges
        ((program.boundIn file).2.symbol id).sort = true) : rest.filter (·.1 = id) = [] := by
    refine List.filter_eq_nil_iff.mpr fun later hlater heq => hsort ?_
    exact hrest _ (List.mem_map_of_mem hlater) (of_decide_eq_true heq).symm
  unfold Pending.declarationsOf
  induction pending with
  | nil => cases hmade
  | cons entry rest ih =>
    rw [List.map_cons, List.pairwise_cons] at hpairs
    rcases List.mem_cons.mp hmade with rfl | hmade
    · rw [List.filter_cons, if_pos (decide_eq_true rfl), hnone hpairs.1]
      rfl
    · have hne : entry.1 ≠ id := by
        rintro rfl
        exact hsort (hpairs.1 _ (List.mem_map_of_mem hmade) rfl)
      rw [List.filter_cons, if_neg (by simpa using hne)]
      exact ih hmade hpairs.2

end Program

end ExpressionTyping
