import ExpressionTyping.Proofs.Program.BindingRuns
import ExpressionTyping.Proofs.Program.Lockstep

/-!
# Binding a file and its copy

Binding looks at names, at the scopes of its own file and at the sorts of symbols. None of these
tell one program from the other, so a file is bound in both in the same way: what binding hands on
in one program is, with scopes and symbols moved to their copies, what it hands on in the other
(`statements_follows`).
-/

set_option autoImplicit false

namespace ExpressionTyping

/-! ## Moving what binding hands on -/

section Moved

variable (base : Program)

/-- A declaration in the copy of its scope. -/
def Declaration.moved : Declaration → Declaration
  | variableDecl scope constant type? initializer =>
    .variableDecl (base.scopePlace scope) constant type? initializer
  | function scope parameters result => .function (base.scopePlace scope) parameters result
  | interface scope members => .interface (base.scopePlace scope) members
  | typeAlias scope nameSpan type => .typeAlias (base.scopePlace scope) nameSpan type

/-- An assignment in the copy of its scope. -/
def PendingAssignment.moved (a : PendingAssignment) : PendingAssignment :=
  { a with scope := base.scopePlace a.scope }

/-- A declaration of the copy of its symbol, or an assignment in the copy of its scope. -/
def Bound.moved : Bound → Bound
  | declaration symbol declared => .declaration (base.symbolPlace symbol) (declared.moved base)
  | assignment a => .assignment (a.moved base)

/-- The site in the copy of its file. -/
def Site.moved (site : Site) : Site where
  file := base.filePlace site.file
  fileScope := base.scopePlace site.fileScope
  scope := base.scopePlace site.scope
  enclosing := site.enclosing.map base.scopePlace

end Moved

/-- Whether a declaration lists members of an interface. -/
def Declaration.isInterface : Declaration → Bool
  | interface _ _ => true
  | _ => false

/-- The sort of a declared symbol is known, and only interfaces have types of their own. -/
def Bound.Known (links : Links) : Bound → Prop
  | declaration symbol declared =>
    ∃ sort, links.sorts symbol sort ∧ (sort.ownsType = true → declared.isInterface = true)
  | assignment _ => True

/-- What is known of a declaration stays known. -/
theorem Bound.Known.mono {links links' : Links} {bound : Bound} (h : bound.Known links)
    (hle : links ≤ links') : bound.Known links' := by
  cases bound with
  | declaration symbol declared =>
    obtain ⟨sort, hsort, hdeclared⟩ := h
    exact ⟨sort, hle.2.1 symbol sort hsort, hdeclared⟩
  | assignment a => trivial

/-- Sorts that add to each other are the same. -/
theorem SymbolSort.eq_of_merges {sort sort' : SymbolSort} :
    sort.merges sort' = true → sort = sort' := by
  cases sort <;> cases sort' <;> decide

/-- The symbol of a program that is embedded has the sort that is known of it. -/
theorem Embeds.symbol_sort {base own all : Program} {links : Links} (h : Embeds base links own all)
    {id : SymbolId} {sort : SymbolSort} (hsort : links.sorts id sort) :
    (own.symbol id).sort = sort := by
  obtain ⟨-, symbol, hsymbol, heq⟩ := h.sorts hsort
  rw [Program.symbol_of_symbols hsymbol]
  exact heq

/-- A known symbol that merges with a sort has that sort. -/
theorem Embeds.sorts_of_merges {base own all : Program} {links : Links}
    (h : Embeds base links own all) {id : SymbolId} {sort : SymbolSort} (hid : links.Knows id)
    (hmerges : (own.symbol id).sort.merges sort = true) : links.sorts id sort := by
  obtain ⟨sort', hsort⟩ := hid
  rw [h.symbol_sort hsort] at hmerges
  exact SymbolSort.eq_of_merges hmerges ▸ hsort

namespace Bind

open Compile

variable {base : Program} {links : Links}

/-! ## Declaring names -/

/-- Recording a declaration does the same in both programs. -/
theorem recordDeclaration_follows (site : Site) {symbol : SymbolId} (hsymbol : links.Knows symbol)
    (name : Identifier) (declaration : Nat) :
    Follows (Embeds base) links (recordDeclaration site symbol name declaration)
      (recordDeclaration (site.moved base) (base.symbolPlace symbol) name declaration)
      fun _ _ _ => True := by
  refine (addLocation_follows hsymbol _).bind fun links' hle _ _ _ => updateFile_follows _ ?_ ?_
  · exact fun _ => rfl
  intro info info' h
  refine ⟨h.name, h.length, h.scopes, ?_, ?_⟩
  · show (declaration, base.symbolPlace symbol) :: info'.declarations = _
    rw [h.declarations]
    rfl
  · intro entry hentry
    rcases List.mem_cons.mp hentry with rfl | hentry
    · exact hsymbol.mono hle
    · exact h.known entry hentry

/-- What declaring a name gives: a symbol of a known sort, and its copy. -/
def Declares (base : Program) (sort : SymbolSort) (links : Links) (id id' : SymbolId) : Prop :=
  id' = base.symbolPlace id ∧ links.sorts id sort

/-- After a declaration is recorded in both programs, its symbol still has its copy. -/
theorem Declares.record {sort : SymbolSort} {id id' : SymbolId}
    (h : Declares base sort links id id') (site : Site) (name : Identifier) (declaration : Nat) :
    Follows (Embeds base) links (recordDeclaration site id name declaration)
      (recordDeclaration (site.moved base) id' name declaration)
      fun links' _ _ => Declares base sort links' id id' := by
  obtain ⟨rfl, hsort⟩ := h
  refine (recordDeclaration_follows site ⟨sort, hsort⟩ name declaration).imp ?_
  intro links' hle _ _ _
  exact ⟨rfl, hle.2.1 id sort hsort⟩

/-- After a value is filed under its name in both programs, its symbol still has its copy. -/
theorem Declares.insertValue {sort : SymbolSort} {id id' : SymbolId}
    (h : Declares base sort links id id') (target : ScopeId) (name : String) :
    Follows (Embeds base) links
      (updateScope target fun scope => { scope with values := scope.values.insert name id })
      (updateScope (base.scopePlace target) fun scope =>
        { scope with values := scope.values.insert name id' })
      fun links' _ _ => Declares base sort links' id id' := by
  obtain ⟨rfl, hsort⟩ := h
  refine Follows.imp (updateScope_follows target ?_) fun _ hle _ _ _ => ⟨rfl, hle.2.1 id sort hsort⟩
  intro scope scope' hscope
  refine { hscope with values := ?_, knownValues := ?_ }
  · rw [hscope.values, SymbolTable.insert_map]
  · exact SymbolTable.forall_mem_insert hscope.knownValues ⟨sort, hsort⟩

/-- After a type is filed under its name in both programs, its symbol still has its copy. -/
theorem Declares.insertType {sort : SymbolSort} {id id' : SymbolId}
    (h : Declares base sort links id id') (target : ScopeId) (name : String) :
    Follows (Embeds base) links
      (updateScope target fun scope => { scope with types := scope.types.insert name id })
      (updateScope (base.scopePlace target) fun scope =>
        { scope with types := scope.types.insert name id' })
      fun links' _ _ => Declares base sort links' id id' := by
  obtain ⟨rfl, hsort⟩ := h
  refine Follows.imp (updateScope_follows target ?_) fun _ hle _ _ _ => ⟨rfl, hle.2.1 id sort hsort⟩
  intro scope scope' hscope
  refine { hscope with types := ?_, knownTypes := ?_ }
  · rw [hscope.types, SymbolTable.insert_map]
  · exact SymbolTable.forall_mem_insert hscope.knownTypes ⟨sort, hsort⟩

/-- Declaring a value does the same in both programs, and gives a symbol and its copy. -/
theorem declareValue_follows (site : Site) (target : ScopeId) (name : Identifier)
    {sort : SymbolSort} (hsort : ¬sort.ownsType = true) (declaration : Nat) :
    Follows (Embeds base) links (declareValue site target name sort declaration)
      (declareValue (site.moved base) (base.scopePlace target) name sort declaration)
      (Declares base sort) := by
  have hnew {links : Links} : Follows (Embeds base) links (addSymbol name.text sort .any)
      (addSymbol name.text sort .any) (Declares base sort) :=
    addSymbol_follows name.text links.any fun h => absurd h hsort
  have hrecord {links : Links} {id id' : SymbolId} (h : Declares base sort links id id') :=
    (h.record site name declaration).bind fun _ _ _ _ h' => Follows.pure h'
  refine Follows.get.bind fun links' _ own all h => ?_
  have hscope := h.scope target
  simp only [hscope.values, SymbolTable.get?_map]
  cases hfound : (own.scope target).values.get? name.text with
  | some existing =>
    have hknown : links'.Knows existing := hscope.knownValues _ (SymbolTable.mem_of_get? hfound)
    simp only [Option.map_some, (h.symbol existing).sort]
    split
    · rename_i hmerges
      exact hrecord ⟨rfl, h.sorts_of_merges hknown hmerges⟩
    · refine (report_follows site.file _ _).bind fun _ _ _ _ _ => ?_
      exact hnew.bind fun _ _ _ _ hid => hrecord hid
  | none =>
    refine hnew.bind fun _ _ _ _ hid => ?_
    exact (hid.insertValue target name.text).bind fun _ _ _ _ hid' => hrecord hid'

/-- What declaring a type gives: a symbol and its copy, or nothing in both programs. -/
def DeclaresType (base : Program) (sort : SymbolSort) (links : Links) :
    Option SymbolId → Option SymbolId → Prop :=
  Option.Rel (Declares base sort links)

/-- Declaring a type does the same in both programs: it gives a symbol and its copy, or is reported
in both. -/
theorem declareType_follows (site : Site) (name : Identifier) (sort : SymbolSort)
    (hsort : sort.ownsType = true → sort = .interface) (declaration : Nat) :
    Follows (Embeds base) links (declareType site name sort declaration)
      (declareType (site.moved base) name sort declaration) (DeclaresType base sort) := by
  have hrecord {links : Links} {id id' : SymbolId} (h : Declares base sort links id id') :
      Follows (Embeds base) links
        (do recordDeclaration site id name declaration; return some id)
        (do recordDeclaration (site.moved base) id' name declaration; return some id')
        (DeclaresType base sort) :=
    (h.record site name declaration).bind fun _ _ _ _ h' => Follows.pure (.some h')
  -- an interface has a type of its own from the start, an alias gets one when it is resolved
  have hnew {links : Links} {type type' : TypeId} (htype : links.types type type')
      (hown : sort.ownsType = true → base.types.entries.size ≤ type'.index) :
      Follows (Embeds base) links
        (do
          let id ← addSymbol name.text sort type
          updateScope site.scope fun scope =>
            { scope with types := scope.types.insert name.text id }
          recordDeclaration site id name declaration
          return some id)
        (do
          let id ← addSymbol name.text sort type'
          updateScope (base.scopePlace site.scope) fun scope =>
            { scope with types := scope.types.insert name.text id }
          recordDeclaration (site.moved base) id name declaration
          return some id)
        (DeclaresType base sort) := by
    refine (addSymbol_follows name.text htype hown).bind fun _ _ id id' hid => ?_
    have hdeclares : Declares base sort _ id id' := hid
    exact (hdeclares.insertType site.scope name.text).bind fun _ _ _ _ hid' => hrecord hid'
  refine Follows.get.bind fun links' _ own all h => ?_
  have hscope : (own.scope site.scope).Matches base links' (all.scope (site.moved base).scope) :=
    h.scope site.scope
  simp only [hscope.types, SymbolTable.get?_map]
  cases hfound : (own.scope site.scope).types.get? name.text with
  | some existing =>
    have hknown : links'.Knows existing := hscope.knownTypes _ (SymbolTable.mem_of_get? hfound)
    simp only [Option.map_some, (h.symbol existing).sort]
    split
    · rename_i hmerges
      exact hrecord ⟨rfl, h.sorts_of_merges hknown hmerges⟩
    · exact (report_follows site.file _ _).bind fun _ _ _ _ _ => .pure .none
  | none =>
    simp only [Option.map_none]
    split
    · refine (addType_follows (.named name.text) rfl).bind fun _ _ type type' htype => ?_
      exact hnew htype.1 fun _ => htype.2
    · rename_i hother
      exact hnew links'.any fun hown => absurd (hsort hown) hother

/-! ## Statements -/

/-- What binding hands on in both programs. -/
def Binds (base : Program) (links : Links) (bound bound' : List Bound) : Prop :=
  bound' = bound.map (Bound.moved base) ∧ ∀ b ∈ bound, b.Known links

/-- Nothing is handed on in either program. -/
theorem Binds.nil : Binds base links [] [] :=
  ⟨rfl, fun _ hmem => absurd hmem List.not_mem_nil⟩

/-- What is handed on in a row in both programs is handed on together. -/
theorem Binds.append {first first' rest rest' : List Bound} (h : Binds base links first first')
    (h' : Binds base links rest rest') : Binds base links (first ++ rest) (first' ++ rest') := by
  constructor
  · rw [h.1, h'.1, List.map_append]
  · intro b hb
    rcases List.mem_append.mp hb with hb | hb
    · exact h.2 b hb
    · exact h'.2 b hb

/-- What was handed on in both programs stays so when more is linked. -/
theorem Binds.mono {links' : Links} {bound bound' : List Bound} (h : Binds base links bound bound')
    (hle : links ≤ links') : Binds base links' bound bound' :=
  ⟨h.1, fun b hb => (h.2 b hb).mono hle⟩

/-- A symbol and its copy are handed on with the declaration and its copy. -/
theorem Declares.binds {sort : SymbolSort} {id id' : SymbolId} {declaration : Declaration}
    (h : Declares base sort links id id')
    (hsort : sort.ownsType = true → declaration.isInterface = true) :
    Binds base links [.declaration id declaration] [.declaration id' (declaration.moved base)] := by
  obtain ⟨rfl, hid⟩ := h
  refine ⟨rfl, fun b hb => ?_⟩
  cases List.mem_singleton.mp hb
  exact ⟨sort, hid, hsort⟩

/-- A variable has no type of its own. -/
theorem not_ownsType_variableTarget (site : Site) (form : VariableForm) :
    ¬(variableTarget site form).2.ownsType = true := by
  cases form <;> exact nofun

/-- A list of variables hands on the same in both programs. -/
theorem variableList_follows (site : Site) (form : VariableForm) (list : List VariableDeclaration) :
    Follows (Embeds base) links (variableList site form list)
      (variableList (site.moved base) form list) (Binds base) := by
  induction list generalizing links with
  | nil => exact .pure .nil
  | cons declaration rest ih =>
    unfold variableList
    split
    · exact ih
    · have htarget : variableTarget (site.moved base) form =
          (base.scopePlace (variableTarget site form).1, (variableTarget site form).2) := by
        cases form <;> rfl
      have hsort := not_ownsType_variableTarget site form
      rw [htarget]
      refine (declareValue_follows site _ declaration.name hsort _).bind ?_
      intro links₁ _ id id' hid
      refine ih.bind fun links₂ hle bound bound' hbound => .pure ?_
      exact ((hid.binds fun h => absurd h hsort).mono hle).append hbound

/-- A function hands on the same in both programs. -/
theorem function_follows (site : Site) (declaration : FunctionDeclaration) :
    Follows (Embeds base) links (function site declaration)
      (function (site.moved base) declaration) (Binds base) := by
  unfold function
  split
  · exact .pure .nil
  · refine (declareValue_follows site site.scope _ (by decide) _).bind fun _ _ _ _ hid => ?_
    exact .pure (hid.binds nofun)

/-- An interface hands on the same in both programs. -/
theorem interface_follows (site : Site) (declaration : InterfaceDeclaration) :
    Follows (Embeds base) links (interface site declaration)
      (interface (site.moved base) declaration) (Binds base) := by
  refine (declareType_follows site declaration.name .interface (fun _ => rfl) _).bind
    fun _ _ id? id?' hid => ?_
  cases hid with
  | none => exact .pure .nil
  | some hid => exact .pure (hid.binds fun _ => rfl)

/-- An alias hands on the same in both programs. -/
theorem typeAlias_follows (site : Site) (declaration : AliasDeclaration) :
    Follows (Embeds base) links (typeAlias site declaration)
      (typeAlias (site.moved base) declaration) (Binds base) := by
  refine (declareType_follows site declaration.name .typeAlias nofun _).bind
    fun _ _ id? id?' hid => ?_
  cases hid with
  | none => exact .pure .nil
  | some hid => exact .pure (hid.binds nofun)

/-- An assignment is handed on in both programs. -/
theorem assignment_binds (site : Site) (node : Node) (value : Expr) :
    Binds base links (assignment site node value) (assignment (site.moved base) node value) := by
  unfold assignment
  split
  · refine ⟨rfl, fun b hb => ?_⟩
    cases List.mem_singleton.mp hb
    trivial
  · exact .nil

mutual

/-- A statement hands on the same in both programs, whatever blocks are in it. -/
theorem statement_follows (site : Site) (statement : Statement) (links : Links) :
    Follows (Embeds base) links (Bind.statement site statement)
      (Bind.statement (site.moved base) statement) (Binds base) := by
  cases statement with
  | variableList list => exact variableList_follows site list.form list.declarations
  | function declaration => exact function_follows site declaration
  | interface declaration => exact interface_follows site declaration
  | typeAlias declaration => exact typeAlias_follows site declaration
  | expression node value => exact .pure (assignment_binds site node value)
  | empty node => exact .pure .nil
  | block node body =>
    refine (addScope_follows site.file (site.scope :: site.enclosing) node.span).bind ?_
    rintro links' _ scope _ rfl
    exact statements_follows { site with scope, enclosing := site.scope :: site.enclosing } body
      links'

/-- Binding the statements of a file in both programs hands on copies. -/
theorem statements_follows (site : Site) (list : List Statement) (links : Links) :
    Follows (Embeds base) links (statements site list) (statements (site.moved base) list)
      (Binds base) := by
  cases list with
  | nil => exact .pure .nil
  | cons first rest =>
    refine (statement_follows site first links).bind fun links₁ _ bound bound' hbound => ?_
    refine (statements_follows site rest links₁).bind fun links₂ hle more more' hmore => .pure ?_
    exact (hbound.mono hle).append hmore

end

end Bind

end ExpressionTyping
