import ExpressionTyping.Proofs.Program.BindingRuns
import ExpressionTyping.Proofs.Program.SafeSteps

/-!
# Binding does not fail

Names are declared in scopes of the file that is bound, and a scope leads from a name only to
symbols of that name. So every look-up of binding finds something, and what binding hands on refers
to what is there: scopes of the program, and symbols that have been declared somewhere.
-/

set_option autoImplicit false

namespace ExpressionTyping

/-! ## What binding hands on -/

/-- A symbol of a sort has been declared somewhere. -/
def Program.Located (program : Program) (sort : SymbolSort) (id : SymbolId) : Prop :=
  ∃ symbol, program.symbol? id = some symbol ∧ symbol.sort = sort ∧ symbol.declarations ≠ []

/-- The scope of a declaration is there, and the names in it lie in a text of a given length. -/
def Declaration.Fits (program : Program) (length : Nat) : Declaration → Prop
  | .variableDecl scope _ type? initializer => program.HasScope scope ∧
      (∀ type, type? = some type → type.NamesIn length) ∧
      ∀ e, initializer = some e → e.Throughout (Expr.InText length)
  | .function scope parameters result => program.HasScope scope ∧
      (∀ parameter ∈ parameters, parameter.NamesIn length) ∧
      ∀ type, result = some type → type.NamesIn length
  | .interface scope members => program.HasScope scope ∧ ∀ member ∈ members, member.NamesIn length
  | .typeAlias scope nameSpan type => program.HasScope scope ∧ nameSpan.Within length ∧
      type.NamesIn length

/-- A declaration of a symbol that has been declared somewhere. -/
structure Declaration.Of (program : Program) (length : Nat) (id : SymbolId)
    (declaration : Declaration) : Prop where
  located : ∃ sort, program.Located sort id ∧ (sort = .interface ↔ declaration.isInterface = true)
  fits : declaration.Fits program length

/-- What binding hands on refers to what is there. -/
def Bound.Fits (program : Program) (length : Nat) : Bound → Prop
  | .declaration id made => made.Of program length id
  | .assignment a => program.HasScope a.scope ∧ a.target.node.span.Within length ∧
      a.value.Throughout (Expr.InText length)

/-- The place in a file where binding stands is there. -/
structure Site.Fits (program : Program) (site : Site) : Prop where
  file : ∃ info, program.file? site.file = some info ∧ site.scope ∈ info.scopes
  scope : ∃ scope, program.scope? site.scope = some scope ∧ scope.enclosing = site.enclosing
  fileScope : program.HasScope site.fileScope

section Mono

variable {before after : Program} (h : before.Extends after)
include h

/-- A symbol that has been declared stays declared while names are bound. -/
theorem Program.Located.mono {sort : SymbolSort} {id : SymbolId}
    (hlocated : before.Located sort id) : after.Located sort id := by
  obtain ⟨symbol, hsymbol, hsort, hdeclarations⟩ := hlocated
  obtain ⟨later, hlater, hgrows⟩ := h.symbols _ _ hsymbol
  refine ⟨later, hlater, hgrows.sort.trans hsort, fun hnil => hdeclarations ?_⟩
  exact List.prefix_nil.mp (hnil ▸ hgrows.declarations)

/-- A declaration still fits while names are bound. -/
theorem Declaration.Fits.mono {length : Nat} {declaration : Declaration}
    (hfits : declaration.Fits before length) : declaration.Fits after length := by
  cases declaration with
  | variableDecl | function | interface | typeAlias => exact ⟨h.hasScope hfits.1, hfits.2⟩

/-- A declaration stays one of its symbol while names are bound. -/
theorem Declaration.Of.mono {length : Nat} {id : SymbolId} {declaration : Declaration}
    (hof : declaration.Of before length id) : declaration.Of after length id := by
  obtain ⟨sort, hlocated, hsort⟩ := hof.located
  exact ⟨⟨sort, hlocated.mono h, hsort⟩, hof.fits.mono h⟩

/-- What binding hands on still fits while names are bound. -/
theorem Bound.Fits.mono {length : Nat} {bound : Bound} (hfits : bound.Fits before length) :
    bound.Fits after length := by
  cases bound with
  | declaration id declaration => exact Declaration.Of.mono h hfits
  | assignment a => exact ⟨h.hasScope hfits.1, hfits.2⟩

/-- A place where binding stands still fits while names are bound. -/
theorem Site.Fits.mono {site : Site} (hfits : site.Fits before) : site.Fits after := by
  obtain ⟨info, hinfo, hmem⟩ := hfits.file
  obtain ⟨info', hinfo', hgrows⟩ := h.files _ _ hinfo
  obtain ⟨scope, hscope, henclosing⟩ := hfits.scope
  obtain ⟨scope', hscope', hsame⟩ := h.scopes _ _ hscope
  exact ⟨⟨info', hinfo', hgrows.scopes hmem⟩, ⟨scope', hscope', hsame.enclosing.trans henclosing⟩,
    h.hasScope hfits.fileScope⟩

end Mono

/-- A symbol that has been declared is there. -/
theorem Program.Located.hasSymbol {program : Program} {sort : SymbolSort} {id : SymbolId}
    (h : program.Located sort id) : program.HasSymbol id := by
  obtain ⟨symbol, hsymbol, -⟩ := h
  exact (HasSymbol.of_symbol? hsymbol).1

namespace Site.Fits

variable {program : Program} {site : Site} (h : site.Fits program)
include h

/-- The file of a place is there. -/
theorem hasFile : program.HasFile site.file := by
  obtain ⟨info, hinfo, -⟩ := h.file
  exact (Array.getElem?_eq_some_iff.mp hinfo).1

/-- The scope of a place is there. -/
theorem hasScope : program.HasScope site.scope := by
  obtain ⟨scope, hscope, -⟩ := h.scope
  exact (Program.HasScope.of_scope? hscope).1

/-- The scope to which a variable belongs is there. -/
theorem hasTarget (form : VariableForm) : program.HasScope (Bind.variableTarget site form).1 := by
  cases form with
  | hoisted => exact h.fileScope
  | block | constant => exact h.hasScope

end Site.Fits

/-- A name in a table of a well-formed program leads to a symbol of that name. -/
theorem SymbolTable.Names.get? {program : Program} {table : SymbolTable SymbolId}
    (h : table.Names program) {name : String} {id : SymbolId} (hid : table.get? name = some id) :
    program.HasSymbol id ∧ (program.symbol id).name = name := by
  obtain ⟨symbol, hsymbol, hname⟩ := h _ (SymbolTable.mem_of_get? hid)
  obtain ⟨hhas, rfl⟩ := Program.HasSymbol.of_symbol? hsymbol
  exact ⟨hhas, hname⟩

/-- A symbol that is filed under its own name keeps the names of a table right. -/
theorem SymbolTable.Names.insert {program : Program} {table : SymbolTable SymbolId}
    (h : table.Names program) {name : String} {id : SymbolId} {symbol : Symbol}
    (hsymbol : program.symbol? id = some symbol) (hname : symbol.name = name) :
    (table.insert name id).Names program :=
  forall_entries_insert h ⟨symbol, hsymbol, hname⟩

namespace Guarded

variable {s : Program} {length : Nat}

/-! ## Declaring names -/

/-- A named object type without members refers to nothing. -/
theorem named_within (name : String) :
    (TypeData.named name).Within s.types.entries.size s.symbols.size :=
  ⟨nofun, nofun⟩

/-- The place of a declaration is recorded for a symbol that is there. -/
theorem recordDeclaration_safe {site : Site} (hsite : site.Fits s) {id : SymbolId} {symbol : Symbol}
    (hid : s.symbol? id = some symbol) (name : Identifier) (declaration : Nat) :
    Safe (.building False) (recordDeclaration site id name declaration)
      (Bind.recordDeclaration site id name declaration) s
      fun _ s' => s'.Located symbol.sort id := by
  have hhas := (Program.HasSymbol.of_symbol? hid).1
  refine (addLocation_safe hhas _).bind fun _ s₁ hkeeps hdeclared => ?_
  have hlocated : s₁.Located symbol.sort id := by
    obtain ⟨later, hlater, hdeclarations⟩ := hdeclared
    obtain ⟨later', hlater', hgrows⟩ := hkeeps.symbols _ _ hid
    cases hlater.symm.trans hlater'
    exact ⟨later, hlater, hgrows.sort, hdeclarations⟩
  refine Safe.mono (updateFile_safe (hkeeps.hasFile hsite.hasFile) ?_ ?_) ?_
  · exact fun info => ⟨List.Subset.refl _⟩
  · intro info hinfo
    exact ⟨List.forall_mem_cons.mpr ⟨hlocated.hasSymbol, hinfo.declarations⟩, hinfo.scopes⟩
  · exact fun _ s₂ hkeeps₂ _ => hlocated.mono hkeeps₂.toExtends

/-- A name comes into a table of a scope with the symbol that was added for it. -/
theorem insertName_safe {target : ScopeId} (htarget : s.HasScope target) {id : SymbolId}
    {symbol : Symbol} (hid : s.symbol? id = some symbol) {f : Scope → Scope}
    (hf : ∀ scope : Scope, scope.Grows (f scope))
    (hfits : ∀ scope : Scope, scope.Fits s → (f scope).Fits s) :
    Safe (.building False) (updateScope target f) (Compile.updateScope target f) s fun _ s' =>
      ∃ later, s'.symbol? id = some later ∧ later.sort = symbol.sort := by
  refine (updateScope_safe htarget hf hfits).mono fun _ s' hkeeps _ => ?_
  obtain ⟨later, hlater, hgrows⟩ := hkeeps.symbols _ _ hid
  exact ⟨later, hlater, hgrows.sort⟩

/-- Declaring a value in a scope that is there is safe, and gives a symbol of its sort. -/
theorem declareValue_safe {site : Site} (hsite : site.Fits s) {target : ScopeId}
    (htarget : s.HasScope target) {name : Identifier} (hname : name.node.span.Within length)
    (sort : SymbolSort) (declaration : Nat) :
    Safe (.building False) (declareValue site target name sort declaration)
      (Bind.declareValue site target name sort declaration) s fun id s' => s'.Located sort id := by
  have hrecord {s' : Program} (hext : s.Builds False s') {id : SymbolId} {symbol : Symbol}
      (hid : s'.symbol? id = some symbol) (hsort : symbol.sort = sort) :
      Safe (.building False) (do recordDeclaration site id name declaration; return id)
        (do Bind.recordDeclaration site id name declaration; return id) s'
        fun id s' => s'.Located sort id := by
    refine (recordDeclaration_safe (hsite.mono hext.toExtends) hid name declaration).bind ?_
    exact fun _ _ _ hlocated => .pure (hsort ▸ hlocated)
  refine .of_inv fun hs => Safe.get.bind fun program s₁ _ h₁ => ?_
  obtain ⟨rfl, rfl⟩ := h₁
  refine .found htarget.scope? ?_
  simp only
  cases hfound : (s₁.scope target).values.get? name.text with
  | some existing =>
    obtain ⟨hexisting, -⟩ := (hs.scope_fits htarget).values.get? hfound
    refine .found hexisting.symbol? (.ite (fun hmerges => ?_) fun _ => ?_)
    · exact hrecord (.refl _) hexisting.symbol? (SymbolSort.eq_of_merges hmerges)
    · refine (report_safe hsite.hasFile hname _).bind fun _ s₂ hkeeps₂ _ => .of_inv fun hs₂ => ?_
      refine (addSymbol_safe _ _ hs₂.hasType_any).bind fun id s₃ hkeeps₃ hid => ?_
      exact hrecord (hkeeps₂.trans hkeeps₃) hid rfl
  | none =>
    refine (addSymbol_safe _ _ hs.hasType_any).bind fun id s₂ hkeeps₂ hid => ?_
    refine Safe.bind (insertName_safe (hkeeps₂.hasScope htarget) hid ?_ ?_) ?_
    · exact fun scope => ⟨rfl, rfl⟩
    · exact fun scope hscope => { hscope with values := hscope.values.insert hid rfl }
    · rintro _ s₃ hkeeps₃ ⟨later, hlater, hsort⟩
      exact hrecord (hkeeps₂.trans hkeeps₃) hlater hsort

/-- Declaring a type in a scope that is there is safe, and gives a symbol of its sort, if any. -/
theorem declareType_safe {site : Site} (hsite : site.Fits s) {name : Identifier}
    (hname : name.node.span.Within length) (sort : SymbolSort) (declaration : Nat) :
    Safe (.building False) (declareType site name sort declaration)
      (Bind.declareType site name sort declaration) s
      fun id? s' => ∀ id, id? = some id → s'.Located sort id := by
  have hrecord {s' : Program} (hext : s.Builds False s') {id : SymbolId} {symbol : Symbol}
      (hid : s'.symbol? id = some symbol) (hsort : symbol.sort = sort) :
      Safe (.building False) (do recordDeclaration site id name declaration; return some id)
        (do Bind.recordDeclaration site id name declaration; return some id) s'
        fun id? s' => ∀ id, id? = some id → s'.Located sort id := by
    refine (recordDeclaration_safe (hsite.mono hext.toExtends) hid name declaration).bind ?_
    intro _ _ _ hlocated
    refine .pure ?_
    rintro _ ⟨⟩
    exact hsort ▸ hlocated
  have hnew {s' : Program} (hext : s.Builds False s') {type : TypeId} (htype : s'.HasType type) :
      Safe (.building False)
        (do
          let id ← step (Compile.addSymbol name.text sort type)
          updateScope site.scope fun scope =>
            { scope with types := scope.types.insert name.text id }
          recordDeclaration site id name declaration
          return some id)
        (do
          let id ← Compile.addSymbol name.text sort type
          Compile.updateScope site.scope fun scope =>
            { scope with types := scope.types.insert name.text id }
          Bind.recordDeclaration site id name declaration
          return some id)
        s' fun id? s' => ∀ id, id? = some id → s'.Located sort id := by
    refine (addSymbol_safe _ _ htype).bind fun id s₂ hkeeps₂ hid => ?_
    refine Safe.bind (insertName_safe ((hext.trans hkeeps₂).hasScope hsite.hasScope) hid ?_ ?_) ?_
    · exact fun scope => ⟨rfl, rfl⟩
    · exact fun scope hscope => { hscope with types := hscope.types.insert hid rfl }
    · rintro _ s₃ hkeeps₃ ⟨later, hlater, hsort⟩
      exact hrecord ((hext.trans hkeeps₂).trans hkeeps₃) hlater hsort
  refine .of_inv fun hs => Safe.get.bind fun program s₁ _ h₁ => ?_
  obtain ⟨rfl, rfl⟩ := h₁
  refine .found hsite.hasScope.scope? ?_
  simp only
  cases hfound : (s₁.scope site.scope).types.get? name.text with
  | some existing =>
    obtain ⟨hexisting, -⟩ := (hs.scope_fits hsite.hasScope).types.get? hfound
    refine .found hexisting.symbol? (.ite (fun hmerges => ?_) fun _ => ?_)
    · exact hrecord (.refl _) hexisting.symbol? (SymbolSort.eq_of_merges hmerges)
    · exact (report_safe hsite.hasFile hname _).bind fun _ _ _ _ => .pure (by rintro _ ⟨⟩)
  | none =>
    simp only
    split
    · refine (addType_safe _ (named_within name.text)).bind fun type s₂ hkeeps₂ htype => ?_
      exact hnew hkeeps₂ htype
    · exact hnew (.refl _) hs.hasType_any

/-! ## Statements -/

/-- Binding is safe and hands on what refers to what is there. -/
abbrev Binds (length : Nat) (q : Guarded Program (List Bound)) (p : Compile (List Bound))
    (s : Program) : Prop :=
  Safe (.building False) q p s fun bound s' => ∀ b ∈ bound, b.Fits s' length

/-- A declaration that fits is one of the symbol that it was given. -/
theorem declaration_fits {program : Program} {id : SymbolId} {sort : SymbolSort}
    (hlocated : program.Located sort id) {declaration : Declaration}
    (hsort : sort = .interface ↔ declaration.isInterface = true)
    (hfits : declaration.Fits program length) :
    ∀ b ∈ [Bound.declaration id declaration], b.Fits program length := by
  intro b hb
  cases List.mem_singleton.mp hb
  exact ⟨⟨sort, hlocated, hsort⟩, hfits⟩

/-- Binding a list of variables is safe and hands on what fits. -/
theorem variableList_safe {text : List Char} {site : Site} (hsite : site.Fits s)
    (form : VariableForm) {list : List VariableDeclaration}
    (hlist : ∀ declaration ∈ list, declaration.Placed text) :
    Binds text.length (variableList site form list) (Bind.variableList site form list) s := by
  induction list generalizing s with
  | nil => exact .pure (List.forall_mem_nil _)
  | cons declaration rest ih =>
    obtain ⟨hplaced, hrest⟩ := List.forall_mem_cons.mp hlist
    unfold variableList Bind.variableList
    split
    · exact ih hsite hrest
    · have htarget := hsite.hasTarget form
      have hsort := Bind.variableTarget_ne_interface site form
      refine (declareValue_safe hsite htarget hplaced.name _ _).bind fun id s₁ hkeeps₁ hid => ?_
      refine (ih (hsite.mono hkeeps₁.toExtends) hrest).bind fun others s₂ hkeeps₂ hothers =>
        .pure ?_
      have hscope : s₂.HasScope site.scope := (hkeeps₁.trans hkeeps₂).hasScope hsite.hasScope
      refine List.forall_mem_cons.mpr ⟨⟨⟨_, hid.mono hkeeps₂.toExtends, ?_⟩, ?_⟩, hothers⟩
      · exact ⟨fun h => absurd h hsort, by rintro ⟨⟩⟩
      · exact ⟨hscope, fun type htype => (hplaced.type type htype).1, hplaced.initializer⟩

/-- An assignment that is handed on fits. -/
theorem assignment_fits {site : Site} (hsite : site.Fits s) (node : Node) {value : Expr}
    (hvalue : value.Throughout (Expr.InText length)) :
    ∀ b ∈ Bind.assignment site node value, b.Fits s length := by
  unfold Bind.assignment
  split
  · rename_i target mark value
    intro b hb
    cases List.mem_singleton.mp hb
    obtain ⟨-, hbelow⟩ := hvalue
    obtain ⟨htarget, -⟩ := hbelow (.identifier target) (by simp)
    exact ⟨hsite.hasScope, htarget.span, hbelow value (by simp)⟩
  · exact List.forall_mem_nil _

/-- A block opens a scope inside the one it stands in. -/
theorem openBlock_safe {site : Site} (hsite : site.Fits s) {span : Span}
    (hspan : span.start ≤ span.stop) :
    Safe (.building False) (step (Compile.addScope site.file (site.scope :: site.enclosing) span))
      (Compile.addScope site.file (site.scope :: site.enclosing) span) s
      fun id s' => Site.Fits s'
        { site with scope := id, enclosing := site.scope :: site.enclosing } := by
  obtain ⟨info, hinfo, hmem⟩ := hsite.file
  obtain ⟨scope, hscope, henclosing⟩ := hsite.scope
  -- the scopes around the block are the one it stands in and those around that one
  refine .of_inv fun hs => Safe.mono (addScope_safe hinfo ?_ ?_ hspan) ?_
  · obtain ⟨scope', hscope', houter⟩ := (hs.files info (Array.mem_of_getElem? hinfo)).scopes _ hmem
    cases hscope.symm.trans hscope'
    refine List.cons_subset.mpr ⟨hmem, fun outer hout => ?_⟩
    exact (houter outer (henclosing ▸ hout)).1
  · rintro _ _ ⟨⟩
    exact ⟨scope, hscope, henclosing⟩
  · rintro id s₁ hkeeps₁ ⟨hfile, hblock⟩
    exact ⟨hfile, hblock, hkeeps₁.hasScope hsite.fileScope⟩

mutual

/-- Binding a statement is safe and hands on what fits. -/
theorem statement_safe {text : List Char} {s : Program} {site : Site} (hsite : site.Fits s)
    (statement : Statement) (h : statement.Placed text) :
    Binds text.length (Guarded.statement site statement) (Bind.statement site statement) s := by
  cases statement with
  | variableList list =>
    cases h with
    | variableList h => exact variableList_safe hsite list.form h
  | function declaration =>
    cases h with
    | function hname hparameters hresult =>
      unfold Guarded.statement Bind.statement Guarded.function Bind.function
      split
      · exact .pure nofun
      · refine (declareValue_safe hsite hsite.hasScope hname _ _).bind fun id s₁ hkeeps₁ hid => ?_
        refine .pure (declaration_fits hid (by simp [Declaration.isInterface]) ?_)
        exact ⟨hkeeps₁.hasScope hsite.hasScope, hparameters, hresult⟩
  | interface declaration =>
    cases h with
    | interface hname hmembers =>
      refine (declareType_safe hsite hname .interface _).bind fun id? s₁ hkeeps₁ hid => ?_
      cases id? with
      | none => exact .pure nofun
      | some id =>
        refine .pure (declaration_fits (hid id rfl) (by simp [Declaration.isInterface]) ?_)
        exact ⟨hkeeps₁.hasScope hsite.hasScope, hmembers⟩
  | typeAlias declaration =>
    cases h with
    | typeAlias hname htype =>
      refine (declareType_safe hsite hname .typeAlias _).bind fun id? s₁ hkeeps₁ hid => ?_
      cases id? with
      | none => exact .pure nofun
      | some id =>
        refine .pure (declaration_fits (hid id rfl) (by simp [Declaration.isInterface]) ?_)
        exact ⟨hkeeps₁.hasScope hsite.hasScope, hname, htype⟩
  | expression node value =>
    cases h with
    | expression h => exact .pure (assignment_fits hsite node h)
  | empty node => exact .pure nofun
  | block node body =>
    cases h with
    | block hspan h =>
      refine (openBlock_safe hsite hspan.ordered).bind fun _ s₁ _ hinner => ?_
      exact statements_safe hinner body h

/-- Binding the statements of a file is safe. -/
theorem statements_safe {text : List Char} {s : Program} {site : Site} (hsite : site.Fits s)
    (list : List Statement) (h : ∀ statement ∈ list, statement.Placed text) :
    Binds text.length (statements site list) (Bind.statements site list) s := by
  cases list with
  | nil => exact .pure nofun
  | cons first rest =>
    obtain ⟨hfirst, hrest⟩ := List.forall_mem_cons.mp h
    refine (statement_safe hsite first hfirst).bind fun bound s₁ hkeeps₁ hbound => ?_
    refine (statements_safe (hsite.mono hkeeps₁.toExtends) rest hrest).bind ?_
    intro more s₂ hkeeps₂ hmore
    refine .pure fun b hb => ?_
    rcases List.mem_append.mp hb with hb | hb
    · exact (hbound b hb).mono hkeeps₂.toExtends
    · exact hmore b hb

end

end Guarded

end ExpressionTyping
