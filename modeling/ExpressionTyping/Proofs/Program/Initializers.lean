import ExpressionTyping.Proofs.Program.Handing
import ExpressionTyping.Proofs.Program.Referring
import ExpressionTyping.Proofs.Program.Selecting
import ExpressionTyping.Proofs.Program.Stages

/-!
# Constants that are the names of values

A constant without an annotation whose initializer is the name of a value gets the type that the
value is read as where the constant is declared. Every symbol is resolved before any assignment is
recorded, so this is the type that the value is declared with, whatever is assigned to it before
(`Program.constant_type_eq`).
-/

set_option autoImplicit false

namespace ExpressionTyping

open Relation (TransGen)

/-! ## Reading before anything is assigned -/

/-- Where every step that succeeds gives the value of a function, all steps give its values. -/
theorem eq_map_of_mapM {α β : Type} {f : α → Option β} {g : α → β}
    (h : ∀ a b, f a = some b → b = g a) {list : List α} {bs : List β}
    (hrun : list.mapM f = some bs) : bs = list.map g := by
  induction list generalizing bs with
  | nil =>
    cases hrun
    rfl
  | cons a rest ih =>
    rw [List.mapM_cons] at hrun
    obtain ⟨b, hb, hrun⟩ := Option.bind_eq_some_iff.mp hrun
    obtain ⟨bs', hrest, hrun⟩ := Option.bind_eq_some_iff.mp hrun
    cases hrun
    rw [List.map_cons, ← h a b hb, ← ih hrest]

/-- Where a scope can tell whether it covers an offset, it tells the truth. -/
theorem Scope.covers_of_covers? {scope : Scope} {offset : Nat} {covered : Bool}
    (h : scope.covers? offset = some covered) : covered = scope.covers offset := by
  unfold covers? at h
  unfold covers
  split
  · rename_i htop
    rw [if_pos htop] at h
    exact (Option.some.inj h).symm
  · rename_i htop
    rw [if_neg htop] at h
    obtain ⟨span, hspan, h⟩ := Option.bind_eq_some_iff.mp h
    unfold Span.ofBounds? at hspan
    split at hspan
    · cases hspan
      exact (Option.some.inj h).symm
    · cases hspan

namespace Program

variable {program : Program} {file : FileId}

/-- A scope that is there is the one that the program gives. -/
theorem scope_of_scope? {id : ScopeId} {scope : Scope} (h : program.scope? id = some scope) :
    scope = program.scope id :=
  (HasScope.of_scope? h).2.symm

/-- The scopes around a location that are looked up are those around it. -/
theorem scopesAt_of_scopesAt? {location : Location} {scopes : List ScopeId}
    (h : program.scopesAt? location = some scopes) : scopes = program.scopesAt location := by
  have hmark (id : ScopeId) (marked : ScopeId × Bool)
      (h : program.mark? location.offset id = some marked) :
      marked = (id, (program.scope id).covers location.offset) := by
    obtain ⟨scope, hscope, h⟩ := Option.bind_eq_some_iff.mp h
    obtain ⟨covered, hcovered, h⟩ := Option.bind_eq_some_iff.mp h
    cases h
    rw [Scope.covers_of_covers? hcovered, scope_of_scope? hscope]
  unfold scopesAt? file? at h
  unfold scopesAt
  cases hinfo : program.files[location.file.index]? with
  | none =>
    rw [hinfo] at h
    exact (Option.some.inj h).symm
  | some info =>
    rw [hinfo] at h
    obtain ⟨marked, hmarked, h⟩ := Option.bind_eq_some_iff.mp h
    cases h
    rw [eq_map_of_mapM hmark hmarked, List.filter_map, List.map_map]
    exact List.map_id _

/-- A type that is looked up for a symbol at a location is what the symbol is read as there. -/
theorem typeAt_of_typeAt? {id : SymbolId} {location : Location} {type : TypeId}
    (h : program.typeAt? id location = some type) : type = program.typeAt id location := by
  obtain ⟨symbol, hsymbol, h⟩ := Option.bind_eq_some_iff.mp h
  obtain ⟨data, hdata, h⟩ := Option.bind_eq_some_iff.mp h
  obtain ⟨-, rfl⟩ := HasSymbol.of_symbol? hsymbol
  rw [← show program.types.get (program.symbol id).type = data from
    congrArg (Option.getD · default) hdata] at h
  rw [typeAt_eq]
  split
  · rename_i hunion
    rw [if_pos hunion] at h
    obtain ⟨scopes, hscopes, h⟩ := Option.bind_eq_some_iff.mp h
    obtain ⟨opened, hopened, h⟩ := Option.bind_eq_some_iff.mp h
    rw [eq_map_of_mapM (fun _ _ => scope_of_scope?) hopened, scopesAt_of_scopesAt? hscopes,
      List.flatMap_map] at h
    unfold assignmentsTo
    simp only at h
    split at h
    · rename_i hlatest
      rw [hlatest]
      exact (Option.some.inj h).symm
    · rename_i hlatest
      rw [hlatest]
      exact (Option.some.inj h).symm
  · rename_i hother
    rw [if_neg hother] at h
    exact (Option.some.inj h).symm

/-- Nothing is assigned in a file. -/
def Unassigned (program : Program) (file : FileId) : Prop :=
  ∀ offset, ∀ scope ∈ program.scopesAt ⟨file, offset⟩, (program.scope scope).assignments = []

/-- In a file without assignments, a symbol has its own type at every offset. -/
theorem Unassigned.typeAt_eq (h : program.Unassigned file) (id : SymbolId) (offset : Nat) :
    program.typeAt id ⟨file, offset⟩ = (program.symbol id).type := by
  rcases program.typeAt_cases id ⟨file, offset⟩ with hsame | ⟨-, scope, hscope, made, hmade, -⟩
  · exact hsame
  · rw [h offset scope hscope] at hmade
    cases hmade

end Program

/-- Resolving symbols leaves a file without assignments so. -/
theorem ResolveState.Steady.unassigned {s s' : ResolveState} (h : s.Steady s') {file : FileId}
    (hnone : s.program.Unassigned file) : s'.program.Unassigned file := by
  unfold Program.Unassigned Program.scopesAt Program.scope
  rw [h.files, h.sameScopes]
  exact hnone

/-! ## Constants and the values that they name -/

/-- The name that a constant is initialized with, and the scope in which it is looked up. -/
def Declaration.constantName? : Declaration → Option (ScopeId × Identifier)
  | .variableDecl scope true none (some initializer) => initializer.valueName?.map (scope, ·)
  | _ => none

/-- A constant with a name for its value is a variable with that value and without an annotation. -/
theorem Declaration.constantName?_eq_some {made : Declaration} {name : ScopeId × Identifier} :
    made.constantName? = some name ↔ ∃ initializer,
      made = .variableDecl name.1 true none (some initializer) ∧
        initializer.valueName? = some name.2 := by
  constructor
  · intro h
    unfold constantName? at h
    split at h
    · obtain ⟨ident, hident, rfl⟩ := Option.map_eq_some_iff.mp h
      exact ⟨_, rfl, hident⟩
    · cases h
  · rintro ⟨initializer, rfl, hname⟩
    rw [constantName?, hname]
    rfl

/-- The type that a variable is declared with. -/
def Declaration.annotation? : Declaration → Option TypeNode
  | .variableDecl _ _ type? _ => type?
  | _ => none

/-- A symbol is a constant that is initialized with the name of a value. -/
def Pending.Names (program : Program) (pending : Pending) (id value : SymbolId) : Prop :=
  ∃ scope initializer rest name,
    pending.declarationsOf id = .variableDecl scope true none (some initializer) :: rest ∧
      initializer.valueName? = some name ∧ program.resolveValue? scope name.text = some value

/-- A symbol is a variable that is declared with a type. -/
def Pending.Annotated (pending : Pending) (id : SymbolId) : Prop :=
  ∃ scope constant type initializer rest,
    pending.declarationsOf id = .variableDecl scope constant (some type) initializer :: rest

/-- A symbol whose first declaration has an annotation is declared with a type. -/
theorem Pending.annotated_of_annotation? {pending : Pending} {id : SymbolId}
    (h : ((pending.declarationsOf id).head?.bind Declaration.annotation?).isSome = true) :
    pending.Annotated id := by
  obtain ⟨type, htype⟩ := Option.isSome_iff_exists.mp h
  obtain ⟨first, hfirst, htype⟩ := Option.bind_eq_some_iff.mp htype
  obtain ⟨rest, hrest⟩ := List.head?_eq_some_iff.mp hfirst
  unfold Declaration.annotation? at htype
  split at htype
  · cases htype
    exact ⟨_, _, _, _, _, hrest⟩
  · cases htype

namespace ResolveState

variable {file : FileId} {pending : Pending} {active : List SymbolId} {query : Query}
  {base s s₁ s' : ResolveState}

/-- Constants that are resolved have the types that the values they name are declared with. -/
def Tied (start : Program) (pending : Pending) (s : ResolveState) : Prop :=
  ∀ id value, pending.Names start id value → pending.Annotated value → id ∈ s.resolved →
    value ∈ s.resolved ∧ (s.program.symbol id).type = (s.program.symbol value).type

/-- A symbol that is asked for and that nothing waits for is resolved. -/
theorem Course.resolves {id : SymbolId} (h : s.Course file pending active (.symbol id) s')
    (hactive : id ∉ active) (hdeclared : pending.declarationsOf id ≠ []) : id ∈ s'.resolved := by
  cases h with
  | circular hmem | waiting hmem => exact absurd hmem hactive
  | settled _ hsettled => exact hsettled.resolve_right hdeclared
  | settles => exact List.mem_cons_self

/-- The value that a constant names is resolved before the constant. -/
theorem Course.resolves_value {scope : ScopeId} {name? : Option Identifier} {name : Identifier}
    {value : SymbolId} (h : s.Course file pending active (.value scope name?) s')
    (hname : name? = some name) (hvalue : s.program.resolveValue? scope name.text = some value)
    (hactive : value ∉ active) (hdeclared : pending.declarationsOf value ≠ []) :
    value ∈ s'.resolved := by
  cases h with
  | plain hplain =>
    obtain ⟨hnone, -⟩ := hplain name hname
    cases hnone.symm.trans hvalue
  | named hfound h =>
    cases hname
    cases hfound.symm.trans hvalue
    exact h.resolves hactive hdeclared
  | unnamed hnone =>
    cases hname
    cases hnone.symm.trans hvalue

/-- What is resolved keeps its type, so only what gets resolved is looked at. -/
theorem Tied.steady {start : Program} (h : s.Tied start pending) (hsteady : s.Steady s')
    (hsorted : s.Sorted pending)
    (hnew : ∀ id ∈ s'.resolved, id ∈ s.resolved ∨
      ∀ value, pending.Names start id value → pending.Annotated value →
        value ∈ s'.resolved ∧ (s'.program.symbol id).type = (s'.program.symbol value).type) :
    s'.Tied start pending := by
  intro id value hnames hannotated hid
  rcases hnew id hid with hid | hnew
  · obtain ⟨hvalue, htype⟩ := h id value hnames hannotated hid
    have hhas {id : SymbolId} {first : Declaration} {rest : List Declaration}
        (hdeclarations : pending.declarationsOf id = first :: rest) : s.program.HasSymbol id :=
      hsorted.hasSymbol_of_declares ⟨first, Pending.mem_of_declarationsOf hdeclarations⟩
    obtain ⟨_, _, _, _, hfirst, -⟩ := hnames
    obtain ⟨_, _, _, _, _, hsecond⟩ := hannotated
    refine ⟨hsteady.resolved hvalue, ?_⟩
    rw [hsteady.fixed id hid (hhas hfirst), hsteady.fixed value hvalue (hhas hsecond)]
    exact htype
  · exact hnew value hnames hannotated

/-- What is resolved while nothing is assigned keeps constants tied to the values they name. -/
theorem Course.tied (h : s.Course file pending active query s') (hbase : base.Steady s)
    (hsorted : base.Sorted pending) (hnone : base.program.Unassigned file)
    (haround : query.Around base.program pending active) (htied : s.Tied base.program pending) :
    s'.Tied base.program pending := by
  have hkeeps {s s' : ResolveState} (hbase : base.Steady s) (hsteady : s.Steady s')
      (hresolved : s'.resolved = s.resolved) (htied : s.Tied base.program pending) :
      s'.Tied base.program pending :=
    htied.steady hsteady (hbase.toGoesOn.sorted hsorted) fun id hid => .inl (hresolved ▸ hid)
  induction h with
  | quiet h | plain _ h => exact hkeeps hbase h.steady h.resolved htied
  | append h _ ih ih' =>
    exact ih' (hbase.trans h.steady) haround.right (ih hbase haround.left htied)
  | found hname hfound _ ih =>
    rw [hbase.resolveType?_eq] at hfound
    exact ih hbase (haround.found hname hfound) htied
  | named hfound _ ih =>
    rw [hbase.resolveValue?_eq] at hfound
    exact ih hbase (haround.named hfound) htied
  | unknown | unnamed | circular => exact hkeeps hbase (reported_steady _ _ _ _) rfl htied
  | @settles active id first rest type s s₁ hactive hresolved hdeclarations h hsymbol hvalue ih =>
    have hsteady := hbase.trans h.steady
    have hwaits : id ∉ s₁.resolved := fun hid => hresolved (h.waits id List.mem_cons_self hid)
    have haround' := haround.declared hdeclarations
    refine (ih hbase haround' htied).steady (settle_steady hwaits type)
      (hsteady.toGoesOn.sorted hsorted) fun other hother => ?_
    refine (List.mem_cons.mp hother).symm.imp_right ?_
    rintro rfl value ⟨scope, initializer, _, name, hfirst, hname, hfound⟩ hannotated
    cases hdeclarations.symm.trans hfirst
    obtain ⟨_, _, _, _, _, hsecond⟩ := hannotated
    -- an annotated value is not being resolved, as it would lead to itself
    have hfree : value ∉ other :: active := fun hmem =>
      Pending.not_refers_annotated ⟨hsorted.names, hsorted.kinds⟩ hsecond
        (haround' value ⟨name, hname, hfound⟩ value hmem)
    rw [← hbase.resolveValue?_eq] at hfound
    have hmem : value ∈ s₁.resolved :=
      h.resolves_value hname hfound hfree (by rw [hsecond]; exact List.cons_ne_nil _ _)
    obtain ⟨offset, htype⟩ := hvalue scope initializer name value rfl hname hfound
    refine ⟨List.mem_cons_of_mem _ hmem, ?_⟩
    have hne : value ≠ other := List.ne_of_not_mem_cons hfree
    rw [Guarded.symbol_settle hsymbol, Guarded.symbol_settle_of_ne hne]
    exact (Program.typeAt_of_typeAt? htype).trans
      ((hsteady.unassigned hnone).typeAt_eq value offset)
  | _ => exact htied

end ResolveState

/-- When everything is resolved that is declared, constants have the types of the values that they
name, if nothing was assigned before. -/
theorem Guarded.recording_tied {file : FileId} {bound : List Bound} {start : Program}
    {s' : ResolveState} (hsorted : ResolveState.Sorted (Resolve.pendingOf bound) ⟨start, []⟩)
    (hnone : start.Unassigned file)
    (hrun : (recording file bound []).run ⟨start, []⟩ = some ((), s')) :
    s'.Tied start (Resolve.pendingOf bound) := by
  refine (declarations_keep hsorted hrun
    (motive := ResolveState.Tied start (Resolve.pendingOf bound)) (fun _ _ _ _ => nofun) ?_ ?_).2
  · intro query s s' hbase hcourse htied
    exact hcourse.tied hbase hsorted hnone (.nothing query) htied
  · intro id s s' hbase hsort hshapes htied
    refine htied.steady hshapes.steady (hbase.toGoesOn.sorted hsorted) ?_
    intro other hother
    rw [hshapes.order] at hother
    refine (List.mem_cons.mp hother).symm.imp_right ?_
    rintro rfl value ⟨_, _, _, _, hfirst, -⟩
    have htype := (hbase.toGoesOn.sorted hsorted).isType_eq (Pending.mem_of_declarationsOf hfirst)
    rw [hsort] at htype
    cases htype

/-! ## Compiled files -/

namespace Program

variable {program : Program}

/-- Nothing is assigned in a file while its names are bound. -/
theorem boundIn_unassigned (program : Program) (file : SourceFile) :
    (program.boundIn file).2.Unassigned ⟨program.files.size⟩ := by
  intro offset scope hscope
  have hlisted := (program.boundIn_binds file).1.listed
  have hnew : (program.withFile file).file? ⟨program.files.size⟩ =
      some ⟨file.name, file.node.span.stop, [], []⟩ := Array.getElem?_push_size
  rw [hnew] at hlisted
  obtain ⟨info, hinfo, heq⟩ := Option.map_eq_some_iff.mp hlisted
  unfold scopesAt at hscope
  rw [show (program.boundIn file).2.files[program.files.size]? = some info from hinfo] at hscope
  have hmem := (List.mem_filter.mp hscope).1
  rw [show info.scopes = (program.openedBy file).map BlockScope.id from (Prod.mk.inj heq).2] at hmem
  obtain ⟨block, hblock, rfl⟩ := List.mem_map.mp hmem
  exact Compiled.boundIn_assignments hblock

namespace Compiled

variable (h : program.Compiled) {file : SourceFile} {text : List Char}
  (hplaced : ∀ statement ∈ file.statements, statement.Placed text)
include h hplaced

/-- When everything is resolved that a file declares, and nothing is recorded yet, constants have
the types of the values that they name. -/
theorem recordedIn_tied :
    (program.recordedIn file []).Tied (program.boundIn file).2
      (Resolve.pendingOf (program.boundIn file).1.2) :=
  Guarded.recording_tied (h.sorted.boundIn file) (program.boundIn_unassigned file)
    (h.recordedIn hplaced (List.nil_subset _)).1

/-- This is still so in the compiled program. -/
theorem constant_type {id value : SymbolId}
    (hnames :
      (Resolve.pendingOf (program.boundIn file).1.2).Names (program.boundIn file).2 id value)
    (hannotated : (Resolve.pendingOf (program.boundIn file).1.2).Annotated value) :
    (program.add file).2.HasSymbol id ∧ (program.add file).2.HasSymbol value ∧
      ((program.add file).2.symbol id).type = ((program.add file).2.symbol value).type := by
  obtain ⟨-, -, -, hresolved⟩ := h.recordedIn hplaced (List.nil_subset _)
  have hready := h.recordedIn_ready hplaced (List.nil_subset _)
  have hrecords : (program.recordedIn file []).Records ⟨program.files.size⟩
      (Resolve.pendingOf (program.boundIn file).1.2) [] (program.resolvedIn file) := by
    have hall : [] ++ (program.boundIn file).1.2 ⊆ (program.boundIn file).1.2 := List.Subset.refl _
    exact program.recordedIn_bound file ▸ h.recordedIn_records hplaced hall
  have hhas {id : SymbolId} {first : Declaration} {rest : List Declaration}
      (hdeclarations : (Resolve.pendingOf (program.boundIn file).1.2).declarationsOf id =
        first :: rest) :
      id ∈ (program.recordedIn file []).resolved ∧
        (program.recordedIn file []).program.HasSymbol id := by
    have hdeclares : (Resolve.pendingOf (program.boundIn file).1.2).Declares id :=
      ⟨first, Pending.mem_of_declarationsOf hdeclarations⟩
    exact ⟨hresolved id hdeclares, hready.orderly.sorted.hasSymbol_of_declares hdeclares⟩
  have ⟨_, _, _, _, hfirst, _⟩ := hnames
  have ⟨_, _, _, _, _, hsecond⟩ := hannotated
  obtain ⟨hmem, hhasFirst⟩ := hhas hfirst
  obtain ⟨-, hhasSecond⟩ := hhas hsecond
  refine ⟨hrecords.hasSymbol hhasFirst, hrecords.hasSymbol hhasSecond, ?_⟩
  have htype {id : SymbolId} (hid : (program.recordedIn file []).program.HasSymbol id) :
      ((program.add file).2.symbol id).type =
        ((program.recordedIn file []).program.symbol id).type :=
    hrecords.type_eq (hready.settled id hid)
  rw [htype hhasFirst, htype hhasSecond]
  exact (h.recordedIn_tied hplaced _ _ hnames hannotated hmem).2

/-- A constant has the type that the value it names is declared with. -/
theorem constant_type_of_mem {all : Program} (hgrows : (program.add file).2.Grows all)
    {id value : SymbolId} {scope : ScopeId} {initializer : Expr} {ident : Identifier}
    (hmem : .declaration id (.variableDecl scope true none (some initializer)) ∈
      (program.boundIn file).1.2) (hname : initializer.valueName? = some ident)
    (hfound : all.resolveValue? scope ident.text = some value)
    (hannotated : (Resolve.pendingOf (program.boundIn file).1.2).Annotated value) :
    (all.symbol id).type = (all.symbol value).type := by
  obtain ⟨-, -, -, -, hbound⟩ := h.wellFormed.boundIn hplaced
  have hscope : (program.boundIn file).2.HasScope scope := (hbound _ hmem).fits.1
  rw [(h.resolves_eq hplaced hgrows hscope _).1] at hfound
  have hpending := Resolve.mem_pendingOf.mpr hmem
  have honce := h.declarationsOf_eq hplaced hpending
    (Declaration.not_merges_of_constant (isOf_of_mem h.sorted hpending))
  obtain ⟨hid, hvalue, htype⟩ := h.constant_type hplaced
    ⟨scope, initializer, [], ident, honce, hname, hfound⟩ hannotated
  rw [hgrows.symbol_eq hid, hgrows.symbol_eq hvalue]
  exact htype

end Compiled

/-- A constant of a compiled text, which may have errors, whose initializer is the name of a value
that is declared with a type has the type that the value is declared with. So it has the type that
the value is read as at any location of the text before which nothing is assigned to the value, in
the scopes around the location. -/
theorem constant_type_eq (before : List (String × String)) (name text : String)
    (after : List (String × String)) :
    let host := ofTexts before
    let bound := (host.boundIn (SourceFile.parse name text).tree).1.2
    let program := ofTexts (before ++ (name, text) :: after)
    ∀ id scope initializer ident value,
      .declaration id (.variableDecl scope true none (some initializer)) ∈ bound →
      initializer.valueName? = some ident → program.resolveValue? scope ident.text = some value →
      (∃ scope constant type initializer rest, (Resolve.pendingOf bound).declarationsOf value =
        .variableDecl scope constant (some type) initializer :: rest) →
      (program.symbol id).type = (program.symbol value).type ∧
        ∀ offset, (∀ a, .assignment a ∈ bound →
            a.scope ∈ program.scopesAt ⟨⟨before.length⟩, offset⟩ → a.stop ≤ offset →
            program.resolveValue? a.scope a.target.text ≠ some value) →
          program.typeAt value ⟨⟨before.length⟩, offset⟩ = (program.symbol id).type := by
  intro host bound program id scope initializer ident value hmem hname hfound hannotated
  obtain ⟨hbefore, -⟩ := ofTexts_compiled before
  have hplaced := (SourceFile.parse_placed name text).1
  have hgrows : (host.add (SourceFile.parse name text).tree).2.Grows program := by
    obtain ⟨-, hgrows, -⟩ := (hbefore.add hplaced).addTexts after
    rw [show program = _ from ofTexts_append before (name, text) after]
    exact hgrows
  have htype : (program.symbol id).type = (program.symbol value).type :=
    hbefore.constant_type_of_mem hplaced hgrows hmem hname hfound hannotated
  refine ⟨htype, fun offset hnone => ?_⟩
  rw [htype]
  refine (typeAt_origin _ value ⟨⟨before.length⟩, offset⟩).resolve_right ?_
  rintro ⟨-, -, -, before', name', text', after', hsources, hfile, a, hbound, hscope, hstop,
    hresolves⟩
  have hlength : before.length = before'.length := congrArg FileId.index hfile
  obtain ⟨rfl, hrest⟩ := List.append_inj hsources hlength
  obtain ⟨⟨⟩, -⟩ := List.cons.inj hrest
  exact hnone a hbound hscope hstop hresolves

/-- In this text a constant is initialized with the name of a variable. -/
theorem constant_named :
    let bound := ((ofTexts []).boundIn (SourceFile.parse "test.d.ts"
      "let x: string | number;\nx = 1;\nconst y = x;\n").tree).1.2
    let program := ofTexts [("test.d.ts", "let x: string | number;\nx = 1;\nconst y = x;\n")]
    ∃ scope initializer ident,
      .declaration ⟨2⟩ (.variableDecl scope true none (some initializer)) ∈ bound ∧
        initializer.valueName? = some ident ∧
        program.resolveValue? scope ident.text = some ⟨1⟩ := by
  intro bound program
  have hconstant : ∃ entry ∈ Resolve.pendingOf bound, entry.1 = ⟨2⟩ ∧
      ∃ name ∈ entry.2.constantName?, program.resolveValue? name.1 name.2.text = some ⟨1⟩ := by
    decide +kernel
  obtain ⟨entry, hmem, hid, name, hconstant, hresolves⟩ := hconstant
  obtain ⟨initializer, hmade, hname⟩ := Declaration.constantName?_eq_some.mp hconstant
  refine ⟨name.1, initializer, name.2, ?_, hname, hresolves⟩
  rw [← hid, ← hmade]
  exact Resolve.mem_pendingOf.mp hmem

/-- A constant has the type that a variable is declared with, and the variable is read as that
before it is assigned. -/
theorem constant_type_eq_union :
    let program := ofTexts [("test.d.ts", "let x: string | number;\nx = 1;\nconst y = x;\n")]
    (program.symbol ⟨2⟩).type = (program.symbol ⟨1⟩).type ∧
      program.typeAt ⟨1⟩ ⟨⟨0⟩, 7⟩ = (program.symbol ⟨2⟩).type := by
  obtain ⟨scope, initializer, ident, hmem, hname, hfound⟩ := constant_named
  have hannotated : (((Resolve.pendingOf ((ofTexts []).boundIn (SourceFile.parse "test.d.ts"
      "let x: string | number;\nx = 1;\nconst y = x;\n").tree).1.2).declarationsOf
        ⟨1⟩).head?.bind Declaration.annotation?).isSome = true := by
    decide +kernel
  have hassigned : ∀ a ∈ ((ofTexts []).boundIn (SourceFile.parse "test.d.ts"
      "let x: string | number;\nx = 1;\nconst y = x;\n").tree).1.2.filterMap Bound.assignment?,
      7 < a.stop := by
    decide +kernel
  obtain ⟨htype, hread⟩ := constant_type_eq [] "test.d.ts"
    "let x: string | number;\nx = 1;\nconst y = x;\n" [] ⟨2⟩ scope initializer ident ⟨1⟩ hmem hname
    hfound (Pending.annotated_of_annotation? hannotated)
  refine ⟨htype, hread 7 fun a ha _ hstop => ?_⟩
  exact absurd (hassigned a (List.mem_filterMap.mpr ⟨_, ha, rfl⟩)) (Nat.not_lt.mpr hstop)

/-- A constant that is initialized with the name of a variable does not get the type that the
variable is read as there: after a number is assigned to it the variable is read as a number, and
the constant still gets the declared union. -/
theorem constant_not_narrowed :
    let bound := ((ofTexts []).boundIn (SourceFile.parse "test.d.ts"
      "let x: string | number;\nx = 1;\nconst y = x;\n").tree).1.2
    let program := ofTexts [("test.d.ts", "let x: string | number;\nx = 1;\nconst y = x;\n")]
    ∃ id scope initializer ident value location,
      .declaration id (.variableDecl scope true none (some initializer)) ∈ bound ∧
      initializer.valueName? = some ident ∧
      program.resolveValue? scope ident.text = some value ∧
      (∃ members, program.types.get (program.symbol value).type = .union members) ∧
      (program.symbol id).declarations = [location] ∧
      program.typeAt value location ≠ (program.symbol id).type := by
  intro bound program
  obtain ⟨scope, initializer, ident, hmem, hname, hfound⟩ := constant_named
  have hread : program.types.get (program.symbol ⟨1⟩).type =
        .union [.ofWord .string, .ofWord .number] ∧
      (program.symbol ⟨2⟩).declarations = [⟨⟨0⟩, 37⟩] ∧
      program.typeAt ⟨1⟩ ⟨⟨0⟩, 37⟩ ≠ (program.symbol ⟨2⟩).type := by
    decide +kernel
  obtain ⟨hunion, hlocation, hne⟩ := hread
  exact ⟨⟨2⟩, scope, initializer, ident, ⟨1⟩, ⟨⟨0⟩, 37⟩, hmem, hname, hfound, ⟨_, hunion⟩,
    hlocation, hne⟩

end Program

end ExpressionTyping
