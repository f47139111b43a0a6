import ExpressionTyping.Proofs.Program.Signatures
import ExpressionTyping.Proofs.Syntax.TypeNames

/-!
# The course of resolution

To resolve a symbol is to look up the names in its declarations one after the other, each of which
may lead to another symbol that is resolved first. `Course` says what such a run does, without a
limit and without types where they do not matter: it is a big-step relation between states of
resolution, with one rule for each thing that may come of a name. Every run of resolution that does
not fail is one (`Guarded.symbol_course`), so what holds of all runs is shown by induction on the
rules.
-/

set_option autoImplicit false

namespace ExpressionTyping

/-! ## What is asked for -/

/-- What resolution is asked for. -/
inductive Query where
  /-- What names of types mean, each in a scope, one after the other. -/
  | names (names : List (ScopeId × Identifier))
  /-- The type of a value that is written down in a scope, which may be the name of another. -/
  | value (scope : ScopeId) (name? : Option Identifier)
  /-- The type of a symbol. -/
  | symbol (id : SymbolId)

/-- The names of types in a declaration, with the scope of the declaration. -/
def Declaration.names (counts : Identifier → Bool) (declaration : Declaration) :
    List (ScopeId × Identifier) :=
  match declaration with
  | .variableDecl scope _ type? _ => (annotationNames counts type?).map (scope, ·)
  | .function scope parameters result =>
    (parameterNames counts parameters ++ annotationNames counts result).map (scope, ·)
  | .interface scope members => (elementNames counts members).map (scope, ·)
  | .typeAlias scope _ type => (type.names counts).map (scope, ·)

/-- What the declarations of a symbol ask for when it is resolved. An interface gets its members
apart from that. -/
def Declaration.query (first : Declaration) (all : List Declaration) : Query :=
  match first with
  | .variableDecl scope _ none (some initializer) => .value scope initializer.valueName?
  | .function _ _ _ =>
    .names ((all.filter isFunction).flatMap (Declaration.names Identifier.isThere))
  | .interface _ _ => .names []
  | .variableDecl _ _ _ _ | .typeAlias _ _ _ => .names (first.names Identifier.isThere)

/-! ## Runs of resolution -/

/-- Types and symbols of members are added, methods get signatures, and nothing else happens. -/
structure ResolveState.Quiet (s s' : ResolveState) : Prop where
  enlarged : s.program.Enlarged s'.program
  issues : s'.program.issues = s.program.issues
  resolved : s'.resolved = s.resolved

namespace ResolveState

/-- The state after a report. -/
def reported (s : ResolveState) (file : FileId) (span : Span) (problem : Problem) : ResolveState :=
  { s with program := (((Compile.report file span problem).run s.program).2) }

variable (file : FileId) (pending : Pending)

/-- What is asked for is resolved while some symbols are being resolved, and leads from one state to
another. -/
inductive Course : List SymbolId → Query → ResolveState → ResolveState → Prop where
  /-- Nothing is looked up. -/
  | quiet {active : List SymbolId} {s s' : ResolveState} (h : s.Quiet s') :
      Course active (.names []) s s'
  /-- Names are looked up after others. -/
  | append {active : List SymbolId} {names names' : List (ScopeId × Identifier)}
      {s s₁ s' : ResolveState} (h : Course active (.names names) s s₁)
      (h' : Course active (.names names') s₁ s') : Course active (.names (names ++ names')) s s'
  /-- A missing name means nothing. -/
  | missing {active : List SymbolId} {scope : ScopeId} {name : Identifier} {s : ResolveState}
      (hname : name.isThere = false) : Course active (.names [(scope, name)]) s s
  /-- A name leads to a type. -/
  | found {active : List SymbolId} {scope : ScopeId} {name : Identifier} {id : SymbolId}
      {s s' : ResolveState} (hname : name.isThere = true)
      (hfound : s.program.resolveType? scope name.text = some id)
      (h : Course active (.symbol id) s s') : Course active (.names [(scope, name)]) s s'
  /-- A name has a meaning without a declaration. -/
  | builtIn {active : List SymbolId} {scope : ScopeId} {name : Identifier} {s : ResolveState}
      (hname : name.isThere = true) (hnone : s.program.resolveType? scope name.text = none)
      (hknown : name.text = "Function" ∨ name.text = "Object") :
      Course active (.names [(scope, name)]) s s
  /-- A name that leads nowhere is reported. -/
  | unknown {active : List SymbolId} {scope : ScopeId} {name : Identifier} {s : ResolveState}
      (hname : name.isThere = true) (hnone : s.program.resolveType? scope name.text = none)
      (hfunction : name.text ≠ "Function") (hobject : name.text ≠ "Object") :
      Course active (.names [(scope, name)]) s
        (s.reported file name.node.span (.unknownName name.text))
  /-- A value is not a name, or `undefined`. -/
  | plain {active : List SymbolId} {scope : ScopeId} {name? : Option Identifier}
      {s s' : ResolveState} (hname : ∀ name, name? = some name →
        s.program.resolveValue? scope name.text = none ∧ name.text = "undefined")
      (h : s.Quiet s') : Course active (.value scope name?) s s'
  /-- A value is the name of another. -/
  | named {active : List SymbolId} {scope : ScopeId} {name : Identifier} {id : SymbolId}
      {s s' : ResolveState} (hfound : s.program.resolveValue? scope name.text = some id)
      (h : Course active (.symbol id) s s') : Course active (.value scope (some name)) s s'
  /-- A value is a name that leads nowhere, which is reported. -/
  | unnamed {active : List SymbolId} {scope : ScopeId} {name : Identifier} {s : ResolveState}
      (hnone : s.program.resolveValue? scope name.text = none)
      (hundefined : name.text ≠ "undefined") :
      Course active (.value scope (some name)) s
        (s.reported file name.node.span (.unknownName name.text))
  /-- An alias that is being resolved is reported. -/
  | circular {active : List SymbolId} {id : SymbolId} {span : Span} {s : ResolveState}
      (hactive : id ∈ active) (hspan : Resolve.aliasSpan? (pending.declarationsOf id) = some span) :
      Course active (.symbol id) s
        (s.reported file span (.circularAlias (s.program.symbol id).name))
  /-- Another symbol that is being resolved is left alone. -/
  | waiting {active : List SymbolId} {id : SymbolId} {s : ResolveState} (hactive : id ∈ active)
      (hspan : Resolve.aliasSpan? (pending.declarationsOf id) = none) :
      Course active (.symbol id) s s
  /-- A symbol has its type. -/
  | settled {active : List SymbolId} {id : SymbolId} {s : ResolveState} (hactive : id ∉ active)
      (hsettled : id ∈ s.resolved ∨ pending.declarationsOf id = []) :
      Course active (.symbol id) s s
  /-- A symbol gets its type once what it asks for is resolved. A constant that is the name of a
  value gets the type that the value is read as. -/
  | settles {active : List SymbolId} {id : SymbolId} {first : Declaration}
      {rest : List Declaration} {type : TypeId} {s s₁ : ResolveState} (hactive : id ∉ active)
      (hresolved : id ∉ s.resolved) (hdeclarations : pending.declarationsOf id = first :: rest)
      (h : Course (id :: active) (first.query (first :: rest)) s s₁)
      (hsymbol : s₁.program.HasSymbol id)
      (hvalue : ∀ scope initializer name value,
        first = .variableDecl scope true none (some initializer) →
        initializer.valueName? = some name →
        s.program.resolveValue? scope name.text = some value →
        ∃ offset, s₁.program.typeAt? value ⟨file, offset⟩ = some type) :
      Course active (.symbol id) s (Guarded.settle s₁ id type)

end ResolveState

/-! ## What a run keeps -/

/-- Resolving goes on: reports are added to those before, symbols get resolved one after the other,
and those that are resolved keep their types. -/
structure ResolveState.Steady (s s' : ResolveState) : Prop extends GoesOn s s' where
  issues : s.program.issues <+: s'.program.issues
  order : s.resolved <:+ s'.resolved
  sameScopes : s'.program.scopes = s.program.scopes
  fixed : ∀ id ∈ s.resolved, s.program.HasSymbol id →
    (s'.program.symbol id).type = (s.program.symbol id).type

namespace ResolveState

variable {file : FileId} {pending : Pending} {active : List SymbolId} {query : Query}
  {s s₁ s' : ResolveState}

namespace Steady

/-- A state is steady towards itself. -/
theorem refl (s : ResolveState) : s.Steady s :=
  { GoesOn.refl s with
    issues := List.prefix_rfl
    order := List.suffix_rfl
    sameScopes := rfl
    fixed := fun _ _ _ => rfl }

/-- Steadiness goes on from state to state. -/
theorem trans (h : s.Steady s₁) (h' : s₁.Steady s') : s.Steady s' :=
  { h.toGoesOn.trans h'.toGoesOn with
    issues := h.issues.trans h'.issues
    order := h.order.trans h'.order
    sameScopes := h'.sameScopes.trans h.sameScopes
    fixed := fun id hid hhas =>
      (h'.fixed id (h.resolved hid) (h.hasSymbol hhas)).trans (h.fixed id hid hhas) }

end Steady

/-- A quiet stretch is steady. -/
theorem Quiet.steady (h : s.Quiet s') : s.Steady s' :=
  { h.enlarged.goesOn (h.resolved ▸ List.Subset.refl _) with
    issues := h.issues ▸ List.prefix_rfl
    order := h.resolved ▸ List.suffix_rfl
    sameScopes := h.enlarged.scopes
    fixed := fun _ _ hhas => congrArg Symbol.type (h.enlarged.symbol_eq hhas) }

/-- A report changes nothing but the list of reports. -/
theorem reported_steady (s : ResolveState) (file : FileId) (span : Span) (problem : Problem) :
    s.Steady (s.reported file span problem) :=
  { GoesOn.refl s with
    issues := List.prefix_append _ _
    order := List.suffix_rfl
    sameScopes := rfl
    fixed := fun _ _ _ => rfl }

/-- Settling a symbol that is not resolved leaves the resolved ones as they are. -/
theorem settle_steady {id : SymbolId} (hresolved : id ∉ s.resolved) (type : TypeId) :
    s.Steady (Guarded.settle s id type) :=
  { Guarded.settle_goesOn s id type with
    issues := List.prefix_rfl
    order := List.suffix_cons _ _
    sameScopes := rfl
    fixed := fun other hother _ => by
      rw [Guarded.symbol_settle_of_ne]
      rintro rfl
      exact hresolved hother }

/-- Nothing happening is quiet. -/
theorem Quiet.refl (s : ResolveState) : s.Quiet s :=
  ⟨.refl _, rfl, rfl⟩

/-- Names are looked up, and then something is added. -/
theorem Course.then {names : List (ScopeId × Identifier)}
    (h : s.Course file pending active (.names names) s₁) (hquiet : s₁.Quiet s') :
    s.Course file pending active (.names names) s' :=
  List.append_nil names ▸ h.append (.quiet hquiet)

/-- Symbols that are being resolved get resolved by nothing else. -/
theorem Course.waits (h : s.Course file pending active query s') :
    ∀ id ∈ active, id ∈ s'.resolved → id ∈ s.resolved := by
  induction h with
  | quiet h | plain _ h =>
    rw [h.resolved]
    exact fun _ _ hid => hid
  | append _ _ ih ih' => exact fun id hid hmem => ih id hid (ih' id hid hmem)
  | found _ _ _ ih | named _ _ ih => exact ih
  | settles hactive _ _ _ _ _ ih =>
    intro other hother hmem
    rcases List.mem_cons.mp hmem with rfl | hmem
    · exact absurd hother hactive
    · exact ih other (List.mem_cons_of_mem _ hother) hmem
  | _ => exact fun _ _ hid => hid

/-- Whatever a query does, what was settled before it stays. -/
theorem Course.steady (h : s.Course file pending active query s') : s.Steady s' := by
  induction h with
  | quiet h | plain _ h => exact h.steady
  | append _ _ ih ih' => exact ih.trans ih'
  | found _ _ _ ih | named _ _ ih => exact ih
  | unknown | unnamed | circular => exact reported_steady _ _ _ _
  | settles hactive hresolved _ h _ _ ih =>
    refine ih.trans (settle_steady ?_ _)
    exact fun hmem => hresolved (h.waits _ List.mem_cons_self hmem)
  | _ => exact .refl _

end ResolveState

/-! ## Runs that do not fail -/

/-- A program is enlarged, and nothing is reported. -/
def Discipline.quiet : Discipline Program where
  inv _ := True
  rel before after := before.Enlarged after ∧ after.issues = before.issues
  refl program := ⟨.refl program, rfl⟩
  trans h h' := ⟨h.1.trans h'.1, h'.2.trans h.2⟩

namespace Guarded

open ResolveState

variable {file : FileId} {pending : Pending} {active : List SymbolId}

/-- A step on the types of a program is quiet. -/
theorem onTypes_quiet {s : Program} {f : TypeTable → TypeId × TypeTable}
    (hreaches : s.types.Reaches (f s.types).2) :
    Ends .quiet (step (Compile.onTypes f)) s fun _ _ => True :=
  .step fun _ =>
    ⟨trivial, ⟨⟨hreaches, fun _ _ => rfl, rfl, rfl, List.prefix_rfl⟩, rfl⟩, trivial⟩

/-- A type that is shared is made quietly. -/
theorem shareType_quiet {s : Program} (data : TypeData) (hshared : data.isShared = true)
    (hflat : ∀ members, data ≠ .union members) :
    Ends .quiet (step (Compile.shareType data)) s fun _ _ => True :=
  onTypes_quiet (.single (.share hshared hflat))

/-- An object is made quietly. -/
theorem addObject_quiet {s : Program} (name? : Option String) (members : SymbolTable SymbolId)
    (signatures : List Signature) :
    Ends .quiet (step (Compile.addType (.object name? members signatures))) s fun _ _ => True :=
  onTypes_quiet (.single (.addObject name? members signatures))

/-- A union is made quietly. -/
theorem unionOf_quiet (ids : List TypeId) (s : Program) :
    Ends .quiet (unionOf ids) s fun _ _ => True := by
  refine Ends.get.bind ?_
  rintro _ s₁ - - ⟨rfl, rfl⟩
  exact .found fun _ hall => onTypes_quiet (.single (.unionOf (lt_of_getAll? hall)))

/-- A member is added quietly. -/
theorem addMember_quiet (members : SymbolTable SymbolId) (location : Location) (name : String)
    (sort : SymbolSort) (type : TypeId) (s : Program) :
    Ends .quiet (addMember members location name sort type) s fun _ _ => True := by
  intro _ s' hrun _
  obtain ⟨-, rfl⟩ := addMember_run hrun
  exact ⟨trivial, ⟨s.pushMember_enlarged location name sort type, rfl⟩, trivial⟩

/-- A method is added quietly. -/
theorem addMethod_quiet (members : SymbolTable SymbolId) (location : Location) (name : String)
    (signature : Signature) (s : Program) :
    Ends .quiet (addMethod members location name signature) s fun _ _ => True := by
  intro _ s' hrun _
  rcases addMethod_run hrun with ⟨type, -, -, rfl⟩ | ⟨-, -, rfl⟩
  · exact ⟨trivial, ⟨s.addSignature_enlarged type signature, rfl⟩, trivial⟩
  · exact ⟨trivial, ⟨(s.pushMethod_grown location name signature).toEnlarged, rfl⟩, trivial⟩

/-- What is built quietly is resolved quietly. -/
theorem compile_quiet {α : Type} {q : Guarded Program α} {s : ResolveState}
    {P : α → Program → Prop} (h : Ends .quiet q s.program P) :
    Ends (.free _) (compile q) s fun _ s' => s.Quiet s' := by
  intro a s' hrun _
  rw [compile_run] at hrun
  obtain ⟨⟨a', program⟩, hq, heq⟩ := Option.bind_eq_some_iff.mp hrun
  cases heq
  obtain ⟨-, ⟨henlarged, hissues⟩, -⟩ := h _ _ hq trivial
  exact ⟨trivial, trivial, ⟨henlarged, hissues, rfl⟩⟩

/-- A report does just that. -/
theorem report_reports (file : FileId) (span : Span) (problem : Problem) (s : ResolveState) :
    Ends (.free _) (compile (report file span problem)) s
      fun _ s' => s' = s.reported file span problem := by
  have hreport : Ends (.free _) (report file span problem) s.program fun _ after =>
      after = ((Compile.report file span problem).run s.program).2 := by
    refine Ends.get.bind ?_
    rintro _ _ - - ⟨rfl, rfl⟩
    exact .found fun _ _ => .found fun _ _ => .step fun _ => ⟨trivial, trivial, rfl⟩
  intro a s' hrun _
  rw [compile_run] at hrun
  obtain ⟨⟨a', program⟩, hq, heq⟩ := Option.bind_eq_some_iff.mp hrun
  cases heq
  obtain ⟨-, -, rfl⟩ := hreport _ _ hq trivial
  exact ⟨trivial, trivial, rfl⟩

/-- The type of a literal is found quietly. -/
theorem literalType_quiet (value : Literal) (s : ResolveState) :
    Ends (.free _) (step (Resolve.literalType value)) s fun _ s' => s.Quiet s' := by
  have hshare (data : TypeData) (hshared : data.isShared = true)
      (hflat : ∀ members, data ≠ .union members) :
      Ends (.free _) (step (Resolve.compile (Compile.shareType data))) s fun _ s' => s.Quiet s' :=
    compile_quiet (shareType_quiet data hshared hflat)
  have hrefl := Quiet.refl s
  cases value with
  | string text | template text => exact hshare (.stringLiteral text) rfl nofun
  | number text => exact hshare (.numberLiteral text) rfl nofun
  | boolean value => exact .step fun _ => ⟨trivial, trivial, hrefl⟩
  | null => exact .step fun _ => ⟨trivial, trivial, hrefl⟩

section Annotations

variable {lookup : ScopeId → Identifier → Guarded ResolveState TypeId} {scope : ScopeId}

/-- A step looks up names, one after the other. -/
abbrev LooksUp (file : FileId) (pending : Pending) (active : List SymbolId) {α : Type}
    (q : Guarded ResolveState α) (s : ResolveState) (names : List (ScopeId × Identifier)) : Prop :=
  Ends (.free _) q s fun _ s' => s.Course file pending active (.names names) s'

/-- Each name is looked up by itself. -/
def LooksUpEach (file : FileId) (pending : Pending) (active : List SymbolId)
    (lookup : ScopeId → Identifier → Guarded ResolveState TypeId) : Prop :=
  ∀ s scope name, LooksUp file pending active (lookup scope name) s [(scope, name)]

/-- What needs no name takes the empty course of queries. -/
theorem LooksUp.nothing {α : Type} (a : α) (s : ResolveState) :
    LooksUp file pending active (pure a) s [] :=
  .pure (.quiet (.refl s))

mutual

/-- To resolve an annotation is to look up its names. -/
theorem typeNode_looksUp (h : LooksUpEach file pending active lookup) (node : TypeNode)
    (s : ResolveState) :
    LooksUp file pending active (typeNode file lookup scope node) s
      ((node.names Identifier.isThere).map (scope, ·)) := by
  cases node with
  | word node word => exact .nothing _ s
  | literal node constant value =>
    exact (literalType_quiet value s).mono fun _ _ _ _ => .quiet
  | reference node name => exact h s scope name
  | array node element =>
    refine (typeNode_looksUp h element s).bind fun part s₁ _ _ hpart => ?_
    refine (compile_quiet (shareType_quiet (.array part) rfl nofun)).mono ?_
    exact fun _ _ _ _ => hpart.then
  | union node members =>
    refine (typeNodes_looksUp h members s).bind fun ids s₁ _ _ hids => ?_
    refine (compile_quiet (unionOf_quiet ids s₁.program)).mono ?_
    exact fun _ _ _ _ => hids.then
  | function node parameters result =>
    refine (parameterTypes_looksUp h parameters s).bind fun types s₁ _ _ htypes => ?_
    refine (typeNode_looksUp h result s₁).bind fun type s₂ _ _ htype => ?_
    refine (compile_quiet (addObject_quiet none .empty _)).mono ?_
    rw [TypeNode.names, List.map_append]
    exact fun _ _ _ _ => (htypes.append htype).then
  | object node members =>
    refine (elements_looksUp h members .empty s).bind fun members s₁ _ _ hmembers => ?_
    refine (compile_quiet (addObject_quiet none members [])).mono ?_
    exact fun _ _ _ _ => hmembers.then
  | parenthesized node inner => exact typeNode_looksUp h inner s

/-- A list of annotations looks up its names in order. -/
theorem typeNodes_looksUp (h : LooksUpEach file pending active lookup) (nodes : List TypeNode)
    (s : ResolveState) :
    LooksUp file pending active (typeNodes file lookup scope nodes) s
      ((typeNames Identifier.isThere nodes).map (scope, ·)) := by
  cases nodes with
  | nil => exact .nothing _ s
  | cons first rest =>
    refine (typeNode_looksUp h first s).bind fun id s₁ _ _ hid => ?_
    refine (typeNodes_looksUp h rest s₁).bind fun ids s₂ _ _ hids => .pure ?_
    rw [typeNames, List.map_append]
    exact hid.append hids

/-- An annotation that may be missing looks up the names in it, in order. -/
theorem optionalType_looksUp (h : LooksUpEach file pending active lookup)
    (node? : Option TypeNode) (s : ResolveState) :
    LooksUp file pending active (optionalType file lookup scope node?) s
      ((annotationNames Identifier.isThere node?).map (scope, ·)) := by
  cases node? with
  | none => exact .nothing _ s
  | some node => exact typeNode_looksUp h node s

/-- A parameter looks up the names in its annotation. -/
theorem parameterType_looksUp (h : LooksUpEach file pending active lookup)
    (parameter : Parameter) (s : ResolveState) :
    LooksUp file pending active (parameterType file lookup scope parameter) s
      ((parameter.names Identifier.isThere).map (scope, ·)) := by
  obtain ⟨node, dots, name, type?⟩ := parameter
  cases type? with
  | some type => exact (typeNode_looksUp h type s).bind fun _ _ _ _ hid => .pure hid
  | none =>
    cases dots with
    | none => exact .nothing _ s
    | some dots =>
      refine (compile_quiet (shareType_quiet (.array .any) rfl nofun)).bind ?_
      exact fun _ _ _ _ hquiet => .pure (.quiet hquiet)

/-- Parameters look up the names in their annotations, in order. -/
theorem parameterTypes_looksUp (h : LooksUpEach file pending active lookup)
    (parameters : List Parameter) (s : ResolveState) :
    LooksUp file pending active (parameterTypes file lookup scope parameters) s
      ((parameterNames Identifier.isThere parameters).map (scope, ·)) := by
  cases parameters with
  | nil => exact .nothing _ s
  | cons first rest =>
    refine (parameterType_looksUp h first s).bind fun type s₁ _ _ htype => ?_
    refine (parameterTypes_looksUp h rest s₁).bind fun types s₂ _ _ htypes => .pure ?_
    rw [parameterNames, List.map_append]
    exact htype.append htypes

/-- A member looks up the names in its annotations, in order. -/
theorem element_looksUp (h : LooksUpEach file pending active lookup) (element : TypeElement)
    (members : SymbolTable SymbolId) (s : ResolveState) :
    LooksUp file pending active (Guarded.element file lookup scope element members) s
      ((element.names Identifier.isThere).map (scope, ·)) := by
  cases element with
  | property node name type? =>
    refine .ite (fun hmissing => ?_) fun hthere => ?_
    · rw [TypeElement.names, if_neg (by simp [Identifier.isThere, hmissing])]
      exact LooksUp.nothing members s
    · rw [TypeElement.names, if_pos (by simpa [Identifier.isThere] using hthere)]
      refine (optionalType_looksUp h type? s).bind fun type s₁ _ _ htype => ?_
      refine (compile_quiet (addMember_quiet members _ name.text _ type s₁.program)).mono ?_
      exact fun _ _ _ _ => htype.then
  | method node name parameters result =>
    refine .ite (fun hmissing => ?_) fun hthere => ?_
    · rw [TypeElement.names, if_neg (by simp [Identifier.isThere, hmissing])]
      exact LooksUp.nothing members s
    · rw [TypeElement.names, if_pos (by simpa [Identifier.isThere] using hthere), List.map_append]
      refine (parameterTypes_looksUp h parameters s).bind fun types s₁ _ _ htypes => ?_
      refine (optionalType_looksUp h result s₁).bind fun type s₂ _ _ htype => ?_
      refine (compile_quiet (addMethod_quiet members _ name.text _ s₂.program)).mono ?_
      exact fun _ _ _ _ => (htypes.append htype).then

/-- Members look up the names in their annotations, member by member. -/
theorem elements_looksUp (h : LooksUpEach file pending active lookup)
    (elements : List TypeElement) (members : SymbolTable SymbolId) (s : ResolveState) :
    LooksUp file pending active (Guarded.elements file lookup scope elements members) s
      ((elementNames Identifier.isThere elements).map (scope, ·)) := by
  cases elements with
  | nil => exact .nothing _ s
  | cons first rest =>
    rw [elementNames, List.map_append]
    refine (element_looksUp h first members s).bind fun members' s₁ _ _ hfirst => ?_
    exact (elements_looksUp h rest members' s₁).mono fun _ _ _ _ => hfirst.append

end

/-- To resolve the signatures among declarations is to look up their names. -/
theorem signatures_looksUp (h : LooksUpEach file pending active lookup)
    (declarations : List Declaration) (s : ResolveState) :
    LooksUp file pending active (signatures file lookup declarations) s
      ((declarations.filter Declaration.isFunction).flatMap
        (Declaration.names Identifier.isThere)) := by
  induction declarations generalizing s with
  | nil => exact .nothing _ s
  | cons declaration rest ih =>
    cases declaration with
    | function scope parameters result =>
      have hfirst : LooksUp file pending active (signature file lookup scope parameters result) s
          ((Declaration.function scope parameters result).names Identifier.isThere) := by
        refine (parameterTypes_looksUp h parameters s).bind fun types s₁ _ _ htypes => ?_
        refine (optionalType_looksUp h result s₁).bind fun type s₂ _ _ htype => .pure ?_
        rw [Declaration.names, List.map_append]
        exact htypes.append htype
      refine hfirst.bind fun _ s₁ _ _ hfirst => ?_
      exact (ih s₁).bind fun _ _ _ _ hrest => .pure (hfirst.append hrest)
    | variableDecl | interface | typeAlias => exact ih s

/-- To gather the members of an interface is to look up the names in its declarations. -/
theorem interfaceElements_looksUp (h : LooksUpEach file pending active lookup)
    (declarations : List Declaration) (members : SymbolTable SymbolId) (s : ResolveState) :
    LooksUp file pending active (interfaceElements file lookup declarations members) s
      ((declarations.filter Declaration.isInterface).flatMap
        (Declaration.names Identifier.isThere)) := by
  induction declarations generalizing members s with
  | nil => exact .nothing _ s
  | cons declaration rest ih =>
    cases declaration with
    | interface scope list =>
      refine (elements_looksUp h list members s).bind fun members' s₁ _ _ hfirst => ?_
      exact (ih members' s₁).mono fun _ _ _ _ hrest => hfirst.append hrest
    | variableDecl | function | typeAlias => exact ih members s

end Annotations

section Symbols

variable {resolve : SymbolId → Guarded ResolveState TypeId}

/-- Asking for a symbol resolves it. -/
def Asks (file : FileId) (pending : Pending) (active : List SymbolId)
    (resolve : SymbolId → Guarded ResolveState TypeId) : Prop :=
  ∀ s id, Ends (.free _) (resolve id) s fun _ s' => s.Course file pending active (.symbol id) s'

/-- Each name in an annotation asks for the symbol that its scope has for it. -/
theorem reference_looksUp (h : Asks file pending active resolve) :
    LooksUpEach file pending active (reference file resolve) := by
  intro s scope name
  refine .ite (fun hmissing => .pure (.missing ?_)) fun hthere => ?_
  · simp [Identifier.isThere, hmissing]
  have hname : name.isThere = true := by simpa [Identifier.isThere] using hthere
  refine program_ends.bind ?_
  rintro _ s₁ - - ⟨rfl, rfl⟩
  refine .found fun found hfound => ?_
  have hresolve : s₁.program.resolveType? scope name.text = found := lookup?_eq hfound
  cases found with
  | some id => exact (h s₁ id).mono fun _ _ _ _ => .found hname hresolve
  | none =>
    refine .ite (fun hfunction => .pure (.builtIn hname hresolve (.inl hfunction)))
      fun hfunction => ?_
    refine .ite (fun hobject => .pure (.builtIn hname hresolve (.inr hobject))) fun hobject => ?_
    refine (report_reports file _ _ s₁).bind ?_
    rintro _ _ - - rfl
    exact .pure (.unknown hname hresolve hfunction hobject)

/-- To type a value is to ask for the symbol that it is the name of, which is then read. -/
theorem valueType_course (h : Asks file pending active resolve) (scope : ScopeId) (offset : Nat)
    (e : Expr) (s : ResolveState) :
    Ends (.free _) (valueType file resolve scope offset e) s fun type s' =>
      s.Course file pending active (.value scope e.valueName?) s' ∧
        ∀ name value, e.valueName? = some name →
          s.program.resolveValue? scope name.text = some value →
          s'.program.typeAt? value ⟨file, offset⟩ = some type := by
  have hplain {e : Expr} (hname : e.valueName? = none) {type : TypeId} {s' : ResolveState}
      (hquiet : s.Quiet s') : s.Course file pending active (.value scope e.valueName?) s' ∧
        ∀ name value, e.valueName? = some name →
          s.program.resolveValue? scope name.text = some value →
          s'.program.typeAt? value ⟨file, offset⟩ = some type := by
    rw [hname]
    exact ⟨.plain nofun hquiet, nofun⟩
  cases e with
  | identifier name =>
    refine program_ends.bind ?_
    rintro _ s₁ - - ⟨rfl, rfl⟩
    refine .found fun found hfound => ?_
    have hresolve : s₁.program.resolveValue? scope name.text = found := lookup?_eq hfound
    cases found with
    | some id =>
      refine (h s₁ id).bind fun _ s₂ _ _ hid => program_ends.bind ?_
      rintro _ _ - - ⟨rfl, rfl⟩
      refine .gives fun type htype => ⟨.named hresolve hid, ?_⟩
      rintro _ value ⟨⟩ hvalue
      cases hresolve.symm.trans hvalue
      exact htype
    | none =>
      have hnone {type : TypeId} {s' : ResolveState} : ∀ name' value,
          (Expr.identifier name).valueName? = some name' →
          s₁.program.resolveValue? scope name'.text = some value →
          s'.program.typeAt? value ⟨file, offset⟩ = some type := by
        rintro _ value ⟨⟩ hvalue
        cases hresolve.symm.trans hvalue
      refine .ite (fun hundefined => .pure ⟨.plain ?_ (.refl s₁), hnone⟩) fun hundefined => ?_
      · rintro _ ⟨⟩
        exact ⟨hresolve, hundefined⟩
      refine (report_reports file _ _ s₁).bind ?_
      rintro _ _ - - rfl
      exact .pure ⟨.unnamed hresolve hundefined, hnone⟩
  | literal node value =>
    cases value with
    | null => exact .pure (hplain rfl (.refl s))
    | _ => exact (literalType_quiet _ s).mono fun _ _ _ _ => hplain rfl
  | parenthesized node inner => exact valueType_course h scope offset inner s
  | unary node op operand =>
    cases op with
    | minus =>
      cases operand with
      | literal node value =>
        cases value with
        | number digits =>
          refine (compile_quiet (shareType_quiet (.numberLiteral _) rfl nofun)).mono ?_
          exact fun _ _ _ _ => hplain rfl
        | _ => exact .pure (hplain rfl (.refl s))
      | _ => exact .pure (hplain rfl (.refl s))
    | _ => exact .pure (hplain rfl (.refl s))
  | _ => exact .pure (hplain rfl (.refl s))

/-- To type a symbol by its declarations is to ask for what they ask for. -/
theorem declaredType_course (h : Asks file pending active resolve) (id : SymbolId)
    (first : Declaration) (all : List Declaration) (s : ResolveState) :
    Ends (.free _) (declaredType file resolve id first all) s fun type s' =>
      s.Course file pending active (first.query all) s' ∧
        ∀ scope initializer name value,
          first = .variableDecl scope true none (some initializer) →
          initializer.valueName? = some name →
          s.program.resolveValue? scope name.text = some value →
          ∃ offset, s'.program.typeAt? value ⟨file, offset⟩ = some type := by
  have hnames := reference_looksUp h
  cases first with
  | variableDecl scope constant type? initializer? =>
    cases type? with
    | some type => exact (typeNode_looksUp hnames type s).mono fun _ _ _ _ htype => ⟨htype, nofun⟩
    | none =>
      cases initializer? with
      | none => exact .pure ⟨.quiet (.refl s), nofun⟩
      | some initializer =>
        refine program_ends.bind ?_
        rintro _ s₁ - - ⟨rfl, rfl⟩
        refine .found fun symbol _ => .found fun location _ => ?_
        refine (valueType_course h scope location.offset initializer s₁).bind ?_
        rintro type s₂ - - ⟨hcourse, htype⟩
        refine program_ends.bind ?_
        rintro _ _ - - ⟨rfl, rfl⟩
        refine .found fun _ _ => .pure ⟨hcourse, ?_⟩
        rintro _ _ name value ⟨⟩ hname hvalue
        exact ⟨location.offset, htype name value hname hvalue⟩
  | function scope parameters result =>
    refine (signatures_looksUp hnames all s).bind fun signatures s₁ _ _ hlooks => ?_
    refine (compile_quiet (addObject_quiet none .empty signatures)).mono ?_
    exact fun _ _ _ _ hquiet => ⟨hlooks.then hquiet, nofun⟩
  | interface scope members =>
    refine program_ends.bind ?_
    rintro _ s₁ - - ⟨rfl, rfl⟩
    exact .found fun _ _ => .pure ⟨.quiet (.refl s₁), nofun⟩
  | typeAlias scope nameSpan type =>
    exact (typeNode_looksUp hnames type s).mono fun _ _ _ _ htype => ⟨htype, nofun⟩

end Symbols

/-- A symbol is resolved in a course of resolution. -/
theorem symbol_course (limit : Nat) (active : List SymbolId) :
    Asks file pending active (symbol file pending limit active) := by
  induction limit generalizing active with
  | zero =>
    intro s id a s' hrun
    cases hrun
  | succ limit ih =>
    intro s id
    have hcurrent {s : ResolveState} (hactive : id ∉ active)
        (hid : id ∈ s.resolved ∨ pending.declarationsOf id = []) :
        Ends (.free _) (do return (← (← program).symbol? id).type) s fun _ s' =>
          s.Course file pending active (.symbol id) s' := by
      refine program_ends.bind ?_
      rintro _ s₁ - - ⟨rfl, rfl⟩
      exact .found fun _ _ => .pure (.settled hactive hid)
    refine .ite (fun hmem => ?_) fun hmem => ?_
    · have hactive : id ∈ active := by simpa using hmem
      cases hspan : Resolve.aliasSpan? (pending.declarationsOf id) with
      | none => exact .pure (.waiting hactive hspan)
      | some span =>
        refine program_ends.bind ?_
        rintro _ s₁ - - ⟨rfl, rfl⟩
        refine .found fun symbol hsymbol => ?_
        obtain ⟨-, rfl⟩ := Program.HasSymbol.of_symbol? hsymbol
        refine (report_reports file _ _ s₁).bind ?_
        rintro _ _ - - rfl
        exact .pure (.circular hactive hspan)
    have hactive : id ∉ active := by simpa using hmem
    refine Ends.get.bind ?_
    rintro _ s₁ - - ⟨rfl, rfl⟩
    refine .ite (fun hmem => hcurrent hactive (.inl (by simpa using hmem))) fun hresolved => ?_
    cases hdeclarations : pending.declarationsOf id with
    | nil => exact hcurrent hactive (.inr hdeclarations)
    | cons first rest =>
      refine (declaredType_course (ih (id :: active)) id first (first :: rest) s₁).bind ?_
      rintro type s₂ - - ⟨hcourse, hvalue⟩ a s' hrun _
      obtain ⟨rfl, rfl, hhas⟩ := settle_run hrun
      exact ⟨trivial, trivial,
        .settles hactive (by simpa using hresolved) hdeclarations hcourse hhas hvalue⟩

/-- Asking for a symbol while none is active takes the course of that query. -/
theorem fresh_course : Asks file pending [] (fresh file pending) :=
  symbol_course _ []

end Guarded

end ExpressionTyping
