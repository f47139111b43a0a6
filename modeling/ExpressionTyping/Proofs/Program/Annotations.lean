import ExpressionTyping.Program.Resolve
import ExpressionTyping.Proofs.Program.Binding

/-!
# Annotations and values of a file and its copy

What a type annotation or a written value means depends on the scope it stands in and on what names
are resolved to. If two ways of resolving names lead to linked types, so do the annotations and
values that use them: one lemma for each kind of annotation, over the tree of annotations
(`typeNode_follows`), and one for values (`valueType_follows`).
-/

set_option autoImplicit false

namespace ExpressionTyping

/-- Two states of resolution: programs of which one holds a copy of the other, and copies of the
symbols that are resolved. -/
structure ResolveState.Copies (base : Program) (links : Links) (s t : ResolveState) : Prop where
  program : Embeds base links s.program t.program
  resolved : t.resolved = s.resolved.map base.symbolPlace

open ResolveState (Copies)

/-- Two call-only objects mirror each other once their signatures do. -/
theorem TypeData.Mirrors.callable {types : TypeId → TypeId → Prop}
    {symbols : SymbolId → SymbolId → Prop} {signatures signatures' : List Signature}
    (h : List.Forall₂ (Signature.Mirrors types) signatures signatures') :
    (TypeData.object none .empty signatures).Mirrors types symbols
      (.object none .empty signatures') :=
  .object none .nil h

namespace Resolve

variable {base : Program} {links links' : Links}

/-- A step of building that follows another one also does so as a step of resolution. -/
theorem compile_follows {α β : Type} {p : Compile α} {q : Compile β} {Q : Links → α → β → Prop}
    (h : Follows (Embeds base) links p q Q) :
    Follows (Copies base) links (compile p) (compile q) Q := by
  intro s t hst
  obtain ⟨links', hle, hprogram, hQ⟩ := h _ _ hst.program
  exact ⟨links', hle, ⟨hprogram, hst.resolved⟩, hQ⟩

/-- Reading the program on both sides gives a program and its copy. -/
theorem program_follows : Follows (Copies base) links program program (Embeds base) :=
  Follows.get.bind fun _ _ _ _ hst => .pure hst.program

/-- Two ways of resolving a name in an annotation that lead to linked types. -/
def Lookups (base : Program) (links : Links) (lookup lookup' : TypeLookup) : Prop :=
  ∀ links', links ≤ links' → ∀ scope name,
    Follows (Copies base) links' (lookup scope name) (lookup' (base.scopePlace scope) name)
      Links.types

/-- Look-ups that match still do once more is linked. -/
theorem Lookups.mono {lookup lookup' : TypeLookup} (h : Lookups base links lookup lookup')
    (hle : links ≤ links') : Lookups base links' lookup lookup' :=
  fun links'' hle' => h links'' (hle.trans hle')

/-- Two ways of resolving a symbol that lead to linked types. -/
def Resolves (base : Program) (links : Links) (resolve resolve' : SymbolId → Resolve TypeId) :
    Prop :=
  ∀ links', links ≤ links' → ∀ id, links'.Knows id →
    Follows (Copies base) links' (resolve id) (resolve' (base.symbolPlace id)) Links.types

/-- Resolvers that match still do once more is linked. -/
theorem Resolves.mono {resolve resolve' : SymbolId → Resolve TypeId}
    (h : Resolves base links resolve resolve') (hle : links ≤ links') :
    Resolves base links' resolve resolve' :=
  fun links'' hle' => h links'' (hle.trans hle')

/-! ## Members -/

/-- Members and their copies. -/
abbrev Members (base : Program) (links : Links) (members members' : SymbolTable SymbolId) : Prop :=
  members.Pairs (base.IsCopy links) members'

/-- Members and their copies stay such once more is linked. -/
theorem Members.mono {members members' : SymbolTable SymbolId}
    (h : Members base links members members') (hle : links ≤ links') :
    Members base links' members members' :=
  h.imp fun _ _ hid => ⟨hid.1, hid.2.mono hle⟩

/-- Adding a member of a linked type leaves members and their copies such. -/
theorem addMember_follows {members members' : SymbolTable SymbolId}
    (h : Members base links members members') (location : Location) (name : String)
    {sort : SymbolSort} {type type' : TypeId} (htype : links.types type type')
    (hown : sort.ownsType = true → base.types.entries.size ≤ type'.index) :
    Follows (Embeds base) links (addMember members location name sort type)
      (addMember members' (base.locationPlace location) name sort type') (Members base) := by
  refine (Compile.addSymbol_follows name htype hown).bind ?_
  rintro links₁ hle id _ ⟨rfl, hid⟩
  refine (Compile.addLocation_follows ⟨sort, hid⟩ location).bind fun links₂ hle' _ _ _ => .pure ?_
  exact (h.mono (hle.trans hle')).insert name ⟨rfl, sort, hle'.2.1 id sort hid⟩

/-- A method among members has a type of its own in both programs, or neither has such a method. -/
theorem methodType?_rel {own all : Program} (h : Embeds base links own all)
    {members members' : SymbolTable SymbolId} (hmembers : Members base links members members')
    (name : String) :
    Option.Rel (fun a b => links.types a b ∧ base.types.entries.size ≤ b.index)
      (own.methodType? members name) (all.methodType? members' name) := by
  have hget := hmembers.get? name
  unfold Program.methodType?
  generalize members.get? name = found at hget ⊢
  generalize members'.get? name = found' at hget ⊢
  cases hget with
  | none => exact .none
  | @some id id' hid =>
    obtain ⟨rfl, -⟩ := hid
    have hsymbol := h.symbol id
    simp only [hsymbol.sort]
    split
    · rename_i hmethod
      exact .some ⟨hsymbol.type, hsymbol.own (hmethod ▸ rfl)⟩
    · exact .none

/-- Adding a method leaves members and their copies such, overloads included. -/
theorem addMethod_follows {members members' : SymbolTable SymbolId}
    (h : Members base links members members') (location : Location) (name : String)
    {signature signature' : Signature} (hsignature : signature.Mirrors links.types signature') :
    Follows (Embeds base) links (addMethod members location name signature)
      (addMethod members' (base.locationPlace location) name signature') (Members base) := by
  refine Follows.get.bind fun links₁ hle own all hprogram => ?_
  have hmethod := methodType?_rel hprogram (h.mono hle) name
  generalize own.methodType? members name = type? at hmethod ⊢
  generalize all.methodType? members' name = type?' at hmethod ⊢
  cases hmethod with
  | none =>
    refine (Compile.addType_follows (.callable (.cons (hsignature.imp hle.1) .nil)) rfl).bind ?_
    intro links₂ hle' type type' htype
    exact addMember_follows (h.mono (hle.trans hle')) location name htype.1 fun _ => htype.2
  | some htype =>
    refine (Compile.addSignature_follows htype.1 htype.2 (hsignature.imp hle.1)).bind ?_
    exact fun links₂ hle' _ _ _ => .pure (h.mono (hle.trans hle'))

/-! ## Annotations -/

/-- A literal means the same type on both sides. -/
theorem literalType_follows (value : Literal) :
    Follows (Copies base) links (literalType value) (literalType value) Links.types := by
  cases value with
  | string text | template text =>
    exact compile_follows (Compile.shareType_follows (.stringLiteral text) rfl)
  | number text => exact compile_follows (Compile.shareType_follows (.numberLiteral text) rfl)
  | boolean value => exact .pure (links.boolean value)
  | null => exact .pure links.any

/-- The types of parameters and of their copies. -/
def Parameters (links : Links) (parameters parameters' : List (String × TypeId) × Bool) : Prop :=
  List.Forall₂ (fun p q => q.1 = p.1 ∧ links.types p.2 q.2) parameters.1 parameters'.1 ∧
    parameters'.2 = parameters.2

/-- Matching parameters and results make signatures that mirror each other. -/
theorem Parameters.matches {parameters parameters' : List (String × TypeId) × Bool}
    (h : Parameters links parameters parameters') (hle : links ≤ links') {result result' : TypeId}
    (hresult : links'.types result result') :
    Signature.Mirrors links'.types ⟨parameters.1, result, parameters.2⟩
      ⟨parameters'.1, result', parameters'.2⟩ :=
  ⟨h.1.imp fun _ _ hp => ⟨hp.1, hle.1 _ _ hp.2⟩, hresult, h.2⟩

section Annotations

variable {file : FileId} {lookup lookup' : TypeLookup}

mutual

/-- An annotation means linked types in both programs. -/
theorem typeNode_follows (scope : ScopeId) (node : TypeNode) (links : Links)
    (h : Lookups base links lookup lookup') :
    Follows (Copies base) links (typeNode file lookup scope node)
      (typeNode (base.filePlace file) lookup' (base.scopePlace scope) node) Links.types := by
  cases node with
  | word node word => exact .pure (links.word word)
  | literal node mark value => exact literalType_follows value
  | reference node name => exact h links le_rfl scope name
  | array node element =>
    refine (typeNode_follows scope element links h).bind fun links₁ _ _ _ helement => ?_
    exact compile_follows (Compile.shareType_follows (.array helement) rfl)
  | union node members =>
    refine (typeNodes_follows scope members links h).bind fun links₁ _ _ _ hmembers => ?_
    exact compile_follows (Compile.unionOf_follows hmembers)
  | function node parameters result =>
    refine (parameterTypes_follows scope parameters links h).bind ?_
    intro links₁ hle _ _ hparameters
    refine (typeNode_follows scope result links₁ (h.mono hle)).bind ?_
    intro links₂ hle' _ _ hresult
    have hsignature := hparameters.matches hle' hresult
    apply (compile_follows (Compile.addType_follows (.callable (.cons hsignature .nil)) rfl)).imp
    exact fun _ _ _ _ htype => htype.1
  | object node members =>
    refine (elements_follows scope members links h .nil).bind fun links₁ _ _ _ hmembers => ?_
    refine (compile_follows (Compile.addType_follows (.object none hmembers .nil) rfl)).imp ?_
    exact fun _ _ _ _ htype => htype.1
  | parenthesized node inner => exact typeNode_follows scope inner links h

/-- A list of annotations is resolved alike on both sides, type by type. -/
theorem typeNodes_follows (scope : ScopeId) (nodes : List TypeNode) (links : Links)
    (h : Lookups base links lookup lookup') :
    Follows (Copies base) links (typeNodes file lookup scope nodes)
      (typeNodes (base.filePlace file) lookup' (base.scopePlace scope) nodes)
      fun links' => List.Forall₂ links'.types := by
  cases nodes with
  | nil => exact .pure .nil
  | cons first rest =>
    refine (typeNode_follows scope first links h).bind fun links₁ hle _ _ htype => ?_
    refine (typeNodes_follows scope rest links₁ (h.mono hle)).bind fun _ hle' _ _ hrest => .pure ?_
    exact .cons (hle'.1 _ _ htype) hrest

/-- An annotation that may be missing is resolved alike on both sides. -/
theorem optionalType_follows (scope : ScopeId) (node? : Option TypeNode) (links : Links)
    (h : Lookups base links lookup lookup') :
    Follows (Copies base) links (optionalType file lookup scope node?)
      (optionalType (base.filePlace file) lookup' (base.scopePlace scope) node?) Links.types := by
  cases node? with
  | none => exact .pure links.any
  | some node => exact typeNode_follows scope node links h

/-- A parameter gets the same name and matching types on both sides. -/
theorem parameterType_follows (scope : ScopeId) (parameter : Parameter) (links : Links)
    (h : Lookups base links lookup lookup') :
    Follows (Copies base) links (parameterType file lookup scope parameter)
      (parameterType (base.filePlace file) lookup' (base.scopePlace scope) parameter)
      fun links' p q => q.1 = p.1 ∧ links'.types p.2 q.2 := by
  obtain ⟨node, rest, name, node?⟩ := parameter
  cases node? with
  | none =>
    unfold parameterType
    split
    · refine (compile_follows (Compile.shareType_follows (.array links.any) rfl)).bind ?_
      exact fun _ _ _ _ htype => .pure ⟨rfl, htype⟩
    · exact .pure ⟨rfl, links.any⟩
  | some node =>
    exact (typeNode_follows scope node links h).bind fun _ _ _ _ htype => .pure ⟨rfl, htype⟩

/-- Parameters are resolved alike on both sides. -/
theorem parameterTypes_follows (scope : ScopeId) (parameters : List Parameter) (links : Links)
    (h : Lookups base links lookup lookup') :
    Follows (Copies base) links (parameterTypes file lookup scope parameters)
      (parameterTypes (base.filePlace file) lookup' (base.scopePlace scope) parameters)
      Parameters := by
  cases parameters with
  | nil => exact .pure ⟨.nil, rfl⟩
  | cons first rest =>
    refine (parameterType_follows scope first links h).bind fun links₁ hle _ _ hfirst => ?_
    refine (parameterTypes_follows scope rest links₁ (h.mono hle)).bind ?_
    intro links₂ hle' others others' hothers
    refine .pure ⟨.cons ⟨hfirst.1, hle'.1 _ _ hfirst.2⟩ hothers.1, ?_⟩
    simp only [hothers.2]

/-- One member is added alike on both sides. -/
theorem element_follows (scope : ScopeId) (element : TypeElement) (links : Links)
    (h : Lookups base links lookup lookup') {members members' : SymbolTable SymbolId}
    (hmembers : Members base links members members') :
    Follows (Copies base) links (Resolve.element file lookup scope element members)
      (Resolve.element (base.filePlace file) lookup' (base.scopePlace scope) element members')
      (Members base) := by
  cases element with
  | property node name type? =>
    unfold Resolve.element
    split
    · exact .pure hmembers
    · refine (optionalType_follows scope type? links h).bind fun links₁ hle _ _ htype => ?_
      exact compile_follows (addMember_follows (hmembers.mono hle) ⟨file, _⟩ name.text htype nofun)
  | method node name parameters result =>
    unfold Resolve.element
    split
    · exact .pure hmembers
    · refine (parameterTypes_follows scope parameters links h).bind ?_
      intro links₁ hle _ _ hparameters
      refine (optionalType_follows scope result links₁ (h.mono hle)).bind ?_
      intro links₂ hle' _ _ hresult
      exact compile_follows (addMethod_follows (hmembers.mono (hle.trans hle')) ⟨file, _⟩ name.text
        (hparameters.matches hle' hresult))

/-- The members of a list are added alike on both sides. -/
theorem elements_follows (scope : ScopeId) (elements : List TypeElement) (links : Links)
    (h : Lookups base links lookup lookup') {members members' : SymbolTable SymbolId}
    (hmembers : Members base links members members') :
    Follows (Copies base) links (Resolve.elements file lookup scope elements members)
      (Resolve.elements (base.filePlace file) lookup' (base.scopePlace scope) elements members')
      (Members base) := by
  cases elements with
  | nil => exact .pure hmembers
  | cons first rest =>
    refine (element_follows scope first links h hmembers).bind fun links₁ hle _ _ hfirst => ?_
    exact elements_follows scope rest links₁ (h.mono hle) hfirst

end

/-- The signature of a declared function is built alike on both sides. -/
theorem signature_follows (scope : ScopeId) (parameters : List Parameter) (result : Option TypeNode)
    (h : Lookups base links lookup lookup') :
    Follows (Copies base) links (signature file lookup scope parameters result)
      (signature (base.filePlace file) lookup' (base.scopePlace scope) parameters result)
      fun links' => Signature.Mirrors links'.types := by
  refine (parameterTypes_follows scope parameters links h).bind fun links₁ hle _ _ hparameters => ?_
  refine (optionalType_follows scope result links₁ (h.mono hle)).bind ?_
  exact fun links₂ hle' _ _ hresult => .pure (hparameters.matches hle' hresult)

/-- The signatures among declarations are built alike, the second time in the moved declarations. -/
theorem signatures_follows (declarations : List Declaration)
    (h : Lookups base links lookup lookup') :
    Follows (Copies base) links (signatures file lookup declarations)
      (signatures (base.filePlace file) lookup' (declarations.map (Declaration.moved base)))
      fun links' => List.Forall₂ (Signature.Mirrors links'.types) := by
  induction declarations generalizing links with
  | nil => exact .pure .nil
  | cons declaration rest ih =>
    cases declaration with
    | function scope parameters result =>
      refine (signature_follows scope parameters result h).bind fun links₁ hle _ _ hfirst => ?_
      refine (ih (h.mono hle)).bind fun links₂ hle' _ _ hrest => .pure ?_
      exact .cons (hfirst.imp hle'.1) hrest
    | variableDecl _ _ _ _ => exact ih h
    | interface _ _ => exact ih h
    | typeAlias _ _ _ => exact ih h

end Annotations

/-! ## Values and names -/

section Values

variable {file : FileId} {resolve resolve' : SymbolId → Resolve TypeId}

/-- A report is made alike on both sides, and the type is `any` on both. -/
theorem report_follows (file : FileId) (span : Span) (problem : Problem) :
    Follows (Copies base) links
      (do compile (Compile.report file span problem); return TypeId.any)
      (do compile (Compile.report (base.filePlace file) span problem); return TypeId.any)
      Links.types :=
  (compile_follows (Compile.report_follows file span problem)).bind fun links' _ _ _ _ =>
    .pure links'.any

/-- A name in a value has matching types on both sides. -/
theorem identifierType_follows (scope : ScopeId) (offset : Nat) (name : Identifier)
    (h : Resolves base links resolve resolve') :
    Follows (Copies base) links (valueType file resolve scope offset (.identifier name))
      (valueType (base.filePlace file) resolve' (base.scopePlace scope) offset (.identifier name))
      Links.types := by
  refine program_follows.bind fun links₁ hle own all hprogram => ?_
  rw [hprogram.resolveValue?]
  cases hfound : own.resolveValue? scope name.text with
  | some symbol =>
    have hknown := hprogram.knows_of_resolveValue? hfound
    refine (h links₁ hle symbol hknown).bind fun links₂ _ _ _ _ => ?_
    refine program_follows.bind fun links₃ _ own' all' hprogram' => .pure ?_
    exact hprogram'.typeAt symbol ⟨file, offset⟩
  | none =>
    simp only [Option.map_none]
    split
    · exact .pure (links₁.word .undefined)
    · exact report_follows file _ _

/-- A written value has linked types in both programs. -/
theorem valueType_follows (scope : ScopeId) (offset : Nat) (e : Expr) (links : Links)
    (h : Resolves base links resolve resolve') :
    Follows (Copies base) links (valueType file resolve scope offset e)
      (valueType (base.filePlace file) resolve' (base.scopePlace scope) offset e) Links.types := by
  cases e with
  | identifier name => exact identifierType_follows scope offset name h
  | literal node value =>
    cases value with
    | null => exact .pure (links.word .null)
    | _ => exact literalType_follows _
  | parenthesized node inner => exact valueType_follows scope offset inner links h
  | unary node op operand =>
    cases op with
    | not => exact .pure (links.word .boolean)
    | typeOf => exact .pure (links.word .string)
    | void => exact .pure (links.word .undefined)
    | minus =>
      -- a negative number is a literal type of its own
      cases operand with
      | literal node value =>
        cases value with
        | number digits =>
          exact compile_follows (Compile.shareType_follows (.numberLiteral _) rfl)
        | _ => exact .pure (links.word .number)
      | _ => exact .pure (links.word .number)
    | _ => exact .pure (links.word .number)
  | _ => exact .pure links.any

/-- The names in annotations are looked up alike where symbols are resolved alike. -/
theorem reference_lookups (h : Resolves base links resolve resolve') :
    Lookups base links (reference file resolve) (reference (base.filePlace file) resolve') := by
  intro links₁ hle scope name
  unfold reference
  split
  · exact .pure links₁.any
  · refine program_follows.bind fun links₂ hle' own all hprogram => ?_
    rw [hprogram.resolveType?]
    cases hfound : own.resolveType? scope name.text with
    | some symbol =>
      exact h links₂ (hle.trans hle') symbol (hprogram.knows_of_resolveType? hfound)
    | none =>
      simp only [Option.map_none]
      split
      · exact .pure (links₂.wellKnown _ (by decide))
      · split
        · exact .pure (links₂.wellKnown _ (by decide))
        · exact report_follows file _ _

end Values

end Resolve

end ExpressionTyping
