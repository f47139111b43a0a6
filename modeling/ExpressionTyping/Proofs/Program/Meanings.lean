import ExpressionTyping.Proofs.Program.Gathering

/-!
# What annotations are resolved to

If names are resolved to what they mean, so is every annotation, by one lemma for each kind
(`Guarded.typeNode_ends`). An object type is made in the middle of whatever else is being resolved,
and other types in the middle of gathering its members, so every lemma is about annotations read
behind a veil.
-/

set_option autoImplicit false

namespace ExpressionTyping

namespace Guarded

variable {file : FileId} {pending : Pending} {values : Prop} {active : List SymbolId}
  {veiled : List TypeId} {s : ResolveState}

/-- A look-up along scopes finds what the first of them leads to. -/
theorem seek?_eq {program : Program} {table : Scope → SymbolTable SymbolId} {name : String}
    {scopes : List ScopeId} {found : Option SymbolId}
    (h : program.seek? table name scopes = some found) :
    scopes.findSome? (fun id => (table (program.scope id)).get? name) = found := by
  induction scopes with
  | nil => exact Option.some.inj h
  | cons id rest ih =>
    rw [Program.seek?] at h
    obtain ⟨scope, hscope, h⟩ := Option.bind_eq_some_iff.mp h
    obtain ⟨-, rfl⟩ := Program.HasScope.of_scope? hscope
    rw [List.findSome?_cons]
    split at h
    · rename_i hget
      rw [hget]
      exact Option.some.inj h
    · rename_i hget
      rw [hget]
      exact ih h

/-- A name is looked up in the first scope outward that declares it. -/
theorem lookup?_eq {program : Program} {table : Scope → SymbolTable SymbolId} {scope : ScopeId}
    {name : String} {found : Option SymbolId} (h : program.lookup? table scope name = some found) :
    (program.outward scope).findSome? (fun id => (table (program.scope id)).get? name) = found := by
  obtain ⟨innermost, hscope, h⟩ := Option.bind_eq_some_iff.mp h
  obtain ⟨-, rfl⟩ := Program.HasScope.of_scope? hscope
  exact seek?_eq h

/-- A step of resolution gives what an annotation means. -/
abbrev GivesMeaning (file : FileId) (pending : Pending) (values : Prop) (active : List SymbolId)
    (veiled : List TypeId) {α : Type} (q : Guarded ResolveState α) (s : ResolveState)
    (Q : Reading → α → Prop) : Prop :=
  Ends (.signing file pending values active veiled) q s fun a s' =>
    Q ((s'.reading file pending active).veil veiled) a

/-- Names in annotations are resolved to what they mean. -/
def FindsNames (file : FileId) (pending : Pending) (values : Prop) (active : List SymbolId)
    (lookup : ScopeId → Identifier → Guarded ResolveState TypeId) : Prop :=
  ∀ veiled s scope name, GivesMeaning file pending values active veiled (lookup scope name) s
    fun r id => r.names scope name id

/-- A literal is given the type it means. -/
theorem literalType_ends (value : Literal) :
    GivesMeaning file pending values active veiled (step (Resolve.literalType value)) s
      fun r id => r.LiteralIs value id := by
  have hshare (data : TypeData) (hshared : data.isShared = true)
      (hflat : ∀ members, data ≠ .union members) :
      GivesMeaning file pending values active veiled
        (step (Resolve.compile (Compile.shareType data))) s fun r id => r.types.get id = data := by
    refine (compile_ends (shareType_ends data hshared hflat)).mono fun id s' hs' _ ⟨hid, _⟩ => ?_
    exact TypeTable.get_veil hs'.callable hid fun signatures heq => by
      rw [heq] at hshared
      cases hshared
  cases value with
  | string text | template text => exact hshare (.stringLiteral text) rfl nofun
  | number text => exact hshare (.numberLiteral text) rfl nofun
  | boolean value => exact .step fun hs => ⟨hs, .refl s, rfl⟩
  | null => exact .step fun hs => ⟨hs, .refl s, rfl⟩

section Annotations

variable {lookup : ScopeId → Identifier → Guarded ResolveState TypeId} {scope : ScopeId}

mutual

/-- What is resolved for an annotation is what it means. -/
theorem typeNode_ends {veiled : List TypeId} (h : FindsNames file pending values active lookup)
    (node : TypeNode) (s : ResolveState) :
    GivesMeaning file pending values active veiled (typeNode file lookup scope node) s
      fun r id => node.Means r scope id := by
  cases node with
  | word node word => exact .pure .word
  | literal node constant value => exact (literalType_ends value).mono fun _ _ _ _ => .literal
  | reference node name => exact (h veiled s scope name).mono fun _ _ _ _ => .reference
  | array node element =>
    refine (typeNode_ends h element s).bind fun part s₁ _ _ hpart => ?_
    refine (compile_ends (shareType_ends (.array part) rfl nofun)).mono ?_
    exact fun id s₂ hs₂ hsigns ⟨hid, _⟩ =>
      .array (hpart.mono (hsigns.veiledWith file _)) (TypeTable.get_veil hs₂.callable hid nofun)
  | union node members =>
    refine (typeNodes_ends h members s).bind fun ids s₁ _ _ hids => ?_
    refine (compile_ends (unionOf_ends file ids s₁.program.symbols.size)).mono ?_
    exact fun id s₂ hs₂ hsigns ⟨hid, hextends⟩ =>
      .union (hids.mono (hsigns.veiledWith file _)) ((hextends.unionIs hid).veil hs₂.callable)
  | function node parameters result =>
    refine (parameterTypes_ends h parameters s).bind fun types s₁ _ _ htypes => ?_
    refine (typeNode_ends h result s₁).bind fun type s₂ hs₂ hsigns₂ htype => ?_
    refine (compile_ends (addObject_ends none (.empty _) [⟨types.1, type, types.2⟩])).mono ?_
    intro id s₃ _ hsigns₃ ⟨⟨hnew, hid⟩, _⟩
    have hextends : ((s₂.reading file pending active).veil veiled).Extends
        ((s₃.reading file pending active).veil veiled) := hsigns₃.veiledWith file _
    exact .function ((htypes.mono (hsigns₂.veiledWith file _)).mono hextends)
      (htype.mono hextends) ((TypeTable.get_veil_of_le hs₂.callable hnew).trans hid)
  | object node members =>
    have hgathered := (elements_ends h members).ends
      (fun hextends hgather => hgather.mono hextends) veiled s
    refine hgathered.bind ?_
    rintro members s₁ hs₁ - ⟨hnames, drafts, hdrafts, hmembers⟩
    refine (compile_ends (addObject_ends none hnames [])).mono ?_
    intro id s₂ _ hsigns₂ ⟨⟨hnew, hid⟩, _⟩
    have hextends : ((s₁.reading file pending active).veil veiled).Extends
        ((s₂.reading file pending active).veil veiled) := hsigns₂.veiledWith file _
    exact .object (hdrafts.mono hextends) (hmembers.imp fun _ _ => hextends.memberIs)
      ((TypeTable.get_veil_of_le hs₁.callable hnew).trans hid)
  | parenthesized node inner => exact (typeNode_ends h inner s).mono fun _ _ _ _ => .parenthesized

/-- A list of annotations is given the types it means. -/
theorem typeNodes_ends {veiled : List TypeId} (h : FindsNames file pending values active lookup)
    (nodes : List TypeNode) (s : ResolveState) :
    GivesMeaning file pending values active veiled (typeNodes file lookup scope nodes) s
      fun r ids => TypeNodes.Mean r scope nodes ids := by
  cases nodes with
  | nil => exact .pure .nil
  | cons first rest =>
    refine (typeNode_ends h first s).bind fun id s₁ _ _ hid => ?_
    refine (typeNodes_ends h rest s₁).bind fun ids s₂ _ hsigns₂ hids => .pure ?_
    exact .cons (hid.mono (hsigns₂.veiledWith file _)) hids

/-- An annotation that may be missing is given the type it means. -/
theorem optionalType_ends {veiled : List TypeId} (h : FindsNames file pending values active lookup)
    (node? : Option TypeNode) (s : ResolveState) :
    GivesMeaning file pending values active veiled (optionalType file lookup scope node?) s
      fun r id => OptionalType.Means r scope node? id := by
  cases node? with
  | none => exact .pure .none
  | some node => exact (typeNode_ends h node s).mono fun _ _ _ _ => .some

/-- A parameter is given the name and type it means. -/
theorem parameterType_ends {veiled : List TypeId} (h : FindsNames file pending values active lookup)
    (parameter : Parameter) (s : ResolveState) :
    GivesMeaning file pending values active veiled (parameterType file lookup scope parameter) s
      fun r type => parameter.Means r scope type := by
  obtain ⟨node, dots, name, type?⟩ := parameter
  cases type? with
  | some type => exact (typeNode_ends h type s).bind fun _ _ _ _ hid => .pure (.annotated hid)
  | none =>
    cases dots with
    | none => exact .pure .plain
    | some dots =>
      refine (compile_ends (shareType_ends (.array .any) rfl nofun)).bind ?_
      exact fun id s₁ hs₁ _ ⟨hid, _⟩ => .pure (.rest (TypeTable.get_veil hs₁.callable hid nofun))

/-- Parameters are given the names and types they mean. -/
theorem parameterTypes_ends {veiled : List TypeId}
    (h : FindsNames file pending values active lookup) (parameters : List Parameter) (s : ResolveState) :
    GivesMeaning file pending values active veiled (parameterTypes file lookup scope parameters) s
      fun r types => Parameters.Mean r scope parameters types.1 types.2 := by
  cases parameters with
  | nil => exact .pure .nil
  | cons first rest =>
    refine (parameterType_ends h first s).bind fun type s₁ _ _ htype => ?_
    refine (parameterTypes_ends h rest s₁).bind fun types s₂ _ hsigns₂ htypes => .pure ?_
    exact .cons (htype.mono (hsigns₂.veiledWith file _)) htypes

/-- A member is gathered as it says. -/
theorem element_ends (h : FindsNames file pending values active lookup) (element : TypeElement) :
    GathersMembers file pending values active (Guarded.element file lookup scope element)
      fun r drafts drafts' => element.Gathers r scope drafts drafts' := by
  intro veiled own base s drafts members hgathering
  cases element with
  | property node name type? =>
    refine Ends.ite (fun hname => .pure ?_) fun hname => ?_
    · exact ⟨own, drafts, hgathering, .refl _, .missing hname⟩
    refine (gathering_ends hgathering (optionalType_ends h type? s)).bind ?_
    rintro type s₁ - - ⟨hgathering₁, hextends₁, htype⟩
    refine (addProperty_ends hgathering₁ ⟨file, name.node.span.start⟩ name.text type).mono ?_
    rintro _ s₂ - - ⟨own', _, hgathering₂, hextends₂, rfl⟩
    exact ⟨own', _, hgathering₂, hextends₁.trans hextends₂,
      .property hname (htype.mono hextends₂)⟩
  | method node name parameters result =>
    refine Ends.ite (fun hname => .pure ?_) fun hname => ?_
    · exact ⟨own, drafts, hgathering, .refl _, .missing hname⟩
    refine (gathering_ends hgathering (parameterTypes_ends h parameters s)).bind ?_
    rintro types s₁ - - ⟨hgathering₁, hextends₁, htypes⟩
    refine (gathering_ends hgathering₁ (optionalType_ends h result s₁)).bind ?_
    rintro type s₂ - - ⟨hgathering₂, hextends₂, htype⟩
    refine (addMethod_ends hgathering₂ ⟨file, name.node.span.start⟩ name.text
      ⟨types.1, type, types.2⟩).mono ?_
    rintro _ s₃ - - ⟨own', _, hgathering₃, hextends₃, rfl⟩
    have hlater := hextends₂.trans hextends₃
    exact ⟨own', _, hgathering₃, hextends₁.trans hlater,
      .method hname (htypes.mono hlater) (htype.mono hextends₃)⟩

/-- Members are gathered as they say, in order. -/
theorem elements_ends (h : FindsNames file pending values active lookup)
    (elements : List TypeElement) :
    GathersMembers file pending values active (Guarded.elements file lookup scope elements)
      fun r drafts drafts' => TypeElements.Gather r scope elements drafts drafts' := by
  cases elements with
  | nil => exact fun _ _ _ _ _ _ hgathering => Ends.pure ⟨_, _, hgathering, .refl _, .nil⟩
  | cons first rest =>
    exact (element_ends h first).bind (elements_ends h rest)
      fun hextends hfirst hrest => .cons (hfirst.mono hextends) hrest

end

/-- The signature of a declared function is the one it means. -/
theorem signature_ends (h : FindsNames file pending values active lookup)
    (parameters : List Parameter) (result : Option TypeNode) (s : ResolveState) :
    GivesMeaning file pending values active veiled (signature file lookup scope parameters result) s
      fun r signature => signature.Means r scope parameters result := by
  refine (parameterTypes_ends h parameters s).bind fun types s₁ _ _ htypes => ?_
  refine (optionalType_ends h result s₁).bind fun type s₂ _ hsigns₂ htype => .pure ?_
  exact ⟨htypes.mono (hsigns₂.veiledWith file _), htype⟩

/-- The signatures among declarations are the ones they mean. -/
theorem signatures_ends (h : FindsNames file pending values active lookup)
    (declarations : List Declaration) (s : ResolveState) :
    GivesMeaning file pending values active veiled (signatures file lookup declarations) s
      fun r signatures => Declarations.Sign r declarations signatures := by
  induction declarations generalizing s with
  | nil => exact .pure .nil
  | cons declaration rest ih =>
    cases declaration with
    | function scope parameters result =>
      refine (signature_ends h parameters result s).bind fun first s₁ _ _ hfirst => ?_
      refine (ih s₁).bind fun others s₂ _ hsigns₂ hothers => .pure ?_
      exact .function (hfirst.mono (hsigns₂.veiledWith file _)) hothers
    | variableDecl | interface | typeAlias => exact (ih s).mono fun _ _ _ _ => .other rfl

end Annotations

end Guarded

end ExpressionTyping
