import ExpressionTyping.Proofs.Program.Naming

/-!
# Annotations and values are what they are described as

A declaration is resolved in the program and described in its account side by side. Whatever the
program holds already, and whichever declarations are being resolved around this one, the types that
its annotations and values get in the program have the shapes that the description gives them: one
lemma for each function that resolves, over the tree of annotations (`typeNode_described`). What
names lead to is left open here (`Looks`, `Settles`).
-/

set_option autoImplicit false

namespace ExpressionTyping

/-- A file to be resolved: what it declares, with shapes and accounts that fit. -/
structure Outlook extends Layout where
  accounts : Key → Account
  solves : Solves toLayout.declared shapes accounts

namespace Outlook

variable (outlook : Outlook)

/-- Every declared name has a shape. -/
theorem exists_shape {entry : Entry} (h : entry ∈ outlook.entries) :
    ∃ shape, outlook.shapes entry.key = some shape :=
  ⟨_, outlook.solves.shape (List.mem_map_of_mem h)⟩

/-- An undeclared name has no shape. -/
theorem shapes_eq_none {key : Key} (h : outlook.scope.get? key = none) :
    outlook.shapes key = none := by
  refine (outlook.solves.undeclared ?_).1
  rw [Layout.map_fst_declared]
  intro hkey
  obtain ⟨entry, hentry, rfl⟩ := List.mem_map.mp hkey
  rw [outlook.found entry hentry] at h
  cases h

/-- What the declarations have brought: those in `held` are being looked at and have brought what is
said there, the others have brought everything if they are resolved and else nothing. -/
def accountsAt (held : Key → Option Account) (resolved : List SymbolId) (key : Key) : Account :=
  (held key).getD <|
    if ∃ entry ∈ outlook.entries, entry.key = key ∧ entry.id ∈ resolved then outlook.accounts key
    else .start

/-- The state of resolution is as a naming says, while some declarations are being looked at. -/
structure Holds (held : Key → Option Account) (naming : Naming) (s : ResolveState) : Prop where
  agrees : outlook.Agrees (outlook.accountsAt held naming.resolved) naming s.program
  resolved : s.resolved = naming.resolved

/-- The same, with the account of one more declaration that is being looked at. -/
def Working (held : Key → Option Account) (owner : Key) (naming : Naming) (s : ResolveState)
    (account : Account) : Prop :=
  outlook.Holds (Function.update held owner (some account)) naming s

variable {outlook} {held : Key → Option Account} {owner : Key} {resolved : List SymbolId}

/-- Where an owner's account is being written, it is the account at the owner. -/
theorem accountsAt_update_self (account : Account) :
    outlook.accountsAt (Function.update held owner (some account)) resolved owner = account := by
  unfold accountsAt
  rw [Function.update_self]
  rfl

/-- An account being written changes no other owner's. -/
theorem accountsAt_update_ne {key : Key} (hkey : key ≠ owner) (account? : Option Account) :
    outlook.accountsAt (Function.update held owner account?) resolved key =
      outlook.accountsAt held resolved key := by
  unfold accountsAt
  rw [Function.update_of_ne hkey]

/-- Accounts that come to the same. -/
theorem Holds.congr {held' : Key → Option Account} {naming : Naming} {s : ResolveState}
    (h : outlook.Holds held naming s)
    (hsame : ∀ key, outlook.accountsAt held' naming.resolved key =
      outlook.accountsAt held naming.resolved key) : outlook.Holds held' naming s := by
  refine ⟨?_, h.resolved⟩
  rw [funext hsame]
  exact h.agrees

/-- The account at hand gains object types that no type of the program has. -/
theorem Working.grow {naming : Naming} {s : ResolveState} {account account' : Account}
    (h : outlook.Working held owner naming s account) (hgrows : account.Grows account')
    (hreports : account'.reports = account.reports) :
    outlook.Working held owner naming s account' := by
  refine ⟨h.agrees.grow (fun key => ?_) (fun key => ?_), h.resolved⟩
  · by_cases hkey : key = owner
    · subst hkey
      rw [accountsAt_update_self, accountsAt_update_self]
      exact hgrows
    · rw [accountsAt_update_ne hkey, accountsAt_update_ne hkey]
      exact .refl _
  · by_cases hkey : key = owner
    · subst hkey
      rw [accountsAt_update_self, accountsAt_update_self]
      exact hreports
    · rw [accountsAt_update_ne hkey, accountsAt_update_ne hkey]

end Outlook

/-! ## Single steps -/

namespace Resolve

variable {outlook : Outlook} {held : Key → Option Account} {owner : Key} {naming : Naming}

/-- Sharing a type is described by the shape of its data and touches no account. -/
theorem shareType_described {data : TypeData} {shape : Shape}
    (hdata : ∀ accounts, naming.Describes accounts data shape) (hshared : data.isShared = true) :
    Follows (outlook.Working held owner) naming (compile (Compile.shareType data)) (pure shape)
      Naming.Types := by
  intro s account h
  obtain ⟨naming', hle, hresolved, hagrees, htype⟩ := h.agrees.share (hdata _) hshared
  refine ⟨naming', hle, ⟨?_, h.resolved.trans hresolved.symm⟩, htype⟩
  rw [hresolved]
  exact hagrees

/-- A union of described types is described by the union of their shapes. -/
theorem unionOf_described {ids : List TypeId} {shapes : List Shape}
    (hids : List.Forall₂ naming.Types ids shapes) :
    Follows (outlook.Working held owner) naming (compile (Compile.unionOf ids))
      (pure (Shape.unionOf shapes)) Naming.Types := by
  intro s account h
  obtain ⟨naming', hle, hresolved, hagrees, htype⟩ := h.agrees.unionOf hids
  refine ⟨naming', hle, ⟨?_, h.resolved.trans hresolved.symm⟩, htype⟩
  rw [hresolved]
  exact hagrees

/-- An object type is added to the program and to the account. -/
theorem addType_described {members : SymbolTable SymbolId} {signatures : List Signature}
    {content : ObjectShape} (hmembers : members.Pairs naming.Symbols content.members)
    (hsignatures : List.Forall₂ naming.Signs signatures content.signatures) :
    Follows (outlook.Working held owner) naming
      (compile (Compile.addType (.object none members signatures)))
      (Describe.addObject owner content) Naming.Types := by
  intro s account h
  -- the number is the next one, so no type has it yet
  have hnew : Shape.object owner account.objects.length ∉ naming.shapes := by
    intro hmem
    obtain ⟨i, hi⟩ := List.getElem?_of_mem hmem
    obtain ⟨data, -, hdescribes⟩ := h.agrees.types (show naming.Types ⟨i⟩ _ from hi)
    cases hdescribes with
    | object hcontent _ _ =>
      rw [Outlook.accountsAt_update_self, List.getElem?_eq_none (Nat.le_refl _)] at hcontent
      cases hcontent
  let account' : Account := { account with objects := account.objects ++ [content] }
  have hgrown : outlook.Working held owner naming s account' :=
    h.grow ⟨List.prefix_append _ _, rfl⟩ rfl
  have hcontent : (outlook.accountsAt (Function.update held owner (some account'))
      naming.resolved owner).objects[account.objects.length]? = some content := by
    rw [Outlook.accountsAt_update_self]
    exact List.getElem?_concat_length
  obtain ⟨hadded, htype⟩ := hgrown.agrees.addType (.object hcontent hmembers hsignatures) hnew
  exact ⟨_, naming.le_addShape hnew, ⟨hadded, h.resolved⟩, htype⟩

/-- A call-only object is described by a new object in the owner's account. -/
theorem addCallable_described {signatures : List Signature} {shapes : List SignatureShape}
    (h : List.Forall₂ naming.Signs signatures shapes) :
    Follows (outlook.Working held owner) naming
      (compile (Compile.addType (.object none .empty signatures)))
      (Describe.addObject owner ⟨.empty, shapes⟩) Naming.Types :=
  addType_described List.Forall₂.nil h

/-- A look at the program. -/
theorem program_described {α β : Type} {f : Program → Resolve α} {q : Describe β}
    {Q : Naming → α → β → Prop}
    (h : ∀ accounts program, outlook.Agrees accounts naming program →
      Follows (outlook.Working held owner) naming (f program) q Q) :
    Follows (outlook.Working held owner) naming (program >>= f) q Q :=
  fun s account hs => h _ _ hs.agrees s account hs

/-- Running two steps of building one after the other is running both as one. -/
theorem compile_bind {α β : Type} (p : Compile α) (f : α → Compile β) :
    compile (p >>= f) = compile p >>= fun a => compile (f a) :=
  rfl

/-- Changing the entry just pushed is pushing it changed. -/
theorem modify_push_size {α : Type} (xs : Array α) (a : α) (f : α → α) :
    (xs.push a).modify xs.size f = xs.push (f a) := by
  apply Array.ext_getElem?
  intro i
  rw [Array.getElem?_modify, Array.getElem?_push, Array.getElem?_push]
  by_cases hi : i = xs.size
  · rw [if_pos hi.symm, if_pos hi, if_pos hi]
    rfl
  · rw [if_neg (Ne.symm hi), if_neg hi, if_neg hi]

/-- A new symbol is a member. -/
theorem newMember_described (member : MemberShape) (location : Location) {type : TypeId}
    (htype : naming.Types type member.type) :
    Follows (outlook.Working held owner) naming
      (compile do
        let symbol ← Compile.addSymbol member.name member.sort type
        Compile.addLocation symbol location
        return symbol)
      (pure member) Naming.Symbols := by
  intro s account h
  let symbol : Symbol := ⟨member.name, member.sort, [location], type⟩
  have hadded : outlook.Agrees _ (naming.addSymbol (some member))
      { s.program with symbols := s.program.symbols.push symbol } :=
    h.agrees.addSymbol (some member) fun _ hmem => by
      cases hmem
      exact ⟨rfl, rfl, htype⟩
  refine ⟨_, naming.le_addSymbol (some member), ⟨?_, h.resolved⟩, ?_⟩
  · show outlook.Agrees _ _ { s.program with
      symbols := (s.program.symbols.push ⟨member.name, member.sort, [], type⟩).modify
        s.program.symbols.size _ }
    rw [modify_push_size]
    exact hadded
  · show (naming.members ++ [some member])[s.program.symbols.size]? = some (some member)
    rw [← h.agrees.count]
    exact List.getElem?_concat_length

/-- A problem is reported in the program and in the account of a declaration of the file. -/
theorem report_described (howner : owner ∈ outlook.keys) (file : FileId)
    (span : Span) (problem : Problem) :
    Follows (outlook.Working held owner) naming
      (do compile (Compile.report file span problem); return TypeId.any)
      (do Describe.report problem; return Shape.any) Naming.Types := by
  intro s account h
  refine ⟨naming, le_rfl, ⟨?_, h.resolved⟩, naming.any⟩
  refine h.agrees.report howner ⟨_, span, problem⟩ (fun key => ?_) ?_ fun key hkey => ?_
  · by_cases hkey : key = owner
    · subst hkey
      rw [Outlook.accountsAt_update_self, Outlook.accountsAt_update_self]
      exact ⟨List.prefix_refl _, rfl⟩
    · rw [Outlook.accountsAt_update_ne hkey, Outlook.accountsAt_update_ne hkey]
      exact .refl _
  · rw [Outlook.accountsAt_update_self, Outlook.accountsAt_update_self]
    rfl
  · rw [Outlook.accountsAt_update_ne hkey, Outlook.accountsAt_update_ne hkey]

/-! ## Members -/

/-- A member is as described. The type of a method is one of the object types that the declaration
at hand brings, so the method can still get signatures. -/
structure MemberDescribed (owner : Key) (naming : Naming) (id : SymbolId) (member : MemberShape) :
    Prop where
  symbols : naming.Symbols id member
  own : member.sort = .method → ∃ index, member.type = .object owner index

/-- Members are as described. -/
abbrev MembersDescribed (owner : Key) (naming : Naming) (members : SymbolTable SymbolId)
    (members' : SymbolTable MemberShape) : Prop :=
  members.Pairs (MemberDescribed owner naming) members'

/-- Members stay as described once more is named. -/
theorem MembersDescribed.mono {naming' : Naming} {members : SymbolTable SymbolId}
    {members' : SymbolTable MemberShape} (h : MembersDescribed owner naming members members')
    (hle : naming ≤ naming') : MembersDescribed owner naming' members members' :=
  h.imp fun _ _ hmember => ⟨hmember.symbols.mono hle, hmember.own⟩

/-- Adding a member is described by adding its shape. -/
theorem addMember_described {members : SymbolTable SymbolId} {members' : SymbolTable MemberShape}
    (h : MembersDescribed owner naming members members') (location : Location)
    (member : MemberShape)
    (hown : member.sort = .method → ∃ index, member.type = .object owner index) {type : TypeId} (htype : naming.Types type member.type) :
    Follows (outlook.Working held owner) naming
      (compile (addMember members location member.name member.sort type))
      (pure (members'.insert member.name member)) (MembersDescribed owner) := by
  intro s account hs
  obtain ⟨naming', hle, hs', hid⟩ := newMember_described member location htype s account hs
  exact ⟨naming', hle, hs', (MembersDescribed.mono h hle).insert member.name ⟨hid, hown⟩⟩

/-- The type of the method of a name is the object type of its number. -/
theorem methodType?_described {accounts : Key → Account} {program : Program}
    (hagrees : outlook.Agrees accounts naming program) {members : SymbolTable SymbolId}
    {members' : SymbolTable MemberShape} (h : MembersDescribed owner naming members members')
    (name : String) :
    Option.Rel (fun type index => naming.Types type (.object owner index))
      (program.methodType? members name) (Describe.methodIndex? members' name) := by
  have hget := h.get? name
  unfold Program.methodType? Describe.methodIndex?
  generalize members.get? name = found at hget ⊢
  generalize members'.get? name = found' at hget ⊢
  cases hget with
  | none => exact .none
  | @some id member hmember =>
    obtain ⟨symbol, hsymbol, -, hsort, htype⟩ := hagrees.symbols hmember.symbols
    have hown := hmember.own
    simp only [Program.symbol_of_symbols hsymbol, hsort]
    rcases member with ⟨name', sort, shape⟩
    cases sort with
    | method =>
      obtain ⟨index, rfl⟩ := hown rfl
      exact .some htype
    | _ => exact .none

/-- An object type that the declaration at hand brings has the next number. -/
theorem ownObject_described {p : Resolve TypeId} {content : ObjectShape}
    (h : Follows (outlook.Working held owner) naming p (Describe.addObject owner content)
      Naming.Types) :
    Follows (outlook.Working held owner) naming p (Describe.addObject owner content)
      fun naming' type shape =>
        naming'.Types type shape ∧ ∃ index, shape = .object owner index := by
  intro s account hs
  obtain ⟨naming', hle, hs', htype⟩ := h s account hs
  exact ⟨naming', hle, hs', htype, account.objects.length, rfl⟩

/-- One more signature of a method is one more signature of its object type in the account. -/
theorem addSignature_described {type : TypeId} {index : Nat}
    (htype : naming.Types type (.object owner index)) {signature : Signature}
    {shape : SignatureShape} (hsignature : naming.Signs signature shape) :
    Follows (outlook.Working held owner) naming (compile (Compile.addSignature type signature))
      (Describe.addSignature index shape) fun _ _ _ => True := by
  intro s account h
  refine ⟨naming, le_rfl, ⟨h.agrees.addSignature htype hsignature ?_ fun key hkey => ?_,
    h.resolved⟩, trivial⟩
  · rw [Outlook.accountsAt_update_self, Outlook.accountsAt_update_self]
    rfl
  · rw [Outlook.accountsAt_update_ne hkey, Outlook.accountsAt_update_ne hkey]

/-- Adding a method is described by adding its shape. -/
theorem addMethod_described {members : SymbolTable SymbolId} {members' : SymbolTable MemberShape}
    (h : MembersDescribed owner naming members members') (location : Location) (name : String)
    {signature : Signature} {shape : SignatureShape} (hsignature : naming.Signs signature shape) :
    Follows (outlook.Working held owner) naming
      (compile (addMethod members location name signature))
      (Describe.addMethod owner members' name shape) (MembersDescribed owner) := by
  unfold addMethod
  rw [compile_bind]
  refine program_described fun accounts program hagrees => ?_
  have hmethod := methodType?_described hagrees h name
  unfold Describe.addMethod
  generalize program.methodType? members name = type? at hmethod ⊢
  generalize Describe.methodIndex? members' name = index? at hmethod ⊢
  cases hmethod with
  | none =>
    dsimp only
    rw [compile_bind]
    refine (ownObject_described (addCallable_described (.cons hsignature .nil))).bind ?_
    rintro naming₁ hle type _ ⟨htype, index, rfl⟩
    exact addMember_described (h.mono hle) location ⟨name, .method, .object owner index⟩
      (fun _ => ⟨index, rfl⟩) htype
  | some htype =>
    dsimp only
    rw [compile_bind]
    refine (addSignature_described htype hsignature).bind fun naming₁ hle _ _ _ => ?_
    exact .pure (h.mono hle)

/-! ## Annotations -/

/-- The type of a literal is described by the literal's shape. -/
theorem literalType_described (value : Literal) :
    Follows (outlook.Working held owner) naming (literalType value)
      (pure (Describe.literalType value)) Naming.Types := by
  cases value with
  | string text | template text => exact shareType_described (fun _ => .stringLiteral text) rfl
  | number text => exact shareType_described (fun _ => .numberLiteral text) rfl
  | boolean value => exact .pure (naming.boolean value)
  | null => exact .pure naming.any

/-- Names in annotations lead to the types that they are described as. -/
def Looks (outlook : Outlook) (held : Key → Option Account) (owner : Key) (naming : Naming)
    (lookup : TypeLookup) (names : List String) : Prop :=
  ∀ naming', naming ≤ naming' → ∀ name : Identifier, name.text ∈ names →
    Follows (outlook.Working held owner) naming' (lookup ⟨0⟩ name)
      (Describe.reference outlook.shapes name.text) Naming.Types

section Looks

variable {lookup : TypeLookup} {names others : List String}

/-- A described look-up stays described once more is named. -/
theorem Looks.mono {naming' : Naming} (h : Looks outlook held owner naming lookup names)
    (hle : naming ≤ naming') : Looks outlook held owner naming' lookup names :=
  fun naming'' hle' => h naming'' (hle.trans hle')

/-- A look-up described at two lists of names is described at the first. -/
theorem Looks.left (h : Looks outlook held owner naming lookup (names ++ others)) :
    Looks outlook held owner naming lookup names :=
  fun naming' hle name hname => h naming' hle name (List.mem_append_left _ hname)

/-- A look-up described at two lists of names is described at the second. -/
theorem Looks.right (h : Looks outlook held owner naming lookup (names ++ others)) :
    Looks outlook held owner naming lookup others :=
  fun naming' hle name hname => h naming' hle name (List.mem_append_right _ hname)

end Looks

/-- The types of parameters are as described. -/
def ParametersDescribed (naming : Naming) (parameters : List (String × TypeId) × Bool)
    (shapes : List (String × Shape) × Bool) : Prop :=
  List.Forall₂ (fun p q => q.1 = p.1 ∧ naming.Types p.2 q.2) parameters.1 shapes.1 ∧
    shapes.2 = parameters.2

/-- Described parameters and a described result make a described signature. -/
theorem ParametersDescribed.signs {naming' : Naming} {parameters : List (String × TypeId) × Bool}
    {shapes : List (String × Shape) × Bool} (h : ParametersDescribed naming parameters shapes)
    (hle : naming ≤ naming') {result : TypeId} {shape : Shape}
    (hresult : naming'.Types result shape) :
    naming'.Signs ⟨parameters.1, result, parameters.2⟩ ⟨shapes.1, shape, shapes.2⟩ :=
  ⟨h.1.imp fun _ _ hp => ⟨hp.1, hp.2.mono hle⟩, hresult, h.2⟩

section Annotations

variable {file : FileId} {lookup : TypeLookup}

mutual

/-- An annotation means a type of the shape that it is described as. -/
theorem typeNode_described (type : TypeNode) (naming : Naming)
    (h : Looks outlook held owner naming lookup type.references) :
    Follows (outlook.Working held owner) naming (typeNode file lookup ⟨0⟩ type)
      (Describe.typeNode outlook.shapes owner type) Naming.Types := by
  cases type with
  | word node word => exact .pure (naming.word word)
  | literal node mark value => exact literalType_described value
  | reference node name => exact h naming le_rfl name List.mem_cons_self
  | array node element =>
    refine (typeNode_described element naming h).bind fun naming₁ _ _ _ helement => ?_
    exact shareType_described (fun _ => .array helement) rfl
  | union node members =>
    refine (typeNodes_described members naming h).bind fun naming₁ _ _ _ hmembers => ?_
    exact unionOf_described hmembers
  | function node parameters result =>
    refine (parameterTypes_described parameters naming h.left).bind ?_
    intro naming₁ hle _ _ hparameters
    refine (typeNode_described result naming₁ (h.right.mono hle)).bind ?_
    intro naming₂ hle' _ _ hresult
    exact addCallable_described (.cons (hparameters.signs hle' hresult) .nil)
  | object node members =>
    refine (elements_described members naming h .nil).bind fun naming₁ _ _ _ hmembers => ?_
    exact addType_described (hmembers.imp fun _ _ hmember => hmember.symbols) .nil
  | parenthesized node inner => exact typeNode_described inner naming h

/-- A list of annotations is described by the list of their shapes. -/
theorem typeNodes_described (types : List TypeNode) (naming : Naming)
    (h : Looks outlook held owner naming lookup (typeReferences types)) :
    Follows (outlook.Working held owner) naming (typeNodes file lookup ⟨0⟩ types)
      (Describe.typeNodes outlook.shapes owner types)
      fun naming' => List.Forall₂ naming'.Types := by
  cases types with
  | nil => exact .pure .nil
  | cons first rest =>
    refine (typeNode_described first naming h.left).bind fun naming₁ hle _ _ htype => ?_
    refine (typeNodes_described rest naming₁ (h.right.mono hle)).bind ?_
    exact fun _ hle' _ _ hrest => .pure (.cons (htype.mono hle') hrest)

/-- An annotation that may be missing is described by its shape, `any` if it is missing. -/
theorem optionalType_described (type? : Option TypeNode) (naming : Naming)
    (h : Looks outlook held owner naming lookup (annotationReferences type?)) :
    Follows (outlook.Working held owner) naming (optionalType file lookup ⟨0⟩ type?)
      (Describe.optionalType outlook.shapes owner type?) Naming.Types := by
  cases type? with
  | none => exact .pure naming.any
  | some type => exact typeNode_described type naming h

/-- A parameter is described by its name and the shape of its type. -/
theorem parameterType_described (parameter : Parameter) (naming : Naming)
    (h : Looks outlook held owner naming lookup parameter.references) :
    Follows (outlook.Working held owner) naming (parameterType file lookup ⟨0⟩ parameter)
      (Describe.parameterType outlook.shapes owner parameter)
      fun naming' p q => q.1 = p.1 ∧ naming'.Types p.2 q.2 := by
  obtain ⟨node, rest, name, type?⟩ := parameter
  cases type? with
  | none =>
    unfold parameterType Describe.parameterType
    split
    · show Follows _ _ (compile _ >>= fun type => pure (name.text, type))
        (pure (Shape.array .any) >>= fun shape => pure (name.text, shape)) _
      refine (shareType_described (fun _ => .array naming.any) rfl).bind ?_
      exact fun _ _ _ _ htype => .pure ⟨rfl, htype⟩
    · exact .pure ⟨rfl, naming.any⟩
  | some type =>
    exact (typeNode_described type naming h).bind fun _ _ _ _ htype => .pure ⟨rfl, htype⟩

/-- Parameters are described by their names and shapes, and by whether the last is a rest one. -/
theorem parameterTypes_described (parameters : List Parameter) (naming : Naming)
    (h : Looks outlook held owner naming lookup (parameterReferences parameters)) :
    Follows (outlook.Working held owner) naming (parameterTypes file lookup ⟨0⟩ parameters)
      (Describe.parameterTypes outlook.shapes owner parameters) ParametersDescribed := by
  cases parameters with
  | nil => exact .pure ⟨.nil, rfl⟩
  | cons first rest =>
    refine (parameterType_described first naming h.left).bind fun naming₁ hle _ _ hfirst => ?_
    refine (parameterTypes_described rest naming₁ (h.right.mono hle)).bind ?_
    intro naming₂ hle' others others' hothers
    refine .pure ⟨.cons ⟨hfirst.1, hfirst.2.mono hle'⟩ hothers.1, ?_⟩
    simp only [hothers.2]

/-- Adding a member is described by adding its shape. -/
theorem element_described (element : TypeElement) (naming : Naming)
    (h : Looks outlook held owner naming lookup element.references)
    {members : SymbolTable SymbolId} {members' : SymbolTable MemberShape}
    (hmembers : MembersDescribed owner naming members members') :
    Follows (outlook.Working held owner) naming (Resolve.element file lookup ⟨0⟩ element members)
      (Describe.element outlook.shapes owner element members') (MembersDescribed owner) := by
  cases element with
  | property node name type? =>
    unfold Resolve.element Describe.element
    split
    · exact .pure hmembers
    · refine (optionalType_described type? naming h).bind fun naming₁ hle _ shape htype => ?_
      exact addMember_described (hmembers.mono hle) _ ⟨name.text, .property, shape⟩ nofun htype
  | method node name parameters result =>
    unfold Resolve.element Describe.element
    split
    · exact .pure hmembers
    · refine (parameterTypes_described parameters naming h.left).bind ?_
      intro naming₁ hle _ _ hparameters
      refine (optionalType_described result naming₁ (h.right.mono hle)).bind ?_
      intro naming₂ hle' _ _ hresult
      exact addMethod_described (hmembers.mono (hle.trans hle')) _ name.text
        (hparameters.signs hle' hresult)

/-- Adding members is described by adding their shapes, in order. -/
theorem elements_described (elements : List TypeElement) (naming : Naming)
    (h : Looks outlook held owner naming lookup (elementReferences elements))
    {members : SymbolTable SymbolId} {members' : SymbolTable MemberShape}
    (hmembers : MembersDescribed owner naming members members') :
    Follows (outlook.Working held owner) naming (Resolve.elements file lookup ⟨0⟩ elements members)
      (Describe.elements outlook.shapes owner elements members') (MembersDescribed owner) := by
  cases elements with
  | nil => exact .pure hmembers
  | cons first rest =>
    refine (element_described first naming h.left hmembers).bind fun naming₁ hle _ _ hfirst => ?_
    exact elements_described rest naming₁ (h.right.mono hle) hfirst

end

end Annotations

/-! ## Values and names -/

/-- The symbols of some names get the types that they are described as. -/
def Settles (outlook : Outlook) (held : Key → Option Account) (owner : Key) (naming : Naming)
    (resolve : SymbolId → Resolve TypeId) (keys : List Key) : Prop :=
  ∀ naming', naming ≤ naming' → ∀ entry ∈ outlook.entries, entry.key ∈ keys → ∀ shape,
    outlook.shapes entry.key = some shape →
      Follows (outlook.Working held owner) naming' (resolve entry.id) (pure shape)
        fun naming'' type shape' => shape' = shape ∧ naming''.Types type shape ∧
          entry.id ∈ naming''.resolved

section Values

variable {resolve : SymbolId → Resolve TypeId} {keys : List Key}

/-- A name in a value is described by the shape of the symbol it stands for. -/
theorem identifierType_described (file : FileId) (howner : owner ∈ outlook.keys) (offset : Nat)
    (name : Identifier) (h : Settles outlook held owner naming resolve [.value name.text]) :
    Follows (outlook.Working held owner) naming
      (valueType file resolve ⟨0⟩ offset (.identifier name))
      (Describe.valueType outlook.shapes (.identifier name)) Naming.Types := by
  refine program_described fun accounts program hagrees => ?_
  have hfind : program.resolveValue? ⟨0⟩ name.text = outlook.scope.get? (.value name.text) :=
    hagrees.find? (.value name.text)
  rw [hfind, Describe.valueType]
  cases hfound : outlook.scope.get? (.value name.text) with
  | some id =>
    obtain ⟨entry, hentry, hkey, rfl⟩ := outlook.only hfound
    obtain ⟨shape, hshape⟩ := outlook.exists_shape hentry
    have hsettled := h naming le_rfl entry hentry (List.mem_singleton.mpr hkey) shape hshape
    rw [← hkey, hshape]
    show Follows _ _ _ (pure shape >>= fun shape => pure shape) _
    refine hsettled.bind ?_
    rintro naming₁ - type _ ⟨rfl, -, hresolved⟩
    refine program_described fun accounts' program' hagrees' => .pure ?_
    rw [hagrees'.typeAt]
    exact hagrees'.symbol_type hentry (.inl hresolved) hshape
  | none =>
    rw [outlook.shapes_eq_none hfound]
    simp only
    split
    · exact .pure (naming.word .undefined)
    · exact report_described howner file _ _

/-- A written value has a type of the shape that it is described as. -/
theorem valueType_described (file : FileId) (howner : owner ∈ outlook.keys) (offset : Nat) (value : Expr)
    (h : Settles outlook held owner naming resolve (value.reference?.toList.map .value)) :
    Follows (outlook.Working held owner) naming (valueType file resolve ⟨0⟩ offset value)
      (Describe.valueType outlook.shapes value) Naming.Types := by
  cases value with
  | identifier name => exact identifierType_described file howner offset name h
  | literal node value =>
    cases value with
    | null => exact .pure (naming.word .null)
    | _ => exact literalType_described _
  | parenthesized node inner => exact valueType_described file howner offset inner h
  | unary node op operand =>
    cases op with
    | not => exact .pure (naming.word .boolean)
    | typeOf => exact .pure (naming.word .string)
    | void => exact .pure (naming.word .undefined)
    | minus =>
      cases operand with
      | literal node value =>
        cases value with
        | number digits => exact shareType_described (fun _ => .numberLiteral _) rfl
        | _ => exact .pure (naming.word .number)
      | _ => exact .pure (naming.word .number)
    | _ => exact .pure (naming.word .number)
  | _ => exact .pure naming.any

/-- The names in annotations are described where the symbols they stand for are. -/
theorem reference_looks (file : FileId) (howner : owner ∈ outlook.keys) {names : List String}
    (h : Settles outlook held owner naming resolve (names.map .type)) :
    Looks outlook held owner naming (reference file resolve) names := by
  intro naming₁ hle name hname
  unfold reference Describe.reference
  have hmissing : name.isMissing = name.text.isEmpty := rfl
  rw [hmissing]
  split
  · exact .pure naming₁.any
  · refine program_described fun accounts program hagrees => ?_
    have hfind : program.resolveType? ⟨0⟩ name.text = outlook.scope.get? (.type name.text) :=
      hagrees.find? (.type name.text)
    rw [hfind]
    cases hfound : outlook.scope.get? (.type name.text) with
    | some id =>
      obtain ⟨entry, hentry, hkey, rfl⟩ := outlook.only hfound
      obtain ⟨shape, hshape⟩ := outlook.exists_shape hentry
      have hmem : entry.key ∈ names.map .type := hkey ▸ List.mem_map_of_mem hname
      rw [← hkey, hshape]
      refine (h naming₁ hle entry hentry hmem shape hshape).imp ?_
      rintro naming₂ - type _ ⟨rfl, htype, -⟩
      exact htype
    | none =>
      rw [outlook.shapes_eq_none hfound]
      simp only
      split
      · exact .pure (naming₁.wellKnown _ (by decide))
      · split
        · exact .pure (naming₁.wellKnown _ (by decide))
        · exact report_described howner file _ _

/-! ## Declarations -/

/-- A declaration that is no interface gives a type of the shape that it is described as. -/
theorem declaredType_described (file : FileId) {entry : Entry} (hentry : entry ∈ outlook.entries)
    (hinterface : entry.declaration.isInterface = false)
    (h : Settles outlook held entry.key naming resolve entry.declaration.references) :
    Follows (outlook.Working held entry.key) naming
      (declaredType file resolve entry.id entry.declaration [entry.declaration])
      (Describe.declaration outlook.shapes entry.key entry.declaration) Naming.Types := by
  have howner : entry.key ∈ outlook.keys := List.mem_map_of_mem hentry
  have hscope := outlook.inScope entry hentry
  generalize entry.declaration = declaration at hinterface hscope h ⊢
  cases declaration with
  | variableDecl scope constant type? initializer =>
    cases hscope
    cases type? with
    | some type => exact typeNode_described type naming (reference_looks file howner h)
    | none =>
      cases initializer with
      | none => exact .pure naming.any
      | some initializer =>
        refine program_described fun accounts program hagrees => ?_
        refine (valueType_described file howner _ initializer h).bind ?_
        intro naming₁ _ type shape htype
        refine program_described fun accounts' program' hagrees' => .pure ?_
        split
        · exact htype
        · exact hagrees'.widen htype
  | function scope parameters result =>
    cases hscope
    have hlooks : Looks outlook held entry.key naming (reference file resolve)
        (parameterReferences parameters ++ annotationReferences result) :=
      reference_looks file howner h
    show Follows _ _
      (parameterTypes file (reference file resolve) ⟨0⟩ parameters >>= fun parameters =>
        optionalType file (reference file resolve) ⟨0⟩ result >>= fun result =>
          compile (Compile.addType (.object none .empty [⟨parameters.1, result, parameters.2⟩])))
      _ _
    refine (parameterTypes_described parameters naming hlooks.left).bind ?_
    intro naming₁ hle _ _ hparameters
    refine (optionalType_described result naming₁ (hlooks.right.mono hle)).bind ?_
    intro naming₂ hle' _ _ hresult
    exact addCallable_described (.cons (hparameters.signs hle' hresult) .nil)
  | interface => cases hinterface
  | typeAlias scope nameSpan type =>
    cases hscope
    exact typeNode_described type naming (reference_looks file howner h)

end Values

end Resolve

end ExpressionTyping
