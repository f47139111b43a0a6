import ExpressionTyping.Proofs.Program.Declaring

/-!
# What an annotation means

An annotation is read against a table of types, symbols with their sorts and types, and a meaning of
names: `TypeNode.Means r scope node id` says that the type at `id` is what the annotation says. The
judgment follows the annotation and looks at finished tables only, so it does not say in which order
anything is resolved.

A reading may be extended: the table grows, interfaces get their members, more symbols are settled
and more names are known. What an annotation means then stays (`TypeNode.Means.mono`), so a type
that was right when it was put into the table is right for good. The types of methods get signatures
while members are gathered, so annotations are read with a veil over these until that is done
(`Reading.veil`, `Reading.unveil`).
-/

set_option autoImplicit false

namespace ExpressionTyping

/-! ## Members of object types -/

/-- What a member of an object type is. -/
inductive MemberDraft where
  /-- A property with its type. -/
  | property (type : TypeId)
  /-- A method with its signatures, in order. -/
  | method (signatures : List Signature)

/-- A method among members adds its signature to those of a method of the same name. It takes the
place of a property, or of nothing. -/
def MemberDraft.addMethod (drafts : SymbolTable MemberDraft) (name : String)
    (signature : Signature) : SymbolTable MemberDraft :=
  match drafts.get? name with
  | some (.method signatures) => drafts.insert name (.method (signatures ++ [signature]))
  | _ => drafts.insert name (.method [signature])

/-! ## Readings -/

/-- What annotations of a file are read against. -/
structure Reading where
  /-- The file. -/
  file : FileId
  /-- The table of types. -/
  types : TypeTable
  /-- The sort and the type of a symbol. -/
  symbols : SymbolId → SymbolSort → TypeId → Prop
  /-- The type that a name in a scope means. -/
  names : ScopeId → Identifier → TypeId → Prop

namespace Reading

/-- The type of a literal. -/
def LiteralIs (r : Reading) : Literal → TypeId → Prop
  | .string text, id | .template text, id => r.types.get id = .stringLiteral text
  | .number text, id => r.types.get id = .numberLiteral text
  | .boolean value, id => id = .ofBoolean value
  | .null, id => id = .any

/-- What different types that are no unions are together: `any` if that is among them, no type at
all, the only one, or a union in the table. -/
def JoinIs (r : Reading) (members : List TypeId) (id : TypeId) : Prop :=
  if TypeId.any ∈ members then id = .any
  else match members with
    | [] => id = .ofWord .never
    | [only] => id = only
    | members => r.types.get id = .union members

/-- The union of types that are in the table. Unions among them are taken apart, and repeated types
are dropped. -/
def UnionIs (r : Reading) (ids : List TypeId) (id : TypeId) : Prop :=
  (∀ part ∈ ids, part.index < r.types.entries.size) ∧
    r.JoinIs (ids.flatMap r.types.constituents).eraseDups id

/-- The symbol that is a member. -/
def MemberIs (r : Reading) : MemberDraft → SymbolId → Prop
  | .property type, id => r.symbols id .property type
  | .method signatures, id => ∃ type, r.symbols id .method type ∧
      r.types.get type = .object none .empty signatures

/-- The table of the symbols that are members. -/
def MembersAre (r : Reading) (drafts : SymbolTable MemberDraft) (members : SymbolTable SymbolId) :
    Prop :=
  drafts.Pairs r.MemberIs members

end Reading

mutual

/-- An annotation in a scope means a type. -/
inductive TypeNode.Means (r : Reading) (scope : ScopeId) : TypeNode → TypeId → Prop where
  | word {node : Node} {word : TypeWord} : TypeNode.Means r scope (.word node word) (.ofWord word)
  | literal {node constant : Node} {value : Literal} {id : TypeId} (h : r.LiteralIs value id) :
      TypeNode.Means r scope (.literal node constant value) id
  | reference {node : Node} {name : Identifier} {id : TypeId} (h : r.names scope name id) :
      TypeNode.Means r scope (.reference node name) id
  | array {node : Node} {element : TypeNode} {part id : TypeId}
      (helement : TypeNode.Means r scope element part) (h : r.types.get id = .array part) :
      TypeNode.Means r scope (.array node element) id
  | union {node : Node} {members : List TypeNode} {ids : List TypeId} {id : TypeId}
      (hmembers : TypeNodes.Mean r scope members ids) (h : r.UnionIs ids id) :
      TypeNode.Means r scope (.union node members) id
  | function {node : Node} {parameters : List Parameter} {result : TypeNode}
      {types : List (String × TypeId)} {hasRest : Bool} {type id : TypeId}
      (hparameters : Parameters.Mean r scope parameters types hasRest)
      (hresult : TypeNode.Means r scope result type)
      (h : r.types.get id = .object none .empty [⟨types, type, hasRest⟩]) :
      TypeNode.Means r scope (.function node parameters result) id
  | object {node : Node} {elements : List TypeElement} {drafts : SymbolTable MemberDraft}
      {members : SymbolTable SymbolId} {id : TypeId}
      (helements : TypeElements.Gather r scope elements .empty drafts)
      (hmembers : r.MembersAre drafts members) (h : r.types.get id = .object none members []) :
      TypeNode.Means r scope (.object node elements) id
  | parenthesized {node : Node} {inner : TypeNode} {id : TypeId}
      (h : TypeNode.Means r scope inner id) : TypeNode.Means r scope (.parenthesized node inner) id

/-- Annotations in a scope mean types, one by one. -/
inductive TypeNodes.Mean (r : Reading) (scope : ScopeId) : List TypeNode → List TypeId → Prop where
  | nil : TypeNodes.Mean r scope [] []
  | cons {node : TypeNode} {nodes : List TypeNode} {id : TypeId} {ids : List TypeId}
      (h : TypeNode.Means r scope node id) (hrest : TypeNodes.Mean r scope nodes ids) :
      TypeNodes.Mean r scope (node :: nodes) (id :: ids)

/-- An annotation that may be missing means a type; without one it is `any`. -/
inductive OptionalType.Means (r : Reading) (scope : ScopeId) : Option TypeNode → TypeId → Prop where
  | none : OptionalType.Means r scope none .any
  | some {node : TypeNode} {id : TypeId} (h : TypeNode.Means r scope node id) :
      OptionalType.Means r scope (some node) id

/-- A parameter has a name and a type. A rest parameter without an annotation takes an array of
anything. -/
inductive Parameter.Means (r : Reading) (scope : ScopeId) : Parameter → String × TypeId → Prop where
  | plain {node : Node} {name : Identifier} :
      Parameter.Means r scope (.mk node none name none) (name.text, .any)
  | rest {node : Node} {dots : Span} {name : Identifier} {id : TypeId}
      (h : r.types.get id = .array .any) :
      Parameter.Means r scope (.mk node (some dots) name none) (name.text, id)
  | annotated {node : Node} {dots : Option Span} {name : Identifier} {type : TypeNode} {id : TypeId}
      (h : TypeNode.Means r scope type id) :
      Parameter.Means r scope (.mk node dots name (some type)) (name.text, id)

/-- Parameters have names and types, and the last one may be a rest parameter. -/
inductive Parameters.Mean (r : Reading) (scope : ScopeId) :
    List Parameter → List (String × TypeId) → Bool → Prop where
  | nil : Parameters.Mean r scope [] [] false
  | cons {parameter : Parameter} {parameters : List Parameter} {type : String × TypeId}
      {types : List (String × TypeId)} {hasRest : Bool}
      (h : Parameter.Means r scope parameter type)
      (hrest : Parameters.Mean r scope parameters types hasRest) :
      Parameters.Mean r scope (parameter :: parameters) (type :: types)
        (if parameters.isEmpty then parameter.isRest else hasRest)

/-- A member of an object type adds to the members gathered before it; a missing name adds
nothing. -/
inductive TypeElement.Gathers (r : Reading) (scope : ScopeId) :
    TypeElement → SymbolTable MemberDraft → SymbolTable MemberDraft → Prop where
  | missing {element : TypeElement} {drafts : SymbolTable MemberDraft}
      (h : element.name.isMissing = true) : TypeElement.Gathers r scope element drafts drafts
  | property {node : Node} {name : Identifier} {type? : Option TypeNode} {type : TypeId}
      {drafts : SymbolTable MemberDraft} (hname : ¬name.isMissing = true)
      (h : OptionalType.Means r scope type? type) :
      TypeElement.Gathers r scope (.property node name type?) drafts
        (drafts.insert name.text (.property type))
  | method {node : Node} {name : Identifier} {parameters : List Parameter}
      {result : Option TypeNode} {types : List (String × TypeId)} {hasRest : Bool} {type : TypeId}
      {drafts : SymbolTable MemberDraft} (hname : ¬name.isMissing = true)
      (hparameters : Parameters.Mean r scope parameters types hasRest)
      (hresult : OptionalType.Means r scope result type) :
      TypeElement.Gathers r scope (.method node name parameters result) drafts
        (MemberDraft.addMethod drafts name.text ⟨types, type, hasRest⟩)

/-- Members of an object type add to gathered ones, in order. -/
inductive TypeElements.Gather (r : Reading) (scope : ScopeId) :
    List TypeElement → SymbolTable MemberDraft → SymbolTable MemberDraft → Prop where
  | nil {drafts : SymbolTable MemberDraft} : TypeElements.Gather r scope [] drafts drafts
  | cons {element : TypeElement} {elements : List TypeElement}
      {drafts drafts' drafts'' : SymbolTable MemberDraft}
      (h : TypeElement.Gathers r scope element drafts drafts')
      (hrest : TypeElements.Gather r scope elements drafts' drafts'') :
      TypeElements.Gather r scope (element :: elements) drafts drafts''

end

/-- A function has a signature by its parameters and its result. -/
def Signature.Means (r : Reading) (scope : ScopeId) (parameters : List Parameter)
    (result : Option TypeNode) (signature : Signature) : Prop :=
  Parameters.Mean r scope parameters signature.parameters signature.hasRest ∧
    OptionalType.Means r scope result signature.result

/-- Whether a declaration is one signature of a function. -/
def Declaration.isFunction : Declaration → Bool
  | .function _ _ _ => true
  | _ => false

/-- The functions among declarations have signatures, in order. -/
inductive Declarations.Sign (r : Reading) : List Declaration → List Signature → Prop where
  | nil : Declarations.Sign r [] []
  | function {scope : ScopeId} {parameters : List Parameter} {result : Option TypeNode}
      {rest : List Declaration} {first : Signature} {others : List Signature}
      (h : first.Means r scope parameters result) (hrest : Declarations.Sign r rest others) :
      Declarations.Sign r (.function scope parameters result :: rest) (first :: others)
  | other {declaration : Declaration} {rest : List Declaration} {signatures : List Signature}
      (h : declaration.isFunction = false) (hrest : Declarations.Sign r rest signatures) :
      Declarations.Sign r (declaration :: rest) signatures

/-- The interfaces among declarations add their members to gathered ones, in order. -/
inductive Declarations.Gather (r : Reading) :
    List Declaration → SymbolTable MemberDraft → SymbolTable MemberDraft → Prop where
  | nil {drafts : SymbolTable MemberDraft} : Declarations.Gather r [] drafts drafts
  | interface {scope : ScopeId} {elements : List TypeElement} {rest : List Declaration}
      {drafts drafts' drafts'' : SymbolTable MemberDraft}
      (h : TypeElements.Gather r scope elements drafts drafts')
      (hrest : Declarations.Gather r rest drafts' drafts'') :
      Declarations.Gather r (.interface scope elements :: rest) drafts drafts''
  | other {declaration : Declaration} {rest : List Declaration}
      {drafts drafts' : SymbolTable MemberDraft} (h : declaration.isInterface = false)
      (hrest : Declarations.Gather r rest drafts drafts') :
      Declarations.Gather r (declaration :: rest) drafts drafts'

/-! ## Readings that are extended -/

/-- One reading says everything that another says. -/
structure Reading.Extends (r later : Reading) : Prop where
  file : later.file = r.file
  types : Continues TypeData.Endures r.types.entries later.types.entries
  symbols : ∀ id sort type, r.symbols id sort type → later.symbols id sort type
  names : ∀ scope name id, r.names scope name id → later.names scope name id

/-- Every reading says what it says. -/
theorem Reading.Extends.refl (r : Reading) : r.Extends r :=
  ⟨rfl, .refl TypeData.Endures.refl _, fun _ _ _ => id, fun _ _ _ => id⟩

/-- A reading that extends another is extended by what extends it. -/
theorem Reading.Extends.trans {a b c : Reading} (h : a.Extends b) (h' : b.Extends c) :
    a.Extends c where
  file := h'.file.trans h.file
  types := h.types.trans (R := TypeData.Endures) (fun _ _ _ => .trans) h'.types
  symbols id sort type hsymbol := h'.symbols id sort type (h.symbols id sort type hsymbol)
  names scope name id hname := h'.names scope name id (h.names scope name id hname)

/-- The constituents of a known type stay as they are while old types are kept. -/
theorem TypeTable.constituents_kept {table later : TypeTable}
    (h : Kept table.entries later.entries) {id : TypeId} (hid : id.index < table.entries.size) :
    later.constituents id = table.constituents id :=
  constituents_of_endures h.holds.endures hid

/-- The reading with a veil over some types. -/
def Reading.veil (r : Reading) (veiled : List TypeId) : Reading :=
  { r with types := r.types.veil veiled }

/-- At some places of a table stand objects with nothing but signatures. -/
def TypeTable.AreCallable (table : TypeTable) (ids : List TypeId) : Prop :=
  ∀ id ∈ ids, ∃ signatures, table.entries[id.index]? = some (.object none .empty signatures)

section Veil

variable {r later : Reading} {table : TypeTable} {veiled fewer : List TypeId}

/-- Objects with nothing but signatures stay them while types hold. -/
theorem TypeTable.AreCallable.mono {later : TypeTable} (h : table.AreCallable veiled)
    (hholds : Continues TypeData.Holds table.entries later.entries) :
    later.AreCallable veiled := by
  intro id hid
  obtain ⟨signatures, hentry⟩ := h id hid
  obtain ⟨found, hfound, hsame⟩ := hholds _ _ hentry
  exact ⟨signatures, by rw [hfound, hsame.endures.eq nofun]⟩

/-- What stands at a place is not behind the veil if it is not what the veil is over. -/
theorem TypeTable.get_veil (h : table.AreCallable veiled) {id : TypeId} {data : TypeData}
    (hdata : table.get id = data)
    (hne : ∀ signatures, data ≠ .object none .empty signatures) :
    (table.veil veiled).get id = data := by
  have hvisible : id ∉ veiled := by
    intro hmem
    obtain ⟨signatures, hentry⟩ := h id hmem
    rw [get_of_entries hentry] at hdata
    exact hne signatures hdata.symm
  rw [← hdata]
  exact get_congr (getElem?_veil_of_notMem hvisible)

/-- What stands at a new place is not behind a veil over types that were there. -/
theorem TypeTable.get_veil_of_le {earlier : TypeTable} (h : earlier.AreCallable veiled)
    {id : TypeId} (hid : earlier.entries.size ≤ id.index) : (table.veil veiled).get id = table.get id := by
  refine get_congr (getElem?_veil_of_notMem fun hmem => ?_)
  obtain ⟨signatures, hentry⟩ := h id hmem
  exact absurd (Array.getElem?_eq_some_iff.mp hentry).1 (Nat.not_lt_of_le hid)

/-- Types are made of the same types behind the veil. -/
theorem TypeTable.constituents_veil (h : table.AreCallable veiled) (id : TypeId) :
    (table.veil veiled).constituents id = table.constituents id := by
  by_cases hmem : id ∈ veiled
  · obtain ⟨signatures, hentry⟩ := h id hmem
    have hveiled : (table.veil veiled).entries[id.index]? = some (.named "") := by
      rw [getElem?_veil, if_pos hmem, hentry]
      rfl
    rw [constituents, constituents, get_of_entries hentry, get_of_entries hveiled]
    rfl
  · unfold constituents
    rw [get_congr (getElem?_veil_of_notMem hmem)]

/-- What a literal means is not behind the veil. -/
theorem Reading.LiteralIs.veil (h : r.types.AreCallable veiled) {value : Literal} {id : TypeId}
    (hvalue : r.LiteralIs value id) : (r.veil veiled).LiteralIs value id := by
  cases value with
  | string text | template text | number text => exact TypeTable.get_veil h hvalue nofun
  | boolean value | null => exact hvalue

/-- What a union gives is not behind the veil. -/
theorem Reading.UnionIs.veil (h : r.types.AreCallable veiled) {ids : List TypeId} {id : TypeId}
    (hunion : r.UnionIs ids id) : (r.veil veiled).UnionIs ids id := by
  obtain ⟨hids, hjoin⟩ := hunion
  refine ⟨fun part hpart => (r.types.size_veil veiled).symm ▸ hids part hpart, ?_⟩
  have hparts : ids.flatMap (r.veil veiled).types.constituents =
      ids.flatMap r.types.constituents :=
    List.flatMap_congr fun id _ => TypeTable.constituents_veil h id
  rw [hparts]
  unfold Reading.JoinIs at hjoin ⊢
  split at hjoin
  · rwa [if_pos ‹_›]
  · rw [if_neg ‹_›]
    split at hjoin
    · exact hjoin
    · exact hjoin
    · exact TypeTable.get_veil h hjoin nofun

/-- Readings that extend each other do so behind a veil. -/
theorem Reading.Extends.veil (h : r.Extends later) (veiled : List TypeId) :
    (r.veil veiled).Extends (later.veil veiled) :=
  { h with types := TypeTable.endures_veil h.types veiled }

/-- What is so behind a veil is so behind one over fewer types. -/
theorem Reading.unveil (h : r.types.AreCallable veiled) (hfewer : ∀ id ∈ fewer, id ∈ veiled) :
    (r.veil veiled).Extends (r.veil fewer) where
  file := rfl
  types := TypeTable.endures_of_veil hfewer fun id hid => by
    obtain ⟨signatures, hentry⟩ := h id hid
    exact ⟨_, _, _, hentry⟩
  symbols _ _ _ hsymbol := hsymbol
  names _ _ _ hname := hname

end Veil

section Mono

variable {r later : Reading}

namespace Reading.Extends

variable (h : r.Extends later)
include h

/-- What a literal means still does in a later reading. -/
theorem literalIs {value : Literal} {id : TypeId} (hvalue : r.LiteralIs value id) :
    later.LiteralIs value id := by
  cases value with
  | string text | template text | number text =>
    exact TypeTable.get_of_endures h.types nofun nofun hvalue
  | boolean value | null => exact hvalue

/-- What joining types gives is still so in a later reading. -/
theorem joinIs {members : List TypeId} {id : TypeId} (hjoin : r.JoinIs members id) :
    later.JoinIs members id := by
  unfold Reading.JoinIs at hjoin ⊢
  split at hjoin
  · rwa [if_pos ‹_›]
  · rw [if_neg ‹_›]
    split at hjoin
    · exact hjoin
    · exact hjoin
    · exact TypeTable.get_of_endures h.types nofun nofun hjoin

/-- What a union gives is still so in a later reading. -/
theorem unionIs {ids : List TypeId} {id : TypeId} (hunion : r.UnionIs ids id) :
    later.UnionIs ids id := by
  obtain ⟨hids, hjoin⟩ := hunion
  have hparts : ids.flatMap later.types.constituents = ids.flatMap r.types.constituents :=
    List.flatMap_congr fun id hid => TypeTable.constituents_of_endures h.types (hids id hid)
  refine ⟨fun part hpart => Nat.lt_of_lt_of_le (hids part hpart) h.types.size_le, ?_⟩
  rw [hparts]
  exact h.joinIs hjoin

/-- What a member is it still is in a later reading. -/
theorem memberIs {draft : MemberDraft} {id : SymbolId} (hmember : r.MemberIs draft id) :
    later.MemberIs draft id := by
  cases draft with
  | property type => exact h.symbols _ _ _ hmember
  | method signatures =>
    obtain ⟨type, hsymbol, htype⟩ := hmember
    exact ⟨type, h.symbols _ _ _ hsymbol, TypeTable.get_of_endures h.types nofun nofun htype⟩

end Reading.Extends

variable {scope : ScopeId}

mutual

/-- What an annotation means stays when a reading is extended. -/
theorem TypeNode.Means.mono (h : r.Extends later) {node : TypeNode} {id : TypeId}
    (hmeans : node.Means r scope id) : node.Means later scope id := by
  cases hmeans with
  | word => exact .word
  | literal hvalue => exact .literal (h.literalIs hvalue)
  | reference hname => exact .reference (h.names _ _ _ hname)
  | array helement harray =>
    exact .array (helement.mono h) (TypeTable.get_of_endures h.types nofun nofun harray)
  | union hmembers hunion => exact .union (hmembers.mono h) (h.unionIs hunion)
  | function hparameters hresult hfunction =>
    exact .function (hparameters.mono h) (hresult.mono h)
      (TypeTable.get_of_endures h.types nofun nofun hfunction)
  | object helements hmembers hobject =>
    exact .object (helements.mono h) (hmembers.imp fun _ _ => h.memberIs)
      (TypeTable.get_of_endures h.types nofun nofun hobject)
  | parenthesized hinner => exact .parenthesized (hinner.mono h)

/-- What a list of annotations means it still means in a later reading. -/
theorem TypeNodes.Mean.mono (h : r.Extends later) {nodes : List TypeNode} {ids : List TypeId}
    (hmean : TypeNodes.Mean r scope nodes ids) : TypeNodes.Mean later scope nodes ids := by
  cases hmean with
  | nil => exact .nil
  | cons hfirst hrest => exact .cons (hfirst.mono h) (hrest.mono h)

/-- What an annotation that may be missing means it still means in a later reading. -/
theorem OptionalType.Means.mono (h : r.Extends later) {node? : Option TypeNode} {id : TypeId}
    (hmeans : OptionalType.Means r scope node? id) : OptionalType.Means later scope node? id := by
  cases hmeans with
  | none => exact .none
  | some hnode => exact .some (hnode.mono h)

/-- What a parameter means it still means in a later reading. -/
theorem Parameter.Means.mono (h : r.Extends later) {parameter : Parameter} {type : String × TypeId}
    (hmeans : parameter.Means r scope type) : parameter.Means later scope type := by
  cases hmeans with
  | plain => exact .plain
  | rest hrest => exact .rest (TypeTable.get_of_endures h.types nofun nofun hrest)
  | annotated htype => exact .annotated (htype.mono h)

/-- What parameters mean they still mean in a later reading. -/
theorem Parameters.Mean.mono (h : r.Extends later) {parameters : List Parameter}
    {types : List (String × TypeId)} {hasRest : Bool}
    (hmean : Parameters.Mean r scope parameters types hasRest) :
    Parameters.Mean later scope parameters types hasRest := by
  cases hmean with
  | nil => exact .nil
  | cons hfirst hrest => exact .cons (hfirst.mono h) (hrest.mono h)

/-- What a member adds to gathered ones is the same in a later reading. -/
theorem TypeElement.Gathers.mono (h : r.Extends later) {element : TypeElement}
    {drafts drafts' : SymbolTable MemberDraft} (hgathers : element.Gathers r scope drafts drafts') :
    element.Gathers later scope drafts drafts' := by
  cases hgathers with
  | missing hname => exact .missing hname
  | property hname htype => exact .property hname (htype.mono h)
  | method hname hparameters hresult =>
    exact .method hname (hparameters.mono h) (hresult.mono h)

/-- What members add to gathered ones is the same in a later reading. -/
theorem TypeElements.Gather.mono (h : r.Extends later) {elements : List TypeElement}
    {drafts drafts' : SymbolTable MemberDraft}
    (hgather : TypeElements.Gather r scope elements drafts drafts') :
    TypeElements.Gather later scope elements drafts drafts' := by
  cases hgather with
  | nil => exact .nil
  | cons hfirst hrest => exact .cons (hfirst.mono h) (hrest.mono h)

end

/-- What a signature means it still means in a later reading. -/
theorem Signature.Means.mono (h : r.Extends later) {parameters : List Parameter}
    {result : Option TypeNode} {signature : Signature}
    (hmeans : signature.Means r scope parameters result) :
    signature.Means later scope parameters result :=
  ⟨hmeans.1.mono h, hmeans.2.mono h⟩

/-- The signatures of declarations are the same in a later reading. -/
theorem Declarations.Sign.mono (h : r.Extends later) {declarations : List Declaration}
    {signatures : List Signature} (hsign : Declarations.Sign r declarations signatures) :
    Declarations.Sign later declarations signatures := by
  induction hsign with
  | nil => exact .nil
  | function hfirst _ ih => exact .function (hfirst.mono h) ih
  | other hother _ ih => exact .other hother ih

/-- What the declarations of an interface gather is the same in a later reading. -/
theorem Declarations.Gather.mono (h : r.Extends later) {declarations : List Declaration}
    {drafts drafts' : SymbolTable MemberDraft}
    (hgather : Declarations.Gather r declarations drafts drafts') :
    Declarations.Gather later declarations drafts drafts' := by
  induction hgather with
  | nil => exact .nil
  | interface hfirst _ ih => exact .interface (hfirst.mono h) ih
  | other hother _ ih => exact .other hother ih

end Mono

end ExpressionTyping
