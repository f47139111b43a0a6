import ExpressionTyping.Proofs.Program.Ends

/-!
# How states of resolution follow each other

A symbol is resolved when it is first asked for, in the middle of whatever else is being resolved,
and an alias that leads back to itself is reported and means `any` on the way. So what a name means
is said for a state of resolution and for the symbols that are being resolved there
(`ResolveState.reading`).

`ResolveState.Settles` says how one state leads to another, and `ResolveState.Signs` that, once the
members of interfaces are known, every symbol resolved on the way has the type, or the signatures,
that its declarations say. While the members of a type are gathered, the types of its methods still
get signatures; nothing that is resolved meanwhile refers to them, so it is read with a veil over
these types.
-/

set_option autoImplicit false

namespace ExpressionTyping

/-! ## What names mean -/

namespace Program

/-- The type that a name means to which no declaration leads. -/
def unboundType (name : String) : TypeId :=
  if name = "Function" then .globalFunction
  else if name = "Object" then .globalObject
  else .any

/-- Everything that a program knows, as something to read the annotations of a file against. -/
def reading (program : Program) (file : FileId) : Reading where
  file
  types := program.types
  symbols id sort type :=
    ∃ symbol, program.symbol? id = some symbol ∧ symbol.sort = sort ∧ symbol.type = type
  names scope name id :=
    id = if name.isMissing then .any
      else match program.resolveType? scope name.text with
        | some symbol => (program.symbol symbol).type
        | none => unboundType name.text

end Program

/-- It is reported that an alias refers to itself. -/
def Program.ReportsCircle (program : Program) (file : FileId) (id : SymbolId) : Prop :=
  program.HasSymbol id ∧ ∃ span,
    ⟨program.fileName file, ⟨span, .circularAlias (program.symbol id).name⟩⟩ ∈ program.issues

namespace ResolveState

variable (file : FileId) (pending : Pending)

/-- A symbol has its final type: it is resolved, or no declaration is left that could give it
another. -/
def Settled (s : ResolveState) (id : SymbolId) : Prop :=
  s.program.HasSymbol id ∧ (id ∈ s.resolved ∨ pending.declarationsOf id = [])

/-- What is known while symbols are being resolved. It includes the types of settled symbols. Some
aliases may be left at `any`, which are reported then. -/
def readingWith (left : SymbolId → Prop) (s : ResolveState) : Reading where
  file
  types := s.program.types
  symbols id sort type := s.Settled pending id ∧
    ∃ symbol, s.program.symbol? id = some symbol ∧ symbol.sort = sort ∧ symbol.type = type
  names scope name id :=
    if name.isMissing then id = .any
    else match s.program.resolveType? scope name.text with
      | some symbol => left symbol ∧ id = .any ∧ s.program.ReportsCircle file symbol ∨
          s.Settled pending symbol ∧ id = (s.program.symbol symbol).type
      | none => id = Program.unboundType name.text

/-- The aliases that may be left are those that are being resolved. -/
abbrev reading (active : List SymbolId) (s : ResolveState) : Reading :=
  s.readingWith file pending (· ∈ active)

/-- Any alias may be left. -/
abbrev readingInCircles (s : ResolveState) : Reading :=
  s.readingWith file pending fun _ => True

end ResolveState

/-! ## How states follow each other -/

/-- Resolving adds types, symbols and issues, and declares nothing; scopes keep what stands in them,
assignments apart. -/
structure ResolveState.GoesOn (s s' : ResolveState) : Prop where
  reaches : s.program.types.Reaches s'.program.types
  symbols : Continues Symbol.Grows s.program.symbols s'.program.symbols
  declarations : ∀ id, s.program.HasSymbol id →
    (s'.program.symbol id).declarations = (s.program.symbol id).declarations
  scopes : Continues Scope.KeepsNames s.program.scopes s'.program.scopes
  size : s'.program.scopes.size = s.program.scopes.size
  files : s'.program.files = s.program.files
  resolved : s.resolved ⊆ s'.resolved

/-- Values and types that are declared have symbols of their sort. -/
structure ResolveState.Sorted (pending : Pending) (s : ResolveState) : Prop where
  names : s.program.Sorted
  kinds : ∀ entry ∈ pending, ∃ symbol, s.program.symbol? entry.1 = some symbol ∧
    entry.2.isOf symbol.sort = true

/-- Types stay what they are, but interfaces may get their members, and types of symbols stay that
do not get resolved. What was reported stays, and so do interfaces. -/
structure ResolveState.Settles (pending : Pending) (s s' : ResolveState) : Prop
    extends GoesOn s s' where
  types : Continues TypeData.Holds s.program.types.entries s'.program.types.entries
  fixed : ∀ id, s.program.HasSymbol id → (id ∈ s'.resolved → id ∈ s.resolved) →
    (s'.program.symbol id).type = (s.program.symbol id).type
  declared : ∀ id ∈ s'.resolved, id ∈ s.resolved ∨ pending.declarationsOf id ≠ []
  issues : s.program.issues ⊆ s'.program.issues
  tidy : s.program.Tidy → s'.program.Tidy
  interfaces : s.program.KeepsInterfaces s'.program

/-- If a symbol is a function, its type has the signatures of its declarations. Some types are
behind a veil. -/
def ResolveState.Signed (file : FileId) (pending : Pending) (veiled : List TypeId)
    (s : ResolveState) (id : SymbolId) : Prop :=
  s.program.HasSymbol id ∧ ∀ first rest, pending.declarationsOf id = first :: rest →
    first.isFunction = true → ∃ signatures,
      (s.program.types.veil veiled).get (s.program.symbol id).type =
          .object none .empty signatures ∧
        Declarations.Sign ((s.reading file pending []).veil veiled) (first :: rest) signatures

/-- A type is what the annotation of a declaration says, if it has one. -/
def Declaration.Gives (r : Reading) : Declaration → TypeId → Prop
  | .variableDecl scope _ (some node) _, type | .typeAlias scope _ node, type =>
    node.Means r scope type
  | _, _ => True

/-- What a declaration gives it still gives in a later reading. -/
theorem Declaration.Gives.mono {r later : Reading} {declaration : Declaration} {type : TypeId}
    (hgives : declaration.Gives r type) (h : r.Extends later) : declaration.Gives later type := by
  cases declaration with
  | variableDecl scope constant type? initializer =>
    cases type? with
    | none => trivial
    | some node => exact TypeNode.Means.mono h hgives
  | typeAlias => exact TypeNode.Means.mono h hgives
  | function | interface => trivial

/-- If a symbol is declared with an annotation, its type is what that says. Some types are behind a
veil. -/
def ResolveState.Given (file : FileId) (pending : Pending) (veiled : List TypeId)
    (s : ResolveState) (id : SymbolId) : Prop :=
  s.program.HasSymbol id ∧ ∀ first rest, pending.declarationsOf id = first :: rest →
    first.Gives ((s.readingInCircles file pending).veil veiled) (s.program.symbol id).type

/-- Once the members of interfaces are known, types stay as they are, and every symbol that is
resolved on the way has the signatures, or the type, of its declarations. -/
structure ResolveState.Records (file : FileId) (pending : Pending) (veiled : List TypeId)
    (s s' : ResolveState) : Prop extends Settles pending s s' where
  kept : Kept s.program.types.entries s'.program.types.entries
  signed : ∀ id ∈ s'.resolved, id ∈ s.resolved ∨ s'.Signed file pending veiled id
  given : ∀ id ∈ s'.resolved, id ∈ s.resolved ∨ s'.Given file pending veiled id

/-- While some symbols are being resolved, those wait and others get settled: types and, if they
may be asked for, values. Nothing is assigned meanwhile. -/
structure ResolveState.Signs (file : FileId) (pending : Pending) (values : Prop)
    (active : List SymbolId) (veiled : List TypeId) (s s' : ResolveState) : Prop
    extends Records file pending veiled s s' where
  sameScopes : s'.program.scopes = s.program.scopes
  waits : ∀ id ∈ active, id ∈ s'.resolved → id ∈ s.resolved
  kinds : ∀ id ∈ s'.resolved, id ∈ s.resolved ∨ values ∨
    (s'.program.symbol id).sort.isType = true

/-- An interface has the members that its declarations list. -/
structure ResolveState.Furnished (file : FileId) (pending : Pending) (s : ResolveState)
    (id : SymbolId) : Prop where
  hasSymbol : s.program.HasSymbol id
  sort : (s.program.symbol id).sort = .interface
  members : ∃ name drafts members,
    s.program.types.entries[(s.program.symbol id).type.index]? =
      some (.object (some name) members []) ∧
    Declarations.Gather (s.reading file pending []) (pending.declarationsOf id) .empty drafts ∧
    (s.reading file pending []).MembersAre drafts members

/-- While interfaces get their members only types are resolved, and they are what their annotations
say. -/
structure ResolveState.Furnishes (file : FileId) (pending : Pending) (s s' : ResolveState) : Prop
    extends Settles pending s s' where
  sameScopes : s'.program.scopes = s.program.scopes
  kinds : ∀ id ∈ s'.resolved, id ∈ s.resolved ∨ s'.program.HasSymbol id ∧
    (s'.program.symbol id).sort.isType = true
  given : ∀ id ∈ s'.resolved, id ∈ s.resolved ∨ s'.Given file pending [] id
  furnished : ∀ id, s.Furnished file pending id → s'.Furnished file pending id

/-- Values and types are told apart, a program is tidy, and the types behind a veil are objects with
nothing but signatures. -/
structure ResolveState.Orderly (pending : Pending) (veiled : List TypeId) (s : ResolveState) :
    Prop where
  sorted : s.Sorted pending
  tidy : s.program.Tidy
  callable : s.program.types.AreCallable veiled

namespace ResolveState

variable {file : FileId} {pending : Pending} {values : Prop} {active : List SymbolId}
  {veiled : List TypeId} {s s' s'' : ResolveState}

namespace GoesOn

/-- A state goes on from itself. -/
theorem refl (s : ResolveState) : s.GoesOn s :=
  ⟨.refl, .refl Symbol.Grows.refl _, fun _ _ => rfl, .refl Scope.KeepsNames.refl _, rfl, rfl,
    List.Subset.refl _⟩

/-- Going on continues from state to state. -/
theorem trans (h : s.GoesOn s') (h' : s'.GoesOn s'') : s.GoesOn s'' where
  reaches := h.reaches.trans h'.reaches
  symbols := h.symbols.trans (R := Symbol.Grows) (fun _ _ _ => .trans) h'.symbols
  declarations id hid :=
    (h'.declarations id (Nat.lt_of_lt_of_le hid h.symbols.size_le)).trans (h.declarations id hid)
  scopes := h.scopes.trans (R := Scope.KeepsNames) (fun _ _ _ => .trans) h'.scopes
  size := h'.size.trans h.size
  files := h'.files.trans h.files
  resolved := List.Subset.trans h.resolved h'.resolved

variable (h : s.GoesOn s')
include h

/-- A symbol that exists goes on existing. -/
theorem hasSymbol {id : SymbolId} (hid : s.program.HasSymbol id) : s'.program.HasSymbol id :=
  Nat.lt_of_lt_of_le hid h.symbols.size_le

/-- A scope that exists goes on existing. -/
theorem hasScope {id : ScopeId} (hid : s.program.HasScope id) : s'.program.HasScope id :=
  Nat.lt_of_lt_of_eq hid h.size.symm

/-- A symbol that exists only grows. -/
theorem symbol {id : SymbolId} (hid : s.program.HasSymbol id) :
    (s.program.symbol id).Grows (s'.program.symbol id) := by
  obtain ⟨later, hlater, hgrows⟩ := h.symbols _ _ hid.symbol?
  obtain ⟨-, heq⟩ := Program.HasSymbol.of_symbol? hlater
  exact heq ▸ hgrows

/-- Every scope keeps the names it declares. -/
theorem scope (id : ScopeId) : (s.program.scope id).KeepsNames (s'.program.scope id) := by
  by_cases hid : s.program.HasScope id
  · obtain ⟨later, hlater, hkeeps⟩ := h.scopes _ _ hid.scope?
    obtain ⟨-, heq⟩ := Program.HasScope.of_scope? hlater
    exact heq ▸ hkeeps
  · have hle : s.program.scopes.size ≤ id.index := Nat.le_of_not_lt hid
    rw [Program.scope_of_le hle, Program.scope_of_le (h.size ▸ hle)]
    exact .refl _

/-- The way outward from a scope stays the same. -/
theorem outward_eq (scope : ScopeId) : s'.program.outward scope = s.program.outward scope :=
  congrArg (scope :: ·) (h.scope scope).enclosing

/-- A type name goes on standing for the same symbol. -/
theorem resolveType?_eq (scope : ScopeId) (name : String) :
    s'.program.resolveType? scope name = s.program.resolveType? scope name := by
  unfold Program.resolveType?
  rw [h.outward_eq]
  exact congrArg (List.findSome? · _) (funext fun id => congrArg (·.get? name) (h.scope id).types)

/-- A value name goes on standing for the same symbol. -/
theorem resolveValue?_eq (scope : ScopeId) (name : String) :
    s'.program.resolveValue? scope name = s.program.resolveValue? scope name := by
  unfold Program.resolveValue?
  rw [h.outward_eq]
  exact congrArg (List.findSome? · _) (funext fun id => congrArg (·.get? name) (h.scope id).values)

/-- A state that goes on from a sorted one is sorted. -/
theorem sorted (hs : s.Sorted pending) : s'.Sorted pending where
  names := hs.names.of_scopes h.symbols
    (fun scope key => by
      cases key with
      | value name => exact congrArg (·.get? name) (h.scope scope).values
      | type name => exact congrArg (·.get? name) (h.scope scope).types)
    fun scope => congrArg _ (h.scope scope).values
  kinds entry hentry := by
    obtain ⟨symbol, hsymbol, hkind⟩ := hs.kinds entry hentry
    obtain ⟨later, hlater, hgrows⟩ := h.symbols _ _ hsymbol
    exact ⟨later, hlater, hgrows.sort ▸ hkind⟩

end GoesOn

namespace Sorted

variable (h : s.Sorted pending)
include h

/-- Every symbol with a declaration exists. -/
theorem hasSymbol_of_declares {id : SymbolId} (hid : pending.Declares id) :
    s.program.HasSymbol id := by
  obtain ⟨made, hmade⟩ := hid
  obtain ⟨symbol, hsymbol, -⟩ := h.kinds _ hmade
  exact (Program.HasSymbol.of_symbol? hsymbol).1

/-- A declaration is one of the sort of its symbol. -/
theorem isOf {id : SymbolId} {made : Declaration} (hmade : (id, made) ∈ pending) :
    made.isOf (s.program.symbol id).sort = true := by
  obtain ⟨symbol, hsymbol, hkind⟩ := h.kinds _ hmade
  obtain ⟨-, heq⟩ := Program.HasSymbol.of_symbol? hsymbol
  exact heq ▸ hkind

/-- The kind of a declared symbol is that of its declarations. -/
theorem isType_eq {id : SymbolId} {made : Declaration} (hmade : (id, made) ∈ pending) :
    (s.program.symbol id).sort.isType = made.isType :=
  Declaration.isType_eq (h.isOf hmade)

end Sorted

/-- The signatures of a function are the same in a later reading. -/
theorem Signed.mono {veiled' : List TypeId} {id : SymbolId} (h : s.Signed file pending veiled id)
    (hhas : s'.program.HasSymbol id)
    (htype : (s'.program.symbol id).type = (s.program.symbol id).type)
    (hextends : ((s.reading file pending []).veil veiled).Extends
      ((s'.reading file pending []).veil veiled')) : s'.Signed file pending veiled' id := by
  refine ⟨hhas, fun first rest hdeclarations hfunction => ?_⟩
  obtain ⟨signatures, hget, hsign⟩ := h.2 first rest hdeclarations hfunction
  refine ⟨signatures, ?_, hsign.mono hextends⟩
  rw [htype]
  exact TypeTable.get_of_endures hextends.types nofun nofun hget

/-- What an annotation says of a symbol is the same in a later reading. -/
theorem Given.mono {veiled' : List TypeId} {id : SymbolId} (h : s.Given file pending veiled id)
    (hhas : s'.program.HasSymbol id)
    (htype : (s'.program.symbol id).type = (s.program.symbol id).type)
    (hextends : ((s.readingInCircles file pending).veil veiled).Extends
      ((s'.readingInCircles file pending).veil veiled')) : s'.Given file pending veiled' id := by
  refine ⟨hhas, fun first rest hdeclarations => ?_⟩
  rw [htype]
  exact (h.2 first rest hdeclarations).mono hextends

/-- Without a veil, a program that is tidy is orderly. -/
theorem Sorted.orderly (h : s.Sorted pending) (htidy : s.program.Tidy) : s.Orderly pending [] :=
  ⟨h, htidy, List.forall_mem_nil _⟩

/-- What was settled stays so. -/
theorem Settled.mono (h : s.Settles pending s') {id : SymbolId} (hid : s.Settled pending id) :
    s'.Settled pending id :=
  ⟨h.hasSymbol hid.1, hid.2.imp_left fun hmem => h.resolved hmem⟩

namespace Settles

/-- Nothing happening settles nothing new. -/
theorem refl (s : ResolveState) : s.Settles pending s :=
  { GoesOn.refl s with
    types := .refl TypeData.Holds.refl _
    fixed := fun _ _ _ => rfl
    declared := fun _ hid => .inl hid
    issues := List.Subset.refl _
    tidy := id
    interfaces := .refl s.program }

/-- Settling continues from state to state. -/
theorem trans (h : s.Settles pending s') (h' : s'.Settles pending s'') : s.Settles pending s'' :=
  { h.toGoesOn.trans h'.toGoesOn with
    types := h.types.trans (R := TypeData.Holds) (fun _ _ _ => .trans) h'.types
    fixed := by
      intro id hid hresolved
      have hfirst := h.fixed id hid fun hmem => hresolved (h'.resolved hmem)
      have hsecond := h'.fixed id (h.hasSymbol hid) fun hmem => h.resolved (hresolved hmem)
      exact hsecond.trans hfirst
    declared := by
      intro id hid
      rcases h'.declared id hid with hmem | hdeclared
      · exact h.declared id hmem
      · exact .inr hdeclared
    issues := List.Subset.trans h.issues h'.issues
    tidy := h'.tidy ∘ h.tidy
    interfaces := h.interfaces.trans h'.interfaces }

variable (h : s.Settles pending s')
include h

/-- A settled symbol keeps its type. -/
theorem type_eq {id : SymbolId} (hid : s.Settled pending id) :
    (s'.program.symbol id).type = (s.program.symbol id).type := by
  refine h.fixed id hid.1 fun hmem => ?_
  rcases hid.2 with hresolved | hnone
  · exact hresolved
  · exact (h.declared id hmem).resolve_right fun hdeclared => hdeclared hnone

/-- A reported circle stays reported. -/
theorem reportsCircle {id : SymbolId} (hcircle : s.program.ReportsCircle file id) :
    s'.program.ReportsCircle file id := by
  obtain ⟨hhas, span, hmem⟩ := hcircle
  refine ⟨h.hasSymbol hhas, span, ?_⟩
  rw [(h.symbol hhas).name, Program.fileName, h.files]
  exact h.issues hmem

/-- A later state is read as an extension of an earlier one. -/
theorem readingWith (file : FileId) (left : SymbolId → Prop) :
    (s.readingWith file pending left).Extends (s'.readingWith file pending left) where
  file := rfl
  types := h.types.endures
  symbols := by
    rintro id sort type ⟨hid, symbol, hsymbol, rfl, rfl⟩
    obtain ⟨later, hlater, hgrows⟩ := h.symbols _ _ hsymbol
    obtain ⟨-, rfl⟩ := Program.HasSymbol.of_symbol? hsymbol
    obtain ⟨-, rfl⟩ := Program.HasSymbol.of_symbol? hlater
    exact ⟨hid.mono h, _, hlater, hgrows.sort, h.type_eq hid⟩
  names := by
    intro scope name id hname
    simp only [ResolveState.readingWith, h.resolveType?_eq] at hname ⊢
    split at hname
    · rwa [if_pos ‹_›]
    · rw [if_neg ‹_›]
      split at hname
      · rcases hname with ⟨hleft, hany, hcircle⟩ | ⟨hsettled, rfl⟩
        · exact .inl ⟨hleft, hany, h.reportsCircle hcircle⟩
        · exact .inr ⟨hsettled.mono h, (h.type_eq hsettled).symm⟩
      · exact hname

/-- A later state is read as an extension of an earlier one behind the same veil, too. -/
theorem veiledWith (file : FileId) (left : SymbolId → Prop) :
    ((s.readingWith file pending left).veil veiled).Extends
      ((s'.readingWith file pending left).veil veiled) :=
  (h.readingWith file left).veil veiled

/-- A state that settles from an orderly one is orderly. -/
theorem orderly (hs : s.Orderly pending veiled) : s'.Orderly pending veiled :=
  ⟨h.sorted hs.sorted, h.tidy hs.tidy, hs.callable.mono h.types⟩

/-- The signatures of a function that is resolved stay what they are. -/
theorem signed {id : SymbolId} (hid : id ∈ s.resolved) (hsigned : s.Signed file pending veiled id) :
    s'.Signed file pending veiled id :=
  hsigned.mono (h.hasSymbol hsigned.1) (h.type_eq ⟨hsigned.1, .inl hid⟩) (h.veiledWith file _)

/-- What an annotation says of a symbol that is resolved stays so. -/
theorem given {id : SymbolId} (hid : id ∈ s.resolved) (hgiven : s.Given file pending veiled id) :
    s'.Given file pending veiled id :=
  hgiven.mono (h.hasSymbol hgiven.1) (h.type_eq ⟨hgiven.1, .inl hid⟩) (h.veiledWith file _)

/-- What is resolved in two stages is as its annotation says, if it is so after each of them. -/
theorem given_of_given {resolved : List SymbolId}
    (hfirst : ∀ id ∈ s.resolved, id ∈ resolved ∨ s.Given file pending veiled id)
    (hlater : ∀ id ∈ s'.resolved, id ∈ s.resolved ∨ s'.Given file pending veiled id) :
    ∀ id ∈ s'.resolved, id ∈ resolved ∨ s'.Given file pending veiled id := by
  intro id hid
  rcases hlater id hid with hmem | hgiven
  · exact (hfirst id hmem).imp_right (h.given hmem)
  · exact .inr hgiven

end Settles

namespace Records

/-- Nothing happening records nothing wrong. -/
theorem refl (s : ResolveState) : s.Records file pending veiled s :=
  { Settles.refl s with
    kept := fun _ _ => rfl
    signed := fun _ hid => .inl hid
    given := fun _ hid => .inl hid }

/-- Keeping the record continues from state to state. -/
theorem trans (h : s.Records file pending veiled s') (h' : s'.Records file pending veiled s'') :
    s.Records file pending veiled s'' :=
  { h.toSettles.trans h'.toSettles with
    kept := h.kept.trans h'.kept
    signed := by
      intro id hid
      rcases h'.signed id hid with hmem | hsigned
      · exact (h.signed id hmem).imp_right (h'.toSettles.signed hmem)
      · exact .inr hsigned
    given := h'.toSettles.given_of_given h.given h'.given }

/-- An interface keeps the members that it has. -/
theorem furnished (h : s.Records file pending veiled s') {id : SymbolId}
    (hid : s.Furnished file pending id) : s'.Furnished file pending id := by
  obtain ⟨hhas, hsort, name, drafts, members, hentry, hgather, hmembers⟩ := hid
  have hextends := h.readingWith file (· ∈ [])
  refine ⟨h.hasSymbol hhas, (h.symbol hhas).sort.trans hsort, name, drafts, members, ?_,
    hgather.mono hextends, hmembers.imp fun _ _ => hextends.memberIs⟩
  rw [h.interfaces.type_eq h.symbols hhas hsort]
  exact h.kept.of_some hentry

end Records

namespace Signs

/-- Nothing happening signs nothing wrong. -/
theorem refl (s : ResolveState) : s.Signs file pending values active veiled s :=
  { Records.refl s with
    sameScopes := rfl
    waits := fun _ _ hid => hid
    kinds := fun _ hid => .inl hid }

/-- Signing continues from state to state. -/
theorem trans (h : s.Signs file pending values active veiled s')
    (h' : s'.Signs file pending values active veiled s'') :
    s.Signs file pending values active veiled s'' :=
  { h.toRecords.trans h'.toRecords with
    sameScopes := h'.sameScopes.trans h.sameScopes
    waits := fun id hid hmem => h.waits id hid (h'.waits id hid hmem)
    kinds := by
      intro id hid
      rcases h'.kinds id hid with hmem | hkind
      · rcases h.signed id hmem with hold | hsigned
        · exact .inl hold
        · rw [(h'.symbol hsigned.1).sort]
          exact h.kinds id hmem
      · exact .inr hkind }

end Signs

namespace Furnishes

/-- Nothing happening furnishes nothing wrong. -/
theorem refl (s : ResolveState) : s.Furnishes file pending s :=
  { Settles.refl s with
    sameScopes := rfl
    kinds := fun _ hid => .inl hid
    given := fun _ hid => .inl hid
    furnished := fun _ hid => hid }

/-- Furnishing continues from state to state. -/
theorem trans (h : s.Furnishes file pending s') (h' : s'.Furnishes file pending s'') :
    s.Furnishes file pending s'' :=
  { h.toSettles.trans h'.toSettles with
    sameScopes := h'.sameScopes.trans h.sameScopes
    kinds := by
      intro id hid
      rcases h'.kinds id hid with hmem | hnew
      · refine (h.kinds id hmem).imp_right fun ⟨hhas, htype⟩ => ⟨h'.hasSymbol hhas, ?_⟩
        rw [(h'.symbol hhas).sort]
        exact htype
      · exact .inr hnew
    given := h'.toSettles.given_of_given h.given h'.given
    furnished := fun id hid => h'.furnished id (h.furnished id hid) }

end Furnishes

/-- When only types may be asked for, what is resolved furnishes. -/
theorem Signs.furnishes (h : s.Signs file pending False active [] s') :
    s.Furnishes file pending s' :=
  { h.toSettles with
    sameScopes := h.sameScopes
    kinds := fun id hid => by
      rcases h.signed id hid with hmem | hsigned
      · exact .inl hmem
      · exact (h.kinds id hid).imp_right fun hkind => ⟨hsigned.1, hkind.resolve_left False.elim⟩
    given := h.given
    furnished := fun _ hid => h.toRecords.furnished hid }

end ResolveState

/-- Values and types are told apart, and functions get the signatures of their declarations. -/
def Discipline.signing (file : FileId) (pending : Pending) (values : Prop)
    (active : List SymbolId) (veiled : List TypeId) : Discipline ResolveState where
  inv := ResolveState.Orderly pending veiled
  rel := ResolveState.Signs file pending values active veiled
  refl := .refl
  trans := .trans

/-- Assignments are recorded, too. -/
def Discipline.recording (file : FileId) (pending : Pending) : Discipline ResolveState where
  inv := ResolveState.Orderly pending []
  rel := ResolveState.Records file pending []
  refl := .refl
  trans := .trans

/-- Interfaces get their members, and have types of their own for them. -/
def Discipline.shaping (file : FileId) (pending : Pending) : Discipline ResolveState where
  inv := ResolveState.Orderly pending []
  rel := ResolveState.Furnishes file pending
  refl := .refl
  trans := .trans

/-- What signs while no value is read also shapes. -/
theorem Ends.shaping {α : Type} {file : FileId} {pending : Pending} {active : List SymbolId}
    {q : Guarded ResolveState α} {s : ResolveState} {Q : α → ResolveState → Prop}
    (h : Ends (.signing file pending False active []) q s Q) :
    Ends (.shaping file pending) q s Q :=
  h.relax (fun _ => Iff.rfl) fun _ hsigns => hsigns.furnishes

/-- What signs also keeps the record. -/
theorem Ends.recording {α : Type} {file : FileId} {pending : Pending} {values : Prop}
    {active : List SymbolId} {q : Guarded ResolveState α} {s : ResolveState}
    {Q : α → ResolveState → Prop} (h : Ends (.signing file pending values active []) q s Q) :
    Ends (.recording file pending) q s Q :=
  h.relax (fun _ => Iff.rfl) fun _ hsigns => hsigns.toRecords

/-! ## Steps of resolution -/

/-- A state goes on if its program is enlarged and what is resolved stays resolved. -/
theorem Program.Enlarged.goesOn {s s' : ResolveState} (h : s.program.Enlarged s'.program)
    (hresolved : s.resolved ⊆ s'.resolved) : s.GoesOn s' where
  reaches := h.reaches
  symbols := h.grows
  declarations _ hid := congrArg Symbol.declarations (h.symbol_eq hid)
  scopes _ scope hscope := ⟨scope, h.scopes.symm ▸ hscope, .refl scope⟩
  size := congrArg Array.size h.scopes
  files := h.files
  resolved := hresolved

namespace Guarded

variable {file : FileId} {pending : Pending} {values : Prop} {active : List SymbolId}
  {veiled : List TypeId} {s : ResolveState}

/-- Adding to the program resolves nothing. -/
theorem grown_signs {program : Program} (h : s.program.Grown program) :
    s.Signs file pending values active veiled { s with program } := by
  have hgoesOn : s.GoesOn { s with program } := h.goesOn (List.Subset.refl _)
  exact
    { hgoesOn with
      types := h.types.holds
      fixed := fun id hid _ => congrArg Symbol.type (h.symbol_eq hid)
      declared := fun _ hid => .inl hid
      issues := h.issues.subset
      tidy := h.tidy
      interfaces := h.interfaces
      kept := h.types
      signed := fun _ hid => .inl hid
      given := fun _ hid => .inl hid
      sameScopes := h.scopes
      waits := fun _ _ hid => hid
      kinds := fun _ hid => .inl hid }

/-- What is added to the program is settled. -/
theorem added_extends (hs : s.Sorted pending) (program : Program) :
    (program.added file s.program.symbols.size).Extends
      (ResolveState.reading file pending active { s with program }) where
  file := rfl
  types := .refl TypeData.Endures.refl _
  symbols := by
    rintro id sort type ⟨hbase, symbol, hsymbol, hkind⟩
    refine ⟨⟨(Program.HasSymbol.of_symbol? hsymbol).1, .inr ?_⟩, symbol, hsymbol, hkind⟩
    -- symbols of the file were there before
    rw [List.eq_nil_iff_forall_not_mem]
    intro made hmade
    have hhas := hs.hasSymbol_of_declares ⟨made, Pending.mem_of_mem_declarationsOf hmade⟩
    exact absurd hhas (Nat.not_lt_of_le hbase)
  names _ _ _ := False.elim

/-- A step that adds to the program signs nothing wrong, and what it adds is settled. -/
theorem compile_ends {α : Type} {q : Guarded Program α} {Q : α → Program → Prop}
    (h : Ends .growing q s.program Q) :
    Ends (.signing file pending values active veiled) (compile q) s fun a s' =>
      Q a s'.program ∧ (s'.program.added file s.program.symbols.size).Extends
        (s'.reading file pending active) := by
  intro a s' hrun hs
  rw [compile_run] at hrun
  obtain ⟨⟨a', program⟩, hq, heq⟩ := Option.bind_eq_some_iff.mp hrun
  cases heq
  obtain ⟨-, hgrown, hQ⟩ := h _ _ hq trivial
  have hsigns : s.Signs file pending values active veiled { s with program } := grown_signs hgrown
  exact ⟨hsigns.orderly hs, hsigns, hQ, added_extends hs.sorted program⟩

/-- Reading the program gives it and changes nothing. -/
theorem program_ends {d : Discipline ResolveState} :
    Ends d program s fun program s' => program = s.program ∧ s' = s :=
  .step fun hs => ⟨hs, d.refl s, rfl, rfl⟩

end Guarded

end ExpressionTyping
