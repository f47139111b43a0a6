import ExpressionTyping.Proofs.Program.Annotations
import ExpressionTyping.Proofs.Program.ObjectTypes
import ExpressionTyping.Proofs.Program.Solution

/-!
# The shapes of the types of a program

While a file is resolved, its program fills with types and members. A `Naming` says which shape the
type at each place has and what the members are; it only grows. `Agrees` says that a program is as a
naming says: what stands at each place is what the shape there stands for, as far as the accounts of
the declarations tell, and the problems reported are those of the accounts. Each step that builds a
program keeps it so, when the step of the description that goes with it is made in the account of
the declaration at hand.
-/

set_option autoImplicit false

namespace ExpressionTyping

/-! ## Namings -/

/-- The shapes of types by their places, the members among the symbols by theirs, and the symbols
that are resolved. -/
structure Naming where
  shapes : List Shape
  members : List (Option MemberShape)
  resolved : List SymbolId
  once : shapes.Nodup
  wellKnown : ∀ i < TypeTable.initial.entries.size, shapes[i]? = some (.initial ⟨i⟩)
  length : members[0]? = some (some ⟨"length", .property, .word .number⟩)

namespace Naming

/-- Namings grow at their ends. -/
instance : Preorder Naming where
  le naming naming' := naming.shapes <+: naming'.shapes ∧ naming.members <+: naming'.members ∧
    naming.resolved ⊆ naming'.resolved
  le_refl naming := ⟨List.prefix_refl _, List.prefix_refl _, List.Subset.refl _⟩
  le_trans _ _ _ h h' := ⟨h.1.trans h'.1, h.2.1.trans h'.2.1, List.Subset.trans h.2.2 h'.2.2⟩

variable {naming naming' : Naming}

/-- The type at a place has a shape. -/
def Types (naming : Naming) (id : TypeId) (shape : Shape) : Prop :=
  naming.shapes[id.index]? = some shape

/-- The symbol at a place is a member. -/
def Symbols (naming : Naming) (id : SymbolId) (member : MemberShape) : Prop :=
  naming.members[id.index]? = some (some member)

/-- An entry of a list stands at the same place in a longer one. -/
theorem getElem?_mono {α : Type} {list list' : List α} (h : list <+: list') {i : Nat} {a : α}
    (ha : list[i]? = some a) : list'[i]? = some a := by
  obtain ⟨rest, rfl⟩ := h
  rw [List.getElem?_append_left (List.getElem?_eq_some_iff.mp ha).1]
  exact ha

/-- A type keeps its shape when more is named. -/
theorem Types.mono {id : TypeId} {shape : Shape} (h : naming.Types id shape)
    (hle : naming ≤ naming') : naming'.Types id shape :=
  getElem?_mono hle.1 h

/-- A member stays one when more is named. -/
theorem Symbols.mono {id : SymbolId} {member : MemberShape} (h : naming.Symbols id member)
    (hle : naming ≤ naming') : naming'.Symbols id member :=
  getElem?_mono hle.2.1 h

/-- Places and shapes correspond one to one. -/
theorem oneToOne {a b : TypeId} {shape shape' : Shape} (h : naming.Types a shape)
    (h' : naming.Types b shape') : a = b ↔ shape = shape' := by
  constructor
  · rintro rfl
    exact Option.some_inj.mp (h.symm.trans h')
  · rintro rfl
    have hlt := (List.getElem?_eq_some_iff.mp h).1
    exact congrArg TypeId.mk ((List.getElem?_inj hlt naming.once).mp (h.trans h'.symm))

/-- A type has one shape. -/
theorem types_rightUnique (naming : Naming) : Relator.RightUnique naming.Types :=
  fun _ _ _ h h' => (oneToOne h h').mp rfl

/-- A shape is that of one type. -/
theorem types_leftUnique (naming : Naming) : Relator.LeftUnique naming.Types :=
  fun _ _ _ h h' => (oneToOne h h').mpr rfl

/-- The type of a word has its shape in every naming. -/
theorem word (naming : Naming) (word : TypeWord) : naming.Types (.ofWord word) (.word word) := by
  cases word <;> exact naming.wellKnown _ (by decide)

/-- The type `any` has its shape in every naming. -/
theorem any (naming : Naming) : naming.Types .any .any :=
  naming.word .any

/-- The types of `true` and `false` have their shapes in every naming. -/
theorem boolean (naming : Naming) (value : Bool) :
    naming.Types (.ofBoolean value) (.initial (.ofBoolean value)) := by
  cases value <;> exact naming.wellKnown _ (by decide)

/-- A signature is as its shape says. -/
structure Signs (naming : Naming) (signature : Signature) (shape : SignatureShape) : Prop where
  parameters : List.Forall₂ (fun p q => q.1 = p.1 ∧ naming.Types p.2 q.2) signature.parameters
    shape.parameters
  result : naming.Types signature.result shape.result
  hasRest : shape.hasRest = signature.hasRest

/-- A signature stays as its shape says when more is named. -/
theorem Signs.mono {signature : Signature} {shape : SignatureShape}
    (h : naming.Signs signature shape) (hle : naming ≤ naming') : naming'.Signs signature shape :=
  ⟨h.parameters.imp fun _ _ hp => ⟨hp.1, hp.2.mono hle⟩, h.result.mono hle, h.hasRest⟩

/-- What stands at a place is what a shape stands for. What is in an object type is looked up in the
accounts of declarations. -/
inductive Describes (naming : Naming) (accounts : Key → Account) : TypeData → Shape → Prop where
  | initial {id : TypeId} {data : TypeData} (h : TypeTable.initial.get id = data) :
      Describes naming accounts data (.initial id)
  | stringLiteral (value : String) :
      Describes naming accounts (.stringLiteral value) (.stringLiteral value)
  | numberLiteral (text : String) :
      Describes naming accounts (.numberLiteral text) (.numberLiteral text)
  | interface {owner : Key} {members : SymbolTable SymbolId}
      (h : members.Pairs naming.Symbols (accounts owner).members) :
      Describes naming accounts (.object (some owner.name) members []) (.interface owner)
  | object {owner : Key} {index : Nat} {content : ObjectShape} {members : SymbolTable SymbolId}
      {signatures : List Signature} (hcontent : (accounts owner).objects[index]? = some content)
      (hmembers : members.Pairs naming.Symbols content.members)
      (hsignatures : List.Forall₂ naming.Signs signatures content.signatures) :
      Describes naming accounts (.object none members signatures) (.object owner index)
  | array {element : TypeId} {shape : Shape} (h : naming.Types element shape) :
      Describes naming accounts (.array element) (.array shape)
  | union {members : List TypeId} {shapes : List Shape}
      (h : List.Forall₂ naming.Types members shapes) :
      Describes naming accounts (.union members) (.union shapes)

end Naming

namespace Naming

/-- The naming with the shape of one more type. -/
def addShape (naming : Naming) (shape : Shape) (h : shape ∉ naming.shapes) : Naming where
  shapes := naming.shapes ++ [shape]
  members := naming.members
  resolved := naming.resolved
  once := List.nodup_append.mpr ⟨naming.once, List.nodup_singleton _, fun _ ha _ hb heq =>
    h (List.mem_singleton.mp hb ▸ heq ▸ ha)⟩
  wellKnown i hi := getElem?_mono (List.prefix_append _ _) (naming.wellKnown i hi)
  length := naming.length

/-- The naming with one more symbol, which may be a member. -/
def addSymbol (naming : Naming) (member? : Option MemberShape) : Naming where
  shapes := naming.shapes
  members := naming.members ++ [member?]
  resolved := naming.resolved
  once := naming.once
  wellKnown := naming.wellKnown
  length := getElem?_mono (List.prefix_append _ _) naming.length

/-- The naming with one more resolved symbol. -/
def resolve (naming : Naming) (id : SymbolId) : Naming :=
  { naming with resolved := id :: naming.resolved }

/-- Namings grow by the shape of one more type. -/
theorem le_addShape (naming : Naming) {shape : Shape} (h : shape ∉ naming.shapes) :
    naming ≤ naming.addShape shape h :=
  ⟨List.prefix_append _ _, List.prefix_refl _, List.Subset.refl _⟩

/-- Namings grow by one more symbol. -/
theorem le_addSymbol (naming : Naming) (member? : Option MemberShape) :
    naming ≤ naming.addSymbol member? :=
  ⟨List.prefix_refl _, List.prefix_append _ _, List.Subset.refl _⟩

/-- Namings grow by one more resolved symbol. -/
theorem le_resolve (naming : Naming) (id : SymbolId) : naming ≤ naming.resolve id :=
  ⟨List.prefix_refl _, List.prefix_refl _, List.subset_cons_self _ _⟩

end Naming

/-- An account only gains object types. -/
def Account.Grows (account account' : Account) : Prop :=
  account.objects <+: account'.objects ∧ account'.members = account.members

/-- Every account has its own object types. -/
theorem Account.Grows.refl (account : Account) : account.Grows account :=
  ⟨List.prefix_refl _, rfl⟩

namespace Naming.Describes

variable {naming naming' : Naming} {accounts accounts' : Key → Account} {data : TypeData}
  {shape : Shape}

/-- A type stays what its shape stands for when more is named, if the accounts still say the same
of its own object or interface. -/
theorem imp (h : naming.Describes accounts data shape) (hle : naming ≤ naming')
    (hobjects : ∀ owner index, shape = .object owner index → ∀ content,
      (accounts owner).objects[index]? = some content →
        (accounts' owner).objects[index]? = some content)
    (hsame : ∀ owner, shape = .interface owner →
      (accounts' owner).members = (accounts owner).members) :
    naming'.Describes accounts' data shape := by
  cases h with
  | initial h => exact .initial h
  | stringLiteral value => exact .stringLiteral value
  | numberLiteral text => exact .numberLiteral text
  | interface h =>
    refine .interface ?_
    rw [hsame _ rfl]
    exact h.imp fun _ _ hmember => hmember.mono hle
  | object hcontent hmembers hsignatures =>
    refine .object (hobjects _ _ rfl _ hcontent) ?_ ?_
    · exact hmembers.imp fun _ _ hmember => hmember.mono hle
    · exact hsignatures.imp fun _ _ hsignature => hsignature.mono hle
  | array h => exact .array (h.mono hle)
  | union h => exact .union (h.imp fun _ _ hmember => hmember.mono hle)

/-- A type stays what its shape stands for when more is named and accounts grow. -/
theorem mono (h : naming.Describes accounts data shape) (hle : naming ≤ naming')
    (hgrows : ∀ key, (accounts key).Grows (accounts' key)) :
    naming'.Describes accounts' data shape :=
  h.imp hle (fun owner _ _ _ hcontent => getElem?_mono (hgrows owner).1 hcontent)
    fun owner _ => (hgrows owner).2

/-- The types that every program starts with are not shared ones. -/
theorem initial_isShared (id : TypeId) : (TypeTable.initial.get id).isShared = false := by
  obtain ⟨i⟩ := id
  match i with
  | 0 | 1 | 2 | 3 | 4 | 5 | 6 | 7 | 8 | 9 | 10 | 11 | 12 | 13 | 14 => rfl
  | i + 15 =>
    have hnone : TypeTable.initial.entries[i + 15]? = none :=
      Array.getElem?_eq_none (Nat.le_add_left _ _)
    rw [TypeTable.get_of_entries_none hnone]
    rfl

/-- A shared type has one shape only. -/
theorem right_unique {other : Shape} (h : naming.Describes accounts data shape)
    (h' : naming.Describes accounts data other) (hshared : data.isShared = true) :
    shape = other := by
  have hinitial {id : TypeId} (hid : TypeTable.initial.get id = data) : False := by
    rw [← hid, initial_isShared] at hshared
    cases hshared
  cases h with
  | initial hid => exact (hinitial hid).elim
  | interface | object => cases hshared
  | stringLiteral | numberLiteral =>
    cases h' with
    | initial hid => exact (hinitial hid).elim
    | _ => rfl
  | array hel =>
    cases h' with
    | initial hid => exact (hinitial hid).elim
    | array hel' => rw [(oneToOne hel hel').mp rfl]
  | union hmem =>
    cases h' with
    | initial hid => exact (hinitial hid).elim
    | union hmem' => rw [List.right_unique_forall₂' naming.types_rightUnique hmem hmem']

/-- A shape of a shared type stands for one thing only. -/
theorem left_unique {other : TypeData} (h : naming.Describes accounts data shape)
    (h' : naming.Describes accounts other shape) (hshared : data.isShared = true) :
    data = other := by
  cases h with
  | initial hid =>
    rw [← hid, initial_isShared] at hshared
    cases hshared
  | interface | object => cases hshared
  | stringLiteral | numberLiteral =>
    cases h'
    rfl
  | array hel =>
    obtain _ | _ | _ | _ | _ | hel' := h'
    rw [(oneToOne hel hel').mpr rfl]
  | union hmem =>
    obtain _ | _ | _ | _ | _ | _ | hmem' := h'
    rw [List.left_unique_forall₂' naming.types_leftUnique hmem hmem']

end Naming.Describes

/-! ## Programs that are as a naming says -/

/-- The scope that a declaration stands in. -/
def Declaration.scope : Declaration → ScopeId
  | variableDecl scope _ _ _ | function scope _ _ | interface scope _ | typeAlias scope _ _ => scope

/-- The symbol of a name in a scope. -/
def Scope.get? (scope : Scope) : Key → Option SymbolId
  | .value name => scope.values.get? name
  | .type name => scope.types.get? name

/-- The symbol that a name means in a scope of a program. -/
def Program.find? (program : Program) (scope : ScopeId) : Key → Option SymbolId
  | .value name => program.resolveValue? scope name
  | .type name => program.resolveType? scope name

/-- A declared name with its symbol. -/
structure Entry where
  key : Key
  id : SymbolId
  declaration : Declaration

/-- What a file declares, with the scope and the shapes of the declared names. -/
structure Layout where
  entries : List Entry
  scope : Scope
  shapes : Key → Option Shape
  keysOnce : (entries.map Entry.key).Nodup
  idsOnce : (entries.map Entry.id).Nodup
  inScope : ∀ entry ∈ entries, entry.declaration.scope = ⟨0⟩
  found : ∀ entry ∈ entries, scope.get? entry.key = some entry.id
  only : ∀ {key id}, scope.get? key = some id → ∃ entry ∈ entries, entry.key = key ∧ entry.id = id
  outermost : scope.enclosing = []
  unassigned : scope.assignments = []

namespace Layout

variable {layout : Layout}

/-- The names that the file declares, with their meanings. -/
def keys (layout : Layout) : List Key :=
  layout.entries.map Entry.key

/-- The declarations of the file with their names. -/
def declared (layout : Layout) : List (Key × Declaration) :=
  layout.entries.map fun entry => (entry.key, entry.declaration)

/-- A symbol is listed for one declaration. -/
theorem entry_of_id {entry other : Entry} (hentry : entry ∈ layout.entries)
    (hother : other ∈ layout.entries) (h : entry.id = other.id) : entry = other :=
  List.inj_on_of_nodup_map layout.idsOnce hentry hother h

/-- A name is listed for one declaration. -/
theorem entry_of_key {entry other : Entry} (hentry : entry ∈ layout.entries)
    (hother : other ∈ layout.entries) (h : entry.key = other.key) : entry = other :=
  List.inj_on_of_nodup_map layout.keysOnce hentry hother h

/-- The names of the declarations are the keys of a layout. -/
theorem map_fst_declared (layout : Layout) : layout.declared.map Prod.fst = layout.keys := by
  unfold declared keys
  rw [List.map_map]
  rfl

end Layout

/-- A program is as a naming says, with accounts of what the declarations have brought so far. -/
structure Layout.Agrees (layout : Layout) (accounts : Key → Account) (naming : Naming)
    (program : Program) : Prop where
  size : naming.shapes.length = program.types.entries.size
  types : ∀ {a shape}, naming.Types a shape → ∃ data, program.types.entries[a.index]? = some data ∧
    naming.Describes accounts data shape
  count : naming.members.length = program.symbols.size
  symbols : ∀ {id member}, naming.Symbols id member → ∃ symbol,
    program.symbols[id.index]? = some symbol ∧ symbol.name = member.name ∧
      symbol.sort = member.sort ∧ naming.Types symbol.type member.type
  declared : ∀ entry ∈ layout.entries, naming.members[entry.id.index]? = some none ∧ ∃ symbol,
    program.symbols[entry.id.index]? = some symbol ∧
      (symbol.sort = .interface ↔ entry.declaration.isInterface = true) ∧
      (entry.id ∈ naming.resolved ∨ entry.declaration.isInterface = true →
        ∃ shape, layout.shapes entry.key = some shape ∧ naming.Types symbol.type shape)
  scopes : program.scopes = #[layout.scope]
  filed : ∃ info, program.files[0]? = some info ∧ info.scopes = [⟨0⟩]
  issues : (program.issues.map fun report => report.issue.problem).Perm
    (layout.keys.flatMap fun key => (accounts key).reports)

/-- What is added at one of several different places is added to the whole, up to order. -/
theorem flatMap_perm_append {α β : Type} {keys : List α} (honce : keys.Nodup) {key : α}
    (hkey : key ∈ keys) {f g : α → List β} {added : List β} (hown : g key = f key ++ added)
    (hothers : ∀ other, other ≠ key → g other = f other) :
    (keys.flatMap g).Perm (keys.flatMap f ++ added) := by
  induction keys with
  | nil => cases hkey
  | cons first rest ih =>
    obtain ⟨hfirst, hrest⟩ := List.nodup_cons.mp honce
    rw [List.flatMap_cons, List.flatMap_cons]
    rcases List.mem_cons.mp hkey with rfl | hmem
    · have hsame : rest.flatMap g = rest.flatMap f :=
        List.flatMap_congr fun other hother => hothers other fun heq => hfirst (heq ▸ hother)
      rw [hown, hsame, List.append_assoc, List.append_assoc]
      exact List.perm_append_comm.append_left _
    · rw [hothers first fun heq => hfirst (heq ▸ hmem), List.append_assoc]
      exact (ih hrest hmem).append_left _

namespace Layout.Agrees

variable {layout : Layout} {accounts accounts' : Key → Account} {naming : Naming}
  {program : Program}

/-- What stands at a place is what its shape stands for, in a program that agrees with a layout. -/
theorem get (h : layout.Agrees accounts naming program) {a : TypeId} {shape : Shape}
    (ha : naming.Types a shape) : naming.Describes accounts (program.types.get a) shape := by
  obtain ⟨data, hdata, hdescribes⟩ := h.types ha
  rw [TypeTable.get_of_entries hdata]
  exact hdescribes

/-- A declared symbol has the type that it is described as once it is resolved, and an interface
from the start. -/
theorem symbol_type (h : layout.Agrees accounts naming program) {entry : Entry}
    (hentry : entry ∈ layout.entries)
    (hdone : entry.id ∈ naming.resolved ∨ entry.declaration.isInterface = true) {shape : Shape}
    (hshape : layout.shapes entry.key = some shape) :
    naming.Types (program.symbol entry.id).type shape := by
  obtain ⟨-, symbol, hsymbol, -, htype⟩ := h.declared entry hentry
  obtain ⟨shape', hshape', htypes⟩ := htype hdone
  cases hshape.symm.trans hshape'
  rw [Program.symbol_of_symbols hsymbol]
  exact htypes

/-- Names mean what the scope of the file says. -/
theorem find? (h : layout.Agrees accounts naming program) (key : Key) :
    program.find? ⟨0⟩ key = layout.scope.get? key := by
  have hscope : program.scope ⟨0⟩ = layout.scope :=
    Program.scope_of_scopes (by rw [h.scopes]; rfl)
  have houtward : program.outward ⟨0⟩ = [⟨0⟩] := by
    unfold Program.outward
    rw [hscope, layout.outermost]
  cases key with
  | value name =>
    simp only [Program.find?, Program.resolveValue?, houtward, List.findSome?_singleton, hscope,
      Scope.get?]
  | type name =>
    simp only [Program.find?, Program.resolveType?, houtward, List.findSome?_singleton, hscope,
      Scope.get?]

/-- Without assignments a symbol has its declared type everywhere. -/
theorem typeAt (h : layout.Agrees accounts naming program) (id : SymbolId) (location : Location) :
    program.typeAt id location = (program.symbol id).type := by
  have hassignments : program.assignmentsTo id location = [] := by
    apply List.flatMap_eq_nil_iff.mpr
    intro scope _
    have hscope : (program.scope scope).assignments = [] := by
      obtain ⟨i⟩ := scope
      unfold Program.scope
      rw [h.scopes]
      match i with
      | 0 => exact layout.unassigned
      | _ + 1 => rfl
    rw [hscope]
    rfl
  rw [Program.typeAt_eq, hassignments]
  split <;> rfl

/-- Accounts gain object types that no type of the program has. -/
theorem grow (h : layout.Agrees accounts naming program)
    (hgrows : ∀ key, (accounts key).Grows (accounts' key))
    (hreports : ∀ key, (accounts' key).reports = (accounts key).reports) :
    layout.Agrees accounts' naming program := by
  refine { h with types := fun ha => ?_, issues := ?_ }
  · obtain ⟨data, hdata, hdescribes⟩ := h.types ha
    exact ⟨data, hdata, hdescribes.mono le_rfl hgrows⟩
  · simp only [hreports]
    exact h.issues

/-- A type of a new shape is added. -/
theorem addType (h : layout.Agrees accounts naming program) {data : TypeData} {shape : Shape}
    (hdata : naming.Describes accounts data shape) (hnew : shape ∉ naming.shapes) :
    let naming' := naming.addShape shape hnew
    layout.Agrees accounts naming' { program with types := (program.types.add data).2 } ∧
      naming'.Types (program.types.add data).1 shape := by
  intro naming'
  have hle : naming ≤ naming' := naming.le_addShape hnew
  have hlast : naming'.Types (program.types.add data).1 shape := by
    show (naming.shapes ++ [shape])[program.types.entries.size]? = some shape
    rw [← h.size]
    exact List.getElem?_concat_length
  refine ⟨?_, hlast⟩
  constructor
  case size =>
    show (naming.shapes ++ [shape]).length = (program.types.entries.push data).size
    rw [List.length_append, Array.size_push, h.size]
    rfl
  case types =>
    intro a shape' ha
    by_cases hlt : a.index < naming.shapes.length
    · have hold : naming.Types a shape' := by
        change (naming.shapes ++ [shape])[a.index]? = some shape' at ha
        rwa [List.getElem?_append_left hlt] at ha
      obtain ⟨data', hdata', hdescribes⟩ := h.types hold
      refine ⟨data', ?_, hdescribes.mono hle fun _ => .refl _⟩
      show (program.types.entries.push data)[a.index]? = some data'
      rw [Array.getElem?_push, if_neg (by have := h.size; omega)]
      exact hdata'
    · have ha' : a.index < (naming.shapes ++ [shape]).length := (List.getElem?_eq_some_iff.mp ha).1
      have hindex : a.index = naming.shapes.length := by
        rw [List.length_append, List.length_singleton] at ha'
        omega
      have hid : a = (program.types.add data).1 := congrArg TypeId.mk (hindex.trans h.size)
      subst hid
      cases (Naming.oneToOne ha hlast).mp rfl
      refine ⟨data, ?_, hdata.mono hle fun _ => .refl _⟩
      exact Array.getElem?_push_size
  case count => exact h.count
  case symbols =>
    intro id member hid
    obtain ⟨symbol, hsymbol, hname, hsort, htype⟩ := h.symbols hid
    exact ⟨symbol, hsymbol, hname, hsort, htype.mono hle⟩
  case declared =>
    intro entry hentry
    obtain ⟨hnone, symbol, hsymbol, hsort, htype⟩ := h.declared entry hentry
    refine ⟨hnone, symbol, hsymbol, hsort, fun hdone => ?_⟩
    obtain ⟨shape', hshape', htypes⟩ := htype hdone
    exact ⟨shape', hshape', htypes.mono hle⟩
  case scopes => exact h.scopes
  case filed => exact h.filed
  case issues => exact h.issues

/-- A shared type is asked for. -/
theorem share (h : layout.Agrees accounts naming program) {data : TypeData} {shape : Shape}
    (hdata : naming.Describes accounts data shape) (hshared : data.isShared = true) :
    ∃ naming', naming ≤ naming' ∧ naming'.resolved = naming.resolved ∧
      layout.Agrees accounts naming' { program with types := (program.types.share data).2 } ∧
      naming'.Types (program.types.share data).1 shape := by
  rcases program.types.share_cases data with ⟨i, hi, hshare⟩ | ⟨hnone, hshare⟩
  · -- it is there already, and a shared type has one shape only
    have hlt : i < naming.shapes.length := by
      rw [h.size]
      exact (Array.getElem?_eq_some_iff.mp hi).1
    have hi' : naming.Types ⟨i⟩ naming.shapes[i] := List.getElem?_eq_getElem hlt
    obtain ⟨data', hdata', hdescribes⟩ := h.types hi'
    cases hi.symm.trans hdata'
    rw [hshare]
    refine ⟨naming, le_rfl, rfl, h, ?_⟩
    rw [hdata.right_unique hdescribes hshared]
    exact hi'
  · have hnew : shape ∉ naming.shapes := by
      intro hmem
      obtain ⟨i, hi⟩ := List.getElem?_of_mem hmem
      obtain ⟨data', hdata', hdescribes⟩ := h.types (show naming.Types ⟨i⟩ shape from hi)
      rw [← hdata.left_unique hdescribes hshared] at hdata'
      exact hnone i hdata'
    rw [hshare]
    obtain ⟨hadded, hplace⟩ := h.addType hdata hnew
    exact ⟨_, naming.le_addShape hnew, rfl, hadded, hplace⟩

/-- A type is made of types of the shapes that its shape is made of. -/
theorem constituents (h : layout.Agrees accounts naming program) {a : TypeId} {shape : Shape}
    (ha : naming.Types a shape) :
    List.Forall₂ naming.Types (program.types.constituents a) shape.constituents := by
  have hget := h.get ha
  unfold TypeTable.constituents
  generalize program.types.get a = data at hget ⊢
  cases hget with
  | union hmembers => exact hmembers
  | @initial id data hid =>
    have hshared := Naming.Describes.initial_isShared id
    rw [hid] at hshared
    cases data with
    | union => cases hshared
    | _ => exact .cons ha .nil
  | _ => exact .cons ha .nil

/-- The union of types of some shapes has the shape of their union, and the program agrees with a
naming of it. -/
theorem unionOf (h : layout.Agrees accounts naming program) {ids : List TypeId}
    {shapes : List Shape} (hids : List.Forall₂ naming.Types ids shapes) :
    ∃ naming', naming ≤ naming' ∧ naming'.resolved = naming.resolved ∧
      layout.Agrees accounts naming' { program with types := (program.types.unionOf ids).2 } ∧
      naming'.Types (program.types.unionOf ids).1 (Shape.unionOf shapes) := by
  have hmembers : List.Forall₂ naming.Types (ids.flatMap program.types.constituents).eraseDups
      (shapes.flatMap Shape.constituents).eraseDups :=
    Forall₂.eraseDups Naming.oneToOne (List.rel_flatMap hids fun _ _ ha => h.constituents ha)
  unfold TypeTable.unionOf Shape.unionOf
  simp only
  generalize (ids.flatMap program.types.constituents).eraseDups = members at hmembers ⊢
  generalize (shapes.flatMap Shape.constituents).eraseDups = members' at hmembers ⊢
  have hany : members'.contains .any = members.contains .any := by
    induction hmembers with
    | nil => rfl
    | cons ha _ ih =>
      rw [List.contains_cons, List.contains_cons, ih]
      congr 1
      simp only [beq_eq_decide, Naming.oneToOne naming.any ha]
  rw [hany]
  split
  · exact ⟨naming, le_rfl, rfl, h, naming.any⟩
  · cases hmembers with
    | nil => exact ⟨naming, le_rfl, rfl, h, naming.word .never⟩
    | cons ha hrest =>
      cases hrest with
      | nil => exact ⟨naming, le_rfl, rfl, h, ha⟩
      | cons ha' hrest => exact h.share (.union (.cons ha (.cons ha' hrest))) rfl

/-- A widened type has the widened shape. -/
theorem widen (h : layout.Agrees accounts naming program) {a : TypeId} {shape : Shape}
    (ha : naming.Types a shape) : naming.Types (program.types.widen a) shape.widen := by
  have hget := h.get ha
  unfold TypeTable.widen
  generalize program.types.get a = data at hget ⊢
  cases hget with
  | stringLiteral value => exact naming.word .string
  | numberLiteral text => exact naming.word .number
  | @initial id data hid =>
    rw [Shape.widen, TypeTable.widen, hid]
    cases data with
    | stringLiteral value => exact naming.word .string
    | numberLiteral text => exact naming.word .number
    | booleanLiteral value => exact naming.word .boolean
    | _ => exact ha
  | _ => exact ha

/-- A symbol is added, which may be a member. -/
theorem addSymbol (h : layout.Agrees accounts naming program) (member? : Option MemberShape)
    {symbol : Symbol} (hmember : ∀ member ∈ member?, symbol.name = member.name ∧
      symbol.sort = member.sort ∧ naming.Types symbol.type member.type) :
    layout.Agrees accounts (naming.addSymbol member?)
      { program with symbols := program.symbols.push symbol } := by
  have hkept {i : Nat} {old : Symbol} (hold : program.symbols[i]? = some old) :
      (program.symbols.push symbol)[i]? = some old := by
    rw [Array.getElem?_push, if_neg (Nat.ne_of_lt (Array.getElem?_eq_some_iff.mp hold).1)]
    exact hold
  constructor
  case size => exact h.size
  case types =>
    intro a shape ha
    obtain ⟨data, hdata, hdescribes⟩ := h.types ha
    exact ⟨data, hdata, hdescribes.mono (naming.le_addSymbol _) fun _ => .refl _⟩
  case count =>
    show (naming.members ++ [member?]).length = (program.symbols.push symbol).size
    rw [List.length_append, Array.size_push, h.count]
    rfl
  case symbols =>
    intro id member hid
    by_cases hlt : id.index < naming.members.length
    · have hold : naming.Symbols id member := by
        change (naming.members ++ [member?])[id.index]? = some (some member) at hid
        rwa [List.getElem?_append_left hlt] at hid
      obtain ⟨old, hold, hrest⟩ := h.symbols hold
      exact ⟨old, hkept hold, hrest⟩
    · change (naming.members ++ [member?])[id.index]? = some (some member) at hid
      have hlt' := (List.getElem?_eq_some_iff.mp hid).1
      have hindex : id.index = naming.members.length := by
        rw [List.length_append, List.length_singleton] at hlt'
        omega
      rw [hindex, List.getElem?_concat_length, Option.some_inj] at hid
      refine ⟨symbol, ?_, hmember member hid⟩
      show (program.symbols.push symbol)[id.index]? = some symbol
      rw [hindex, h.count]
      exact Array.getElem?_push_size
  case declared =>
    intro entry hentry
    obtain ⟨hnone, old, hold, hrest⟩ := h.declared entry hentry
    exact ⟨Naming.getElem?_mono (List.prefix_append _ _) hnone, old, hkept hold, hrest⟩
  case scopes => exact h.scopes
  case filed => exact h.filed
  case issues => exact h.issues

/-- A declared symbol gets its type. -/
theorem setType (h : layout.Agrees accounts naming program) {entry : Entry}
    (hentry : entry ∈ layout.entries) {type : TypeId} {shape : Shape}
    (hshape : layout.shapes entry.key = some shape) (htype : naming.Types type shape) :
    layout.Agrees accounts (naming.resolve entry.id) { program with
      symbols := program.symbols.modify entry.id.index fun symbol => { symbol with type } } := by
  obtain ⟨hnone, symbol, hsymbol, hsort, -⟩ := h.declared entry hentry
  constructor
  case size => exact h.size
  case types =>
    intro a shape ha
    obtain ⟨data, hdata, hdescribes⟩ := h.types ha
    exact ⟨data, hdata, hdescribes.mono (naming.le_resolve _) fun _ => .refl _⟩
  case count => exact h.count.trans Array.size_modify.symm
  case symbols =>
    intro id member hid
    obtain ⟨old, hold, hrest⟩ := h.symbols hid
    refine ⟨old, ?_, hrest⟩
    -- a member is no declared symbol
    have hne : entry.id.index ≠ id.index := by
      intro heq
      have hsome : naming.members[entry.id.index]? = some (some member) := heq ▸ hid
      rw [hnone] at hsome
      cases hsome
    rw [Array.getElem?_modify, if_neg hne]
    exact hold
  case declared =>
    intro other hother
    obtain ⟨hother', old, hold, hrest⟩ := h.declared other hother
    refine ⟨hother', ?_⟩
    rw [Array.getElem?_modify]
    by_cases heq : entry.id.index = other.id.index
    · cases entry_of_id hentry hother (congrArg SymbolId.mk heq)
      rw [if_pos rfl, hsymbol]
      exact ⟨_, rfl, hsort, fun _ => ⟨shape, hshape, htype⟩⟩
    · rw [if_neg heq]
      refine ⟨old, hold, hrest.1, fun hdone => hrest.2 (hdone.imp_left fun hmem => ?_)⟩
      rcases List.mem_cons.mp hmem with hid | hmem
      · exact absurd (congrArg SymbolId.index hid.symm) heq
      · exact hmem
  case scopes => exact h.scopes
  case filed => exact h.filed
  case issues => exact h.issues

/-- An interface gets its members. -/
theorem setMembers (h : layout.Agrees accounts naming program) {entry : Entry}
    (hentry : entry ∈ layout.entries) (hinterface : entry.declaration.isInterface = true)
    (hshape : layout.shapes entry.key = some (.interface entry.key))
    {members : SymbolTable SymbolId} {members' : SymbolTable MemberShape}
    (hmembers : members.Pairs naming.Symbols members')
    (hown : accounts' entry.key = { accounts entry.key with members := members' })
    (hothers : ∀ key, key ≠ entry.key → accounts' key = accounts key) :
    layout.Agrees accounts' (naming.resolve entry.id) { program with
      types := program.types.setMembers (program.symbol entry.id).type members } := by
  have hle := naming.le_resolve entry.id
  have htype := h.symbol_type hentry (.inr hinterface) hshape
  generalize (program.symbol entry.id).type = type at htype ⊢
  have hreports (key : Key) : (accounts' key).reports = (accounts key).reports := by
    by_cases hkey : key = entry.key
    · rw [hkey, hown]
    · rw [hothers key hkey]
  have hobjects (key : Key) : (accounts' key).objects = (accounts key).objects := by
    by_cases hkey : key = entry.key
    · rw [hkey, hown]
    · rw [hothers key hkey]
  constructor
  case size => exact h.size.trans Array.size_modify.symm
  case types =>
    intro a shape ha
    obtain ⟨data, hdata, hdescribes⟩ := h.types ha
    show ∃ data, (program.types.entries.modify type.index _)[a.index]? = some data ∧ _
    rw [Array.getElem?_modify, hdata]
    by_cases heq : type = a
    · subst heq
      rw [if_pos rfl]
      cases (Naming.oneToOne ha htype).mp rfl
      cases hdescribes with
      | interface =>
        refine ⟨_, rfl, .interface ?_⟩
        rw [hown]
        exact hmembers
    · rw [if_neg fun hindex => heq (congrArg TypeId.mk hindex)]
      refine ⟨data, rfl, hdescribes.imp hle (fun owner _ _ _ hcontent => ?_) ?_⟩
      · rw [hobjects owner]
        exact hcontent
      rintro owner rfl
      by_cases hkey : owner = entry.key
      · subst hkey
        exact absurd ((Naming.oneToOne htype ha).mpr rfl) heq
      · rw [hothers owner hkey]
  case count => exact h.count
  case symbols => exact h.symbols
  case declared =>
    intro other hother
    obtain ⟨hnone, symbol, hsymbol, hsort, hdone⟩ := h.declared other hother
    refine ⟨hnone, symbol, hsymbol, hsort, fun hresolved => hdone ?_⟩
    rcases hresolved with hmem | hother'
    · rcases List.mem_cons.mp hmem with hid | hmem
      · cases entry_of_id hother hentry hid
        exact .inr hinterface
      · exact .inl hmem
    · exact .inr hother'
  case scopes => exact h.scopes
  case filed => exact h.filed
  case issues =>
    simp only [hreports]
    exact h.issues

/-- One of the object types of a declaration gets one more signature. -/
theorem addSignature (h : layout.Agrees accounts naming program) {type : TypeId} {owner : Key}
    {index : Nat} (htype : naming.Types type (.object owner index)) {signature : Signature}
    {shape : SignatureShape} (hsignature : naming.Signs signature shape)
    (hown : accounts' owner = (accounts owner).addSignature index shape)
    (hothers : ∀ key, key ≠ owner → accounts' key = accounts key) :
    layout.Agrees accounts' naming { program with
      types := program.types.addSignature type signature } := by
  have hsame (key : Key) : (accounts' key).members = (accounts key).members ∧
      (accounts' key).reports = (accounts key).reports := by
    by_cases hkey : key = owner
    · rw [hkey, hown]
      exact ⟨rfl, rfl⟩
    · rw [hothers key hkey]
      exact ⟨rfl, rfl⟩
  refine { h with size := ?_, types := fun {a a'} ha => ?_, issues := ?_ }
  · exact h.size.trans Array.size_modify.symm
  · obtain ⟨data, hdata, hdescribes⟩ := h.types ha
    by_cases heq : a = type
    · subst heq
      cases (Naming.oneToOne ha htype).mp rfl
      cases hdescribes with
      | object hcontent hmembers hsignatures =>
        have hadded := Account.objects_addSignature hcontent shape
        rw [← hown] at hadded
        exact ⟨_, TypeTable.get_updateObject hdata _, .object hadded hmembers
          (List.rel_append hsignatures (.cons hsignature .nil))⟩
    · refine ⟨data, (TypeTable.getElem?_updateObject_of_ne heq _).trans hdata,
        hdescribes.imp le_rfl ?_ fun owner' _ => (hsame owner').1⟩
      rintro owner' index' rfl content hcontent
      by_cases hkey : owner' = owner
      · subst hkey
        -- the number is another one, as the shape is that of another type
        have hne : index ≠ index' := by
          rintro rfl
          exact heq ((Naming.oneToOne ha htype).mpr rfl)
        rw [hown, Account.objects_addSignature_of_ne _ hne]
        exact hcontent
      · rw [hothers owner' hkey]
        exact hcontent
  · simp only [fun key => (hsame key).2]
    exact h.issues

/-- A problem is added to one of the accounts. -/
theorem report (h : layout.Agrees accounts naming program) {owner : Key}
    (howner : owner ∈ layout.keys) (report : FileIssue)
    (hgrows : ∀ key, (accounts key).Grows (accounts' key))
    (hown : (accounts' owner).reports = (accounts owner).reports ++ [report.issue.problem])
    (hothers : ∀ key, key ≠ owner → (accounts' key).reports = (accounts key).reports) :
    layout.Agrees accounts' naming { program with issues := program.issues ++ [report] } := by
  refine { h with types := fun ha => ?_, issues := ?_ }
  · obtain ⟨data, hdata, hdescribes⟩ := h.types ha
    exact ⟨data, hdata, hdescribes.mono le_rfl hgrows⟩
  · have hperm : (layout.keys.flatMap fun key => (accounts' key).reports).Perm
        ((layout.keys.flatMap fun key => (accounts key).reports) ++ [report.issue.problem]) :=
      flatMap_perm_append layout.keysOnce howner hown hothers
    rw [List.map_append]
    exact (h.issues.append_right _).trans hperm.symm

end Layout.Agrees

end ExpressionTyping
