import Mathlib.Order.Basic
import ExpressionTyping.Proofs.Program.Places
import ExpressionTyping.Proofs.Typing.SymbolTable

/-!
# A program inside another

A file compiled into a program that holds other files leaves there a copy of what it leaves in an
empty program. `Embeds base links own all` says so of two programs: `all` is `base` with a copy of
`own` added to it.

Files, scopes and symbols are only ever added, so the copy of each stands at a fixed distance from
the original (`Appended`, `filePlace`, `scopePlace`, `symbolPlace`); one symbol, the length of
arrays, is there in every program and is its own copy. Types are different: a type that looks like
one of `base` shares its place. Which place is the copy of which is therefore a relation, `Links`,
which is one to one and grows as types are added.
-/

set_option autoImplicit false

namespace ExpressionTyping

/-! ## Arrays with a copy at the end -/

section Appended

variable {α β : Type}

/-- Where the entry at a place is copied to, behind `base` entries. The first `shared` entries are
their own copies. -/
def copyPlace (base shared i : Nat) : Nat :=
  if i < shared then i else base + (i - shared)

/-- An array is another one with a copy of a third at its end, up to the first `shared` entries,
which both had before. -/
structure Appended (R : α → β → Prop) (shared : Nat) (base : Array β) (own : Array α)
    (all : Array β) : Prop where
  shared_le : shared ≤ own.size
  shared_le_base : shared ≤ base.size
  size : all.size + shared = base.size + own.size
  old : ∀ i < base.size, all[i]? = base[i]?
  new : ∀ i a, own[i]? = some a → ∃ b, all[copyPlace base.size shared i]? = some b ∧ R a b

namespace Appended

variable {R : α → β → Prop} {shared : Nat} {base : Array β} {own : Array α} {all : Array β}

/-- Entries that are related by a relation are related by every weaker one. -/
theorem mono {R' : α → β → Prop} (h : Appended R shared base own all)
    (himp : ∀ a b, R a b → R' a b) : Appended R' shared base own all := by
  refine ⟨h.shared_le, h.shared_le_base, h.size, h.old, fun i a ha => ?_⟩
  obtain ⟨b, hb, hab⟩ := h.new i a ha
  exact ⟨b, hb, himp a b hab⟩

/-- The place after the last entry is copied to the place after the last copy. -/
theorem copyPlace_size (h : Appended R shared base own all) :
    copyPlace base.size shared own.size = all.size := by
  have hshared := h.shared_le
  have hsize := h.size
  unfold copyPlace
  split <;> omega

/-- Adding related entries to both arrays adds a copy. -/
theorem push (h : Appended R shared base own all) {a : α} {b : β} (hab : R a b) :
    Appended R shared base (own.push a) (all.push b) := by
  have hshared := h.shared_le
  have hsize := h.size
  have hplace := h.copyPlace_size
  constructor
  · rw [Array.size_push]
    omega
  · exact h.shared_le_base
  · rw [Array.size_push, Array.size_push]
    omega
  · intro i hi
    rw [Array.getElem?_push, if_neg (by omega)]
    exact h.old i hi
  · intro i x hx
    rw [Array.getElem?_push] at hx
    split at hx
    · rename_i hi
      cases hx
      refine ⟨b, ?_, hab⟩
      rw [hi, hplace, Array.getElem?_push, if_pos rfl]
    · obtain ⟨y, hy, hxy⟩ := h.new i x hx
      refine ⟨y, ?_, hxy⟩
      have hlt := (Array.getElem?_eq_some_iff.mp hy).1
      rw [Array.getElem?_push, if_neg (by omega)]
      exact hy

/-- An entry that is not shared may be changed together with its copy. -/
theorem modify (h : Appended R shared base own all) {i : Nat} (hi : shared ≤ i) {f : α → α}
    {g : β → β} (hfg : ∀ a b, own[i]? = some a → R a b → R (f a) (g b)) :
    Appended R shared base (own.modify i f) (all.modify (copyPlace base.size shared i) g) := by
  have hplace : copyPlace base.size shared i = base.size + (i - shared) := by
    unfold copyPlace
    rw [if_neg (by omega)]
  constructor
  · rw [Array.size_modify]
    exact h.shared_le
  · exact h.shared_le_base
  · rw [Array.size_modify, Array.size_modify]
    exact h.size
  · intro j hj
    rw [Array.getElem?_modify, if_neg (by omega)]
    exact h.old j hj
  · intro j x hx
    rw [Array.getElem?_modify] at hx ⊢
    split at hx
    · rename_i hij
      subst hij
      obtain ⟨a, ha, rfl⟩ := Option.map_eq_some_iff.mp hx
      obtain ⟨b, hb, hab⟩ := h.new i a ha
      rw [if_pos rfl, hb]
      exact ⟨g b, rfl, hfg a b ha hab⟩
    · rename_i hij
      obtain ⟨y, hy, hxy⟩ := h.new j x hx
      refine ⟨y, ?_, hxy⟩
      rw [if_neg]
      · exact hy
      · have hshared := h.shared_le_base
        unfold copyPlace
        split <;> split <;> omega

/-- Beyond the end of the copied array there is nothing in the other one. -/
theorem copy_eq_none (h : Appended R shared base own all) {i : Nat} (hi : own[i]? = none) :
    all[copyPlace base.size shared i]? = none := by
  have hsize := h.size
  have hshared := h.shared_le
  rw [Array.getElem?_eq_none_iff] at hi ⊢
  unfold copyPlace
  split <;> omega

/-- The entry at a place and the one at the place of its copy are related, also where there is
none. -/
theorem getD (h : Appended R shared base own all) {a : α} {b : β} (hab : R a b) (i : Nat) :
    R (own[i]?.getD a) (all[copyPlace base.size shared i]?.getD b) := by
  cases hi : own[i]? with
  | none =>
    rw [h.copy_eq_none hi]
    exact hab
  | some x =>
    obtain ⟨y, hy, hxy⟩ := h.new i x hi
    rw [hy]
    exact hxy

/-- What stands behind the old entries is a copy. -/
theorem exists_of_le (h : Appended R shared base own all) {j : Nat} {b : β}
    (hj : base.size ≤ j) (hb : all[j]? = some b) :
    ∃ (i : Nat) (a : α), own[i]? = some a ∧ R a b := by
  have hsize := h.size
  have hlt := (Array.getElem?_eq_some_iff.mp hb).1
  have hi : j - base.size + shared < own.size := by omega
  obtain ⟨b', hb', hab⟩ := h.new _ _ (Array.getElem?_eq_getElem hi)
  have hplace : copyPlace base.size shared (j - base.size + shared) = j := by
    unfold copyPlace
    split <;> omega
  rw [hplace, hb] at hb'
  cases hb'
  exact ⟨_, _, Array.getElem?_eq_getElem hi, hab⟩

end Appended

end Appended

/-! ## The places of copies -/

namespace Program

variable (base : Program)

/-- Where the copy of a file stands. -/
def filePlace (id : FileId) : FileId :=
  ⟨copyPlace base.files.size 0 id.index⟩

/-- Where the copy of a scope stands. -/
def scopePlace (id : ScopeId) : ScopeId :=
  ⟨copyPlace base.scopes.size 0 id.index⟩

/-- Where the copy of a symbol stands. -/
def symbolPlace (id : SymbolId) : SymbolId :=
  ⟨copyPlace base.symbols.size 1 id.index⟩

/-- The same offset in the copy of a file. -/
def locationPlace (location : Location) : Location :=
  ⟨base.filePlace location.file, location.offset⟩

variable {base}

/-- Different symbols have different copies. -/
theorem symbolPlace_injective (h : 0 < base.symbols.size) :
    Function.Injective base.symbolPlace := by
  rintro ⟨i⟩ ⟨j⟩ hij
  have hplace : copyPlace base.symbols.size 1 i = copyPlace base.symbols.size 1 j :=
    congrArg SymbolId.index hij
  congr 1
  unfold copyPlace at hplace
  split at hplace <;> split at hplace <;> omega

end Program

/-! ## Links between types -/

/-- Which place of a type is the copy of which, and what is known of the sorts of symbols and of the
number of files. The types that every program starts with are their own copies. -/
structure Links where
  types : TypeId → TypeId → Prop
  sorts : SymbolId → SymbolSort → Prop
  files : Nat
  oneToOne : ∀ {a b a' b'}, types a b → types a' b' → (a = a' ↔ b = b')
  wellKnown : ∀ i < TypeTable.initial.entries.size, types ⟨i⟩ ⟨i⟩

namespace Links

instance : Preorder Links where
  le links links' := (∀ a b, links.types a b → links'.types a b) ∧
    (∀ id sort, links.sorts id sort → links'.sorts id sort) ∧ Nat.le links.files links'.files
  le_refl _ := ⟨fun _ _ => id, fun _ _ => id, Nat.le_refl _⟩
  le_trans _ _ _ h h' := ⟨fun a b hab => h'.1 a b (h.1 a b hab),
    fun id sort hsort => h'.2.1 id sort (h.2.1 id sort hsort), Nat.le_trans h.2.2 h'.2.2⟩

/-- A symbol of which the sort is known. -/
def Knows (links : Links) (id : SymbolId) : Prop :=
  ∃ sort, links.sorts id sort

variable {links links' : Links}

/-- What is known of a symbol stays known. -/
theorem Knows.mono {id : SymbolId} (h : links.Knows id) (hle : links ≤ links') :
    links'.Knows id := by
  obtain ⟨sort, hsort⟩ := h
  exact ⟨sort, hle.2.1 id sort hsort⟩

/-- The type of a word is its own copy. -/
theorem word (links : Links) (word : TypeWord) : links.types (.ofWord word) (.ofWord word) := by
  cases word <;> exact links.wellKnown _ (by decide)

/-- The type `any` is its own copy. -/
theorem any (links : Links) : links.types .any .any :=
  links.word .any

/-- The types of `true` and `false` are their own copies. -/
theorem boolean (links : Links) (value : Bool) :
    links.types (.ofBoolean value) (.ofBoolean value) := by
  cases value <;> exact links.wellKnown _ (by decide)

end Links

/-! ## Types that look alike -/

section Mirrors

variable (types : TypeId → TypeId → Prop) (symbols : SymbolId → SymbolId → Prop)

/-- Signatures that differ only in the places of types. -/
structure Signature.Mirrors (signature signature' : Signature) : Prop where
  parameters : List.Forall₂ (fun p q => q.1 = p.1 ∧ types p.2 q.2) signature.parameters
    signature'.parameters
  result : types signature.result signature'.result
  hasRest : signature'.hasRest = signature.hasRest

/-- Types that differ only in the places of types and symbols. -/
inductive TypeData.Mirrors : TypeData → TypeData → Prop where
  | intrinsic (word : TypeWord) : Mirrors (.intrinsic word) (.intrinsic word)
  | stringLiteral (value : String) : Mirrors (.stringLiteral value) (.stringLiteral value)
  | numberLiteral (text : String) : Mirrors (.numberLiteral text) (.numberLiteral text)
  | booleanLiteral (value : Bool) : Mirrors (.booleanLiteral value) (.booleanLiteral value)
  | object (name? : Option String) {members members' : SymbolTable SymbolId}
      {signatures signatures' : List Signature} (hmembers : members.Pairs symbols members')
      (hsignatures : List.Forall₂ (Signature.Mirrors types) signatures signatures') :
      Mirrors (.object name? members signatures) (.object name? members' signatures')
  | array {element element' : TypeId} (h : types element element') :
      Mirrors (.array element) (.array element')
  | union {members members' : List TypeId} (h : List.Forall₂ types members members') :
      Mirrors (.union members) (.union members')

end Mirrors

section Imp

variable {types types' : TypeId → TypeId → Prop} {symbols symbols' : SymbolId → SymbolId → Prop}

/-- Signatures that look the same by a relation of types do so by every weaker one. -/
theorem Signature.Mirrors.imp {signature signature' : Signature}
    (h : signature.Mirrors types signature') (htypes : ∀ a b, types a b → types' a b) :
    signature.Mirrors types' signature' :=
  ⟨h.parameters.imp fun _ _ hp => ⟨hp.1, htypes _ _ hp.2⟩, htypes _ _ h.result, h.hasRest⟩

/-- Types that look the same by relations of types and symbols do so by every weaker ones. -/
theorem TypeData.Mirrors.imp {data data' : TypeData} (h : data.Mirrors types symbols data')
    (htypes : ∀ a b, types a b → types' a b)
    (hsymbols : ∀ id id', symbols id id' → symbols' id id') :
    data.Mirrors types' symbols' data' := by
  cases h with
  | intrinsic word => exact .intrinsic word
  | stringLiteral value => exact .stringLiteral value
  | numberLiteral text => exact .numberLiteral text
  | booleanLiteral value => exact .booleanLiteral value
  | object name? hmembers hsignatures =>
    refine .object name? (hmembers.imp hsymbols) (hsignatures.imp ?_)
    exact fun _ _ hsignature => hsignature.imp htypes
  | array h => exact .array (htypes _ _ h)
  | union h => exact .union (h.imp htypes)

/-- Types that look the same have the same flags. -/
theorem TypeData.Mirrors.flags {data data' : TypeData} (h : data.Mirrors types symbols data') :
    data'.flags = data.flags := by
  cases h <;> rfl

/-- An object type with nothing but a name looks like itself. -/
theorem TypeData.Mirrors.named (name : String) :
    (TypeData.named name).Mirrors types symbols (TypeData.named name) :=
  .object (some name) .nil .nil

end Imp

/-! ## Copies of what a program holds -/

section Matches

variable (base : Program) (links : Links)

/-- A symbol of which the sort is known, and its copy. -/
def Program.IsCopy (id id' : SymbolId) : Prop :=
  id' = base.symbolPlace id ∧ links.Knows id

/-- What stands at a place of a type, and at the place of its copy. -/
abbrev TypeData.Matches : TypeData → TypeData → Prop :=
  TypeData.Mirrors links.types (base.IsCopy links)

/-- Whether symbols of a sort have an object type of their own, which changes at its place. -/
def SymbolSort.ownsType : SymbolSort → Bool
  | interface | method => true
  | _ => false

/-- A symbol and its copy. A type that is a symbol's own is seen by no other file. -/
structure Symbol.Matches (symbol symbol' : Symbol) : Prop where
  name : symbol'.name = symbol.name
  sort : symbol'.sort = symbol.sort
  declarations : symbol'.declarations = symbol.declarations.map base.locationPlace
  type : links.types symbol.type symbol'.type
  own : symbol.sort.ownsType = true → base.types.entries.size ≤ symbol'.type.index

/-- An assignment and its copy. -/
structure Assignment.Matches (a a' : Assignment) : Prop where
  symbol : a'.symbol = base.symbolPlace a.symbol
  offset : a'.offset = a.offset
  type : links.types a.type a'.type
  known : links.Knows a.symbol

/-- A scope and its copy. -/
structure Scope.Matches (scope scope' : Scope) : Prop where
  enclosing : scope'.enclosing = scope.enclosing.map base.scopePlace
  span : scope'.span = scope.span
  values : scope'.values = scope.values.map base.symbolPlace
  types : scope'.types = scope.types.map base.symbolPlace
  knownValues : ∀ entry ∈ scope.values.entries, links.Knows entry.2
  knownTypes : ∀ entry ∈ scope.types.entries, links.Knows entry.2
  assignments : List.Forall₂ (Assignment.Matches base links) scope.assignments scope'.assignments

/-- A file and its copy. -/
structure FileInfo.Matches (info info' : FileInfo) : Prop where
  name : info'.name = info.name
  length : info'.length = info.length
  scopes : info'.scopes = info.scopes.map base.scopePlace
  declarations : info'.declarations =
    info.declarations.map fun entry => (entry.1, base.symbolPlace entry.2)
  known : ∀ entry ∈ info.declarations, links.Knows entry.2

end Matches

/-- Whether a type shares its place with others that look the same. -/
def TypeData.isShared : TypeData → Bool
  | stringLiteral _ | numberLiteral _ | array _ | union _ => true
  | _ => false

/-- Shared types stand at one place only. -/
def TypeTable.SharedOnce (table : TypeTable) : Prop :=
  ∀ ⦃i j : Nat⦄ ⦃data : TypeData⦄, data.isShared = true → table.entries[i]? = some data →
    table.entries[j]? = some data → i = j

/-- A program is another one with a copy of a third added to it. -/
structure Embeds (base : Program) (links : Links) (own all : Program) : Prop where
  linked : ∀ i < own.types.entries.size, ∃ b, links.types ⟨i⟩ b
  types : ∀ {a b}, links.types a b → ∃ data data', own.types.entries[a.index]? = some data ∧
    all.types.entries[b.index]? = some data' ∧ data.Matches base links data'
  oldTypes : ∀ i < base.types.entries.size, all.types.entries[i]? = base.types.entries[i]?
  newTypes : ∀ i, base.types.entries.size ≤ i → i < all.types.entries.size → ∃ a, links.types a ⟨i⟩
  sharedOnce : all.types.SharedOnce
  sorts : ∀ {id sort}, links.sorts id sort →
    1 ≤ id.index ∧ ∃ symbol, own.symbols[id.index]? = some symbol ∧ symbol.sort = sort
  symbols : Appended (Symbol.Matches base links) 1 base.symbols own.symbols all.symbols
  scopes : Appended (Scope.Matches base links) 0 base.scopes own.scopes all.scopes
  files : Appended (FileInfo.Matches base links) 0 base.files own.files all.files
  filesKnown : links.files ≤ own.files.size
  fileScopes : ∀ (i : Nat) info, own.files[i]? = some info → ∀ id ∈ info.scopes,
    id.index < own.scopes.size
  issues : all.issues = base.issues ++ own.issues

/-! ## Copies stay copies as links are added -/

section Mono

variable {base : Program} {links links' : Links} (hle : links ≤ links')
include hle

/-- A type and its copy stay so when more is linked. -/
theorem TypeData.Matches.mono {data data' : TypeData} (h : data.Matches base links data') :
    data.Matches base links' data' :=
  h.imp hle.1 fun _ _ hid => ⟨hid.1, hid.2.mono hle⟩

/-- A symbol and its copy stay so when more is linked. -/
theorem Symbol.Matches.mono {symbol symbol' : Symbol} (h : symbol.Matches base links symbol') :
    symbol.Matches base links' symbol' :=
  ⟨h.name, h.sort, h.declarations, hle.1 _ _ h.type, h.own⟩

/-- A scope and its copy stay so when more is linked. -/
theorem Scope.Matches.mono {scope scope' : Scope} (h : scope.Matches base links scope') :
    scope.Matches base links' scope' := by
  refine ⟨h.enclosing, h.span, h.values, h.types, ?_, ?_, ?_⟩
  · intro entry hentry
    exact (h.knownValues entry hentry).mono hle
  · intro entry hentry
    exact (h.knownTypes entry hentry).mono hle
  · apply h.assignments.imp
    intro a a' ha
    exact ⟨ha.symbol, ha.offset, hle.1 _ _ ha.type, ha.known.mono hle⟩

/-- A file and its copy stay so when more is linked. -/
theorem FileInfo.Matches.mono {info info' : FileInfo} (h : info.Matches base links info') :
    info.Matches base links' info' := by
  refine ⟨h.name, h.length, h.scopes, h.declarations, fun entry hentry => ?_⟩
  exact (h.known entry hentry).mono hle

end Mono

/-! ## What is asked of a copy -/

namespace Program

/-- The assignments to a symbol that count at a location. -/
def assignmentsTo (program : Program) (id : SymbolId) (location : Location) : List Assignment :=
  (program.scopesAt location).flatMap fun scope =>
    (program.scope scope).assignments.filter fun assignment =>
      assignment.symbol = id && assignment.offset ≤ location.offset

/-- The type at a location is that of the last assignment that counts there, if the symbol has a
union for its type, and else that of the symbol. -/
theorem typeAt_eq (program : Program) (id : SymbolId) (location : Location) :
    program.typeAt id location =
      if (program.types.get (program.symbol id).type).flags.has TypeFlags.union then
        ((latest? (program.assignmentsTo id location)).map Assignment.type).getD
          (program.symbol id).type
      else (program.symbol id).type := by
  unfold typeAt assignmentsTo
  simp only
  congr 1
  split
  · rename_i hlatest
    rw [hlatest]
    rfl
  · rename_i hlatest
    rw [hlatest]
    rfl

end Program

namespace Embeds

variable {base own all : Program} {links : Links} (h : Embeds base links own all)
include h

/-- In a program that embeds another, different symbols have different copies. -/
theorem symbolPlace_injective : Function.Injective base.symbolPlace :=
  Program.symbolPlace_injective h.symbols.shared_le_base

/-- The types at linked places are copies of each other. -/
theorem get {a b : TypeId} (hab : links.types a b) :
    (own.types.get a).Matches base links (all.types.get b) := by
  obtain ⟨data, data', hdata, hdata', hmatches⟩ := h.types hab
  rw [TypeTable.get_of_entries hdata, TypeTable.get_of_entries hdata']
  exact hmatches

/-- The symbol at the place of a copy is a copy. -/
theorem symbol (id : SymbolId) :
    (own.symbol id).Matches base links (all.symbol (base.symbolPlace id)) := by
  refine h.symbols.getD ⟨rfl, rfl, rfl, links.wellKnown 0 (by decide), ?_⟩ id.index
  exact nofun

/-- The scope at the place of a copy is a copy. -/
theorem scope (id : ScopeId) :
    (own.scope id).Matches base links (all.scope (base.scopePlace id)) :=
  h.scopes.getD ⟨rfl, rfl, rfl, rfl, fun _ hmem => absurd hmem List.not_mem_nil,
    fun _ hmem => absurd hmem List.not_mem_nil, .nil⟩ id.index

/-- The file at the place of a copy is a copy. -/
theorem file (id : FileId) :
    (own.files[id.index]?.getD default).Matches base links
      (all.files[(base.filePlace id).index]?.getD default) :=
  h.files.getD ⟨rfl, rfl, rfl, rfl, fun _ hmem => absurd hmem List.not_mem_nil⟩ id.index

/-- The scopes around the copy of a scope are the copies of those around the scope. -/
theorem outward (id : ScopeId) :
    all.outward (base.scopePlace id) = (own.outward id).map base.scopePlace := by
  unfold Program.outward
  rw [(h.scope id).enclosing, List.map_cons]

/-- The name of a value leads from the copy of a scope to the copy of the symbol it leads to. -/
theorem resolveValue? (scope : ScopeId) (name : String) :
    all.resolveValue? (base.scopePlace scope) name =
      (own.resolveValue? scope name).map base.symbolPlace := by
  unfold Program.resolveValue?
  rw [h.outward, List.findSome?_map, List.map_findSome?]
  congr 1
  funext id
  rw [Function.comp_apply, (h.scope id).values, SymbolTable.get?_map]
  rfl

/-- The name of a type leads from the copy of a scope to the copy of the symbol it leads to. -/
theorem resolveType? (scope : ScopeId) (name : String) :
    all.resolveType? (base.scopePlace scope) name =
      (own.resolveType? scope name).map base.symbolPlace := by
  unfold Program.resolveType?
  rw [h.outward, List.findSome?_map, List.map_findSome?]
  congr 1
  funext id
  rw [Function.comp_apply, (h.scope id).types, SymbolTable.get?_map]
  rfl

/-- The sort of a symbol to which the name of a value leads is known. -/
theorem knows_of_resolveValue? {scope : ScopeId} {name : String} {id : SymbolId}
    (hid : own.resolveValue? scope name = some id) : links.Knows id := by
  obtain ⟨place, -, hplace⟩ := List.exists_of_findSome?_eq_some hid
  exact (h.scope place).knownValues _ (SymbolTable.mem_of_get? hplace)

/-- The sort of a symbol to which the name of a type leads is known. -/
theorem knows_of_resolveType? {scope : ScopeId} {name : String} {id : SymbolId}
    (hid : own.resolveType? scope name = some id) : links.Knows id := by
  obtain ⟨place, -, hplace⟩ := List.exists_of_findSome?_eq_some hid
  exact (h.scope place).knownTypes _ (SymbolTable.mem_of_get? hplace)

/-- The scopes at the copy of a location are the copies of those at the location. -/
theorem scopesAt (location : Location) :
    all.scopesAt (base.locationPlace location) = (own.scopesAt location).map base.scopePlace := by
  unfold Program.scopesAt
  cases hinfo : own.files[location.file.index]? with
  | none =>
    have hnone : all.files[(base.locationPlace location).file.index]? = none :=
      h.files.copy_eq_none hinfo
    rw [hnone]
    rfl
  | some info =>
    obtain ⟨info', hinfo', hmatches⟩ := h.files.new _ info hinfo
    have hsome : all.files[(base.locationPlace location).file.index]? = some info' := hinfo'
    rw [hsome]
    simp only
    rw [hmatches.scopes, List.filter_map]
    congr 1
    apply List.filter_congr
    intro id _
    have hscope := h.scope id
    have hempty : (all.scope (base.scopePlace id)).enclosing.isEmpty =
        (own.scope id).enclosing.isEmpty := by
      rw [hscope.enclosing, List.isEmpty_map]
    simp only [Function.comp_apply, Scope.covers, hempty, hscope.span]
    rfl

/-- The assignments that count for a copy at the copy of a location are copies of those that count
for the symbol. -/
theorem assignmentsTo (id : SymbolId) (location : Location) :
    List.Forall₂ (Assignment.Matches base links) (own.assignmentsTo id location)
      (all.assignmentsTo (base.symbolPlace id) (base.locationPlace location)) := by
  unfold Program.assignmentsTo
  rw [h.scopesAt, List.flatMap_map]
  apply List.rel_flatMap (R := fun scope scope' => scope = scope')
  · exact List.forall₂_same.mpr fun _ _ => rfl
  · rintro scope _ rfl
    refine List.rel_filter ?_ (h.scope scope).assignments
    intro a a' ha
    have hsymbol : a'.symbol = base.symbolPlace id ↔ a.symbol = id := by
      rw [ha.symbol]
      exact h.symbolPlace_injective.eq_iff
    simp [hsymbol, ha.offset, Program.locationPlace]

end Embeds

/-- The latest of assignments and the latest of their copies are copies of each other. -/
theorem Program.latest?_matches {base : Program} {links : Links}
    {assignments assignments' : List Assignment}
    (h : List.Forall₂ (Assignment.Matches base links) assignments assignments') :
    Option.Rel (Assignment.Matches base links) (latest? assignments) (latest? assignments') := by
  unfold latest?
  refine List.rel_foldl ?_ .none h
  intro found found' hfound next next' hnext
  cases hfound with
  | none => exact .some hnext
  | some hbest =>
    simp only [hnext.offset, hbest.offset]
    split
    · exact .some hbest
    · exact .some hnext

/-- The type of a symbol at a location is linked to that of its copy at the copied location. -/
theorem Embeds.typeAt {base own all : Program} {links : Links} (h : Embeds base links own all)
    (id : SymbolId) (location : Location) :
    links.types (own.typeAt id location)
      (all.typeAt (base.symbolPlace id) (base.locationPlace location)) := by
  have hdeclared := (h.symbol id).type
  have hlatest := Program.latest?_matches (h.assignmentsTo id location)
  rw [Program.typeAt_eq, Program.typeAt_eq, (h.get hdeclared).flags]
  split
  · generalize Program.latest? (own.assignmentsTo id location) = found at hlatest ⊢
    generalize Program.latest? (all.assignmentsTo _ _) = found' at hlatest ⊢
    cases hlatest with
    | none => exact hdeclared
    | some ha => exact ha.type
  · exact hdeclared

end ExpressionTyping
