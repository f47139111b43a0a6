import ExpressionTyping.Proofs.Program.TableSteps

/-!
# Objects, interfaces and methods of a program

An object type lists its members by name, and the symbol of a member has the name it is listed under
(`Program.Lists`). An interface has a named object type from the start, a method one with nothing
but signatures, and no other interface or method has the same one, so what is put there is its own.
A program with all this is tidy (`Program.Tidy`).

Types stay what they are, except that named objects may get other members (`TypeData.Holds`). While
members are gathered, the types of methods get signatures. What is said of other types is read in a
table with a veil over these, where an object with a name stands for each (`TypeTable.veil`): there
nothing changes, and what is so there is so in the table itself (`TypeTable.endures_of_veil`).
-/

set_option autoImplicit false

namespace ExpressionTyping

/-! ## Types that hold -/

/-- A type stays what it is, but a named object may get other members. -/
def TypeData.Holds (data later : TypeData) : Prop :=
  later = data ∨ ∃ name members members' signatures,
    data = .object (some name) members signatures ∧ later = .object (some name) members' signatures

/-- Every type holds what it is. -/
theorem TypeData.Holds.refl (data : TypeData) : data.Holds data :=
  .inl rfl

/-- Holding twice is holding. -/
theorem TypeData.Holds.trans {a b c : TypeData} (h : a.Holds b) (h' : b.Holds c) : a.Holds c := by
  rcases h with rfl | ⟨name, members, members', signatures, rfl, rfl⟩
  · exact h'
  · rcases h' with rfl | ⟨_, _, later, _, heq, rfl⟩
    · exact .inr ⟨name, members, members', signatures, rfl, rfl⟩
    · cases heq
      exact .inr ⟨name, members, later, signatures, rfl, rfl⟩

/-- What is kept holds. -/
theorem Kept.holds {before after : Array TypeData} (h : Kept before after) :
    Continues TypeData.Holds before after :=
  fun _ data hdata => ⟨data, h.of_some hdata, .refl data⟩

/-- A type stays what it is, but a named object may become any object. -/
def TypeData.Endures (data later : TypeData) : Prop :=
  later = data ∨ ∃ name members signatures name? members' signatures',
    data = .object (some name) members signatures ∧ later = .object name? members' signatures'

/-- What holds endures. -/
theorem TypeData.Holds.endures {data later : TypeData} (h : data.Holds later) :
    data.Endures later := by
  rcases h with heq | ⟨name, members, members', signatures, heq, heq'⟩
  · exact .inl heq
  · exact .inr ⟨name, members, signatures, some name, members', signatures, heq, heq'⟩

/-- Where types hold they endure. -/
theorem Continues.endures {before after : Array TypeData}
    (h : Continues TypeData.Holds before after) : Continues TypeData.Endures before after :=
  h.imp fun _ _ => TypeData.Holds.endures

/-- Every type endures as it is. -/
theorem TypeData.Endures.refl (data : TypeData) : data.Endures data :=
  .inl rfl

/-- Enduring twice is enduring. -/
theorem TypeData.Endures.trans {a b c : TypeData} (h : a.Endures b) (h' : b.Endures c) :
    a.Endures c := by
  rcases h with rfl | ⟨name, members, signatures, name?, members', signatures', rfl, rfl⟩
  · exact h'
  · refine .inr ?_
    rcases h' with rfl | ⟨_, _, _, name?', members'', signatures'', -, rfl⟩
    · exact ⟨name, members, signatures, name?, members', signatures', rfl, rfl⟩
    · exact ⟨name, members, signatures, name?', members'', signatures'', rfl, rfl⟩

/-- A type endures as it is unless it is a named object. -/
theorem TypeData.Endures.eq {data later : TypeData} (h : data.Endures later)
    (hdata : ∀ name members signatures, data ≠ .object (some name) members signatures) :
    later = data := by
  rcases h with heq | ⟨name, members, signatures, _, _, _, heq, -⟩
  · exact heq
  · exact absurd heq (hdata name members signatures)

namespace TypeTable

variable {table later : TypeTable}

/-- What stands in a table, and is neither a named object nor read beyond the end, stays. -/
theorem get_of_endures (h : Continues TypeData.Endures table.entries later.entries) {id : TypeId}
    {data : TypeData} (hne : data ≠ .intrinsic .any)
    (hobject : ∀ name members signatures, data ≠ .object (some name) members signatures)
    (hdata : table.get id = data) : later.get id = data := by
  obtain ⟨found, hfound, hendures⟩ := h _ _ (entries_of_get hdata hne)
  rw [get_of_entries hfound, hendures.eq hobject]

/-- Types that endure are made of the same types. -/
theorem constituents_of_endures (h : Continues TypeData.Endures table.entries later.entries)
    {id : TypeId} (hid : id.index < table.entries.size) :
    later.constituents id = table.constituents id := by
  have hentry := Array.getElem?_eq_getElem hid
  obtain ⟨found, hfound, hendures⟩ := h _ _ hentry
  rw [constituents, constituents, get_of_entries hentry, get_of_entries hfound]
  rcases hendures with rfl | ⟨name, members, signatures, name?, members', signatures', heq, rfl⟩
  · rfl
  · rw [heq]

/-- What stands at the place of an object once it is changed. -/
theorem get_updateObject {id : TypeId} {name? : Option String} {members : SymbolTable SymbolId}
    {signatures : List Signature}
    (hentry : table.entries[id.index]? = some (.object name? members signatures))
    (f : SymbolTable SymbolId → List Signature → SymbolTable SymbolId × List Signature) :
    (table.updateObject id f).entries[id.index]? =
      some (.object name? (f members signatures).1 (f members signatures).2) := by
  show (table.entries.modify id.index _)[id.index]? = _
  rw [Array.getElem?_modify, if_pos rfl, hentry]
  rfl

/-- Other types stay. -/
theorem getElem?_updateObject_of_ne {id other : TypeId} (hne : other ≠ id)
    (f : SymbolTable SymbolId → List Signature → SymbolTable SymbolId × List Signature) :
    (table.updateObject id f).entries[other.index]? = table.entries[other.index]? := by
  show (table.entries.modify id.index _)[other.index]? = _
  rw [Array.getElem?_modify, if_neg]
  exact fun heq => hne (congrArg TypeId.mk heq.symm)

/-- Whatever relates each type to itself, and an object to what it becomes, relates a table to the
one in which the object is changed. -/
theorem updateObject_continues {R : TypeData → TypeData → Prop} (hrefl : ∀ data, R data data)
    {id : TypeId} {name? : Option String} {members : SymbolTable SymbolId}
    {signatures : List Signature}
    (hentry : table.entries[id.index]? = some (.object name? members signatures))
    {f : SymbolTable SymbolId → List Signature → SymbolTable SymbolId × List Signature}
    (hf : R (.object name? members signatures)
      (.object name? (f members signatures).1 (f members signatures).2)) :
    Continues R table.entries (table.updateObject id f).entries := by
  intro i data hdata
  by_cases hi : (⟨i⟩ : TypeId) = id
  · subst hi
    cases hentry.symm.trans hdata
    exact ⟨_, get_updateObject hentry f, hf⟩
  · exact ⟨data, (getElem?_updateObject_of_ne hi f).trans hdata, hrefl data⟩

/-- A named object is given its members. -/
theorem setMembers_holds {id : TypeId} {name : String} {old : SymbolTable SymbolId}
    {signatures : List Signature}
    (hentry : table.entries[id.index]? = some (.object (some name) old signatures))
    (members : SymbolTable SymbolId) :
    Continues TypeData.Holds table.entries (table.setMembers id members).entries :=
  updateObject_continues TypeData.Holds.refl hentry
    (.inr ⟨name, old, members, signatures, rfl, rfl⟩)

end TypeTable

/-! ## Types behind a veil -/

namespace TypeTable

variable {table later : TypeTable} {veiled : List TypeId}

/-- The table in which an object with a name stands at some places. -/
def veil (table : TypeTable) : List TypeId → TypeTable
  | [] => table
  | id :: rest => ⟨(table.veil rest).entries.setIfInBounds id.index (.named "")⟩

/-- A veil changes no size. -/
theorem size_veil (table : TypeTable) (veiled : List TypeId) :
    (table.veil veiled).entries.size = table.entries.size := by
  induction veiled with
  | nil => rfl
  | cons id rest ih =>
    rw [veil, Array.size_setIfInBounds]
    exact ih

/-- What stands in a table with a veil over some places. -/
theorem getElem?_veil (table : TypeTable) (veiled : List TypeId) (i : Nat) :
    (table.veil veiled).entries[i]? =
      if ⟨i⟩ ∈ veiled then table.entries[i]?.map fun _ => .named "" else table.entries[i]? := by
  induction veiled with
  | nil => rfl
  | cons id rest ih =>
    rw [veil, Array.getElem?_setIfInBounds]
    by_cases hi : id.index = i
    · subst hi
      rw [if_pos rfl, if_pos List.mem_cons_self, size_veil]
      by_cases hlt : id.index < table.entries.size
      · rw [if_pos hlt, Array.getElem?_eq_getElem hlt]
        rfl
      · rw [if_neg hlt, Array.getElem?_eq_none (Nat.le_of_not_lt hlt)]
        rfl
    · have hne : (⟨i⟩ : TypeId) ≠ id := fun heq => hi (congrArg TypeId.index heq).symm
      rw [if_neg hi, ih]
      simp only [List.mem_cons, hne, false_or]

/-- Places without a veil are as they were. -/
theorem getElem?_veil_of_notMem {id : TypeId} (h : id ∉ veiled) :
    (table.veil veiled).entries[id.index]? = table.entries[id.index]? := by
  rw [getElem?_veil, if_neg h]

/-- A veil beyond the table changes nothing. -/
theorem veil_cons_of_le {id : TypeId} (h : table.entries.size ≤ id.index)
    (veiled : List TypeId) : table.veil (id :: veiled) = table.veil veiled := by
  have hle : (table.veil veiled).entries.size ≤ id.index := (table.size_veil veiled).symm ▸ h
  rw [veil, Array.setIfInBounds_eq_of_size_le hle]

/-- Tables that differ in places behind a veil only look the same. -/
theorem veil_eq (hsize : later.entries.size = table.entries.size)
    (h : ∀ id : TypeId, id ∉ veiled → later.entries[id.index]? = table.entries[id.index]?) :
    later.veil veiled = table.veil veiled := by
  have hentries : (later.veil veiled).entries = (table.veil veiled).entries := by
    refine Array.ext_getElem? fun i => ?_
    rw [getElem?_veil, getElem?_veil]
    split
    · by_cases hlt : i < table.entries.size
      · rw [Array.getElem?_eq_getElem hlt, Array.getElem?_eq_getElem (hsize ▸ hlt)]
        rfl
      · have hle := Nat.le_of_not_lt hlt
        rw [Array.getElem?_eq_none hle, Array.getElem?_eq_none (hsize ▸ hle)]
    · exact h ⟨i⟩ ‹_›
  exact congrArg TypeTable.mk hentries

/-- What is so in a table with a veil over objects is so with a veil over fewer. -/
theorem endures_of_veil {fewer : List TypeId} (h : ∀ id ∈ fewer, id ∈ veiled)
    (hobjects : ∀ id ∈ veiled, ∃ name? members signatures,
      table.entries[id.index]? = some (.object name? members signatures)) :
    Continues TypeData.Endures (table.veil veiled).entries (table.veil fewer).entries := by
  intro i data hdata
  rw [getElem?_veil] at hdata
  rw [getElem?_veil]
  by_cases hveiled : (⟨i⟩ : TypeId) ∈ veiled
  · obtain ⟨name?, members, signatures, hentry⟩ := hobjects _ hveiled
    rw [if_pos hveiled, hentry] at hdata
    cases hdata
    rw [hentry]
    split
    · exact ⟨_, rfl, .refl _⟩
    · exact ⟨_, rfl, .inr ⟨_, _, _, _, _, _, rfl, rfl⟩⟩
  · rw [if_neg hveiled] at hdata
    rw [if_neg fun hmem => hveiled (h _ hmem)]
    exact ⟨data, hdata, .refl data⟩

/-- What endures does so behind a veil. -/
theorem endures_veil (h : Continues TypeData.Endures table.entries later.entries)
    (veiled : List TypeId) :
    Continues TypeData.Endures (table.veil veiled).entries (later.veil veiled).entries := by
  intro i data hdata
  rw [getElem?_veil] at hdata
  rw [getElem?_veil]
  split at hdata
  · obtain ⟨old, hold, rfl⟩ := Option.map_eq_some_iff.mp hdata
    obtain ⟨found, hfound, -⟩ := h _ _ hold
    rw [if_pos ‹_›, hfound]
    exact ⟨_, rfl, .refl _⟩
  · rw [if_neg ‹_›]
    exact h _ _ hdata

end TypeTable

/-! ## Types that symbols own -/

/-- What a type of its own is for an interface, an object with a name, and for a method, an object
with nothing but signatures. -/
inductive SymbolSort.Owns : SymbolSort → TypeData → Prop where
  | interface {name : String} {members : SymbolTable SymbolId} :
      Owns .interface (.object (some name) members [])
  | method {signatures : List Signature} : Owns .method (.object none .empty signatures)

/-- What is owned stays owned where types hold. -/
theorem TypeData.Holds.owns {data later : TypeData} (h : data.Holds later) {sort : SymbolSort}
    (howns : sort.Owns data) : sort.Owns later := by
  rcases h with rfl | ⟨name, members, members', signatures, rfl, rfl⟩
  · exact howns
  · cases howns
    exact .interface

/-! ## Programs -/

namespace Program

/-- The symbols in a table have the names they are listed under. -/
def Names (program : Program) (members : SymbolTable SymbolId) : Prop :=
  ∀ entry ∈ members.entries,
    ∃ symbol, program.symbol? entry.2 = some symbol ∧ symbol.name = entry.1

/-- If a type is an object, its members have the names they are listed under. -/
def Lists (program : Program) : TypeData → Prop
  | .object _ members _ => program.Names members
  | _ => True

/-- Objects list their members by name, and every interface and method has an object type of its
own, which no other has. -/
structure Tidy (program : Program) : Prop where
  lists : ∀ data ∈ program.types.entries, program.Lists data
  owns : ∀ {id : SymbolId} {symbol : Symbol}, program.symbol? id = some symbol →
    symbol.sort.ownsType = true → ∃ data,
      program.types.entries[symbol.type.index]? = some data ∧ symbol.sort.Owns data
  apart : ∀ {id id' : SymbolId} {symbol symbol' : Symbol}, program.symbol? id = some symbol →
    program.symbol? id' = some symbol' → symbol.sort.ownsType = true →
      symbol'.sort.ownsType = true → symbol.type = symbol'.type → id = id'

variable {before after program : Program}

/-- Members keep their names while symbols only grow. -/
theorem Names.mono {members : SymbolTable SymbolId} (h : before.Names members)
    (hsymbols : Continues Symbol.Grows before.symbols after.symbols) : after.Names members := by
  intro entry hentry
  obtain ⟨symbol, hsymbol, hname⟩ := h entry hentry
  obtain ⟨later, hlater, hgrows⟩ := hsymbols _ _ hsymbol
  exact ⟨later, hlater, hgrows.name.trans hname⟩

/-- No members have wrong names. -/
theorem Names.empty (program : Program) : program.Names .empty :=
  List.forall_mem_nil _

/-- An object lists its members by name while symbols only grow. -/
theorem Lists.mono {data : TypeData} (h : before.Lists data)
    (hsymbols : Continues Symbol.Grows before.symbols after.symbols) : after.Lists data := by
  cases data with
  | object name? members signatures => exact Names.mono h hsymbols
  | _ => trivial

/-- Types that look the same elsewhere are no objects. -/
theorem Lists.of_shared {data : TypeData} (h : data.isShared = true) : program.Lists data := by
  cases data with
  | object => cases h
  | _ => trivial

/-! ## Symbols with types of their own -/

/-- Symbols of some sorts are those that were there, with their types. -/
def KeepsTypes (sorts : SymbolSort → Prop) (before after : Program) : Prop :=
  ∀ id symbol, after.symbol? id = some symbol → sorts symbol.sort →
    ∃ old, before.symbol? id = some old ∧ old.sort = symbol.sort ∧ old.type = symbol.type

/-- Interfaces are those that were there, with their types. -/
abbrev KeepsInterfaces : Program → Program → Prop :=
  KeepsTypes (· = .interface)

/-- The symbols that have types of their own are those that were there, with their types. -/
abbrev KeepsOwners : Program → Program → Prop :=
  KeepsTypes (·.ownsType = true)

namespace KeepsTypes

variable {sorts : SymbolSort → Prop}

/-- Types are kept where symbols stay. -/
theorem of_symbols (hsymbols : after.symbols = before.symbols) : KeepsTypes sorts before after := by
  intro id symbol hsymbol _
  refine ⟨symbol, ?_, rfl, rfl⟩
  rw [symbol?, ← hsymbols]
  exact hsymbol

/-- Every program keeps its types. -/
theorem refl (program : Program) : KeepsTypes sorts program program :=
  of_symbols rfl

/-- Keeping types twice is keeping them. -/
theorem trans {later : Program} (h : KeepsTypes sorts before after)
    (h' : KeepsTypes sorts after later) : KeepsTypes sorts before later := by
  intro id symbol hsymbol hsort
  obtain ⟨middle, hmiddle, hsame, htype⟩ := h' id symbol hsymbol hsort
  obtain ⟨old, hold, hsame', htype'⟩ := h id middle hmiddle (hsame ▸ hsort)
  exact ⟨old, hold, hsame'.trans hsame, htype'.trans htype⟩

/-- A symbol of another sort is added. -/
theorem push (symbol : Symbol) (hsort : ¬sorts symbol.sort)
    (hsymbols : after.symbols = before.symbols.push symbol) : KeepsTypes sorts before after := by
  intro id found hfound hinside
  have hpushed : (before.symbols.push symbol)[id.index]? = some found := hsymbols ▸ hfound
  rw [Array.getElem?_push] at hpushed
  split at hpushed
  · cases hpushed
    exact absurd hinside hsort
  · exact ⟨found, hpushed, rfl, rfl⟩

/-- Symbols change, but those of the sorts keep their types. -/
theorem modify {id : SymbolId} {f : Symbol → Symbol}
    (hsymbols : after.symbols = before.symbols.modify id.index f)
    (hf : ∀ symbol : Symbol, (f symbol).sort = symbol.sort)
    (htype : ∀ symbol, before.symbol? id = some symbol → sorts symbol.sort →
      (f symbol).type = symbol.type) : KeepsTypes sorts before after := by
  intro other found hfound hinside
  have hmodified : (before.symbols.modify id.index f)[other.index]? = some found :=
    hsymbols ▸ hfound
  rw [Array.getElem?_modify] at hmodified
  split at hmodified
  · rename_i heq
    obtain rfl : id = other := congrArg SymbolId.mk heq
    obtain ⟨old, hold, rfl⟩ := Option.map_eq_some_iff.mp hmodified
    exact ⟨old, hold, (hf old).symm, (htype old hold (hf old ▸ hinside)).symm⟩
  · exact ⟨found, hmodified, rfl, rfl⟩

/-- A symbol of the sorts keeps its type. -/
theorem type_eq (h : KeepsTypes sorts before after)
    (hsymbols : Continues Symbol.Grows before.symbols after.symbols) {id : SymbolId}
    (hid : before.HasSymbol id) (hsort : sorts (before.symbol id).sort) :
    (after.symbol id).type = (before.symbol id).type := by
  obtain ⟨later, hlater, hgrows⟩ := hsymbols _ _ hid.symbol?
  obtain ⟨old, hold, -, htype⟩ := h id later hlater (hgrows.sort.symm ▸ hsort)
  obtain ⟨-, rfl⟩ := HasSymbol.of_symbol? hold
  obtain ⟨-, rfl⟩ := HasSymbol.of_symbol? hlater
  exact htype.symm

end KeepsTypes

namespace Tidy

/-- An interface has a named object type. -/
theorem interface (h : program.Tidy) {id : SymbolId} {symbol : Symbol}
    (hsymbol : program.symbol? id = some symbol) (hsort : symbol.sort = .interface) :
    ∃ name members,
      program.types.entries[symbol.type.index]? = some (.object (some name) members []) := by
  obtain ⟨data, hentry, howns⟩ := h.owns hsymbol (hsort ▸ rfl)
  rw [hsort] at howns
  cases howns
  exact ⟨_, _, hentry⟩

/-- A method has an object type with nothing but signatures. -/
theorem method (h : program.Tidy) {id : SymbolId} {symbol : Symbol}
    (hsymbol : program.symbol? id = some symbol) (hsort : symbol.sort = .method) :
    ∃ signatures,
      program.types.entries[symbol.type.index]? = some (.object none .empty signatures) := by
  obtain ⟨data, hentry, howns⟩ := h.owns hsymbol (hsort ▸ rfl)
  rw [hsort] at howns
  cases howns
  exact ⟨_, hentry⟩

/-- A tidy program stays so if what is new in it lists members by name, what is owned stays owned,
and no new symbol has a type of its own. -/
theorem continues (h : before.Tidy)
    (hsymbols : Continues Symbol.Grows before.symbols after.symbols)
    (htypes : Continues (fun data later => ∀ sort : SymbolSort, sort.Owns data → sort.Owns later)
      before.types.entries after.types.entries)
    (hlists : ∀ data ∈ after.types.entries, data ∈ before.types.entries ∨ after.Lists data)
    (howners : before.KeepsOwners after) :
    after.Tidy where
  lists data hdata := by
    rcases hlists data hdata with hold | hnew
    · exact (h.lists data hold).mono hsymbols
    · exact hnew
  owns {id symbol} hsymbol hsort := by
    obtain ⟨old, hold, hsame, heq⟩ := howners id symbol hsymbol hsort
    obtain ⟨data, hentry, howns⟩ := h.owns hold (hsame ▸ hsort)
    obtain ⟨later, hlater, hstays⟩ := htypes _ _ hentry
    rw [← heq, ← hsame]
    exact ⟨later, hlater, hstays _ howns⟩
  apart {id id' symbol symbol'} hsymbol hsymbol' hsort hsort' heq := by
    obtain ⟨old, hold, hsame, htype⟩ := howners id symbol hsymbol hsort
    obtain ⟨old', hold', hsame', htype'⟩ := howners id' symbol' hsymbol' hsort'
    exact h.apart hold hold' (hsame ▸ hsort) (hsame' ▸ hsort')
      ((htype.trans heq).trans htype'.symm)

/-- A tidy program stays so if types hold. -/
theorem holds (h : before.Tidy)
    (hsymbols : Continues Symbol.Grows before.symbols after.symbols)
    (htypes : Continues TypeData.Holds before.types.entries after.types.entries)
    (hlists : ∀ data ∈ after.types.entries, data ∈ before.types.entries ∨ after.Lists data)
    (howners : before.KeepsOwners after) : after.Tidy :=
  h.continues hsymbols (htypes.imp fun _ _ hholds _ => hholds.owns) hlists howners

/-- Only types are added. -/
theorem addsTypes (h : before.Tidy) (htypes : Kept before.types.entries after.types.entries)
    (hlists : ∀ data ∈ after.types.entries, data ∈ before.types.entries ∨ before.Lists data)
    (hsymbols : after.symbols = before.symbols) : after.Tidy := by
  have hgrows : Continues Symbol.Grows before.symbols after.symbols :=
    hsymbols ▸ .refl Symbol.Grows.refl _
  refine h.holds hgrows htypes.holds (fun data hdata => ?_) (.of_symbols hsymbols)
  exact (hlists data hdata).imp_right fun hnew => hnew.mono hgrows

/-- Neither types nor symbols change. -/
theorem same (h : before.Tidy) (htypes : after.types = before.types)
    (hsymbols : after.symbols = before.symbols) : after.Tidy :=
  h.addsTypes (htypes ▸ fun _ _ => rfl) (fun _ hdata => .inl (htypes ▸ hdata)) hsymbols

/-- A symbol without a type of its own is added. -/
theorem push (h : before.Tidy) (symbol : Symbol) (hsort : ¬symbol.sort.ownsType = true)
    (htypes : after.types = before.types) (hsymbols : after.symbols = before.symbols.push symbol) :
    after.Tidy :=
  h.holds (hsymbols ▸ .push Symbol.Grows.refl _ _) (htypes ▸ .refl TypeData.Holds.refl _)
    (fun _ hdata => .inl (htypes ▸ hdata)) (.push symbol hsort hsymbols)

/-- A new symbol is added with a type of its own. -/
theorem pushOwner (h : before.Tidy) {name : String} {sort : SymbolSort}
    {declarations : List Location} {data : TypeData}
    (howns : sort.Owns data) (hlists : before.Lists data)
    (htypes : after.types = (before.types.add data).2)
    (hsymbols : after.symbols =
      before.symbols.push ⟨name, sort, declarations, (before.types.add data).1⟩) :
    after.Tidy := by
  have hgrows : Continues Symbol.Grows before.symbols after.symbols :=
    hsymbols ▸ .push Symbol.Grows.refl _ _
  have hentries : after.types.entries = before.types.entries.push data :=
    congrArg TypeTable.entries htypes
  -- the owner of a type is the new symbol or has a type that was there
  have hcases {id : SymbolId} {symbol : Symbol} (hsymbol : after.symbol? id = some symbol)
      (hsort : symbol.sort.ownsType = true) :
      id = ⟨before.symbols.size⟩ ∧ symbol.type = ⟨before.types.entries.size⟩ ∧ symbol.sort = sort ∨
        before.symbol? id = some symbol ∧ symbol.type.index < before.types.entries.size := by
    have hpushed : (before.symbols.push ⟨name, sort, declarations,
      (before.types.add data).1⟩)[id.index]? = some symbol := hsymbols ▸ hsymbol
    rw [Array.getElem?_push] at hpushed
    split at hpushed
    · rename_i heq
      cases hpushed
      exact .inl ⟨congrArg SymbolId.mk heq, rfl, rfl⟩
    · obtain ⟨_, hentry, _⟩ := h.owns hpushed hsort
      exact .inr ⟨hpushed, (Array.getElem?_eq_some_iff.mp hentry).1⟩
  refine ⟨fun other hother => ?_, fun {id symbol} hsymbol hsort => ?_,
    fun {id id' symbol symbol'} hsymbol hsymbol' hsort hsort' heq => ?_⟩
  · rw [hentries] at hother
    rcases Array.mem_push.mp hother with hold | rfl
    · exact (h.lists other hold).mono hgrows
    · exact hlists.mono hgrows
  · rw [hentries]
    rcases hcases hsymbol hsort with ⟨-, htype, hsame⟩ | ⟨hold, hlt⟩
    · rw [htype, hsame]
      exact ⟨data, Array.getElem?_push_size, howns⟩
    · obtain ⟨other, hentry, howns'⟩ := h.owns hold hsort
      exact ⟨other, by rw [Array.getElem?_push, if_neg (Nat.ne_of_lt hlt), hentry], howns'⟩
  · rcases hcases hsymbol hsort with ⟨hid, htype, -⟩ | ⟨hold, hlt⟩
    · rcases hcases hsymbol' hsort' with ⟨hid', -⟩ | ⟨-, hlt'⟩
      · rw [hid, hid']
      · rw [← heq, htype] at hlt'
        exact absurd hlt' (Nat.lt_irrefl _)
    · rcases hcases hsymbol' hsort' with ⟨-, htype', -⟩ | ⟨hold', -⟩
      · rw [heq, htype'] at hlt
        exact absurd hlt (Nat.lt_irrefl _)
      · exact h.apart hold hold' hsort hsort' heq

/-- Symbols change, but those with types of their own keep them. -/
theorem modify (h : before.Tidy) {id : SymbolId} {f : Symbol → Symbol}
    (htypes : after.types = before.types)
    (hsymbols : after.symbols = before.symbols.modify id.index f)
    (hf : ∀ symbol : Symbol, symbol.Grows (f symbol))
    (htype : ∀ symbol, before.symbol? id = some symbol → symbol.sort.ownsType = true →
      (f symbol).type = symbol.type) : after.Tidy :=
  h.holds (hsymbols ▸ .modify Symbol.Grows.refl _ _ hf)
    (htypes ▸ .refl TypeData.Holds.refl _) (fun _ hdata => .inl (htypes ▸ hdata))
    (.modify hsymbols (fun symbol => (hf symbol).sort) htype)

/-- An object is changed so that it stays owned and lists its members by name. -/
theorem updateObject (h : before.Tidy) {id : TypeId} {name? : Option String}
    {members : SymbolTable SymbolId} {signatures : List Signature}
    (hentry : before.types.entries[id.index]? = some (.object name? members signatures))
    {f : SymbolTable SymbolId → List Signature → SymbolTable SymbolId × List Signature}
    (howns : ∀ sort : SymbolSort, sort.Owns (.object name? members signatures) →
      sort.Owns (.object name? (f members signatures).1 (f members signatures).2))
    (hmembers : before.Names (f members signatures).1)
    (htypes : after.types = before.types.updateObject id f)
    (hsymbols : after.symbols = before.symbols) : after.Tidy := by
  have hgrows : Continues Symbol.Grows before.symbols after.symbols :=
    hsymbols ▸ .refl Symbol.Grows.refl _
  refine h.continues hgrows ?_ (fun data hdata => ?_) (.of_symbols hsymbols)
  · rw [htypes]
    exact TypeTable.updateObject_continues (fun _ _ howns => howns) hentry howns
  · rw [htypes] at hdata
    simp only [TypeTable.updateObject] at hdata
    rcases mem_modify_cases hdata with hold | ⟨found, hfound, rfl⟩
    · exact .inl hold
    · cases hentry.symm.trans hfound
      exact .inr (hmembers.mono hgrows)

/-- A named object is given members that have the names they are listed under. -/
theorem setMembers (h : before.Tidy) {id : TypeId} {name : String} {old : SymbolTable SymbolId}
    {signatures : List Signature}
    (hentry : before.types.entries[id.index]? = some (.object (some name) old signatures))
    {members : SymbolTable SymbolId} (hmembers : before.Names members)
    (htypes : after.types = before.types.setMembers id members)
    (hsymbols : after.symbols = before.symbols) : after.Tidy := by
  refine h.updateObject hentry (fun sort howns => ?_) hmembers htypes hsymbols
  cases howns
  exact .interface

/-- A method gets one more signature. -/
theorem addSignature (h : before.Tidy) {id : TypeId} {signatures : List Signature}
    (hentry : before.types.entries[id.index]? = some (.object none .empty signatures))
    {signature : Signature} (htypes : after.types = before.types.addSignature id signature)
    (hsymbols : after.symbols = before.symbols) : after.Tidy := by
  refine h.updateObject hentry (fun sort howns => ?_) (.empty before) htypes hsymbols
  cases howns
  exact .method

end Tidy

/-- The program without files is tidy. -/
theorem empty_tidy : Program.empty.Tidy where
  lists data hdata := by
    have hempty : ∀ data ∈ TypeTable.initial.entries, Program.empty.Lists data := by
      simp [TypeTable.initial, TypeData.named, Lists, Names.empty]
    exact hempty data hdata
  owns {id symbol} hsymbol hsort := by
    obtain rfl := List.mem_singleton.mp (Array.mem_toList_iff.mpr (Array.mem_of_getElem? hsymbol))
    cases hsort
  apart {id id' symbol symbol'} hsymbol _ hsort := by
    obtain rfl := List.mem_singleton.mp (Array.mem_toList_iff.mpr (Array.mem_of_getElem? hsymbol))
    cases hsort

end Program

end ExpressionTyping
