import ExpressionTyping.Proofs.Grammar.FilePlacement
import ExpressionTyping.Proofs.Program.Guarded
import ExpressionTyping.Proofs.Program.Stability

/-!
# Well-formed programs

In a well-formed program every place that is written down anywhere is there: types refer to types
and symbols, scopes to symbols and types, files to scopes and symbols. The name under which a scope
knows a symbol is the name of the symbol; the scopes around a scope are earlier ones of the same
file; and the bounds of scopes are in order.

Building a program only ever adds to it (`Program.Extends`), so what was there stays there; and as
long as no symbol is resolved, symbols keep their types (`Program.Keeps`).
-/

set_option autoImplicit false

namespace ExpressionTyping

/-! ## Arrays that go on -/

/-- Each element is related to the one at its place in a later array. -/
def Continues {α : Type} (R : α → α → Prop) (before after : Array α) : Prop :=
  ∀ (i : Nat) a, before[i]? = some a → ∃ a', after[i]? = some a' ∧ R a a'

namespace Continues

variable {α : Type} {R : α → α → Prop} {before after : Array α}

/-- An array goes on as itself. -/
theorem refl (hR : ∀ a, R a a) (xs : Array α) : Continues R xs xs :=
  fun _ a ha => ⟨a, ha, hR a⟩

/-- Going on twice is going on. -/
theorem trans (hR : ∀ a b c, R a b → R b c → R a c) {later : Array α}
    (h : Continues R before after) (h' : Continues R after later) : Continues R before later := by
  intro i a ha
  obtain ⟨b, hb, hab⟩ := h i a ha
  obtain ⟨c, hc, hbc⟩ := h' i b hb
  exact ⟨c, hc, hR a b c hab hbc⟩

/-- An array that goes on by one relation does so by every weaker one. -/
theorem imp {S : α → α → Prop} (h : Continues R before after) (himp : ∀ a b, R a b → S a b) :
    Continues S before after := by
  intro i a ha
  obtain ⟨b, hb, hab⟩ := h i a ha
  exact ⟨b, hb, himp a b hab⟩

/-- An array goes on with one more element. -/
theorem push (hR : ∀ a, R a a) (xs : Array α) (x : α) : Continues R xs (xs.push x) := by
  intro i a ha
  have hne : i ≠ xs.size := Nat.ne_of_lt (Array.getElem?_eq_some_iff.mp ha).1
  exact ⟨a, by rw [Array.getElem?_push, if_neg hne, ha], hR a⟩

/-- An array goes on when one element is changed as the relation allows. -/
theorem modify (hR : ∀ a, R a a) (xs : Array α) (i : Nat) {f : α → α} (hf : ∀ a, R a (f a)) :
    Continues R xs (xs.modify i f) := by
  intro j a ha
  rw [Array.getElem?_modify, ha]
  split
  · exact ⟨f a, rfl, hf a⟩
  · exact ⟨a, rfl, hR a⟩

/-- An array that goes on has at least as many elements. -/
theorem size_le (h : Continues R before after) : before.size ≤ after.size := by
  apply Nat.le_of_not_lt
  intro hlt
  obtain ⟨_, hsome, -⟩ := h after.size _ (Array.getElem?_eq_getElem hlt)
  rw [Array.getElem?_eq_none (Nat.le_refl _)] at hsome
  cases hsome

/-- What is in the array already is in the later one, up to the relation. -/
theorem exists_mem (h : Continues R before after) {a : α} (ha : a ∈ before) :
    ∃ a' ∈ after, R a a' := by
  obtain ⟨i, hi⟩ := Array.mem_iff_getElem?.mp ha
  obtain ⟨a', ha', hR⟩ := h i a hi
  exact ⟨a', Array.mem_of_getElem? ha', hR⟩

end Continues

/-- An element after a change is an earlier one or the changed one. -/
theorem mem_modify_cases {α : Type} {xs : Array α} {i : Nat} {f : α → α} {x : α}
    (h : x ∈ xs.modify i f) : x ∈ xs ∨ ∃ y, xs[i]? = some y ∧ x = f y := by
  obtain ⟨j, hj⟩ := Array.mem_iff_getElem?.mp h
  rw [Array.getElem?_modify] at hj
  split at hj
  · obtain ⟨y, hy, rfl⟩ := Option.map_eq_some_iff.mp hj
    rename_i hij
    subst hij
    exact .inr ⟨y, hy, rfl⟩
  · exact .inl (Array.mem_of_getElem? hj)

/-! ## Programs that go on -/

/-- A symbol keeps its name and its sort and gets more places where it is declared. -/
structure Symbol.Grows (symbol later : Symbol) : Prop where
  name : later.name = symbol.name
  sort : later.sort = symbol.sort
  declarations : symbol.declarations <+: later.declarations

/-- A symbol keeps its type. -/
def Symbol.KeepsType (symbol later : Symbol) : Prop :=
  later.type = symbol.type

/-- A scope keeps its place among the others and its bounds. -/
structure Scope.Grows (scope later : Scope) : Prop where
  enclosing : later.enclosing = scope.enclosing
  span : later.span = scope.span

/-- A file gets more scopes. -/
structure FileInfo.Grows (info later : FileInfo) : Prop where
  scopes : info.scopes ⊆ later.scopes

/-- A symbol that stays has grown. -/
theorem Symbol.Grows.refl (symbol : Symbol) : symbol.Grows symbol :=
  ⟨rfl, rfl, List.prefix_rfl⟩

/-- Growing twice is growing, for symbols. -/
theorem Symbol.Grows.trans {a b c : Symbol} (h : a.Grows b) (h' : b.Grows c) : a.Grows c :=
  ⟨h'.name.trans h.name, h'.sort.trans h.sort, h.declarations.trans h'.declarations⟩

/-- A symbol that stays keeps its type. -/
theorem Symbol.KeepsType.refl (symbol : Symbol) : symbol.KeepsType symbol :=
  rfl

/-- A scope that stays has grown. -/
theorem Scope.Grows.refl (scope : Scope) : scope.Grows scope :=
  ⟨rfl, rfl⟩

/-- Growing twice is growing, for scopes. -/
theorem Scope.Grows.trans {a b c : Scope} (h : a.Grows b) (h' : b.Grows c) : a.Grows c :=
  ⟨h'.enclosing.trans h.enclosing, h'.span.trans h.span⟩

/-- A file that stays has grown. -/
theorem FileInfo.Grows.refl (info : FileInfo) : info.Grows info :=
  ⟨List.Subset.refl _⟩

/-- Growing twice is growing, for files. -/
theorem FileInfo.Grows.trans {a b c : FileInfo} (h : a.Grows b) (h' : b.Grows c) : a.Grows c :=
  ⟨List.Subset.trans h.scopes h'.scopes⟩

namespace Program

/-- There is a type at a place. -/
def HasType (program : Program) (id : TypeId) : Prop :=
  id.index < program.types.entries.size

/-- There is a symbol at a place. -/
def HasSymbol (program : Program) (id : SymbolId) : Prop :=
  id.index < program.symbols.size

/-- There is a scope at a place. -/
def HasScope (program : Program) (id : ScopeId) : Prop :=
  id.index < program.scopes.size

/-- There is a file at a place. -/
def HasFile (program : Program) (id : FileId) : Prop :=
  id.index < program.files.size

/-- One program is reached from another by adding to it. -/
structure Extends (before after : Program) : Prop where
  types : before.types.entries.size ≤ after.types.entries.size := by exact Nat.le_refl _
  symbols : Continues Symbol.Grows before.symbols after.symbols := by
    exact .refl Symbol.Grows.refl _
  scopes : Continues Scope.Grows before.scopes after.scopes := by exact .refl Scope.Grows.refl _
  files : Continues FileInfo.Grows before.files after.files := by
    exact .refl FileInfo.Grows.refl _

/-- One program is reached from another by adding to it, and the symbols keep their types. -/
structure Keeps (before after : Program) : Prop extends Extends before after where
  symbolTypes : Continues Symbol.KeepsType before.symbols after.symbols := by
    exact .refl Symbol.KeepsType.refl _

namespace Extends

/-- Every program extends itself. -/
theorem refl (program : Program) : program.Extends program where

variable {before after : Program} (h : before.Extends after)
include h

/-- Extending twice is extending. -/
theorem trans {later : Program} (h' : after.Extends later) : before.Extends later :=
  ⟨Nat.le_trans h.types h'.types,
    h.symbols.trans (R := Symbol.Grows) (fun _ _ _ => Symbol.Grows.trans) h'.symbols,
    h.scopes.trans (R := Scope.Grows) (fun _ _ _ => Scope.Grows.trans) h'.scopes,
    h.files.trans (R := FileInfo.Grows) (fun _ _ _ => FileInfo.Grows.trans) h'.files⟩

/-- A type that is there stays there. -/
theorem hasType {id : TypeId} (hid : before.HasType id) : after.HasType id :=
  Nat.lt_of_lt_of_le hid h.types

/-- A symbol that is there stays there. -/
theorem hasSymbol {id : SymbolId} (hid : before.HasSymbol id) : after.HasSymbol id :=
  Nat.lt_of_lt_of_le hid h.symbols.size_le

/-- A scope that is there stays there. -/
theorem hasScope {id : ScopeId} (hid : before.HasScope id) : after.HasScope id :=
  Nat.lt_of_lt_of_le hid h.scopes.size_le

/-- A file that is there stays there. -/
theorem hasFile {id : FileId} (hid : before.HasFile id) : after.HasFile id :=
  Nat.lt_of_lt_of_le hid h.files.size_le

end Extends

namespace Keeps

/-- Every program keeps what it has. -/
theorem refl (program : Program) : program.Keeps program where

/-- Keeping twice is keeping. -/
theorem trans {before after later : Program} (h : before.Keeps after) (h' : after.Keeps later) :
    before.Keeps later :=
  ⟨h.toExtends.trans h'.toExtends,
    h.symbolTypes.trans (fun _ _ _ hab hbc => hbc.trans hab) h'.symbolTypes⟩

/-- Where types of symbols are kept, a symbol has the type it had. -/
theorem symbol_type {before after : Program} (h : before.Keeps after) {id : SymbolId}
    (hid : before.HasSymbol id) : (after.symbol id).type = (before.symbol id).type := by
  have hbefore := Array.getElem?_eq_getElem hid
  obtain ⟨symbol, hafter, htype⟩ := h.symbolTypes id.index _ hbefore
  rw [Program.symbol_of_symbols hbefore, Program.symbol_of_symbols hafter]
  exact htype

end Keeps

/-! ## Look-ups that do not fail -/

/-- The look-up of a type that is there gives it. -/
theorem HasType.get? {program : Program} {id : TypeId} (h : program.HasType id) :
    program.types.get? id = some (program.types.get id) := by
  have hentry := Array.getElem?_eq_getElem h
  rw [TypeTable.get_of_entries hentry]
  exact hentry

/-- The look-up of a symbol that is there gives it. -/
theorem HasSymbol.symbol? {program : Program} {id : SymbolId} (h : program.HasSymbol id) :
    program.symbol? id = some (program.symbol id) := by
  have hsymbol := Array.getElem?_eq_getElem h
  rw [symbol_of_symbols hsymbol]
  exact hsymbol

/-- The look-up of a scope that is there gives it. -/
theorem HasScope.scope? {program : Program} {id : ScopeId} (h : program.HasScope id) :
    program.scope? id = some (program.scope id) := by
  have hscope := Array.getElem?_eq_getElem h
  rw [scope_of_scopes hscope]
  exact hscope

/-- The look-up of a file that is there gives one. -/
theorem HasFile.file? {program : Program} {id : FileId} (h : program.HasFile id) :
    ∃ info, program.file? id = some info :=
  ⟨_, Array.getElem?_eq_getElem h⟩

/-- A symbol whose look-up gives something is there and is what it gives. -/
theorem HasSymbol.of_symbol? {program : Program} {id : SymbolId} {symbol : Symbol}
    (h : program.symbol? id = some symbol) : program.HasSymbol id ∧ program.symbol id = symbol :=
  ⟨(Array.getElem?_eq_some_iff.mp h).1, symbol_of_symbols h⟩

/-- A scope whose look-up gives something is there and is what it gives. -/
theorem HasScope.of_scope? {program : Program} {id : ScopeId} {scope : Scope}
    (h : program.scope? id = some scope) : program.HasScope id ∧ program.scope id = scope :=
  ⟨(Array.getElem?_eq_some_iff.mp h).1, scope_of_scopes h⟩

end Program

/-- Steps that all give the values of a function give the mapped list. -/
theorem mapM_eq_some {α β : Type} {f : α → Option β} {g : α → β} {xs : List α}
    (h : ∀ x ∈ xs, f x = some (g x)) : xs.mapM f = some (xs.map g) := by
  induction xs with
  | nil => rfl
  | cons x rest ih =>
    rw [List.mapM_cons, h x List.mem_cons_self, ih fun y hy => h y (List.mem_cons_of_mem x hy)]
    rfl

/-- The look-up of types that are there gives all of them. -/
theorem TypeTable.getAll?_eq {program : Program} {ids : List TypeId}
    (h : ∀ id ∈ ids, program.HasType id) :
    program.types.getAll? ids = some (ids.map program.types.get) :=
  mapM_eq_some fun id hid => (h id hid).get?

/-- The bounds of a span in a text are in order. -/
theorem Span.ofBounds?_of_within {span : Span} {length : Nat} (h : span.Within length) :
    Span.ofBounds? span.start span.stop = some span :=
  if_pos h.ordered

/-! ## Well-formedness -/

/-- The names in a table are those of the symbols they stand for. -/
def SymbolTable.Names (program : Program) (table : SymbolTable SymbolId) : Prop :=
  ∀ entry ∈ table.entries, ∃ symbol, program.symbol? entry.2 = some symbol ∧ symbol.name = entry.1

/-- What a scope refers to is in the program, and its bounds are in order. The scopes around it are
the first of them and those around that one. -/
structure Scope.Fits (program : Program) (scope : Scope) : Prop where
  values : scope.values.Names program
  types : scope.types.Names program
  assignments : ∀ a ∈ scope.assignments, program.HasSymbol a.symbol ∧ program.HasType a.type
  ordered : scope.span.start ≤ scope.span.stop
  chain : ∀ parent rest, scope.enclosing = parent :: rest →
    ∃ outer, program.scope? parent = some outer ∧ outer.enclosing = rest

/-- What a file refers to is in the program, and the scopes around one of its scopes are earlier
ones of the file. -/
structure FileInfo.Fits (program : Program) (info : FileInfo) : Prop where
  declarations : ∀ entry ∈ info.declarations, program.HasSymbol entry.2
  scopes : ∀ id ∈ info.scopes, ∃ scope, program.scope? id = some scope ∧
    ∀ outer ∈ scope.enclosing, outer ∈ info.scopes ∧ outer.index < id.index

/-- Nothing in a program refers to a place where nothing stands. -/
structure Program.WellFormed (program : Program) : Prop where
  wellKnown : TypeTable.initial.entries.size ≤ program.types.entries.size
  length : program.HasSymbol lengthSymbol
  types : ∀ data ∈ program.types.entries,
    data.Within program.types.entries.size program.symbols.size
  symbols : ∀ symbol ∈ program.symbols, program.HasType symbol.type
  scopes : ∀ scope ∈ program.scopes, scope.Fits program
  files : ∀ info ∈ program.files, info.Fits program
  filed : ∀ id, program.HasScope id → ∃ info ∈ program.files, id ∈ info.scopes

section Mono

variable {before after : Program} (h : before.Extends after)
include h

/-- The names in a table stay right in programs that extend this one. -/
theorem SymbolTable.Names.mono {table : SymbolTable SymbolId} (hnames : table.Names before) :
    table.Names after := by
  intro entry hentry
  obtain ⟨symbol, hsymbol, hname⟩ := hnames entry hentry
  obtain ⟨later, hlater, hgrows⟩ := h.symbols _ _ hsymbol
  exact ⟨later, hlater, hgrows.name.trans hname⟩

/-- A scope still fits in programs that extend this one. -/
theorem Scope.Fits.mono {scope : Scope} (hfits : scope.Fits before) : scope.Fits after where
  values := hfits.values.mono h
  types := hfits.types.mono h
  assignments a ha := ⟨h.hasSymbol (hfits.assignments a ha).1, h.hasType (hfits.assignments a ha).2⟩
  ordered := hfits.ordered
  chain parent rest heq := by
    obtain ⟨outer, houter, henclosing⟩ := hfits.chain parent rest heq
    obtain ⟨later, hlater, hgrows⟩ := h.scopes _ _ houter
    exact ⟨later, hlater, hgrows.enclosing.trans henclosing⟩

/-- A file still fits in programs that extend this one. -/
theorem FileInfo.Fits.mono {info : FileInfo} (hfits : info.Fits before) : info.Fits after where
  declarations entry hentry := h.hasSymbol (hfits.declarations entry hentry)
  scopes id hid := by
    obtain ⟨scope, hscope, houter⟩ := hfits.scopes id hid
    obtain ⟨later, hlater, hgrows⟩ := h.scopes _ _ hscope
    exact ⟨later, hlater, hgrows.enclosing ▸ houter⟩

end Mono

/-- A file gets one more scope, inside scopes that it has and that are earlier. -/
theorem FileInfo.Fits.addScope {program : Program} {info : FileInfo} (h : info.Fits program)
    {id : ScopeId} {scope : Scope} (hid : program.scope? id = some scope)
    (henclosing : scope.enclosing ⊆ info.scopes)
    (hearlier : ∀ outer ∈ scope.enclosing, outer.index < id.index) :
    FileInfo.Fits program { info with scopes := info.scopes ++ [id] } where
  declarations := h.declarations
  scopes id' hid' := by
    rcases List.mem_append.mp hid' with hmem | hmem
    · obtain ⟨scope', hscope', houter⟩ := h.scopes id' hmem
      refine ⟨scope', hscope', fun outer hout => ⟨?_, (houter outer hout).2⟩⟩
      exact List.mem_append_left _ (houter outer hout).1
    · obtain rfl := List.mem_singleton.mp hmem
      refine ⟨scope, hid, fun outer hout => ⟨?_, hearlier outer hout⟩⟩
      exact List.mem_append_left _ (henclosing hout)

namespace Program.WellFormed

variable {program : Program} (h : program.WellFormed)
include h

/-- The types that every program starts with are there. -/
theorem hasType_of_lt {id : TypeId} (hid : id.index < TypeTable.initial.entries.size) :
    program.HasType id :=
  Nat.lt_of_lt_of_le hid h.wellKnown

/-- The types of words are there. -/
theorem hasType_word (word : TypeWord) : program.HasType (.ofWord word) := by
  apply h.hasType_of_lt
  cases word <;> decide

/-- The type `any` is there. -/
theorem hasType_any : program.HasType .any :=
  h.hasType_word .any

/-- The type of a symbol that is there is there. -/
theorem symbol_type {id : SymbolId} (hid : program.HasSymbol id) :
    program.HasType (program.symbol id).type :=
  h.symbols _ (Array.mem_of_getElem? hid.symbol?)

/-- A type that is there refers to what is there. -/
theorem get_within {id : TypeId} (hid : program.HasType id) :
    (program.types.get id).Within program.types.entries.size program.symbols.size :=
  h.types _ (Array.mem_of_getElem? hid.get?)

/-- A scope that is there fits. -/
theorem scope_fits {id : ScopeId} (hid : program.HasScope id) : (program.scope id).Fits program :=
  h.scopes _ (Array.mem_of_getElem? hid.scope?)

/-- A type that is there is made of types that are there. -/
theorem constituents {id : TypeId} (hid : program.HasType id) :
    ∀ member ∈ program.types.constituents id, program.HasType member := by
  have hwithin := h.get_within hid
  unfold TypeTable.constituents
  split
  · rename_i members heq
    rw [heq] at hwithin
    exact hwithin
  · simpa using hid

/-- A type that is there is widened to one that is there. -/
theorem hasType_widen {id : TypeId} (hid : program.HasType id) :
    program.HasType (program.types.widen id) := by
  unfold TypeTable.widen
  split
  · exact h.hasType_word .string
  · exact h.hasType_word .number
  · exact h.hasType_word .boolean
  · exact hid

/-- The scopes around a scope are there. -/
theorem hasScope_outward {id : ScopeId} (hid : program.HasScope id) :
    ∀ outer ∈ program.outward id, program.HasScope outer := by
  intro outer houter
  rcases List.mem_cons.mp houter with rfl | houter
  · exact hid
  · obtain ⟨info, hinfo, hmem⟩ := h.filed id hid
    obtain ⟨scope, hscope, hall⟩ := (h.files info hinfo).scopes id hmem
    obtain ⟨-, rfl⟩ := HasScope.of_scope? hscope
    obtain ⟨scope', hscope', -⟩ := (h.files info hinfo).scopes outer (hall outer houter).1
    exact (HasScope.of_scope? hscope').1

end Program.WellFormed

/-- What is new in a program fits in there. -/
structure Program.Adds (before after : Program) : Prop extends Extends before after where
  newTypes : ∀ data ∈ after.types.entries, data ∈ before.types.entries ∨
      data.Within after.types.entries.size after.symbols.size := by
    exact fun _ h => .inl h
  newSymbols : ∀ symbol ∈ after.symbols, (∃ old ∈ before.symbols, symbol.type = old.type) ∨
      after.HasType symbol.type := by
    exact fun symbol h => .inl ⟨symbol, h, rfl⟩
  newScopes : ∀ scope ∈ after.scopes, scope ∈ before.scopes ∨ scope.Fits after := by
    exact fun _ h => .inl h
  newFiles : ∀ info ∈ after.files, info ∈ before.files ∨ info.Fits after := by
    exact fun _ h => .inl h
  newFiled : ∀ id, after.HasScope id →
      before.HasScope id ∨ ∃ info ∈ after.files, id ∈ info.scopes := by
    exact fun _ h => .inl h

/-- A well-formed program stays so if what is new in it fits in. -/
theorem Program.WellFormed.adds {before after : Program} (h : before.WellFormed)
    (hadds : before.Adds after) : after.WellFormed where
  wellKnown := Nat.le_trans h.wellKnown hadds.types
  length := hadds.hasSymbol h.length
  types data hdata := by
    rcases hadds.newTypes data hdata with hold | hnew
    · exact (h.types data hold).mono hadds.types hadds.symbols.size_le
    · exact hnew
  symbols symbol hsymbol := by
    rcases hadds.newSymbols symbol hsymbol with ⟨old, hold, heq⟩ | hnew
    · rw [heq]
      exact hadds.hasType (h.symbols old hold)
    · exact hnew
  scopes scope hscope := by
    rcases hadds.newScopes scope hscope with hold | hnew
    · exact (h.scopes scope hold).mono hadds.toExtends
    · exact hnew
  files info hinfo := by
    rcases hadds.newFiles info hinfo with hold | hnew
    · exact (h.files info hold).mono hadds.toExtends
    · exact hnew
  filed id hid := by
    rcases hadds.newFiled id hid with hold | hnew
    · obtain ⟨info, hinfo, hmem⟩ := h.filed id hold
      obtain ⟨later, hlater, hgrows⟩ := hadds.files.exists_mem hinfo
      exact ⟨later, hlater, hgrows.scopes hmem⟩
    · exact hnew

namespace Program.WellFormed

variable {s : Program} (h : s.WellFormed)
include h

/-- A program stays well-formed if only its types change, and those that are new fit in. -/
theorem addsTypes {types : TypeTable} (hext : s.Extends { s with types })
    (hnew : ∀ data ∈ types.entries, data ∈ s.types.entries ∨
      data.Within types.entries.size s.symbols.size) :
    Program.WellFormed { s with types } :=
  h.adds ⟨hext, hnew, fun symbol hsymbol => .inl ⟨symbol, hsymbol, rfl⟩, fun _ => .inl,
    fun _ => .inl, fun _ => .inl⟩

/-- A program stays well-formed if only its symbols change, and the types of those that are new are
there. -/
theorem addsSymbols {symbols : Array Symbol} (hext : s.Extends { s with symbols })
    (hnew : ∀ symbol ∈ symbols, (∃ old ∈ s.symbols, symbol.type = old.type) ∨
      s.HasType symbol.type) :
    Program.WellFormed { s with symbols } :=
  h.adds ⟨hext, fun _ => .inl, hnew, fun _ => .inl, fun _ => .inl, fun _ => .inl⟩

/-- A program stays well-formed if only its files change, and those that are new fit in. -/
theorem addsFiles {files : Array FileInfo} (hext : s.Extends { s with files })
    (hnew : ∀ info ∈ files, info ∈ s.files ∨ info.Fits { s with files }) :
    Program.WellFormed { s with files } :=
  h.adds ⟨hext, fun _ => .inl, fun symbol hsymbol => .inl ⟨symbol, hsymbol, rfl⟩, fun _ => .inl,
    hnew, fun _ => .inl⟩

end Program.WellFormed

/-- The program without files is well-formed. -/
theorem Program.empty_wellFormed : Program.empty.WellFormed where
  wellKnown := Nat.le_refl _
  length := Nat.zero_lt_one
  types _ hdata := TypeTable.initial_within _ hdata
  symbols symbol hsymbol := by
    rw [List.mem_singleton.mp (Array.mem_toList_iff.mpr hsymbol)]
    show 3 < 15
    decide
  scopes _ hscope := absurd hscope (Array.not_mem_empty _)
  files _ hinfo := absurd hinfo (Array.not_mem_empty _)
  filed _ hid := absurd hid (Nat.not_lt_zero _)

end ExpressionTyping
