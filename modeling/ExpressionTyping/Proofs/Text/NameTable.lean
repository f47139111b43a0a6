import ExpressionTyping.Program.Basic
import ExpressionTyping.Text.NameTable
import Mathlib.Data.List.Dedup
import Mathlib.Data.List.Forall2
import Mathlib.Data.List.Nodup
import Mathlib.Logic.Function.Basic

/-!
# Names and their handles

Scopes are keyed by names. They can as well be keyed by the handles that a name table gives, so that
a look-up compares numbers. Two names never share a handle and a handle stays good while more names
are entered; so a table keyed by handles stands for the one keyed by names (`HandleTable.Stands`),
and a name leads to the same value in both. Any number of scopes may share one name table, and
however their declarations follow each other, look-ups by handle are look-ups by name
(`KeyedScopes.run_get?`). A program whose scopes are so keyed resolves names by handles
(`Program.KeyedBy.resolveValue?_eq`).
-/

set_option autoImplicit false

namespace ExpressionTyping

/-! ## Handles -/

namespace NameTable

variable {table : NameTable} {name other : String} {handle : Nat}

/-- No name is held twice. -/
def Distinct (table : NameTable) : Prop :=
  table.names.Nodup

/-- The table that holds no name holds none twice. -/
theorem empty_distinct : empty.Distinct :=
  List.nodup_nil

/-- A name has no handle if it was not entered. -/
theorem handle?_eq_none_iff : table.handle? name = none ↔ name ∉ table.names := by
  rw [handle?, List.findIdx?_eq_none_iff]
  refine ⟨fun h hmem => ?_, fun h other hother => ?_⟩
  · simpa using h name hmem
  · exact beq_false_of_ne fun heq => h (heq ▸ hother)

/-- The handle of a name is the one that the name is behind. -/
theorem Distinct.handle?_eq_some_iff (h : table.Distinct) :
    table.handle? name = some handle ↔ table.name? handle = some name := by
  rw [handle?, List.findIdx?_eq_some_iff_getElem, name?, List.getElem?_eq_some_iff]
  refine exists_congr fun hlt => ?_
  rw [beq_iff_eq]
  refine and_iff_left_of_imp fun hname index hindex hsame => ?_
  have heq : table.names[index] = table.names[handle] := (beq_iff_eq.mp hsame).trans hname.symm
  exact Nat.ne_of_lt hindex ((List.Nodup.getElem_inj_iff h).mp heq)

/-- A name that is entered has a handle already, or it gets the next one. -/
theorem intern_cases (table : NameTable) (name : String) :
    (∃ handle, table.handle? name = some handle ∧ table.intern name = (handle, table)) ∨
      name ∉ table.names ∧
        table.intern name = (table.names.length, ⟨table.names ++ [name]⟩) := by
  cases hhandle : table.handle? name with
  | some handle => exact .inl ⟨handle, rfl, by rw [intern, hhandle]⟩
  | none => exact .inr ⟨handle?_eq_none_iff.mp hhandle, by rw [intern, hhandle]⟩

/-- A name that is entered is held once. -/
theorem Distinct.intern (h : table.Distinct) (name : String) :
    (table.intern name).2.Distinct := by
  rcases table.intern_cases name with ⟨handle, -, heq⟩ | ⟨hnew, heq⟩
  · rw [heq]
    exact h
  · rw [heq]
    exact List.concat_eq_append ▸ List.Nodup.concat hnew h

/-- Handles stay good when a name is entered. -/
theorem name?_intern_of_some (h : table.name? handle = some other) (name : String) :
    (table.intern name).2.name? handle = some other := by
  rcases table.intern_cases name with ⟨_, -, heq⟩ | ⟨-, heq⟩
  · rw [heq]
    exact h
  · rw [heq]
    exact (List.getElem?_append_left (List.getElem?_eq_some_iff.mp h).1).trans h

/-- A name that is entered is behind its handle. -/
theorem Distinct.name?_intern (h : table.Distinct) (name : String) :
    (table.intern name).2.name? (table.intern name).1 = some name := by
  rcases table.intern_cases name with ⟨handle, hhandle, heq⟩ | ⟨-, heq⟩
  · rw [heq]
    exact h.handle?_eq_some_iff.mp hhandle
  · rw [heq]
    exact List.getElem?_concat_length

end NameTable

/-! ## Tables keyed by handles -/

/-- Handles with their values, in order of first entry. -/
structure HandleTable (α : Type) where
  /-- The entries. -/
  entries : List (Nat × α)

namespace HandleTable

variable {α : Type} {names later : NameTable} {keyed : HandleTable α} {table : SymbolTable α}

/-- The table without entries. -/
def empty : HandleTable α := ⟨[]⟩

/-- The value of a handle. -/
def get? (keyed : HandleTable α) (handle : Nat) : Option α :=
  keyed.entries.lookup handle

/-- Replaces the value of a handle, or adds it at the end. -/
def insertEntry (handle : Nat) (value : α) : List (Nat × α) → List (Nat × α)
  | [] => [(handle, value)]
  | entry :: rest =>
    if entry.1 == handle then (handle, value) :: rest
    else entry :: insertEntry handle value rest

/-- Gives a handle a value. -/
def insert (keyed : HandleTable α) (handle : Nat) (value : α) : HandleTable α :=
  ⟨insertEntry handle value keyed.entries⟩

/-- A table keyed by handles stands for one keyed by names: in both the same values stand in the same
order, under a handle and under the name behind it. -/
def Stands (names : NameTable) (keyed : HandleTable α) (table : SymbolTable α) : Prop :=
  List.Forall₂ (fun entry named => names.name? entry.1 = some named.1 ∧ entry.2 = named.2)
    keyed.entries table.entries

/-- Tables without entries stand for each other. -/
theorem empty_stands (names : NameTable) :
    Stands names (empty : HandleTable α) SymbolTable.empty :=
  .nil

/-- A table still stands for another when more names are entered. -/
theorem Stands.mono (h : Stands names keyed table)
    (hlater : ∀ handle name, names.name? handle = some name → later.name? handle = some name) :
    Stands later keyed table :=
  h.imp fun _ _ hentry => ⟨hlater _ _ hentry.1, hentry.2⟩

/-- Two handles are the same if the same name is behind them. -/
theorem beq_eq (h : names.Distinct) {handle handle' : Nat} {name name' : String}
    (hname : names.name? handle = some name) (hname' : names.name? handle' = some name') :
    (handle == handle') = (name == name') := by
  rw [Bool.eq_iff_iff, beq_iff_eq, beq_iff_eq]
  refine ⟨?_, ?_⟩
  · rintro rfl
    exact Option.some.inj (hname.symm.trans hname')
  · rintro rfl
    rw [← h.handle?_eq_some_iff] at hname hname'
    exact Option.some.inj (hname.symm.trans hname')

/-- A handle leads where the name behind it leads. -/
theorem Stands.get?_eq (h : Stands names keyed table) (hdistinct : names.Distinct) {handle : Nat}
    {name : String} (hname : names.name? handle = some name) :
    keyed.get? handle = table.get? name := by
  obtain ⟨entries⟩ := keyed
  obtain ⟨named⟩ := table
  show entries.lookup handle = named.lookup name
  change List.Forall₂ _ entries named at h
  induction h with
  | nil => rfl
  | cons hentry _ ih =>
    rw [List.lookup_cons, List.lookup_cons, beq_eq hdistinct hname hentry.1, hentry.2, ih]

/-- A name leads where it leads by its handle, and nowhere if it has none. -/
theorem Stands.get?_name (h : Stands names keyed table) (hdistinct : names.Distinct)
    (name : String) : (names.handle? name).bind keyed.get? = table.get? name := by
  cases hhandle : names.handle? name with
  | some handle => exact h.get?_eq hdistinct (hdistinct.handle?_eq_some_iff.mp hhandle)
  | none =>
    have hnew := NameTable.handle?_eq_none_iff.mp hhandle
    obtain ⟨entries⟩ := keyed
    obtain ⟨named⟩ := table
    show none = named.lookup name
    change List.Forall₂ _ entries named at h
    induction h with
    | nil => rfl
    | @cons entry namedEntry _ _ hentry _ ih =>
      have hne : name ≠ namedEntry.1 := fun heq => hnew (heq ▸ List.mem_of_getElem? hentry.1)
      rw [List.lookup_cons, beq_false_of_ne hne]
      exact ih

/-- An entry is made in both tables alike. -/
theorem Stands.insert (h : Stands names keyed table) (hdistinct : names.Distinct) {handle : Nat}
    {name : String} (hname : names.name? handle = some name) (value : α) :
    Stands names (keyed.insert handle value) (table.insert name value) := by
  obtain ⟨entries⟩ := keyed
  obtain ⟨named⟩ := table
  show List.Forall₂ _ (insertEntry handle value entries) (SymbolTable.insertEntry name value named)
  change List.Forall₂ _ entries named at h
  induction h with
  | nil => exact .cons ⟨hname, rfl⟩ .nil
  | cons hentry hrest ih =>
    rw [insertEntry, SymbolTable.insertEntry, beq_eq hdistinct hentry.1 hname]
    split
    · exact .cons ⟨hname, rfl⟩ hrest
    · exact .cons hentry ih

/-- Over a name table that holds all its names, a table keyed by names has one keyed by handles that
stands for it. -/
theorem exists_stands (names : NameTable) (table : SymbolTable α)
    (h : ∀ name ∈ table.names, name ∈ names.names) : ∃ keyed, Stands names keyed table := by
  refine ⟨⟨table.entries.map fun entry => (names.names.idxOf entry.1, entry.2)⟩, ?_⟩
  refine List.forall₂_map_left_iff.mpr (List.forall₂_same.mpr fun entry hentry => ⟨?_, rfl⟩)
  exact List.getElem?_idxOf (h _ (List.mem_map_of_mem hentry))

end HandleTable

/-! ## Scopes over one name table -/

/-- Tables of several scopes, keyed by the handles of one name table. -/
structure KeyedScopes (ι α : Type) where
  /-- The names. -/
  names : NameTable
  /-- The table of each scope. -/
  tables : ι → HandleTable α

namespace KeyedScopes

variable {ι α : Type} {scopes : KeyedScopes ι α} {named : ι → SymbolTable α}

/-- Scopes in which nothing is declared. -/
def empty : KeyedScopes ι α := ⟨.empty, fun _ => .empty⟩

/-- The value that a name has in a scope. -/
def get? (scopes : KeyedScopes ι α) (scope : ι) (name : String) : Option α :=
  (scopes.names.handle? name).bind (scopes.tables scope).get?

/-- The scopes stand for tables keyed by names. -/
structure Stands (scopes : KeyedScopes ι α) (named : ι → SymbolTable α) : Prop where
  distinct : scopes.names.Distinct
  stands : ∀ scope, (scopes.tables scope).Stands scopes.names (named scope)

/-- Scopes in which nothing is declared stand for tables without entries. -/
theorem empty_stands : Stands (empty : KeyedScopes ι α) fun _ => .empty :=
  ⟨NameTable.empty_distinct, fun _ => HandleTable.empty_stands _⟩

/-- In every scope a name has the value that it has in the table keyed by names. -/
theorem Stands.get?_eq (h : scopes.Stands named) (scope : ι) (name : String) :
    scopes.get? scope name = (named scope).get? name :=
  (h.stands scope).get?_name h.distinct name

variable [DecidableEq ι]

/-- Enters a name and declares it in a scope. -/
def declare (scopes : KeyedScopes ι α) (scope : ι) (name : String) (value : α) :
    KeyedScopes ι α :=
  let (handle, names) := scopes.names.intern name
  ⟨names, Function.update scopes.tables scope ((scopes.tables scope).insert handle value)⟩

/-- A declaration changes the table of its scope alone, as it does when tables are keyed by names. -/
theorem Stands.declare (h : scopes.Stands named) (scope : ι) (name : String) (value : α) :
    (scopes.declare scope name value).Stands
      (Function.update named scope ((named scope).insert name value)) where
  distinct := h.distinct.intern name
  stands other := by
    have hkept (other : ι) : (scopes.tables other).Stands (scopes.names.intern name).2
        (named other) :=
      (h.stands other).mono fun _ _ hother => NameTable.name?_intern_of_some hother name
    show (Function.update scopes.tables scope _ other).Stands _ _
    by_cases heq : other = scope
    · subst heq
      rw [Function.update_self, Function.update_self]
      exact (hkept other).insert (h.distinct.intern name) (h.distinct.name?_intern name) value
    · rw [Function.update_of_ne heq, Function.update_of_ne heq]
      exact hkept other

/-- The scopes after declarations, each in a scope of its own. -/
def run (scopes : KeyedScopes ι α) (declarations : List (ι × String × α)) : KeyedScopes ι α :=
  declarations.foldl (fun scopes made => scopes.declare made.1 made.2.1 made.2.2) scopes

/-- After any declarations the scopes stand for the tables in which the same was declared. -/
theorem Stands.run (h : scopes.Stands named) (declarations : List (ι × String × α)) :
    (scopes.run declarations).Stands fun scope =>
      ((declarations.filter (·.1 = scope)).map Prod.snd).foldl
        (fun table entry => table.insert entry.1 entry.2) (named scope) := by
  induction declarations generalizing scopes named with
  | nil => exact h
  | cons made rest ih =>
    have hrest := ih (h.declare made.1 made.2.1 made.2.2)
    refine ⟨hrest.distinct, fun scope => ?_⟩
    have hstands := hrest.stands scope
    by_cases heq : made.1 = scope
    · subst heq
      rw [Function.update_self] at hstands
      rw [List.filter_cons_of_pos (by simp)]
      exact hstands
    · rw [Function.update_of_ne (Ne.symm heq)] at hstands
      rw [List.filter_cons_of_neg (by simpa using heq)]
      exact hstands

/-- Whatever is declared in scopes over one name table, a name has in each of them the value that it
has in the table that is filled with what is declared there. -/
theorem run_get? (declarations : List (ι × String × α)) (scope : ι) (name : String) :
    (empty.run declarations).get? scope name =
      (SymbolTable.ofList ((declarations.filter (·.1 = scope)).map Prod.snd)).get? name :=
  (empty_stands.run declarations).get?_eq scope name

end KeyedScopes

/-! ## Programs -/

/-- The two meanings that a name can have in a scope. -/
inductive Meaning where
  /-- A value. -/
  | value
  /-- A type. -/
  | type

/-- The names that have a meaning in a scope. -/
def Scope.named (scope : Scope) : Meaning → SymbolTable SymbolId
  | .value => scope.values
  | .type => scope.types

namespace Program

/-- The scopes of a program, in both meanings of names, keyed by the handles of one name table. -/
def KeyedBy (program : Program) (scopes : KeyedScopes (ScopeId × Meaning) SymbolId) : Prop :=
  scopes.Stands fun place => (program.scope place.1).named place.2

/-- The scopes of every program can be keyed by handles. -/
theorem exists_keyedBy (program : Program) : ∃ scopes, program.KeyedBy scopes := by
  let entered := program.scopes.toList.flatMap fun scope => scope.values.names ++ scope.types.names
  let names : NameTable := ⟨entered.dedup⟩
  have hnames (place : ScopeId × Meaning) :
      ∀ name ∈ ((program.scope place.1).named place.2).names, name ∈ names.names := by
    intro name hname
    refine List.mem_dedup.mpr ?_
    rw [scope] at hname
    cases hscope : program.scopes[place.1.index]? with
    | none =>
      -- nothing is declared in a scope that is not there
      rw [hscope] at hname
      cases hmeaning : place.2 <;> rw [hmeaning] at hname <;> cases hname
    | some found =>
      rw [hscope] at hname
      refine List.mem_flatMap.mpr ⟨found, ?_, ?_⟩
      · exact Array.mem_toList_iff.mpr (Array.mem_of_getElem? hscope)
      · refine List.mem_append.mpr ?_
        cases hmeaning : place.2 <;> rw [hmeaning] at hname
        · exact .inl hname
        · exact .inr hname
  choose tables htables using fun place => HandleTable.exists_stands names _ (hnames place)
  exact ⟨⟨names, tables⟩, List.nodup_dedup _, htables⟩

variable {program : Program} {scopes : KeyedScopes (ScopeId × Meaning) SymbolId}

/-- The value that a name means in a scope is found by its handle. -/
theorem KeyedBy.resolveValue?_eq (h : program.KeyedBy scopes) (scope : ScopeId) (name : String) :
    ((program.outward scope).findSome? fun id => scopes.get? (id, .value) name) =
      program.resolveValue? scope name := by
  rw [resolveValue?]
  exact congrArg (List.findSome? · _) (funext fun id => h.get?_eq (id, .value) name)

/-- The type that a name means in a scope is found by its handle. -/
theorem KeyedBy.resolveType?_eq (h : program.KeyedBy scopes) (scope : ScopeId) (name : String) :
    ((program.outward scope).findSome? fun id => scopes.get? (id, .type) name) =
      program.resolveType? scope name := by
  rw [resolveType?]
  exact congrArg (List.findSome? · _) (funext fun id => h.get?_eq (id, .type) name)

end Program

end ExpressionTyping
