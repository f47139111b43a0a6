import ExpressionTyping.Proofs.Program.Adding
import ExpressionTyping.Proofs.Program.Mirror

/-!
# Answers of a program that grows

A program that grows keeps what it holds, and what it holds refers to nothing beyond it. So what it
answers about its own files, symbols and types stays as it was: seen from any location of a file
that was there, the program before and the program after look alike at the very same places
(`Program.Sound.mirrors`).
-/

set_option autoImplicit false

namespace ExpressionTyping

namespace Program

/-- A type that stands in the program, at the same place in another one. -/
def SameType (program : Program) (a b : TypeId) : Prop :=
  b = a ∧ a.index < program.types.entries.size

/-- A symbol that stands in the program, at the same place in another one. -/
def SameSymbol (program : Program) (id id' : SymbolId) : Prop :=
  id' = id ∧ id.index < program.symbols.size

/-- The latest of assignments is one of them. -/
theorem mem_of_latest? {assignments : List Assignment} {a : Assignment}
    (h : latest? assignments = some a) : a ∈ assignments := by
  have hfound : ∀ a ∈ latest? assignments, a ∈ assignments := by
    refine List.foldlRecOn (motive := fun found => ∀ a ∈ found, a ∈ assignments) assignments _
      (fun _ hnone => by cases hnone) ?_
    intro found ih next hnext
    cases found with
    | none => exact fun _ heq => Option.some.inj heq ▸ hnext
    | some best =>
      simp only
      split
      · exact ih
      · exact fun _ heq => Option.some.inj heq ▸ hnext
  exact hfound a h

/-! ## What a closed program answers stands in it -/

namespace Closed

variable {program : Program} (h : program.Closed)
include h

/-- The type of a symbol that is there is there. -/
theorem type_lt {id : SymbolId} (hid : id.index < program.symbols.size) :
    (program.symbol id).type.index < program.types.entries.size := by
  have hsymbol : program.symbols[id.index]? = some program.symbols[id.index] :=
    Array.getElem?_eq_getElem hid
  rw [symbol_of_symbols hsymbol]
  exact h.symbols _ _ hsymbol

/-- A type that is there refers to what is there. -/
theorem get_within {id : TypeId} (hid : id.index < program.types.entries.size) :
    (program.types.get id).Within program.types.entries.size program.symbols.size := by
  have hdata : program.types.entries[id.index]? = some program.types.entries[id.index] :=
    Array.getElem?_eq_getElem hid
  rw [TypeTable.get_of_entries hdata]
  exact h.types _ _ hdata

/-- A scope at a location is there. -/
theorem scope_lt {location : Location} {id : ScopeId} (hid : id ∈ program.scopesAt location) :
    id.index < program.scopes.size := by
  unfold scopesAt at hid
  cases hinfo : program.files[location.file.index]? with
  | none =>
    rw [hinfo] at hid
    cases hid
  | some info =>
    rw [hinfo] at hid
    exact h.files _ _ hinfo id (List.mem_filter.mp hid).1

/-- The values in a scope at a location are there. -/
theorem scope_values {location : Location} {id : ScopeId} (hid : id ∈ program.scopesAt location) :
    ∀ entry ∈ (program.scope id).values.entries, entry.2.index < program.symbols.size := by
  have hscope := Array.getElem?_eq_getElem (h.scope_lt hid)
  rw [scope_of_scopes hscope]
  exact h.values _ _ hscope

/-- The types assigned in a scope at a location are there. -/
theorem scope_assignments {location : Location} {id : ScopeId}
    (hid : id ∈ program.scopesAt location) :
    ∀ a ∈ (program.scope id).assignments, a.type.index < program.types.entries.size := by
  have hscope := Array.getElem?_eq_getElem (h.scope_lt hid)
  rw [scope_of_scopes hscope]
  exact h.assignments _ _ hscope

/-- The symbols at a location are there. -/
theorem symbolsAt_lt {location : Location} :
    ∀ id ∈ program.symbolsAt location, id.index < program.symbols.size := by
  have hvisible : ∀ entry ∈ (program.visibleAt location).entries,
      entry.2.index < program.symbols.size := by
    refine SymbolTable.forall_mem_ofList (P := fun id : SymbolId => id.index < _) ?_
    intro entry hentry
    obtain ⟨scope, hscope, hvalue⟩ := List.mem_flatMap.mp hentry
    exact h.scope_values hscope entry hvalue
  intro id hid
  obtain ⟨entry, hentry, rfl⟩ := List.mem_map.mp hid
  exact hvisible entry hentry

/-- The type of a symbol at a location is there. -/
theorem typeAt_lt {id : SymbolId} (hid : id.index < program.symbols.size) (location : Location) :
    (program.typeAt id location).index < program.types.entries.size := by
  have hdeclared := h.type_lt hid
  rw [Program.typeAt_eq]
  split
  · cases hlatest : latest? (program.assignmentsTo id location) with
    | none => exact hdeclared
    | some a =>
      obtain ⟨scope, hscope, ha⟩ := List.mem_flatMap.mp (mem_of_latest? hlatest)
      exact h.scope_assignments hscope a (List.mem_filter.mp ha).1
  · exact hdeclared

end Closed

/-! ## What a program answers stays as it was -/

namespace Grows

variable {before after : Program} (h : before.Grows after)
include h

/-- In a program that has grown, a type is what it was. -/
theorem get_eq {id : TypeId} (hid : id.index < before.types.entries.size) :
    after.types.get id = before.types.get id :=
  TypeTable.get_eq_of_kept h.types hid

/-- In a program that has grown, a symbol is what it was. -/
theorem symbol_eq {id : SymbolId} (hid : id.index < before.symbols.size) :
    after.symbol id = before.symbol id :=
  symbol_congr (h.symbols id.index hid)

/-- In a program that has grown, a scope is what it was. -/
theorem scope_eq {id : ScopeId} (hid : id.index < before.scopes.size) :
    after.scope id = before.scope id :=
  scope_congr (h.scopes id.index hid)

/-- In a program that has grown, a type has the flags it had. -/
theorem flags_eq {id : TypeId} (hid : id.index < before.types.entries.size) :
    after.flags id = before.flags id := by
  unfold Program.flags
  rw [h.get_eq hid]

/-- In a program that has grown, a type has the properties it had. -/
theorem properties_eq {id : TypeId} (hid : id.index < before.types.entries.size) :
    after.properties id = before.properties id := by
  unfold Program.properties
  rw [h.get_eq hid]

/-- In a program that has grown, a type has the signatures it had. -/
theorem signatures_eq {id : TypeId} (hid : id.index < before.types.entries.size) :
    after.signatures id = before.signatures id := by
  unfold Program.signatures
  rw [h.get_eq hid]

variable (hclosed : before.Closed) {location : Location}
include hclosed

/-- In a program that has grown, the scopes at a location of an earlier file are those that were
there. -/
theorem scopesAt_eq (hfile : location.file.index < before.files.size) :
    after.scopesAt location = before.scopesAt location := by
  have hinfo : before.files[location.file.index]? = some before.files[location.file.index] :=
    Array.getElem?_eq_getElem hfile
  unfold scopesAt
  rw [h.files.of_some hinfo, hinfo]
  apply List.filter_congr
  intro id hid
  rw [h.scope_eq (hclosed.files _ _ hinfo id hid)]

variable (hscopes : after.scopesAt location = before.scopesAt location)
include hscopes

/-- In a program that has grown, the symbols at a location of an earlier file are those that were
there. -/
theorem symbolsAt_eq : after.symbolsAt location = before.symbolsAt location := by
  unfold symbolsAt visibleAt
  rw [hscopes]
  congr 2
  apply List.flatMap_congr
  intro id hid
  rw [h.scope_eq (hclosed.scope_lt hid)]

/-- In a program that has grown, the assignments that count at a location of an earlier file are
those that counted. -/
theorem assignmentsTo_eq (id : SymbolId) :
    after.assignmentsTo id location = before.assignmentsTo id location := by
  unfold assignmentsTo
  rw [hscopes]
  apply List.flatMap_congr
  intro scope hscope
  rw [h.scope_eq (hclosed.scope_lt hscope)]

/-- In a program that has grown, a symbol has the type it had at a location of an earlier file. -/
theorem typeAt_eq {id : SymbolId} (hid : id.index < before.symbols.size) :
    after.typeAt id location = before.typeAt id location := by
  rw [Program.typeAt_eq, Program.typeAt_eq, h.symbol_eq hid, h.get_eq (hclosed.type_lt hid),
    h.assignmentsTo_eq hclosed hscopes]

end Grows

end Program

/-- What refers only to what is in the program looks the same in a program that keeps it. -/
theorem TypeData.Within.mirrors {program : Program} {data : TypeData}
    (h : data.Within program.types.entries.size program.symbols.size) :
    data.Mirrors program.SameType program.SameSymbol data := by
  cases data with
  | intrinsic word => exact .intrinsic word
  | stringLiteral value => exact .stringLiteral value
  | numberLiteral text => exact .numberLiteral text
  | booleanLiteral value => exact .booleanLiteral value
  | object name? members signatures =>
    apply TypeData.Mirrors.object
    · exact List.forall₂_same.mpr fun entry hentry => ⟨rfl, rfl, h.1 entry hentry⟩
    · refine List.forall₂_same.mpr fun signature hsignature => ?_
      obtain ⟨hparameters, hresult⟩ := h.2 signature hsignature
      refine ⟨List.forall₂_same.mpr fun p hp => ⟨rfl, rfl, hparameters p hp⟩, ⟨rfl, hresult⟩, rfl⟩
  | array element => exact .array ⟨rfl, h⟩
  | union members =>
    exact .union (List.forall₂_same.mpr fun member hmember => ⟨rfl, h member hmember⟩)

namespace Program.Sound

variable {before after : Program} (hsound : before.Sound) (h : before.Grows after)
include hsound h

/-- Seen from a location with the same scopes around it, the program before and the program after
look alike at the same places. -/
theorem mirrors {location : Location}
    (hscopes : after.scopesAt location = before.scopesAt location) :
    Mirrors before.SameType before.SameSymbol before location after location where
  get := by
    rintro a _ ⟨rfl, ha⟩
    rw [h.get_eq ha]
    exact (hsound.closed.get_within ha).mirrors
  name := by
    rintro id _ ⟨rfl, hid⟩
    rw [h.symbol_eq hid]
  sort := by
    rintro id _ ⟨rfl, hid⟩
    rw [h.symbol_eq hid]
  type := by
    rintro id _ ⟨rfl, hid⟩
    rw [h.symbol_eq hid]
    exact ⟨rfl, hsound.closed.type_lt hid⟩
  typeAt := by
    rintro id _ ⟨rfl, hid⟩
    exact ⟨h.typeAt_eq hsound.closed hscopes hid, hsound.closed.typeAt_lt hid location⟩
  length := ⟨rfl, (Array.getElem?_eq_some_iff.mp hsound.length).1⟩

/-- The text of a type that was there stays. It does not depend on a location, so it is looked at
from one that is in no file. -/
theorem typeText_eq {id : TypeId} (hid : id.index < before.types.entries.size) :
    after.typeText id = before.typeText id := by
  have hnone : ∀ program : Program, program.files.size ≤ after.files.size →
      program.scopesAt ⟨⟨after.files.size⟩, 0⟩ = [] := by
    intro program hsize
    unfold scopesAt
    rw [Array.getElem?_eq_none hsize]
  have hscopes := (hnone after (Nat.le_refl _)).trans (hnone before h.files.size_le).symm
  exact (hsound.mirrors h hscopes).typeText_eq ⟨rfl, hid⟩

end Program.Sound

end ExpressionTyping
