/-!
# Name tables

A name table gives each distinct name a small number, its handle, in order of first entry.
-/

set_option autoImplicit false

namespace ExpressionTyping

/-- The names entered so far; a handle is a position in the list. -/
structure NameTable where
  /-- Distinct names in order of entry. -/
  names : List String
deriving Inhabited

namespace NameTable

/-- The table that holds no name. -/
def empty : NameTable := ⟨[]⟩

/-- The handle of a name that was entered before. -/
def handle? (table : NameTable) (name : String) : Option Nat :=
  table.names.findIdx? (· == name)

/-- The handle of a name, entered now if it is new. -/
def intern (table : NameTable) (name : String) : Nat × NameTable :=
  match table.handle? name with
  | some handle => (handle, table)
  | none => (table.names.length, ⟨table.names ++ [name]⟩)

/-- The name behind a handle. -/
def name? (table : NameTable) (handle : Nat) : Option String :=
  table.names[handle]?

/-- The number of names. -/
def size (table : NameTable) : Nat :=
  table.names.length

end NameTable

end ExpressionTyping
