/-!
# Symbol tables

A symbol table maps names to values and remembers the order in which the names came. Putting in a
name again replaces its value and keeps its place.
-/

set_option autoImplicit false

namespace ExpressionTyping

/-- Names with their values, in order of first entry. -/
structure SymbolTable (α : Type) where
  /-- The entries; no name occurs twice in a table built by `insert`. -/
  entries : List (String × α)
deriving DecidableEq, Inhabited

namespace SymbolTable

variable {α : Type}

/-- The table without entries. -/
def empty : SymbolTable α := ⟨[]⟩

/-- The value of a name. -/
def get? (table : SymbolTable α) (name : String) : Option α :=
  table.entries.lookup name

/-- Whether a name has a value. -/
def contains (table : SymbolTable α) (name : String) : Bool :=
  (table.get? name).isSome

/-- Replaces the value of a name, or adds it at the end. -/
def insertEntry (name : String) (value : α) : List (String × α) → List (String × α)
  | [] => [(name, value)]
  | entry :: rest =>
    if entry.1 == name then (name, value) :: rest
    else entry :: insertEntry name value rest

/-- Gives a name a value. -/
def insert (table : SymbolTable α) (name : String) (value : α) : SymbolTable α :=
  ⟨insertEntry name value table.entries⟩

/-- A name that was given a value has it, and the others keep theirs. -/
theorem get?_insert (table : SymbolTable α) (name other : String) (value : α) :
    (table.insert name value).get? other =
      if other = name then some value else table.get? other := by
  obtain ⟨entries⟩ := table
  show (insertEntry name value entries).lookup other = if _ then _ else entries.lookup other
  induction entries with
  | nil =>
    by_cases hother : other = name
    · simp [insertEntry, hother]
    · have hne : (other == name) = false := beq_false_of_ne hother
      simp [insertEntry, List.lookup_cons, hother, hne]
  | cons entry rest ih =>
    obtain ⟨first, held⟩ := entry
    by_cases hfirst : first = name
    · subst hfirst
      by_cases hother : other = first
      · simp [insertEntry, hother]
      · have hne : (other == first) = false := beq_false_of_ne hother
        simp [insertEntry, List.lookup_cons, hother, hne]
    · by_cases hother : other = first
      · subst hother
        simp [insertEntry, hfirst]
      · have hne : (other == first) = false := beq_false_of_ne hother
        simp [insertEntry, List.lookup_cons, hfirst, hne, ih]

/-- The table after entering names in order. -/
def ofList (entries : List (String × α)) : SymbolTable α :=
  entries.foldl (fun table entry => table.insert entry.1 entry.2) empty

/-- The names in order. -/
def names (table : SymbolTable α) : List String :=
  table.entries.map Prod.fst

/-- The values in order. -/
def values (table : SymbolTable α) : List α :=
  table.entries.map Prod.snd

/-- The table with every value changed. -/
def map {β : Type} (f : α → β) (table : SymbolTable α) : SymbolTable β :=
  ⟨table.entries.map fun entry => (entry.1, f entry.2)⟩

/-- The number of names. -/
def size (table : SymbolTable α) : Nat :=
  table.entries.length

end SymbolTable

end ExpressionTyping
