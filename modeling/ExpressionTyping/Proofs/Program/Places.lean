import ExpressionTyping.Program.Basic

/-!
# What stands at a place

Types, symbols and scopes are read by their places. What stands at a place is what is read there, and
where two tables hold the same, the same is read. Beyond the end of a table the type `any` is read,
so any other type that is read stands in the table.
-/

set_option autoImplicit false

namespace ExpressionTyping

namespace TypeTable

variable {table later : TypeTable} {id : TypeId} {data : TypeData}

/-- The type at a place is the entry that stands there. -/
theorem get_of_entries (h : table.entries[id.index]? = some data) : table.get id = data := by
  rw [get, h]
  rfl

/-- Where no type stands, `any` is found. -/
theorem get_of_entries_none (h : table.entries[id.index]? = none) :
    table.get id = .intrinsic .any := by
  rw [get, h]
  rfl

/-- Tables with the same entry at a place have the same type there. -/
theorem get_congr (h : later.entries[id.index]? = table.entries[id.index]?) :
    later.get id = table.get id := by
  rw [get, get, h]

/-- What is read, and is not what is read beyond the end, stands in the table. -/
theorem entries_of_get (h : table.get id = data) (hne : data ≠ .intrinsic .any) :
    table.entries[id.index]? = some data := by
  cases hentry : table.entries[id.index]? with
  | none => exact absurd (h.symm.trans (get_of_entries_none hentry)) hne
  | some found => rw [← h, get_of_entries hentry]

end TypeTable

namespace Program

variable {program before after : Program}

/-- The symbol at a place is the entry that stands there. -/
theorem symbol_of_symbols {id : SymbolId} {symbol : Symbol}
    (h : program.symbols[id.index]? = some symbol) : program.symbol id = symbol := by
  rw [Program.symbol, h]
  rfl

/-- Programs with the same entry at a place have the same symbol there. -/
theorem symbol_congr {id : SymbolId} (h : after.symbols[id.index]? = before.symbols[id.index]?) :
    after.symbol id = before.symbol id := by
  rw [Program.symbol, Program.symbol, h]

/-- Programs with the same symbols have the same symbol at every place. -/
theorem symbol_eq_of_symbols (h : after.symbols = before.symbols) (id : SymbolId) :
    after.symbol id = before.symbol id :=
  symbol_congr (by rw [h])

/-- The scope at a place is the entry that stands there. -/
theorem scope_of_scopes {id : ScopeId} {scope : Scope}
    (h : program.scopes[id.index]? = some scope) : program.scope id = scope := by
  rw [Program.scope, h]
  rfl

/-- Programs with the same entry at a place have the same scope there. -/
theorem scope_congr {id : ScopeId} (h : after.scopes[id.index]? = before.scopes[id.index]?) :
    after.scope id = before.scope id := by
  rw [Program.scope, Program.scope, h]

/-- Programs with the same scopes have the same scope at every place. -/
theorem scope_eq_of_scopes (h : after.scopes = before.scopes) (id : ScopeId) :
    after.scope id = before.scope id :=
  scope_congr (by rw [h])

end Program

end ExpressionTyping
