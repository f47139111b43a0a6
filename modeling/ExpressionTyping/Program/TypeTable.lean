import ExpressionTyping.Program.Flags
import ExpressionTyping.Syntax.TypeNode
import ExpressionTyping.Typing.SymbolTable

/-!
# Type tables

The types of a program stand in a table and refer to each other by their places in it. Places are
never reused. Literal types, arrays and unions that look the same share one place; object types are
each their own.
-/

set_option autoImplicit false

namespace ExpressionTyping

/-- The place of a type in the table. -/
structure TypeId where
  /-- The position in the table. -/
  index : Nat
deriving DecidableEq, Inhabited

/-- The place of a symbol in a program. -/
structure SymbolId where
  /-- The position among the symbols. -/
  index : Nat
deriving DecidableEq, Inhabited

/-- One way of calling a declared function. -/
structure Signature where
  /-- The names and types of the parameters. -/
  parameters : List (String × TypeId)
  /-- The type of the result. -/
  result : TypeId
  /-- Whether the last parameter takes every further argument. -/
  hasRest : Bool
deriving DecidableEq, Inhabited

/-- What stands at a place of the table. -/
inductive TypeData where
  /-- A type with a word of its own. -/
  | intrinsic (word : TypeWord)
  /-- The type of one string. -/
  | stringLiteral (value : String)
  /-- The type of one number, as written. -/
  | numberLiteral (text : String)
  /-- The type of `true` or of `false`. -/
  | booleanLiteral (value : Bool)
  /-- An object or function type; interfaces have names. -/
  | object (name? : Option String) (members : SymbolTable SymbolId) (signatures : List Signature)
  /-- An array. -/
  | array (element : TypeId)
  /-- A union. -/
  | union (members : List TypeId)
deriving DecidableEq, Inhabited

namespace TypeData

/-- The flag of a type with a word of its own. -/
def wordFlag : TypeWord → Nat
  | .any => TypeFlags.any
  | .unknown => TypeFlags.unknown
  | .string => TypeFlags.string
  | .number => TypeFlags.number
  | .boolean => TypeFlags.boolean
  | .symbol => TypeFlags.symbol
  | .undefined => TypeFlags.undefined
  | .never => TypeFlags.never
  | .object => TypeFlags.nonPrimitive
  | .void => TypeFlags.void
  | .null => TypeFlags.null

/-- The flags of a type. -/
def flags : TypeData → TypeFlags
  | intrinsic word => .single (wordFlag word)
  | stringLiteral _ => .single TypeFlags.stringLiteral
  | numberLiteral _ => .single TypeFlags.numberLiteral
  | booleanLiteral _ => .single TypeFlags.booleanLiteral
  | object _ _ _ => .single TypeFlags.object
  | array _ => .single TypeFlags.object
  | union _ => .single TypeFlags.union

/-- An object type with nothing but a name. -/
def named (name : String) : TypeData :=
  object (some name) .empty []

end TypeData

namespace TypeId

/-- The place of a type with a word of its own. -/
def ofWord : TypeWord → TypeId
  | .any => ⟨0⟩
  | .unknown => ⟨1⟩
  | .string => ⟨2⟩
  | .number => ⟨3⟩
  | .boolean => ⟨4⟩
  | .symbol => ⟨5⟩
  | .void => ⟨6⟩
  | .undefined => ⟨7⟩
  | .null => ⟨8⟩
  | .never => ⟨9⟩
  | .object => ⟨10⟩

/-- The place of `any`. -/
def any : TypeId := ofWord .any

/-- The place of the type of `true` or of `false`. -/
def ofBoolean : Bool → TypeId
  | true => ⟨11⟩
  | false => ⟨12⟩

/-- The place of the type `Function`. -/
def globalFunction : TypeId := ⟨13⟩

/-- The place of the type `Object`. -/
def globalObject : TypeId := ⟨14⟩

end TypeId

/-- The types of a program by their places. -/
structure TypeTable where
  /-- What stands at each place. -/
  entries : Array TypeData
deriving Inhabited

namespace TypeTable

/-- The table that every program starts with. -/
def initial : TypeTable :=
  ⟨#[.intrinsic .any, .intrinsic .unknown, .intrinsic .string, .intrinsic .number,
    .intrinsic .boolean, .intrinsic .symbol, .intrinsic .void, .intrinsic .undefined,
    .intrinsic .null, .intrinsic .never, .intrinsic .object, .booleanLiteral true,
    .booleanLiteral false, .named "Function", .named "Object"]⟩

/-- What stands at a place; `any` beyond the table. -/
def get (table : TypeTable) (id : TypeId) : TypeData :=
  table.entries[id.index]?.getD (.intrinsic .any)

/-- Adds a type at a new place. -/
def add (table : TypeTable) (data : TypeData) : TypeId × TypeTable :=
  (⟨table.entries.size⟩, ⟨table.entries.push data⟩)

/-- The place of a type that looks the same, or a new place. -/
def share (table : TypeTable) (data : TypeData) : TypeId × TypeTable :=
  match table.entries.findIdx? (· == data) with
  | some index => (⟨index⟩, table)
  | none => table.add data

/-- Changes the members and the signatures of an object type at its place. -/
def updateObject (table : TypeTable) (id : TypeId)
    (f : SymbolTable SymbolId → List Signature → SymbolTable SymbolId × List Signature) :
    TypeTable :=
  ⟨table.entries.modify id.index fun
    | .object name? members signatures =>
      .object name? (f members signatures).1 (f members signatures).2
    | data => data⟩

/-- Gives an object type its members. -/
def setMembers (table : TypeTable) (id : TypeId) (members : SymbolTable SymbolId) : TypeTable :=
  table.updateObject id fun _ signatures => (members, signatures)

/-- Adds a signature to those of an object type. -/
def addSignature (table : TypeTable) (id : TypeId) (signature : Signature) : TypeTable :=
  table.updateObject id fun members signatures => (members, signatures ++ [signature])

/-- The types that a union is made of; any other type is made of itself. -/
def constituents (table : TypeTable) (id : TypeId) : List TypeId :=
  match table.get id with
  | .union members => members
  | _ => [id]

/-- The union of types. Unions among them are taken apart, repeated types are dropped, and `any`
swallows the rest. -/
def unionOf (table : TypeTable) (ids : List TypeId) : TypeId × TypeTable :=
  let members := (ids.flatMap table.constituents).eraseDups
  if members.contains .any then (.any, table)
  else match members with
    | [] => (.ofWord .never, table)
    | [id] => (id, table)
    | _ => table.share (.union members)

/-- The type of all values like a literal; any other type is unchanged. -/
def widen (table : TypeTable) (id : TypeId) : TypeId :=
  match table.get id with
  | .stringLiteral _ => .ofWord .string
  | .numberLiteral _ => .ofWord .number
  | .booleanLiteral _ => .ofWord .boolean
  | _ => id

/-- The type of the elements of an array. -/
def elementOf? (table : TypeTable) (id : TypeId) : Option TypeId :=
  match table.get id with
  | .array element => some element
  | _ => none

end TypeTable

end ExpressionTyping
