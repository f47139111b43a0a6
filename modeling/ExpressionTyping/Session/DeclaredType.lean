import ExpressionTyping.Program.Display
import ExpressionTyping.Typing.Basic

/-!
# Declared types as types

A declared type becomes a type for the rules when it is seen from a location of its program: its
name is its text, its kind is read off its flags, and its members have the types they have at the
location.
-/

set_option autoImplicit false

namespace ExpressionTyping

/-- A type of a program, seen from a location. -/
structure DeclaredType where
  /-- The program. -/
  program : Program
  /-- The location. -/
  location : Location
  /-- The place of the type. -/
  id : TypeId

namespace DeclaredType

/-- Another type of the same program, seen from the same location. -/
def sibling (type : DeclaredType) (id : TypeId) : DeclaredType :=
  { type with id }

/-- The text of a type. -/
def name (type : DeclaredType) : String :=
  type.program.typeText type.id

/-- The kind of a type. -/
def kind (type : DeclaredType) : TypeKind :=
  (type.program.flags type.id).kind

/-- The types of symbols by name. -/
def symbolTypes (program : Program) (location : Location) (symbols : List SymbolId) :
    SymbolTable DeclaredType :=
  SymbolTable.ofList <| symbols.map fun id =>
    ((program.symbol id).name, ⟨program, location, program.typeAt id location⟩)

/-- The members of a type. -/
def members (type : DeclaredType) : SymbolTable DeclaredType :=
  symbolTypes type.program type.location (type.program.properties type.id)

/-- The arguments of a declared signature. A rest parameter takes elements of its array; one that
takes anything and stands alone leaves the arguments free. -/
def arguments (type : DeclaredType) (signature : Signature) : ArgTypes DeclaredType :=
  let parameters := signature.parameters.map Prod.snd
  if signature.hasRest then
    match parameters.getLast? with
    | none => .any
    | some last =>
      let rest := (type.program.types.elementOf? last).getD last
      let leading := parameters.dropLast
      if leading.isEmpty && (type.program.flags rest).has TypeFlags.any then .any
      else .variadic (leading.map type.sibling) (type.sibling rest)
  else .fixed (parameters.map type.sibling)

/-- The ways of calling a type. -/
def signatures (type : DeclaredType) : List (CallSignature DeclaredType) :=
  (type.program.signatures type.id).map fun signature =>
    ⟨type.arguments signature, type.sibling signature.result⟩

instance : TypeView DeclaredType := ⟨name, kind, members, signatures⟩

end DeclaredType

end ExpressionTyping
