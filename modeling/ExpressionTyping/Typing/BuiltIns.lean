import ExpressionTyping.Typing.Basic

/-!
# Canonical types

A repository answers with the canonical type of a kind. Five kinds have theirs from the start; the
scalar kinds get theirs from a load that runs once, when the first of them is asked for. Asking for
what has no canonical type is a fault, and what was loaded before stays loaded.
-/

set_option autoImplicit false

namespace ExpressionTyping

/-- Why a request cannot be answered. -/
inductive Fault where
  /-- The kind `other` has no canonical type. -/
  | noCanonicalType
  /-- The load did not bring a type of that kind. -/
  | missingBuiltIn (kind : TypeKind)
  /-- A file that does not exist was asked about. -/
  | unknownFile
deriving DecidableEq, Inhabited

/-- The text of a fault, for the faults that have one. -/
def Fault.message? : Fault → Option String
  | noCanonicalType => some "TypeKind::Other has no canonical type and cannot be looked up"
  | missingBuiltIn kind => some s!"built-in type for kind \x60{kind.keyword}\x60 is missing after loading"
  | unknownFile => none

/-- The types that a load brought, once it has run. -/
structure BuiltInCache (τ : Type) where
  /-- The loaded types by kind; a later entry for a kind counts. -/
  loaded? : Option (List (TypeKind × τ))

namespace BuiltInCache

variable {τ : Type} {m : Type → Type} [Monad m]

/-- The cache before any load. -/
def empty : BuiltInCache τ := ⟨none⟩

/-- Whether the load has run. -/
def isLoaded (cache : BuiltInCache τ) : Bool :=
  cache.loaded?.isSome

/-- The last type entered for a kind. -/
def find? (types : List (TypeKind × τ)) (kind : TypeKind) : Option τ :=
  types.reverse.lookup kind

/-- The loaded types; runs the load unless it has run. -/
def ensureLoaded (load : m (List (TypeKind × τ))) :
    StateT (BuiltInCache τ) m (List (TypeKind × τ)) := do
  match (← get).loaded? with
  | some types => return types
  | none =>
    let types ← load
    set (BuiltInCache.mk (some types))
    return types

/-- The canonical type of a kind: given for the kinds that need no load, loaded for the scalars. -/
def typeOf (given : TypeKind → τ) (load : m (List (TypeKind × τ))) (kind : TypeKind) :
    ExceptT Fault (StateT (BuiltInCache τ) m) τ := do
  match kind with
  | .other => throw .noCanonicalType
  | .any | .null | .undefined | .object | .function => return given kind
  | .string | .number | .boolean | .symbol =>
    match find? (← ensureLoaded load) kind with
    | some type => return type
    | none => throw (.missingBuiltIn kind)

end BuiltInCache

/-- The repository whose canonical types are written down in full. -/
abbrev StaticRepository := ExceptT Fault (StateM (BuiltInCache StaticType))

namespace StaticRepository

/-- The scalar types of the static repository. -/
def scalars : List (TypeKind × StaticType) :=
  (TypeKind.canonicalKinds.filter TypeKind.isScalar).map fun kind => (kind, StaticType.ofKind kind)

/-- The canonical type of a kind. -/
def typeOf (kind : TypeKind) : StaticRepository StaticType :=
  BuiltInCache.typeOf StaticType.ofKind (pure scalars : Id _) kind

end StaticRepository

end ExpressionTyping
