import ExpressionTyping.Text.Quoted
import ExpressionTyping.Typing.Kind
import ExpressionTyping.Typing.SymbolTable

/-!
# Types

To the rules a type is its name, its kind, its members and its call signatures. Anything that has
these is a type; the simplest is one that is written down in full.
-/

set_option autoImplicit false

namespace ExpressionTyping

/-- The arguments that a call may pass. -/
inductive ArgTypes (τ : Type) where
  /-- Exactly these. -/
  | fixed (parameters : List τ)
  /-- These, and then any number of another type. -/
  | variadic (leading : List τ) (rest : τ)
  /-- Any arguments. -/
  | any
deriving Inhabited

namespace ArgTypes

variable {τ : Type}

/-- The fewest arguments a call has to pass. -/
def least : ArgTypes τ → Nat
  | fixed parameters => parameters.length
  | variadic leading _ => leading.length
  | any => 0

/-- Whether a call may pass so many arguments. -/
def accepts : ArgTypes τ → Nat → Bool
  | fixed parameters, count => parameters.length = count
  | variadic leading _, count => leading.length ≤ count
  | any, _ => true

/-- The arguments with every type changed. -/
def map {υ : Type} (f : τ → υ) : ArgTypes τ → ArgTypes υ
  | fixed parameters => .fixed (parameters.map f)
  | variadic leading rest => .variadic (leading.map f) (f rest)
  | any => .any

/-- Whether the arguments are all listed. -/
def isFixed : ArgTypes τ → Bool
  | fixed _ => true
  | _ => false

end ArgTypes

/-- One way of calling a type. -/
structure CallSignature (τ : Type) where
  /-- The arguments. -/
  arguments : ArgTypes τ
  /-- The type of the result. -/
  result : τ

/-- The signature with every type changed. -/
def CallSignature.map {τ υ : Type} (f : τ → υ) (signature : CallSignature τ) : CallSignature υ :=
  ⟨signature.arguments.map f, f signature.result⟩

/-- What the rules see of a type. -/
class TypeView (τ : Type) where
  /-- The name shown for a type. -/
  name : τ → String
  /-- The kind of a type. -/
  kind : τ → TypeKind
  /-- The members of a type. -/
  members : τ → SymbolTable τ
  /-- The ways of calling a type. -/
  signatures : τ → List (CallSignature τ)

/-- A type that is written down in full. -/
inductive StaticType where
  | mk (name : String) (kind : TypeKind) (members : SymbolTable StaticType)
      (signatures : List (CallSignature StaticType))

namespace StaticType

/-- The name of a type. -/
def name : StaticType → String
  | mk name _ _ _ => name

/-- The kind of a type. -/
def kind : StaticType → TypeKind
  | mk _ kind _ _ => kind

/-- The members of a type. -/
def members : StaticType → SymbolTable StaticType
  | mk _ _ members _ => members

/-- The ways of calling a type. -/
def signatures : StaticType → List (CallSignature StaticType)
  | mk _ _ _ signatures => signatures

/-- The type of a kind, named by its keyword, without members or signatures. -/
def ofKind (kind : TypeKind) : StaticType :=
  mk kind.keyword kind .empty []

instance : TypeView StaticType := ⟨name, kind, members, signatures⟩

instance : Inhabited StaticType := ⟨ofKind .any⟩

end StaticType

namespace TypeView

variable {τ : Type} [TypeView τ]

/-- The name and the kind of a type on one line. -/
def summary (type : τ) : String :=
  s!"Type \x7b name: {quoted (name type)}, kind: {(kind type).label} \x7d"

/-- Items between square brackets. -/
def bracketed (items : List String) : String :=
  "[" ++ ", ".intercalate items ++ "]"

end TypeView

/-- The arguments on one line. -/
def ArgTypes.summary {τ : Type} [TypeView τ] : ArgTypes τ → String
  | fixed parameters => "Fixed(" ++ TypeView.bracketed (parameters.map TypeView.summary) ++ ")"
  | variadic leading rest =>
    "Variadic \x7b leading: " ++ TypeView.bracketed (leading.map TypeView.summary) ++ ", rest: " ++
      TypeView.summary rest ++ " \x7d"
  | any => "Any"

/-- The names of a table on one line. -/
def SymbolTable.summary {α : Type} (table : SymbolTable α) : String :=
  TypeView.bracketed (table.names.map quoted)

/-- A name in a table on one line. -/
def SymbolTable.entrySummary (name : String) : String :=
  s!"Symbol \x7b name: {quoted name} \x7d"

end ExpressionTyping
