import ExpressionTyping.Grammar.Basic
import ExpressionTyping.Program.Resolve
import ExpressionTyping.Session.DeclaredType
import ExpressionTyping.Typing.BuiltIns
import ExpressionTyping.Typing.Check

/-!
# Sessions

A session checks expressions against a program. Canonical types of scalar kinds come from a text of
built-in declarations, which becomes a file of the program when the first of them is needed: a
variable whose type is written as the keyword of a scalar kind gives the canonical type of that kind.
-/

set_option autoImplicit false

namespace ExpressionTyping

/-- A type in a session: a canonical one written down in full, or a declared one. -/
inductive SessionType where
  /-- A type written down in full. -/
  | static (type : StaticType)
  /-- A declared type. -/
  | declared (type : DeclaredType)

namespace SessionType

/-- The name of a type. -/
def name : SessionType → String
  | static type => type.name
  | declared type => type.name

/-- The kind of a type. -/
def kind : SessionType → TypeKind
  | static type => type.kind
  | declared type => type.kind

/-- The members of a type. -/
def members : SessionType → SymbolTable SessionType
  | static type => type.members.map static
  | declared type => type.members.map declared

/-- The ways of calling a type. -/
def signatures : SessionType → List (CallSignature SessionType)
  | static type => type.signatures.map (CallSignature.map static)
  | declared type => type.signatures.map (CallSignature.map declared)

instance : TypeView SessionType := ⟨name, kind, members, signatures⟩

end SessionType

/-- A computation in a session: it may fail, it keeps the built-ins it has loaded, and it builds on
a program. -/
abbrev Session := ExceptT Fault (StateT (BuiltInCache SessionType) Compile)

namespace Session

/-- The name of the file of built-in declarations. -/
def builtInsName : String := "builtins.d.ts"

/-- The built-in declarations used unless others are given. -/
def defaultBuiltIns : String :=
  "// Canonical built-in types. One variable per primitive kind; the declared\n" ++
  "// type text selects the kind it is cached under.\n" ++
  "declare var __string: string;\n" ++
  "declare var __number: number;\n" ++
  "declare var __boolean: boolean;\n" ++
  "declare var __symbol: symbol;\n"

/-- The scalar kind that the text of a type names. -/
def scalarOf? : String → Option TypeKind
  | "string" => some .string
  | "number" => some .number
  | "boolean" => some .boolean
  | "symbol" => some .symbol
  | _ => none

/-- The scalar kind that a visited variable declares, with the node that declares it. -/
def builtInOf? (file : SourceFile) : Visit → Option (TypeKind × Node)
  | .variableDecl _ declaration => do
    let type ← declaration.type?
    let kind ← scalarOf? (file.textOf type.node.span)
    return (kind, declaration.node)
  | _ => none

/-- Adds built-in declarations to the program and collects the types they give, in order. -/
def loadBuiltIns (source : String) : Compile (List (TypeKind × SessionType)) := do
  let file := (SourceFile.parse builtInsName source).tree
  let (id, program) := (← get).add file
  set program
  return (file.visits.filterMap (builtInOf? file)).filterMap fun (kind, node) =>
    (program.typeOf? id node.id).map fun type =>
      (kind, .declared ⟨program, ⟨id, node.span.start⟩, type⟩)

/-- The canonical type of a kind. -/
def typeOf (source : String) (kind : TypeKind) : Session SessionType :=
  BuiltInCache.typeOf (fun kind => .static (.ofKind kind)) (loadBuiltIns source) kind

/-- Loads the built-in declarations unless they are loaded. -/
def ensureLoaded (source : String) : Session Unit := do
  let _ ← (BuiltInCache.ensureLoaded (loadBuiltIns source) :
    StateT (BuiltInCache SessionType) Compile _)

/-- Whether the built-in declarations are loaded. -/
def isLoaded : Session Bool := do
  let cache ← (get : StateT (BuiltInCache SessionType) Compile _)
  return cache.isLoaded

/-- The program of the session. -/
def program : Session Program := do
  (get : Compile Program)

/-- The types of the values visible at a location. -/
def scopeAt (location : Location) : Session (SymbolTable SessionType) := do
  let program ← program
  return (DeclaredType.symbolTypes program location (program.symbolsAt location)).map .declared

/-- The end of a file; a file that does not exist has none. -/
def endOfFile (file : FileId) : Session Location := do
  match (← program).endOfFile? file with
  | some location => return location
  | none => throw .unknownFile

/-- What is wrong with an expression at a location. -/
def check (source : String) (location : Location) (e : Expr) : Session (List Issue) := do
  let scope ← scopeAt location
  e.check (typeOf source) scope

end Session

end ExpressionTyping
