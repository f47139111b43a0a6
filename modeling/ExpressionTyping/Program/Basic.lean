import ExpressionTyping.Diagnostic.Basic
import ExpressionTyping.Program.TypeTable

/-!
# Programs

A program holds what declaration files declare: types, symbols, and for each file the scopes of the
file and of its blocks. Values and types have names of their own. What a program knows is asked for
at a location, since blocks hide names and assignments narrow the types of variables.
-/

set_option autoImplicit false

namespace ExpressionTyping

/-- The place of a scope in a program. -/
structure ScopeId where
  /-- The position among the scopes. -/
  index : Nat
deriving DecidableEq, Inhabited

/-- The place of a file in a program. -/
structure FileId where
  /-- The position among the files. -/
  index : Nat
deriving DecidableEq, Inhabited

/-- An offset in a file. -/
structure Location where
  /-- The file. -/
  file : FileId
  /-- The offset. -/
  offset : Nat
deriving DecidableEq, Inhabited

/-- What a symbol stands for. -/
inductive SymbolSort where
  | hoistedVariable
  | blockVariable
  | constant
  | property
  | function
  | method
  | interface
  | typeAlias
deriving DecidableEq, Inhabited

namespace SymbolSort

/-- Whether a declaration may add to one of the same name. -/
def merges : SymbolSort → SymbolSort → Bool
  | function, function => true
  | interface, interface => true
  | hoistedVariable, hoistedVariable => true
  | _, _ => false

/-- Whether the symbol is a variable, constants included. -/
def isVariable : SymbolSort → Bool
  | hoistedVariable | blockVariable | constant => true
  | _ => false

end SymbolSort

/-- A named thing. -/
structure Symbol where
  /-- Its name. -/
  name : String
  /-- What it stands for. -/
  sort : SymbolSort
  /-- Where it is declared, in order. -/
  declarations : List Location
  /-- The type its declarations give it. -/
  type : TypeId
deriving Inhabited

/-- An assignment to a variable. -/
structure Assignment where
  /-- The variable. -/
  symbol : SymbolId
  /-- Where the assignment ends; from here on it counts. -/
  offset : Nat
  /-- What the variable is narrowed to. -/
  type : TypeId
deriving Inhabited

/-- The names declared in a file or a block. -/
structure Scope where
  /-- The scopes around this one, innermost first. -/
  enclosing : List ScopeId
  /-- The characters the scope covers. -/
  span : Span
  /-- Variables and functions. -/
  values : SymbolTable SymbolId
  /-- Interfaces and type aliases. -/
  types : SymbolTable SymbolId
  /-- The assignments that stand in the scope, in order. -/
  assignments : List Assignment
deriving Inhabited

/-- Whether an offset lies in the scope. The scope of a file reaches to its very end, a block ends
before its last offset. -/
def Scope.covers (scope : Scope) (offset : Nat) : Bool :=
  if scope.enclosing.isEmpty then scope.span.containsInclusive offset
  else scope.span.contains offset

/-- What a program knows of a file. -/
structure FileInfo where
  /-- The name of the file. -/
  name : String
  /-- The number of its characters. -/
  length : Nat
  /-- The scope of the file, then those of its blocks from outside in. -/
  scopes : List ScopeId
  /-- The symbols of declarations, by the numbers of their nodes. -/
  declarations : List (Nat × SymbolId)
deriving Inhabited

/-- An issue and the name of the file it is in. -/
structure FileIssue where
  /-- The name of the file. -/
  file : String
  /-- The issue. -/
  issue : Issue
deriving DecidableEq, Inhabited

/-- The issue as a diagnostic. -/
def FileIssue.diagnostic (report : FileIssue) : Diagnostic :=
  report.issue.diagnostic (some report.file)

/-- Everything that files declare. -/
structure Program where
  /-- The types. -/
  types : TypeTable
  /-- The symbols. -/
  symbols : Array Symbol
  /-- The scopes. -/
  scopes : Array Scope
  /-- The files. -/
  files : Array FileInfo
  /-- What is wrong with the declarations, in the order found. -/
  issues : List FileIssue

namespace Program

/-- The symbol of the `length` of arrays. -/
def lengthSymbol : SymbolId := ⟨0⟩

/-- The program without files. -/
def empty : Program where
  types := .initial
  symbols := #[⟨"length", .property, [], .ofWord .number⟩]
  scopes := #[]
  files := #[]
  issues := []

/-- The symbol at a place. -/
def symbol (program : Program) (id : SymbolId) : Symbol :=
  program.symbols[id.index]?.getD default

/-- The scope at a place. -/
def scope (program : Program) (id : ScopeId) : Scope :=
  program.scopes[id.index]?.getD default

/-- The scopes in which a name used in a scope is looked for, innermost first. -/
def outward (program : Program) (id : ScopeId) : List ScopeId :=
  id :: (program.scope id).enclosing

/-- The value that a name means in a scope. -/
def resolveValue? (program : Program) (scope : ScopeId) (name : String) : Option SymbolId :=
  (program.outward scope).findSome? fun id => (program.scope id).values.get? name

/-- The type that a name means in a scope. -/
def resolveType? (program : Program) (scope : ScopeId) (name : String) : Option SymbolId :=
  (program.outward scope).findSome? fun id => (program.scope id).types.get? name

/-- The scopes around a location, outermost first. -/
def scopesAt (program : Program) (location : Location) : List ScopeId :=
  match program.files[location.file.index]? with
  | some info => info.scopes.filter fun id => (program.scope id).covers location.offset
  | none => []

/-- The values visible at a location by name. Outer scopes come first, and a name hidden by an inner
scope keeps its place. -/
def visibleAt (program : Program) (location : Location) : SymbolTable SymbolId :=
  SymbolTable.ofList <|
    (program.scopesAt location).flatMap fun id => (program.scope id).values.entries

/-- The values visible at a location. -/
def symbolsAt (program : Program) (location : Location) : List SymbolId :=
  (program.visibleAt location).values

/-- The later of assignments; of two that end together, the one listed last. -/
def latest? (assignments : List Assignment) : Option Assignment :=
  assignments.foldl (fun found next =>
    match found with
    | some best => if next.offset < best.offset then some best else some next
    | none => some next) none

/-- The type of a symbol at a location: the declared type, or what the latest assignment before the
location in a scope around it leaves of a union. -/
def typeAt (program : Program) (id : SymbolId) (location : Location) : TypeId :=
  let declared := (program.symbol id).type
  if (program.types.get declared).flags.has TypeFlags.union then
    let assignments := (program.scopesAt location).flatMap fun scope =>
      (program.scope scope).assignments.filter fun assignment =>
        assignment.symbol = id && assignment.offset ≤ location.offset
    match latest? assignments with
    | some assignment => assignment.type
    | none => declared
  else declared

/-- The end of a file, where everything declared at its top is in scope. -/
def endOfFile? (program : Program) (file : FileId) : Option Location :=
  (program.files[file.index]?).map fun info => ⟨file, info.length⟩

/-- The flags of a type. -/
def flags (program : Program) (id : TypeId) : TypeFlags :=
  (program.types.get id).flags

/-- The properties of an object or an array. -/
def properties (program : Program) (id : TypeId) : List SymbolId :=
  match program.types.get id with
  | .object _ members _ => members.values
  | .array _ => [lengthSymbol]
  | _ => []

/-- The ways of calling a type. -/
def signatures (program : Program) (id : TypeId) : List Signature :=
  match program.types.get id with
  | .object _ _ signatures => signatures
  | _ => []

/-- The symbol that a declaration of a file declares, by the number of its node. -/
def symbolOf? (program : Program) (file : FileId) (declaration : Nat) : Option SymbolId :=
  program.files[file.index]?.bind fun info => info.declarations.lookup declaration

/-- The declared type of what a declaration of a file declares. -/
def typeOf? (program : Program) (file : FileId) (declaration : Nat) : Option TypeId :=
  (program.symbolOf? file declaration).map fun id => (program.symbol id).type

end Program

/-- Building a program. -/
abbrev Compile := StateM Program

namespace Compile

/-- Adds a symbol without declarations. -/
def addSymbol (name : String) (sort : SymbolSort) (type : TypeId) : Compile SymbolId := do
  let program ← get
  set { program with symbols := program.symbols.push ⟨name, sort, [], type⟩ }
  return ⟨program.symbols.size⟩

/-- Changes a symbol. -/
def updateSymbol (id : SymbolId) (f : Symbol → Symbol) : Compile Unit :=
  modify fun program => { program with symbols := program.symbols.modify id.index f }

/-- Adds a place where a symbol is declared. -/
def addLocation (id : SymbolId) (location : Location) : Compile Unit :=
  updateSymbol id fun symbol => { symbol with declarations := symbol.declarations ++ [location] }

/-- Changes a scope. -/
def updateScope (id : ScopeId) (f : Scope → Scope) : Compile Unit :=
  modify fun program => { program with scopes := program.scopes.modify id.index f }

/-- Changes what is known of a file. -/
def updateFile (id : FileId) (f : FileInfo → FileInfo) : Compile Unit :=
  modify fun program => { program with files := program.files.modify id.index f }

/-- Adds a scope to a file. -/
def addScope (file : FileId) (enclosing : List ScopeId) (span : Span) : Compile ScopeId := do
  let program ← get
  let id : ScopeId := ⟨program.scopes.size⟩
  set { program with scopes := program.scopes.push ⟨enclosing, span, .empty, .empty, []⟩ }
  updateFile file fun info => { info with scopes := info.scopes ++ [id] }
  return id

/-- Adds a file without scopes. -/
def addFile (name : String) (length : Nat) : Compile FileId := do
  let program ← get
  set { program with files := program.files.push ⟨name, length, [], []⟩ }
  return ⟨program.files.size⟩

/-- Runs a step on the type table. -/
def onTypes (step : TypeTable → TypeId × TypeTable) : Compile TypeId := do
  let program ← get
  let (id, types) := step program.types
  set { program with types }
  return id

/-- Adds a type at a new place. -/
def addType (data : TypeData) : Compile TypeId :=
  onTypes fun table => table.add data

/-- The place of a type that looks the same, or a new place. -/
def shareType (data : TypeData) : Compile TypeId :=
  onTypes fun table => table.share data

/-- The union of types. -/
def unionOf (ids : List TypeId) : Compile TypeId :=
  onTypes fun table => table.unionOf ids

/-- Adds a signature to those of an object type. -/
def addSignature (id : TypeId) (signature : Signature) : Compile Unit :=
  modify fun program => { program with types := program.types.addSignature id signature }

/-- Reports a problem in a file. -/
def report (file : FileId) (span : Span) (problem : Problem) : Compile Unit :=
  modify fun program =>
    let name := (program.files[file.index]?.getD default).name
    { program with issues := program.issues ++ [⟨name, ⟨span, problem⟩⟩] }

end Compile

end ExpressionTyping
