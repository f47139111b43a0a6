import ExpressionTyping.Program.Bind

/-!
# Resolving types

After binding, every declared symbol gets its type. A symbol is resolved when it is first referred
to, so declarations may stand in any order; a reference back to a symbol that is being resolved
means `any`, and is reported if the symbol is an alias. Interfaces exist before their members are
known, so they never run in circles. Assignments come last and narrow variables of union type.
-/

set_option autoImplicit false

namespace ExpressionTyping

/-- The declarations of a file by their symbols, in order. -/
abbrev Pending := List (SymbolId × Declaration)

namespace Pending

/-- The declarations of a symbol. -/
def declarationsOf (pending : Pending) (symbol : SymbolId) : List Declaration :=
  (pending.filter fun entry => entry.1 = symbol).map Prod.snd

/-- The symbols in order of first declaration. -/
def symbols (pending : Pending) : List SymbolId :=
  (pending.map Prod.fst).eraseDups

end Pending

/-- The state of resolution: the program, and the symbols that have their final types. -/
structure ResolveState where
  /-- The program. -/
  program : Program
  /-- The symbols resolved so far. -/
  resolved : List SymbolId

/-- A step of resolution. -/
abbrev Resolve := StateM ResolveState

/-- How a name that a type annotation refers to is resolved in a scope. -/
abbrev TypeLookup := ScopeId → Identifier → Resolve TypeId

/-- The type of the method of a name among members, which has all its signatures. -/
def Program.methodType? (program : Program) (members : SymbolTable SymbolId) (name : String) :
    Option TypeId :=
  match members.get? name with
  | some id => if (program.symbol id).sort = .method then some (program.symbol id).type else none
  | none => none

namespace Resolve

/-- Runs a step of building the program. -/
def compile {α : Type} (step : Compile α) : Resolve α := do
  let s ← get
  let (result, program) := step.run s.program
  set { s with program }
  return result

/-- The program as it stands. -/
def program : Resolve Program := do
  return (← get).program

/-- The type of a literal in an annotation. -/
def literalType : Literal → Resolve TypeId
  | .string text | .template text => compile (Compile.shareType (.stringLiteral text))
  | .number text => compile (Compile.shareType (.numberLiteral text))
  | .boolean value => return .ofBoolean value
  | .null => return .any

/-- Adds a member to those of a type, as a new symbol; it replaces a member of the same name. -/
def addMember (members : SymbolTable SymbolId) (location : Location) (name : String)
    (sort : SymbolSort) (type : TypeId) : Compile (SymbolTable SymbolId) := do
  let symbol ← Compile.addSymbol name sort type
  Compile.addLocation symbol location
  return members.insert name symbol

/-- Adds a method to the members of a type: one more signature of a method of the same name, else a
new member. -/
def addMethod (members : SymbolTable SymbolId) (location : Location) (name : String)
    (signature : Signature) : Compile (SymbolTable SymbolId) := do
  match (← get).methodType? members name with
  | some type =>
    Compile.addSignature type signature
    return members
  | none =>
    let type ← Compile.addType (.object none .empty [signature])
    addMember members location name .method type

mutual

/-- The type that an annotation in a scope means. -/
def typeNode (file : FileId) (lookup : TypeLookup) (scope : ScopeId) : TypeNode → Resolve TypeId
  | .word _ word => return .ofWord word
  | .literal _ _ value => literalType value
  | .reference _ name => lookup scope name
  | .array _ element => do
    let element ← typeNode file lookup scope element
    compile (Compile.shareType (.array element))
  | .union _ members => do
    let members ← typeNodes file lookup scope members
    compile (Compile.unionOf members)
  | .function _ parameters result => do
    let parameters ← parameterTypes file lookup scope parameters
    let result ← typeNode file lookup scope result
    compile (Compile.addType
      (.object none .empty [⟨parameters.1, result, parameters.2⟩]))
  | .object _ members => do
    let members ← elements file lookup scope members .empty
    compile (Compile.addType (.object none members []))
  | .parenthesized _ inner => typeNode file lookup scope inner

/-- The types that annotations mean, in order. -/
def typeNodes (file : FileId) (lookup : TypeLookup) (scope : ScopeId) :
    List TypeNode → Resolve (List TypeId)
  | [] => return []
  | first :: rest => do
    let type ← typeNode file lookup scope first
    return type :: (← typeNodes file lookup scope rest)

/-- The type that an annotation means, `any` without one. -/
def optionalType (file : FileId) (lookup : TypeLookup) (scope : ScopeId) :
    Option TypeNode → Resolve TypeId
  | none => return .any
  | some type => typeNode file lookup scope type

/-- The type of a parameter; a rest parameter without a type takes anything. -/
def parameterType (file : FileId) (lookup : TypeLookup) (scope : ScopeId) :
    Parameter → Resolve (String × TypeId)
  | .mk _ rest name none => do
    let type ← if rest.isSome then compile (Compile.shareType (.array .any)) else pure .any
    return (name.text, type)
  | .mk _ _ name (some type) => do
    return (name.text, ← typeNode file lookup scope type)

/-- The names and types of parameters, and whether the last is a rest parameter. -/
def parameterTypes (file : FileId) (lookup : TypeLookup) (scope : ScopeId) :
    List Parameter → Resolve (List (String × TypeId) × Bool)
  | [] => return ([], false)
  | first :: rest => do
    let parameter ← parameterType file lookup scope first
    let (others, hasRest) ← parameterTypes file lookup scope rest
    return (parameter :: others, if rest.isEmpty then first.isRest else hasRest)

/-- Adds a member to those of a type; a missing name adds nothing. -/
def element (file : FileId) (lookup : TypeLookup) (scope : ScopeId) :
    TypeElement → SymbolTable SymbolId → Resolve (SymbolTable SymbolId)
  | .property _ name type?, members =>
    if name.isMissing then return members
    else do
      let type ← optionalType file lookup scope type?
      compile (addMember members ⟨file, name.node.span.start⟩ name.text .property type)
  | .method _ name parameters result, members =>
    if name.isMissing then return members
    else do
      let parameters ← parameterTypes file lookup scope parameters
      let result ← optionalType file lookup scope result
      compile (addMethod members ⟨file, name.node.span.start⟩ name.text
        ⟨parameters.1, result, parameters.2⟩)

/-- Adds members to those of a type, in order. -/
def elements (file : FileId) (lookup : TypeLookup) (scope : ScopeId) :
    List TypeElement → SymbolTable SymbolId → Resolve (SymbolTable SymbolId)
  | [], members => return members
  | first :: rest, members => do
    let members ← element file lookup scope first members
    elements file lookup scope rest members

end

/-- The signature of a declared function. -/
def signature (file : FileId) (lookup : TypeLookup) (scope : ScopeId)
    (parameters : List Parameter) (result : Option TypeNode) : Resolve Signature := do
  let parameters ← parameterTypes file lookup scope parameters
  let result ← optionalType file lookup scope result
  return ⟨parameters.1, result, parameters.2⟩

/-- The signatures among declarations, in order. -/
def signatures (file : FileId) (lookup : TypeLookup) : List Declaration → Resolve (List Signature)
  | [] => return []
  | .function scope parameters result :: rest => do
    let first ← signature file lookup scope parameters result
    return first :: (← signatures file lookup rest)
  | _ :: rest => signatures file lookup rest

/-- The type of a value that is written down, read at an offset. Only literals, names and operators
in front are understood; anything else is `any`. -/
def valueType (file : FileId) (resolve : SymbolId → Resolve TypeId) (scope : ScopeId)
    (offset : Nat) : Expr → Resolve TypeId
  | .literal _ .null => return .ofWord .null
  | .literal _ value => literalType value
  | .parenthesized _ inner => valueType file resolve scope offset inner
  | .unary _ .minus (.literal _ (.number digits)) =>
    compile (Compile.shareType (.numberLiteral ("-" ++ digits)))
  | .unary _ .not _ => return .ofWord .boolean
  | .unary _ .typeOf _ => return .ofWord .string
  | .unary _ .void _ => return .ofWord .undefined
  | .unary _ _ _ => return .ofWord .number
  | .identifier name => do
    match (← program).resolveValue? scope name.text with
    | some symbol =>
      let _ ← resolve symbol
      return (← program).typeAt symbol ⟨file, offset⟩
    | none =>
      if name.text = "undefined" then return .ofWord .undefined
      else
        compile (Compile.report file name.node.span (.unknownName name.text))
        return .any
  | _ => return .any

/-- What a type annotation means by a name: a declared type, `Function`, `Object`, or nothing that
is known. A missing name means `any`. -/
def reference (file : FileId) (resolve : SymbolId → Resolve TypeId) : TypeLookup :=
  fun scope name => do
    if name.isMissing then return .any
    match (← program).resolveType? scope name.text with
    | some symbol => resolve symbol
    | none =>
      if name.text = "Function" then return .globalFunction
      else if name.text = "Object" then return .globalObject
      else
        compile (Compile.report file name.node.span (.unknownName name.text))
        return .any

/-- The span of the name of an alias among declarations. -/
def aliasSpan? : List Declaration → Option Span
  | [] => none
  | .typeAlias _ nameSpan _ :: _ => some nameSpan
  | _ :: rest => aliasSpan? rest

/-- The type that the first declaration of a symbol, with those that merge into it, gives. -/
def declaredType (file : FileId) (resolve : SymbolId → Resolve TypeId) (symbol : SymbolId)
    (first : Declaration) (all : List Declaration) : Resolve TypeId := do
  let lookup := reference file resolve
  match first with
  | .variableDecl scope _ (some type) _ => typeNode file lookup scope type
  | .variableDecl scope constant none (some initializer) =>
    let offset := ((((← program).symbol symbol).declarations.head?).map Location.offset).getD 0
    let type ← valueType file resolve scope offset initializer
    let widened := (← program).types.widen type
    return if constant then type else widened
  | .variableDecl _ _ none none => return .any
  | .function _ _ _ =>
    let list ← signatures file lookup all
    compile (Compile.addType (.object none .empty list))
  | .interface _ _ => return ((← program).symbol symbol).type
  | .typeAlias scope _ type => typeNode file lookup scope type

/-- Resolves a symbol while the symbols in `active` are being resolved. Each step down adds a symbol
of the file to `active`, so `limit` need not exceed their number. -/
def symbol (file : FileId) (pending : Pending) :
    (limit : Nat) → (active : List SymbolId) → SymbolId → Resolve TypeId
  | 0, _, _ => return .any
  | limit + 1, active, id => do
    let declarations := pending.declarationsOf id
    if active.contains id then
      if let some span := aliasSpan? declarations then
        compile (Compile.report file span (.circularAlias ((← program).symbol id).name))
      return .any
    else if (← get).resolved.contains id then
      return ((← program).symbol id).type
    else match declarations with
      | [] => return ((← program).symbol id).type
      | first :: _ =>
        let type ← declaredType file (symbol file pending limit (id :: active)) id first declarations
        compile (Compile.updateSymbol id fun s => { s with type })
        modify fun s => { s with resolved := id :: s.resolved }
        return type

/-- Resolves a symbol when no other is being resolved. -/
def fresh (file : FileId) (pending : Pending) : SymbolId → Resolve TypeId :=
  symbol file pending (pending.length + 1) []

/-- Adds the members that the declarations of an interface list, in order. -/
def interfaceElements (file : FileId) (lookup : TypeLookup) :
    List Declaration → SymbolTable SymbolId → Resolve (SymbolTable SymbolId)
  | [], members => return members
  | .interface scope list :: rest, members => do
    let members ← elements file lookup scope list members
    interfaceElements file lookup rest members
  | _ :: rest, members => interfaceElements file lookup rest members

/-- Gives an interface its members. -/
def interfaceMembers (file : FileId) (pending : Pending) (id : SymbolId) : Resolve Unit := do
  let lookup := reference file (fresh file pending)
  let members ← interfaceElements file lookup (pending.declarationsOf id) .empty
  modify fun s =>
    let type := (s.program.symbol id).type
    { s with
      program := { s.program with types := s.program.types.setMembers type members }
      resolved := id :: s.resolved }

/-- What is left of a declared union when a value of a type is assigned: the members that the value
may belong to, or all of them if there is none. -/
def narrowed (declared assigned : TypeId) : Compile TypeId := do
  let types := (← get).types
  match types.get declared with
  | .union members =>
    let parts := types.constituents assigned
    let kept := members.filter fun member =>
      (types.get member).flags.has TypeFlags.unknown ||
        parts.any fun part => part = member || types.widen part = member
    if kept.isEmpty then return declared else Compile.unionOf kept
  | _ => return declared

/-- Records an assignment. An unknown name and a constant are reported, and only variables are
narrowed. -/
def assignment (file : FileId) (pending : Pending) (a : PendingAssignment) : Resolve Unit := do
  let name := a.target.text
  let span := a.target.node.span
  match (← program).resolveValue? a.scope name with
  | none => compile (Compile.report file span (.unknownName name))
  | some id =>
    let target := (← program).symbol id
    if target.sort = .constant then
      compile (Compile.report file span (.assignmentToConstant name))
    else if target.sort.isVariable then
      let assigned ← valueType file (fresh file pending) a.scope a.stop a.value
      let type ← compile (narrowed target.type assigned)
      compile (Compile.updateScope a.scope fun scope =>
        { scope with assignments := scope.assignments ++ [⟨id, a.stop, type⟩] })

/-- Resolves everything a file declares: the members of interfaces, then every symbol, then the
assignments, each in order. -/
def everything (file : FileId) (bound : List Bound) : Resolve Unit := do
  let pending : Pending := bound.filterMap fun
    | .declaration id declaration => some (id, declaration)
    | .assignment _ => none
  let symbols := pending.symbols
  symbols.forM fun id => do
    if ((← program).symbol id).sort = .interface then interfaceMembers file pending id
  symbols.forM fun id => do
    let _ ← fresh file pending id
  bound.forM fun
    | .assignment a => assignment file pending a
    | .declaration _ _ => return ()

end Resolve

/-- Adds a file to a program. Its declarations are not visible to other files. -/
def Program.add (program : Program) (file : SourceFile) : FileId × Program :=
  let compiled : Compile FileId := do
    let length := file.node.span.stop
    let id ← Compile.addFile file.name length
    let scope ← Compile.addScope id [] ⟨0, length⟩
    let bound ← Bind.statements ⟨id, scope, scope, []⟩ file.statements
    modify fun program => ((Resolve.everything id bound).run ⟨program, []⟩).2.program
    return id
  compiled.run program

end ExpressionTyping
