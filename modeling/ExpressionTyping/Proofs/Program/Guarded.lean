import ExpressionTyping.Program.Display
import ExpressionTyping.Program.Resolve

/-!
# Programs with look-ups that fail

Types, symbols, scopes and files refer to each other by places, and a look-up at a place where
nothing stands gives a default. Here are the steps that build a program, and the questions it
answers, with look-ups that fail instead. They also fail where a problem is reported over bounds
that are out of order, where a block with such bounds is asked whether it covers an offset, where a
symbol without a declaration is asked for its first one, and where more symbols are being resolved
than a file declares.

`Guarded` is a step of that kind. Where a step has no look-up of its own it is taken over by
`Guarded.step`.
-/

set_option autoImplicit false

namespace ExpressionTyping

/-! ## Questions -/

/-- What stands at a place of the table, if anything does. -/
def TypeTable.get? (table : TypeTable) (id : TypeId) : Option TypeData :=
  table.entries[id.index]?

/-- What stands at places of the table, if something does at each. -/
def TypeTable.getAll? (table : TypeTable) (ids : List TypeId) : Option (List TypeData) :=
  ids.mapM table.get?

/-- Whether an offset lies in the scope; the bounds of a block have to be in order. -/
def Scope.covers? (scope : Scope) (offset : Nat) : Option Bool :=
  if scope.enclosing.isEmpty then return scope.span.containsInclusive offset
  else do
    let span ← Span.ofBounds? scope.span.start scope.span.stop
    return span.contains offset

namespace Program

variable (program : Program)

/-- The symbol at a place, if there is one. -/
def symbol? (id : SymbolId) : Option Symbol :=
  program.symbols[id.index]?

/-- The scope at a place, if there is one. -/
def scope? (id : ScopeId) : Option Scope :=
  program.scopes[id.index]?

/-- The file at a place, if there is one. -/
def file? (id : FileId) : Option FileInfo :=
  program.files[id.index]?

/-- The first of scopes in whose table a name stands. -/
def seek? (table : Scope → SymbolTable SymbolId) (name : String) :
    List ScopeId → Option (Option SymbolId)
  | [] => return none
  | id :: rest => do
    match (table (← program.scope? id)).get? name with
    | some symbol => return some symbol
    | none => seek? table name rest

/-- What a name means in a scope by one of the tables. -/
def lookup? (table : Scope → SymbolTable SymbolId) (scope : ScopeId) (name : String) :
    Option (Option SymbolId) := do
  let innermost ← program.scope? scope
  program.seek? table name (scope :: innermost.enclosing)

/-- A scope, and whether it covers an offset. -/
def mark? (offset : Nat) (id : ScopeId) : Option (ScopeId × Bool) := do
  let scope ← program.scope? id
  return (id, ← scope.covers? offset)

/-- The scopes around a location, outermost first. -/
def scopesAt? (location : Location) : Option (List ScopeId) :=
  match program.file? location.file with
  | some info => do
    let marked ← info.scopes.mapM (program.mark? location.offset)
    return (marked.filter Prod.snd).map Prod.fst
  | none => return []

/-- The values visible at a location. -/
def symbolsAt? (location : Location) : Option (List SymbolId) := do
  let scopes ← (← program.scopesAt? location).mapM program.scope?
  return (SymbolTable.ofList (scopes.flatMap fun scope => scope.values.entries)).values

/-- The type of a symbol at a location. -/
def typeAt? (id : SymbolId) (location : Location) : Option TypeId := do
  let declared := (← program.symbol? id).type
  if (← program.types.get? declared).flags.has TypeFlags.union then
    let scopes ← (← program.scopesAt? location).mapM program.scope?
    let assignments := scopes.flatMap fun scope => scope.assignments.filter fun assignment =>
      assignment.symbol = id && assignment.offset ≤ location.offset
    match latest? assignments with
    | some assignment => return assignment.type
    | none => return declared
  else return declared

/-- The flags of a type. -/
def flags? (id : TypeId) : Option TypeFlags := do
  return (← program.types.get? id).flags

/-- The properties of an object or an array. -/
def properties? (id : TypeId) : Option (List SymbolId) := do
  match ← program.types.get? id with
  | .object _ members _ => return members.values
  | .array _ => return [lengthSymbol]
  | _ => return []

/-- The ways of calling a type. -/
def signatures? (id : TypeId) : Option (List Signature) := do
  match ← program.types.get? id with
  | .object _ _ signatures => return signatures
  | _ => return []

/-- The type of the elements, if a type is an array. -/
def elementType? (id : TypeId) : Option (Option TypeId) := do
  match ← program.types.get? id with
  | .array element => return some element
  | _ => return none

/-- The symbol of a declaration of a file, if it has one. -/
def declared? (file : FileId) (declaration : Nat) : Option (Option SymbolId) := do
  return (← program.file? file).declarations.lookup declaration

/-- The type of what a declaration of a file declares, if it declares anything. -/
def declaredType? (file : FileId) (declaration : Nat) : Option (Option TypeId) := do
  match ← program.declared? file declaration with
  | some id => return some (← program.symbol? id).type
  | none => return none

/-- The type of the method of a name among members, if there is one. -/
def methodOf? (members : SymbolTable SymbolId) (name : String) : Option (Option TypeId) := do
  match members.get? name with
  | some id =>
    let symbol ← program.symbol? id
    if symbol.sort = .method then return some symbol.type else return none
  | none => return none

/-- The name of a symbol. -/
def symbolName? (id : SymbolId) : Option String := do
  return (← program.symbol? id).name

variable (text : TypeId → Option String)

/-- A parameter of a signature. -/
def parameterText? (signature : Signature) (p : (String × TypeId) × Nat) : Option String := do
  let type ← text p.1.2
  let dots := if signature.hasRest && p.2 == signature.parameters.length - 1 then "..." else ""
  return dots ++ p.1.1 ++ ": " ++ type

/-- The parameters of a signature. -/
def parametersText? (signature : Signature) : Option String := do
  return ", ".intercalate (← signature.parameters.zipIdx.mapM (parameterText? text signature))

/-- A signature as a member with a name. -/
def signatureText? (name : String) (signature : Signature) : Option String := do
  return name ++ "(" ++ (← parametersText? text signature) ++ "): " ++ (← text signature.result)

/-- A member of an object type. -/
def memberTexts? (name : String) (id : SymbolId) : Option (List String) := do
  let member ← program.symbol? id
  match member.sort, ← program.types.get? member.type with
  | .method, .object none ⟨[]⟩ signatures => signatures.mapM (signatureText? text name)
  | _, _ => return [name ++ ": " ++ (← text member.type)]

/-- The text of a type, with a number of levels shown. -/
def display? : (levels : Nat) → TypeId → Option String
  | 0, _ => return "..."
  | levels + 1, id => do
    let text := display? levels
    match ← program.types.get? id with
    | .intrinsic word => return word.keyword.text
    | .stringLiteral value => return "\"" ++ value ++ "\""
    | .numberLiteral digits => return digits
    | .booleanLiteral value => return if value then "true" else "false"
    | .union members => return " | ".intercalate (← members.mapM text)
    | .array element =>
      if needsParentheses (← program.types.get? element) then
        return "(" ++ (← text element) ++ ")[]"
      else return (← text element) ++ "[]"
    | .object (some name) _ _ => return name
    | .object none ⟨[]⟩ [signature] =>
      return "(" ++ (← parametersText? text signature) ++ ") => " ++ (← text signature.result)
    | .object none members signatures =>
      let calls ← signatures.mapM (signatureText? text "")
      let others ← members.entries.mapM fun entry => program.memberTexts? text entry.1 entry.2
      let parts := calls ++ others.flatten
      return if parts.isEmpty then "\x7b\x7d" else "\x7b " ++ "; ".intercalate parts ++ " \x7d"

/-- The text of a type. -/
def typeText? (id : TypeId) : Option String :=
  program.display? displayLevels id

end Program

/-! ## Steps -/

/-- A step that may fail. -/
abbrev Guarded (σ : Type) := StateT σ Option

namespace Guarded

/-- A step that never fails. -/
def step {σ α : Type} (p : StateM σ α) : Guarded σ α :=
  fun s => some (p.run s)

/-- Changes a symbol, which has to be there. -/
def updateSymbol (id : SymbolId) (f : Symbol → Symbol) : Guarded Program Unit := do
  let _ ← (← get).symbol? id
  step (Compile.updateSymbol id f)

/-- Adds a place where a symbol is declared. -/
def addLocation (id : SymbolId) (location : Location) : Guarded Program Unit :=
  updateSymbol id fun symbol => { symbol with declarations := symbol.declarations ++ [location] }

/-- Changes a scope, which has to be there. -/
def updateScope (id : ScopeId) (f : Scope → Scope) : Guarded Program Unit := do
  let _ ← (← get).scope? id
  step (Compile.updateScope id f)

/-- Changes what is known of a file, which has to be there. -/
def updateFile (id : FileId) (f : FileInfo → FileInfo) : Guarded Program Unit := do
  let _ ← (← get).file? id
  step (Compile.updateFile id f)

/-- The union of types, which have to be there. -/
def unionOf (ids : List TypeId) : Guarded Program TypeId := do
  let _ ← (← get).types.getAll? ids
  step (Compile.unionOf ids)

/-- Reports a problem in a file, over bounds that have to be in order. -/
def report (file : FileId) (span : Span) (problem : Problem) : Guarded Program Unit := do
  let _ ← (← get).file? file
  let _ ← Span.ofBounds? span.start span.stop
  step (Compile.report file span problem)

/-! ## Binding -/

/-- Notes where a symbol is declared and by which node. -/
def recordDeclaration (site : Site) (symbol : SymbolId) (name : Identifier) (declaration : Nat) :
    Guarded Program Unit := do
  addLocation symbol ⟨site.file, name.node.span.start⟩
  updateFile site.file fun info =>
    { info with declarations := (declaration, symbol) :: info.declarations }

/-- Declares a value in a scope. -/
def declareValue (site : Site) (target : ScopeId) (name : Identifier) (sort : SymbolSort)
    (declaration : Nat) : Guarded Program SymbolId := do
  let program ← get
  let scope ← program.scope? target
  let symbol ← match scope.values.get? name.text with
    | some existing => do
      let found ← program.symbol? existing
      if found.sort.merges sort then pure existing
      else
        report site.file name.node.span (.duplicateName name.text)
        step (Compile.addSymbol name.text sort .any)
    | none => do
      let symbol ← step (Compile.addSymbol name.text sort .any)
      updateScope target fun scope => { scope with values := scope.values.insert name.text symbol }
      pure symbol
  recordDeclaration site symbol name declaration
  return symbol

/-- Declares a type in the innermost scope. -/
def declareType (site : Site) (name : Identifier) (sort : SymbolSort) (declaration : Nat) :
    Guarded Program (Option SymbolId) := do
  let program ← get
  let scope ← program.scope? site.scope
  match scope.types.get? name.text with
  | some existing =>
    let found ← program.symbol? existing
    if found.sort.merges sort then
      recordDeclaration site existing name declaration
      return some existing
    else
      report site.file name.node.span (.duplicateName name.text)
      return none
  | none =>
    let type ← if sort = .interface then step (Compile.addType (.named name.text)) else pure .any
    let symbol ← step (Compile.addSymbol name.text sort type)
    updateScope site.scope fun scope => { scope with types := scope.types.insert name.text symbol }
    recordDeclaration site symbol name declaration
    return some symbol

/-- Binds the variables of a declaration. -/
def variableList (site : Site) (form : VariableForm) :
    List VariableDeclaration → Guarded Program (List Bound)
  | [] => return []
  | declaration :: rest => do
    if declaration.name.isMissing then variableList site form rest
    else
      let (target, sort) := Bind.variableTarget site form
      let symbol ← declareValue site target declaration.name sort declaration.node.id
      let bound := Bound.declaration symbol
        (.variableDecl site.scope (form = .constant) declaration.type? declaration.initializer)
      return bound :: (← variableList site form rest)

/-- Binds a function. -/
def function (site : Site) (declaration : FunctionDeclaration) : Guarded Program (List Bound) := do
  if declaration.name.isMissing then return []
  let symbol ← declareValue site site.scope declaration.name .function declaration.node.id
  return [.declaration symbol (.function site.scope declaration.parameters declaration.result)]

/-- Binds an interface. -/
def interface (site : Site) (declaration : InterfaceDeclaration) :
    Guarded Program (List Bound) := do
  match ← declareType site declaration.name .interface declaration.node.id with
  | some symbol => return [.declaration symbol (.interface site.scope declaration.members)]
  | none => return []

/-- Binds a type alias. -/
def typeAlias (site : Site) (declaration : AliasDeclaration) : Guarded Program (List Bound) := do
  match ← declareType site declaration.name .typeAlias declaration.node.id with
  | some symbol =>
    return [.declaration symbol (.typeAlias site.scope declaration.name.node.span declaration.type)]
  | none => return []

mutual

/-- Binds a statement. -/
def statement (site : Site) : Statement → Guarded Program (List Bound)
  | .variableList list => variableList site list.form list.declarations
  | .function declaration => function site declaration
  | .interface declaration => interface site declaration
  | .typeAlias declaration => typeAlias site declaration
  | .block node body => do
    let scope ← step (Compile.addScope site.file (site.scope :: site.enclosing) node.span)
    statements { site with scope, enclosing := site.scope :: site.enclosing } body
  | .expression node value => return Bind.assignment site node value
  | .empty _ => return []

/-- Binds statements in order. -/
def statements (site : Site) : List Statement → Guarded Program (List Bound)
  | [] => return []
  | first :: rest => do
    let bound ← statement site first
    return bound ++ (← statements site rest)

end

/-! ## Resolving -/

/-- Runs a step of building the program. -/
def compile {α : Type} (step : Guarded Program α) : Guarded ResolveState α := do
  let s ← get
  let (result, program) ← step.run s.program
  set { s with program }
  return result

/-- The program as it stands. -/
def program : Guarded ResolveState Program :=
  step Resolve.program

/-- Adds a member to those of a type, as a new symbol. -/
def addMember (members : SymbolTable SymbolId) (location : Location) (name : String)
    (sort : SymbolSort) (type : TypeId) : Guarded Program (SymbolTable SymbolId) := do
  let symbol ← step (Compile.addSymbol name sort type)
  addLocation symbol location
  return members.insert name symbol

/-- Adds a method to the members of a type. The member of its name has to be there, and so has its
type if it is a method. -/
def addMethod (members : SymbolTable SymbolId) (location : Location) (name : String)
    (signature : Signature) : Guarded Program (SymbolTable SymbolId) := do
  let program ← get
  match ← program.methodOf? members name with
  | some type =>
    let _ ← program.types.get? type
    step (Compile.addSignature type signature)
    return members
  | none =>
    let type ← step (Compile.addType (.object none .empty [signature]))
    addMember members location name .method type

section Annotations

variable (file : FileId) (lookup : ScopeId → Identifier → Guarded ResolveState TypeId)
  (scope : ScopeId)

mutual

/-- The type that an annotation in a scope means. -/
def typeNode : TypeNode → Guarded ResolveState TypeId
  | .word _ word => return .ofWord word
  | .literal _ _ value => step (Resolve.literalType value)
  | .reference _ name => lookup scope name
  | .array _ element => do
    let element ← typeNode element
    compile (step (Compile.shareType (.array element)))
  | .union _ members => do
    let members ← typeNodes members
    compile (unionOf members)
  | .function _ parameters result => do
    let parameters ← parameterTypes parameters
    let result ← typeNode result
    compile (step (Compile.addType (.object none .empty [⟨parameters.1, result, parameters.2⟩])))
  | .object _ members => do
    let members ← elements members .empty
    compile (step (Compile.addType (.object none members [])))
  | .parenthesized _ inner => typeNode inner

/-- The types that annotations mean, in order. -/
def typeNodes : List TypeNode → Guarded ResolveState (List TypeId)
  | [] => return []
  | first :: rest => do
    let type ← typeNode first
    return type :: (← typeNodes rest)

/-- The type that an annotation means, `any` without one. -/
def optionalType : Option TypeNode → Guarded ResolveState TypeId
  | none => return .any
  | some type => typeNode type

/-- The type of a parameter. -/
def parameterType : Parameter → Guarded ResolveState (String × TypeId)
  | .mk _ rest name none => do
    let type ← if rest.isSome then compile (step (Compile.shareType (.array .any))) else pure .any
    return (name.text, type)
  | .mk _ _ name (some type) => do
    return (name.text, ← typeNode type)

/-- The names and types of parameters, and whether the last is a rest parameter. -/
def parameterTypes : List Parameter → Guarded ResolveState (List (String × TypeId) × Bool)
  | [] => return ([], false)
  | first :: rest => do
    let parameter ← parameterType first
    let (others, hasRest) ← parameterTypes rest
    return (parameter :: others, if rest.isEmpty then first.isRest else hasRest)

/-- Adds a member to those of a type. -/
def element : TypeElement → SymbolTable SymbolId → Guarded ResolveState (SymbolTable SymbolId)
  | .property _ name type?, members =>
    if name.isMissing then return members
    else do
      let type ← optionalType type?
      compile (addMember members ⟨file, name.node.span.start⟩ name.text .property type)
  | .method _ name parameters result, members =>
    if name.isMissing then return members
    else do
      let parameters ← parameterTypes parameters
      let result ← optionalType result
      compile (addMethod members ⟨file, name.node.span.start⟩ name.text
        ⟨parameters.1, result, parameters.2⟩)

/-- Adds members to those of a type, in order. -/
def elements :
    List TypeElement → SymbolTable SymbolId → Guarded ResolveState (SymbolTable SymbolId)
  | [], members => return members
  | first :: rest, members => do
    let members ← element first members
    elements rest members

end

/-- The signature of a declared function. -/
def signature (parameters : List Parameter) (result : Option TypeNode) :
    Guarded ResolveState Signature := do
  let parameters ← parameterTypes file lookup scope parameters
  let result ← optionalType file lookup scope result
  return ⟨parameters.1, result, parameters.2⟩

end Annotations

/-- The signatures among declarations, in order. -/
def signatures (file : FileId) (lookup : ScopeId → Identifier → Guarded ResolveState TypeId) :
    List Declaration → Guarded ResolveState (List Signature)
  | [] => return []
  | .function scope parameters result :: rest => do
    let first ← signature file lookup scope parameters result
    return first :: (← signatures file lookup rest)
  | _ :: rest => signatures file lookup rest

section Values

variable (file : FileId) (resolve : SymbolId → Guarded ResolveState TypeId)

/-- The type of a value that is written down, read at an offset. -/
def valueType (scope : ScopeId) (offset : Nat) : Expr → Guarded ResolveState TypeId
  | .literal _ .null => return .ofWord .null
  | .literal _ value => step (Resolve.literalType value)
  | .parenthesized _ inner => valueType scope offset inner
  | .unary _ .minus (.literal _ (.number digits)) =>
    compile (step (Compile.shareType (.numberLiteral ("-" ++ digits))))
  | .unary _ .not _ => return .ofWord .boolean
  | .unary _ .typeOf _ => return .ofWord .string
  | .unary _ .void _ => return .ofWord .undefined
  | .unary _ _ _ => return .ofWord .number
  | .identifier name => do
    match ← (← program).lookup? Scope.values scope name.text with
    | some symbol =>
      let _ ← resolve symbol
      (← program).typeAt? symbol ⟨file, offset⟩
    | none =>
      if name.text = "undefined" then return .ofWord .undefined
      else
        compile (report file name.node.span (.unknownName name.text))
        return .any
  | _ => return .any

/-- What a type annotation means by a name. -/
def reference (scope : ScopeId) (name : Identifier) : Guarded ResolveState TypeId := do
  if name.isMissing then return .any
  match ← (← program).lookup? Scope.types scope name.text with
  | some symbol => resolve symbol
  | none =>
    if name.text = "Function" then return .globalFunction
    else if name.text = "Object" then return .globalObject
    else
      compile (report file name.node.span (.unknownName name.text))
      return .any

/-- The type that the first declaration of a symbol, with those that merge into it, gives. -/
def declaredType (symbol : SymbolId) (first : Declaration) (all : List Declaration) :
    Guarded ResolveState TypeId := do
  let lookup := reference file resolve
  match first with
  | .variableDecl scope _ (some type) _ => typeNode file lookup scope type
  | .variableDecl scope constant none (some initializer) =>
    let location ← (← (← program).symbol? symbol).declarations.head?
    let type ← valueType file resolve scope location.offset initializer
    let types := (← program).types
    let _ ← types.get? type
    return if constant then type else types.widen type
  | .variableDecl _ _ none none => return .any
  | .function _ _ _ =>
    let list ← signatures file lookup all
    compile (step (Compile.addType (.object none .empty list)))
  | .interface _ _ => return (← (← program).symbol? symbol).type
  | .typeAlias scope _ type => typeNode file lookup scope type

end Values

/-- Resolves a symbol while the symbols in `active` are being resolved. -/
def symbol (file : FileId) (pending : Pending) :
    (limit : Nat) → (active : List SymbolId) → SymbolId → Guarded ResolveState TypeId
  | 0, _, _ => failure
  | limit + 1, active, id => do
    let declarations := pending.declarationsOf id
    if active.contains id then
      if let some span := Resolve.aliasSpan? declarations then
        compile (report file span (.circularAlias (← (← program).symbol? id).name))
      return .any
    else if (← get).resolved.contains id then
      return (← (← program).symbol? id).type
    else match declarations with
      | [] => return (← (← program).symbol? id).type
      | first :: _ =>
        let type ← declaredType file (symbol file pending limit (id :: active)) id first
          declarations
        compile (updateSymbol id fun s => { s with type })
        step (modify fun s => { s with resolved := id :: s.resolved })
        return type

/-- Resolves a symbol when no other is being resolved. -/
def fresh (file : FileId) (pending : Pending) : SymbolId → Guarded ResolveState TypeId :=
  symbol file pending (pending.length + 1) []

/-- Adds the members that the declarations of an interface list, in order. -/
def interfaceElements (file : FileId)
    (lookup : ScopeId → Identifier → Guarded ResolveState TypeId) :
    List Declaration → SymbolTable SymbolId → Guarded ResolveState (SymbolTable SymbolId)
  | [], members => return members
  | .interface scope list :: rest, members => do
    let members ← elements file lookup scope list members
    interfaceElements file lookup rest members
  | _ :: rest, members => interfaceElements file lookup rest members

/-- Gives an interface its members; its type has to be there. -/
def interfaceMembers (file : FileId) (pending : Pending) (id : SymbolId) :
    Guarded ResolveState Unit := do
  let lookup := reference file (fresh file pending)
  let members ← interfaceElements file lookup (pending.declarationsOf id) .empty
  let program := (← get).program
  let _ ← program.types.get? (← program.symbol? id).type
  step <| modify fun s =>
    let type := (s.program.symbol id).type
    { s with
      program := { s.program with types := s.program.types.setMembers type members }
      resolved := id :: s.resolved }

/-- What is left of a declared union when a value of a type is assigned. -/
def narrowed (declared assigned : TypeId) : Guarded Program TypeId := do
  let types := (← get).types
  match ← types.get? declared with
  | .union members =>
    let _ ← types.get? assigned
    let parts := types.constituents assigned
    let _ ← types.getAll? (members ++ parts)
    let kept := members.filter fun member =>
      (types.get member).flags.has TypeFlags.unknown ||
        parts.any fun part => part = member || types.widen part = member
    if kept.isEmpty then return declared else unionOf kept
  | _ => return declared

/-- Records an assignment. -/
def assignment (file : FileId) (pending : Pending) (a : PendingAssignment) :
    Guarded ResolveState Unit := do
  let name := a.target.text
  let span := a.target.node.span
  match ← (← program).lookup? Scope.values a.scope name with
  | none => compile (report file span (.unknownName name))
  | some id =>
    let target ← (← program).symbol? id
    if target.sort = .constant then
      compile (report file span (.assignmentToConstant name))
    else if target.sort.isVariable then
      let assigned ← valueType file (fresh file pending) a.scope a.stop a.value
      let type ← compile (narrowed target.type assigned)
      compile (updateScope a.scope fun scope =>
        { scope with assignments := scope.assignments ++ [⟨id, a.stop, type⟩] })

/-- Resolves everything a file declares. -/
def everything (file : FileId) (bound : List Bound) : Guarded ResolveState Unit := do
  let pending : Pending := bound.filterMap fun
    | .declaration id declaration => some (id, declaration)
    | .assignment _ => none
  let symbols := pending.symbols
  symbols.forM fun id => do
    if (← (← program).symbol? id).sort = .interface then interfaceMembers file pending id
  symbols.forM fun id => do
    let _ ← fresh file pending id
  bound.forM fun
    | .assignment a => assignment file pending a
    | .declaration _ _ => return ()

/-- Binds the statements of a file in a scope of its own. -/
def wholeFile (file : SourceFile) : Guarded Program (FileId × List Bound) := do
  let length := file.node.span.stop
  let id ← step (Compile.addFile file.name length)
  let scope ← step (Compile.addScope id [] ⟨0, length⟩)
  return (id, ← statements ⟨id, scope, scope, []⟩ file.statements)

end Guarded

/-- Adds a file to a program, with look-ups that fail. -/
def Program.add? (program : Program) (file : SourceFile) : Option (FileId × Program) := do
  let ((id, bound), program) ← (Guarded.wholeFile file).run program
  let (_, s) ← (Guarded.everything id bound).run ⟨program, []⟩
  return (id, s.program)

end ExpressionTyping
