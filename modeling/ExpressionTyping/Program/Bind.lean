import ExpressionTyping.Program.Basic
import ExpressionTyping.Syntax.Statement

/-!
# Binding names

Binding walks the statements of a file and gives every declared name a symbol. A block opens a scope
of its own, and `var` variables belong to the scope of the file. Declarations of one function, one
interface or one `var` variable add to each other; any other second declaration of a name is
reported. Types are not looked at: each declaration is handed on with the scope it stands in.
-/

set_option autoImplicit false

namespace ExpressionTyping

/-- What a declaration says about its symbol, with the scope it stands in. -/
inductive Declaration where
  /-- A variable. -/
  | variableDecl (scope : ScopeId) (constant : Bool) (type? : Option TypeNode)
      (initializer : Option Expr)
  /-- One signature of a function. -/
  | function (scope : ScopeId) (parameters : List Parameter) (result : Option TypeNode)
  /-- Members of an interface. -/
  | interface (scope : ScopeId) (members : List TypeElement)
  /-- What an alias stands for. -/
  | typeAlias (scope : ScopeId) (nameSpan : Span) (type : TypeNode)

/-- An assignment statement to a name. -/
structure PendingAssignment where
  /-- The scope it stands in. -/
  scope : ScopeId
  /-- The name assigned to. -/
  target : Identifier
  /-- The value assigned. -/
  value : Expr
  /-- Where the statement ends. -/
  stop : Nat

/-- What binding hands on. -/
inductive Bound where
  /-- A declaration and its symbol. -/
  | declaration (symbol : SymbolId) (declaration : Declaration)
  /-- An assignment. -/
  | assignment (assignment : PendingAssignment)

/-- Where in a file binding stands. -/
structure Site where
  /-- The file. -/
  file : FileId
  /-- The scope of the file. -/
  fileScope : ScopeId
  /-- The innermost scope. -/
  scope : ScopeId
  /-- The scopes around the innermost one, innermost first. -/
  enclosing : List ScopeId

namespace Bind

open Compile

/-- Notes where a symbol is declared and by which node. -/
def recordDeclaration (site : Site) (symbol : SymbolId) (name : Identifier) (declaration : Nat) :
    Compile Unit := do
  addLocation symbol ⟨site.file, name.node.span.start⟩
  updateFile site.file fun info =>
    { info with declarations := (declaration, symbol) :: info.declarations }

/-- Declares a value in a scope. A second declaration that does not merge is reported and gets a
symbol that no name leads to. -/
def declareValue (site : Site) (target : ScopeId) (name : Identifier) (sort : SymbolSort)
    (declaration : Nat) : Compile SymbolId := do
  let program ← get
  let symbol ← match (program.scope target).values.get? name.text with
    | some existing =>
      if (program.symbol existing).sort.merges sort then pure existing
      else
        report site.file name.node.span (.duplicateName name.text)
        addSymbol name.text sort .any
    | none =>
      let symbol ← addSymbol name.text sort .any
      updateScope target fun scope => { scope with values := scope.values.insert name.text symbol }
      pure symbol
  recordDeclaration site symbol name declaration
  return symbol

/-- Declares a type in the innermost scope. A second declaration that does not merge is reported
and gets no symbol. -/
def declareType (site : Site) (name : Identifier) (sort : SymbolSort) (declaration : Nat) :
    Compile (Option SymbolId) := do
  let program ← get
  match (program.scope site.scope).types.get? name.text with
  | some existing =>
    if (program.symbol existing).sort.merges sort then
      recordDeclaration site existing name declaration
      return some existing
    else
      report site.file name.node.span (.duplicateName name.text)
      return none
  | none =>
    let type ← if sort = .interface then addType (.named name.text) else pure .any
    let symbol ← addSymbol name.text sort type
    updateScope site.scope fun scope => { scope with types := scope.types.insert name.text symbol }
    recordDeclaration site symbol name declaration
    return some symbol

/-- The scope and the sort of a variable declared by a form. -/
def variableTarget (site : Site) : VariableForm → ScopeId × SymbolSort
  | .hoisted => (site.fileScope, .hoistedVariable)
  | .block => (site.scope, .blockVariable)
  | .constant => (site.scope, .constant)

/-- Binds the variables of a declaration; a missing name declares nothing. -/
def variableList (site : Site) (form : VariableForm) : List VariableDeclaration → Compile (List Bound)
  | [] => return []
  | declaration :: rest => do
    if declaration.name.isMissing then variableList site form rest
    else
      let (target, sort) := variableTarget site form
      let symbol ← declareValue site target declaration.name sort declaration.node.id
      let bound := Bound.declaration symbol
        (.variableDecl site.scope (form = .constant) declaration.type? declaration.initializer)
      return bound :: (← variableList site form rest)

/-- Binds a function; a missing name declares nothing. -/
def function (site : Site) (declaration : FunctionDeclaration) : Compile (List Bound) := do
  if declaration.name.isMissing then return []
  let symbol ← declareValue site site.scope declaration.name .function declaration.node.id
  return [.declaration symbol (.function site.scope declaration.parameters declaration.result)]

/-- Binds an interface. -/
def interface (site : Site) (declaration : InterfaceDeclaration) : Compile (List Bound) := do
  match ← declareType site declaration.name .interface declaration.node.id with
  | some symbol => return [.declaration symbol (.interface site.scope declaration.members)]
  | none => return []

/-- Binds a type alias. -/
def typeAlias (site : Site) (declaration : AliasDeclaration) : Compile (List Bound) := do
  match ← declareType site declaration.name .typeAlias declaration.node.id with
  | some symbol =>
    return [.declaration symbol (.typeAlias site.scope declaration.name.node.span declaration.type)]
  | none => return []

/-- An assignment to a name, if a statement is one. -/
def assignment (site : Site) (node : Node) : Expr → List Bound
  | .assign _ (.identifier target) _ value =>
    [.assignment ⟨site.scope, target, value, node.span.stop⟩]
  | _ => []

mutual

/-- Binds a statement. -/
def statement (site : Site) : Statement → Compile (List Bound)
  | .variableList list => variableList site list.form list.declarations
  | .function declaration => function site declaration
  | .interface declaration => interface site declaration
  | .typeAlias declaration => typeAlias site declaration
  | .block node body => do
    let scope ← addScope site.file (site.scope :: site.enclosing) node.span
    statements { site with scope, enclosing := site.scope :: site.enclosing } body
  | .expression node value => return assignment site node value
  | .empty _ => return []

/-- Binds statements in order. -/
def statements (site : Site) : List Statement → Compile (List Bound)
  | [] => return []
  | first :: rest => do
    let bound ← statement site first
    return bound ++ (← statements site rest)

end

end Bind

end ExpressionTyping
