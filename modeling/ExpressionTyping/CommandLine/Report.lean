import ExpressionTyping.Session.Basic
import ExpressionTyping.Text.Position

/-!
# Reports

A report is a diagnostic together with the text it is about. The declarations are reported first,
then each expression in turn. An expression that cannot be parsed is not checked.
-/

set_option autoImplicit false

namespace ExpressionTyping

namespace CommandLine

/-- A diagnostic and the text its span refers to. -/
structure Report where
  /-- What is wrong. -/
  diagnostic : Diagnostic
  /-- The text. -/
  text : String

namespace Report

/-- A report on one line: file, line and column counted from one, category, code and text. -/
def line (report : Report) : String :=
  let diagnostic := report.diagnostic
  let position := (LineMap.ofText report.text).position diagnostic.span.start
  let file := diagnostic.file?.getD ""
  let place := s!"{file}:{position.line + 1}:{position.column + 1}"
  s!"{place} - {diagnostic.category.label} EC{diagnostic.code}: {diagnostic.message}\n"

/-- All reports, each on its line, and their number if there are any. -/
def summary (reports : List Report) : String :=
  let count := reports.length
  let ending := if count = 1 then "" else "s"
  String.join (reports.map line) ++ if count = 0 then "" else s!"\nFound {count} error{ending}.\n"

variable {m : Type → Type} [Monad m]

/-- The reports on an expression, which is checked only if it can be parsed. -/
def ofExpression (check : Expr → m (List Issue)) (name text : String) : m (List Report) := do
  let parsed := Expr.parse text
  let issues ← if parsed.issues.isEmpty then check parsed.tree else pure parsed.issues
  return issues.map fun issue => ⟨issue.diagnostic (some name), text⟩

/-- The reports on expressions in turn; the first has the number `first`. -/
def ofExpressions (check : Expr → m (List Issue)) : (first : Nat) → List String → m (List Report)
  | _, [] => return []
  | first, text :: rest => do
    let reports ← ofExpression check s!"<expr {first}>" text
    return reports ++ (← ofExpressions check (first + 1) rest)

end Report

/-- What expressions are checked against. -/
inductive Environment where
  /-- Static built-ins and no declarations. -/
  | stub
  /-- A file of declarations of a name and a text, and a text of built-in declarations. -/
  | declared (name text builtIns : String)
deriving DecidableEq, Inhabited

namespace Environment

/-- The reports on a file of declarations and then on expressions at its end. -/
def sessionReports (name text builtIns : String) (expressions : List String) :
    Session (List Report) := do
  let parsed := SourceFile.parse name text
  let (file, program) := (← Session.program).add parsed.tree
  (set program : Compile Unit)
  let scope ← Session.scopeAt (← Session.endOfFile file)
  let inParse := parsed.issues.map (Issue.diagnostic (some name))
  let inProgram := program.issues.map FileIssue.diagnostic
  let inExpressions ←
    Report.ofExpressions (fun e => e.check (Session.typeOf builtIns) scope) 1 expressions
  return (inParse ++ inProgram).map (⟨·, text⟩) ++ inExpressions

/-- The reports on expressions in an environment. -/
def reports (environment : Environment) (expressions : List String) :
    Except Fault (List Report) :=
  match environment with
  | stub =>
    let check := fun (e : Expr) => e.check StaticRepository.typeOf SymbolTable.empty
    ((Report.ofExpressions check 1 expressions).run.run BuiltInCache.empty).1
  | declared name text builtIns =>
    (((sessionReports name text builtIns expressions).run.run BuiltInCache.empty).run
      Program.empty).1.1

end Environment

end CommandLine

end ExpressionTyping
