import ExpressionTyping.CommandLine.Arguments
import ExpressionTyping.CommandLine.Files
import ExpressionTyping.CommandLine.Report
import ExpressionTyping.Settings.Basic

/-!
# Runs of the command line

A run reads its arguments, then the settings, then the files of declarations, and checks the
expressions. Arguments count before settings. The first thing that cannot be read ends the run.
-/

set_option autoImplicit false

namespace ExpressionTyping

namespace CommandLine

/-- Why a run cannot check anything. -/
inductive RunFault where
  /-- The file of settings cannot be read. -/
  | unreadableSettings (path : String)
  /-- The file of settings is not a settings document. -/
  | invalidSettings (path : String)
  /-- A file of declarations cannot be read. -/
  | unreadable (path : String)
  /-- There are no expressions. -/
  | noExpressions
deriving DecidableEq, Inhabited

namespace RunFault

/-- The class of a fault. -/
def label : RunFault → String
  | unreadableSettings _ | invalidSettings _ => "exprc::config"
  | unreadable _ => "exprc::io"
  | noExpressions => "exprc::usage"

/-- The text of a fault. -/
def message : RunFault → String
  | unreadableSettings path => s!"cannot read config file '{path}'"
  | invalidSettings path => s!"invalid config file '{path}'"
  | unreadable path => s!"cannot read '{path}'"
  | noExpressions => "no expressions to check"

end RunFault

/-- How a run ends. -/
inductive RunOutcome where
  /-- The version is shown. -/
  | version
  /-- The arguments are refused. -/
  | refused (fault : ArgumentFault)
  /-- Nothing can be checked. -/
  | failed (fault : RunFault)
  /-- A canonical type cannot be had. -/
  | broken (fault : Fault)
  /-- The expressions have been checked. -/
  | checked (reports : List Report)

namespace RunOutcome

/-- The exit code of a run. -/
def exitCode : RunOutcome → Nat
  | version => 0
  | refused _ | failed _ => 2
  | broken _ => 101
  | checked reports => if reports.isEmpty then 0 else 1

/-- What a run writes as output. -/
def output : RunOutcome → String
  | version => "exprc 0.1.0\n"
  | _ => ""

/-- What a run writes as errors. -/
def errors : RunOutcome → String
  | version => ""
  | refused fault => s!"error: {fault.message}\n"
  | failed fault => s!"{fault.label}: {fault.message}\n"
  | broken fault => fault.message?.getD "unknown file" ++ "\n"
  | checked reports => Report.summary reports

end RunOutcome

variable {m : Type → Type} [Monad m] [Files m]

/-- The settings file that counts if no other is given. -/
def defaultSettings : String := "exprcheck.json"

/-- The declarations' name if no file of them is given. -/
def defaultContext : String := "context.d.ts"

/-- Reads a settings file; its paths are seen from its directory. -/
def readSettings (path : String) : ExceptT RunFault m Settings := do
  match ← (Files.read? path : m _) with
  | none => throw (.unreadableSettings path)
  | some text =>
    match Settings.parse text with
    | .ok settings => return settings.resolve (Path.parent path)
    | .error _ => throw (.invalidSettings path)

/-- The settings of a run: from the file given, else from the default file if there is one. -/
def settingsOf (arguments : Arguments) : ExceptT RunFault m Settings := do
  match arguments.project? with
  | some path => readSettings path
  | none =>
    if ← (Files.pathExists defaultSettings : m _) then readSettings defaultSettings
    else return {}

/-- Reads a file of declarations. -/
def readDeclarations (path : String) : ExceptT RunFault m String := do
  match ← (Files.read? path : m _) with
  | some text => return text
  | none => throw (.unreadable path)

/-- The environment of a run; a stub reads no files. -/
def environmentOf (stub : Bool) (context? builtIns? : Option String) :
    ExceptT RunFault m Environment := do
  if stub then return .stub
  else
    let context ← match context? with
      | some path => readDeclarations path
      | none => pure ""
    let builtIns ← match builtIns? with
      | some path => readDeclarations path
      | none => pure Session.defaultBuiltIns
    return .declared (context?.getD defaultContext) context builtIns

/-- What a run checks: an environment and expressions. What the arguments say counts before what the
settings say. -/
def prepare (arguments : Arguments) : ExceptT RunFault m (Environment × List String) := do
  let settings ← settingsOf arguments
  let expressions :=
    if arguments.expressions.isEmpty then settings.expressions?.getD [] else arguments.expressions
  if expressions.isEmpty then throw .noExpressions
  let environment ← environmentOf arguments.stub (arguments.context? <|> settings.context?)
    (arguments.builtIns? <|> settings.builtIns?)
  return (environment, expressions)

/-- Runs the command line. -/
def run (texts : List String) : m RunOutcome := do
  match Invocation.ofArguments texts with
  | .error fault => return .refused fault
  | .ok .version => return .version
  | .ok (.check arguments) =>
    match ← (prepare arguments).run with
    | .error fault => return .failed fault
    | .ok (environment, expressions) =>
      match environment.reports expressions with
      | .ok reports => return .checked reports
      | .error fault => return .broken fault

end CommandLine

end ExpressionTyping
