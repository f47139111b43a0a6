import ExpressionTyping.Diagnostic.Problem
import ExpressionTyping.Text.Span

/-!
# Diagnostics

An issue is a problem at a place. A diagnostic is an issue as it is shown: a file, a span, a code,
a category and a text.
-/

set_option autoImplicit false

namespace ExpressionTyping

/-- A problem and the characters it concerns. -/
structure Issue where
  /-- Where the problem is. -/
  span : Span
  /-- What the problem is. -/
  problem : Problem
deriving DecidableEq, Inhabited

/-- How serious a diagnostic is. -/
inductive Category where
  | warning
  | error
deriving DecidableEq, Inhabited

/-- The word for a category. -/
def Category.label : Category → String
  | .warning => "warning"
  | .error => "error"

/-- A problem as shown to a reader. -/
structure Diagnostic where
  /-- The file the span refers to, if it has a name. -/
  file? : Option String
  /-- The characters concerned. -/
  span : Span
  /-- The number of the problem. -/
  code : Nat
  /-- How serious the problem is. -/
  category : Category
  /-- The text shown. -/
  message : String
deriving DecidableEq, Inhabited

namespace Diagnostic

/-- A diagnostic whose text is a template with its arguments put in. -/
def ofTemplate (file? : Option String) (span : Span) (code : Nat) (category : Category)
    (template : String) (arguments : List String) : Diagnostic :=
  ⟨file?, span, code, category, substitute template arguments⟩

/-- Whether the diagnostic is an error. -/
def isError (d : Diagnostic) : Bool :=
  d.category == .error

/-- The diagnostic on one line: file and offset, category, code, text and span. -/
def summary (d : Diagnostic) : String :=
  let place := match d.file? with
    | some file => s!"{file}({d.span.start}): "
    | none => ""
  s!"{place}{d.category.label} EC{d.code}: {d.message} {d.span.interval}"

end Diagnostic

namespace Issue

/-- An issue as a diagnostic of a file; every problem is an error. -/
def diagnostic (file? : Option String) (issue : Issue) : Diagnostic :=
  .ofTemplate file? issue.span issue.problem.code .error issue.problem.template
    issue.problem.arguments

/-- Issues ordered by where they start; issues at one place keep their order. -/
def sortByStart (issues : List Issue) : List Issue :=
  issues.mergeSort fun a b => a.span.start ≤ b.span.start

end Issue

end ExpressionTyping
