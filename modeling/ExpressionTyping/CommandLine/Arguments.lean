/-!
# Arguments of the command line

Arguments are options and expressions in any order. The value of an option follows it or is attached
to it: `-cV`, `-c=V`, `--context=V`. A value that follows may not look like an option. After `--`
every argument is an expression. Arguments are read from left to right up to the first that is wrong
or asks for the version.
-/

set_option autoImplicit false

namespace ExpressionTyping

namespace CommandLine

/-- The options that have a value. -/
inductive ValueOption where
  | project
  | context
  | builtIns
  | pretty
deriving DecidableEq, Inhabited

/-- How an option is written in full. -/
def ValueOption.label : ValueOption → String
  | .project => "--project"
  | .context => "--context"
  | .builtIns => "--builtins"
  | .pretty => "--pretty"

/-- The option written in full as a text. -/
def ValueOption.ofLabel? (text : String) : Option ValueOption :=
  [ValueOption.project, .context, .builtIns, .pretty].find? fun option => option.label == text

/-- The option written as a letter. -/
def ValueOption.ofLetter? : Char → Option ValueOption
  | 'p' => some .project
  | 'c' => some .context
  | _ => none

/-- Why arguments are refused. -/
inductive ArgumentFault where
  /-- There is no such option. -/
  | unknown (option : String)
  /-- The option occurs a second time. -/
  | repeated (option : String)
  /-- The option needs a value. -/
  | missingValue (option : String)
  /-- The option has no value. -/
  | unexpectedValue (option : String)
  /-- The value is neither `true` nor `false`. -/
  | notBoolean (value : String)
deriving DecidableEq, Inhabited

/-- The text of a fault. -/
def ArgumentFault.message : ArgumentFault → String
  | unknown option => s!"unexpected argument '{option}'"
  | repeated option => s!"the option '{option}' cannot be used twice"
  | missingValue option => s!"the option '{option}' needs a value"
  | unexpectedValue option => s!"the option '{option}' has no value"
  | notBoolean value => s!"'{value}' is neither 'true' nor 'false'"

/-- What the arguments say. -/
structure Arguments where
  /-- The expressions to check. -/
  expressions : List String := []
  /-- The file of settings. -/
  project? : Option String := none
  /-- The file of declarations. -/
  context? : Option String := none
  /-- The file of built-in declarations. -/
  builtIns? : Option String := none
  /-- Whether to check without declarations, against static built-ins. -/
  stub : Bool := false
  /-- Whether reports may be drawn for a terminal. -/
  pretty? : Option Bool := none
deriving DecidableEq, Inhabited

/-- What the command line asks for. -/
inductive Invocation where
  /-- To show the version. -/
  | version
  /-- To check expressions. -/
  | check (arguments : Arguments)
deriving DecidableEq, Inhabited

/-- The form of one argument. -/
inductive Argument where
  /-- An expression. -/
  | expression
  /-- The end of the options. -/
  | endOfOptions
  /-- `--stub`. -/
  | stub
  /-- A request for the version. -/
  | version
  /-- An option that has a value, and the value if it is attached. -/
  | valued (option : ValueOption) (attached? : Option String)
  /-- An argument that is wrong by itself. -/
  | wrong (fault : ArgumentFault)
deriving DecidableEq, Inhabited

namespace Argument

/-- The form of an argument written with two dashes: a name, and a value after an equals sign. -/
def ofLong (name : String) (attached? : Option String) : Argument :=
  match ValueOption.ofLabel? name with
  | some option => valued option attached?
  | none =>
    if name = "--stub" ∨ name = "--version" then
      if attached?.isSome then wrong (.unexpectedValue name)
      else if name = "--stub" then stub
      else version
    else wrong (.unknown name)

/-- The value attached to an option that is a letter. -/
def attachedToLetter? : List Char → Option String
  | [] => none
  | '=' :: value => some (String.ofList value)
  | value => some (String.ofList value)

/-- The form of an argument written with one dash: a letter, and what follows it. -/
def ofShort (letter : Char) (rest : List Char) : Argument :=
  if letter = 'V' then version
  else
    match ValueOption.ofLetter? letter with
    | some option => valued option (attachedToLetter? rest)
    | none => wrong (.unknown (String.ofList ['-', letter]))

/-- The form of an argument. A single dash is an expression. -/
def ofText (text : String) : Argument :=
  match text.toList with
  | ['-', '-'] => endOfOptions
  | '-' :: '-' :: rest =>
    let (name, value) := rest.span (· ≠ '=')
    ofLong ("--" ++ String.ofList name) (value.tail?.map String.ofList)
  | '-' :: letter :: rest => ofShort letter rest
  | _ => expression

end Argument

namespace Arguments

/-- Enters the value of an option that has none so far. -/
def enter {α : Type} (option : ValueOption) (old : Option α) (value : α) :
    Except ArgumentFault (Option α) :=
  match old with
  | some _ => .error (.repeated option.label)
  | none => .ok (some value)

/-- Reads `true` or `false`. -/
def boolean (value : String) : Except ArgumentFault Bool :=
  match value with
  | "true" => .ok true
  | "false" => .ok false
  | _ => .error (.notBoolean value)

/-- Sets an option. -/
def set (arguments : Arguments) (option : ValueOption) (value : String) :
    Except ArgumentFault Arguments := do
  match option with
  | .project => return { arguments with project? := ← enter option arguments.project? value }
  | .context => return { arguments with context? := ← enter option arguments.context? value }
  | .builtIns => return { arguments with builtIns? := ← enter option arguments.builtIns? value }
  | .pretty =>
    return { arguments with pretty? := ← enter option arguments.pretty? (← boolean value) }

/-- Sets `--stub`. -/
def setStub (arguments : Arguments) : Except ArgumentFault Arguments :=
  if arguments.stub then .error (.repeated "--stub") else .ok { arguments with stub := true }

/-- Adds expressions after those already there. -/
def addExpressions (arguments : Arguments) (expressions : List String) : Arguments :=
  { arguments with expressions := arguments.expressions ++ expressions }

/-- Reads arguments after those that gave `arguments`. -/
def readAll (arguments : Arguments) : List String → Except ArgumentFault Invocation
  | [] => .ok (.check arguments)
  | text :: rest =>
    match Argument.ofText text with
    | .expression => readAll (arguments.addExpressions [text]) rest
    | .endOfOptions => .ok (.check (arguments.addExpressions rest))
    | .stub => do readAll (← arguments.setStub) rest
    | .version => .ok .version
    | .valued option (some value) => do readAll (← arguments.set option value) rest
    | .valued option none =>
      match rest with
      | [] => .error (.missingValue option.label)
      | value :: rest => do
        if Argument.ofText value = .expression then
          readAll (← arguments.set option value) rest
        else .error (.missingValue option.label)
    | .wrong fault => .error fault

end Arguments

/-- Reads the arguments of the command line. -/
def Invocation.ofArguments (texts : List String) : Except ArgumentFault Invocation :=
  Arguments.readAll {} texts

end CommandLine

end ExpressionTyping
