import ExpressionTyping.CommandLine.Run

/-!
# The command line

Runs the command line on the files of the system.
-/

set_option autoImplicit false

namespace ExpressionTyping

/-- The text of a file, if it can be read. -/
def readText? (path : String) : IO (Option String) := do
  try
    return some (← IO.FS.readFile path)
  catch _ =>
    return none

/-- Whether a path leads to anything. -/
def leadsSomewhere (path : String) : IO Bool := do
  try
    let _ ← IO.FS.Handle.mk path .read
    return true
  catch
    | .noFileOrDirectory .. => return false
    | _ => return true

instance : CommandLine.Files IO where
  pathExists := leadsSomewhere
  read? := readText?

end ExpressionTyping

/-- Runs the command line with arguments. -/
def main (arguments : List String) : IO UInt32 := do
  let outcome ← ExpressionTyping.CommandLine.run arguments
  (← IO.getStdout).putStr outcome.output
  (← IO.getStderr).putStr outcome.errors
  return outcome.exitCode.toUInt32
