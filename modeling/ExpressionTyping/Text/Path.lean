/-!
# Paths

A path is text whose parts are divided by slashes. Joining and taking the parent work on the text
alone and keep parts such as `..` as they are written.
-/

set_option autoImplicit false

namespace ExpressionTyping

namespace Path

/-- Whether a path starts at the root. -/
def isAbsolute (path : String) : Bool :=
  path.toList.head? = some '/'

/-- The path `path` as seen from `base`. An absolute path stays as it is. -/
def join (base path : String) : String :=
  if isAbsolute path then path
  else
    match base.toList.getLast? with
    | none | some '/' => base ++ path
    | some _ => base ++ "/" ++ path

/-- Drops slashes and parts that are a single dot from the end of a path, which is given from its
end. A leading dot and the root stay. -/
def trimReversed : List Char → List Char
  | '/' :: c :: rest => trimReversed (c :: rest)
  | '.' :: '/' :: rest => trimReversed ('/' :: rest)
  | chars => chars

/-- The directory of a file: the path without its last part. -/
def parent (path : String) : String :=
  String.ofList (trimReversed (path.toList.reverse.dropWhile (· ≠ '/'))).reverse

/-- The parts between slashes, from left to right; never empty. -/
def splitChars : List Char → List (List Char)
  | [] => [[]]
  | c :: rest =>
    if c = '/' then [] :: splitChars rest
    else
      match splitChars rest with
      | [] => [[c]]
      | part :: parts => (c :: part) :: parts

/-- The parts of a path. -/
def parts (path : String) : List String :=
  (splitChars path.toList).map String.ofList

end Path

end ExpressionTyping
