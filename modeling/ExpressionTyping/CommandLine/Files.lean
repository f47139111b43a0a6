import ExpressionTyping.Text.Path

/-!
# Files

What a run needs of the files around it, and files kept in memory. Looking up a path in memory walks
its parts one by one: an empty part and a single dot stay, two dots go up, and each of them has to be
passed in a directory that exists.
-/

set_option autoImplicit false

namespace ExpressionTyping

namespace CommandLine

/-- Access to files by their paths. -/
class Files (m : Type → Type) where
  /-- Whether a path leads to a file or a directory. -/
  pathExists : String → m Bool
  /-- The text of a file, if it can be read. -/
  read? : String → m (Option String)

/-- Files in memory, by their paths from the working directory. -/
structure FileTree where
  /-- The parts of each path and the text of the file. -/
  files : List (List String × String)

namespace FileTree

/-- Whether a part of a path stays where it is. -/
def isIdle (part : String) : Bool :=
  part == "" || part == "."

/-- Files by the texts of their paths. -/
def ofList (files : List (String × String)) : FileTree :=
  ⟨files.map fun (path, text) => ((Path.parts path).filter (!isIdle ·), text)⟩

/-- The text of the file at a place. -/
def textAt? (tree : FileTree) (place : List String) : Option String :=
  tree.files.lookup place

/-- Whether a place is a directory: the working directory, or one that holds a file. -/
def isDirectory (tree : FileTree) (place : List String) : Bool :=
  place.isEmpty || tree.files.any fun (path, _) => place.isPrefixOf path && path ≠ place

/-- Where the parts of a path lead from a place; nothing is known above the working directory. -/
def walk? (tree : FileTree) : List String → List String → Option (List String)
  | place, [] => some place
  | place, part :: rest =>
    if !tree.isDirectory place then none
    else if isIdle part then tree.walk? place rest
    else if part = ".." then
      if place.isEmpty then none else tree.walk? place.dropLast rest
    else if tree.isDirectory (place ++ [part]) ∨ (tree.textAt? (place ++ [part])).isSome then
      tree.walk? (place ++ [part]) rest
    else none

/-- Where a path leads. -/
def locate? (tree : FileTree) (path : String) : Option (List String) :=
  if path.isEmpty ∨ Path.isAbsolute path then none else tree.walk? [] (Path.parts path)

/-- The text of the file that a path leads to. -/
def read? (tree : FileTree) (path : String) : Option String :=
  (tree.locate? path).bind tree.textAt?

end FileTree

/-- Computations over files in memory. -/
abbrev WithTree := ReaderM FileTree

instance : Files WithTree where
  pathExists path := return ((← read).locate? path).isSome
  read? path := return (← read).read? path

end CommandLine

end ExpressionTyping
