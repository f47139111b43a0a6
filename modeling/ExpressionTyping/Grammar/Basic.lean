import ExpressionTyping.Grammar.Statement

/-!
# Parsing texts

A text is parsed as one expression or as a declaration file. What is reported is ordered by where
it starts: first what the parse reported at a place, then what is wrong with the tokens there, up to
the token on which the parse stopped.
-/

set_option autoImplicit false

namespace ExpressionTyping

/-- The result of a parse and what was reported. -/
structure Parsed (α : Type) where
  /-- The tree. -/
  tree : α
  /-- What was reported, ordered by start. -/
  issues : List Issue

namespace Parse

/-- The faults of the tokens up to and including the one a parse stopped on. -/
def tokenIssues (tokens : List Token) (final : ParseState) : List Issue :=
  (tokens.take (tokens.length - final.upcoming.length)).filterMap Token.issue?

/-- Runs a parse over tokens and gathers everything to report. -/
def throughout {α : Type} (parse : Parse α) (tokens : List Token) : Parsed α :=
  let (tree, final) := parse.run (initial tokens)
  ⟨tree, Issue.sortByStart (final.issues ++ tokenIssues tokens final)⟩

/-- One expression; the token after it, if any, is reported. -/
def wholeExpression : Parse Expr := do
  let e ← expression
  let token ← current
  unless token.kind = .endOfText do
    report (.unexpectedToken token.text)
  return e

/-- A declaration file of a name and a text. -/
def wholeFile (name : String) (text : List Char) : Parse SourceFile := do
  let content ← statements
  return ⟨← newNode ⟨0, text.length⟩, content, name, text⟩

end Parse

/-- Parses a text as one expression. -/
def Expr.parse (text : String) : Parsed Expr :=
  Parse.throughout Parse.wholeExpression (Token.ofText Alphabet.standard text.toList)

/-- Parses a text as a declaration file. -/
def SourceFile.parse (name text : String) : Parsed SourceFile :=
  Parse.throughout (Parse.wholeFile name text.toList) (Token.ofText Alphabet.standard text.toList)

end ExpressionTyping
