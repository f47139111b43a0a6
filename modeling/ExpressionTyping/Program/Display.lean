import ExpressionTyping.Program.Basic

/-!
# The text of declared types

A declared type is shown as it could be written. Types nested too deeply are cut short by dots.
-/

set_option autoImplicit false

namespace ExpressionTyping

namespace Program

/-- How many levels of a type are shown. -/
def displayLevels : Nat := 9

/-- Whether a type is shown as a function: an unnamed object with one signature and no members. -/
def isFunctionShaped : TypeData → Bool
  | .object none members signatures => members.entries.isEmpty && signatures.length == 1
  | _ => false

/-- Whether a type needs parentheses before the brackets of an array. -/
def needsParentheses : TypeData → Bool
  | .union _ => true
  | data => isFunctionShaped data

/-- The parameters of a signature, with their types shown by `show`. -/
def parametersText (text : TypeId → String) (signature : Signature) : String :=
  let last := signature.parameters.length - 1
  let parameter := fun (p : (String × TypeId) × Nat) =>
    let dots := if signature.hasRest && p.2 == last then "..." else ""
    dots ++ p.1.1 ++ ": " ++ text p.1.2
  ", ".intercalate (signature.parameters.zipIdx.map parameter)

/-- A signature as a member with a name. -/
def signatureText (text : TypeId → String) (name : String) (signature : Signature) : String :=
  name ++ "(" ++ parametersText text signature ++ "): " ++ text signature.result

/-- A member of an object type. The signatures of a method are each shown on their own. -/
def memberTexts (program : Program) (text : TypeId → String) (name : String) (id : SymbolId) :
    List String :=
  let member := program.symbol id
  match member.sort, program.types.get member.type with
  | .method, .object none ⟨[]⟩ signatures => signatures.map (signatureText text name)
  | _, _ => [name ++ ": " ++ text member.type]

/-- The text of a type, with a number of levels shown. -/
def display (program : Program) : (levels : Nat) → TypeId → String
  | 0, _ => "..."
  | levels + 1, id =>
    let text := program.display levels
    match program.types.get id with
    | .intrinsic word => word.keyword.text
    | .stringLiteral value => "\"" ++ value ++ "\""
    | .numberLiteral digits => digits
    | .booleanLiteral value => if value then "true" else "false"
    | .union members => " | ".intercalate (members.map text)
    | .array element =>
      if needsParentheses (program.types.get element) then "(" ++ text element ++ ")[]"
      else text element ++ "[]"
    | .object (some name) _ _ => name
    | .object none ⟨[]⟩ [signature] =>
      "(" ++ parametersText text signature ++ ") => " ++ text signature.result
    | .object none members signatures =>
      let parts := signatures.map (signatureText text "") ++
        members.entries.flatMap fun entry => program.memberTexts text entry.1 entry.2
      if parts.isEmpty then "\x7b\x7d" else "\x7b " ++ "; ".intercalate parts ++ " \x7d"

/-- The text of a type. -/
def typeText (program : Program) (id : TypeId) : String :=
  program.display displayLevels id

end Program

end ExpressionTyping
