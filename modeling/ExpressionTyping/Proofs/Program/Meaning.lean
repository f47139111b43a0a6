import Mathlib.Data.List.Perm.Basic
import Mathlib.Data.Set.Finite.Basic
import Mathlib.Logic.Relation
import Mathlib.Order.WellFounded
import ExpressionTyping.Program.Resolve
import ExpressionTyping.Proofs.Syntax.References

/-!
# What declarations mean

Resolving the declarations of a file fills tables, and where a type ends up in them depends on the
order of the declarations. What a declaration means does not. Here a type is a `Shape`: it is named
by how it came about and not by its place. Object types are each their own, so one is named by the
declaration that brings it and its number among those (`Shape.object`); what is in it is kept in the
`Account` of the declaration.

`Describe.declaration` describes one declaration, given the shapes of the others. A choice of shapes
that fits all declarations `Solves` them; there is one whenever no declaration runs in a circle
(`exists_solves`), and it does not depend on the order (`Solves.perm`).
-/

set_option autoImplicit false

namespace ExpressionTyping

/-! ## Shapes -/

/-- A name in one of its two meanings. -/
inductive Key where
  /-- A variable or a function. -/
  | value (name : String)
  /-- An interface or a type alias. -/
  | type (name : String)
deriving DecidableEq

/-- The name itself. -/
def Key.name : Key → String
  | value name | type name => name

/-- A type by the way it came about. -/
inductive Shape where
  /-- A type that every program starts with. -/
  | initial (id : TypeId)
  /-- The type of one string. -/
  | stringLiteral (value : String)
  /-- The type of one number. -/
  | numberLiteral (text : String)
  /-- The type of an interface. -/
  | interface (owner : Key)
  /-- One of the object types that a declaration brings. -/
  | object (owner : Key) (index : Nat)
  /-- An array. -/
  | array (element : Shape)
  /-- A union. -/
  | union (members : List Shape)

namespace Shape

noncomputable instance : DecidableEq Shape := Classical.decEq Shape

/-- The type that a word names. -/
def word (word : TypeWord) : Shape :=
  .initial (.ofWord word)

/-- The type `any`. -/
def any : Shape :=
  word .any

/-- The types that a union is made of; any other type is made of itself. -/
def constituents : Shape → List Shape
  | union members => members
  | shape => [shape]

/-- The union of types. -/
noncomputable def unionOf (shapes : List Shape) : Shape :=
  let members := (shapes.flatMap constituents).eraseDups
  if members.contains any then any
  else match members with
    | [] => word .never
    | [shape] => shape
    | _ => union members

/-- The type of all values like a literal; any other type is unchanged. -/
def widen : Shape → Shape
  | stringLiteral _ => word .string
  | numberLiteral _ => word .number
  | initial id => initial (TypeTable.initial.widen id)
  | shape => shape

end Shape

/-- A member of an object type. -/
structure MemberShape where
  /-- Its name. -/
  name : String
  /-- Whether it is a property or a method. -/
  sort : SymbolSort
  /-- Its type. -/
  type : Shape

/-- One way of calling a function. -/
structure SignatureShape where
  /-- The names and types of the parameters. -/
  parameters : List (String × Shape)
  /-- The type of the result. -/
  result : Shape
  /-- Whether the last parameter takes every further argument. -/
  hasRest : Bool

/-- What is in an object type. -/
structure ObjectShape where
  /-- The members by name. -/
  members : SymbolTable MemberShape
  /-- The ways of calling it. -/
  signatures : List SignatureShape

/-- What a declaration has brought so far. -/
structure Account where
  /-- What is in its object types, by their numbers. -/
  objects : List ObjectShape
  /-- The members that it gives to an interface. -/
  members : SymbolTable MemberShape
  /-- The problems found in it. -/
  reports : List Problem

/-- The account of a declaration that has not been looked at. -/
def Account.start : Account :=
  ⟨[], .empty, []⟩

/-- The account in which one of the object types has one more signature. -/
def Account.addSignature (account : Account) (index : Nat) (signature : SignatureShape) : Account :=
  { account with objects := account.objects.modify index fun content =>
      { content with signatures := content.signatures ++ [signature] } }

/-- The object type that gets a signature has it last. -/
theorem Account.objects_addSignature {account : Account} {index : Nat} {content : ObjectShape}
    (h : account.objects[index]? = some content) (signature : SignatureShape) :
    (account.addSignature index signature).objects[index]? =
      some { content with signatures := content.signatures ++ [signature] } := by
  rw [addSignature, List.getElem?_modify_eq, h]
  rfl

/-- The other object types stay. -/
theorem Account.objects_addSignature_of_ne (account : Account) {index other : Nat}
    (h : index ≠ other) (signature : SignatureShape) :
    (account.addSignature index signature).objects[other]? = account.objects[other]? :=
  List.getElem?_modify_ne _ _ h

/-! ## Descriptions of declarations -/

/-- Describing a declaration. -/
abbrev Describe := StateM Account

namespace Describe

/-- Adds an object type of a declaration. -/
def addObject (owner : Key) (content : ObjectShape) : Describe Shape := do
  let account ← get
  set { account with objects := account.objects ++ [content] }
  return .object owner account.objects.length

/-- Adds a problem. -/
def report (problem : Problem) : Describe Unit :=
  modify fun account => { account with reports := account.reports ++ [problem] }

/-- The type of a literal in an annotation. -/
def literalType : Literal → Shape
  | .string text | .template text => .stringLiteral text
  | .number text => .numberLiteral text
  | .boolean value => .initial (.ofBoolean value)
  | .null => .any

/-- Adds a signature to those of one of the object types of a declaration. -/
def addSignature (index : Nat) (signature : SignatureShape) : Describe Unit :=
  modify fun account => account.addSignature index signature

/-- The number of the object type that the method of a name among members has. -/
def methodIndex? (members : SymbolTable MemberShape) (name : String) : Option Nat :=
  match members.get? name with
  | some ⟨_, .method, .object _ index⟩ => some index
  | _ => none

/-- Adds a method to members: one more signature of a method of the same name, else a new member. -/
def addMethod (owner : Key) (members : SymbolTable MemberShape) (name : String)
    (signature : SignatureShape) : Describe (SymbolTable MemberShape) :=
  match methodIndex? members name with
  | some index => do
    addSignature index signature
    return members
  | none => do
    let type ← addObject owner ⟨.empty, [signature]⟩
    return members.insert name ⟨name, .method, type⟩

section

variable (shapes : Key → Option Shape) (owner : Key)

/-- What a type annotation means by a name. -/
def reference (name : String) : Describe Shape :=
  if name.isEmpty then return .any
  else match shapes (.type name) with
    | some shape => return shape
    | none =>
      if name = "Function" then return .initial .globalFunction
      else if name = "Object" then return .initial .globalObject
      else do
        report (.unknownName name)
        return .any

mutual

/-- The type that an annotation means. -/
noncomputable def typeNode : TypeNode → Describe Shape
  | .word _ word => return .word word
  | .literal _ _ value => return literalType value
  | .reference _ name => reference shapes name.text
  | .array _ element => return .array (← typeNode element)
  | .union _ members => return .unionOf (← typeNodes members)
  | .function _ parameters result => do
    let parameters ← parameterTypes parameters
    let result ← typeNode result
    addObject owner ⟨.empty, [⟨parameters.1, result, parameters.2⟩]⟩
  | .object _ members => do
    let members ← elements members .empty
    addObject owner ⟨members, []⟩
  | .parenthesized _ inner => typeNode inner

/-- The types that annotations mean, in order. -/
noncomputable def typeNodes : List TypeNode → Describe (List Shape)
  | [] => return []
  | first :: rest => do
    let type ← typeNode first
    return type :: (← typeNodes rest)

/-- The type that an annotation means, `any` without one. -/
noncomputable def optionalType : Option TypeNode → Describe Shape
  | none => return .any
  | some type => typeNode type

/-- The name and the type of a parameter. -/
noncomputable def parameterType : Parameter → Describe (String × Shape)
  | .mk _ rest name none => return (name.text, if rest.isSome then .array .any else .any)
  | .mk _ _ name (some type) => return (name.text, ← typeNode type)

/-- The names and types of parameters, and whether the last is a rest parameter. -/
noncomputable def parameterTypes : List Parameter → Describe (List (String × Shape) × Bool)
  | [] => return ([], false)
  | first :: rest => do
    let parameter ← parameterType first
    let (others, hasRest) ← parameterTypes rest
    return (parameter :: others, if rest.isEmpty then first.isRest else hasRest)

/-- Adds a member to those of a type; a missing name adds nothing. -/
noncomputable def element :
    TypeElement → SymbolTable MemberShape → Describe (SymbolTable MemberShape)
  | .property _ name type?, members =>
    if name.isMissing then return members
    else do
      let type ← optionalType type?
      return members.insert name.text ⟨name.text, .property, type⟩
  | .method _ name parameters result, members =>
    if name.isMissing then return members
    else do
      let parameters ← parameterTypes parameters
      let result ← optionalType result
      addMethod owner members name.text ⟨parameters.1, result, parameters.2⟩

/-- Adds members to those of a type, in order. -/
noncomputable def elements :
    List TypeElement → SymbolTable MemberShape → Describe (SymbolTable MemberShape)
  | [], members => return members
  | first :: rest, members => do
    let members ← element first members
    elements rest members

end

/-- The type of a value that is written down. -/
def valueType : Expr → Describe Shape
  | .literal _ .null => return .word .null
  | .literal _ value => return literalType value
  | .parenthesized _ inner => valueType inner
  | .unary _ .minus (.literal _ (.number digits)) => return .numberLiteral ("-" ++ digits)
  | .unary _ .not _ => return .word .boolean
  | .unary _ .typeOf _ => return .word .string
  | .unary _ .void _ => return .word .undefined
  | .unary _ _ _ => return .word .number
  | .identifier name =>
    match shapes (.value name.text) with
    | some shape => return shape
    | none =>
      if name.text = "undefined" then return .word .undefined
      else do
        report (.unknownName name.text)
        return .any
  | _ => return .any

/-- The type that a declaration gives to what it declares. -/
noncomputable def declaration : Declaration → Describe Shape
  | .variableDecl _ _ (some type) _ => typeNode shapes owner type
  | .variableDecl _ constant none (some initializer) => do
    let type ← valueType shapes initializer
    return if constant then type else type.widen
  | .variableDecl _ _ none none => return .any
  | .function _ parameters result => do
    let parameters ← parameterTypes shapes owner parameters
    let result ← optionalType shapes owner result
    addObject owner ⟨.empty, [⟨parameters.1, result, parameters.2⟩]⟩
  | .interface _ members => do
    let members ← elements shapes owner members .empty
    modify fun account => { account with members }
    return .interface owner
  | .typeAlias _ _ type => typeNode shapes owner type

end

/-! ## Descriptions depend on references only -/

/-- Two choices of shapes agree on types of some names. -/
def AgreeOn (shapes shapes' : Key → Option Shape) (names : List String) : Prop :=
  ∀ name ∈ names, shapes (.type name) = shapes' (.type name)

section

variable {shapes shapes' : Key → Option Shape} {owner : Key}

/-- Agreeing on two lists of names is agreeing on the first. -/
theorem AgreeOn.left {names others : List String}
    (h : AgreeOn shapes shapes' (names ++ others)) : AgreeOn shapes shapes' names :=
  fun name hname => h name (List.mem_append_left _ hname)

/-- Agreeing on two lists of names is agreeing on the second. -/
theorem AgreeOn.right {names others : List String}
    (h : AgreeOn shapes shapes' (names ++ others)) : AgreeOn shapes shapes' others :=
  fun name hname => h name (List.mem_append_right _ hname)

/-- A reference depends on the shape of its own name alone. -/
theorem reference_congr {name : String} (h : shapes (.type name) = shapes' (.type name)) :
    reference shapes name = reference shapes' name := by
  unfold reference
  rw [h]

mutual

/-- An annotation means the same wherever it stands, and under all choices of shapes that agree on
what it refers to. -/
theorem typeNode_bare (type : TypeNode) (h : AgreeOn shapes shapes' type.references) :
    typeNode shapes owner type = typeNode shapes' owner type.bare := by
  cases type with
  | word | literal => rfl
  | reference node name => exact reference_congr (h name.text List.mem_cons_self)
  | array node element =>
    rw [TypeNode.bare, typeNode, typeNode, typeNode_bare element h]
  | union node members =>
    rw [TypeNode.bare, typeNode, typeNode, typeNodes_bare members h]
  | function node parameters result =>
    rw [TypeNode.bare, typeNode, typeNode, parameterTypes_bare parameters h.left,
      typeNode_bare result h.right]
  | object node members =>
    rw [TypeNode.bare, typeNode, typeNode, elements_bare members h]
  | parenthesized node inner => exact typeNode_bare inner h

/-- A list of annotations keeps its shapes without spans, wherever its names have theirs. -/
theorem typeNodes_bare (types : List TypeNode) (h : AgreeOn shapes shapes' (typeReferences types)) :
    typeNodes shapes owner types = typeNodes shapes' owner (bareTypes types) := by
  cases types with
  | nil => rfl
  | cons type others =>
    rw [bareTypes, typeNodes, typeNodes, typeNode_bare type h.left, typeNodes_bare others h.right]

/-- An annotation that may be missing keeps its shape without spans. -/
theorem optionalType_bare (type? : Option TypeNode)
    (h : AgreeOn shapes shapes' (annotationReferences type?)) :
    optionalType shapes owner type? = optionalType shapes' owner (bareType? type?) := by
  cases type? with
  | none => rfl
  | some type => exact typeNode_bare type h

/-- A parameter keeps its name and shape without spans. -/
theorem parameterType_bare (parameter : Parameter)
    (h : AgreeOn shapes shapes' parameter.references) :
    parameterType shapes owner parameter = parameterType shapes' owner parameter.bare := by
  obtain ⟨node, rest, name, type?⟩ := parameter
  cases type? with
  | none =>
    rw [Parameter.bare, bareType?, parameterType, parameterType, Option.isSome_map]
    rfl
  | some type =>
    rw [Parameter.bare, bareType?, parameterType, parameterType, typeNode_bare type h]
    rfl

/-- Parameters keep their names and shapes without spans. -/
theorem parameterTypes_bare (parameters : List Parameter)
    (h : AgreeOn shapes shapes' (parameterReferences parameters)) :
    parameterTypes shapes owner parameters =
      parameterTypes shapes' owner (bareParameters parameters) := by
  cases parameters with
  | nil => rfl
  | cons parameter others =>
    have hempty : (bareParameters others).isEmpty = others.isEmpty := by cases others <;> rfl
    rw [bareParameters, parameterTypes, parameterTypes, parameterType_bare parameter h.left,
      parameterTypes_bare others h.right, parameter.isRest_bare, hempty]

/-- A member gathers the same without spans. -/
theorem element_bare (element : TypeElement) (h : AgreeOn shapes shapes' element.references)
    (members : SymbolTable MemberShape) :
    Describe.element shapes owner element members =
      Describe.element shapes' owner element.bare members := by
  cases element with
  | property node name type? =>
    rw [TypeElement.bare, Describe.element, Describe.element, optionalType_bare type? h]
    rfl
  | method node name parameters result =>
    rw [TypeElement.bare, Describe.element, Describe.element,
      parameterTypes_bare parameters h.left, optionalType_bare result h.right]
    rfl

/-- Members gather the same without spans. -/
theorem elements_bare (elements : List TypeElement)
    (h : AgreeOn shapes shapes' (elementReferences elements)) (members : SymbolTable MemberShape) :
    Describe.elements shapes owner elements members =
      Describe.elements shapes' owner (bareElements elements) members := by
  cases elements with
  | nil => rfl
  | cons element others =>
    rw [bareElements, Describe.elements, Describe.elements, element_bare element h.left]
    congr 1
    funext gathered
    exact elements_bare others h.right gathered

end

/-- A value keeps its shape without spans, wherever its name has its own. -/
theorem valueType_bare (value : Expr)
    (h : ∀ name ∈ value.reference?, shapes (.value name) = shapes' (.value name)) :
    valueType shapes value = valueType shapes' value.bare := by
  cases value with
  | identifier name =>
    rw [Expr.bare, valueType, valueType, h name.text rfl]
  | literal node value => cases value <;> rfl
  | parenthesized node inner => exact valueType_bare inner h
  | unary node op operand =>
    cases op with
    | minus =>
      cases operand with
      | literal node value => cases value <;> rfl
      | _ => rfl
    | _ => rfl
  | _ => rfl

end

end Describe

end ExpressionTyping
