import ExpressionTyping.Proofs.Syntax.TypePrinting
import ExpressionTyping.Syntax.Statement

/-!
# Names that declarations refer to

A type annotation refers to the types it names, at any depth; a written value refers to another value
only if it is the name of one. References do not depend on where things stand in a file, so they are
the same for the `bare` forms that are left when the numbers and the places of nodes are dropped.
-/

set_option autoImplicit false

namespace ExpressionTyping

/-! ## References -/

mutual

/-- The names that a type refers to, left to right. -/
def TypeNode.references : TypeNode → List String
  | .word _ _ | .literal _ _ _ => []
  | .reference _ name => [name.text]
  | .array _ element => element.references
  | .union _ members => typeReferences members
  | .function _ parameters result => parameterReferences parameters ++ result.references
  | .object _ members => elementReferences members
  | .parenthesized _ inner => inner.references

/-- The names that types refer to. -/
def typeReferences : List TypeNode → List String
  | [] => []
  | type :: others => type.references ++ typeReferences others

/-- The names that an optional type refers to. -/
def annotationReferences : Option TypeNode → List String
  | none => []
  | some type => type.references

/-- The names that the type of a parameter refers to. -/
def Parameter.references : Parameter → List String
  | .mk _ _ _ type? => annotationReferences type?

/-- The names that the types of parameters refer to. -/
def parameterReferences : List Parameter → List String
  | [] => []
  | parameter :: others => parameter.references ++ parameterReferences others

/-- The names that the types in a member refer to. -/
def TypeElement.references : TypeElement → List String
  | .property _ _ type? => annotationReferences type?
  | .method _ _ parameters result => parameterReferences parameters ++ annotationReferences result

/-- The names that the types in members refer to. -/
def elementReferences : List TypeElement → List String
  | [] => []
  | element :: others => element.references ++ elementReferences others

end

/-- The name that a written value refers to, if it is one, parentheses aside. -/
def Expr.reference? : Expr → Option String
  | .identifier name => some name.text
  | .parenthesized _ inner => inner.reference?
  | _ => none

/-! ## Bare forms -/

mutual

/-- The names that a type refers to do not depend on the numbers and places of its nodes. -/
theorem TypeNode.references_bare (type : TypeNode) : type.bare.references = type.references := by
  cases type with
  | word | literal => rfl
  | reference node name => rfl
  | array node element => exact element.references_bare
  | union node members => exact typeReferences_bare members
  | function node parameters result =>
    rw [TypeNode.bare, TypeNode.references, TypeNode.references, parameterReferences_bare,
      result.references_bare]
  | object node members => exact elementReferences_bare members
  | parenthesized node inner => exact inner.references_bare

/-- The names that types refer to do not depend on the numbers and places of their nodes. -/
theorem typeReferences_bare (types : List TypeNode) :
    typeReferences (bareTypes types) = typeReferences types := by
  cases types with
  | nil => rfl
  | cons type others =>
    rw [bareTypes, typeReferences, typeReferences, type.references_bare,
      typeReferences_bare others]

/-- The names that an annotation refers to do not depend on the numbers and places of its nodes. -/
theorem annotationReferences_bare (type? : Option TypeNode) :
    annotationReferences (bareType? type?) = annotationReferences type? := by
  cases type? with
  | none => rfl
  | some type => exact type.references_bare

/-- The names that a parameter refers to do not depend on the numbers and places of its nodes. -/
theorem Parameter.references_bare (parameter : Parameter) :
    parameter.bare.references = parameter.references := by
  obtain ⟨node, rest, name, type?⟩ := parameter
  exact annotationReferences_bare type?

/-- The names that parameters refer to do not depend on the numbers and places of their nodes. -/
theorem parameterReferences_bare (parameters : List Parameter) :
    parameterReferences (bareParameters parameters) = parameterReferences parameters := by
  cases parameters with
  | nil => rfl
  | cons parameter others =>
    rw [bareParameters, parameterReferences, parameterReferences, parameter.references_bare,
      parameterReferences_bare others]

/-- The names that a member refers to do not depend on the numbers and places of its nodes. -/
theorem TypeElement.references_bare (element : TypeElement) :
    element.bare.references = element.references := by
  cases element with
  | property node name type? => exact annotationReferences_bare type?
  | method node name parameters result =>
    rw [TypeElement.bare, TypeElement.references, TypeElement.references,
      parameterReferences_bare, annotationReferences_bare]

/-- The names that members refer to do not depend on the numbers and places of their nodes. -/
theorem elementReferences_bare (elements : List TypeElement) :
    elementReferences (bareElements elements) = elementReferences elements := by
  cases elements with
  | nil => rfl
  | cons element others =>
    rw [bareElements, elementReferences, elementReferences, element.references_bare,
      elementReferences_bare others]

end

/-- The name that an initializer refers to does not depend on the numbers and places of its
nodes. -/
theorem Expr.reference?_bare (value : Expr) : value.bare.reference? = value.reference? := by
  cases value with
  | parenthesized node inner => exact inner.reference?_bare
  | _ => rfl

/-- A variable without the numbers and the places of its nodes. -/
def VariableDeclaration.bare (declaration : VariableDeclaration) : VariableDeclaration :=
  ⟨default, declaration.name.bare, bareType? declaration.type?,
    declaration.initializer.map Expr.bare⟩

mutual

/-- A statement without the numbers and the places of its nodes. -/
def Statement.bare : Statement → Statement
  | .variableList list =>
    .variableList ⟨default, list.ambient, default, list.form,
      list.declarations.map VariableDeclaration.bare⟩
  | .function declaration =>
    .function ⟨default, declaration.ambient, declaration.name.bare,
      bareParameters declaration.parameters, bareType? declaration.result⟩
  | .interface declaration =>
    .interface ⟨default, declaration.name.bare, bareElements declaration.members⟩
  | .typeAlias declaration => .typeAlias ⟨default, declaration.name.bare, declaration.type.bare⟩
  | .block _ statements => .block default (bareStatements statements)
  | .expression _ value => .expression default value.bare
  | .empty _ => .empty default

/-- Statements without the numbers and the places of their nodes. -/
def bareStatements : List Statement → List Statement
  | [] => []
  | statement :: others => statement.bare :: bareStatements others

end

end ExpressionTyping
