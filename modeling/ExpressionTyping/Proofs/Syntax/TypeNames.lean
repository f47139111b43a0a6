import ExpressionTyping.Syntax.Statement

/-!
# Names in declarations

The names of types that an annotation refers to, left to right and at any depth, and the name of the
value that a written value is. A member without a name is left out of a type, with everything in it;
which names of members count is a parameter. In a type all of whose names are there
(`TypeNode.Named`) nothing is left out.
-/

set_option autoImplicit false

namespace ExpressionTyping

/-! ## Types -/

section Names

variable (counts : Identifier → Bool)

mutual

/-- The names that a type refers to, left to right, in members whose names count. -/
def TypeNode.names : TypeNode → List Identifier
  | .word _ _ | .literal _ _ _ => []
  | .reference _ name => [name]
  | .array _ element => element.names
  | .union _ members => typeNames members
  | .function _ parameters result => parameterNames parameters ++ result.names
  | .object _ members => elementNames members
  | .parenthesized _ inner => inner.names

/-- The names that types refer to. -/
def typeNames : List TypeNode → List Identifier
  | [] => []
  | type :: others => type.names ++ typeNames others

/-- The names that an optional type refers to. -/
def annotationNames : Option TypeNode → List Identifier
  | none => []
  | some type => type.names

/-- The names that the type of a parameter refers to. -/
def Parameter.names : Parameter → List Identifier
  | .mk _ _ _ type? => annotationNames type?

/-- The names that the types of parameters refer to. -/
def parameterNames : List Parameter → List Identifier
  | [] => []
  | parameter :: others => parameter.names ++ parameterNames others

/-- The names that the types in a member refer to. -/
def TypeElement.names : TypeElement → List Identifier
  | .property _ name type? => if counts name then annotationNames type? else []
  | .method _ name parameters result =>
    if counts name then parameterNames parameters ++ annotationNames result else []

/-- The names that the types in members refer to. -/
def elementNames : List TypeElement → List Identifier
  | [] => []
  | element :: others => element.names ++ elementNames others

end

end Names

/-- Whether a name is there. -/
def Identifier.isThere (name : Identifier) : Bool :=
  !name.isMissing

mutual

/-- Every name of a member is there, and so is every name that is referred to. -/
inductive TypeNode.Named : TypeNode → Prop where
  | word {node : Node} {word : TypeWord} : TypeNode.Named (.word node word)
  | literal {node constant : Node} {value : Literal} : TypeNode.Named (.literal node constant value)
  | reference {node : Node} {name : Identifier} (h : name.isThere = true) :
      TypeNode.Named (.reference node name)
  | array {node : Node} {element : TypeNode} (h : element.Named) :
      TypeNode.Named (.array node element)
  | union {node : Node} {members : List TypeNode} (h : ∀ member ∈ members, member.Named) :
      TypeNode.Named (.union node members)
  | function {node : Node} {parameters : List Parameter} {result : TypeNode}
      (hparameters : ∀ parameter ∈ parameters, parameter.Named) (hresult : result.Named) :
      TypeNode.Named (.function node parameters result)
  | object {node : Node} {members : List TypeElement} (h : ∀ member ∈ members, member.Named) :
      TypeNode.Named (.object node members)
  | parenthesized {node : Node} {inner : TypeNode} (h : inner.Named) :
      TypeNode.Named (.parenthesized node inner)

/-- The names in the type of a parameter are there. -/
inductive Parameter.Named : Parameter → Prop where
  | mk {node : Node} {rest : Option Span} {name : Identifier} {type? : Option TypeNode}
      (h : ∀ type, type? = some type → type.Named) : Parameter.Named (.mk node rest name type?)

/-- The name of a member is there, and so are the names in its types. -/
inductive TypeElement.Named : TypeElement → Prop where
  | property {node : Node} {name : Identifier} {type? : Option TypeNode}
      (hname : name.isThere = true) (h : ∀ type, type? = some type → type.Named) :
      TypeElement.Named (.property node name type?)
  | method {node : Node} {name : Identifier} {parameters : List Parameter}
      {result : Option TypeNode} (hname : name.isThere = true)
      (hparameters : ∀ parameter ∈ parameters, parameter.Named)
      (hresult : ∀ type, result = some type → type.Named) :
      TypeElement.Named (.method node name parameters result)

end

/-- The names that count are all the names, and none of them is missing. -/
structure AllThere (counted all : List Identifier) : Prop where
  same : counted = all
  there : ∀ name ∈ all, name.isThere = true

/-- Among no names, none is missing. -/
theorem AllThere.nil : AllThere [] [] :=
  ⟨rfl, nofun⟩

/-- Names that are all there stay so when lists of them are put one after the other. -/
theorem AllThere.append {counted counted' all all' : List Identifier} (h : AllThere counted all)
    (h' : AllThere counted' all') : AllThere (counted ++ counted') (all ++ all') :=
  ⟨h'.same ▸ h.same ▸ rfl, List.forall_mem_append.mpr ⟨h.there, h'.there⟩⟩

mutual

/-- Nothing is left out of a type all of whose names are there, and none that is referred to is
missing. -/
theorem TypeNode.Named.names {type : TypeNode} (h : type.Named) :
    AllThere (type.names Identifier.isThere) (type.names fun _ => true) := by
  cases h with
  | word | literal => exact .nil
  | reference h => exact ⟨rfl, List.forall_mem_singleton.mpr h⟩
  | array h => exact h.names
  | union h => exact typeNames_named h
  | function hparameters hresult => exact (parameterNames_named hparameters).append hresult.names
  | object h => exact elementNames_named h
  | parenthesized h => exact h.names

/-- In types whose names are all there, counting skips none. -/
theorem typeNames_named {types : List TypeNode} (h : ∀ type ∈ types, type.Named) :
    AllThere (typeNames Identifier.isThere types) (typeNames (fun _ => true) types) := by
  cases types with
  | nil => exact .nil
  | cons type others =>
    obtain ⟨hfirst, hothers⟩ := List.forall_mem_cons.mp h
    exact hfirst.names.append (typeNames_named hothers)

/-- In an annotation whose names are all there, counting skips none. -/
theorem annotationNames_named {type? : Option TypeNode}
    (h : ∀ type, type? = some type → type.Named) :
    AllThere (annotationNames Identifier.isThere type?)
      (annotationNames (fun _ => true) type?) := by
  cases type? with
  | none => exact .nil
  | some type => exact (h type rfl).names

/-- In a parameter whose names are all there, counting skips none. -/
theorem Parameter.Named.names {parameter : Parameter} (h : parameter.Named) :
    AllThere (parameter.names Identifier.isThere) (parameter.names fun _ => true) := by
  cases h with
  | mk h => exact annotationNames_named h

/-- In parameters whose names are all there, counting skips none. -/
theorem parameterNames_named {parameters : List Parameter}
    (h : ∀ parameter ∈ parameters, parameter.Named) :
    AllThere (parameterNames Identifier.isThere parameters)
      (parameterNames (fun _ => true) parameters) := by
  cases parameters with
  | nil => exact .nil
  | cons parameter others =>
    obtain ⟨hfirst, hothers⟩ := List.forall_mem_cons.mp h
    exact hfirst.names.append (parameterNames_named hothers)

/-- In a member whose names are all there, counting skips none. -/
theorem TypeElement.Named.names {element : TypeElement} (h : element.Named) :
    AllThere (element.names Identifier.isThere) (element.names fun _ => true) := by
  cases h with
  | property hname h =>
    rw [TypeElement.names, TypeElement.names, if_pos hname]
    exact annotationNames_named h
  | method hname hparameters hresult =>
    rw [TypeElement.names, TypeElement.names, if_pos hname]
    exact (parameterNames_named hparameters).append (annotationNames_named hresult)

/-- In members whose names are all there, counting skips none. -/
theorem elementNames_named {elements : List TypeElement}
    (h : ∀ element ∈ elements, element.Named) :
    AllThere (elementNames Identifier.isThere elements)
      (elementNames (fun _ => true) elements) := by
  cases elements with
  | nil => exact .nil
  | cons element others =>
    obtain ⟨hfirst, hothers⟩ := List.forall_mem_cons.mp h
    exact hfirst.names.append (elementNames_named hothers)

end

/-! ## Values -/

/-- The name of a value that a written value is, parentheses aside. -/
def Expr.valueName? : Expr → Option Identifier
  | .identifier name => some name
  | .parenthesized _ inner => inner.valueName?
  | _ => none

end ExpressionTyping
