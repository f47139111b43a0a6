import ExpressionTyping.Proofs.Syntax.Printing
import ExpressionTyping.Syntax.TypeNode

/-!
# Printing types

A type is printed as its tokens from left to right with a space between them; every member of an
object type is followed by a semicolon. As with expressions, parentheses are nodes of their own and
are never put in, so only the types that have at each place what the grammar allows there can be
read back (`TypeNode.fits`). What a type is apart from the numbers and the places of its nodes is its
`bare` form.
-/

set_option autoImplicit false

namespace ExpressionTyping

/-! ## The types inside a type -/

namespace TypeElement

/-- The parameters of a member, if it is a method. -/
def parameters : TypeElement → List Parameter
  | property _ _ _ => []
  | method _ _ parameters _ => parameters

/-- The type of a property or of the result of a method. -/
def type? : TypeElement → Option TypeNode
  | property _ _ type? => type?
  | method _ _ _ result => result

/-- The types directly inside a member. -/
def types (element : TypeElement) : List TypeNode :=
  element.parameters.filterMap Parameter.type? ++ element.type?.toList

end TypeElement

/-- The type of a parameter is smaller than the parameter. -/
theorem Parameter.sizeOf_type? {parameter : Parameter} {type : TypeNode}
    (h : parameter.type? = some type) : sizeOf type < sizeOf parameter := by
  obtain ⟨node, rest, name, type?⟩ := parameter
  cases h
  simp only [Parameter.mk.sizeOf_spec, Option.some.sizeOf_spec]
  omega

/-- The type of one of several parameters is smaller than all of them together. -/
theorem Parameter.sizeOf_types {parameters : List Parameter} {type : TypeNode}
    (h : type ∈ parameters.filterMap Parameter.type?) : sizeOf type < sizeOf parameters := by
  obtain ⟨parameter, hmem, htype⟩ := List.mem_filterMap.mp h
  have hparameter := Parameter.sizeOf_type? htype
  have hlist := List.sizeOf_lt_of_mem hmem
  omega

/-- A type in a member is smaller than the member. -/
theorem TypeElement.sizeOf_types {element : TypeElement} {type : TypeNode}
    (h : type ∈ element.types) : sizeOf type < sizeOf element := by
  rcases List.mem_append.mp h with h | h
  · cases element with
    | property => cases h
    | method node name parameters result =>
      have hlist := Parameter.sizeOf_types h
      simp only [TypeElement.parameters, TypeElement.method.sizeOf_spec] at hlist ⊢
      omega
  · have htype := Option.mem_toList.mp h
    cases element with
    | property node name type? =>
      cases htype
      simp only [TypeElement.property.sizeOf_spec, Option.some.sizeOf_spec]
      omega
    | method node name parameters result =>
      cases htype
      simp only [TypeElement.method.sizeOf_spec, Option.some.sizeOf_spec]
      omega

namespace TypeNode

/-- The types directly inside a type, left to right. -/
def children : TypeNode → List TypeNode
  | word _ _ | literal _ _ _ | reference _ _ => []
  | array _ element => [element]
  | union _ members => members
  | function _ parameters result => parameters.filterMap Parameter.type? ++ [result]
  | object _ members => members.flatMap TypeElement.types
  | parenthesized _ inner => [inner]

attribute [simp] children

/-- A child of a type is smaller than the type, so recursion on children ends. -/
theorem sizeOf_lt_of_mem_children {type child : TypeNode} (h : child ∈ type.children) :
    sizeOf child < sizeOf type := by
  cases type with
  | word | literal | reference => cases h
  | array node element =>
    cases List.mem_singleton.mp h
    simp only [array.sizeOf_spec]
    omega
  | parenthesized node inner =>
    cases List.mem_singleton.mp h
    simp only [parenthesized.sizeOf_spec]
    omega
  | union node members =>
    have hlist : sizeOf child < sizeOf members := List.sizeOf_lt_of_mem h
    simp only [union.sizeOf_spec]
    omega
  | function node parameters result =>
    rcases List.mem_append.mp h with h | h
    · have hlist := Parameter.sizeOf_types h
      simp only [function.sizeOf_spec]
      omega
    · cases List.mem_singleton.mp h
      simp only [function.sizeOf_spec]
      omega
  | object node members =>
    obtain ⟨element, hmem, htype⟩ := List.mem_flatMap.mp h
    have helement := TypeElement.sizeOf_types htype
    have hlist := List.sizeOf_lt_of_mem hmem
    simp only [object.sizeOf_spec]
    omega

/-- What passes from the children of every type to the type holds of all. -/
theorem induction_on_children {P : TypeNode → Prop}
    (step : ∀ type, (∀ child ∈ type.children, P child) → P type) (type : TypeNode) : P type :=
  step type fun child _ => induction_on_children step child
termination_by sizeOf type
decreasing_by exact sizeOf_lt_of_mem_children ‹_›

/-- A condition holds of a type and of all types inside it. -/
inductive Throughout (P : TypeNode → Prop) : TypeNode → Prop where
  | intro {type : TypeNode} (here : P type) (below : ∀ child ∈ type.children, Throughout P child) :
      Throughout P type

/-- A condition holds throughout a type when it holds of the type itself and throughout each of its
children. -/
theorem throughout_iff {P : TypeNode → Prop} {type : TypeNode} :
    type.Throughout P ↔ P type ∧ type.children.Forall (Throughout P) := by
  rw [List.forall_iff_forall_mem]
  constructor
  · rintro ⟨here, below⟩
    exact ⟨here, below⟩
  · rintro ⟨here, below⟩
    exact ⟨here, below⟩

/-- Two conditions that each hold throughout a type hold together of every node of it. -/
theorem Throughout.and {P Q : TypeNode → Prop} {type : TypeNode} (hP : type.Throughout P)
    (hQ : type.Throughout Q) : type.Throughout fun node => P node ∧ Q node := by
  induction hP with
  | intro here _ ih =>
    obtain ⟨hereQ, belowQ⟩ := hQ
    exact ⟨⟨here, hereQ⟩, fun child hchild => ih child hchild (belowQ child hchild)⟩

end TypeNode

/-! ## The tokens of a type -/

/-- The kind and the value of the token that is a punctuator. -/
abbrev Punctuator.content (p : Punctuator) : TokenKind × String :=
  (TokenKind.punctuator p).fixed

mutual

/-- The kinds and values of the tokens of a type, from left to right. -/
def TypeNode.contents : TypeNode → List (TokenKind × String)
  | .word _ word => [(TokenKind.keyword word.keyword).fixed]
  | .literal _ _ value => [value.content]
  | .reference _ name => [name.content]
  | .array _ element =>
    element.contents ++ [Punctuator.openBracket.content, Punctuator.closeBracket.content]
  | .union _ [] => []
  | .union _ (first :: others) => first.contents ++ furtherContents others
  | .function _ parameters result =>
    Punctuator.openParen.content :: (parameterContents parameters ++
      Punctuator.closeParen.content :: Punctuator.arrow.content :: result.contents)
  | .object _ members =>
    Punctuator.openBrace.content :: (elementContents members ++ [Punctuator.closeBrace.content])
  | .parenthesized _ inner =>
    Punctuator.openParen.content :: (inner.contents ++ [Punctuator.closeParen.content])

/-- The members of a union after its first, each behind a bar. -/
def furtherContents : List TypeNode → List (TokenKind × String)
  | [] => []
  | member :: others =>
    Punctuator.bar.content :: (member.contents ++ furtherContents others)

/-- A type behind a colon, if there is one. -/
def annotationContents : Option TypeNode → List (TokenKind × String)
  | none => []
  | some type => Punctuator.colon.content :: type.contents

/-- A parameter. -/
def Parameter.contents : Parameter → List (TokenKind × String)
  | .mk _ none name type? => name.content :: annotationContents type?
  | .mk _ (some _) name type? =>
    Punctuator.ellipsis.content :: name.content :: annotationContents type?

/-- Parameters with commas between them. -/
def parameterContents : List Parameter → List (TokenKind × String)
  | [] => []
  | [parameter] => parameter.contents
  | parameter :: others =>
    parameter.contents ++ Punctuator.comma.content :: parameterContents others

/-- A member of an object type. -/
def TypeElement.contents : TypeElement → List (TokenKind × String)
  | .property _ name type? => name.content :: annotationContents type?
  | .method _ name parameters result =>
    name.content :: Punctuator.openParen.content :: (parameterContents parameters ++
      Punctuator.closeParen.content :: annotationContents result)

/-- Members with a semicolon after each. -/
def elementContents : List TypeElement → List (TokenKind × String)
  | [] => []
  | element :: others =>
    element.contents ++ Punctuator.semicolon.content :: elementContents others

end

/-- Between a parameter and the next one a comma is printed. -/
theorem parameterContents_cons_cons (parameter next : Parameter) (others : List Parameter) :
    parameterContents (parameter :: next :: others) =
      parameter.contents ++ Punctuator.comma.content :: parameterContents (next :: others) := by
  rw [parameterContents]
  simp

/-- The declaration of an alias for a type, as text. -/
def TypeNode.printAlias (type : TypeNode) : String :=
  String.ofList (Token.written
    ((TokenKind.keyword .typeWord).fixed :: (.identifier, "T") :: Punctuator.equals.content ::
      (type.contents ++ [Punctuator.semicolon.content])))

/-! ## What is compared -/

/-- A name without the number and the place of its node. -/
def Identifier.bare (name : Identifier) : Identifier :=
  ⟨default, name.text⟩

mutual

/-- A type without the numbers and the places of its nodes. -/
def TypeNode.bare : TypeNode → TypeNode
  | .word _ word => .word default word
  | .literal _ _ value => .literal default default value
  | .reference _ name => .reference default name.bare
  | .array _ element => .array default element.bare
  | .union _ members => .union default (bareTypes members)
  | .function _ parameters result => .function default (bareParameters parameters) result.bare
  | .object _ members => .object default (bareElements members)
  | .parenthesized _ inner => .parenthesized default inner.bare

/-- Types without the numbers and the places of their nodes. -/
def bareTypes : List TypeNode → List TypeNode
  | [] => []
  | type :: others => type.bare :: bareTypes others

/-- An optional type without the numbers and the places of its nodes. -/
def bareType? : Option TypeNode → Option TypeNode
  | none => none
  | some type => some type.bare

/-- A parameter without the numbers and the places of its nodes and its dots. -/
def Parameter.bare : Parameter → Parameter
  | .mk _ rest name type? =>
    .mk default (rest.map fun _ => default) name.bare (bareType? type?)

/-- Parameters without the numbers and the places of their nodes. -/
def bareParameters : List Parameter → List Parameter
  | [] => []
  | parameter :: others => parameter.bare :: bareParameters others

/-- A member without the numbers and the places of its nodes. -/
def TypeElement.bare : TypeElement → TypeElement
  | .property _ name type? => .property default name.bare (bareType? type?)
  | .method _ name parameters result =>
    .method default name.bare (bareParameters parameters) (bareType? result)

/-- Members without the numbers and the places of their nodes. -/
def bareElements : List TypeElement → List TypeElement
  | [] => []
  | element :: others => element.bare :: bareElements others

end

/-- Forgetting numbers and places keeps whether a parameter is a rest parameter. -/
theorem Parameter.isRest_bare (parameter : Parameter) :
    parameter.bare.isRest = parameter.isRest := by
  obtain ⟨node, rest, name, type?⟩ := parameter
  cases rest <;> simp [bare, isRest]

/-! ## What can be read back -/

/-- Only the last parameter takes every further argument. -/
def restOnlyLast (parameters : List Parameter) : Bool :=
  parameters.dropLast.all fun parameter => !parameter.isRest

/-- Only the last of two or more parameters is a rest parameter when the first is none and the same
holds of the others. -/
theorem restOnlyLast_cons_cons {first second : Parameter} {others : List Parameter} :
    restOnlyLast (first :: second :: others) = true ↔
      first.isRest = false ∧ restOnlyLast (second :: others) = true := by
  simp [restOnlyLast, List.dropLast_cons_cons]

namespace TypeNode

/-- Whether a type is a union. -/
def isUnion : TypeNode → Bool
  | union _ _ => true
  | _ => false

/-- Whether a type is a function type. -/
def isFunction : TypeNode → Bool
  | function _ _ _ => true
  | _ => false

/-- Whether the parts of a type are of the forms that the grammar asks for. A name that is a word for
a type, and the literal that is one, are not read as a reference and as a literal. -/
def fits : TypeNode → Bool
  | word _ _ | parenthesized _ _ => true
  | literal _ _ value => decide (value ≠ .null)
  | reference _ name => (TypeWord.ofToken? (TokenKind.ofWord name.text)).isNone
  | array _ element => !element.isUnion && !element.isFunction
  | union _ members =>
    decide (2 ≤ members.length) && members.all (fun member => !member.isUnion) &&
      members.dropLast.all fun member => !member.isFunction
  | function _ parameters _ => restOnlyLast parameters
  | object _ members => members.all fun member => restOnlyLast member.parameters

end TypeNode

/-- A name that may stand alone and can be written as one token. -/
def Identifier.Usable (alphabet : Alphabet) (name : Identifier) : Prop :=
  (TokenKind.ofWord name.text).isName = true ∧ Token.Alone alphabet name.content

/-- The names and the number of a node, if it has any, can be written as tokens; the name of a member
may be a reserved word. -/
def TypeNode.Printable (alphabet : Alphabet) : TypeNode → Prop
  | .literal _ _ (.number text) => Token.Alone alphabet (.number, text)
  | .reference _ name => name.Usable alphabet
  | .function _ parameters _ => ∀ parameter ∈ parameters, parameter.name.Usable alphabet
  | .object _ members => ∀ member ∈ members, Token.Alone alphabet member.name.content ∧
      ∀ parameter ∈ member.parameters, parameter.name.Usable alphabet
  | _ => True

mutual

/-- How many types are nested in each other inside a type, at most: those in parentheses, after
colons and after arrows. -/
def TypeNode.nesting : TypeNode → Nat
  | .word _ _ | .literal _ _ _ | .reference _ _ => 0
  | .array _ element => element.nesting
  | .union _ members => unionNesting members
  | .function _ parameters result => max (parameterNesting parameters) (result.nesting + 1)
  | .object _ members => elementNesting members
  | .parenthesized _ inner => inner.nesting + 1

/-- The nesting of the members of a union. -/
def unionNesting : List TypeNode → Nat
  | [] => 0
  | member :: others => max member.nesting (unionNesting others)

/-- The nesting of a type after a colon. -/
def annotationNesting : Option TypeNode → Nat
  | none => 0
  | some type => type.nesting + 1

/-- The nesting of parameters. -/
def parameterNesting : List Parameter → Nat
  | [] => 0
  | .mk _ _ _ type? :: others => max (annotationNesting type?) (parameterNesting others)

/-- The nesting of the members of an object type. -/
def elementNesting : List TypeElement → Nat
  | [] => 0
  | .property _ _ type? :: others => max (annotationNesting type?) (elementNesting others)
  | .method _ _ parameters result :: others =>
    max (max (parameterNesting parameters) (annotationNesting result)) (elementNesting others)

end

/-! ### Nesting goes down -/

/-- A member of a union is nested at most as deeply as the members together. -/
theorem nesting_le_of_mem {members : List TypeNode} {member : TypeNode} (h : member ∈ members) :
    member.nesting ≤ unionNesting members := by
  induction members with
  | nil => cases h
  | cons first others ih =>
    rw [unionNesting]
    rcases List.mem_cons.mp h with rfl | h
    · exact Nat.le_max_left _ _
    · exact Nat.le_trans (ih h) (Nat.le_max_right _ _)

/-- An annotation opens one level around its type. -/
theorem nesting_lt_of_annotated {type? : Option TypeNode} {type : TypeNode} (h : type ∈ type?) :
    type.nesting < annotationNesting type? := by
  cases h
  exact Nat.lt_succ_self _

/-- A list of parameters opens one level around the type of each. -/
theorem nesting_lt_of_parameter {parameters : List Parameter} {type : TypeNode}
    (h : type ∈ parameters.filterMap Parameter.type?) :
    type.nesting < parameterNesting parameters := by
  induction parameters with
  | nil => cases h
  | cons first others ih =>
    obtain ⟨node, rest, name, type?⟩ := first
    rw [parameterNesting]
    rw [List.mem_filterMap] at h ih
    obtain ⟨parameter, hmem, htype⟩ := h
    rcases List.mem_cons.mp hmem with rfl | hmem
    · exact Nat.lt_of_lt_of_le (nesting_lt_of_annotated htype) (Nat.le_max_left _ _)
    · exact Nat.lt_of_lt_of_le (ih ⟨parameter, hmem, htype⟩) (Nat.le_max_right _ _)

/-- An object type opens one level around the types in its members. -/
theorem nesting_lt_of_element {members : List TypeElement} {type : TypeNode}
    (h : type ∈ members.flatMap TypeElement.types) : type.nesting < elementNesting members := by
  induction members with
  | nil => cases h
  | cons first others ih =>
    rw [List.flatMap_cons, List.mem_append, TypeElement.types, List.mem_append,
      Option.mem_toList] at h
    cases first with
    | property node name type? =>
      rw [elementNesting]
      rcases h with (h | h) | h
      · cases h
      · exact Nat.lt_of_lt_of_le (nesting_lt_of_annotated h) (Nat.le_max_left _ _)
      · exact Nat.lt_of_lt_of_le (ih h) (Nat.le_max_right _ _)
    | method node name parameters result =>
      rw [elementNesting]
      rcases h with (h | h) | h
      · have hlt : type.nesting < parameterNesting parameters := nesting_lt_of_parameter h
        omega
      · have hlt : type.nesting < annotationNesting result := nesting_lt_of_annotated h
        omega
      · have hlt := ih h
        omega

/-! ### Every token of a printable type can be written -/

section Writable

variable {alphabet : Alphabet}

/-- The token of a punctuation mark can be written in any alphabet. -/
theorem Punctuator.content_writable (alphabet : Alphabet) (p : Punctuator) :
    Token.Writable alphabet p.content :=
  TokenKind.fixed_writable alphabet rfl

/-- All tokens of a list can be written. -/
def AllWritable (alphabet : Alphabet) (contents : List (TokenKind × String)) : Prop :=
  ∀ content ∈ contents, Token.Writable alphabet content

/-- The colon and the type of an annotation can be written when the type can. -/
theorem annotationContents_writable {type? : Option TypeNode}
    (h : ∀ type ∈ type?, AllWritable alphabet type.contents) :
    AllWritable alphabet (annotationContents type?) := by
  cases type? with
  | none =>
    rw [annotationContents]
    exact nofun
  | some type =>
    rw [annotationContents]
    exact List.forall_mem_cons.mpr ⟨Punctuator.content_writable alphabet _, h type rfl⟩

/-- A parameter can be written when its name can stand there and its type can be written. -/
theorem Parameter.contents_writable {parameter : Parameter} (hname : parameter.name.Usable alphabet)
    (h : ∀ type ∈ parameter.type?, AllWritable alphabet type.contents) :
    AllWritable alphabet parameter.contents := by
  obtain ⟨node, rest, name, type?⟩ := parameter
  have hwritten : AllWritable alphabet (name.content :: annotationContents type?) :=
    List.forall_mem_cons.mpr
      ⟨Identifier.content_writable hname.2, annotationContents_writable h⟩
  cases rest with
  | none =>
    rw [contents]
    exact hwritten
  | some span =>
    rw [contents]
    exact List.forall_mem_cons.mpr ⟨Punctuator.content_writable alphabet _, hwritten⟩

/-- Parameters can be written when their names can stand there and their types can be written. -/
theorem parameterContents_writable {parameters : List Parameter}
    (hnames : ∀ parameter ∈ parameters, parameter.name.Usable alphabet)
    (h : ∀ type ∈ parameters.filterMap Parameter.type?, AllWritable alphabet type.contents) :
    AllWritable alphabet (parameterContents parameters) := by
  induction parameters with
  | nil =>
    rw [parameterContents]
    exact nofun
  | cons parameter others ih =>
    obtain ⟨hname, hnames⟩ := List.forall_mem_cons.mp hnames
    have hfirst := Parameter.contents_writable hname fun type htype =>
      h type (List.mem_filterMap.mpr ⟨parameter, List.mem_cons_self, htype⟩)
    have hothers := ih hnames fun type htype => by
      obtain ⟨other, hmem, htype⟩ := List.mem_filterMap.mp htype
      exact h type (List.mem_filterMap.mpr ⟨other, List.mem_cons_of_mem _ hmem, htype⟩)
    cases others with
    | nil =>
      rw [parameterContents]
      exact hfirst
    | cons next others =>
      rw [parameterContents_cons_cons]
      exact List.forall_mem_append.mpr
        ⟨hfirst, List.forall_mem_cons.mpr ⟨Punctuator.content_writable alphabet _, hothers⟩⟩

/-- A member can be written when its name, the names of its parameters and its types can. -/
theorem TypeElement.contents_writable {element : TypeElement}
    (hname : Token.Alone alphabet element.name.content)
    (hnames : ∀ parameter ∈ element.parameters, parameter.name.Usable alphabet)
    (h : ∀ type ∈ element.types, AllWritable alphabet type.contents) :
    AllWritable alphabet element.contents := by
  have hmark := Punctuator.content_writable alphabet
  have hannotation : AllWritable alphabet (annotationContents element.type?) :=
    annotationContents_writable fun type htype =>
      h type (List.mem_append_right _ (Option.mem_toList.mpr htype))
  cases element with
  | property node name type? =>
    rw [contents]
    exact List.forall_mem_cons.mpr ⟨Identifier.content_writable hname, hannotation⟩
  | method node name parameters result =>
    have hparameters : AllWritable alphabet (parameterContents parameters) :=
      parameterContents_writable hnames fun type htype => h type (List.mem_append_left _ htype)
    rw [contents, AllWritable, List.forall_mem_cons, List.forall_mem_cons, List.forall_mem_append,
      List.forall_mem_cons]
    exact ⟨Identifier.content_writable hname, hmark _, hparameters, hmark _, hannotation⟩

/-- Members can be written when each of them can. -/
theorem elementContents_writable {members : List TypeElement}
    (h : ∀ member ∈ members, AllWritable alphabet member.contents) :
    AllWritable alphabet (elementContents members) := by
  induction members with
  | nil =>
    rw [elementContents]
    exact nofun
  | cons member others ih =>
    obtain ⟨hmember, hothers⟩ := List.forall_mem_cons.mp h
    rw [elementContents, AllWritable, List.forall_mem_append, List.forall_mem_cons]
    exact ⟨hmember, Punctuator.content_writable alphabet _, ih hothers⟩

/-- The further members of a union can be written when each of them can. -/
theorem furtherContents_writable {members : List TypeNode}
    (h : ∀ member ∈ members, AllWritable alphabet member.contents) :
    AllWritable alphabet (furtherContents members) := by
  induction members with
  | nil =>
    rw [furtherContents]
    exact nofun
  | cons member others ih =>
    obtain ⟨hmember, hothers⟩ := List.forall_mem_cons.mp h
    rw [furtherContents, AllWritable, List.forall_mem_cons, List.forall_mem_append]
    exact ⟨Punctuator.content_writable alphabet _, hmember, ih hothers⟩

/-- Every token of a type whose names can be written can itself be written. -/
theorem TypeNode.contents_writable {type : TypeNode} (h : type.Throughout (Printable alphabet)) :
    AllWritable alphabet type.contents := by
  have hmark := Punctuator.content_writable alphabet
  induction h with
  | @intro type here _ ih =>
    cases type with
    | word node word =>
      rw [contents, AllWritable, List.forall_mem_singleton]
      exact TokenKind.fixed_writable alphabet rfl
    | literal node constant value =>
      rw [contents, AllWritable, List.forall_mem_singleton]
      cases value with
      | string | template => trivial
      | number text => exact here
      | boolean value => cases value <;> exact TokenKind.fixed_writable alphabet rfl
      | null => exact TokenKind.fixed_writable alphabet rfl
    | reference node name =>
      rw [contents, AllWritable, List.forall_mem_singleton]
      exact Identifier.content_writable here.2
    | array node element =>
      have helement := ih element (by simp)
      rw [contents, AllWritable, List.forall_mem_append, List.forall_mem_cons,
        List.forall_mem_singleton]
      exact ⟨helement, hmark _, hmark _⟩
    | union node members =>
      cases members with
      | nil =>
        rw [contents]
        exact nofun
      | cons first others =>
        rw [contents, AllWritable, List.forall_mem_append]
        exact ⟨ih first List.mem_cons_self,
          furtherContents_writable fun member hmem => ih member (List.mem_cons_of_mem _ hmem)⟩
    | function node parameters result =>
      have hparameters := parameterContents_writable here fun type htype =>
        ih type (List.mem_append_left _ htype)
      have hresult := ih result (List.mem_append_right _ List.mem_cons_self)
      rw [contents, AllWritable, List.forall_mem_cons, List.forall_mem_append, List.forall_mem_cons,
        List.forall_mem_cons]
      exact ⟨hmark _, hparameters, hmark _, hmark _, hresult⟩
    | object node members =>
      have hmembers := elementContents_writable fun member hmem =>
        TypeElement.contents_writable (here member hmem).1 (here member hmem).2 fun type htype =>
          ih type (List.mem_flatMap.mpr ⟨member, hmem, htype⟩)
      rw [contents, AllWritable, List.forall_mem_cons, List.forall_mem_append,
        List.forall_mem_singleton]
      exact ⟨hmark _, hmembers, hmark _⟩
    | parenthesized node inner =>
      have hinner := ih inner (by simp)
      rw [contents, AllWritable, List.forall_mem_cons, List.forall_mem_append,
        List.forall_mem_singleton]
      exact ⟨hmark _, hinner, hmark _⟩

end Writable

end ExpressionTyping
