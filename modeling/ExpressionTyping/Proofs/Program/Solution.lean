import Mathlib.Data.List.Perm.Basic
import Mathlib.Data.Set.Finite.Basic
import Mathlib.Logic.Relation
import Mathlib.Order.WellFounded
import ExpressionTyping.Proofs.Program.Binding
import ExpressionTyping.Proofs.Program.Meaning

/-!
# Shapes that fit all declarations

The declarations of a file are described together: each one by itself, given the shapes of the
others. A choice of shapes that fits all declarations `Solves` them. An interface is there before its
members are described, so it waits for nothing; every other declaration waits for what it refers to.
Functions and annotated variables wait for types, which never wait for values, so only aliases and
variables without annotations can wait for each other in circles (`refers_of_depends_circle`). When
none do, the shapes are found by recursion along references (`exists_solves`). They do not depend on
where in the file a declaration stands (`Solves.perm`).
-/

set_option autoImplicit false

namespace ExpressionTyping

open Relation (TransGen ReflTransGen)

/-! ## The declarations of a file -/

/-- Whether a statement is a declaration or a lone semicolon, and neither a block nor an
expression. -/
def Statement.isDeclaration : Statement → Bool
  | .variableList _ | .function _ | .interface _ | .typeAlias _ | .empty _ => true
  | .block _ _ | .expression _ _ => false

/-- What a statement declares in a scope, with the names and their meanings; a missing name of a
variable or a function declares nothing. -/
def Statement.declared (scope : ScopeId) : Statement → List (Key × Declaration)
  | .variableList list =>
    (list.declarations.filter fun declaration => !declaration.name.isMissing).map
      fun declaration => (.value declaration.name.text,
        .variableDecl scope (list.form = .constant) declaration.type? declaration.initializer)
  | .function declaration =>
    if declaration.name.isMissing then []
    else [(.value declaration.name.text,
      .function scope declaration.parameters declaration.result)]
  | .interface declaration =>
    [(.type declaration.name.text, .interface scope declaration.members)]
  | .typeAlias declaration =>
    [(.type declaration.name.text,
      .typeAlias scope declaration.name.node.span declaration.type)]
  | .block _ _ | .expression _ _ | .empty _ => []

namespace Declaration

/-- Whether a declaration declares a type. -/
def isType : Declaration → Bool
  | variableDecl _ _ _ _ | function _ _ _ => false
  | interface _ _ | typeAlias _ _ _ => true

/-- Whether a declaration takes its type from what it refers to: an alias, or a variable without an
annotation. -/
def isDerived : Declaration → Bool
  | variableDecl _ _ none _ | typeAlias _ _ _ => true
  | _ => false

/-- What a declaration refers to. -/
def references : Declaration → List Key
  | variableDecl _ _ (some type) _ => type.references.map .type
  | variableDecl _ _ none initializer => (initializer.bind Expr.reference?).toList.map .value
  | function _ parameters result =>
    (parameterReferences parameters ++ annotationReferences result).map .type
  | interface _ members => (elementReferences members).map .type
  | typeAlias _ _ type => type.references.map .type

/-- A declaration without the numbers and the places of its nodes. -/
def bare : Declaration → Declaration
  | variableDecl scope constant type? initializer =>
    variableDecl scope constant (bareType? type?) (initializer.map Expr.bare)
  | function scope parameters result =>
    function scope (bareParameters parameters) (bareType? result)
  | interface scope members => interface scope (bareElements members)
  | typeAlias scope _ type => typeAlias scope default type.bare

/-- What a declaration refers to does not depend on the numbers and places of its nodes. -/
theorem references_bare (declaration : Declaration) :
    declaration.bare.references = declaration.references := by
  cases declaration with
  | variableDecl scope constant type? initializer =>
    cases type? with
    | some type => simp only [bare, bareType?, references, type.references_bare]
    | none =>
      cases initializer with
      | none => rfl
      | some value => simp only [bare, bareType?, references, Option.map_some, Option.bind_some,
          value.reference?_bare]
  | function scope parameters result =>
    simp only [bare, references, parameterReferences_bare, annotationReferences_bare]
  | interface scope members => simp only [bare, references, elementReferences_bare]
  | typeAlias scope nameSpan type => simp only [bare, references, type.references_bare]

end Declaration

/-- What a statement declares does not depend on where it stands. -/
theorem Statement.declared_bare (scope : ScopeId) (statement : Statement) :
    statement.bare.declared scope =
      (statement.declared scope).map fun entry => (entry.1, entry.2.bare) := by
  cases statement with
  | variableList list =>
    simp only [bare, declared, List.filter_map, List.map_map]
    rfl
  | function declaration =>
    have hname : declaration.name.bare.isMissing = declaration.name.isMissing := rfl
    simp only [bare, declared, hname]
    split <;> rfl
  | _ => rfl

namespace Describe

variable {shapes shapes' : Key → Option Shape} {owner : Key}

/-- A declaration means the same wherever it stands, and under all choices of shapes that agree on
what it refers to. -/
theorem declaration_bare (declared : Declaration)
    (h : ∀ key ∈ declared.references, shapes key = shapes' key) :
    declaration shapes owner declared = declaration shapes' owner declared.bare := by
  have hagree {names : List String} (hnames : declared.references = names.map .type) :
      AgreeOn shapes shapes' names :=
    fun name hname => h _ (hnames ▸ List.mem_map_of_mem hname)
  cases declared with
  | variableDecl scope constant type? initializer =>
    cases type? with
    | some type => exact typeNode_bare type (hagree rfl)
    | none =>
      cases initializer with
      | none => rfl
      | some value =>
        have hvalue : valueType shapes value = valueType shapes' value.bare := by
          apply valueType_bare
          intro name hname
          apply h
          rw [Declaration.references, Option.bind_some, hname]
          exact List.mem_singleton_self _
        simp only [Declaration.bare, bareType?, Option.map_some, declaration, hvalue]
  | function scope parameters result =>
    have hnames := hagree rfl
    simp only [Declaration.bare, declaration, parameterTypes_bare parameters hnames.left,
      optionalType_bare result hnames.right]
  | interface scope members =>
    simp only [Declaration.bare, declaration, elements_bare members (hagree rfl)]
  | typeAlias scope nameSpan type => exact typeNode_bare type (hagree rfl)

/-- The shape of a declaration depends on the shapes of what it refers to only. -/
theorem declaration_congr (declared : Declaration)
    (h : ∀ key ∈ declared.references, shapes key = shapes' key) :
    declaration shapes owner declared = declaration shapes' owner declared :=
  (declaration_bare declared h).trans (declaration_bare declared fun _ _ => rfl).symm

/-- An interface stands for itself. -/
theorem declaration_interface {declared : Declaration} (h : declared.isInterface = true)
    (account : Account) :
    ((declaration shapes owner declared).run account).1 = .interface owner := by
  cases declared with
  | interface => rfl
  | _ => cases h

end Describe

/-! ## Waiting for each other -/

section Waiting

variable (declared : List (Key × Declaration))

/-- An alias or a variable without an annotation refers to something. -/
def Refers (key other : Key) : Prop :=
  ∃ declaration, (key, declaration) ∈ declared ∧ declaration.isDerived = true ∧
    other ∈ declaration.references

/-- A declaration waits for something: whatever it refers to, unless it is an interface. -/
def Depends (key other : Key) : Prop :=
  ∃ declaration, (key, declaration) ∈ declared ∧ declaration.isInterface = false ∧
    other ∈ declaration.references

/-- Values are declared as values and types as types. -/
def KeysFit : Prop :=
  ∀ entry ∈ declared, entry.2.isType = match entry.1 with
    | .value _ => false
    | .type _ => true

variable {declared}

/-- Types wait for types only. -/
theorem Depends.type {key other : Key} (hfit : KeysFit declared)
    (h : Depends declared key other) (hkey : ∃ name, key = .type name) :
    ∃ name, other = .type name := by
  obtain ⟨declaration, hmem, -, hother⟩ := h
  obtain ⟨name, rfl⟩ := hkey
  have htype : declaration.isType = true := hfit _ hmem
  cases declaration with
  | variableDecl | function => cases htype
  | interface | typeAlias =>
    obtain ⟨other, -, rfl⟩ := List.mem_map.mp hother
    exact ⟨other, rfl⟩

/-- Types wait for types only. -/
theorem Depends.type_of_reflTransGen {key other : Key} (hfit : KeysFit declared)
    (h : ReflTransGen (Depends declared) key other) (hkey : ∃ name, key = .type name) :
    ∃ name, other = .type name := by
  induction h with
  | refl => exact hkey
  | tail _ hstep ih => exact hstep.type hfit ih

/-- A declaration waits for what it refers to, unless it is a value that waits for types. -/
theorem Depends.refers {key other : Key} (hfit : KeysFit declared)
    (h : Depends declared key other) :
    Refers declared key other ∨ (∃ name, key = .value name) ∧ ∃ name, other = .type name := by
  obtain ⟨declaration, hmem, hinterface, hother⟩ := h
  cases hderived : declaration.isDerived with
  | true => exact .inl ⟨declaration, hmem, hderived, hother⟩
  | false =>
    have hfits := hfit _ hmem
    refine .inr ⟨?_, ?_⟩
    · cases key with
      | value name => exact ⟨name, rfl⟩
      | type name =>
        cases declaration with
        | variableDecl | function => cases hfits
        | interface => cases hinterface
        | typeAlias => cases hderived
    · cases declaration with
      | variableDecl scope constant type? initializer =>
        cases type? with
        | none => cases hderived
        | some type =>
          obtain ⟨name, -, rfl⟩ := List.mem_map.mp hother
          exact ⟨name, rfl⟩
      | function | interface | typeAlias =>
        obtain ⟨name, -, rfl⟩ := List.mem_map.mp hother
        exact ⟨name, rfl⟩

/-- Only aliases and variables without annotations wait for each other in circles. -/
theorem refers_of_depends_circle (hfit : KeysFit declared) {key : Key}
    (h : TransGen (Depends declared) key key) : TransGen (Refers declared) key key := by
  -- each step of the circle can be gone back along the rest of it
  have hsteps (first : Key) (hpath : TransGen (Depends declared) first key) :
      ReflTransGen (Depends declared) key first → TransGen (Refers declared) first key := by
    induction hpath using TransGen.head_induction_on with
    | single hstep =>
      intro hback
      rcases hstep.refers hfit with hrefers | ⟨⟨name, rfl⟩, htype⟩
      · exact .single hrefers
      · obtain ⟨name', hname'⟩ := Depends.type_of_reflTransGen hfit hback htype
        cases hname'
    | @head first next hstep hrest ih =>
      intro hback
      rcases hstep.refers hfit with hrefers | ⟨⟨name, rfl⟩, htype⟩
      · exact .head hrefers (ih (hback.tail hstep))
      · have hround := hrest.to_reflTransGen.trans hback
        obtain ⟨name', hname'⟩ := Depends.type_of_reflTransGen hfit hround htype
        cases hname'
  exact hsteps key h .refl

end Waiting

/-- Finitely many elements that are never above themselves are reached by recursion. -/
theorem wellFounded_of_acyclic {α : Type} {r : α → α → Prop} (sources : List α)
    (hsources : ∀ {a b}, r a b → a ∈ sources) (hacyclic : ∀ a, ¬ TransGen r a a) :
    WellFounded fun b a => r a b := by
  let above (b a : { a // a ∈ sources }) : Prop := TransGen r a.1 b.1
  have htrans : IsTrans _ above := ⟨fun _ _ _ h h' => h'.trans h⟩
  have hirrefl : Std.Irrefl above := ⟨fun a => hacyclic a.1⟩
  have hfinite : Finite { a // a ∈ sources } := List.finite_toSet sources
  have hwf : WellFounded above := Finite.wellFounded_of_trans_of_irrefl above
  have hmem (a : { a // a ∈ sources }) : Acc (fun b a => r a b) a.1 := by
    induction a using hwf.induction with
    | _ a ih =>
      refine ⟨_, fun b hb => ?_⟩
      by_cases hsource : b ∈ sources
      · exact ih ⟨b, hsource⟩ (.single hb)
      · exact ⟨_, fun c hc => absurd (hsources hc) hsource⟩
  refine ⟨fun a => ⟨_, fun b hb => ?_⟩⟩
  by_cases hsource : b ∈ sources
  · exact hmem ⟨b, hsource⟩
  · exact ⟨_, fun c hc => absurd (hsources hc) hsource⟩

/-! ## Solutions -/

/-- Shapes fit all declarations, and the accounts are those of whole descriptions. What is not
declared has no shape and brings nothing. -/
structure Solves (declared : List (Key × Declaration)) (shapes : Key → Option Shape)
    (accounts : Key → Account) : Prop where
  shape : ∀ {key declaration}, (key, declaration) ∈ declared →
    shapes key = some ((Describe.declaration shapes key declaration).run .start).1
  account : ∀ {key declaration}, (key, declaration) ∈ declared →
    accounts key = ((Describe.declaration shapes key declaration).run .start).2
  undeclared : ∀ {key}, key ∉ declared.map Prod.fst → shapes key = none ∧ accounts key = .start

/-- In a list that has every key once, an entry is looked up by its key. -/
theorem lookup_of_mem {α β : Type} [BEq α] [LawfulBEq α] {entries : List (α × β)}
    (honce : (entries.map Prod.fst).Nodup) {a : α} {b : β} (hmem : (a, b) ∈ entries) :
    entries.lookup a = some b := by
  induction entries with
  | nil => cases hmem
  | cons entry rest ih =>
    rw [List.map_cons, List.nodup_cons] at honce
    rcases List.mem_cons.mp hmem with rfl | hmem
    · exact List.lookup_cons_self
    · have hne : (a == entry.1) = false := by
        refine beq_false_of_ne fun heq => honce.1 ?_
        exact heq ▸ List.mem_map_of_mem hmem
      rw [List.lookup_cons, hne]
      exact ih honce.2 hmem

/-- Declarations that do not wait in circles have shapes. -/
theorem exists_solves {declared : List (Key × Declaration)} (honce : (declared.map Prod.fst).Nodup)
    (hwf : WellFounded fun other key => Depends declared key other) :
    ∃ shapes accounts, Solves declared shapes accounts := by
  classical
  -- a declaration is described with the shapes of what it waits for, and no others
  let guarded (key : Key) (found : ∀ other, Depends declared key other → Option Shape)
      (other : Key) : Option Shape :=
    if h : Depends declared key other then found other h else none
  let describe (key : Key) (found : ∀ other, Depends declared key other → Option Shape) :
      Option Shape :=
    (declared.lookup key).map fun declaration =>
      ((Describe.declaration (guarded key found) key declaration).run .start).1
  let shapes : Key → Option Shape := hwf.fix describe
  have hfix (key : Key) : shapes key = describe key fun other _ => shapes other :=
    hwf.fix_eq describe key
  refine ⟨shapes, fun key => ((declared.lookup key).map fun declaration =>
    ((Describe.declaration shapes key declaration).run .start).2).getD .start, ?_⟩
  constructor
  case shape =>
    intro key declaration hmem
    rw [hfix]
    simp only [describe, lookup_of_mem honce hmem, Option.map_some]
    congr 1
    cases hinterface : declaration.isInterface with
    | true =>
      rw [Describe.declaration_interface hinterface, Describe.declaration_interface hinterface]
    | false =>
      rw [Describe.declaration_congr declaration]
      intro other hother
      exact dif_pos ⟨declaration, hmem, hinterface, hother⟩
  case account =>
    intro key declaration hmem
    simp only [lookup_of_mem honce hmem, Option.map_some, Option.getD_some]
  case undeclared =>
    intro key hkey
    have hnone : declared.lookup key = none := by
      rw [List.lookup_eq_none_iff]
      intro entry hentry
      refine bne_iff_ne.mpr fun heq => hkey ?_
      exact heq ▸ List.mem_map_of_mem hentry
    rw [hfix]
    simp only [describe, hnone, Option.map_none, Option.getD_none, and_self]

/-- What fits declarations fits them in any order and at any place. -/
theorem Solves.perm {declared declared' : List (Key × Declaration)} {shapes : Key → Option Shape}
    {accounts : Key → Account} (h : Solves declared shapes accounts)
    (hperm : (declared.map fun entry => (entry.1, entry.2.bare)).Perm
      (declared'.map fun entry => (entry.1, entry.2.bare))) : Solves declared' shapes accounts := by
  have hsame {key : Key} {declaration : Declaration} (hmem : (key, declaration) ∈ declared') :
      ∃ other, (key, other) ∈ declared ∧ Describe.declaration shapes key other =
        Describe.declaration shapes key declaration := by
    have hbare := hperm.mem_iff.mpr (List.mem_map_of_mem hmem)
    obtain ⟨⟨key', other⟩, hother, heq⟩ := List.mem_map.mp hbare
    obtain ⟨rfl, hdeclaration⟩ := Prod.mk.inj heq
    refine ⟨other, hother, ?_⟩
    rw [Describe.declaration_bare other fun _ _ => rfl, hdeclaration,
      ← Describe.declaration_bare declaration fun _ _ => rfl]
  constructor
  case shape =>
    intro key declaration hmem
    obtain ⟨other, hother, heq⟩ := hsame hmem
    rw [← heq]
    exact h.shape hother
  case account =>
    intro key declaration hmem
    obtain ⟨other, hother, heq⟩ := hsame hmem
    rw [← heq]
    exact h.account hother
  case undeclared =>
    intro key hkey
    apply h.undeclared
    intro hmem
    have hkeys := hperm.map Prod.fst
    rw [List.map_map, List.map_map] at hkeys
    exact hkey (hkeys.mem_iff.mp hmem)

end ExpressionTyping
