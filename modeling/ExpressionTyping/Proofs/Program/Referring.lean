import ExpressionTyping.Proofs.Program.Course
import ExpressionTyping.Proofs.Program.Handing

/-!
# What refers to what

To resolve a symbol is to ask for others, so the symbols that are being resolved at one time lie on
a path (`Query.Around`). Types refer to types only, and so does everything that is annotated; an
interface refers to nothing while it is resolved, since it gets its members before.
-/

set_option autoImplicit false

namespace ExpressionTyping

open Relation (TransGen)

variable {program : Program} {pending : Pending}

/-- A query asks for a symbol. -/
def Query.Leads (program : Program) (query : Query) (id : SymbolId) : Prop :=
  match query with
  | .names uses => ∃ use ∈ uses, use.2.isThere = true ∧
    program.resolveType? use.1 use.2.text = some id
  | .value scope name? => ∃ name, name? = some name ∧
    program.resolveValue? scope name.text = some id
  | .symbol other => other = id

/-- A symbol that is resolved asks for another. -/
def Pending.Refers (program : Program) (pending : Pending) (id other : SymbolId) : Prop :=
  ∃ first rest, pending.declarationsOf id = first :: rest ∧
    (first.query (first :: rest)).Leads program other

/-- The symbols that are being resolved lead to whatever is asked for. -/
def Query.Around (program : Program) (pending : Pending) (query : Query)
    (active : List SymbolId) : Prop :=
  ∀ id, query.Leads program id → ∀ a ∈ active, TransGen (pending.Refers program) a id

namespace Query.Around

variable {active : List SymbolId}

/-- Nothing is being resolved. -/
theorem nothing (query : Query) : query.Around program pending [] :=
  fun _ _ _ ha => absurd ha List.not_mem_nil

/-- The symbols being resolved lead to the first of the names asked for. -/
theorem left {names names' : List (ScopeId × Identifier)}
    (h : (Query.names (names ++ names')).Around program pending active) :
    (Query.names names).Around program pending active := by
  rintro id ⟨use, huse, hleads⟩
  exact h id ⟨use, List.mem_append_left _ huse, hleads⟩

/-- The symbols being resolved lead to the later ones of the names asked for. -/
theorem right {names names' : List (ScopeId × Identifier)}
    (h : (Query.names (names ++ names')).Around program pending active) :
    (Query.names names').Around program pending active := by
  rintro id ⟨use, huse, hleads⟩
  exact h id ⟨use, List.mem_append_right _ huse, hleads⟩

/-- The symbols being resolved lead to the type that a name which is there leads to. -/
theorem found {scope : ScopeId} {name : Identifier} {id : SymbolId}
    (h : (Query.names [(scope, name)]).Around program pending active) (hname : name.isThere = true)
    (hfound : program.resolveType? scope name.text = some id) :
    (Query.symbol id).Around program pending active := by
  rintro _ ⟨⟩
  exact h id ⟨(scope, name), List.mem_cons_self, hname, hfound⟩

/-- The symbols being resolved lead to the value that a name leads to. -/
theorem named {scope : ScopeId} {name : Identifier} {id : SymbolId}
    (h : (Query.value scope (some name)).Around program pending active)
    (hfound : program.resolveValue? scope name.text = some id) :
    (Query.symbol id).Around program pending active := by
  rintro _ ⟨⟩
  exact h id ⟨name, rfl, hfound⟩

/-- A symbol that is resolved leads to what it asks for, and so do those around it. -/
theorem declared {id : SymbolId} {first : Declaration} {rest : List Declaration}
    (h : (Query.symbol id).Around program pending active)
    (hdeclarations : pending.declarationsOf id = first :: rest) :
    (first.query (first :: rest)).Around program pending (id :: active) := by
  intro other hleads a ha
  have hrefers : pending.Refers program id other := ⟨first, rest, hdeclarations, hleads⟩
  rcases List.mem_cons.mp ha with rfl | ha
  · exact .single hrefers
  · exact (h id rfl a ha).tail hrefers

end Query.Around

/-! ## Types refer to types -/

/-- Values and types that are declared have symbols of their kind. -/
def Pending.Sorted (program : Program) (pending : Pending) : Prop :=
  ResolveState.Sorted pending ⟨program, []⟩

section Sorted

variable (h : pending.Sorted program)
include h

/-- The name of a type leads to a type. -/
theorem Query.isType_of_leads {names : List (ScopeId × Identifier)} {id : SymbolId}
    (hleads : (Query.names names).Leads program id) :
    (program.symbol id).sort.isType = true := by
  obtain ⟨use, -, -, hfound⟩ := hleads
  exact Guarded.isType_of_found h.names (.type use.2.text) hfound

/-- A type refers only to types. -/
theorem Pending.Refers.isType {id other : SymbolId} (hrefers : pending.Refers program id other)
    (hid : (program.symbol id).sort.isType = true) :
    (program.symbol other).sort.isType = true := by
  obtain ⟨first, rest, hdeclarations, hleads⟩ := hrefers
  have hfirst := h.isType_eq (Pending.mem_of_declarationsOf hdeclarations)
  rw [show (program.symbol id).sort.isType = first.isType from hfirst] at hid
  cases first with
  | variableDecl | function => cases hid
  | interface | typeAlias => exact Query.isType_of_leads h hleads

/-- Only types can be reached from a type by references. -/
theorem Pending.isType_of_transGen {id other : SymbolId}
    (hpath : TransGen (pending.Refers program) id other)
    (hid : (program.symbol id).sort.isType = true) :
    (program.symbol other).sort.isType = true := by
  induction hpath with
  | single hrefers => exact hrefers.isType h hid
  | tail _ hrefers ih => exact hrefers.isType h ih

/-- An annotated variable leads to types only, so not to itself. -/
theorem Pending.not_refers_annotated {id : SymbolId} {scope : ScopeId} {constant : Bool}
    {type : TypeNode} {initializer : Option Expr} {rest : List Declaration}
    (hdeclarations : pending.declarationsOf id =
      .variableDecl scope constant (some type) initializer :: rest) :
    ¬TransGen (pending.Refers program) id id := by
  intro hpath
  have hvalue : (program.symbol id).sort.isType = false :=
    h.isType_eq (Pending.mem_of_declarationsOf hdeclarations)
  obtain ⟨other, hfirst, hrest⟩ := TransGen.head'_iff.mp hpath
  obtain ⟨first, rest', heq, hleads⟩ := hfirst
  cases hdeclarations.symm.trans heq
  have hother := Query.isType_of_leads h hleads
  rcases Relation.reflTransGen_iff_eq_or_transGen.mp hrest with rfl | hrest
  · rw [hvalue] at hother
    cases hother
  · have hid := Pending.isType_of_transGen h hrest hother
    rw [hvalue] at hid
    cases hid

end Sorted

/-! ## What is declared together -/

/-- What is declared is of the sort of its symbol, and an alias has one declaration. -/
structure Pending.Regular (program : Program) (pending : Pending) : Prop where
  sorted : pending.Sorted program
  sorts : ∀ id made, (id, made) ∈ pending → made.isOf (program.symbol id).sort = true
  once : ∀ id scope span type, (id, .typeAlias scope span type) ∈ pending →
    pending.declarationsOf id = [.typeAlias scope span type]

/-- In regular declarations, each is of the sort of its symbol. -/
theorem Pending.Regular.isOf_of_mem {program : Program} {pending : Pending}
    (h : pending.Regular program) (id : SymbolId) :
    ∀ made ∈ pending.declarationsOf id, made.isOf (program.symbol id).sort = true :=
  fun made hmade => h.sorts id made (mem_of_mem_declarationsOf hmade)

/-- An alias is declared once. -/
theorem Pending.Regular.length_le_one {program : Program} {pending : Pending}
    (h : pending.Regular program) (id : SymbolId) (hsort : (program.symbol id).sort = .typeAlias) :
    (pending.declarationsOf id).length ≤ 1 := by
  cases hdeclarations : pending.declarationsOf id with
  | nil => exact Nat.zero_le _
  | cons first rest =>
    have hmem := mem_of_declarationsOf hdeclarations
    have hfirst := h.sorts id first hmem
    rw [hsort] at hfirst
    cases first with
    | typeAlias scope span type =>
      rw [← hdeclarations, h.once id scope span type hmem]
      exact le_rfl
    | variableDecl | function | interface => cases hfirst

/-- What a placed file declares in a compiled program is regular. -/
theorem Program.Compiled.regular (h : program.Compiled) {file : SourceFile} {text : List Char}
    (hplaced : ∀ statement ∈ file.statements, statement.Placed text) :
    (Resolve.pendingOf (program.boundIn file).1.2).Regular (program.boundIn file).2 where
  sorted := h.sorted.boundIn file
  sorts _ _ hmem := isOf_of_mem h.sorted hmem
  once id scope span type hmem := by
    have hsort : ((program.boundIn file).2.symbol id).sort = .typeAlias :=
      of_decide_eq_true (isOf_of_mem h.sorted hmem)
    exact h.declarationsOf_eq hplaced hmem (by rw [hsort]; exact nofun)

end ExpressionTyping
