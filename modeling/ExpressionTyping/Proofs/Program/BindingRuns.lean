import ExpressionTyping.Program.Bind

/-!
# What a step of binding does

Binding looks a declared name up and then goes one of three ways: the declaration adds to the symbol
that the name has, or the name is taken, or it is new. Each way has one equation, which says in full
what is left of the program; what else is proved about declaring a name rests on these equations and
not on the definitions.
-/

set_option autoImplicit false

namespace ExpressionTyping

namespace Bind

variable {s : Program} {name : Identifier} {sort : SymbolSort}

/-- The program in which a symbol and a number are noted down for a declaration. -/
def recorded (site : Site) (id : SymbolId) (name : Identifier) (number : Nat) (s : Program) :
    Program :=
  ((recordDeclaration site id name number).run s).2

/-- The program in which a name is reported as taken. -/
def reported (site : Site) (name : Identifier) (s : Program) : Program :=
  ((Compile.report site.file name.node.span (.duplicateName name.text)).run s).2

/-- The type that a new type name starts with, and the types then. An interface has a type of its
own, and an alias gets its type later. -/
def startType (name : String) (sort : SymbolSort) (types : TypeTable) : TypeId × TypeTable :=
  if sort = .interface then types.add (.named name) else (.any, types)

/-! ## Values -/

section Values

variable {target : ScopeId}

/-- A value whose name leads to a symbol of its sort is recorded under that symbol. -/
theorem declareValue_run_of_merges (site : Site) {existing : SymbolId}
    (hfound : (s.scope target).values.get? name.text = some existing)
    (hmerges : (s.symbol existing).sort.merges sort = true) (number : Nat) :
    (declareValue site target name sort number).run s =
      (existing, recorded site existing name number s) := by
  simp [declareValue, hfound, hmerges]
  rfl

/-- A value whose name leads to a symbol of another sort is reported, and recorded under a new
symbol that no name leads to. -/
theorem declareValue_run_of_taken (site : Site) {existing : SymbolId}
    (hfound : (s.scope target).values.get? name.text = some existing)
    (hmerges : ¬(s.symbol existing).sort.merges sort = true) (number : Nat) :
    (declareValue site target name sort number).run s =
      (⟨s.symbols.size⟩, recorded site ⟨s.symbols.size⟩ name number
        { reported site name s with symbols := s.symbols.push ⟨name.text, sort, [], .any⟩ }) := by
  simp [declareValue, hfound, hmerges]
  rfl

/-- A value whose name is free is recorded under a new symbol, to which the name leads from then
on. -/
theorem declareValue_run_of_new (site : Site)
    (hnew : (s.scope target).values.get? name.text = none) (number : Nat) :
    (declareValue site target name sort number).run s =
      (⟨s.symbols.size⟩, recorded site ⟨s.symbols.size⟩ name number
        { s with
          symbols := s.symbols.push ⟨name.text, sort, [], .any⟩
          scopes := s.scopes.modify target.index fun scope =>
            { scope with values := scope.values.insert name.text ⟨s.symbols.size⟩ } }) := by
  simp [declareValue, hnew]
  rfl

end Values

/-! ## Types -/

/-- A type whose name leads to a symbol of its sort is recorded under that symbol. -/
theorem declareType_run_of_merges {site : Site} {existing : SymbolId}
    (hfound : (s.scope site.scope).types.get? name.text = some existing)
    (hmerges : (s.symbol existing).sort.merges sort = true) (number : Nat) :
    (declareType site name sort number).run s =
      (some existing, recorded site existing name number s) := by
  simp [declareType, hfound, hmerges]
  rfl

/-- A type whose name leads to a symbol of another sort is reported and gets no symbol. -/
theorem declareType_run_of_taken {site : Site} {existing : SymbolId}
    (hfound : (s.scope site.scope).types.get? name.text = some existing)
    (hmerges : ¬(s.symbol existing).sort.merges sort = true) (number : Nat) :
    (declareType site name sort number).run s = (none, reported site name s) := by
  simp [declareType, hfound, hmerges]
  rfl

/-- A type whose name is free is recorded under a new symbol, to which the name leads from then
on. -/
theorem declareType_run_of_new {site : Site}
    (hnew : (s.scope site.scope).types.get? name.text = none) (number : Nat) :
    (declareType site name sort number).run s =
      (some ⟨s.symbols.size⟩, recorded site ⟨s.symbols.size⟩ name number
        { s with
          types := (startType name.text sort s.types).2
          symbols := s.symbols.push ⟨name.text, sort, [], (startType name.text sort s.types).1⟩
          scopes := s.scopes.modify site.scope.index fun scope =>
            { scope with types := scope.types.insert name.text ⟨s.symbols.size⟩ } }) := by
  by_cases hinterface : sort = .interface
  · simp [declareType, hnew, hinterface, startType]
    rfl
  · simp [declareType, hnew, hinterface, startType]
    rfl

/-- A type is declared and handed on if it gets a symbol. -/
def handOnType (site : Site) (name : Identifier) (sort : SymbolSort) (number : Nat)
    (made : Declaration) : Compile (List Bound) := do
  match ← declareType site name sort number with
  | some id => return [.declaration id made]
  | none => return []

/-- A type is handed on exactly when declaring it gives a symbol. -/
theorem handOnType_eq (site : Site) (name : Identifier) (sort : SymbolSort) (number : Nat)
    (made : Declaration) (s : Program) :
    (handOnType site name sort number made).run s =
      (match ((declareType site name sort number).run s).1 with
        | some id => [.declaration id made]
        | none => [], ((declareType site name sort number).run s).2) := by
  show (match ((declareType site name sort number).run s).1 with
    | some id => pure [Bound.declaration id made]
    | none => pure [] : Compile (List Bound)).run _ = _
  cases ((declareType site name sort number).run s).1 <;> rfl

/-! ## Variables and functions -/

/-- No form of a variable declares an interface. -/
theorem variableTarget_ne_interface (site : Site) (form : VariableForm) :
    (variableTarget site form).2 ≠ .interface := by
  cases form <;> exact nofun

/-- A variable without a name declares nothing. -/
theorem variableList_run_of_missing (site : Site) (form : VariableForm)
    {declaration : VariableDeclaration} (hmissing : declaration.name.isMissing = true)
    (rest : List VariableDeclaration) (s : Program) :
    (variableList site form (declaration :: rest)).run s = (variableList site form rest).run s := by
  rw [variableList, if_pos hmissing]

/-- A variable that has a name is handed on under the symbol that declaring it gives, before the
others. -/
theorem variableList_cons_run (site : Site) (form : VariableForm)
    {declaration : VariableDeclaration} (rest : List VariableDeclaration)
    (hname : ¬declaration.name.isMissing = true) {id : SymbolId} {after : Program}
    (hdeclared : (declareValue site (variableTarget site form).1 declaration.name
      (variableTarget site form).2 declaration.node.id).run s = (id, after)) :
    (variableList site form (declaration :: rest)).run s =
      (.declaration id (.variableDecl site.scope (form = .constant) declaration.type?
        declaration.initializer) :: ((variableList site form rest).run after).1,
        ((variableList site form rest).run after).2) := by
  let declared := declareValue site (variableTarget site form).1 declaration.name
    (variableTarget site form).2 declaration.node.id
  have hrun : (variableList site form (declaration :: rest)).run s =
      (.declaration (declared.run s).1 (.variableDecl site.scope (form = .constant)
        declaration.type? declaration.initializer) ::
        ((variableList site form rest).run (declared.run s).2).1,
        ((variableList site form rest).run (declared.run s).2).2) := by
    rw [variableList, if_neg hname]
    rfl
  rw [hrun, hdeclared]

/-- A function without a name declares nothing. -/
theorem function_run_of_missing (site : Site) {declaration : FunctionDeclaration}
    (hmissing : declaration.name.isMissing = true) (s : Program) :
    (Bind.function site declaration).run s = ([], s) := by
  rw [Bind.function, if_pos hmissing]
  rfl

/-- A function that has a name is handed on under the symbol that declaring it gives. -/
theorem function_run (site : Site) {declaration : FunctionDeclaration}
    (hname : ¬declaration.name.isMissing = true) {id : SymbolId} {after : Program}
    (hdeclared : (declareValue site site.scope declaration.name .function
      declaration.node.id).run s = (id, after)) :
    (Bind.function site declaration).run s =
      ([.declaration id (.function site.scope declaration.parameters declaration.result)],
        after) := by
  let declared := declareValue site site.scope declaration.name .function declaration.node.id
  have hrun : (Bind.function site declaration).run s =
      ([.declaration (declared.run s).1 (.function site.scope declaration.parameters
        declaration.result)], (declared.run s).2) := by
    rw [Bind.function, if_neg hname]
    rfl
  rw [hrun, hdeclared]

end Bind

end ExpressionTyping
