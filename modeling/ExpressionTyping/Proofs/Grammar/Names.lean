import ExpressionTyping.Proofs.Grammar.FileCoverage
import ExpressionTyping.Proofs.Syntax.TypeNames

/-!
# A quiet parse misses no name

A name that is missing is reported. So when parsing a declaration file reports nothing, every
declaration has its name, and in the types of declarations every name of a member and every name
that is referred to is there (`SourceFile.parse_named`). Each reader is shown to give what has its
names whenever it reports nothing (`Parse.Yields`).
-/

set_option autoImplicit false

namespace ExpressionTyping

/-- The name of a variable is there, and so are the names in its type. -/
def VariableDeclaration.Named (declaration : VariableDeclaration) : Prop :=
  declaration.name.isThere = true ∧ ∀ type, declaration.type? = some type → type.Named

/-- A declaration has its name, and so have the types in it. -/
def Visit.Named : Visit → Prop
  | .variableDecl _ declaration => declaration.Named
  | .function declaration => declaration.name.isThere = true ∧
    (∀ parameter ∈ declaration.parameters, parameter.Named) ∧
    ∀ type, declaration.result = some type → type.Named
  | .interface declaration => declaration.name.isThere = true ∧
    ∀ member ∈ declaration.members, member.Named
  | .typeAlias declaration => declaration.name.isThere = true ∧ declaration.type.Named
  | .expression _ _ => True

/-- The declarations in a statement have their names. -/
def Statement.Named (statement : Statement) : Prop :=
  ∀ visit ∈ statement.visits, visit.Named

namespace Parse

variable {α β : Type}

/-! ## What readers give -/

/-- A parse that gives something of a kind when it reports nothing. -/
def Yields (p : Parse α) (P : α → Prop) : Prop :=
  ∀ s, Quiet p s fun a _ => P a

/-- A step that only moves on gives something, of which nothing is said. -/
theorem Moves.yields {p : Parse α} (h : Moves p) : Yields p fun _ => True :=
  fun s => (h s).mono fun _ _ _ => trivial

namespace Yields

variable {P : α → Prop} {Q : β → Prop}

/-- A result that is of a kind is given as such. -/
theorem pure {a : α} (h : P a) : Yields (pure a) P :=
  fun _ => .pure h

/-- What a second parse gives may depend on what the first one gave. -/
theorem bind {p : Parse α} {f : α → Parse β} (hp : Yields p P)
    (hf : ∀ a, Yields (f a) fun b => P a → Q b) : Yields (p >>= f) Q :=
  fun s => (hp s).bind fun a s' => hf a s'

/-- What comes first does not matter. -/
theorem skip {p : Parse α} {f : α → Parse β} (hp : Yields p fun _ => True)
    (hf : ∀ a, Yields (f a) Q) : Yields (p >>= f) Q :=
  hp.bind fun a s => (hf a s).mono fun _ _ hb _ => hb

/-- What is of a kind is also of every wider kind. -/
theorem mono {P' : α → Prop} {p : Parse α} (h : Yields p P) (himp : ∀ a, P a → P' a) :
    Yields p P' :=
  fun s => (h s).mono fun a _ => himp a

/-- A choice gives something of a kind when both branches do. -/
theorem ite {c : Prop} [Decidable c] {p q : Parse α} (hp : Yields p P) (hq : Yields q P) :
    Yields (if c then p else q) P := by
  split
  · exact hp
  · exact hq

/-- A node that is closed at the end does not matter. -/
theorem closing {start : Nat} {f : Node → α} (h : ∀ node, P (f node)) :
    Yields (closeNode start >>= fun node => Pure.pure (f node)) P :=
  (closeNode_moves start).yields.skip fun node => .pure (h node)

end Yields

/-- A parse that always reports gives things of any kind when it reports nothing. -/
theorem yields_of_loud {p : Parse α} {P : α → Prop} (h : ∀ s, Quiet p s fun _ _ => False) :
    Yields p P :=
  fun s => (h s).mono fun _ _ => False.elim

/-- Taking a token gives something, of which nothing is said. -/
theorem advance_yields : Yields advance fun _ => True :=
  fun s => (advance_quiet s).mono fun _ _ _ => trivial

/-- A name that a token spells is there. -/
theorem isThere_of_names {name : Identifier} {token : Token} (h : name.Names token) :
    name.isThere = true := by
  simpa [Identifier.isThere, Identifier.isMissing] using h.nonempty

/-- A name that is read without a report is there. -/
theorem identifier_yields : Yields identifier fun name => name.isThere = true := by
  refine fun s => (identifier_quiet s).mono ?_
  rintro name s' ⟨token, -, hnames⟩
  exact isThere_of_names hnames

/-- The name of a member that is read without a report is there. -/
theorem memberName_yields : Yields memberName fun name => name.isThere = true := by
  refine fun s => (memberName_quiet s).mono ?_
  rintro name s' ⟨token, -, hnames⟩
  exact isThere_of_names hnames

/-! ## Types -/

/-- A missing type is reported. -/
theorem missingType_yields : Yields missingType TypeNode.Named :=
  .skip (yields_of_loud (report_quiet _)) fun _ => current_moves.yields.skip fun _ =>
    (newNode_moves _).yields.skip fun _ => .pure .word

/-- Looking for a function type gives something, of which nothing is said. -/
theorem startsFunctionType_yields : Yields startsFunctionType fun _ => True :=
  fun s => .of_run (startsFunctionType_run s) id rfl fun _ => trivial

section

variable {type : Parse TypeNode} (h : Yields type TypeNode.Named)
include h

/-- The names in an annotation that is read without a report are there. -/
theorem optionalType_yields :
    Yields (optionalType type) fun type? => ∀ type, type? = some type → type.Named := by
  refine (accept_moves .colon).yields.skip fun _ => .ite (h.bind fun type => .pure ?_) (.pure nofun)
  rintro htype _ ⟨⟩
  exact htype

/-- The names in a parameter that is read without a report are there. -/
theorem parameter_yields : Yields (parameter type) Parameter.Named := by
  refine current_moves.yields.skip fun _ => (accept?_moves .ellipsis).yields.skip fun rest => ?_
  refine identifier_moves.yields.skip fun name => (accept_moves .question).yields.skip fun _ => ?_
  exact (optionalType_yields h).bind fun type? => .closing fun node htype => .mk htype

/-- The names in further parameters that are read without a report are there. -/
theorem parametersTail_yields (limit : Nat) (afterRest : Bool) :
    Yields (parametersTail type limit afterRest) fun list =>
      ∀ parameter ∈ list, parameter.Named := by
  induction limit generalizing afterRest with
  | zero => exact .pure nofun
  | succ limit ih =>
    have hfirst : Yields (parameter type >>= fun first => do
        if ← accept .comma then
          return first :: (← parametersTail type limit first.isRest)
        else return [first]) fun list => ∀ parameter ∈ list, parameter.Named := by
      refine (parameter_yields h).bind fun first => (accept_moves .comma).yields.skip fun _ => ?_
      refine .ite ((ih first.isRest).bind fun rest => .pure fun hrest hparameter => ?_)
        (.pure List.forall_mem_singleton.mpr)
      exact List.forall_mem_cons.mpr ⟨hparameter, hrest⟩
    refine (isAt_moves _).yields.skip fun _ => (isAt_moves _).yields.skip fun _ => ?_
    refine .ite (.pure nofun) (.ite (.skip (yields_of_loud (report_quiet _)) fun _ => ?_) ?_) <;>
      exact hfirst

/-- The names in parameters that are read without a report are there. -/
theorem parameters_yields :
    Yields (parameters type) fun list => ∀ parameter ∈ list, parameter.Named := by
  refine (expectPunctuator_moves _).yields.skip fun _ => remaining_moves.yields.skip fun limit => ?_
  refine (parametersTail_yields h limit false).bind fun list => ?_
  exact (expectPunctuator_moves _).yields.skip fun _ => .pure id

/-- The names in a member that is read without a report are there, its own included. -/
theorem element_yields : Yields (element type) TypeElement.Named := by
  refine current_moves.yields.skip fun _ => memberName_yields.bind fun name => ?_
  refine (accept_moves .question).yields.skip fun _ => (isAt_moves _).yields.skip fun _ => ?_
  refine .ite ((parameters_yields h).bind fun parameters => (optionalType_yields h).bind fun result =>
    .closing fun node hresult hparameters hname => .method hname hparameters hresult) ?_
  exact (optionalType_yields h).bind fun type? => .closing fun node htype hname =>
    .property hname htype

/-- The names in further members that are read without a report are there. -/
theorem elementsTail_yields (limit : Nat) :
    Yields (elementsTail type limit) fun list => ∀ member ∈ list, member.Named := by
  induction limit with
  | zero => exact .pure nofun
  | succ limit ih =>
    have hrest (first : TypeElement) : Yields (do
        return first :: (← elementsTail type limit))
        fun list => first.Named → ∀ member ∈ list, member.Named :=
      ih.bind fun rest => .pure fun hrest hfirst => List.forall_mem_cons.mpr ⟨hfirst, hrest⟩
    have hpass (start : Nat) (first : TypeElement) : Yields (do
        if (← current).span.start = start then advance
        return first :: (← elementsTail type limit))
        fun list => first.Named → ∀ member ∈ list, member.Named :=
      current_moves.yields.skip fun _ => .ite (advance_yields.skip fun _ => hrest first) (hrest first)
    refine (isAt_moves _).yields.skip fun _ => (isAt_moves _).yields.skip fun _ => ?_
    refine .ite (.pure nofun) (current_moves.yields.skip fun _ => ?_)
    refine (element_yields h).bind fun first => (accept_moves _).yields.skip fun semicolon => ?_
    cases semicolon
    · exact (accept_moves _).yields.skip fun _ => hpass _ first
    · exact hpass _ first

/-- The names in the members of an object type that is read without a report are there. -/
theorem elements_yields : Yields (elements type) fun list => ∀ member ∈ list, member.Named := by
  refine (expectPunctuator_moves _).yields.skip fun _ => remaining_moves.yields.skip fun limit => ?_
  refine (elementsTail_yields h limit).bind fun list => ?_
  exact (expectPunctuator_moves _).yields.skip fun _ => .pure id

/-- The names in a primary type that is read without a report are there. -/
theorem primaryType_yields : Yields (primaryType type) TypeNode.Named := by
  refine current_moves.yields.skip fun token => ?_
  split
  · exact advance_yields.skip fun _ => (newNode_moves _).yields.skip fun _ => .pure .word
  · refine advance_yields.skip fun _ => (newNode_moves _).yields.skip fun _ => ?_
    exact .closing fun _ => .literal
  · refine .ite ((elements_yields h).bind fun members => .closing fun node => .object) (.ite ?_ ?_)
    · refine startsFunctionType_yields.skip fun _ => .ite ?_ ?_
      · refine (parameters_yields h).bind fun parameters => ?_
        refine (expectPunctuator_moves _).yields.skip fun _ => h.bind fun result => ?_
        exact .closing fun node hresult hparameters => .function hparameters hresult
      · refine advance_yields.skip fun _ => h.bind fun inner => ?_
        exact (expectPunctuator_moves _).yields.skip fun _ => .closing fun node => .parenthesized
    · refine .ite (identifier_yields.bind fun name => .closing fun node => .reference) ?_
      exact missingType_yields

omit h in
/-- Brackets after a type add no name to it. -/
theorem arrayTail_yields (start limit : Nat) (element : TypeNode) :
    Yields (arrayTail start limit element) fun type => element.Named → type.Named := by
  induction limit generalizing element with
  | zero => exact .pure id
  | succ limit ih =>
    refine current_moves.yields.skip fun _ => .ite (advance_yields.skip fun _ => ?_) (.pure id)
    refine (expectPunctuator_moves _).yields.skip fun _ => (closeNode_moves _).yields.skip fun _ => ?_
    exact (ih _).mono fun _ htype helement => htype (.array helement)

/-- The names in an array type that is read without a report are there. -/
theorem arrayType_yields : Yields (arrayType type) TypeNode.Named :=
  current_moves.yields.skip fun _ => (primaryType_yields h).bind fun element =>
    remaining_moves.yields.skip fun limit => arrayTail_yields _ limit element

/-- The names in further members of a union that are read without a report are there. -/
theorem unionTail_yields (limit : Nat) :
    Yields (unionTail type limit) fun list => ∀ member ∈ list, member.Named := by
  induction limit with
  | zero => exact .pure nofun
  | succ limit ih =>
    refine (accept_moves .bar).yields.skip fun _ => .ite ?_ (.pure nofun)
    exact (arrayType_yields h).bind fun member => ih.bind fun rest => .pure fun hrest hmember =>
      List.forall_mem_cons.mpr ⟨hmember, hrest⟩

/-- The names in a union that is read without a report are there. -/
theorem unionType_yields : Yields (unionType type) TypeNode.Named := by
  refine current_moves.yields.skip fun _ => (accept_moves .bar).yields.skip fun _ => ?_
  refine (arrayType_yields h).bind fun first => remaining_moves.yields.skip fun limit => ?_
  refine (unionTail_yields h limit).bind fun others => .ite (.pure fun _ hfirst => hfirst) ?_
  exact .closing fun node hothers hfirst => .union (List.forall_mem_cons.mpr ⟨hfirst, hothers⟩)

end

/-- The names in a type that is read without a report within the depth limit are there. -/
theorem nestedType_yields (depth : Nat) : Yields (nestedType depth) TypeNode.Named := by
  induction depth with
  | zero => exact missingType_yields
  | succ depth ih => exact unionType_yields ih

/-- The names in a type that is read without a report are there. -/
theorem typeNode_yields : Yields typeNode TypeNode.Named :=
  nestedType_yields depthLimit

/-! ## Statements -/

/-- The names in a variable declaration that is read without a report are there. -/
theorem variableDeclaration_yields : Yields variableDeclaration VariableDeclaration.Named := by
  refine current_moves.yields.skip fun _ => identifier_yields.bind fun name => ?_
  refine (optionalType_yields typeNode_yields).bind fun type? => ?_
  have hclose (initializer : Option Expr) (start : Nat) : Yields (do
      return (⟨← closeNode start, name, type?, initializer⟩ : VariableDeclaration))
        fun declaration => (∀ type, type? = some type → type.Named) → name.isThere = true →
          declaration.Named :=
    .closing fun node htype hname => ⟨hname, htype⟩
  refine (accept_moves .equals).yields.skip fun _ => ?_
  split
  · exact expression_moves.yields.skip fun _ => hclose _ _
  · exact hclose _ _

/-- The names in further variable declarations that are read without a report are there. -/
theorem variablesTail_yields (limit : Nat) :
    Yields (variablesTail limit) fun list => ∀ declaration ∈ list, declaration.Named := by
  induction limit with
  | zero => exact .pure nofun
  | succ limit ih =>
    refine variableDeclaration_yields.bind fun first => (accept_moves .comma).yields.skip fun _ => ?_
    refine .ite (ih.bind fun rest => .pure fun hrest hfirst => ?_)
      (.pure fun hfirst => List.forall_mem_singleton.mpr hfirst)
    exact List.forall_mem_cons.mpr ⟨hfirst, hrest⟩

/-- The names in a variable statement that is read without a report are there. -/
theorem variableStatement_yields (start : Nat) (ambient : Bool) (form : VariableForm) :
    Yields (variableStatement start ambient form) Statement.Named := by
  refine current_moves.yields.skip fun _ => advance_yields.skip fun _ => ?_
  refine remaining_moves.yields.skip fun limit => (variablesTail_yields limit).bind fun list => ?_
  refine (closeNode_moves _).yields.skip fun _ => endStatement_moves.yields.skip fun _ => ?_
  refine .closing fun node hlist visit hvisit => ?_
  obtain ⟨declaration, hdeclaration, rfl⟩ := List.mem_map.mp hvisit
  exact hlist declaration hdeclaration

/-- The names in a function declaration that is read without a report are there. -/
theorem functionDeclaration_yields (start : Nat) (ambient : Bool) :
    Yields (functionDeclaration start ambient) Statement.Named := by
  refine advance_yields.skip fun _ => identifier_yields.bind fun name => ?_
  refine (parameters_yields typeNode_yields).bind fun parameters => ?_
  refine (optionalType_yields typeNode_yields).bind fun result => ?_
  refine endStatement_moves.yields.skip fun _ => ?_
  exact .closing fun node hresult hparameters hname =>
    List.forall_mem_singleton.mpr ⟨hname, hparameters, hresult⟩

/-- The names in an interface declaration that is read without a report are there. -/
theorem interfaceDeclaration_yields (start : Nat) :
    Yields (interfaceDeclaration start) Statement.Named := by
  refine advance_yields.skip fun _ => identifier_yields.bind fun name => ?_
  refine (elements_yields typeNode_yields).bind fun members => ?_
  exact .closing fun node hmembers hname => List.forall_mem_singleton.mpr ⟨hname, hmembers⟩

/-- The names in an alias declaration that is read without a report are there. -/
theorem aliasDeclaration_yields (start : Nat) : Yields (aliasDeclaration start) Statement.Named := by
  refine advance_yields.skip fun _ => identifier_yields.bind fun name => ?_
  refine (expectPunctuator_moves _).yields.skip fun _ => typeNode_yields.bind fun type => ?_
  refine endStatement_moves.yields.skip fun _ => ?_
  exact .closing fun node htype hname => List.forall_mem_singleton.mpr ⟨hname, htype⟩

/-- An expression statement declares nothing. -/
theorem expressionStatement_yields : Yields expressionStatement Statement.Named := by
  refine current_moves.yields.skip fun _ => expression_moves.yields.skip fun value => ?_
  refine endStatement_moves.yields.skip fun _ => ?_
  exact .closing fun node => List.forall_mem_singleton.mpr trivial

/-- Looking at the next token gives something, of which nothing is said. -/
theorem nextKind_yields : Yields nextKind fun _ => True :=
  fun s => .of_run (nextKind_run s) id rfl fun _ => trivial

/-- The names in a statement other than a block that is read without a report are there. -/
theorem declaration_yields (start : Nat) (ambient : Bool) :
    Yields (declaration start ambient) Statement.Named := by
  refine current_moves.yields.skip fun token => ?_
  split
  · exact variableStatement_yields start ambient .hoisted
  · exact variableStatement_yields start ambient .constant
  · exact nextKind_yields.skip fun _ =>
      .ite (variableStatement_yields start ambient .block) expressionStatement_yields
  · exact functionDeclaration_yields start ambient
  · exact nextKind_yields.skip fun _ =>
      .ite (interfaceDeclaration_yields start) expressionStatement_yields
  · exact nextKind_yields.skip fun _ =>
      .ite (aliasDeclaration_yields start) expressionStatement_yields
  · exact expressionStatement_yields

/-- The visits of statements in order. -/
theorem visitAll_named {statements : List Statement}
    (h : ∀ statement ∈ statements, statement.Named) :
    ∀ visit ∈ visitAll statements, visit.Named := by
  induction statements with
  | nil => exact nofun
  | cons first rest ih =>
    obtain ⟨hfirst, hrest⟩ := List.forall_mem_cons.mp h
    exact List.forall_mem_append.mpr ⟨hfirst, ih hrest⟩

/-- The names in a statement that is read without a report are there, if those in a block are. -/
theorem statement_yields {body : Parse (List Statement)}
    (h : Yields body fun statements => ∀ statement ∈ statements, statement.Named) :
    Yields (statement body) Statement.Named := by
  refine current_moves.yields.skip fun token => ?_
  split
  · exact advance_yields.skip fun _ => (newNode_moves _).yields.skip fun _ => .pure nofun
  · refine advance_yields.skip fun _ => h.bind fun statements => ?_
    refine (expectPunctuator_moves _).yields.skip fun _ => ?_
    exact .closing fun node hstatements => visitAll_named hstatements
  · exact nextKind_yields.skip fun _ =>
      .ite (advance_yields.skip fun _ => declaration_yields _ true) (declaration_yields _ false)
  · exact declaration_yields _ false

/-- The names in statements that are read without a report are there. -/
theorem statementsTail_yields (limit : Nat) :
    Yields (statementsTail limit) fun statements => ∀ statement ∈ statements, statement.Named := by
  induction limit with
  | zero => exact .pure nofun
  | succ limit ih =>
    refine (isAt_moves _).yields.skip fun _ => (isAt_moves _).yields.skip fun _ => ?_
    refine .ite (.pure nofun) (current_moves.yields.skip fun _ => ?_)
    refine (statement_yields ih).bind fun first => current_moves.yields.skip fun token => ?_
    have hrest : Yields (do return first :: (← statementsTail limit)) fun statements =>
        first.Named → ∀ statement ∈ statements, statement.Named :=
      ih.bind fun rest => .pure fun hrest hfirst => List.forall_mem_cons.mpr ⟨hfirst, hrest⟩
    refine .ite (.skip (yields_of_loud (report_quiet _)) fun _ => ?_) hrest
    exact advance_yields.skip fun _ => hrest

/-- In a file that is read without a report, every declaration has its name and every name in a type
is there. -/
theorem wholeFile_yields (name : String) (text : List Char) :
    Yields (wholeFile name text) fun file => ∀ visit ∈ file.visits, visit.Named := by
  refine Yields.bind (remaining_moves.yields.skip fun limit => statementsTail_yields limit)
    fun statements => (newNode_moves _).yields.skip fun node => .pure ?_
  exact visitAll_named

end Parse

/-- When parsing a declaration file reports nothing, every declaration in it has its name, and no
name is missing in its types. -/
theorem SourceFile.parse_named {name text : String} (h : (SourceFile.parse name text).issues = []) :
    ∀ visit ∈ (SourceFile.parse name text).tree.visits, visit.Named := by
  obtain ⟨tokens, final, htokens, -, -, hready⟩ := Parse.initial_ready text
  rw [SourceFile.parse, htokens] at h ⊢
  exact (Parse.run_of_throughout (Parse.wholeFile_yields _ _ _) hready h).2

end ExpressionTyping
