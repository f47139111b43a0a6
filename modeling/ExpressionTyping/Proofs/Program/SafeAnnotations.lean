import ExpressionTyping.Proofs.Program.Resolution
import ExpressionTyping.Proofs.Program.SafeBinding
import ExpressionTyping.Proofs.Program.SafeQueries

/-!
# Annotations and values do not fail

While the symbols of a file are resolved the program stays well-formed, and what binding handed on
goes on to refer to what is there (`ResolveState.WellFormed`). If resolving a name in an annotation
is safe, so is every annotation, by one lemma for each kind (`typeNode_safe`); if resolving a symbol
is safe, so are written values (`valueType_safe`) and names in annotations (`reference_looks`).

The invariant also keeps what a resolved symbol got from an annotation that is only a word: the type
of that word.
-/

set_option autoImplicit false

namespace ExpressionTyping

/-! ## States of resolution -/

/-- The word that a variable is annotated with. -/
def Declaration.word? : Declaration → Option TypeWord
  | .variableDecl _ _ (some (.word _ word)) _ => some word
  | _ => none

/-- The word that the first declaration of a symbol annotates it with. -/
def Pending.wordOf? (pending : Pending) (id : SymbolId) : Option TypeWord :=
  (pending.declarationsOf id).head?.bind Declaration.word?

/-- While the declarations of a file are resolved, the program is well-formed and they refer to what
is there; a resolved symbol has the type of the word it is annotated with. -/
structure ResolveState.WellFormed (file : FileId) (length : Nat) (pending : Pending)
    (s : ResolveState) : Prop where
  program : s.program.WellFormed
  file : s.program.HasFile file
  declarations : ∀ entry ∈ pending, entry.2.Of s.program length entry.1
  words : ∀ id ∈ s.resolved, ∀ word, pending.wordOf? id = some word →
    (s.program.symbol id).type = .ofWord word

/-- Resolving adds to the program, apart from its files, and to the resolved symbols. -/
structure ResolveState.Extends (before after : ResolveState) : Prop where
  program : before.program.Extends after.program
  files : after.program.files = before.program.files
  resolved : before.resolved ⊆ after.resolved

/-- Resolving the declarations of a file. -/
def Discipline.resolving (file : FileId) (length : Nat) (pending : Pending) :
    Discipline ResolveState where
  inv := ResolveState.WellFormed file length pending
  rel := ResolveState.Extends
  refl s := ⟨.refl s.program, rfl, List.Subset.refl _⟩
  trans h h' := ⟨h.program.trans h'.program, h'.files.trans h.files,
    List.Subset.trans h.resolved h'.resolved⟩

/-- A symbol whose word is known has a declaration that gives it. -/
theorem Pending.mem_of_wordOf? {pending : Pending} {id : SymbolId} {word : TypeWord}
    (h : pending.wordOf? id = some word) :
    ∃ declaration, (id, declaration) ∈ pending ∧ declaration.word? = some word := by
  unfold wordOf? at h
  cases hall : pending.declarationsOf id with
  | nil =>
    rw [hall] at h
    cases h
  | cons first rest =>
    rw [hall] at h
    exact ⟨first, mem_of_declarationsOf hall, h⟩

/-- A declaration that is one of a symbol's shows that there is such a symbol. -/
theorem Declaration.Of.hasSymbol {program : Program} {length : Nat} {id : SymbolId}
    {declaration : Declaration} (h : declaration.Of program length id) : program.HasSymbol id := by
  obtain ⟨_, hlocated, -⟩ := h.located
  exact hlocated.hasSymbol

/-- A signature whose types exist stays so as types are added. -/
theorem Signature.Within.mono {types types' : Nat} {signature : Signature}
    (h : signature.Within types) (hle : types ≤ types') : signature.Within types' :=
  ⟨fun parameter hmem => Nat.lt_of_lt_of_le (h.1 parameter hmem) hle, Nat.lt_of_lt_of_le h.2 hle⟩

/-- A step that does not fail where its look-ups are guarded may also stand for itself. -/
theorem Safe.unguarded {σ α : Type} {d : Discipline σ} {q : Guarded σ α} {p : StateM σ α} {s : σ}
    {Q : α → σ → Prop} (h : Safe d q p s Q) : Safe d (Guarded.step p) p s Q :=
  fun hinv => ⟨rfl, (h hinv).2⟩

namespace Program

/-- The symbols of members are there. -/
def HasAll (program : Program) (members : SymbolTable SymbolId) : Prop :=
  ∀ entry ∈ members.entries, program.HasSymbol entry.2

/-- The symbols of members are there while the program grows. -/
theorem HasAll.mono {before after : Program} {members : SymbolTable SymbolId}
    (hall : before.HasAll members) (h : before.Extends after) : after.HasAll members :=
  fun entry hentry => h.hasSymbol (hall entry hentry)

/-- The symbols of no members are there. -/
theorem HasAll.empty (program : Program) : program.HasAll .empty :=
  List.forall_mem_nil _

/-- The type of a method among members is there. -/
theorem WellFormed.hasType_of_methodType? {program : Program} (h : program.WellFormed)
    {members : SymbolTable SymbolId} (hall : program.HasAll members) {name : String}
    {type : TypeId} (hmethod : program.methodType? members name = some type) :
    program.HasType type := by
  unfold methodType? at hmethod
  split at hmethod
  · rename_i id hfound
    split at hmethod
    · cases hmethod
      have hid := hall _ (SymbolTable.mem_of_get? hfound)
      exact h.symbols _ (Array.mem_of_getElem? hid.symbol?)
    · cases hmethod
  · cases hmethod

end Program

namespace Guarded

variable {file : FileId} {length : Nat} {pending : Pending} {s : ResolveState}

/-- Running a guarded step of building runs it on the program of the state. -/
theorem compile_run {α : Type} (q : Guarded Program α) (s : ResolveState) :
    (compile q).run s =
      (q.run s.program).bind fun result => some (result.1, { s with program := result.2 }) := by
  cases hq : q.run s.program <;> simp [compile, hq]

/-- A step of building that is safe is safe as a step of resolution. -/
theorem compile_safe {α : Type} {q : Guarded Program α} {p : Compile α} {Q : α → Program → Prop}
    (h : Safe (.building True) q p s.program Q) :
    Safe (.resolving file length pending) (compile q) (Resolve.compile p) s
      fun a s' => Q a s'.program := by
  intro hs
  obtain ⟨hrun, hwell, hkeeps, hQ⟩ := h hs.program
  refine ⟨?_, ⟨hwell, hkeeps.hasFile hs.file, ?_, ?_⟩,
    ⟨hkeeps.toExtends, hkeeps.filesFixed trivial, List.Subset.refl _⟩, hQ⟩
  · rw [compile_run, hrun]
    rfl
  · exact fun entry hentry => (hs.declarations entry hentry).mono hkeeps.toExtends
  · intro id hid word hword
    obtain ⟨declaration, hmem, -⟩ := Pending.mem_of_wordOf? hword
    exact (hkeeps.symbol_type (hs.declarations _ hmem).hasSymbol).trans (hs.words id hid word hword)

/-- Reading the program is safe and changes nothing. -/
theorem program_safe :
    Safe (.resolving file length pending) program Resolve.program s
      fun program s' => program = s.program ∧ s' = s :=
  .step fun hs => ⟨hs, Discipline.refl _ s, rfl, rfl⟩

/-- A step of resolution gives a type that is there. -/
abbrev GivesType (file : FileId) (length : Nat) (pending : Pending)
    (q : Guarded ResolveState TypeId) (p : Resolve TypeId) (s : ResolveState) : Prop :=
  Safe (.resolving file length pending) q p s fun id s' => s'.program.HasType id

/-- The type of a word exists. -/
theorem word_gives (word : TypeWord) :
    GivesType file length pending (pure (.ofWord word)) (pure (.ofWord word)) s :=
  .of_inv fun hs => .pure (hs.program.hasType_word word)

/-- The type `any` exists. -/
theorem any_gives : GivesType file length pending (pure .any) (pure .any) s :=
  word_gives .any

/-- A name in an annotation in a scope that is there is resolved to a type that is there. -/
def Looks (file : FileId) (length : Nat) (pending : Pending)
    (lookup : ScopeId → Identifier → Guarded ResolveState TypeId) (lookup' : TypeLookup) : Prop :=
  ∀ s scope name, s.program.HasScope scope → name.node.span.Within length →
    GivesType file length pending (lookup scope name) (lookup' scope name) s

/-- A symbol that is there is resolved to a type that is there. -/
def Resolves (file : FileId) (length : Nat) (pending : Pending)
    (resolve : SymbolId → Guarded ResolveState TypeId) (resolve' : SymbolId → Resolve TypeId) :
    Prop :=
  ∀ s id, s.program.HasSymbol id → GivesType file length pending (resolve id) (resolve' id) s

/-! ## Members -/

/-- Adding a member of a type that is there is safe, and the members are there afterwards. -/
theorem addMember_safe {s : Program} {members : SymbolTable SymbolId} (h : s.HasAll members)
    (location : Location) (name : String) (sort : SymbolSort) {type : TypeId}
    (htype : s.HasType type) :
    Safe (.building True) (addMember members location name sort type)
      (Resolve.addMember members location name sort type) s
      fun members s' => s'.HasAll members := by
  refine (addSymbol_safe name sort htype).bind fun id s₁ hkeeps₁ hid => ?_
  have hhas := (Program.HasSymbol.of_symbol? hid).1
  refine (addLocation_safe hhas location).bind fun _ s₂ hkeeps₂ _ => .pure ?_
  have hbefore : s₂.HasAll members := (h.mono hkeeps₁.toExtends).mono hkeeps₂.toExtends
  exact SymbolTable.forall_mem_insert hbefore (hkeeps₂.hasSymbol hhas)

/-- Where members are there, the method of a name is looked up without failing. -/
theorem methodOf?_eq {s : Program} {members : SymbolTable SymbolId} (h : s.HasAll members)
    (name : String) : s.methodOf? members name = some (s.methodType? members name) := by
  unfold Program.methodOf? Program.methodType?
  cases hfound : members.get? name with
  | none => rfl
  | some id =>
    have hhas := h _ (SymbolTable.mem_of_get? hfound)
    simp only [hhas.symbol?, Option.bind_eq_bind, Option.bind_some]
    split <;> rfl

/-- Adding a method with known types is safe, and the members are there afterwards. -/
theorem addMethod_safe {s : Program} {members : SymbolTable SymbolId} (h : s.HasAll members)
    (location : Location) (name : String) {signature : Signature}
    (hsignature : signature.Within s.types.entries.size) :
    Safe (.building True) (addMethod members location name signature)
      (Resolve.addMethod members location name signature) s
      fun members s' => s'.HasAll members := by
  refine .of_inv fun hs => Safe.get.bind ?_
  rintro _ _ - ⟨rfl, rfl⟩
  refine .found (methodOf?_eq h name) ?_
  cases hmethod : Program.methodType? _ members name with
  | some type =>
    have htype : Program.HasType _ type := hs.hasType_of_methodType? h hmethod
    refine .found (Array.getElem?_eq_getElem htype) ((addSignature_safe type hsignature).bind ?_)
    exact fun _ s' hkeeps _ => .pure (h.mono hkeeps.toExtends)
  | none =>
    refine (addType_safe (.object none .empty [signature])
      ⟨nofun, List.forall_mem_singleton.mpr hsignature⟩).bind fun type s₁ hkeeps htype => ?_
    exact addMember_safe (h.mono hkeeps.toExtends) location name .method htype

/-! ## Annotations -/

/-- The type of a literal is found safely. -/
theorem literalType_safe (value : Literal) :
    GivesType file length pending (step (Resolve.literalType value)) (Resolve.literalType value)
      s := by
  refine .of_inv fun hs => ?_
  cases value with
  | string text | template text =>
    exact (compile_safe (shareType_safe (.stringLiteral text) trivial)).unguarded
  | number text =>
    exact (compile_safe (shareType_safe (.numberLiteral text) trivial)).unguarded
  | boolean value =>
    refine Safe.unguarded (Safe.pure (hs.program.hasType_of_lt ?_))
    cases value <;> decide
  | null => exact any_gives.unguarded

section Annotations

variable {lookup : ScopeId → Identifier → Guarded ResolveState TypeId} {lookup' : TypeLookup}
  {scope : ScopeId}

mutual

/-- An annotation means a type that is there. -/
theorem typeNode_safe (h : Looks file length pending lookup lookup')
    (node : TypeNode) (s : ResolveState) (hscope : s.program.HasScope scope)
    (hnames : node.NamesIn length) :
    GivesType file length pending (typeNode file lookup scope node)
      (Resolve.typeNode file lookup' scope node) s := by
  cases node with
  | word node word => exact word_gives word
  | literal node constant value => exact literalType_safe value
  | reference node name =>
    cases hnames with
    | reference hname => exact h s scope name hscope hname
  | array node element =>
    cases hnames with
    | array hnames =>
      refine (typeNode_safe h element s hscope hnames).bind fun id s₁ _ hid => ?_
      exact compile_safe (shareType_safe (.array id) hid)
  | union node members =>
    cases hnames with
    | union hnames =>
      refine (typeNodes_safe h members s hscope hnames).bind fun ids s₁ _ hids => ?_
      exact compile_safe (unionOf_safe hids)
  | function node parameters result =>
    cases hnames with
    | function hparameters hresult =>
      refine (parameterTypes_safe h parameters s hscope hparameters).bind ?_
      intro types s₁ hext₁ htypes
      refine (typeNode_safe h result s₁ (hext₁.program.hasScope hscope) hresult).bind ?_
      intro id s₂ hext₂ hid
      refine compile_safe (addType_safe (.object none .empty [_]) ⟨nofun, ?_⟩)
      refine List.forall_mem_singleton.mpr ⟨fun p hp => hext₂.program.hasType (htypes p hp), hid⟩
  | object node members =>
    cases hnames with
    | object hnames =>
      refine (elements_safe h members s hscope hnames (.empty _)).bind ?_
      intro members s₁ _ hmembers
      exact compile_safe (addType_safe (.object none members []) ⟨hmembers, nofun⟩)
  | parenthesized node inner =>
    cases hnames with
    | parenthesized hnames => exact typeNode_safe h inner s hscope hnames

/-- A list of annotations is resolved safely, to types that exist. -/
theorem typeNodes_safe (h : Looks file length pending lookup lookup')
    (nodes : List TypeNode) (s : ResolveState)
    (hscope : s.program.HasScope scope) (hnames : ∀ node ∈ nodes, node.NamesIn length) :
    Safe (.resolving file length pending) (typeNodes file lookup scope nodes)
      (Resolve.typeNodes file lookup' scope nodes) s
      fun ids s' => ∀ id ∈ ids, s'.program.HasType id := by
  cases nodes with
  | nil => exact .pure nofun
  | cons first rest =>
    obtain ⟨hfirst, hrest⟩ := List.forall_mem_cons.mp hnames
    refine (typeNode_safe h first s hscope hfirst).bind fun id s₁ hext₁ hid => ?_
    refine (typeNodes_safe h rest s₁ (hext₁.program.hasScope hscope) hrest).bind ?_
    intro ids s₂ hext₂ hids
    exact .pure (List.forall_mem_cons.mpr ⟨hext₂.program.hasType hid, hids⟩)

/-- An annotation that may be missing is resolved safely. -/
theorem optionalType_safe (h : Looks file length pending lookup lookup')
    (node? : Option TypeNode) (s : ResolveState)
    (hscope : s.program.HasScope scope)
    (hnames : ∀ node, node? = some node → node.NamesIn length) :
    GivesType file length pending (optionalType file lookup scope node?)
      (Resolve.optionalType file lookup' scope node?) s := by
  cases node? with
  | none => exact any_gives
  | some node => exact typeNode_safe h node s hscope (hnames node rfl)

/-- A parameter is resolved safely, to a type that exists. -/
theorem parameterType_safe (h : Looks file length pending lookup lookup')
    (parameter : Parameter) (s : ResolveState)
    (hscope : s.program.HasScope scope) (hnames : parameter.NamesIn length) :
    Safe (.resolving file length pending) (parameterType file lookup scope parameter)
      (Resolve.parameterType file lookup' scope parameter) s
      fun p s' => s'.program.HasType p.2 := by
  obtain ⟨node, rest, name, node?⟩ := parameter
  cases hnames with
  | mk hnames =>
    cases node? with
    | none =>
      refine .of_inv fun hs => ?_
      have hany := hs.program.hasType_any
      unfold parameterType Resolve.parameterType
      split
      · refine (compile_safe (shareType_safe (.array .any) hany)).bind ?_
        exact fun _ _ _ hid => .pure hid
      · exact .pure hany
    | some node =>
      refine (typeNode_safe h node s hscope (hnames node rfl)).bind ?_
      exact fun _ _ _ hid => .pure hid

/-- Parameters are resolved safely, to types that exist. -/
theorem parameterTypes_safe (h : Looks file length pending lookup lookup')
    (parameters : List Parameter) (s : ResolveState)
    (hscope : s.program.HasScope scope)
    (hnames : ∀ parameter ∈ parameters, parameter.NamesIn length) :
    Safe (.resolving file length pending) (parameterTypes file lookup scope parameters)
      (Resolve.parameterTypes file lookup' scope parameters) s
      fun types s' => ∀ p ∈ types.1, s'.program.HasType p.2 := by
  cases parameters with
  | nil => exact .pure nofun
  | cons first rest =>
    obtain ⟨hfirst, hrest⟩ := List.forall_mem_cons.mp hnames
    refine (parameterType_safe h first s hscope hfirst).bind fun p s₁ hext₁ hp => ?_
    refine (parameterTypes_safe h rest s₁ (hext₁.program.hasScope hscope) hrest).bind ?_
    intro others s₂ hext₂ hothers
    exact .pure (List.forall_mem_cons.mpr ⟨hext₂.program.hasType hp, hothers⟩)

/-- Adding one member is safe, and the members are there afterwards. -/
theorem element_safe (h : Looks file length pending lookup lookup')
    (element : TypeElement) (s : ResolveState)
    (hscope : s.program.HasScope scope) (hnames : element.NamesIn length)
    {members : SymbolTable SymbolId} (hmembers : s.program.HasAll members) :
    Safe (.resolving file length pending) (Guarded.element file lookup scope element members)
      (Resolve.element file lookup' scope element members) s
      fun members s' => s'.program.HasAll members := by
  cases hnames with
  | @property node name type? hnames =>
    unfold Guarded.element Resolve.element
    split
    · exact .pure hmembers
    · refine (optionalType_safe h type? s hscope hnames).bind fun id s₁ hext₁ hid => ?_
      exact compile_safe (addMember_safe (hmembers.mono hext₁.program) _ _ .property hid)
  | @method node name parameters result hparameters hresult =>
    unfold Guarded.element Resolve.element
    split
    · exact .pure hmembers
    · refine (parameterTypes_safe h parameters s hscope hparameters).bind ?_
      intro types s₁ hext₁ htypes
      refine (optionalType_safe h result s₁ (hext₁.program.hasScope hscope) hresult).bind ?_
      intro id s₂ hext₂ hid
      have hsignature : Signature.Within s₂.program.types.entries.size ⟨types.1, id, types.2⟩ :=
        ⟨fun p hp => hext₂.program.hasType (htypes p hp), hid⟩
      exact compile_safe (addMethod_safe (hmembers.mono (hext₁.program.trans hext₂.program)) _ _
        hsignature)

/-- Adding members is safe, and they are there afterwards. -/
theorem elements_safe (h : Looks file length pending lookup lookup')
    (elements : List TypeElement) (s : ResolveState)
    (hscope : s.program.HasScope scope) (hnames : ∀ element ∈ elements, element.NamesIn length)
    {members : SymbolTable SymbolId} (hmembers : s.program.HasAll members) :
    Safe (.resolving file length pending) (Guarded.elements file lookup scope elements members)
      (Resolve.elements file lookup' scope elements members) s
      fun members s' => s'.program.HasAll members := by
  cases elements with
  | nil => exact .pure hmembers
  | cons first rest =>
    obtain ⟨hfirst, hrest⟩ := List.forall_mem_cons.mp hnames
    refine (element_safe h first s hscope hfirst hmembers).bind fun _ s₁ hext₁ hfits => ?_
    exact elements_safe h rest s₁ (hext₁.program.hasScope hscope) hrest hfits

end

/-- The signature of a declared function is built safely, of types that exist. -/
theorem signature_safe (h : Looks file length pending lookup lookup')
    {s : ResolveState} (hscope : s.program.HasScope scope)
    {parameters : List Parameter} (hparameters : ∀ parameter ∈ parameters, parameter.NamesIn length)
    {result : Option TypeNode} (hresult : ∀ type, result = some type → type.NamesIn length) :
    Safe (.resolving file length pending) (signature file lookup scope parameters result)
      (Resolve.signature file lookup' scope parameters result) s
      fun signature s' => signature.Within s'.program.types.entries.size := by
  refine (parameterTypes_safe h parameters s hscope hparameters).bind ?_
  intro types s₁ hext₁ htypes
  refine (optionalType_safe h result s₁ (hext₁.program.hasScope hscope) hresult).bind ?_
  intro id s₂ hext₂ hid
  exact .pure ⟨fun p hp => hext₂.program.hasType (htypes p hp), hid⟩

/-- The signatures among declarations are built safely, of types that exist. -/
theorem signatures_safe (h : Looks file length pending lookup lookup')
    {s : ResolveState} {declarations : List Declaration}
    (hdeclarations : ∀ declaration ∈ declarations, declaration.Fits s.program length) :
    Safe (.resolving file length pending) (signatures file lookup declarations)
      (Resolve.signatures file lookup' declarations) s
      fun list s' => ∀ signature ∈ list, signature.Within s'.program.types.entries.size := by
  induction declarations generalizing s with
  | nil => exact .pure nofun
  | cons declaration rest ih =>
    obtain ⟨hfirst, hrest⟩ := List.forall_mem_cons.mp hdeclarations
    cases declaration with
    | function scope parameters result =>
      obtain ⟨hscope, hparameters, hresult⟩ := hfirst
      refine (signature_safe h hscope hparameters hresult).bind fun first s₁ hext₁ hfits => ?_
      refine (ih fun other hmem => (hrest other hmem).mono hext₁.program).bind ?_
      intro list s₂ hext₂ hlist
      exact .pure <| List.forall_mem_cons.mpr
        ⟨Signature.Within.mono hfits hext₂.program.types, hlist⟩
    | variableDecl | interface | typeAlias => exact ih hrest

end Annotations

/-! ## Values and names -/

/-- A name that leads nowhere is reported. -/
theorem unknownName_gives {name : Identifier} (hname : name.node.span.Within length) :
    GivesType file length pending
      (do compile (report file name.node.span (.unknownName name.text)); return .any)
      (do
        Resolve.compile (Compile.report file name.node.span (.unknownName name.text))
        return .any) s :=
  .of_inv fun hs => (compile_safe (report_safe hs.file hname _)).bind fun _ _ _ _ => any_gives

section Values

variable {resolve : SymbolId → Guarded ResolveState TypeId} {resolve' : SymbolId → Resolve TypeId}
  (h : Resolves file length pending resolve resolve') {scope : ScopeId}
include h

/-- A name in a value is given its type safely. -/
theorem identifierType_safe (hscope : s.program.HasScope scope) (offset : Nat) {name : Identifier}
    (hname : name.node.span.Within length) :
    GivesType file length pending (valueType file resolve scope offset (.identifier name))
      (Resolve.valueType file resolve' scope offset (.identifier name)) s := by
  refine .of_inv fun hs => ?_
  obtain ⟨hlookup, hfound⟩ := hs.program.answers.lookupValue scope name.text hscope
  refine program_safe.bind fun program s₁ _ h₁ => ?_
  obtain ⟨rfl, rfl⟩ := h₁
  refine .found hlookup ?_
  cases hid : s₁.program.resolveValue? scope name.text with
  | none =>
    refine .ite (fun _ => word_gives .undefined) fun _ => unknownName_gives hname
  | some id =>
    have hsymbol := hfound id hid
    refine (h s₁ id hsymbol).bind fun _ s₂ hext₂ _ => .of_inv fun hs₂ => ?_
    refine program_safe.bind fun program s₃ _ h₃ => ?_
    obtain ⟨rfl, rfl⟩ := h₃
    have hanswer := hs₂.program.answers.typeAt id ⟨file, offset⟩ (hext₂.program.hasSymbol hsymbol)
    exact .gives hanswer.1 hanswer.2

/-- A written value has a type that is there. -/
theorem valueType_safe (offset : Nat) (e : Expr) {s : ResolveState}
    (hscope : s.program.HasScope scope) (hplaced : e.Throughout (Expr.InText length)) :
    GivesType file length pending (valueType file resolve scope offset e)
      (Resolve.valueType file resolve' scope offset e) s := by
  cases e with
  | identifier name =>
    obtain ⟨hplaced, -⟩ := hplaced
    exact identifierType_safe h hscope offset hplaced.span
  | literal node value =>
    cases value with
    | null => exact word_gives .null
    | _ => exact literalType_safe _
  | parenthesized node inner =>
    obtain ⟨-, hbelow⟩ := hplaced
    exact valueType_safe offset inner hscope (hbelow inner (by simp))
  | unary node op operand =>
    cases op with
    | not => exact word_gives .boolean
    | typeOf => exact word_gives .string
    | void => exact word_gives .undefined
    | minus =>
      cases operand with
      | literal node value =>
        cases value with
        | number digits => exact compile_safe (shareType_safe (.numberLiteral _) trivial)
        | _ => exact word_gives .number
      | _ => exact word_gives .number
    | _ => exact word_gives .number
  | _ => exact any_gives

/-- The names in annotations are looked up safely where symbols are resolved safely. -/
theorem reference_looks :
    Looks file length pending (reference file resolve) (Resolve.reference file resolve') := by
  intro s scope name hscope hname
  unfold reference Resolve.reference
  refine .of_inv fun hs => .ite (fun _ => any_gives) fun _ => ?_
  obtain ⟨hlookup, hfound⟩ := hs.program.answers.lookupType scope name.text hscope
  refine program_safe.bind fun program s₁ _ h₁ => ?_
  obtain ⟨rfl, rfl⟩ := h₁
  refine .found hlookup ?_
  cases hid : s₁.program.resolveType? scope name.text with
  | some id => exact h s₁ id (hfound id hid)
  | none =>
    refine .ite (fun _ => .pure (hs.program.hasType_of_lt (by decide))) fun _ => ?_
    refine .ite (fun _ => .pure (hs.program.hasType_of_lt (by decide))) fun _ => ?_
    exact unknownName_gives hname

end Values

end Guarded

end ExpressionTyping
