import ExpressionTyping.Proofs.Program.Meanings

/-!
# Functions have the signatures they are declared with

What is being resolved when a value is asked for are values, since types never lead to values. So
every name in the signatures of a function leads to a type that has its final meaning
(`Guarded.reading_of_values`), even if there are aliases that lead back to themselves. A symbol gets
settled with the type or the signatures of its declarations (`Guarded.symbol_ends`), and interfaces
get their members while nothing else is being resolved (`Guarded.interfaceMembers_ends`). When
everything is resolved that a file declares, it explains all of this (`ResolveState.Explains`).
-/

set_option autoImplicit false

namespace ExpressionTyping

namespace Guarded

variable {file : FileId} {pending : Pending} {values : Prop} {active : List SymbolId}
  {veiled : List TypeId} {s : ResolveState}

/-! ## Names and values -/

/-- A report signs nothing. -/
theorem report_signs (span : Span) (problem : Problem) :
    Ends (.signing file pending values active veiled) (compile (report file span problem)) s
      fun _ _ => True :=
  (compile_ends (report_ends span problem)).mono fun _ _ _ _ _ => trivial

/-- That an alias refers to itself is reported. -/
theorem report_circle {id : SymbolId} (hhas : s.program.HasSymbol id) (span : Span) :
    Ends (.signing file pending values active veiled)
      (compile (report file span (.circularAlias (s.program.symbol id).name))) s
      fun _ s' => s'.program.ReportsCircle file id := by
  refine (compile_ends (report_ends span _)).mono fun _ s' _ hsigns ⟨hreported, _⟩ => ?_
  refine ⟨hsigns.hasSymbol hhas, span, ?_⟩
  rw [(hsigns.symbol hhas).name, Program.fileName, hsigns.files]
  exact hreported

/-- A symbol of a value is declared in the file. -/
def HoldsValue (pending : Pending) (id : SymbolId) : Prop :=
  ∃ made, (id, made) ∈ pending ∧ made.isType = false

/-- A symbol is resolved to its final type, or it is being resolved: then an alias is left at `any`
and reported. -/
def Found (file : FileId) (pending : Pending) (active : List SymbolId) (isType : Bool)
    (id : SymbolId) (type : TypeId) (s : ResolveState) : Prop :=
  id ∈ active ∧ (isType = true → type = .any ∧ s.program.ReportsCircle file id) ∨
    s.Settled pending id ∧ type = (s.program.symbol id).type

/-- Symbols of one kind are resolved to their final types, apart from those that are being
resolved. -/
def Finds (file : FileId) (pending : Pending) (values : Prop) (active : List SymbolId)
    (isType : Bool) (resolve : SymbolId → Guarded ResolveState TypeId) : Prop :=
  ∀ veiled s id, (s.program.symbol id).sort.isType = isType →
    Ends (.signing file pending values active veiled) (resolve id) s
      (Found file pending active isType id)

/-- A scope leads from a name to a symbol of its kind. -/
theorem isType_of_found {program : Program} (h : program.Sorted) {scopes : List ScopeId}
    (key : Key) {id : SymbolId}
    (hfound : scopes.findSome? (fun scope => (program.scope scope).get? key) = some id) :
    (program.symbol id).sort.isType = key.isType := by
  obtain ⟨scope, -, hkey⟩ := List.exists_of_findSome?_eq_some hfound
  obtain ⟨symbol, hsymbol, -, htype⟩ := h.named hkey
  obtain ⟨-, rfl⟩ := Program.HasSymbol.of_symbol? hsymbol
  exact htype

section Resolve

variable {resolve : SymbolId → Guarded ResolveState TypeId}

/-- The names in annotations are found where symbols are. -/
theorem reference_finds (h : Finds file pending values active true resolve) :
    FindsNames file pending values active (reference file resolve) := by
  intro veiled s scope name
  refine .ite (fun hname => .pure ?_) fun hname => ?_
  · simp only [Reading.veil, ResolveState.readingWith, if_pos hname]
  refine program_ends.bind ?_
  rintro _ s₁ hs₁ - ⟨rfl, rfl⟩
  refine .found fun found hfound => ?_
  have hresolve : s₁.program.resolveType? scope name.text = found := lookup?_eq hfound
  cases found with
  | some symbol =>
    have htype := isType_of_found hs₁.sorted.names (.type name.text) hresolve
    refine (h veiled s₁ symbol htype).mono fun type s₂ _ hsigns₂ hsymbol => ?_
    simp only [Reading.veil, ResolveState.readingWith, if_neg hname, hsigns₂.resolveType?_eq,
      hresolve]
    exact hsymbol.imp_left (And.imp_right fun hleft => hleft rfl)
  | none =>
    -- nothing that is reported changes what the name means
    have hunbound {id : TypeId} (hid : id = Program.unboundType name.text) {s₂ : ResolveState}
        (hsigns : s₁.Signs file pending values active veiled s₂) :
        ((s₂.reading file pending active).veil veiled).names scope name id := by
      simp only [Reading.veil, ResolveState.readingWith, if_neg hname, hsigns.resolveType?_eq,
        hresolve]
      exact hid
    refine .ite (fun heq => .pure (hunbound ?_ (.refl s₁))) fun hfunction => ?_
    · rw [Program.unboundType, if_pos heq]
    refine .ite (fun heq => .pure (hunbound ?_ (.refl s₁))) fun hobject => ?_
    · rw [Program.unboundType, if_neg hfunction, if_pos heq]
    refine (report_signs _ _).bind fun _ s₂ _ hsigns₂ _ => .pure (hunbound ?_ hsigns₂)
    rw [Program.unboundType, if_neg hfunction, if_neg hobject]

/-- Finding the type of a value signs nothing else. -/
theorem valueType_ends (h : Finds file pending values active false resolve) (scope : ScopeId)
    (offset : Nat) (e : Expr) (s : ResolveState) :
    Ends (.signing file pending values active veiled) (valueType file resolve scope offset e) s
      fun _ _ => True := by
  cases e with
  | identifier name =>
    refine program_ends.bind ?_
    rintro _ s₁ hs₁ - ⟨rfl, rfl⟩
    refine .found fun found hfound => ?_
    cases found with
    | some symbol =>
      have htype := isType_of_found hs₁.sorted.names (.value name.text) (lookup?_eq hfound)
      refine (h veiled s₁ symbol htype).bind fun _ s₂ _ _ _ => ?_
      exact program_ends.bind fun _ _ _ _ _ => .gives fun _ _ => trivial
    | none =>
      refine .ite (fun _ => .pure trivial) fun _ => ?_
      exact (report_signs _ _).bind fun _ _ _ _ _ => .pure trivial
  | literal node value =>
    cases value with
    | null => exact .pure trivial
    | _ => exact (literalType_ends _).mono fun _ _ _ _ _ => trivial
  | parenthesized node inner => exact valueType_ends h scope offset inner s
  | unary node op operand =>
    cases op with
    | minus =>
      cases operand with
      | literal node value =>
        cases value with
        | number digits =>
          refine (compile_ends (shareType_ends (.numberLiteral _) rfl nofun)).mono ?_
          exact fun _ _ _ _ _ => trivial
        | _ => exact .pure trivial
      | _ => exact .pure trivial
    | _ => exact .pure trivial
  | _ => exact .pure trivial

/-- A type is what the declarations of a symbol say: what the annotation of the first one says, or
an object with their signatures. An interface keeps its type. -/
structure Declares (file : FileId) (pending : Pending) (active : List SymbolId)
    (veiled : List TypeId) (id : SymbolId) (first : Declaration) (all : List Declaration)
    (type : TypeId) (s : ResolveState) : Prop where
  gives : first.Gives ((s.reading file pending active).veil veiled) type
  signs : first.isFunction = true → ∃ signatures,
    (s.program.types.veil veiled).get type = .object none .empty signatures ∧
      Declarations.Sign ((s.reading file pending active).veil veiled) all signatures
  keeps : first.isInterface = true → type = (s.program.symbol id).type

/-- What is resolved for the declarations of a symbol is what they say. An interface asks for
nothing. -/
theorem declaredType_ends {first : Declaration}
    (htypes : first.isInterface = false → Finds file pending values active true resolve)
    (hvalues : first.isType = false → Finds file pending values active false resolve)
    (id : SymbolId) (all : List Declaration) (s : ResolveState) :
    Ends (.signing file pending values active veiled) (declaredType file resolve id first all) s
      (Declares file pending active veiled id first all) := by
  cases first with
  | variableDecl scope constant type? initializer =>
    cases type? with
    | some type =>
      have hnames := reference_finds (htypes rfl)
      exact (typeNode_ends hnames type s).mono fun _ _ _ _ hmeans => ⟨hmeans, nofun, nofun⟩
    | none =>
      cases initializer with
      | none => exact .pure ⟨trivial, nofun, nofun⟩
      | some initializer =>
        refine program_ends.bind fun program s₁ _ _ _ => ?_
        refine .found fun symbol _ => .found fun location _ => ?_
        refine (valueType_ends (hvalues rfl) scope location.offset initializer s₁).bind ?_
        refine fun type s₂ _ _ _ => program_ends.bind fun program s₃ _ _ _ => ?_
        exact .found fun _ _ => .pure ⟨trivial, nofun, nofun⟩
  | function scope parameters result =>
    have hnames := reference_finds (htypes rfl)
    refine (signatures_ends hnames all s).bind fun signatures s₁ hs₁ _ hsign => ?_
    refine (compile_ends (addObject_ends none (.empty _) signatures)).mono ?_
    intro id s₂ _ hsigns₂ ⟨⟨hnew, hid⟩, _⟩
    refine ⟨trivial, fun _ => ⟨signatures, ?_, hsign.mono (hsigns₂.veiledWith file _)⟩, nofun⟩
    exact (TypeTable.get_veil_of_le hs₁.callable hnew).trans hid
  | interface scope members =>
    refine program_ends.bind ?_
    rintro _ s₁ - - ⟨rfl, rfl⟩
    refine .found fun symbol hsymbol => .pure ⟨trivial, nofun, fun _ => ?_⟩
    obtain ⟨-, rfl⟩ := Program.HasSymbol.of_symbol? hsymbol
    rfl
  | typeAlias scope nameSpan type =>
    have hnames := reference_finds (htypes rfl)
    exact (typeNode_ends hnames type s).mono fun _ _ _ _ hmeans => ⟨hmeans, nofun, nofun⟩

end Resolve

/-! ## Symbols -/

/-- If only values are being resolved, all names in annotations have their final meaning. -/
theorem reading_of_values (hs : s.Sorted pending) (hactive : ∀ id ∈ active, HoldsValue pending id) :
    (s.reading file pending active).Extends (s.reading file pending []) where
  file := rfl
  types := .refl TypeData.Endures.refl _
  symbols _ _ _ h := h
  names scope name id hname := by
    simp only [ResolveState.reading, ResolveState.readingWith] at hname ⊢
    split at hname
    · rwa [if_pos ‹_›]
    · rw [if_neg ‹_›]
      split at hname
      · rename_i symbol hfound
        refine hname.imp (fun hleft => ?_) fun h => h
        obtain ⟨made, hmade, hvalue⟩ := hactive symbol hleft.1
        have htype := isType_of_found hs.names (.type name.text) hfound
        rw [hs.isType_eq hmade, hvalue] at htype
        cases htype
      · exact hname

/-- Some aliases may be left at `any`. -/
theorem reading_inCircles (s : ResolveState) (active : List SymbolId) :
    (s.reading file pending active).Extends (s.readingInCircles file pending) where
  file := rfl
  types := .refl TypeData.Endures.refl _
  symbols _ _ _ h := h
  names scope name id hname := by
    simp only [ResolveState.reading, ResolveState.readingInCircles, ResolveState.readingWith]
      at hname ⊢
    split at hname
    · rwa [if_pos ‹_›]
    · rw [if_neg ‹_›]
      split at hname
      · exact hname.imp_left (And.imp_left fun _ => trivial)
      · exact hname

/-- The state after a symbol got its type. -/
def settle (s : ResolveState) (id : SymbolId) (type : TypeId) : ResolveState where
  program :=
    { s.program with
      symbols := s.program.symbols.modify id.index fun symbol => { symbol with type } }
  resolved := id :: s.resolved

/-- Settling a symbol gives it its type. -/
theorem symbol_settle {id : SymbolId} (hid : s.program.HasSymbol id) (type : TypeId) :
    ((settle s id type).program.symbol id) = { s.program.symbol id with type } := by
  show ((s.program.symbols.modify id.index _)[id.index]?).getD default = _
  rw [Array.getElem?_modify, if_pos rfl, show s.program.symbols[id.index]? = _ from hid.symbol?]
  rfl

/-- Settling a symbol changes no other one. -/
theorem symbol_settle_of_ne {id other : SymbolId} (hne : other ≠ id) (type : TypeId) :
    (settle s id type).program.symbol other = s.program.symbol other := by
  have hindex : id.index ≠ other.index := fun h => hne (congrArg SymbolId.mk h.symm)
  show ((s.program.symbols.modify id.index _)[other.index]?).getD default = _
  rw [Array.getElem?_modify, if_neg hindex]
  rfl

/-- Settling a symbol goes on from the state before. -/
theorem settle_goesOn (s : ResolveState) (id : SymbolId) (type : TypeId) :
    s.GoesOn (settle s id type) where
  reaches := .refl
  symbols := .modify Symbol.Grows.refl _ _ fun _ => ⟨rfl, rfl, List.prefix_rfl⟩
  declarations other hother := by
    by_cases heq : other = id
    · subst heq
      rw [symbol_settle hother]
    · rw [symbol_settle_of_ne heq]
  scopes := .refl Scope.KeepsNames.refl _
  size := rfl
  files := rfl
  resolved := List.subset_cons_self _ _

/-- Settling a declared symbol settles it, if a type that is its own stays. -/
theorem settle_settles {id : SymbolId} (hresolved : id ∉ s.resolved)
    (hdeclared : pending.declarationsOf id ≠ []) {type : TypeId}
    (hkeeps : (s.program.symbol id).sort.ownsType = true → type = (s.program.symbol id).type) :
    s.Settles pending (settle s id type) := by
  have hmodified : (settle s id type).program.symbols = s.program.symbols.modify id.index
      fun symbol => { symbol with type } := rfl
  have htype (symbol : Symbol) (hsymbol : s.program.symbol? id = some symbol)
      (howns : symbol.sort.ownsType = true) : type = symbol.type := by
    obtain ⟨-, rfl⟩ := Program.HasSymbol.of_symbol? hsymbol
    exact hkeeps howns
  exact
    { settle_goesOn s id type with
      types := .refl TypeData.Holds.refl _
      fixed := fun other _ hother => by
        rw [symbol_settle_of_ne]
        rintro rfl
        exact hresolved (hother List.mem_cons_self)
      declared := fun other hother => by
        rcases List.mem_cons.mp hother with rfl | hmem
        · exact .inr hdeclared
        · exact .inl hmem
      issues := List.Subset.refl _
      tidy := fun htidy =>
        htidy.modify rfl hmodified (fun _ => ⟨rfl, rfl, List.prefix_rfl⟩) htype
      interfaces := .modify hmodified (fun _ => rfl) fun symbol hsymbol hsort =>
        htype symbol hsymbol (hsort ▸ rfl) }

/-- A function that gets the type of its declarations has their signatures: nothing but values is
being resolved then. -/
theorem Declares.signed {id : SymbolId} {first : Declaration} {rest : List Declaration}
    {type : TypeId}
    (h : Declares file pending (id :: active) veiled id first (first :: rest) type s)
    (hs : s.Sorted pending) (hdeclarations : pending.declarationsOf id = first :: rest)
    (hkind : first.isType = true ∨ values ∧ ∀ other ∈ active, HoldsValue pending other)
    (hsettles : s.Settles pending (settle s id type)) :
    (settle s id type).Signed file pending veiled id := by
  have hmade := Pending.mem_of_declarationsOf hdeclarations
  have hhas := hs.hasSymbol_of_declares ⟨first, hmade⟩
  refine ⟨hsettles.hasSymbol hhas, fun first' rest' heq hfunction => ?_⟩
  cases hdeclarations.symm.trans heq
  obtain ⟨signatures, hget, hsign⟩ := h.signs hfunction
  have hvalue : first.isType = false := by
    cases first with
    | function => rfl
    | _ => cases hfunction
  have hactive : ∀ other ∈ id :: active, HoldsValue pending other := by
    refine List.forall_mem_cons.mpr ⟨⟨first, hmade, hvalue⟩, ?_⟩
    exact (hkind.resolve_left (by rw [hvalue]; exact Bool.false_ne_true)).2
  have hvalues : ((s.reading file pending (id :: active)).veil veiled).Extends
      ((s.reading file pending []).veil veiled) :=
    (reading_of_values hs hactive).veil veiled
  refine ⟨signatures, ?_, (hsign.mono hvalues).mono (hsettles.veiledWith file _)⟩
  rw [symbol_settle hhas]
  exact hget

/-- What gets the type of its declarations has the type that the annotation of the first one
says. -/
theorem Declares.given {id : SymbolId} {first : Declaration} {rest : List Declaration}
    {type : TypeId}
    (h : Declares file pending (id :: active) veiled id first (first :: rest) type s)
    (hs : s.Sorted pending) (hdeclarations : pending.declarationsOf id = first :: rest)
    (hsettles : s.Settles pending (settle s id type)) :
    (settle s id type).Given file pending veiled id := by
  have hhas := hs.hasSymbol_of_declares ⟨first, Pending.mem_of_declarationsOf hdeclarations⟩
  refine ⟨hsettles.hasSymbol hhas, fun first' rest' heq => ?_⟩
  cases hdeclarations.symm.trans heq
  rw [symbol_settle hhas]
  have hcircles : ((s.reading file pending (id :: active)).veil veiled).Extends
      ((s.readingInCircles file pending).veil veiled) :=
    (reading_inCircles s (id :: active)).veil veiled
  exact (h.gives.mono hcircles).mono (hsettles.veiledWith file _)

/-- A symbol that gets the type of its declarations is one more that is settled. -/
theorem settle_signs {s₁ : ResolveState} {id : SymbolId} {first : Declaration}
    {rest : List Declaration} {type : TypeId} (hs₁ : s₁.Sorted pending)
    (hsigns : s.Signs file pending values (id :: active) veiled s₁)
    (hdeclarations : pending.declarationsOf id = first :: rest)
    (hkind : first.isType = true ∨ values ∧ ∀ other ∈ active, HoldsValue pending other)
    (hnot : id ∉ active) (hresolved : id ∉ s.resolved)
    (hdeclares : Declares file pending (id :: active) veiled id first (first :: rest) type s₁) :
    s.Signs file pending values active veiled (settle s₁ id type) := by
  have hmade := Pending.mem_of_declarationsOf hdeclarations
  have hhas := hs₁.hasSymbol_of_declares ⟨first, hmade⟩
  have hresolved₁ : id ∉ s₁.resolved := fun hmem =>
    hresolved (hsigns.waits id List.mem_cons_self hmem)
  have hkeeps (howns : (s₁.program.symbol id).sort.ownsType = true) :
      type = (s₁.program.symbol id).type :=
    hdeclares.keeps (Declaration.isInterface_of_ownsType (hs₁.isOf hmade) howns)
  have hsettles : s₁.Settles pending (settle s₁ id type) :=
    settle_settles hresolved₁ (by rw [hdeclarations]; exact List.cons_ne_nil _ _) hkeeps
  have hsort : ((settle s₁ id type).program.symbol id).sort.isType = first.isType := by
    rw [symbol_settle hhas]
    exact hs₁.isType_eq hmade
  refine { hsigns.toSettles.trans hsettles with
    kept := hsigns.kept, signed := ?signed, given := ?given
    sameScopes := hsigns.sameScopes, waits := ?waits, kinds := ?kinds }
  case signed =>
    intro other hother
    rcases List.mem_cons.mp hother with rfl | hmem
    · exact .inr (hdeclares.signed hs₁ hdeclarations hkind hsettles)
    · exact (hsigns.signed other hmem).imp_right (hsettles.signed hmem)
  case given =>
    intro other hother
    rcases List.mem_cons.mp hother with rfl | hmem
    · exact .inr (hdeclares.given hs₁ hdeclarations hsettles)
    · exact (hsigns.given other hmem).imp_right (hsettles.given hmem)
  case waits =>
    intro other hother hmem
    rcases List.mem_cons.mp hmem with rfl | hmem
    · exact absurd hother hnot
    · exact hsigns.waits other (List.mem_cons_of_mem _ hother) hmem
  case kinds =>
    intro other hother
    rcases List.mem_cons.mp hother with rfl | hmem
    · rw [hsort]
      exact .inr (hkind.symm.imp_left fun h => h.1)
    · rcases hsigns.signed other hmem with hold | hsigned
      · exact .inl hold
      · rw [(hsettles.symbol hsigned.1).sort]
        exact hsigns.kinds other hmem

/-- The end of resolving a symbol. -/
theorem settle_run {id : SymbolId} {type a : TypeId} {s' : ResolveState}
    (hrun : (do
      compile (updateSymbol id fun s => { s with type })
      step (modify fun s => { s with resolved := id :: s.resolved })
      return type : Guarded ResolveState TypeId).run s = some (a, s')) :
    a = type ∧ s' = settle s id type ∧ s.program.HasSymbol id := by
  cases hsymbol : s.program.symbol? id with
  | none =>
    simp [compile, updateSymbol, hsymbol] at hrun
  | some symbol =>
    have hend : (type, settle s id type) = (a, s') := by
      simp only [compile, updateSymbol, StateT.run_bind, StateT.run_get, pure_bind, hsymbol] at hrun
      exact Option.some.inj hrun
    obtain ⟨rfl, rfl⟩ := Prod.mk.inj hend
    exact ⟨rfl, rfl, (Program.HasSymbol.of_symbol? hsymbol).1⟩

/-- A symbol asks for others while it is resolved. -/
def Expands (pending : Pending) (id : SymbolId) : Prop :=
  ∃ made, (id, made) ∈ pending ∧ made.isInterface = false

/-- A type that asks for others is an alias. -/
theorem Expands.aliasSpan?_ne_none (hs : s.Sorted pending) {id : SymbolId}
    (h : Expands pending id) (htype : (s.program.symbol id).sort.isType = true) :
    Resolve.aliasSpan? (pending.declarationsOf id) ≠ none := by
  obtain ⟨made, hmade, hother⟩ := h
  have hsort : (s.program.symbol id).sort = .typeAlias := by
    have hof := hs.isOf hmade
    rw [Declaration.isType_eq hof] at htype
    cases made with
    | typeAlias => exact of_decide_eq_true hof
    | interface => cases hother
    | variableDecl | function => cases htype
  cases hdeclarations : pending.declarationsOf id with
  | nil => exact absurd ⟨made, hmade⟩ (Pending.not_declares hdeclarations)
  | cons first rest =>
    have hof := hs.isOf (Pending.mem_of_declarationsOf hdeclarations)
    rw [hsort] at hof
    cases first with
    | typeAlias => exact nofun
    | variableDecl | function | interface => cases hof

/-- A settled symbol has its final type. -/
theorem current_ends {id : SymbolId} {isType : Bool}
    (hid : id ∈ s.resolved ∨ pending.declarationsOf id = []) :
    Ends (.signing file pending values active veiled)
      (do return (← (← program).symbol? id).type) s (Found file pending active isType id) := by
  refine program_ends.bind ?_
  rintro _ s₁ - - ⟨rfl, rfl⟩
  refine .found fun symbol hsymbol => .pure (.inr ?_)
  obtain ⟨hhas, rfl⟩ := Program.HasSymbol.of_symbol? hsymbol
  exact ⟨⟨hhas, hid⟩, rfl⟩

/-- A type, or a value if only values are being resolved, is resolved to its final type, unless it
is being resolved. -/
theorem symbol_ends (limit : Nat) {active : List SymbolId} {s : ResolveState} {id : SymbolId}
    (h : (s.program.symbol id).sort.isType = true ∨
      values ∧ ∀ other ∈ active, HoldsValue pending other)
    (hactive : ∀ other ∈ active, Expands pending other) :
    Ends (.signing file pending values active veiled) (symbol file pending limit active id) s
      (Found file pending active (s.program.symbol id).sort.isType id) := by
  induction limit generalizing active veiled s id with
  | zero =>
    intro a s' hrun
    cases hrun
  | succ limit ih =>
    refine .ite (fun hmem => ?_) fun hmem => ?_
    · have hwaits : id ∈ active := by simpa using hmem
      cases hspan : Resolve.aliasSpan? (pending.declarationsOf id) with
      | none =>
        refine .of_inv fun hs => .pure (.inl ⟨hwaits, fun htype => ?_⟩)
        exact absurd hspan ((hactive id hwaits).aliasSpan?_ne_none hs.sorted htype)
      | some span =>
        refine program_ends.bind ?_
        rintro _ s₁ - - ⟨rfl, rfl⟩
        refine .found fun symbol hsymbol => ?_
        obtain ⟨hhas, rfl⟩ := Program.HasSymbol.of_symbol? hsymbol
        refine (report_circle hhas span).bind fun _ s₂ _ _ hcircle => ?_
        exact .pure (.inl ⟨hwaits, fun _ => ⟨rfl, hcircle⟩⟩)
    refine Ends.get.bind ?_
    rintro _ s₁ hs₁ - ⟨rfl, rfl⟩
    refine .ite (fun hmem => current_ends (.inl (by simpa using hmem))) fun hresolved => ?_
    cases hdeclarations : pending.declarationsOf id with
    | nil => exact current_ends (.inr hdeclarations)
    | cons first rest =>
      have hmade := Pending.mem_of_declarationsOf hdeclarations
      have hkind : first.isType = true ∨ values ∧ ∀ other ∈ active, HoldsValue pending other := by
        rw [← hs₁.sorted.isType_eq hmade]
        exact h
      have hexpands (hother : first.isInterface = false) :
          ∀ other ∈ id :: active, Expands pending other :=
        List.forall_mem_cons.mpr ⟨⟨first, hmade, hother⟩, hactive⟩
      -- types lead to types only, and values are asked for by values only
      have htypes (hother : first.isInterface = false) : Finds file pending values (id :: active)
          true (symbol file pending limit (id :: active)) := fun _ s₂ id₂ hid₂ =>
        hid₂ ▸ ih (.inl hid₂) (hexpands hother)
      have hvalues (hvalue : first.isType = false) : Finds file pending values (id :: active) false
          (symbol file pending limit (id :: active)) := by
        obtain ⟨hvalues, hactive⟩ := hkind.resolve_left (by rw [hvalue]; exact Bool.false_ne_true)
        have hother : first.isInterface = false := by
          cases first with
          | interface => cases hvalue
          | _ => rfl
        exact fun _ s₂ id₂ hid₂ => hid₂ ▸ ih (.inr ⟨hvalues,
          List.forall_mem_cons.mpr ⟨⟨first, hmade, hvalue⟩, hactive⟩⟩) (hexpands hother)
      intro a s' hrun _
      rw [StateT.run_bind] at hrun
      obtain ⟨⟨type, s₂⟩, hdeclared, hrun⟩ := Option.bind_eq_some_iff.mp hrun
      obtain ⟨hs₂, hsigns, hdeclares⟩ := declaredType_ends htypes hvalues id (first :: rest) s₁
        type s₂ hdeclared hs₁
      obtain ⟨rfl, rfl, hhas⟩ := settle_run hrun
      have hend := settle_signs hs₂.sorted hsigns hdeclarations hkind (by simpa using hmem)
        (by simpa using hresolved) hdeclares
      have hhas₁ := hs₁.sorted.hasSymbol_of_declares ⟨first, hmade⟩
      refine ⟨hend.orderly hs₁, hend, .inr ⟨⟨hend.hasSymbol hhas₁, .inl List.mem_cons_self⟩, ?_⟩⟩
      rw [symbol_settle hhas]

/-- A symbol is found while no other is active. -/
theorem fresh_ends (isType : Bool) (h : isType = true ∨ values) :
    Finds file pending values [] isType (fresh file pending) := by
  intro veiled s id hid
  subst hid
  exact symbol_ends _ (h.imp_right fun hvalues => ⟨hvalues, nofun⟩) nofun

/-! ## Everything a file declares -/

/-- The members of the interfaces among declarations are gathered as they say. -/
theorem interfaceElements_ends
    {lookup : ScopeId → Identifier → Guarded ResolveState TypeId}
    (h : FindsNames file pending values active lookup) (declarations : List Declaration) :
    GathersMembers file pending values active (interfaceElements file lookup declarations)
      fun r drafts drafts' => Declarations.Gather r declarations drafts drafts' := by
  induction declarations with
  | nil => exact fun _ _ _ _ _ _ hgathering => Ends.pure ⟨_, _, hgathering, .refl _, .nil⟩
  | cons declaration rest ih =>
    cases declaration with
    | interface scope list =>
      exact (elements_ends h list).bind ih
        fun hextends hfirst hrest => .interface (hfirst.mono hextends) hrest
    | variableDecl | function | typeAlias =>
      exact ih.imp fun hgather => .other rfl hgather

/-- The state after an interface got its members. -/
def furnish (s : ResolveState) (id : SymbolId) (members : SymbolTable SymbolId) : ResolveState where
  program :=
    { s.program with types := s.program.types.setMembers (s.program.symbol id).type members }
  resolved := id :: s.resolved

/-- Giving an interface its members settles it. -/
theorem furnish_settles {id : SymbolId} {members : SymbolTable SymbolId} {name : String}
    {old : SymbolTable SymbolId} (hdeclared : pending.declarationsOf id ≠ [])
    (hentry : s.program.types.entries[(s.program.symbol id).type.index]? =
      some (.object (some name) old [])) (hnames : s.program.Names members) :
    s.Settles pending (furnish s id members) :=
  { ResolveState.GoesOn.refl s with
    reaches := .single (.setMembers _ _)
    resolved := List.subset_cons_self _ _
    types := TypeTable.setMembers_holds hentry members
    fixed := fun _ _ _ => rfl
    declared := fun other hother => by
      rcases List.mem_cons.mp hother with rfl | hmem
      · exact .inr hdeclared
      · exact .inl hmem
    issues := List.Subset.refl _
    tidy := fun htidy => htidy.setMembers hentry hnames rfl rfl
    interfaces := .of_symbols rfl }

/-- An interface that gets the members which its declarations list has them, and other interfaces
keep theirs. -/
theorem furnish_furnishes {id : SymbolId} {drafts : SymbolTable MemberDraft}
    {members : SymbolTable SymbolId} (hs : s.Sorted pending) (htidy : s.program.Tidy)
    (hdeclared : pending.Declares id) (hsort : (s.program.symbol id).sort = .interface)
    (hgather : Declarations.Gather (s.reading file pending []) (pending.declarationsOf id) .empty
      drafts)
    (hmembers : (s.reading file pending []).MembersAre drafts members)
    (hnames : s.program.Names members) :
    s.Furnishes file pending (furnish s id members) ∧
      (furnish s id members).Furnished file pending id := by
  have hhas := hs.hasSymbol_of_declares hdeclared
  obtain ⟨name, old, hentry⟩ := htidy.interface hhas.symbol? hsort
  have hsettles : s.Settles pending (furnish s id members) :=
    furnish_settles (fun h => Pending.not_declares h hdeclared) hentry hnames
  have hextends := hsettles.readingWith file (· ∈ [])
  have hown : (furnish s id members).Furnished file pending id :=
    { hasSymbol := hhas
      sort := hsort
      members := ⟨name, drafts, members, TypeTable.get_updateObject hentry _,
        hgather.mono hextends, hmembers.imp fun _ _ => hextends.memberIs⟩ }
  refine ⟨{ hsettles with
    sameScopes := rfl, kinds := ?kinds, given := ?given, furnished := ?furnished }, hown⟩
  case kinds =>
    intro other hother
    rcases List.mem_cons.mp hother with rfl | hmem
    · refine .inr ⟨hhas, ?_⟩
      show (s.program.symbol other).sort.isType = true
      rw [hsort]
      rfl
    · exact .inl hmem
  case given =>
    intro other hother
    rcases List.mem_cons.mp hother with rfl | hmem
    · refine .inr ⟨hhas, fun first rest heq => ?_⟩
      have hof := hs.isOf (Pending.mem_of_declarationsOf heq)
      rw [hsort] at hof
      cases first with
      | interface => trivial
      | variableDecl | function | typeAlias => cases hof
    · exact .inl hmem
  case furnished =>
    intro other hother
    by_cases heq : other = id
    · exact heq ▸ hown
    obtain ⟨hhas', hsort', name', drafts', members', hentry', hgather', hmembers'⟩ := hother
    have hne : (s.program.symbol other).type ≠ (s.program.symbol id).type := fun h =>
      heq (htidy.apart hhas'.symbol? hhas.symbol? (hsort' ▸ rfl) (hsort ▸ rfl) h)
    exact
      { hasSymbol := hhas'
        sort := hsort'
        members := ⟨name', drafts', members',
          (TypeTable.getElem?_updateObject_of_ne hne _).trans hentry',
          hgather'.mono hextends, hmembers'.imp fun _ _ => hextends.memberIs⟩ }

/-- Interfaces get their members before anything else is resolved, except for types. -/
theorem interfaceMembers_ends {id : SymbolId} (hdeclared : pending.Declares id)
    (hhas : s.program.HasSymbol id) (hsort : (s.program.symbol id).sort = .interface) :
    Ends (.shaping file pending) (interfaceMembers file pending id) s
      fun _ s' => s'.Furnished file pending id := by
  have hnames : FindsNames file pending False [] (reference file (fresh file pending)) :=
    reference_finds (fresh_ends true (.inl rfl))
  have hgathered := (interfaceElements_ends hnames (pending.declarationsOf id)).ends
    (fun hextends hgather => hgather.mono hextends) [] s
  refine hgathered.shaping.bind ?_
  rintro members s₁ - hearlier ⟨hlisted, drafts, hgather, hmembers⟩
  refine Ends.get.bind ?_
  rintro _ s₂ - - ⟨rfl, rfl⟩
  refine .found fun symbol hsymbol => .found fun data _ => .step fun hs₂ => ?_
  obtain ⟨-, rfl⟩ := Program.HasSymbol.of_symbol? hsymbol
  obtain ⟨hfurnishes, hfurnished⟩ := furnish_furnishes hs₂.sorted hs₂.tidy hdeclared
    ((hearlier.symbol hhas).sort.trans hsort) hgather hmembers hlisted
  exact ⟨hfurnishes.orderly hs₂, hfurnishes, hfurnished⟩

/-- Narrowing only adds types. -/
theorem narrowed_ends {s : Program} (declared assigned : TypeId) :
    Ends .growing (narrowed declared assigned) s fun _ _ => True := by
  refine Ends.get.bind ?_
  rintro _ s₁ - - ⟨rfl, rfl⟩
  refine .found fun data _ => ?_
  cases data with
  | union members =>
    refine .found fun _ _ => .found fun _ _ => .ite (fun _ => .pure trivial) fun _ => ?_
    exact (unionOf_ends ⟨0⟩ _ 0).mono fun _ _ _ _ _ => trivial
  | _ => exact .pure trivial

/-- A scope whose names stay is changed. -/
theorem updateScope_ends (id : ScopeId) {f : Scope → Scope}
    (hf : ∀ scope : Scope, scope.KeepsNames (f scope)) :
    Ends (.recording file pending) (compile (updateScope id f)) s fun _ _ => True := by
  intro a s' hrun hs
  rw [compile_run] at hrun
  obtain ⟨⟨a', program⟩, hupdate, heq⟩ := Option.bind_eq_some_iff.mp hrun
  cases heq
  let after : Program := { s.program with scopes := s.program.scopes.modify id.index f }
  obtain rfl : program = after := by
    cases hscope : s.program.scope? id with
    | none => simp [updateScope, hscope] at hupdate
    | some scope =>
      simp only [updateScope, StateT.run_bind, StateT.run_get, pure_bind, hscope] at hupdate
      exact (Prod.mk.inj (Option.some.inj hupdate)).2.symm
  have hrecords : s.Records file pending [] { s with program := after } :=
    { ResolveState.Settles.refl s with
      scopes := .modify Scope.KeepsNames.refl _ _ hf
      size := Array.size_modify
      tidy := fun htidy => htidy.same rfl rfl
      kept := fun _ _ => rfl
      signed := fun _ hid => .inl hid
      given := fun _ hid => .inl hid }
  exact ⟨hrecords.orderly hs, hrecords, trivial⟩

/-- Recording an assignment keeps the record. -/
theorem assignment_ends (a : PendingAssignment) :
    Ends (.recording file pending) (assignment file pending a) s fun _ _ => True := by
  have hreport (span : Span) (problem : Problem) (s : ResolveState) :
      Ends (.recording file pending) (compile (report file span problem)) s fun _ _ => True := by
    have hsigns : Ends (.signing file pending True [] []) (compile (report file span problem)) s
        _ := report_signs span problem
    exact hsigns.recording
  refine program_ends.bind fun _ _ _ _ _ => .found fun found _ => ?_
  cases found with
  | none => exact hreport _ _ _
  | some id =>
    refine program_ends.bind fun _ s₁ _ _ _ => .found fun target _ => .ite (fun _ => ?_) fun _ => ?_
    · exact hreport _ _ _
    refine .ite (fun _ => ?_) fun _ => .pure trivial
    refine (valueType_ends (fresh_ends false (.inr trivial)) _ _ a.value s₁).recording.bind ?_
    intro assigned s₂ _ _ _
    have hnarrowed : Ends (.signing file pending True [] [])
        (compile (narrowed target.type assigned)) s₂ _ := compile_ends (narrowed_ends _ assigned)
    refine hnarrowed.recording.bind fun _ _ _ _ _ => ?_
    exact updateScope_ends a.scope fun scope => ⟨⟨rfl, rfl⟩, rfl, rfl⟩

/-- Recording assignments keeps the record. -/
theorem records_ends (recorded : List Bound) :
    Ends (.recording file pending) (recorded.forM (Guarded.record file pending)) s
      fun _ _ => True := by
  refine .forM recorded fun b _ s => ?_
  cases b with
  | declaration => exact .pure trivial
  | assignment a => exact assignment_ends a

/-- Recording two lists one after the other is recording both as one. -/
theorem recording_append (bound earlier later : List Bound) :
    recording file bound (earlier ++ later) =
      recording file bound earlier >>= fun _ =>
        later.forM (record file (Resolve.pendingOf bound)) := by
  have happend : (earlier ++ later).forM (record file (Resolve.pendingOf bound)) =
      earlier.forM (record file (Resolve.pendingOf bound)) >>= fun _ =>
        later.forM (record file (Resolve.pendingOf bound)) :=
    List.forM_append
  simp only [recording, happend, bind_assoc]

/-- All interfaces of a file get their members. -/
theorem interfaces_ends (ids : List SymbolId) (hids : ∀ id ∈ ids, pending.Declares id)
    (s : ResolveState) :
    Ends (.shaping file pending)
      (ids.forM fun id => do
        if (← (← program).symbol? id).sort = .interface then interfaceMembers file pending id) s
      fun _ s' => ∀ id ∈ ids, (s'.program.symbol id).sort = .interface →
        s'.Furnished file pending id := by
  induction ids generalizing s with
  | nil => exact .pure nofun
  | cons id rest ih =>
    obtain ⟨hid, hrest⟩ := List.forall_mem_cons.mp hids
    have hround : Ends (.shaping file pending)
        (do if (← (← program).symbol? id).sort = .interface then interfaceMembers file pending id) s
        fun _ s' => (s'.program.symbol id).sort = .interface → s'.Furnished file pending id := by
      refine program_ends.bind ?_
      rintro _ s' - - ⟨rfl, rfl⟩
      refine .found fun symbol hsymbol => ?_
      obtain ⟨hhas, rfl⟩ := Program.HasSymbol.of_symbol? hsymbol
      refine .ite (fun hsort => ?_) fun hsort => .pure fun hinterface => absurd hinterface hsort
      exact (interfaceMembers_ends hid hhas hsort).mono fun _ _ _ _ hfurnished _ => hfurnished
    refine hround.bind fun _ s₁ hs₁ _ hfirst => (ih hrest s₁).mono fun _ s₂ _ hfurnishes₂ hlater => ?_
    refine List.forall_mem_cons.mpr ⟨fun hsort => hfurnishes₂.furnished id (hfirst ?_), hlater⟩
    exact (hfurnishes₂.symbol (hs₁.sorted.hasSymbol_of_declares hid)).sort.symm.trans hsort

end Guarded

/-! ## Files that are resolved -/

/-- A file is resolved: values and types are told apart as before, symbols that got resolved have
the types, or the signatures, that their declarations say, and interfaces have their members. -/
structure ResolveState.Explains (file : FileId) (pending : Pending) (s s' : ResolveState) : Prop
    extends GoesOn s s' where
  sorted : s'.Sorted pending
  tidy : s'.program.Tidy
  interfaces : s.program.KeepsInterfaces s'.program
  signed : ∀ id ∈ s'.resolved, id ∈ s.resolved ∨ (s'.program.symbol id).sort.isType = true ∨
    s'.Signed file pending [] id
  given : ∀ id ∈ s'.resolved, id ∈ s.resolved ∨ s'.Given file pending [] id
  furnished : ∀ id, pending.Declares id → (s'.program.symbol id).sort = .interface →
    s'.Furnished file pending id

/-- It stays explained while more is resolved and recorded. -/
theorem ResolveState.Explains.records {file : FileId} {pending : Pending}
    {s s₁ s' : ResolveState} (h : s.Explains file pending s₁) (h' : s₁.Records file pending [] s') :
    s.Explains file pending s' :=
  { h.toGoesOn.trans h'.toGoesOn with
    sorted := h'.sorted h.sorted
    tidy := h'.tidy h.tidy
    interfaces := h.interfaces.trans h'.interfaces
    signed := by
      intro id hid
      rcases h'.signed id hid with hmem | hsigned
      · rcases h.given id hmem with hold | hgiven
        · exact .inl hold
        refine (h.signed id hmem).imp_right (Or.imp (fun htype => ?_) (h'.toSettles.signed hmem))
        rw [(h'.symbol hgiven.1).sort]
        exact htype
      · exact .inr (.inr hsigned)
    given := h'.toSettles.given_of_given h.given h'.given
    furnished := fun id hid hsort => by
      have hhas := h.sorted.hasSymbol_of_declares hid
      exact h'.furnished (h.furnished id hid ((h'.symbol hhas).sort.symm.trans hsort)) }

namespace Guarded

variable {file : FileId} {bound : List Bound} {s s' : ResolveState}

/-- When every symbol is resolved that a file declares, the file is resolved, but for assignments:
scopes are as they were. -/
theorem declarations_ends (hs : s.Sorted (Resolve.pendingOf bound)) (htidy : s.program.Tidy)
    (hrun : (recording file bound []).run s = some ((), s')) :
    s.Explains file (Resolve.pendingOf bound) s' ∧ s'.program.scopes = s.program.scopes := by
  obtain ⟨⟨_, s₁⟩, hinterfaces, hsymbols⟩ := Option.bind_eq_some_iff.mp hrun
  have hsymbol (id : SymbolId) (s : ResolveState) :
      Ends (.signing file (Resolve.pendingOf bound) True [] [])
        (do let _ ← fresh file (Resolve.pendingOf bound) id) s fun _ _ => True :=
    (fresh_ends _ (.inr trivial) [] s id rfl).bind fun _ _ _ _ _ => .pure trivial
  have hfirst : Ends (.shaping file (Resolve.pendingOf bound)) _ s _ :=
    interfaces_ends (Resolve.pendingOf bound).symbols
      (fun _ => Pending.declares_of_mem_symbols) s
  have hlater := (Ends.forM (s := s₁) (Resolve.pendingOf bound).symbols fun id _ s =>
    hsymbol id s).bind (f := fun _ => pure ()) (R := fun _ _ => True) fun _ _ _ _ _ => .pure trivial
  obtain ⟨hs₁, hfurnishes, hfurnished⟩ := hfirst _ _ hinterfaces (hs.orderly htidy)
  obtain ⟨-, hsigns, -⟩ := hlater _ _ hsymbols hs₁
  have hexplains : s.Explains file (Resolve.pendingOf bound) s₁ :=
    { hfurnishes with
      sorted := hs₁.sorted
      tidy := hs₁.tidy
      signed := fun id hid => (hfurnishes.kinds id hid).imp_right fun hkind => .inl hkind.2
      furnished := fun id hid => hfurnished id (Pending.mem_symbols hid) }
  exact ⟨hexplains.records hsigns.toRecords, hsigns.sameScopes.trans hfurnishes.sameScopes⟩

/-- This is still so when everything is resolved, assignments included. -/
theorem everything_ends (hs : s.Sorted (Resolve.pendingOf bound)) (htidy : s.program.Tidy)
    (hrun : (everything file bound).run s = some ((), s')) :
    s.Explains file (Resolve.pendingOf bound) s' := by
  change (recording file bound ([] ++ bound)).run s = some ((), s') at hrun
  rw [recording_append, StateT.run_bind] at hrun
  obtain ⟨⟨_, s₁⟩, hdeclared, hrun⟩ := Option.bind_eq_some_iff.mp hrun
  obtain ⟨hexplains, -⟩ := declarations_ends hs htidy hdeclared
  obtain ⟨-, hrecords, -⟩ := records_ends bound _ _ hrun (hexplains.sorted.orderly hexplains.tidy)
  exact hexplains.records hrecords

end Guarded

end ExpressionTyping
