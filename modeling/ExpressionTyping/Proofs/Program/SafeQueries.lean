import ExpressionTyping.Proofs.Program.WellFormed

/-!
# Questions to a well-formed program

A question to a well-formed program about places that are there is answered without a look-up that
fails, and an answer names only places that are there (`Program.Answers`). So whoever asks on with
the places that were handed out goes on getting answers.
-/

set_option autoImplicit false

namespace ExpressionTyping

/-- A scope whose bounds are in order knows which offsets it covers. -/
theorem Scope.Fits.covers?_eq {program : Program} {scope : Scope} (h : scope.Fits program)
    (offset : Nat) : scope.covers? offset = some (scope.covers offset) := by
  unfold Scope.covers? Scope.covers
  split
  · rfl
  · rw [Span.ofBounds?, if_pos h.ordered]
    rfl

namespace Program

/-- The questions about places of a program are answered as if no look-up could fail, and with
places of the program. -/
structure Answers (program : Program) : Prop where
  scopesAt : ∀ location, program.scopesAt? location = some (program.scopesAt location)
  symbolsAt : ∀ location, program.symbolsAt? location = some (program.symbolsAt location) ∧
    ∀ id ∈ program.symbolsAt location, program.HasSymbol id
  typeAt : ∀ id location, program.HasSymbol id →
    program.typeAt? id location = some (program.typeAt id location) ∧
      program.HasType (program.typeAt id location)
  lookupValue : ∀ scope name, program.HasScope scope →
    program.lookup? Scope.values scope name = some (program.resolveValue? scope name) ∧
      ∀ id, program.resolveValue? scope name = some id → program.HasSymbol id
  lookupType : ∀ scope name, program.HasScope scope →
    program.lookup? Scope.types scope name = some (program.resolveType? scope name) ∧
      ∀ id, program.resolveType? scope name = some id → program.HasSymbol id
  endOfFile : ∀ file, program.HasFile file → ∃ length, program.endOfFile? file = some ⟨file, length⟩
  symbolOf : ∀ file declaration, program.HasFile file →
    program.declared? file declaration = some (program.symbolOf? file declaration) ∧
      ∀ id, program.symbolOf? file declaration = some id → program.HasSymbol id
  typeOf : ∀ file declaration, program.HasFile file →
    program.declaredType? file declaration = some (program.typeOf? file declaration) ∧
      ∀ id, program.typeOf? file declaration = some id → program.HasType id
  symbolName : ∀ id, program.HasSymbol id → program.symbolName? id = some (program.symbol id).name
  flags : ∀ id, program.HasType id → program.flags? id = some (program.flags id)
  properties : ∀ id, program.HasType id →
    program.properties? id = some (program.properties id) ∧
      ∀ property ∈ program.properties id, program.HasSymbol property
  signatures : ∀ id, program.HasType id →
    program.signatures? id = some (program.signatures id) ∧
      ∀ signature ∈ program.signatures id, signature.Within program.types.entries.size
  elementOf : ∀ id, program.HasType id →
    program.elementType? id = some (program.types.elementOf? id) ∧
      ∀ element, program.types.elementOf? id = some element → program.HasType element
  typeText : ∀ id, program.HasType id → program.typeText? id = some (program.typeText id)

namespace WellFormed

variable {program : Program} (h : program.WellFormed)
include h

/-- The scopes that a file of a program lists are there. -/
theorem hasScope_of_mem {info : FileInfo} (hinfo : info ∈ program.files) {id : ScopeId}
    (hid : id ∈ info.scopes) : program.HasScope id := by
  obtain ⟨scope, hscope, -⟩ := (h.files info hinfo).scopes id hid
  exact (HasScope.of_scope? hscope).1

/-- A well-formed program is closed. -/
theorem closed : program.Closed where
  types _ data hdata := h.types data (Array.mem_of_getElem? hdata)
  symbols _ symbol hsymbol := h.symbols symbol (Array.mem_of_getElem? hsymbol)
  values _ scope hscope entry hentry := by
    obtain ⟨_, hsymbol, -⟩ :=
      (h.scopes scope (Array.mem_of_getElem? hscope)).values entry hentry
    exact (HasSymbol.of_symbol? hsymbol).1
  assignments _ scope hscope a ha :=
    ((h.scopes scope (Array.mem_of_getElem? hscope)).assignments a ha).2
  files _ _ hinfo _ hid := h.hasScope_of_mem (Array.mem_of_getElem? hinfo) hid

/-! ## Locations -/

/-- The scopes at a location are found without a look-up that fails. -/
theorem scopesAt?_eq (location : Location) :
    program.scopesAt? location = some (program.scopesAt location) := by
  unfold scopesAt? scopesAt Program.file?
  cases hinfo : program.files[location.file.index]? with
  | none => rfl
  | some info =>
    have hmarked : ∀ id ∈ info.scopes, program.mark? location.offset id =
        some (id, (program.scope id).covers location.offset) := by
      intro id hid
      have hscope := h.hasScope_of_mem (Array.mem_of_getElem? hinfo) hid
      rw [mark?, hscope.scope?, Option.bind_eq_bind, Option.bind_some,
        (h.scope_fits hscope).covers?_eq]
      rfl
    simp only [mapM_eq_some hmarked, Option.bind_eq_bind, Option.bind_some, List.filter_map,
      List.map_map]
    exact congrArg some (List.map_id _)

/-- The scopes at a location are there. -/
theorem scopes?_eq (location : Location) :
    (program.scopesAt location).mapM program.scope? =
      some ((program.scopesAt location).map program.scope) :=
  mapM_eq_some fun _ hid => HasScope.scope? (h.closed.scope_lt hid)

/-- The symbols at a location are found without a look-up that fails. -/
theorem symbolsAt?_eq (location : Location) :
    program.symbolsAt? location = some (program.symbolsAt location) := by
  unfold symbolsAt? symbolsAt visibleAt
  rw [h.scopesAt?_eq, Option.bind_eq_bind, Option.bind_some, h.scopes?_eq, Option.bind_eq_bind,
    Option.bind_some, List.flatMap_map]
  rfl

/-- The type of a symbol at a location is found without a look-up that fails. -/
theorem typeAt?_eq {id : SymbolId} (hid : program.HasSymbol id) (location : Location) :
    program.typeAt? id location = some (program.typeAt id location) := by
  unfold typeAt?
  rw [Program.typeAt_eq]
  simp only [hid.symbol?, (h.symbol_type hid).get?, h.scopesAt?_eq, h.scopes?_eq,
    Option.bind_eq_bind, Option.bind_some, List.flatMap_map]
  split
  · unfold assignmentsTo
    split
    · rename_i hlatest
      rw [hlatest]
      rfl
    · rename_i hlatest
      rw [hlatest]
      rfl
  · rfl

/-! ## Names -/

omit h in
/-- A name is sought through scopes that are there without a look-up that fails. -/
theorem seek?_eq (table : Scope → SymbolTable SymbolId) (name : String) {ids : List ScopeId}
    (hids : ∀ id ∈ ids, program.HasScope id) :
    program.seek? table name ids =
      some (ids.findSome? fun id => (table (program.scope id)).get? name) := by
  induction ids with
  | nil => rfl
  | cons id rest ih =>
    obtain ⟨hid, hrest⟩ := List.forall_mem_cons.mp hids
    rw [seek?, hid.scope?, Option.bind_eq_bind, Option.bind_some, List.findSome?_cons, ih hrest]
    cases (table (program.scope id)).get? name <;> rfl

/-- A name is looked up from a scope that is there without a look-up that fails. -/
theorem lookup?_eq (table : Scope → SymbolTable SymbolId) {scope : ScopeId}
    (hscope : program.HasScope scope) (name : String) :
    program.lookup? table scope name =
      some ((program.outward scope).findSome? fun id => (table (program.scope id)).get? name) := by
  unfold lookup?
  rw [hscope.scope?, Option.bind_eq_bind, Option.bind_some]
  exact seek?_eq table name (h.hasScope_outward hscope)

/-- A name leads to symbols only. -/
theorem hasSymbol_of_findSome? {table : Scope → SymbolTable SymbolId}
    (htable : ∀ scope ∈ program.scopes, (table scope).Names program) {scope : ScopeId}
    (hscope : program.HasScope scope) {name : String} {id : SymbolId}
    (hid : ((program.outward scope).findSome? fun id => (table (program.scope id)).get? name) =
      some id) : program.HasSymbol id := by
  obtain ⟨outer, houter, hget⟩ := List.exists_of_findSome?_eq_some hid
  have hthere := h.hasScope_outward hscope outer houter
  have hnames := htable _ (Array.mem_of_getElem? hthere.scope?)
  obtain ⟨symbol, hsymbol, -⟩ := hnames _ (SymbolTable.mem_of_get? hget)
  exact (HasSymbol.of_symbol? hsymbol).1

/-! ## Declarations -/

/-- The symbol of a declaration is found without a look-up that fails, and it is there. -/
theorem declared?_eq {file : FileId} (declaration : Nat) (hfile : program.HasFile file) :
    program.declared? file declaration = some (program.symbolOf? file declaration) ∧
      ∀ id, program.symbolOf? file declaration = some id → program.HasSymbol id := by
  obtain ⟨info, hinfo⟩ := hfile.file?
  have hfits := h.files info (Array.mem_of_getElem? hinfo)
  unfold declared? symbolOf?
  rw [hinfo]
  rw [file?] at hinfo
  rw [hinfo]
  refine ⟨rfl, fun id hid => ?_⟩
  obtain ⟨earlier, later, heq, -⟩ := List.lookup_eq_some_iff.mp hid
  exact hfits.declarations (declaration, id) (heq ▸ List.mem_append_cons_self)

/-! ## Types -/

/-- The properties of a type are found without a look-up that fails, and they are there. -/
theorem properties?_eq {id : TypeId} (hid : program.HasType id) :
    program.properties? id = some (program.properties id) ∧
      ∀ property ∈ program.properties id, program.HasSymbol property := by
  have hwithin := h.get_within hid
  unfold properties? properties
  rw [hid.get?, Option.bind_eq_bind, Option.bind_some]
  cases hdata : program.types.get id with
  | object name? members signatures =>
    rw [hdata] at hwithin
    refine ⟨rfl, fun property hproperty => ?_⟩
    obtain ⟨entry, hentry, rfl⟩ := List.mem_map.mp hproperty
    exact hwithin.1 entry hentry
  | array element => exact ⟨rfl, by simpa using h.length⟩
  | intrinsic | stringLiteral | numberLiteral | booleanLiteral | union => exact ⟨rfl, nofun⟩

/-- The signatures of a type are found without a look-up that fails, and their types are there. -/
theorem signatures?_eq {id : TypeId} (hid : program.HasType id) :
    program.signatures? id = some (program.signatures id) ∧
      ∀ signature ∈ program.signatures id, signature.Within program.types.entries.size := by
  have hwithin := h.get_within hid
  unfold signatures? signatures
  rw [hid.get?, Option.bind_eq_bind, Option.bind_some]
  cases hdata : program.types.get id with
  | object name? members signatures =>
    rw [hdata] at hwithin
    exact ⟨rfl, hwithin.2⟩
  | intrinsic | stringLiteral | numberLiteral | booleanLiteral | union | array =>
    exact ⟨rfl, nofun⟩

/-- The element of a type is found without a look-up that fails, and it is there. -/
theorem elementType?_eq {id : TypeId} (hid : program.HasType id) :
    program.elementType? id = some (program.types.elementOf? id) ∧
      ∀ element, program.types.elementOf? id = some element → program.HasType element := by
  have hwithin := h.get_within hid
  unfold elementType? TypeTable.elementOf?
  rw [hid.get?, Option.bind_eq_bind, Option.bind_some]
  cases hdata : program.types.get id with
  | array element =>
    rw [hdata] at hwithin
    refine ⟨rfl, ?_⟩
    rintro _ ⟨⟩
    exact hwithin
  | intrinsic | stringLiteral | numberLiteral | booleanLiteral | union | object =>
    exact ⟨rfl, nofun⟩

/-! ## Texts -/

section Texts

variable {text? : TypeId → Option String} {text : TypeId → String}
  (htext : ∀ id, program.HasType id → text? id = some (text id))

omit h in
include htext in
/-- The parameters of a signature are displayed without a look-up that fails. -/
theorem parametersText?_eq {signature : Signature}
    (hsignature : signature.Within program.types.entries.size) :
    parametersText? text? signature = some (parametersText text signature) := by
  have hparameter : ∀ p ∈ signature.parameters.zipIdx, text? p.1.2 = some (text p.1.2) := by
    intro p hp
    exact htext _ (hsignature.1 p.1 (List.fst_mem_of_mem_zipIdx hp))
  have htexts : ∀ p ∈ signature.parameters.zipIdx, parameterText? text? signature p =
      some ((if signature.hasRest && p.2 == signature.parameters.length - 1 then "..." else "") ++
        p.1.1 ++ ": " ++ text p.1.2) := by
    intro p hp
    rw [parameterText?, hparameter p hp]
    rfl
  rw [parametersText?, mapM_eq_some htexts]
  rfl

omit h in
include htext in
/-- A signature is displayed without a look-up that fails. -/
theorem signatureText?_eq (name : String) {signature : Signature}
    (hsignature : signature.Within program.types.entries.size) :
    signatureText? text? name signature = some (signatureText text name signature) := by
  unfold signatureText? signatureText
  rw [parametersText?_eq htext hsignature, htext _ hsignature.2]
  rfl

include htext in
/-- A member is displayed without a look-up that fails. -/
theorem memberTexts?_eq (name : String) {id : SymbolId} (hid : program.HasSymbol id) :
    program.memberTexts? text? name id = some (program.memberTexts text name id) := by
  have htype := h.symbol_type hid
  have hwithin := h.get_within htype
  unfold memberTexts? memberTexts
  rw [hid.symbol?, Option.bind_eq_bind, Option.bind_some, htype.get?, Option.bind_eq_bind,
    Option.bind_some]
  simp only
  have hplain : (do return [name ++ ": " ++ (← text? (program.symbol id).type)]) =
      some [name ++ ": " ++ text (program.symbol id).type] := by
    rw [htext _ htype]
    rfl
  cases (program.symbol id).sort with
  | method =>
    cases hdata : program.types.get (program.symbol id).type with
    | object name? members signatures =>
      obtain ⟨_ | ⟨entry, others⟩⟩ := members <;> cases name?
      case nil.none =>
        rw [hdata] at hwithin
        exact mapM_eq_some fun signature hsignature =>
          signatureText?_eq htext name (hwithin.2 signature hsignature)
      all_goals exact hplain
    | intrinsic | stringLiteral | numberLiteral | booleanLiteral | union | array => exact hplain
  | _ => exact hplain

end Texts

/-- A type is displayed to any depth without a look-up that fails. -/
theorem display?_eq (levels : Nat) {id : TypeId} (hid : program.HasType id) :
    program.display? levels id = some (program.display levels id) := by
  induction levels generalizing id with
  | zero => rfl
  | succ levels ih =>
    have hwithin := h.get_within hid
    have htext : ∀ id, program.HasType id →
        program.display? levels id = some (program.display levels id) := fun _ => ih
    unfold display? display
    rw [hid.get?, Option.bind_eq_bind, Option.bind_some]
    simp only
    cases hdata : program.types.get id with
    | intrinsic | stringLiteral | numberLiteral | booleanLiteral => rfl
    | union members =>
      rw [hdata] at hwithin
      simp only [mapM_eq_some fun member hmember => htext member (hwithin member hmember)]
      rfl
    | array element =>
      rw [hdata] at hwithin
      have helement : program.HasType element := hwithin
      simp only [helement.get?, htext _ helement, Option.bind_eq_bind, Option.bind_some]
      split <;> rfl
    | object name? members signatures =>
      rw [hdata] at hwithin
      have hcalls : signatures.mapM (signatureText? (program.display? levels) "") =
          some (signatures.map (signatureText (program.display levels) "")) :=
        mapM_eq_some fun signature hmem => signatureText?_eq htext "" (hwithin.2 signature hmem)
      have hmembers : (members.entries.mapM fun entry =>
          program.memberTexts? (program.display? levels) entry.1 entry.2) =
            some (members.entries.map fun entry =>
              program.memberTexts (program.display levels) entry.1 entry.2) :=
        mapM_eq_some fun entry hmem => h.memberTexts?_eq htext entry.1 (hwithin.1 entry hmem)
      cases name? with
      | some name => rfl
      | none =>
        obtain ⟨entries⟩ := members
        obtain _ | ⟨signature, _ | ⟨second, rest⟩⟩ := signatures <;>
          obtain _ | ⟨entry, others⟩ := entries
        case object.none.cons.nil.nil =>
          have hsignature := hwithin.2 signature List.mem_cons_self
          simp only [parametersText?_eq htext hsignature, htext _ hsignature.2]
          rfl
        all_goals
          simp only [hcalls, hmembers, Option.bind_eq_bind, Option.bind_some, List.flatMap_def]
          rfl

/-- A well-formed program answers all questions about its places. -/
theorem answers : program.Answers where
  scopesAt := h.scopesAt?_eq
  symbolsAt location := ⟨h.symbolsAt?_eq location, h.closed.symbolsAt_lt⟩
  typeAt _ location hid := ⟨h.typeAt?_eq hid location, h.closed.typeAt_lt hid location⟩
  lookupValue scope name hscope := ⟨h.lookup?_eq Scope.values hscope name, fun _ =>
    h.hasSymbol_of_findSome? (fun _ hmem => (h.scopes _ hmem).values) hscope⟩
  lookupType scope name hscope := ⟨h.lookup?_eq Scope.types hscope name, fun _ =>
    h.hasSymbol_of_findSome? (fun _ hmem => (h.scopes _ hmem).types) hscope⟩
  endOfFile file hfile := by
    obtain ⟨info, hinfo⟩ := hfile.file?
    refine ⟨info.length, ?_⟩
    rw [file?] at hinfo
    rw [endOfFile?, hinfo]
    rfl
  symbolOf _ := h.declared?_eq
  typeOf file declaration hfile := by
    obtain ⟨hdeclared, hsymbol⟩ := h.declared?_eq declaration hfile
    unfold declaredType? typeOf?
    rw [hdeclared, Option.bind_eq_bind, Option.bind_some]
    cases hid : program.symbolOf? file declaration with
    | none => exact ⟨rfl, nofun⟩
    | some id =>
      have hthere := hsymbol id hid
      refine ⟨by simp only [hthere.symbol?]; rfl, ?_⟩
      rintro _ ⟨⟩
      exact h.symbol_type hthere
  symbolName id hid := by
    rw [symbolName?, hid.symbol?]
    rfl
  flags id hid := by
    rw [flags?, hid.get?]
    rfl
  properties _ := h.properties?_eq
  signatures _ := h.signatures?_eq
  elementOf _ := h.elementType?_eq
  typeText _ := h.display?_eq displayLevels

end WellFormed

end Program

end ExpressionTyping
