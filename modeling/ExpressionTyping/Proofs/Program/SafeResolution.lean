import ExpressionTyping.Proofs.Program.SafeAnnotations

/-!
# Resolving does not fail

Resolving a symbol leads on to symbols that are not being resolved yet, and every symbol that is
being resolved has a declaration in the file. So there are never more of them than declarations, and
the limit on them is not reached (`symbol_safe`). Each declared symbol is resolved in the end
(`everything_safe`).
-/

set_option autoImplicit false

namespace ExpressionTyping

/-! ## Declarations of a symbol -/

/-- A symbol has a declaration among those of a file. -/
def Pending.Declares (pending : Pending) (id : SymbolId) : Prop :=
  ∃ declaration, (id, declaration) ∈ pending

/-- A declaration of a symbol is one of the pending ones. -/
theorem Pending.mem_of_mem_declarationsOf {pending : Pending} {id : SymbolId}
    {declaration : Declaration} (h : declaration ∈ pending.declarationsOf id) :
    (id, declaration) ∈ pending := by
  obtain ⟨⟨id', declaration⟩, hentry, rfl⟩ := List.mem_map.mp h
  obtain ⟨hpending, hid⟩ := List.mem_filter.mp hentry
  cases of_decide_eq_true hid
  exact hpending

/-- A listed symbol has a declaration. -/
theorem Pending.declares_of_mem_symbols {pending : Pending} {id : SymbolId}
    (h : id ∈ pending.symbols) : pending.Declares id := by
  obtain ⟨⟨_, declaration⟩, hmem, rfl⟩ := List.mem_map.mp (List.mem_eraseDups.mp h)
  exact ⟨declaration, hmem⟩

/-- A symbol with a declaration is listed. -/
theorem Pending.mem_symbols {pending : Pending} {id : SymbolId} (h : pending.Declares id) :
    id ∈ pending.symbols := by
  obtain ⟨declaration, hmem⟩ := h
  exact List.mem_eraseDups.mpr (List.mem_map.mpr ⟨_, hmem, rfl⟩)

/-- A symbol without declarations declares nothing. -/
theorem Pending.not_declares {pending : Pending} {id : SymbolId}
    (h : pending.declarationsOf id = []) : ¬pending.Declares id := by
  rintro ⟨declaration, hmem⟩
  have hlist : declaration ∈ pending.declarationsOf id :=
    List.mem_map.mpr ⟨_, List.mem_filter.mpr ⟨hmem, by simp⟩, rfl⟩
  rw [h] at hlist
  cases hlist

/-- No more different symbols are declared than there are declarations. -/
theorem Pending.length_le {pending : Pending} {ids : List SymbolId} (hnodup : ids.Nodup)
    (h : ∀ id ∈ ids, pending.Declares id) : ids.length ≤ pending.length := by
  have hsub : ids ⊆ pending.map Prod.fst := by
    intro id hid
    obtain ⟨declaration, hmem⟩ := h id hid
    exact List.mem_map.mpr ⟨_, hmem, rfl⟩
  simpa using (hnodup.subperm hsub).length_le

/-- The name of an alias lies in the text. -/
theorem Resolve.aliasSpan?_within {program : Program} {length : Nat}
    {declarations : List Declaration}
    (h : ∀ declaration ∈ declarations, declaration.Fits program length) {span : Span}
    (hspan : aliasSpan? declarations = some span) : span.Within length := by
  induction declarations with
  | nil => cases hspan
  | cons first rest ih =>
    obtain ⟨hfirst, hrest⟩ := List.forall_mem_cons.mp h
    cases first with
    | typeAlias scope nameSpan type =>
      cases hspan
      exact hfirst.2.1
    | variableDecl | function | interface => exact ih hrest hspan

/-! ## Recording assignments -/

/-- Records what was bound if it is an assignment. -/
def Resolve.record (file : FileId) (pending : Pending) : Bound → Resolve Unit
  | .assignment a => assignment file pending a
  | .declaration _ _ => return ()

/-- Resolves everything a file declares as `everything` does, and then records some of what was
bound. -/
def Resolve.recording (file : FileId) (bound recorded : List Bound) : Resolve Unit := do
  let pending := pendingOf bound
  pending.symbols.forM fun id => do
    if ((← program).symbol id).sort = .interface then interfaceMembers file pending id
  pending.symbols.forM fun id => do
    let _ ← fresh file pending id
  recorded.forM (record file pending)

namespace Guarded

/-- Records what was bound if it is an assignment. -/
def record (file : FileId) (pending : Pending) : Bound → Guarded ResolveState Unit
  | .assignment a => assignment file pending a
  | .declaration _ _ => return ()

/-- Resolves everything a file declares, and then records some of what was bound. -/
def recording (file : FileId) (bound recorded : List Bound) : Guarded ResolveState Unit := do
  let pending := Resolve.pendingOf bound
  pending.symbols.forM fun id => do
    if (← (← program).symbol? id).sort = .interface then interfaceMembers file pending id
  pending.symbols.forM fun id => do
    let _ ← fresh file pending id
  recorded.forM (record file pending)

end Guarded

namespace ResolveState.WellFormed

variable {file : FileId} {length : Nat} {pending : Pending} {s : ResolveState}
  (h : s.WellFormed file length pending)
include h

/-- The declarations of a symbol fit the program and the text. -/
theorem declarationsOf_fits (id : SymbolId) :
    ∀ declaration ∈ pending.declarationsOf id, declaration.Fits s.program length :=
  fun _ hmem => (h.declarations _ (Pending.mem_of_mem_declarationsOf hmem)).fits

/-- Every symbol with a declaration exists. -/
theorem hasSymbol_of_declares {id : SymbolId} (hid : pending.Declares id) :
    s.program.HasSymbol id := by
  obtain ⟨declaration, hmem⟩ := hid
  exact (h.declarations _ hmem).hasSymbol

/-- Interfaces are not annotated. -/
theorem wordOf?_interface {id : SymbolId} (hsort : (s.program.symbol id).sort = .interface) :
    pending.wordOf? id = none := by
  cases hword : pending.wordOf? id with
  | none => rfl
  | some word =>
    obtain ⟨declaration, hmem, hdeclaration⟩ := Pending.mem_of_wordOf? hword
    obtain ⟨sort, ⟨symbol, hsymbol, rfl, -⟩, hinterface⟩ := (h.declarations _ hmem).located
    obtain ⟨-, rfl⟩ := Program.HasSymbol.of_symbol? hsymbol
    cases declaration with
    | interface => cases hdeclaration
    | variableDecl | function | typeAlias => cases hinterface.mp hsort

end ResolveState.WellFormed

namespace Guarded

variable {file : FileId} {length : Nat} {pending : Pending} {s : ResolveState}

/-! ## Symbols -/

/-- A symbol that is there has a type that is there. -/
theorem currentType_safe {id : SymbolId} (hid : s.program.HasSymbol id) :
    Safe (.resolving file length pending) (do return (← (← program).symbol? id).type)
      (do return ((← Resolve.program).symbol id).type) s
      fun type s' => s'.program.HasType type ∧ s' = s := by
  refine .of_inv fun hs => program_safe.bind fun program s₁ _ h₁ => ?_
  obtain ⟨rfl, rfl⟩ := h₁
  exact .found hid.symbol? (.pure ⟨hs.program.symbol_type hid, rfl⟩)

/-- The declarations of a symbol give it a type that is there, and an annotation that is a word the
type of that word. -/
theorem declaredType_safe {resolve : SymbolId → Guarded ResolveState TypeId}
    {resolve' : SymbolId → Resolve TypeId} (h : Resolves file length pending resolve resolve')
    {id : SymbolId} {first : Declaration} (hfirst : first.Of s.program length id)
    {all : List Declaration} (hall : ∀ declaration ∈ all, declaration.Fits s.program length) :
    Safe (.resolving file length pending) (declaredType file resolve id first all)
      (Resolve.declaredType file resolve' id first all) s
      fun type s' => s'.program.HasType type ∧
        ∀ word, first.word? = some word → type = .ofWord word := by
  have hlooks := reference_looks h
  have hid := hfirst.hasSymbol
  obtain ⟨⟨sort, ⟨symbol, hsymbol, -, hlocated⟩, -⟩, hfits⟩ := hfirst
  refine .of_inv fun hs => ?_
  cases first with
  | variableDecl scope constant type? initializer =>
    obtain ⟨hscope, hnames, hplaced⟩ := hfits
    cases type? with
    | some type =>
      have htype := typeNode_safe hlooks type s hscope (hnames type rfl)
      cases type with
      | word node word =>
        refine .pure ⟨hs.program.hasType_word word, ?_⟩
        rintro _ ⟨⟩
        rfl
      | _ => exact htype.mono fun _ _ _ hid => ⟨hid, by rintro _ ⟨⟩⟩
    | none =>
      cases initializer with
      | none => exact .pure ⟨hs.program.hasType_any, by rintro _ ⟨⟩⟩
      | some initializer =>
        refine program_safe.bind fun program s₁ _ h₁ => ?_
        obtain ⟨rfl, rfl⟩ := h₁
        obtain ⟨-, rfl⟩ := Program.HasSymbol.of_symbol? hsymbol
        obtain ⟨location, rest, heq⟩ := List.exists_cons_of_ne_nil hlocated
        refine .found hid.symbol? (.found (c := location) (by rw [heq]; rfl) ?_)
        rw [heq]
        refine (valueType_safe h location.offset initializer hscope (hplaced _ rfl)).bind ?_
        refine fun type s₂ _ htype => program_safe.bind fun program s₃ _ h₃ => ?_
        obtain ⟨rfl, rfl⟩ := h₃
        refine .of_inv fun hs₃ => .found htype.get? (.pure ⟨?_, by rintro _ ⟨⟩⟩)
        split
        · exact htype
        · exact hs₃.program.hasType_widen htype
  | function scope parameters result =>
    refine (signatures_safe hlooks hall).bind fun list s₁ _ hlist => ?_
    have hempty : ∀ entry ∈ SymbolTable.empty.entries, s₁.program.HasSymbol entry.2 :=
      List.forall_mem_nil _
    refine (compile_safe (addType_safe (.object none .empty list) ⟨hempty, hlist⟩)).mono ?_
    exact fun _ _ _ hid => ⟨hid, by rintro _ ⟨⟩⟩
  | interface scope members =>
    exact (currentType_safe hid).mono fun _ _ _ h => ⟨h.1, by rintro _ ⟨⟩⟩
  | typeAlias scope nameSpan type =>
    obtain ⟨hscope, -, hnames⟩ := hfits
    exact (typeNode_safe hlooks type s hscope hnames).mono fun _ _ _ hid =>
      ⟨hid, by rintro _ ⟨⟩⟩

/-- A symbol gets a type that is there, and that of the word it is annotated with. -/
theorem setType_safe {id : SymbolId} (hid : s.program.HasSymbol id) {type : TypeId}
    (htype : s.program.HasType type)
    (hword : ∀ word, pending.wordOf? id = some word → type = .ofWord word) :
    Safe (.resolving file length pending) (compile (updateSymbol id fun s => { s with type }))
      (Resolve.compile (Compile.updateSymbol id fun s => { s with type })) s
      fun _ s' => (s'.program.symbol id).type = type := by
  intro hs
  let f : Symbol → Symbol := fun symbol => { symbol with type }
  let after : Program := { s.program with symbols := s.program.symbols.modify id.index f }
  obtain ⟨hwell, hext⟩ : after.WellFormed ∧ s.program.Extends after :=
    updateSymbol_wellFormed hs.program id (fun _ => ⟨rfl, rfl, List.prefix_rfl⟩) fun _ => .inr htype
  have hsymbol : s.program.symbols[id.index]? = some (s.program.symbol id) := hid.symbol?
  have hset : (after.symbol id).type = type := by
    show (((s.program.symbols.modify id.index f)[id.index]?).getD _).type = _
    rw [Array.getElem?_modify, if_pos rfl, hsymbol]
    rfl
  refine ⟨?_, ⟨hwell, hext.hasFile hs.file, ?_, ?_⟩, ⟨hext, rfl, List.Subset.refl _⟩, hset⟩
  · have hrun : (updateSymbol id f).run s.program = some ((), after) := by
      simp only [updateSymbol, StateT.run_bind, StateT.run_get, pure_bind, hid.symbol?]
      rfl
    rw [compile_run, hrun]
    rfl
  · exact fun entry hentry => (hs.declarations entry hentry).mono hext
  · intro other hother word hotherWord
    by_cases heq : other = id
    · subst heq
      exact hset.trans (hword word hotherWord)
    · have hne : id.index ≠ other.index := fun h => heq (congrArg SymbolId.mk h.symm)
      have hsame : after.symbol other = s.program.symbol other := by
        show ((s.program.symbols.modify id.index f)[other.index]?).getD _ = _
        rw [Array.getElem?_modify, if_neg hne]
        rfl
      exact hsame ▸ hs.words other hother word hotherWord

/-- A symbol that has the type of the word it is annotated with is resolved. -/
theorem markResolved_safe {id : SymbolId}
    (hword : ∀ word, pending.wordOf? id = some word → (s.program.symbol id).type = .ofWord word) :
    Safe (.resolving file length pending)
      (step (modify fun s => { s with resolved := id :: s.resolved }))
      (modify fun s => { s with resolved := id :: s.resolved } : Resolve PUnit) s
      fun _ s' => id ∈ s'.resolved ∧ s'.program = s.program := by
  refine .step fun hs =>
    ⟨{ hs with words := ?_ }, ⟨.refl _, rfl, List.subset_cons_self _ _⟩, ?_, rfl⟩
  · exact List.forall_mem_cons.mpr ⟨hword, hs.words⟩
  · exact List.mem_cons_self

/-- A symbol is resolved to a type that is there, whatever else is being resolved. -/
theorem symbol_safe (limit : Nat) {active : List SymbolId} (hnodup : active.Nodup)
    (hactive : ∀ id ∈ active, pending.Declares id) (hlimit : pending.length < limit + active.length)
    {s : ResolveState} {id : SymbolId} (hid : s.program.HasSymbol id) :
    Safe (.resolving file length pending) (symbol file pending limit active id)
      (Resolve.symbol file pending limit active id) s
      fun type s' => s'.program.HasType type ∧
        (id ∉ active → pending.Declares id → id ∈ s'.resolved) := by
  -- one more symbol becomes active for each step down, and those are different declared ones
  induction limit generalizing active s id with
  | zero =>
    have hle := Pending.length_le hnodup hactive
    omega
  | succ limit ih =>
    refine .of_inv fun hs => ?_
    unfold symbol Resolve.symbol
    refine .ite (fun hmem => ?_) fun hmem => ?_
    · have hpost {s' : ResolveState} (hs' : s'.WellFormed file length pending) :
          s'.program.HasType .any ∧ (id ∉ active → pending.Declares id → id ∈ s'.resolved) :=
        ⟨hs'.program.hasType_any, fun hnot => absurd (by simpa using hmem) hnot⟩
      cases hspan : Resolve.aliasSpan? (pending.declarationsOf id) with
      | none => exact .pure (hpost hs)
      | some span =>
        have hwithin := Resolve.aliasSpan?_within (hs.declarationsOf_fits id) hspan
        refine program_safe.bind fun program s₁ _ h₁ => ?_
        obtain ⟨rfl, rfl⟩ := h₁
        refine .found hid.symbol? ((compile_safe (report_safe hs.file hwithin _)).bind ?_)
        exact fun _ s₂ _ _ => .of_inv fun hs₂ => .pure (hpost hs₂)
    · have hnot : id ∉ active := by simpa using hmem
      refine Safe.get.bind fun s' s₁ _ h₁ => ?_
      obtain ⟨rfl, rfl⟩ := h₁
      refine .ite (fun hresolved => ?_) fun _ => ?_
      · refine (currentType_safe hid).mono ?_
        rintro type _ _ ⟨htype, rfl⟩
        exact ⟨htype, fun _ _ => by simpa using hresolved⟩
      · cases hdeclarations : pending.declarationsOf id with
        | nil =>
          refine (currentType_safe hid).mono fun _ _ _ h => ⟨h.1, fun _ hdeclares => ?_⟩
          exact absurd hdeclares (Pending.not_declares hdeclarations)
        | cons first rest =>
          have hmem := Pending.mem_of_declarationsOf hdeclarations
          have hnext : Resolves file length pending (symbol file pending limit (id :: active))
              (Resolve.symbol file pending limit (id :: active)) := by
            intro s₂ id₂ hid₂
            refine (ih (List.nodup_cons.mpr ⟨hnot, hnodup⟩) ?_ ?_ hid₂).mono fun _ _ _ h => h.1
            · exact List.forall_mem_cons.mpr ⟨⟨first, hmem⟩, hactive⟩
            · rw [List.length_cons]
              omega
          have hwordOf : pending.wordOf? id = first.word? := by
            rw [Pending.wordOf?, hdeclarations]
            rfl
          refine (declaredType_safe hnext (hs.declarations _ hmem)
            (hdeclarations ▸ hs.declarationsOf_fits id)).bind ?_
          rintro type s₂ hext₂ ⟨htype, hword⟩
          rw [← hwordOf] at hword
          refine (setType_safe (hext₂.program.hasSymbol hid) htype hword).bind ?_
          intro _ s₃ hext₃ hset
          refine (markResolved_safe fun word h => hset.trans (hword word h)).bind ?_
          rintro _ s₄ hext₄ ⟨hresolved, -⟩
          exact .pure ⟨(hext₃.program.trans hext₄.program).hasType htype, fun _ _ => hresolved⟩

/-- Resolving a symbol while no other is active is safe and leaves it resolved. -/
theorem fresh_safe {s : ResolveState} {id : SymbolId} (hid : s.program.HasSymbol id) :
    Safe (.resolving file length pending) (fresh file pending id) (Resolve.fresh file pending id) s
      fun type s' => s'.program.HasType type ∧ (pending.Declares id → id ∈ s'.resolved) := by
  have hlimit : pending.length < pending.length + 1 + ([] : List SymbolId).length := by simp
  refine (symbol_safe _ .nil nofun hlimit hid).mono fun _ _ _ h => ⟨h.1, h.2 ?_⟩
  exact List.not_mem_nil

/-- Symbols may be resolved safely wherever none is active. -/
theorem fresh_resolves :
    Resolves file length pending (fresh file pending) (Resolve.fresh file pending) :=
  fun _ _ hid => (fresh_safe hid).mono fun _ _ _ h => h.1

/-! ## Members of interfaces -/

/-- Adding the members of an interface is safe, and they are there afterwards. -/
theorem interfaceElements_safe {lookup : ScopeId → Identifier → Guarded ResolveState TypeId}
    {lookup' : TypeLookup} (h : Looks file length pending lookup lookup')
    {declarations : List Declaration}
    (hdeclarations : ∀ declaration ∈ declarations, declaration.Fits s.program length)
    {members : SymbolTable SymbolId} (hmembers : s.program.HasAll members) :
    Safe (.resolving file length pending) (interfaceElements file lookup declarations members)
      (Resolve.interfaceElements file lookup' declarations members) s
      fun members s' => s'.program.HasAll members := by
  induction declarations generalizing s members with
  | nil => exact .pure hmembers
  | cons declaration rest ih =>
    obtain ⟨hfirst, hrest⟩ := List.forall_mem_cons.mp hdeclarations
    cases declaration with
    | interface scope list =>
      refine (elements_safe h list s hfirst.1 hfirst.2 hmembers).bind fun _ s₁ hext₁ hfits => ?_
      exact ih (fun other hmem => (hrest other hmem).mono hext₁.program) hfits
    | variableDecl | function | typeAlias => exact ih hrest hmembers

/-- Giving an interface its members is safe. -/
theorem interfaceMembers_safe {id : SymbolId} (hid : s.program.HasSymbol id)
    (hsort : (s.program.symbol id).sort = .interface) :
    Safe (.resolving file length pending) (interfaceMembers file pending id)
      (Resolve.interfaceMembers file pending id) s fun _ _ => True := by
  refine .of_inv fun hs => ?_
  have hlooks : Looks file length pending _ _ := reference_looks fresh_resolves
  refine (interfaceElements_safe hlooks (hs.declarationsOf_fits id) (.empty _)).bind ?_
  refine fun members s₁ hext₁ hmembers => .of_inv fun hs₁ => ?_
  have hid₁ := hext₁.program.hasSymbol hid
  have htype := hs₁.program.symbol_type hid₁
  refine .peek (.found hid₁.symbol? (.found htype.get? (.step fun _ => ?_)))
  obtain ⟨hwell, hkeeps⟩ :=
    setMembers_wellFormed hs₁.program (s₁.program.symbol id).type hmembers
  refine ⟨⟨hwell, hkeeps.hasFile hs₁.file, ?_, ?_⟩,
    ⟨hkeeps.toExtends, rfl, List.subset_cons_self _ _⟩, trivial⟩
  · exact fun entry hentry => (hs₁.declarations entry hentry).mono hkeeps.toExtends
  · refine List.forall_mem_cons.mpr ⟨fun word hword => ?_, hs₁.words⟩
    rw [hs.wordOf?_interface hsort] at hword
    cases hword

/-! ## Assignments -/

/-- Narrowing known types is safe and gives a known type. -/
theorem narrowed_safe {s : Program} {declared assigned : TypeId} (hdeclared : s.HasType declared)
    (hassigned : s.HasType assigned) :
    Safe (.building True) (narrowed declared assigned) (Resolve.narrowed declared assigned) s
      fun id s' => s'.HasType id := by
  refine .of_inv fun hs => Safe.get.bind fun program s₁ _ h₁ => ?_
  obtain ⟨rfl, rfl⟩ := h₁
  refine .found hdeclared.get? ?_
  have hwithin := hs.get_within hdeclared
  simp only
  cases hdata : s₁.types.get declared with
  | union members =>
    rw [hdata] at hwithin
    have hall : ∀ id ∈ members ++ s₁.types.constituents assigned, s₁.HasType id := by
      intro id hid
      exact (List.mem_append.mp hid).elim (hwithin id) (hs.constituents hassigned id)
    refine .found hassigned.get? (.found (TypeTable.getAll?_eq hall) ?_)
    refine .ite (fun _ => ?_) fun _ => ?_
    · exact .pure hdeclared
    · exact unionOf_safe fun id hid => hwithin id (List.mem_filter.mp hid).1
  | _ => exact .pure hdeclared

/-- Recording an assignment is safe. -/
theorem assignment_safe {a : PendingAssignment}
    (ha : (Bound.assignment a).Fits s.program length) :
    Safe (.resolving file length pending) (assignment file pending a)
      (Resolve.assignment file pending a) s fun _ _ => True := by
  obtain ⟨hscope, htarget, hvalue⟩ := ha
  refine .of_inv fun hs => ?_
  obtain ⟨hlookup, hfound⟩ := hs.program.answers.lookupValue a.scope a.target.text hscope
  refine program_safe.bind fun program s₁ _ h₁ => ?_
  obtain ⟨rfl, rfl⟩ := h₁
  refine .found hlookup ?_
  cases hid : s₁.program.resolveValue? a.scope a.target.text with
  | none => exact compile_safe (report_safe hs.file htarget _)
  | some id =>
    have hsymbol := hfound id hid
    refine program_safe.bind fun program s₂ _ h₂ => ?_
    obtain ⟨rfl, rfl⟩ := h₂
    refine .found hsymbol.symbol? (.ite (fun _ => ?_) fun _ => .ite (fun _ => ?_) fun _ => ?_)
    · exact compile_safe (report_safe hs.file htarget _)
    · refine (valueType_safe fresh_resolves a.stop a.value hscope hvalue).bind ?_
      intro assigned s₃ hext₃ hassigned
      have hdeclared := hext₃.program.hasType (hs.program.symbol_type hsymbol)
      refine (compile_safe (narrowed_safe hdeclared hassigned)).bind fun type s₄ hext₄ htype => ?_
      have hext := hext₃.program.trans hext₄.program
      refine compile_safe (updateScope_safe (hext.hasScope hscope) ?_ ?_)
      · exact fun _ => ⟨rfl, rfl⟩
      · intro scope hfits
        refine { hfits with assignments := fun other hother => ?_ }
        rcases List.mem_append.mp hother with hold | hnew
        · exact hfits.assignments other hold
        · cases List.mem_singleton.mp hnew
          exact ⟨hext.hasSymbol hsymbol, htype⟩
    · exact .pure trivial

/-! ## Everything a file declares -/

/-- Declarations that fit are the symbols' own. -/
theorem pendingOf_of {program : Program} {bound : List Bound}
    (h : ∀ b ∈ bound, b.Fits program length) :
    ∀ entry ∈ Resolve.pendingOf bound, entry.2.Of program length entry.1 := by
  intro entry hentry
  obtain ⟨b, hb, heq⟩ := List.mem_filterMap.mp hentry
  cases b with
  | declaration id declaration =>
    cases heq
    exact h _ hb
  | assignment a => cases heq

/-- Everything a file declares is resolved, and some of what was bound is recorded, without
failing. -/
theorem recording_safe {bound recorded : List Bound} (hrecorded : recorded ⊆ bound)
    (hbound : ∀ b ∈ bound, b.Fits s.program length) :
    Safe (.resolving file length (Resolve.pendingOf bound)) (recording file bound recorded)
      (Resolve.recording file bound recorded) s
      fun _ s' => ∀ id, (Resolve.pendingOf bound).Declares id → id ∈ s'.resolved := by
  have hmono (s s' : ResolveState) (hext : s.Extends s')
      (h : ∀ b ∈ bound, b.Fits s.program length) : ∀ b ∈ bound, b.Fits s'.program length :=
    fun b hb => (h b hb).mono hext.program
  -- members of interfaces first, then the types of symbols, then assignments
  refine (Safe.forM (R := fun _ _ => True) _ hmono (fun _ _ _ _ h => h) hbound ?interfaces).bind ?_
  case interfaces =>
    intro id hid s _
    refine .of_inv fun hs => program_safe.bind fun program s' _ h' => ?_
    obtain ⟨rfl, rfl⟩ := h'
    have hsymbol := hs.hasSymbol_of_declares (Pending.declares_of_mem_symbols hid)
    refine .found hsymbol.symbol? (.ite (fun hsort => ?_) fun _ => .pure trivial)
    exact interfaceMembers_safe hsymbol hsort
  rintro _ s₁ _ ⟨hbound₁, -⟩
  refine (Safe.forM (R := fun id s => (Resolve.pendingOf bound).Declares id → id ∈ s.resolved) _
    hmono (fun _ _ _ (hext : ResolveState.Extends _ _) h hid => hext.resolved (h hid)) hbound₁
    ?symbols).bind ?_
  case symbols =>
    intro id hid s _
    refine .of_inv fun hs => ?_
    have hsymbol := hs.hasSymbol_of_declares (Pending.declares_of_mem_symbols hid)
    exact (fresh_safe hsymbol).bind fun _ _ _ h => .pure h.2
  rintro _ s₂ _ ⟨hbound₂, hresolved⟩
  refine (Safe.forM (R := fun _ _ => True) _ hmono (fun _ _ _ _ h => h) hbound₂
    ?assignments).mono ?_
  case assignments =>
    intro b hb s hfits
    cases b with
    | declaration => exact .pure trivial
    | assignment a => exact assignment_safe (hfits _ (hrecorded hb))
  intro _ s₃ hext₃ _ id hid
  exact hext₃.resolved (hresolved id (Pending.mem_symbols hid) hid)

/-- Everything a file declares is resolved without failing. -/
theorem everything_safe {bound : List Bound} (hbound : ∀ b ∈ bound, b.Fits s.program length) :
    Safe (.resolving file length (Resolve.pendingOf bound)) (everything file bound)
      (Resolve.everything file bound) s
      fun _ s' => ∀ id, (Resolve.pendingOf bound).Declares id → id ∈ s'.resolved :=
  recording_safe (List.Subset.refl bound) hbound

end Guarded

end ExpressionTyping
