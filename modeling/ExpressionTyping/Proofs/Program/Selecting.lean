import ExpressionTyping.Proofs.Program.Interning
import ExpressionTyping.Proofs.Program.Narrowing

/-!
# Narrowing only selects

A variable of a declared union is read, at a location, as the union or as what an assignment left of
it. What is left are some of the members, in the order in which they are declared, and never none
(`Resolve.narrowed_selects`). Unions stand in the table without repetitions and are never taken
apart again, so this stays so for whatever is compiled later (`TypeTable.Selects.kept`).

A read that differs from the declared type goes back to an assignment to that very symbol, in a
scope around the location, that ended at the location or before it (`Program.typeAt_selects`).
-/

set_option autoImplicit false

namespace ExpressionTyping

/-! ## Selections of a union -/

/-- A type is made of some of the types that a declared one is made of, in their order, and of one
at least. -/
structure TypeTable.Selects (table : TypeTable) (declared type : TypeId) : Prop where
  some : table.constituents type ≠ []
  ordered : (table.constituents type).Sublist (table.constituents declared)

/-- A union is made of its members. -/
theorem TypeTable.constituents_of_union {table : TypeTable} {id : TypeId} {members : List TypeId}
    (h : table.get id = .union members) : table.constituents id = members := by
  unfold constituents
  rw [h]

/-- A type that is no union is made of itself. -/
theorem TypeTable.constituents_of_not_union {table : TypeTable} {id : TypeId}
    (h : ∀ members, table.get id ≠ .union members) : table.constituents id = [id] := by
  unfold constituents
  split
  · exact absurd ‹_› (h _)
  · rfl

/-- Every type is made of something. -/
theorem TypeTable.Canonical.constituents_ne_nil {table : TypeTable} (h : table.Canonical)
    (id : TypeId) : table.constituents id ≠ [] := by
  cases hget : table.get id with
  | union members =>
    have hfits := h.unions _ _ (entries_of_get hget nofun)
    rw [constituents_of_union hget]
    exact List.ne_nil_of_length_pos (Nat.lt_of_lt_of_le Nat.zero_lt_two hfits.several)
  | _ =>
    rw [constituents_of_not_union (by rw [hget]; rintro _ ⟨⟩)]
    exact List.cons_ne_nil _ _

namespace TypeTable.Selects

variable {table later : TypeTable} {declared type : TypeId}

/-- A declared type selects all of itself. -/
theorem refl (h : table.Canonical) (declared : TypeId) : table.Selects declared declared :=
  ⟨h.constituents_ne_nil declared, .refl _⟩

/-- A selection stays one when types are added. -/
theorem kept (h : table.Selects declared type) (hkept : Kept table.entries later.entries)
    (hdeclared : declared.index < table.entries.size) (htype : type.index < table.entries.size) :
    later.Selects declared type := by
  obtain ⟨hsome, hordered⟩ := h
  rw [← constituents_kept hkept htype] at hsome hordered
  rw [← constituents_kept hkept hdeclared] at hordered
  exact ⟨hsome, hordered⟩

end TypeTable.Selects

/-! ## One assignment -/

/-- What a declared union is narrowed to for a value is a selection of it. -/
theorem Resolve.narrowed_selects {s : Program} {declared assigned : TypeId} {members : List TypeId}
    (hcanonical : s.types.Canonical) (hunion : s.types.get declared = .union members) :
    let narrowed := (narrowed declared assigned).run s
    narrowed.2.types.Selects declared narrowed.1 := by
  intro narrowed
  have hrun : narrowed = _ := narrowed_run hunion
  by_cases hempty : (s.types.keptMembers members assigned).isEmpty = true
  · rw [hrun, if_pos hempty]
    exact .refl hcanonical declared
  rw [hrun, if_neg hempty]
  have hplace := (Array.getElem?_eq_some_iff.mp (TypeTable.entries_of_get hunion nofun)).1
  have hmade := constituents_kept_union hcanonical hunion hempty
  have hdeclared := TypeTable.constituents_kept
    (s.types.kept_unionOf (s.types.keptMembers members assigned)) hplace
  constructor
  · rw [hmade]
    exact fun hnil => hempty (List.isEmpty_iff.mpr hnil)
  · rw [hmade, hdeclared, TypeTable.constituents_of_union hunion]
    exact List.filter_sublist

namespace ResolveState.Ready

variable {file : FileId} {length : Nat} {pending : Pending} {s : ResolveState}
  (h : s.Ready file length pending) {a : PendingAssignment}
  (ha : (Bound.assignment a).Fits s.program length)
include h ha

/-- What an assignment makes is what the declared type is narrowed to. -/
theorem made_eq {assigned : TypeId} {made : Assignment}
    (hmade : s.Assigns file pending a assigned made) (hsymbol : s.program.HasSymbol made.symbol) :
    made.type = (Resolve.narrowedBy file pending a s made.symbol).1 ∧
      ((Resolve.assignment file pending a).run s).2.program.types =
        (Resolve.narrowedBy file pending a s made.symbol).2.types := by
  rcases Resolve.assignment_cases file pending a s with hsame | ⟨id, hfound, heq⟩
  · have hrecorded := hmade.recorded
    rw [Program.scope_eq_of_scopes hsame] at hrecorded
    exact absurd (List.self_eq_append_right.mp hrecorded) (List.cons_ne_nil _ _)
  cases hmade.symbol.symm.trans hfound
  have hrecorded := hmade.recorded
  rw [heq, h.assign_recorded ha hsymbol] at hrecorded
  have hlast := List.append_cancel_left hrecorded
  exact ⟨(congrArg Assignment.type (List.singleton_inj.mp hlast)).symm,
    congrArg (fun s => s.program.types) heq⟩

/-- The type of what an assignment to a union makes is a selection of the union. -/
theorem made_selects {assigned : TypeId} {made : Assignment}
    (hmade : s.Assigns file pending a assigned made) (hsymbol : s.program.HasSymbol made.symbol)
    {members : List TypeId}
    (hunion : s.program.types.get (s.program.symbol made.symbol).type = .union members) :
    ((Resolve.assignment file pending a).run s).2.program.types.Selects
      (s.program.symbol made.symbol).type made.type := by
  obtain ⟨-, -, -, hsigns⟩ := h.assignedValue ha
  obtain ⟨htype, htypes⟩ := h.made_eq ha hmade hsymbol
  have hdeclared := h.wellFormed.program.symbol_type hsymbol
  rw [← TypeTable.get_eq_of_kept hsigns.kept hdeclared] at hunion
  rw [htype, htypes]
  exact Resolve.narrowed_selects (h.canonical.reaches hsigns.reaches) hunion

end ResolveState.Ready

/-! ## Compiled files -/

/-- Seeking with functions that agree on a list finds the same. -/
theorem findSome?_eq_of_forall_mem {α β : Type} {f g : α → Option β} {list : List α}
    (h : ∀ a ∈ list, f a = g a) : list.findSome? f = list.findSome? g := by
  induction list with
  | nil => rfl
  | cons first rest ih =>
    obtain ⟨hfirst, hrest⟩ := List.forall_mem_cons.mp h
    rw [List.findSome?_cons, List.findSome?_cons, hfirst, ih hrest]

namespace Program

/-- A scope stands inside of the same scopes in a program that has grown. -/
theorem Grows.outward_eq {program later : Program} (h : program.Grows later) {scope : ScopeId}
    (hscope : program.HasScope scope) : later.outward scope = program.outward scope := by
  unfold outward
  rw [h.scope_eq hscope]

/-- A name is found along scopes as before when a program grows. -/
theorem Grows.findSome?_outward {program later : Program} (h : program.Grows later)
    (hwell : program.WellFormed) {scope : ScopeId} (hscope : program.HasScope scope)
    (found : Scope → Option SymbolId) :
    (later.outward scope).findSome? (fun id => found (later.scope id)) =
      (program.outward scope).findSome? fun id => found (program.scope id) := by
  rw [h.outward_eq hscope]
  refine findSome?_eq_of_forall_mem fun id hid => ?_
  rw [h.scope_eq (hwell.hasScope_outward hscope id hid)]

/-- A name means the same value when a program grows. -/
theorem Grows.resolveValue?_eq {program later : Program} (h : program.Grows later)
    (hwell : program.WellFormed) {scope : ScopeId} (hscope : program.HasScope scope)
    (name : String) : later.resolveValue? scope name = program.resolveValue? scope name :=
  h.findSome?_outward hwell hscope fun scope => scope.values.get? name

/-- A name means the same type when a program grows. -/
theorem Grows.resolveType?_eq {program later : Program} (h : program.Grows later)
    (hwell : program.WellFormed) {scope : ScopeId} (hscope : program.HasScope scope)
    (name : String) : later.resolveType? scope name = program.resolveType? scope name :=
  h.findSome?_outward hwell hscope fun scope => scope.types.get? name

namespace Compiled

variable {program : Program} (h : program.Compiled) {file : SourceFile} {text : List Char}
  (hplaced : ∀ statement ∈ file.statements, statement.Placed text)
include h hplaced

/-- Names mean what they meant when the names of the file were bound. -/
theorem resolves_eq {all : Program} (hgrows : (program.add file).2.Grows all) {scope : ScopeId}
    (hscope : (program.boundIn file).2.HasScope scope) (name : String) :
    all.resolveValue? scope name = (program.boundIn file).2.resolveValue? scope name ∧
      all.resolveType? scope name = (program.boundIn file).2.resolveType? scope name := by
  obtain ⟨hgoesOn, -⟩ := h.resolvedIn hplaced
  have hwell := (h.add hplaced).wellFormed
  have hkept : (program.add file).2.HasScope scope := hgoesOn.hasScope hscope
  exact ⟨(hgrows.resolveValue?_eq hwell hkept name).trans (hgoesOn.resolveValue?_eq scope name),
    (hgrows.resolveType?_eq hwell hkept name).trans (hgoesOn.resolveType?_eq scope name)⟩

/-- Whatever is recorded in a scope of a compiled file comes from an assignment of the file in that
scope to the symbol, and selects what the symbol is declared with. -/
theorem selects_of_mem {all : Program} (hgrows : (program.add file).2.Grows all)
    {block : BlockScope} (hblock : block ∈ program.openedBy file) {made : Assignment}
    (hmade : made ∈ (all.scope block.id).assignments) :
    (∃ a, .assignment a ∈ (program.boundIn file).1.2 ∧ a.scope = block.id ∧
        a.stop = made.offset ∧
        all.resolveValue? a.scope a.target.text = some made.symbol) ∧
      ∀ members, all.types.get (all.symbol made.symbol).type = .union members →
        all.types.Selects (all.symbol made.symbol).type made.type := by
  have hadded := h.add hplaced
  obtain ⟨own, hown, -⟩ := (h.add_opens hplaced).held block hblock
  obtain ⟨hhas, -⟩ := HasScope.of_scope? hown
  rw [hgrows.scope_eq hhas] at hmade
  obtain ⟨earlier, a, later, assigned, hbound, hscope, hmakes⟩ :=
    h.recorded_of_mem hplaced (List.Subset.refl _) hblock hmade
  have hmem : .assignment a ∈ (program.boundIn file).1.2 := by
    rw [hbound]
    exact List.mem_append_cons_self
  obtain ⟨hready, -, hrecords₁, hrecords₂⟩ := h.recordedIn_around hplaced hbound
  have hrecords := hrecords₁.trans hrecords₂
  have hsymbol := hmakes.hasSymbol
  constructor
  · refine ⟨a, hmem, hscope, hmakes.assigns.offset.symm, ?_⟩
    rw [hscope, hgrows.resolveValue?_eq hadded.wellFormed hhas, ← hscope]
    exact (hrecords.resolveValue?_eq _ _).trans hmakes.assigns.symbol
  intro members hunion
  have htype : (all.symbol made.symbol).type =
      ((program.recordedIn file earlier).program.symbol made.symbol).type := by
    rw [hgrows.symbol_eq (hrecords.hasSymbol hsymbol)]
    exact hrecords.type_eq (hready.settled _ hsymbol)
  have hkept := hrecords₂.kept.trans hgrows.types
  have hdeclared := hready.wellFormed.program.symbol_type hsymbol
  have hsub : earlier ++ [.assignment a] ⊆ (program.boundIn file).1.2 := by
    rw [hbound]
    exact List.append_subset.mpr
      ⟨List.subset_append_left _ _,
        List.cons_subset.mpr ⟨List.mem_append_cons_self, List.nil_subset _⟩⟩
  obtain ⟨ha, hafter⟩ := h.recordedIn_assignment hplaced hsub
  rw [htype, TypeTable.get_eq_of_kept (hrecords₁.kept.trans hkept) hdeclared] at hunion
  have hselects := hready.made_selects ha hmakes.assigns hsymbol hunion
  rw [← hafter] at hselects
  rw [htype]
  exact hselects.kept hkept (Nat.lt_of_lt_of_le hdeclared hrecords₁.kept.size_le) hmakes.hasType

end Compiled

/-! ## Reading a symbol at a location -/

/-- A symbol is read as it is declared, or as an assignment to it in a scope around the location
left it that ended at the location or before. -/
theorem typeAt_cases (program : Program) (id : SymbolId) (location : Location) :
    program.typeAt id location = (program.symbol id).type ∨
      (∃ members, program.types.get (program.symbol id).type = .union members) ∧
        ∃ scope ∈ program.scopesAt location, ∃ made ∈ (program.scope scope).assignments,
          made.symbol = id ∧ made.offset ≤ location.offset ∧
            program.typeAt id location = made.type := by
  rw [typeAt_eq]
  split
  · rename_i hunion
    cases hlatest : latest? (program.assignmentsTo id location) with
    | none => exact .inl rfl
    | some made =>
      obtain ⟨scope, hscope, hmade⟩ := List.mem_flatMap.mp (mem_of_latest? hlatest)
      obtain ⟨hmem, hmatches⟩ := List.mem_filter.mp hmade
      simp only [Bool.and_eq_true, decide_eq_true_eq] at hmatches
      exact .inr ⟨(TypeData.flags_has_union_iff _).mp hunion, scope, hscope, made, hmem,
        hmatches.1, hmatches.2, rfl⟩
  · exact .inl rfl

/-- A file of compiled texts comes from one of them. -/
theorem exists_text_of_mem_scopesAt {sources : List (String × String)} {location : Location}
    {scope : ScopeId} (h : scope ∈ (ofTexts sources).scopesAt location) :
    ∃ before name text after, sources = before ++ (name, text) :: after ∧
      location.file = ⟨before.length⟩ ∧
      ∃ info, (ofTexts sources).file? location.file = some info ∧ scope ∈ info.scopes := by
  unfold scopesAt at h
  split at h
  · rename_i info hinfo
    have hlt : location.file.index < sources.length := by
      rw [← (ofTexts_compiled sources).2]
      exact (Array.getElem?_eq_some_iff.mp hinfo).1
    refine ⟨sources.take location.file.index, sources[location.file.index].1,
      sources[location.file.index].2, sources.drop (location.file.index + 1), ?_, ?_,
      info, hinfo, (List.mem_filter.mp h).1⟩
    · rw [Prod.mk.eta, ← List.drop_eq_getElem_cons hlt, List.take_append_drop]
    · rw [List.length_take, Nat.min_eq_left (Nat.le_of_lt hlt)]
  · cases h

/-- A symbol of compiled texts is read as it is declared, or it is declared with a union of which an
assignment in a scope around the location, that ended at the location or before, selects some
members. -/
theorem typeAt_origin (sources : List (String × String)) (id : SymbolId) (location : Location) :
    let program := ofTexts sources
    program.typeAt id location = (program.symbol id).type ∨
      ∃ members, program.types.get (program.symbol id).type = .union members ∧
        program.types.Selects (program.symbol id).type (program.typeAt id location) ∧
        ∃ before name text after, sources = before ++ (name, text) :: after ∧
          location.file = ⟨before.length⟩ ∧
          ∃ a, .assignment a ∈
              ((ofTexts before).boundIn (SourceFile.parse name text).tree).1.2 ∧
            a.scope ∈ program.scopesAt location ∧ a.stop ≤ location.offset ∧
            program.resolveValue? a.scope a.target.text = some id := by
  intro program
  refine (program.typeAt_cases id location).imp_right ?_
  rintro ⟨⟨members, hunion⟩, scope, hscope, made, hmade, rfl, hoffset, htype⟩
  obtain ⟨before, name, text, after, hsources, hfile, info, hinfo, hlisted⟩ :=
    exists_text_of_mem_scopesAt hscope
  obtain ⟨hbefore, hsize⟩ := ofTexts_compiled before
  have hplaced := (SourceFile.parse_placed name text).1
  have hgrows : ((ofTexts before).add (SourceFile.parse name text).tree).2.Grows program := by
    obtain ⟨-, hgrows, -⟩ := (hbefore.add hplaced).addTexts after
    rw [show program = _ from (congrArg ofTexts hsources).trans
      (ofTexts_append before (name, text) after)]
    exact hgrows
  obtain ⟨block, hblock, rfl⟩ : ∃ block ∈
      (ofTexts before).openedBy (SourceFile.parse name text).tree, block.id = scope := by
    have hopens := ((hbefore.add_opens hplaced).mono hgrows).listed
    rw [hsize, ← hfile, hinfo] at hopens
    rw [(Prod.mk.inj (Option.some.inj hopens)).2] at hlisted
    exact List.mem_map.mp hlisted
  obtain ⟨⟨a, hbound, hat, hstop, hresolves⟩, hselects⟩ :=
    hbefore.selects_of_mem hplaced hgrows hblock hmade
  rw [htype]
  refine ⟨members, hunion, hselects members hunion, before, name, text, after, hsources, hfile, a,
    hbound, ?_, ?_, hresolves⟩
  · rw [hat]
    exact hscope
  · rw [hstop]
    exact hoffset

/-- At any location of compiled texts, which may have errors, a symbol that is not declared with a
union is read as it is declared. A declared union is read as some of its members, at least one, in
the order in which they are declared. What is read differs from what is declared only if an
assignment to that symbol, in a scope around the location, ended at the location or before. -/
theorem typeAt_selects (sources : List (String × String)) (id : SymbolId) (location : Location) :
    let program := ofTexts sources
    let declared := (program.symbol id).type
    let type := program.typeAt id location
    ((∀ members, program.types.get declared ≠ .union members) → type = declared) ∧
    (∀ members, program.types.get declared = .union members →
      program.types.constituents type ≠ [] ∧
        (program.types.constituents type).Sublist members) ∧
    (type ≠ declared → ∃ before name text after, sources = before ++ (name, text) :: after ∧
      location.file = ⟨before.length⟩ ∧
      ∃ a, .assignment a ∈
          ((ofTexts before).boundIn (SourceFile.parse name text).tree).1.2 ∧
        a.scope ∈ program.scopesAt location ∧ a.stop ≤ location.offset ∧
        program.resolveValue? a.scope a.target.text = some id) := by
  intro program declared type
  have hcompiled := (ofTexts_compiled sources).1
  have hcanonical := TypeTable.initial_canonical.reaches hcompiled.reaches
  rcases typeAt_origin sources id location with hsame | ⟨members, hunion, hselects, horigin⟩
  · refine ⟨fun _ => hsame, fun members hunion => ?_, fun hne => absurd hsame hne⟩
    rw [show type = declared from hsame, TypeTable.constituents_of_union hunion]
    refine ⟨?_, .refl _⟩
    rw [← TypeTable.constituents_of_union hunion]
    exact hcanonical.constituents_ne_nil declared
  refine ⟨fun hnone => absurd hunion (hnone members), fun members' hmembers => ?_, fun _ => horigin⟩
  have hordered := hselects.ordered
  rw [TypeTable.constituents_of_union hmembers] at hordered
  exact ⟨hselects.some, hordered⟩

/-- A variable of a union of strings and numbers is read as a number once it is assigned one. -/
theorem typeAt_selects_number :
    let program := ofTexts [("file", "let x: string | number; x = 1;")]
    let type := program.typeAt ⟨1⟩ ⟨⟨0⟩, 30⟩
    type = .ofWord .number ∧ program.types.constituents type ≠ [] ∧
      (program.types.constituents type).Sublist [.ofWord .string, .ofWord .number] ∧
      ∃ a : PendingAssignment, a.scope ∈ program.scopesAt ⟨⟨0⟩, 30⟩ ∧ a.stop ≤ 30 ∧
        program.resolveValue? a.scope a.target.text = some ⟨1⟩ := by
  intro program type
  obtain ⟨-, hselects, hassigned⟩ :=
    typeAt_selects [("file", "let x: string | number; x = 1;")] ⟨1⟩ ⟨⟨0⟩, 30⟩
  have htype : type = .ofWord .number ∧ type ≠ (program.symbol ⟨1⟩).type ∧
      program.types.get (program.symbol ⟨1⟩).type = .union [.ofWord .string, .ofWord .number] := by
    decide +kernel
  obtain ⟨hsome, hordered⟩ := hselects _ htype.2.2
  obtain ⟨_, _, _, _, -, -, a, -, ha⟩ := hassigned htype.2.1
  exact ⟨htype.1, hsome, hordered, a, ha⟩

end Program

end ExpressionTyping
