import ExpressionTyping.Proofs.Grammar.Names
import ExpressionTyping.Proofs.Program.Duplicates
import ExpressionTyping.Proofs.Program.Reporting
import ExpressionTyping.Proofs.Program.Selecting

/-!
# Every unknown type is reported once

When a file is resolved, every symbol that it declares is, and none twice (`Course.once`). So the
names that are looked up are those in the declarations that give the symbols their types
(`Pending.effective`), each of them once, and names of values. In a file that is parsed without a
report no name is missing, so a name of a type that leads nowhere is reported exactly once, unless
it stands in a type that is refused because its name is taken, or in a declaration of a variable
that was declared before (`Program.unknown_types_reported`).
-/

set_option autoImplicit false

namespace ExpressionTyping

/-! ## The declarations of a file -/

namespace Pending

/-- The declarations that give the symbols of a file their types. -/
def effective (pending : Pending) : List Declaration :=
  pending.symbols.flatMap fun id => Declarations.effective (pending.declarationsOf id)

/-- The declarations of a file that declare a variable once more. -/
def repeated (pending : Pending) : List Declaration :=
  pending.symbols.flatMap fun id => Declarations.repeated (pending.declarationsOf id)

/-- Declarations are put together by their symbols. -/
theorem flatMap_declarationsOf (pending : Pending) {ids : List SymbolId} (hnodup : ids.Nodup) :
    (ids.flatMap pending.declarationsOf).Perm
      ((pending.filter fun entry => entry.1 ∈ ids).map Prod.snd) := by
  induction ids with
  | nil => simp
  | cons id ids ih =>
    obtain ⟨hnew, hnodup⟩ := List.nodup_cons.mp hnodup
    have hfirst : (pending.filter fun entry => entry.1 ∈ id :: ids).filter (fun entry =>
        entry.1 = id) = pending.filter fun entry => entry.1 = id := by
      rw [List.filter_filter]
      refine List.filter_congr fun entry _ => ?_
      by_cases heq : entry.1 = id <;> simp [heq]
    have hothers : (pending.filter fun entry => entry.1 ∈ id :: ids).filter (fun entry =>
        !decide (entry.1 = id)) = pending.filter fun entry => entry.1 ∈ ids := by
      rw [List.filter_filter]
      refine List.filter_congr fun entry _ => ?_
      by_cases heq : entry.1 = id <;> simp [heq, hnew]
    have hsplit := (List.filter_append_perm (fun entry => entry.1 = id)
      (pending.filter fun entry => entry.1 ∈ id :: ids)).map Prod.snd
    rw [hfirst, hothers, List.map_append] at hsplit
    exact ((ih hnodup).append_left _).trans hsplit

/-- Each symbol is listed once. -/
theorem nodup_symbols (pending : Pending) : pending.symbols.Nodup :=
  nodup_eraseDups _

/-- Apart from repeated variables, all declarations are effective. -/
theorem effective_append_repeated (pending : Pending) :
    (pending.effective ++ pending.repeated).Perm (pending.map Prod.snd) := by
  have hall : (pending.filter fun entry => entry.1 ∈ pending.symbols) = pending :=
    List.filter_eq_self.mpr fun entry hmem => decide_eq_true (mem_symbols ⟨_, hmem⟩)
  calc
    (pending.effective ++ pending.repeated).Perm (pending.symbols.flatMap fun id =>
        Declarations.effective (pending.declarationsOf id) ++
          Declarations.repeated (pending.declarationsOf id)) := List.flatMap_append_perm _ _ _
    List.Perm _ (pending.symbols.flatMap pending.declarationsOf) :=
      .flatMap_left _ fun id _ => Declarations.effective_append_repeated _
    List.Perm _ ((pending.filter fun entry => entry.1 ∈ pending.symbols).map Prod.snd) :=
      pending.flatMap_declarationsOf pending.nodup_symbols
    List.Perm _ (pending.map Prod.snd) := by rw [hall]

/-- A declaration that gives a symbol its type was handed on under a symbol. -/
theorem mem_of_mem_effective {pending : Pending} {made : Declaration}
    (h : made ∈ pending.effective) : ∃ id, (id, made) ∈ pending := by
  have hmem := pending.effective_append_repeated.mem_iff.mp (List.mem_append_left _ h)
  obtain ⟨⟨id, _⟩, hentry, rfl⟩ := List.mem_map.mp hmem
  exact ⟨id, hentry⟩

/-- Whether a symbol asks for anything when it is resolved: interfaces do not. -/
def isAsking (pending : Pending) (id : SymbolId) : Bool :=
  (pending.declarationsOf id).any fun made => !made.isInterface

/-- A symbol that is said to ask for nothing asks for no names. -/
theorem asks_of_not_isAsking {pending : Pending} {id : SymbolId}
    (h : pending.isAsking id = false) : pending.asks id = .names [] := by
  refine Declarations.asks_of_interface fun made hmade => ?_
  simpa using List.any_eq_false.mp h made hmade

/-- A symbol that asks for something is declared. -/
theorem declares_of_isAsking {pending : Pending} {id : SymbolId} (h : pending.isAsking id = true) :
    pending.Declares id := by
  obtain ⟨made, hmade, -⟩ := List.any_eq_true.mp h
  exact ⟨made, mem_of_mem_declarationsOf hmade⟩

/-- What is reported of the values that the symbols of a file are declared to be. -/
def initialReports (program : Program) (file : String) (pending : Pending) :
    List FileIssue :=
  pending.symbols.flatMap fun id =>
    program.unknownValues file (((pending.declarationsOf id).take 1).flatMap Declaration.values)

/-- What is looked up for all symbols, and for their members, are the names in the effective
declarations, and the values that symbols are declared to be. -/
theorem Regular.reports_perm {program : Program} {pending : Pending}
    (h : pending.Regular program) (file : String) :
    ((pending.symbols.flatMap fun id => (pending.asks id).reports program file) ++
        pending.symbols.flatMap (pending.members program file)).Perm
      (pending.effective.flatMap (Declaration.reports program file) ++
        pending.initialReports program file) := by
  have hsymbol (id : SymbolId) :
      (pending.asks id).reports program file ++ pending.members program file id =
        (Declarations.effective (pending.declarationsOf id)).flatMap
            (Declaration.reports program file) ++
          program.unknownValues file
            (((pending.declarationsOf id).take 1).flatMap Declaration.values) :=
    Declarations.reports_eq (h.isOf_of_mem id) (h.length_le_one id) program file
  refine (List.flatMap_append_perm _ _ _).trans ?_
  rw [List.flatMap_congr fun id _ => hsymbol id, effective, List.flatMap_assoc]
  exact (List.flatMap_append_perm _ _ _).symm

end Pending

/-! ## Everything is resolved once -/

namespace ResolveState

variable {file : FileId} {pending : Pending} {active : List SymbolId} {query : Query}
  {base s s' : ResolveState}

/-- No symbol of a kind gets resolved a second time. -/
theorem Course.once (h : s.Course file pending active query s') {p : SymbolId → Bool}
    (hnodup : (s.resolved.filter p).Nodup) : (s'.resolved.filter p).Nodup := by
  induction h with
  | quiet h | plain _ h =>
    rw [h.resolved]
    exact hnodup
  | append _ _ ih ih' => exact ih' (ih hnodup)
  | found _ _ _ ih | named _ _ ih => exact ih hnodup
  | @settles active id _ _ _ s s₁ _ hresolved _ h _ _ ih =>
    have hnew : id ∉ s₁.resolved := fun hmem => hresolved (h.waits id List.mem_cons_self hmem)
    change ((id :: s₁.resolved).filter p).Nodup
    rw [List.filter_cons]
    split
    · exact List.nodup_cons.mpr ⟨fun hmem => hnew (List.mem_of_mem_filter hmem), ih hnodup⟩
    · exact ih hnodup
  | _ => exact hnodup

end ResolveState

/-- When everything is resolved, no symbol that asks for something got resolved twice. -/
theorem Guarded.recording_once {file : FileId} {bound : List Bound} {program : Program}
    {s' : ResolveState} (hregular : (Resolve.pendingOf bound).Regular program)
    (hrun : (recording file bound bound).run ⟨program, []⟩ = some ((), s')) :
    (s'.resolved.filter (Resolve.pendingOf bound).isAsking).Nodup := by
  refine (recording_keep hregular.sorted hrun
    (motive := fun s => (s.resolved.filter (Resolve.pendingOf bound).isAsking).Nodup)
    List.nodup_nil ?_ ?_ ?_).2
  · exact fun _ _ _ _ hcourse hnodup => hcourse.once hnodup
  · intro id s₁ s₂ hbase hsort hshapes hnodup
    have hquiet : ¬(Resolve.pendingOf bound).isAsking id = true := by
      intro hasks
      have hid := hregular.sorted.hasSymbol_of_declares (Pending.declares_of_isAsking hasks)
      obtain ⟨made, hmade, hother⟩ := List.any_eq_true.mp hasks
      rw [(hbase.symbol hid).sort] at hsort
      rw [Declaration.isInterface_eq (hregular.isOf_of_mem id made hmade), hsort] at hother
      cases hother
    rw [hshapes.order, List.filter_cons_of_neg hquiet]
    exact hnodup
  · intro a s₁ s₂ _ _ hrecorded hnodup
    cases hrecorded with
    | unknown | constant | other => exact hnodup
    | value _ _ _ hvalue _ _ hsame =>
      rw [hsame]
      exact hvalue.once hnodup

/-! ## Names that are there, in scopes that are there -/

/-- The scopes in which the names of a fitting declaration are looked up are there. -/
theorem Declaration.Fits.hasScope_of_mem_names {program : Program} {length : Nat}
    {made : Declaration} (h : made.Fits program length) {counts : Identifier → Bool}
    {use : ScopeId × Identifier} (huse : use ∈ made.names counts) : program.HasScope use.1 := by
  cases made with
  | variableDecl | function | interface | typeAlias =>
    obtain ⟨name, -, rfl⟩ := List.mem_map.mp huse
    exact h.1

/-- The scopes in which the values of what was bound are looked up are there. -/
theorem Bound.Fits.hasScope_of_mem_values {program : Program} {length : Nat} {b : Bound}
    (h : b.Fits program length) {use : ScopeId × Identifier} (huse : use ∈ b.values) :
    program.HasScope use.1 := by
  cases b with
  | declaration id made =>
    cases made with
    | variableDecl scope constant type? initializer =>
      cases type? with
      | some type => cases huse
      | none =>
        cases initializer with
        | none => cases huse
        | some initializer =>
          obtain ⟨name, -, rfl⟩ := List.mem_map.mp huse
          exact h.fits.1
    | function | interface | typeAlias => cases huse
  | assignment a =>
    rcases List.mem_cons.mp huse with rfl | huse
    · exact h.1
    · obtain ⟨name, -, rfl⟩ := List.mem_map.mp huse
      exact h.1

/-- Where every name is there, counting skips none of the uses. -/
theorem AllThere.filter_eq {counted all : List Identifier} (h : AllThere counted all)
    (scope : ScopeId) :
    (counted.map (scope, ·)).filter (·.2.isThere) = all.map (scope, ·) := by
  rw [h.same]
  refine List.filter_eq_self.mpr fun use huse => ?_
  obtain ⟨name, hname, rfl⟩ := List.mem_map.mp huse
  exact h.there name hname

/-- What is reported of the names in a declaration that has all its names. -/
theorem Visit.Named.reports_eq {visit : Visit} (h : visit.Named) {scope : ScopeId}
    {made : Declaration} (hmade : visit.made? scope = some made) (program : Program)
    (file : String) :
    made.reports program file = program.unknownTypes file (made.names fun _ => true) := by
  refine congrArg (program.unknownTypes file) ?_
  cases visit with
  | expression => cases hmade
  | variableDecl statement declaration =>
    cases hmade
    exact (annotationNames_named h.2).filter_eq scope
  | function declaration =>
    cases hmade
    exact ((parameterNames_named h.2.1).append (annotationNames_named h.2.2)).filter_eq scope
  | interface declaration =>
    cases hmade
    exact (elementNames_named h.2).filter_eq scope
  | typeAlias declaration =>
    cases hmade
    exact h.2.names.filter_eq scope

/-! ## Compiled files -/

/-- Leaving out what lists nothing does not change what is listed. -/
theorem flatMap_filter_of_nil {α β : Type} {f : α → List β} {p : α → Bool}
    (h : ∀ a, p a = false → f a = []) (list : List α) :
    (list.filter p).flatMap f = list.flatMap f := by
  induction list with
  | nil => rfl
  | cons a list ih =>
    rw [List.filter_cons, List.flatMap_cons, ← ih]
    split
    · rw [List.flatMap_cons]
    · next hnot => rw [h a (by simpa using hnot), List.nil_append]

namespace Program

/-- The reports of unknown types are reports of unknown names. -/
theorem isUnknownName_of_mem_unknownTypes {program : Program} {file : String}
    {uses : List (ScopeId × Identifier)} {issue : FileIssue}
    (h : issue ∈ program.unknownTypes file uses) : issue.isUnknownName = true := by
  obtain ⟨use, -, rfl⟩ := List.mem_map.mp h
  rfl

/-- The reports of unknown values are reports of unknown names. -/
theorem ReportsValues.isUnknownName {program : Program} {file : String}
    {uses : List (ScopeId × Identifier)} {reports : List FileIssue}
    (h : program.ReportsValues file uses reports) {issue : FileIssue} (hissue : issue ∈ reports) :
    issue.isUnknownName = true := by
  obtain ⟨use, -, -, rfl⟩ := h issue hissue
  rfl

/-- The names of values that the symbols of a file are declared to be are looked up. -/
theorem initial_reports (program : Program) (file : String) (bound : List Bound) :
    program.ReportsValues file (bound.flatMap Bound.values)
      ((Resolve.pendingOf bound).initialReports program file) := by
  intro issue hissue
  obtain ⟨id, -, hissue⟩ := List.mem_flatMap.mp hissue
  refine unknownValues_reports.mono (fun use huse => ?_) issue hissue
  obtain ⟨made, hmade, huse⟩ := List.mem_flatMap.mp huse
  have hmem := Pending.mem_of_mem_declarationsOf (List.mem_of_mem_take hmade)
  exact List.mem_flatMap.mpr ⟨_, Resolve.mem_pendingOf.mp hmem, huse⟩

namespace Compiled

variable {program : Program} (h : program.Compiled) {file : SourceFile} {text : List Char}
  (hplaced : ∀ statement ∈ file.statements, statement.Placed text)
include h hplaced

/-- What is reported for the symbols of a file that are resolved is what is reported for the
symbols of the file. -/
theorem due_perm :
    let base : ResolveState := ⟨(program.boundIn file).2, []⟩
    let pending := Resolve.pendingOf (program.boundIn file).1.2
    (base.due ⟨program.files.size⟩ pending (program.resolvedIn file)).Perm
      (pending.symbols.flatMap fun id => (pending.asks id).reports (program.boundIn file).2
        ((program.boundIn file).2.fileName ⟨program.files.size⟩)) := by
  intro base pending
  obtain ⟨hrun, -, -, hresolved⟩ := h.recordedIn hplaced (List.Subset.refl _)
  rw [program.recordedIn_bound file] at hrun hresolved
  have honce : ((program.resolvedIn file).resolved.filter pending.isAsking).Nodup :=
    Guarded.recording_once (h.regular hplaced) hrun
  have hsame : ((program.resolvedIn file).resolved.filter pending.isAsking).Perm
      (pending.symbols.filter pending.isAsking) := by
    refine (List.perm_ext_iff_of_nodup honce (pending.nodup_symbols.filter _)).mpr fun id => ?_
    rw [List.mem_filter, List.mem_filter]
    refine and_congr_left fun hasks => ?_
    have hid := Pending.declares_of_isAsking hasks
    exact iff_of_true (hresolved id hid) (Pending.mem_symbols hid)
  have hnone (id : SymbolId) (hnot : pending.isAsking id = false) :
      (pending.asks id).reports (program.boundIn file).2
        ((program.boundIn file).2.fileName ⟨program.files.size⟩) = [] := by
    rw [Pending.asks_of_not_isAsking hnot]
    rfl
  rw [ResolveState.due, ← flatMap_filter_of_nil hnone,
    ← flatMap_filter_of_nil hnone pending.symbols]
  exact hsame.flatMap_right _

/-- When a file is resolved, the names that are reported are the names of types in its effective
declarations that lead nowhere, each once, and names of values. -/
theorem unknownNames_reported :
    let named := (program.boundIn file).2
    let bound := (program.boundIn file).1.2
    ∃ resolved values, (program.add file).2.issues = named.issues ++ resolved ∧
      named.ReportsValues file.name (bound.flatMap Bound.values) values ∧
      (resolved.filter FileIssue.isUnknownName).Perm
        ((Resolve.pendingOf bound).effective.flatMap (Declaration.reports named file.name) ++
          values) := by
  intro named bound
  obtain ⟨hname, -⟩ := boundIn_hands h.sorted file
  have hregular := h.regular hplaced
  obtain ⟨hrun, -⟩ := h.recordedIn hplaced (List.Subset.refl _)
  rw [program.recordedIn_bound file] at hrun
  obtain ⟨assigned, hassigned, htallies⟩ := Guarded.recording_tallies hregular rfl hrun
  have hdue := h.due_perm hplaced
  rw [hname] at hassigned htallies hdue
  have hvalues := (initial_reports named file.name bound).append hassigned
  refine ⟨ResolveState.reportsSince ⟨named, []⟩ (program.resolvedIn file), _,
    htallies.advances.reports_eq, hvalues, ?_⟩
  have hlooked := ((hdue.append_right _).trans (hregular.reports_perm file.name)).append_right
    assigned
  rw [List.append_assoc, List.append_assoc] at hlooked
  refine .trans (List.perm_iff_count.mpr fun issue => ?_) hlooked
  by_cases hissue : issue.isUnknownName = true
  · have hcount := htallies.count issue hissue
    rw [ResolveState.times, htallies.advances.reports_eq, List.count_append, Nat.add_assoc]
      at hcount
    rw [List.count_filter hissue, List.count_append]
    exact Nat.add_left_cancel hcount
  · have hother {reports : List FileIssue}
        (hreports : ∀ issue ∈ reports, issue.isUnknownName = true) : reports.count issue = 0 :=
      List.count_eq_zero.mpr fun hmem => hissue (hreports issue hmem)
    rw [hlooked.count_eq, hother fun _ hmem => List.of_mem_filter hmem, hother]
    intro issue hmem
    rcases List.mem_append.mp hmem with hmem | hmem
    · obtain ⟨made, -, hmem⟩ := List.mem_flatMap.mp hmem
      exact isUnknownName_of_mem_unknownTypes hmem
    · exact hvalues.isUnknownName hmem

/-- The names of types in declarations of the file lead nowhere if they did when its names were
bound. -/
theorem unknownTypes_add {declarations : List Declaration}
    (hdeclarations : ∀ made ∈ declarations,
      ∃ id, (id, made) ∈ Resolve.pendingOf (program.boundIn file).1.2) (name : String) :
    let uses := declarations.flatMap (Declaration.names fun _ => true)
    (program.add file).2.unknownTypes name uses =
      (program.boundIn file).2.unknownTypes name uses := by
  intro uses
  obtain ⟨-, -, -, -, hbound⟩ := h.wellFormed.boundIn hplaced
  refine congrArg (List.map _) (List.filter_congr fun use huse => ?_)
  obtain ⟨made, hmade, huse⟩ := List.mem_flatMap.mp huse
  obtain ⟨id, hmem⟩ := hdeclarations made hmade
  have hscope := (hbound _ (Resolve.mem_pendingOf.mp hmem)).fits.hasScope_of_mem_names huse
  rw [isUnknownType, isUnknownType, (h.resolves_eq hplaced (.refl _) hscope use.2.text).2]

/-- A value that is not known after binding is not known in the end. -/
theorem reportsValues_add {name : String} {reports : List FileIssue}
    (hreports : (program.boundIn file).2.ReportsValues name
      ((program.boundIn file).1.2.flatMap Bound.values) reports) :
    (program.add file).2.ReportsValues name
      ((program.boundIn file).1.2.flatMap Bound.values) reports := by
  obtain ⟨-, -, -, -, hbound⟩ := h.wellFormed.boundIn hplaced
  intro issue hissue
  obtain ⟨use, huse, hnone, heq⟩ := hreports issue hissue
  obtain ⟨b, hb, hmem⟩ := List.mem_flatMap.mp huse
  have hscope := (hbound b hb).hasScope_of_mem_values hmem
  rw [← (h.resolves_eq hplaced (.refl _) hscope use.2.text).1] at hnone
  exact ⟨use, huse, hnone, heq⟩

/-- What comes of a visit when names are bound is still so when the file is resolved. -/
theorem fits_add {handling : Handling} (hfits : handling.Fits file.name (program.boundIn file).2) :
    handling.Fits file.name (program.add file).2 := by
  obtain ⟨hgoesOn, -⟩ := h.resolvedIn hplaced
  obtain ⟨-, -, hextends, -⟩ := h.recordedIn hplaced (List.Subset.refl _)
  refine hfits.mono hextends.symbols fun {scope key id} hkey => ?_
  rw [← hkey]
  cases key with
  | value name => exact congrArg (SymbolTable.get? · name) (hgoesOn.scope scope).values
  | type name => exact congrArg (SymbolTable.get? · name) (hgoesOn.scope scope).types

/-- The scopes that a file opens stay as they were opened. -/
theorem hasBlock_add {block : BlockScope} (hblock : block ∈ program.openedBy file) :
    (program.add file).2.HasBlock block := by
  obtain ⟨-, -, hextends, -⟩ := h.recordedIn hplaced (List.Subset.refl _)
  exact ((program.boundIn_binds file).1.held block hblock).mono hextends.scopes

/-- Names are looked for from where they stand outward. -/
theorem outward_add {met : Site × Visit} (hmet : met ∈ program.placedVisits file) :
    (program.add file).2.outward met.1.scope = met.1.scope :: met.1.enclosing := by
  obtain ⟨block, hblock, hid, henclosing⟩ := site_of_mem_placedVisits program file hmet
  rw [outward, ← hid, (h.hasBlock_add hplaced hblock).enclosing, henclosing]

/-- In a file with all its names, every name of a type in an effective declaration that leads
nowhere is reported, and no other name apart from names of values. -/
theorem unknownTypes_reported (hnamed : ∀ visit ∈ file.visits, visit.Named)
    (hordered : (file.visits.filterMap Visit.number?).Pairwise (· < ·)) :
    let bound := (program.boundIn file).1.2
    let pending := Resolve.pendingOf bound
    let after := (program.add file).2
    ∃ (handlings : List Handling) (resolved values : List FileIssue),
      handlings.map Handling.met = program.placedVisits file ∧
      handlings.flatMap Handling.bound = bound ∧
      handlings.flatMap Handling.issues =
        (program.repeatedNames file).map (·.name.taken file.name) ∧
      (∀ handling ∈ handlings, handling.Fits file.name after ∧ handling.visit.Named ∧
        after.outward handling.site.scope = handling.site.scope :: handling.site.enclosing) ∧
      (pending.effective ++ pending.repeated).Perm (pending.map Prod.snd) ∧
      after.issues = program.issues ++ handlings.flatMap Handling.issues ++ resolved ∧
      (resolved.filter FileIssue.isUnknownName).Perm
        (after.unknownTypes file.name
            (pending.effective.flatMap (Declaration.names fun _ => true)) ++ values) ∧
      after.ReportsValues file.name (bound.flatMap Bound.values) values := by
  intro bound pending after
  obtain ⟨-, handlings, hmet, hbound, hissues, hfits⟩ := boundIn_hands h.sorted file
  obtain ⟨resolved, values, hresolved, hvalues, hperm⟩ := h.unknownNames_reported hplaced
  have hvisits : handlings.map Handling.visit = file.visits := by
    rw [SourceFile.visits, ← placedVisitsOf_visits program.nextSite (program.scopes.size + 1),
      ← placedVisits, ← hmet, List.map_map]
    rfl
  have hthere (handling : Handling) (hmem : handling ∈ handlings) : handling.visit.Named :=
    hnamed _ (hvisits ▸ List.mem_map_of_mem hmem)
  have hreports (made : Declaration) (hmade : made ∈ pending.effective) :
      made.reports (program.boundIn file).2 file.name =
        (program.boundIn file).2.unknownTypes file.name (made.names fun _ => true) := by
    obtain ⟨id, hpending⟩ := Pending.mem_of_mem_effective hmade
    have hmem : .declaration id made ∈ (program.boundIn file).1.2 :=
      Resolve.mem_pendingOf.mp hpending
    rw [← hbound] at hmem
    obtain ⟨handling, hhandling, hmem⟩ := List.mem_flatMap.mp hmem
    obtain ⟨-, hvisit, -⟩ := (hfits handling hhandling).of_mem hmem
    exact (hthere handling hhandling).reports_eq hvisit _ _
  have htaken : handlings.flatMap Handling.issues =
      (program.repeatedNames file).map (·.name.taken file.name) := by
    have haccounts := (boundIn_accounts h.sorted hordered).issues
    refine List.append_cancel_left (hissues.symm.trans (haccounts.trans ?_))
    rw [fileName, withFile, Array.getElem?_push_size]
    rfl
  refine ⟨handlings, resolved, values, hmet, hbound, htaken, fun handling hmem =>
    ⟨h.fits_add hplaced (hfits handling hmem), hthere handling hmem, ?_⟩,
    pending.effective_append_repeated, hissues ▸ hresolved, ?_, h.reportsValues_add hplaced hvalues⟩
  · exact h.outward_add hplaced (hmet ▸ List.mem_map_of_mem hmem)
  · rw [h.unknownTypes_add hplaced fun _ => Pending.mem_of_mem_effective, unknownTypes_flatMap,
      ← List.flatMap_congr hreports]
    exact hperm

end Compiled

/-- In a text that is parsed without a report, every declaration is handed on in the scope in which it
stands, apart from types whose name is taken there; these are reported as duplicates. Of what is
handed on, every name of a type that leads nowhere, at any depth, is reported exactly once, at its
span, when the text is resolved in a program of compiled texts. Nothing is reported of a declaration
of a variable that was declared before, and all other unknown names that are reported are names of
values. -/
theorem unknown_types_reported (before : List (String × String)) (name text : String)
    (hquiet : (SourceFile.parse name text).issues = []) :
    let host := ofTexts before
    let file := (SourceFile.parse name text).tree
    let bound := (host.boundIn file).1.2
    let pending := Resolve.pendingOf bound
    let program := (host.add file).2
    (∀ block ∈ host.openedBy file, program.HasBlock block) ∧
      ∃ (handlings : List Handling) (resolved values : List FileIssue),
        handlings.map Handling.met = host.placedVisits file ∧
        handlings.flatMap Handling.bound = bound ∧
        handlings.flatMap Handling.issues =
          (host.repeatedNames file).map (·.name.taken file.name) ∧
        (∀ handling ∈ handlings, handling.Fits file.name program ∧ handling.visit.Named ∧
          program.outward handling.site.scope = handling.site.scope :: handling.site.enclosing) ∧
        (pending.effective ++ pending.repeated).Perm (pending.map Prod.snd) ∧
        program.issues = host.issues ++ handlings.flatMap Handling.issues ++ resolved ∧
        (resolved.filter FileIssue.isUnknownName).Perm
          (program.unknownTypes file.name
              (pending.effective.flatMap (Declaration.names fun _ => true)) ++ values) ∧
        program.ReportsValues file.name (bound.flatMap Bound.values) values := by
  obtain ⟨hcompiled, -⟩ := ofTexts_compiled before
  obtain ⟨hplaced, hordered, -⟩ := SourceFile.parse_placed name text
  exact ⟨fun _ => hcompiled.hasBlock_add hplaced,
    hcompiled.unknownTypes_reported hplaced (SourceFile.parse_named hquiet) hordered⟩

/-- A name that is not known is reported where an interface mentions it and where an alias does. -/
theorem unknown_types_reported_twice :
    let file := (SourceFile.parse "test.d.ts"
      "interface I \x7b p: Missing; \x7d\ntype A = Missing | I;\n").tree
    let program := ((ofTexts []).add file).2
    ∃ earlier resolved, program.issues = earlier ++ resolved ∧
      (resolved.filter FileIssue.isUnknownName).Perm
        [⟨"test.d.ts", ⟨⟨17, 24⟩, .unknownName "Missing"⟩⟩,
          ⟨"test.d.ts", ⟨⟨37, 44⟩, .unknownName "Missing"⟩⟩] := by
  intro file program
  have hfacts : (SourceFile.parse "test.d.ts"
        "interface I \x7b p: Missing; \x7d\ntype A = Missing | I;\n").issues = [] ∧
      ((ofTexts []).boundIn file).1.2.flatMap Bound.values = [] ∧
      program.unknownTypes file.name
          ((Resolve.pendingOf ((ofTexts []).boundIn file).1.2).effective.flatMap
            (Declaration.names fun _ => true)) =
        [⟨"test.d.ts", ⟨⟨17, 24⟩, .unknownName "Missing"⟩⟩,
          ⟨"test.d.ts", ⟨⟨37, 44⟩, .unknownName "Missing"⟩⟩] := by
    decide +kernel
  simp only [file, program] at hfacts ⊢
  obtain ⟨hquiet, hnoValues, hunknown⟩ := hfacts
  obtain ⟨-, _, resolved, values, -, -, -, -, -, hissues, hperm, hvalues⟩ :=
    unknown_types_reported [] "test.d.ts" _ hquiet
  rw [hnoValues] at hvalues
  have hvaluesNil : values = [] := List.eq_nil_iff_forall_not_mem.mpr fun issue hmem => by
    obtain ⟨use, huse, -⟩ := hvalues issue hmem
    cases huse
  rw [hunknown, hvaluesNil, List.append_nil] at hperm
  exact ⟨_, resolved, hissues, hperm⟩

/-- A name that is not known is not reported in the second declaration of a variable, nor in a type
whose name is taken, though both texts are parsed without a report. -/
theorem unknown_type_not_reported :
    ["var x: number; var x: Missing;", "type A = number; type A = Missing;"].Forall fun text =>
      let file := (SourceFile.parse "test.d.ts" text).tree
      let program := (Program.empty.add file).2
      (SourceFile.parse "test.d.ts" text).issues = [] ∧
        (∃ visit ∈ file.visits, ∃ made ∈ visit.made? ⟨0⟩,
          ∃ use ∈ made.names fun _ => true, program.isUnknownType use = true) ∧
        ∀ issue ∈ program.issues, issue.isUnknownName = false := by
  decide +kernel

end Program

end ExpressionTyping
