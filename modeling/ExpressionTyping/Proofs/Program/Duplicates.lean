import ExpressionTyping.Proofs.Program.Circularity
import ExpressionTyping.Proofs.Program.DeclaredNames
import ExpressionTyping.Proofs.Program.Narrowing

/-!
# Duplicate declarations

Binding the names of a file starts in a scope without names, so what the program knows of them is
what `Bind.statements_accounts` tells (`Program.boundIn_accounts`). Resolution neither changes where
a name leads nor where it is declared (`ResolveState.GoesOn.knows`), and reports no name as taken
(`Program.Compiled.resolvedIn_taken`).
-/

set_option autoImplicit false

namespace ExpressionTyping

/-! ## Reports of taken names -/

/-- Whether an issue is that a name is taken. -/
def FileIssue.isTaken (issue : FileIssue) : Bool :=
  match issue.issue.problem with
  | .duplicateName _ => true
  | _ => false

namespace ResolveState

variable {file : FileId} {pending : Pending} {active : List SymbolId} {query : Query}
  {base s s' : ResolveState}

/-- Since some state no name was reported as taken. -/
def NoneTaken (base s : ResolveState) : Prop :=
  ∀ issue ∈ base.reportsSince s, issue.isTaken = false

/-- No name has been reported as taken where nothing is reported. -/
theorem NoneTaken.same (h : NoneTaken base s) (hissues : s'.program.issues = s.program.issues) :
    NoneTaken base s' := by
  unfold NoneTaken
  rw [reportsSince_eq hissues]
  exact h

/-- A report of another problem reports no name as taken. -/
theorem NoneTaken.reported (h : NoneTaken base s) (hbase : base.Advances s) (file : FileId)
    (span : Span) {problem : Problem} (hproblem : FileIssue.isTaken ⟨s.program.fileName file,
      ⟨span, problem⟩⟩ = false) : NoneTaken base (s.reported file span problem) :=
  hbase.forall_reported h hproblem

/-- Names that lead nowhere and aliases are reported while symbols are resolved, and nothing else. -/
theorem Course.noneTaken (h : s.Course file pending active query s') (hbase : base.Advances s)
    (hnone : NoneTaken base s) : NoneTaken base s' := by
  induction h with
  | quiet h | plain _ h => exact hnone.same h.issues
  | append h _ ih ih' => exact ih' (hbase.trans h.steady.advances) (ih hbase hnone)
  | found _ _ _ ih | named _ _ ih => exact ih hbase hnone
  | unknown | unnamed | circular => exact hnone.reported hbase _ _ rfl
  | settles _ _ _ _ _ _ ih => exact (ih hbase hnone).same rfl
  | missing | builtIn | waiting | settled => exact hnone

/-! ## Names while symbols are resolved -/

/-- Resolution keeps what is known of names. -/
theorem GoesOn.knows (h : s.GoesOn s') {file : FileId} {scope : ScopeId} {key : Key}
    {names : List DeclaredName} (hknows : s.program.Knows file scope key names) :
    s'.program.Knows file scope key names := by
  have hget : (s'.program.scope scope).get? key = (s.program.scope scope).get? key := by
    cases key with
    | value name => exact congrArg (SymbolTable.get? · name) (h.scope scope).values
    | type name => exact congrArg (SymbolTable.get? · name) (h.scope scope).types
  cases names with
  | nil => exact hget.trans hknows
  | cons first later =>
    obtain ⟨id, symbol, hid, hsymbol, hname, hsort, hdeclarations, hnumber⟩ := hknows
    obtain ⟨hhas, rfl⟩ := Program.HasSymbol.of_symbol? hsymbol
    have hgrows := h.symbol hhas
    refine ⟨id, s'.program.symbol id, hget.trans hid, (h.hasSymbol hhas).symbol?,
      hgrows.name.trans hname, hgrows.sort.trans hsort,
      (h.declarations id hhas).trans hdeclarations, ?_⟩
    unfold Program.symbolOf?
    rw [h.files]
    exact hnumber

end ResolveState

/-! ## Whole files -/

namespace Program

variable {program : Program} {file : SourceFile} {text : List Char}

/-- When the names of a file are bound, those that are taken are reported and the others lead to
what they were declared as first. -/
theorem boundIn_accounts (h : program.Sorted)
    (hordered : (file.visits.filterMap Visit.number?).Pairwise (· < ·)) :
    (program.withFile file).Accounts ⟨program.files.size⟩ (program.declaredNames file)
      (program.boundIn file).2 := by
  let site : Site :=
    ⟨⟨program.files.size⟩, ⟨program.scopes.size⟩, ⟨program.scopes.size⟩, []⟩
  have hopens := Bind.addScope_binds ⟨program.files.size⟩ [] ⟨0, file.node.span.stop⟩
    (program.withFile file)
  have hstart : (program.withFile file).Accounts ⟨program.files.size⟩ []
      (program.withFile file) :=
    { sorted := h.withFile file
      hasFile := by
        show program.files.size < (program.files.push _).size
        rw [Array.size_push]
        exact Nat.lt_succ_self _
      fileName := rfl
      issues := (List.append_nil _).symm
      size := Nat.le_refl _
      knows := fun scope key hscope => by
        show ((program.withFile file).scope scope).get? key = none
        rw [scope_of_le hscope, get?_default] }
  have hopened := hstart.opens [] ⟨0, file.node.span.stop⟩
  have htop : (⟨program.scopes.size⟩ : ScopeId).index <
      ((Compile.addScope ⟨program.files.size⟩ [] ⟨0, file.node.span.stop⟩).run
        (program.withFile file)).2.scopes.size := by
    rw [hopens.size]
    exact Nat.lt_succ_self _
  have hsite : site.OpenedSince (program.withFile file)
      ((Compile.addScope ⟨program.files.size⟩ [] ⟨0, file.node.span.stop⟩).run
        (program.withFile file)).2 :=
    ⟨⟨Nat.le_refl _, htop⟩, ⟨Nat.le_refl _, htop⟩⟩
  have hbound := Bind.statements_accounts file.statements site hopened hsite
  rw [hopens.size] at hbound
  refine hbound ?_
  have hapart := hordered.sublist
    (declaredNamesOf_numbers site (program.scopes.size + 1) file.statements)
  exact hapart.imp fun hlt => Nat.ne_of_lt hlt

namespace Compiled

variable (h : program.Compiled) (hplaced : ∀ statement ∈ file.statements, statement.Placed text)
include h hplaced

/-- No name is reported as taken while a file is resolved. -/
theorem resolvedIn_taken :
    ∃ others, (program.resolvedIn file).program.issues = (program.boundIn file).2.issues ++ others ∧
      ∀ issue ∈ others, issue.isTaken = false := by
  obtain ⟨hrun, -⟩ := h.recordedIn hplaced (List.Subset.refl _)
  rw [program.recordedIn_bound file] at hrun
  let base : ResolveState := ⟨(program.boundIn file).2, []⟩
  have hstart : ResolveState.NoneTaken base base := by
    intro issue hissue
    rw [ResolveState.reportsSince, List.drop_length] at hissue
    cases hissue
  suffices hkeeps : base.Advances (program.resolvedIn file) ∧
      ResolveState.NoneTaken base (program.resolvedIn file) from
    ⟨_, hkeeps.1.reports_eq, hkeeps.2⟩
  refine Guarded.recording_keep (h.sorted.boundIn file) hrun
    (motive := ResolveState.NoneTaken base) hstart ?_ ?_ ?_
  · exact fun query s₁ s₂ hbase hcourse hnone => hcourse.noneTaken hbase hnone
  · exact fun id s₁ s₂ _ _ hshapes hnone => hnone.same hshapes.issues
  · rintro a s₁ s₂ - hbase hrecorded hnone
    cases hrecorded with
    | unknown | constant => exact hnone.reported hbase _ _ rfl
    | other => exact hnone
    | value _ _ _ hvalue _ hsame _ => exact (hvalue.noneTaken hbase hnone).same hsame

/-- When a file is added, its duplicate declarations are reported, and the names in its scopes lead
to what they were declared as first. -/
theorem add_accounts (hordered : (file.visits.filterMap Visit.number?).Pairwise (· < ·)) :
    (∃ others, (program.add file).2.issues =
        program.issues ++ (program.repeatedNames file).map (·.name.taken file.name) ++ others ∧
        ∀ issue ∈ others, issue.isTaken = false) ∧
      (∀ block ∈ program.openedBy file, (program.add file).2.HasBlock block) ∧
      ∀ (scope : ScopeId) (key : Key), program.scopes.size ≤ scope.index →
        (program.add file).2.Knows ⟨program.files.size⟩ scope key
          ((program.declaredNames file).filter (DeclaredName.declares scope key)) := by
  obtain ⟨hgoesOn, -⟩ := h.resolvedIn hplaced
  have haccounts := boundIn_accounts h.sorted hordered
  have hname : (program.withFile file).fileName ⟨program.files.size⟩ = file.name := by
    rw [fileName, withFile, Array.getElem?_push_size]
    rfl
  obtain ⟨others, hothers, hnone⟩ := h.resolvedIn_taken hplaced
  refine ⟨⟨others, ?_, hnone⟩, fun block hblock => ?_, fun scope key hscope =>
    hgoesOn.knows (haccounts.knows scope key hscope)⟩
  · rw [add_eq, hothers, haccounts.issues, hname]
    rfl
  · exact ((program.boundIn_binds file).1.held block hblock).mono
      fun index scope hscope => by
        obtain ⟨later, hlater, hkeeps⟩ := hgoesOn.scopes index scope hscope
        exact ⟨later, hlater, hkeeps.toGrows⟩

end Compiled

/-- Of the names that a text declares in the scopes of its blocks, variables of `var` in the scope
of the file, those are reported as duplicates whose first declaration is of another sort, or of a
sort whose declarations do not add to each other. Every name leads to the symbol of its first
declaration, and this symbol is declared there and where later declarations add to it. -/
theorem duplicates_reported (before : List (String × String)) (name text : String) :
    let host := ofTexts before
    let file := (SourceFile.parse name text).tree
    let program := (host.add file).2
    host.add? file = some (host.add file) ∧
      (∃ others, program.issues =
        host.issues ++ (host.repeatedNames file).map (·.name.taken file.name) ++ others ∧
        ∀ issue ∈ others, issue.isTaken = false) ∧
      (∀ block ∈ host.openedBy file, program.HasBlock block) ∧
      ∀ (scope : ScopeId) (key : Key), host.scopes.size ≤ scope.index →
        program.Knows ⟨host.files.size⟩ scope key
          ((host.declaredNames file).filter (DeclaredName.declares scope key)) := by
  obtain ⟨hcompiled, -⟩ := ofTexts_compiled before
  obtain ⟨hplaced, hordered, -⟩ := SourceFile.parse_placed name text
  exact ⟨(hcompiled.wellFormed.add hplaced).1, hcompiled.add_accounts hplaced hordered⟩

/-- Of these only the variable `a` in the block, which belongs to the file, is a duplicate. -/
example : (Program.empty.repeatedNames (SourceFile.parse "test.d.ts"
    "let a;\n\x7b let b; var a; var b; \x7d\nvar b;\n").tree).map (·.name.node.span) =
      [⟨20, 21⟩] := by
  decide +kernel

end Program

end ExpressionTyping
