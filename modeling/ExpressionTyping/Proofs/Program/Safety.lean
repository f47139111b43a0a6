import ExpressionTyping.Proofs.Grammar.FileCounter
import ExpressionTyping.Proofs.Program.SafeResolution

/-!
# Adding files never fails

A text is parsed, its names are bound and its symbols are resolved. Each of these steps goes wrong
nowhere on any text: the counter of the parse is not lowered below zero, bounds that are reported
are in order, and every look-up finds what it looks for. The program that results is well-formed, so
it answers every question about places it handed out, now and after any further files
(`Program.ofTexts_safe`).
-/

set_option autoImplicit false

namespace ExpressionTyping

/-- Binds the statements of a file in a scope of its own. -/
def Bind.wholeFile (file : SourceFile) : Compile (FileId × List Bound) := do
  let length := file.node.span.stop
  let id ← Compile.addFile file.name length
  let scope ← Compile.addScope id [] ⟨0, length⟩
  return (id, ← Bind.statements ⟨id, scope, scope, []⟩ file.statements)

namespace Program

/-! ## One file -/

/-- What a file hands on from binding to resolving, with its place and the program so far. -/
def boundIn (program : Program) (file : SourceFile) : (FileId × List Bound) × Program :=
  (Bind.wholeFile file).run program

/-- The state in which everything that a file declares is resolved. -/
def resolvedIn (program : Program) (file : SourceFile) : ResolveState :=
  let bound := program.boundIn file
  ((Resolve.everything bound.1.1 bound.1.2).run ⟨bound.2, []⟩).2

/-- Adding a file is binding it and then resolving what it declares. -/
theorem add_eq (program : Program) (file : SourceFile) :
    program.add file = ((program.boundIn file).1.1, (program.resolvedIn file).program) :=
  rfl

end Program

namespace Guarded

/-- Binding a placed file is safe and hands on what fits. -/
theorem wholeFile_safe {s : Program} {file : SourceFile} {text : List Char}
    (h : ∀ statement ∈ file.statements, statement.Placed text) :
    Safe (.building False) (wholeFile file) (Bind.wholeFile file) s fun result s' =>
      s'.HasFile result.1 ∧ ∀ b ∈ result.2, b.Fits s' text.length := by
  refine (addFile_safe _ _).bind fun id s₁ _ hfile => ?_
  refine (addScope_safe hfile (List.nil_subset _) nofun (Nat.zero_le _)).bind ?_
  rintro scope s₂ hkeeps₂ ⟨hfile₂, hscope₂⟩
  have hsite : Site.Fits s₂ ⟨id, scope, scope, []⟩ := by
    obtain ⟨own, hscope, henclosing⟩ := hscope₂
    exact ⟨hfile₂, ⟨own, hscope, henclosing⟩, (Program.HasScope.of_scope? hscope).1⟩
  refine (statements_safe hsite file.statements h).bind fun bound s₃ hkeeps₃ hbound => .pure ?_
  exact ⟨hkeeps₃.hasFile hsite.hasFile, hbound⟩

end Guarded

namespace Program

variable {program : Program} (h : program.WellFormed) {file : SourceFile} {text : List Char}
  (hplaced : ∀ statement ∈ file.statements, statement.Placed text)
include h hplaced

/-- What binding a parsed file in a well-formed program hands on refers to what is there. -/
theorem WellFormed.boundIn :
    (Guarded.wholeFile file).run program = some (program.boundIn file) ∧
      (program.boundIn file).2.WellFormed ∧ program.Builds False (program.boundIn file).2 ∧
      (program.boundIn file).2.HasFile (program.boundIn file).1.1 ∧
      ∀ b ∈ (program.boundIn file).1.2, b.Fits (program.boundIn file).2 text.length :=
  Guarded.wholeFile_safe hplaced h

/-- Everything that a parsed file declares in a well-formed program is resolved. -/
theorem WellFormed.resolvedIn :
    (Guarded.everything (program.boundIn file).1.1 (program.boundIn file).1.2).run
        ⟨(program.boundIn file).2, []⟩ = some ((), program.resolvedIn file) ∧
      (program.resolvedIn file).WellFormed (program.boundIn file).1.1 text.length
        (Resolve.pendingOf (program.boundIn file).1.2) ∧
      (program.boundIn file).2.Extends (program.resolvedIn file).program ∧
      (program.resolvedIn file).program.files = (program.boundIn file).2.files ∧
      ∀ id, (Resolve.pendingOf (program.boundIn file).1.2).Declares id →
        id ∈ (program.resolvedIn file).resolved := by
  obtain ⟨-, hwell, -, hfile, hbound⟩ := h.boundIn hplaced
  have hstart : ResolveState.WellFormed (program.boundIn file).1.1 text.length
      (Resolve.pendingOf (program.boundIn file).1.2) ⟨(program.boundIn file).2, []⟩ :=
    ⟨hwell, hfile, Guarded.pendingOf_of hbound, nofun⟩
  obtain ⟨hrun, hend, hext, hresolved⟩ := Guarded.everything_safe hbound hstart
  exact ⟨hrun, hend, hext.program, hext.files, hresolved⟩

/-- Adding a parsed file to a well-formed program does not fail. -/
theorem WellFormed.add :
    program.add? file = some (program.add file) ∧ (program.add file).2.WellFormed ∧
      program.Extends (program.add file).2 ∧ (program.add file).2.HasFile (program.add file).1 := by
  obtain ⟨hbind, -, hkeeps, -, -⟩ := h.boundIn hplaced
  obtain ⟨hresolve, hend, hext, -, -⟩ := h.resolvedIn hplaced
  rw [add_eq]
  refine ⟨?_, hend.program, hkeeps.toExtends.trans hext, hend.file⟩
  rw [add?, hbind]
  simp only [Option.bind_eq_bind, Option.bind_some, hresolve]
  rfl

end Program

/-! ## Files one after another -/

namespace Program

/-- Parses a text of a name and adds the tree. -/
def addText (program : Program) (source : String × String) : Program :=
  (program.add (SourceFile.parse source.1 source.2).tree).2

/-- The program that holds texts with their names, added in order. -/
def ofTexts (sources : List (String × String)) : Program :=
  sources.foldl addText Program.empty

/-- Parses a text with the counter of levels and adds the tree, with look-ups that fail. -/
def addText? (program : Program) (source : String × String) : Option Program := do
  let (parsed, _) ← SourceFile.parseCounted? source.1 source.2
  let (_, program) ← program.add? parsed.tree
  return program

/-- The program that holds texts, with the counter of levels and with look-ups that fail. -/
def ofTexts? (sources : List (String × String)) : Option Program :=
  sources.foldlM addText? Program.empty

variable {program : Program}

/-- Adding a text with look-ups that fail succeeds, does what adding it plainly does, and keeps a
program well-formed. -/
theorem WellFormed.addText (h : program.WellFormed) (source : String × String) :
    program.addText? source = some (program.addText source) ∧
      (program.addText source).WellFormed ∧ program.Extends (program.addText source) ∧
      program.files.size < (program.addText source).files.size := by
  obtain ⟨hadd, hwell, hext, hfile⟩ := h.add (SourceFile.parse_placed source.1 source.2).1
  rw [add_file] at hfile
  unfold Program.addText
  refine ⟨?_, hwell, hext, hfile⟩
  rw [addText?, SourceFile.parseCounted?_eq]
  simp only [Option.bind_eq_bind, Option.bind_some, hadd]
  rfl

/-- Adding texts to a well-formed program does not fail and only adds to it. -/
theorem WellFormed.addTexts (h : program.WellFormed) (sources : List (String × String)) :
    sources.foldlM addText? program = some (sources.foldl Program.addText program) ∧
      (sources.foldl Program.addText program).WellFormed ∧
      program.Extends (sources.foldl Program.addText program) ∧
      program.files.size + sources.length ≤ (sources.foldl Program.addText program).files.size := by
  induction sources generalizing program with
  | nil => exact ⟨rfl, h, .refl program, Nat.le_refl _⟩
  | cons source rest ih =>
    obtain ⟨hadd, hwell, hext, hsize⟩ := h.addText source
    obtain ⟨hadds, hwell', hext', hsize'⟩ := ih hwell
    rw [List.foldlM_cons, hadd, List.foldl_cons, List.length_cons]
    exact ⟨hadds, hwell', hext.trans hext', by omega⟩

/-- Parsing and adding texts, with or without errors in them, goes wrong nowhere, and in the program
that results nothing refers to a place where nothing stands. It answers the questions about every
place it has, all places it had before further texts were added are still there, and what binding
one more text hands on are declarations of symbols that have been declared somewhere. -/
theorem ofTexts_safe (sources : List (String × String)) :
    ofTexts? sources = some (ofTexts sources) ∧
    (ofTexts sources).WellFormed ∧
    (ofTexts sources).Answers ∧
    sources.length ≤ (ofTexts sources).files.size ∧
    (∀ more, (ofTexts sources).Extends (ofTexts (sources ++ more))) ∧
    ∀ name text,
      (∀ issue ∈ (SourceFile.parse name text).issues, issue.span.Within text.length) ∧
      ∀ id declaration,
        .declaration id declaration ∈
          ((ofTexts sources).boundIn (SourceFile.parse name text).tree).1.2 →
        ∃ symbol, ((ofTexts sources).boundIn (SourceFile.parse name text).tree).2.symbol? id =
            some symbol ∧ symbol.declarations ≠ [] := by
  obtain ⟨hadds, hwell, -, hsize⟩ := empty_wellFormed.addTexts sources
  refine ⟨hadds, hwell, hwell.answers, Nat.le_trans (Nat.le_add_left _ _) hsize, fun more => ?_,
    fun name text => ?_⟩
  · rw [ofTexts, ofTexts, List.foldl_append]
    exact (hwell.addTexts more).2.2.1
  · obtain ⟨hplaced, -, -, hissues⟩ := SourceFile.parse_placed name text
    rw [String.length_toList] at hissues
    refine ⟨hissues, fun id declaration hmem => ?_⟩
    obtain ⟨-, -, -, -, hbound⟩ := hwell.boundIn hplaced
    obtain ⟨_, ⟨symbol, hsymbol, -, hlocated⟩, -⟩ := (hbound _ hmem).located
    exact ⟨symbol, hsymbol, hlocated⟩

end Program

end ExpressionTyping
