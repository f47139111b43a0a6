import ExpressionTyping.Proofs.Program.Safety
import ExpressionTyping.Proofs.Program.Signatures

/-!
# What compiling a file leaves

Compiling a file first binds its names, in a scope of its own, and then resolves what they were
declared with. The first is one run of `Program.Binds`, the second one of `ResolveState.GoesOn`, and
what holds of programs between files is `Program.Compiled`.
-/

set_option autoImplicit false

namespace ExpressionTyping

namespace Program

variable {program : Program} {file : SourceFile} {text : List Char}

/-! ## Binding a file -/

/-- A program with a file in which nothing is bound yet. -/
def withFile (program : Program) (file : SourceFile) : Program :=
  { program with files := program.files.push ⟨file.name, file.node.span.stop, [], []⟩ }

/-- The scopes that a file opens in a program: its own, and then those of its blocks. -/
def openedBy (program : Program) (file : SourceFile) : List BlockScope :=
  ⟨⟨program.scopes.size⟩, [], ⟨0, file.node.span.stop⟩⟩ ::
    blocksOf [⟨program.scopes.size⟩] (program.scopes.size + 1) file.statements

/-- Opening a file keeps values and types apart. -/
theorem Sorted.withFile (h : program.Sorted) (file : SourceFile) : (program.withFile file).Sorted :=
  h.of_scopes (.refl Symbol.Grows.refl _) (fun _ _ => rfl) fun _ => rfl

/-- Binding a file opens the scopes of its blocks, and hands each declaration on under a symbol of
its sort. -/
theorem boundIn_binds (program : Program) (file : SourceFile) :
    (program.withFile file).Binds ⟨program.files.size⟩ (program.boundIn file).2
        (program.openedBy file) ∧
      (program.Sorted → Bind.Kinds (program.boundIn file).2 (program.boundIn file).1.2) := by
  have hopened := Bind.addScope_binds ⟨program.files.size⟩ [] ⟨0, file.node.span.stop⟩
    (program.withFile file)
  obtain ⟨hbound, hkinds⟩ := Bind.statements_binds
    ⟨⟨program.files.size⟩, ⟨program.scopes.size⟩, ⟨program.scopes.size⟩, []⟩ file.statements
    ((Compile.addScope ⟨program.files.size⟩ [] ⟨0, file.node.span.stop⟩).run
      (program.withFile file)).2
  rw [hopened.size] at hbound
  exact ⟨hopened.trans hbound, fun hs => hkinds (hopened.sorted (hs.withFile file))⟩

/-! ## Resolving a file -/

/-- Resolving starts with values and types told apart. -/
theorem Sorted.boundIn (h : program.Sorted) (file : SourceFile) :
    ResolveState.Sorted (Resolve.pendingOf (program.boundIn file).1.2)
      ⟨(program.boundIn file).2, []⟩ where
  names := (program.boundIn_binds file).1.sorted (h.withFile file)
  kinds entry hentry := by
    obtain ⟨b, hb, heq⟩ := List.mem_filterMap.mp hentry
    cases b with
    | declaration id made =>
      cases heq
      exact (program.boundIn_binds file).2 h id made hb
    | assignment a => cases heq

/-- What compiling files leaves: nothing refers to a place where nothing stands, values and types
are told apart, interfaces have types of their own, and the table of types came about in steps. -/
structure Compiled (program : Program) : Prop where
  wellFormed : program.WellFormed
  sound : program.Sound
  sorted : program.Sorted
  tidy : program.Tidy
  reaches : TypeTable.initial.Reaches program.types

/-- The program without files is compiled. -/
theorem empty_compiled : Program.empty.Compiled :=
  ⟨empty_wellFormed, empty_sound, empty_sorted, empty_tidy, .refl⟩

namespace Compiled

variable (h : program.Compiled)
include h

/-- Binding a file keeps a compiled program tidy. -/
theorem boundIn_tidy (file : SourceFile) : (program.boundIn file).2.Tidy :=
  (program.boundIn_binds file).1.tidy (h.tidy.same rfl rfl)

/-- Everything that a parsed file declares is resolved. -/
theorem resolvedIn_explains (hplaced : ∀ statement ∈ file.statements, statement.Placed text) :
    ResolveState.Explains ⟨program.files.size⟩ (Resolve.pendingOf (program.boundIn file).1.2)
        ⟨(program.boundIn file).2, []⟩ (program.resolvedIn file) ∧
      ∀ id, (Resolve.pendingOf (program.boundIn file).1.2).Declares id →
        id ∈ (program.resolvedIn file).resolved := by
  obtain ⟨hrun, -, -, -, hresolved⟩ := h.wellFormed.resolvedIn hplaced
  exact ⟨Guarded.everything_ends (h.sorted.boundIn file) (h.boundIn_tidy file) hrun, hresolved⟩

/-- Everything that a parsed file declares is resolved, and its functions have the signatures of
their declarations. -/
theorem resolvedIn (hplaced : ∀ statement ∈ file.statements, statement.Placed text) :
    ResolveState.GoesOn ⟨(program.boundIn file).2, []⟩ (program.resolvedIn file) ∧
      (program.resolvedIn file).Sorted (Resolve.pendingOf (program.boundIn file).1.2) ∧
      ∀ id, (Resolve.pendingOf (program.boundIn file).1.2).Declares id →
        ((program.resolvedIn file).program.symbol id).sort.isType = true ∨
          (program.resolvedIn file).Signed ⟨program.files.size⟩
            (Resolve.pendingOf (program.boundIn file).1.2) [] id := by
  obtain ⟨hexplains, hresolved⟩ := h.resolvedIn_explains hplaced
  exact ⟨hexplains.toGoesOn, hexplains.sorted, fun id hid =>
    (hexplains.signed id (hresolved id hid)).resolve_left List.not_mem_nil⟩

/-- Adding a placed file to a compiled program gives a compiled one. -/
theorem add (hplaced : ∀ statement ∈ file.statements, statement.Placed text) :
    (program.add file).2.Compiled := by
  obtain ⟨hexplains, -⟩ := h.resolvedIn_explains hplaced
  exact ⟨(h.wellFormed.add hplaced).2.1, h.sound.add file, hexplains.sorted.names, hexplains.tidy,
    (h.reaches.trans (program.boundIn_binds file).1.reaches).trans hexplains.reaches⟩

/-- A placed file that is added is one more file. -/
theorem files_size_add (hplaced : ∀ statement ∈ file.statements, statement.Placed text) :
    (program.add file).2.files.size = program.files.size + 1 := by
  obtain ⟨hgoesOn, -, -⟩ := h.resolvedIn hplaced
  show (program.resolvedIn file).program.files.size = _
  rw [hgoesOn.files, (program.boundIn_binds file).1.files]
  exact Array.size_push _

/-- Adding a text to a compiled program gives a compiled one, which has grown by one file. -/
theorem addText (source : String × String) :
    (program.addText source).Compiled ∧ program.Grows (program.addText source) ∧
      (program.addText source).files.size = program.files.size + 1 := by
  have hplaced := (SourceFile.parse_placed source.1 source.2).1
  unfold Program.addText
  exact ⟨h.add hplaced, h.sound.add_grows _, h.files_size_add hplaced⟩

/-- Adding texts to a compiled program gives a compiled one, which has grown by as many files. -/
theorem addTexts (sources : List (String × String)) :
    (sources.foldl Program.addText program).Compiled ∧
      program.Grows (sources.foldl Program.addText program) ∧
      (sources.foldl Program.addText program).files.size = program.files.size + sources.length := by
  induction sources generalizing program with
  | nil => exact ⟨h, .refl program, rfl⟩
  | cons source rest ih =>
    obtain ⟨hcompiled, hgrows, hsize⟩ := h.addText source
    obtain ⟨hcompiled', hgrows', hsize'⟩ := ih hcompiled
    rw [List.foldl_cons, List.length_cons]
    exact ⟨hcompiled', hgrows.trans hgrows', by omega⟩

end Compiled

/-- The program of any texts is compiled and has a file for each of them. -/
theorem ofTexts_compiled (sources : List (String × String)) :
    (ofTexts sources).Compiled ∧ (ofTexts sources).files.size = sources.length := by
  obtain ⟨hcompiled, -, hsize⟩ := empty_compiled.addTexts sources
  exact ⟨hcompiled, hsize.trans (Nat.zero_add _)⟩

/-- The program of several texts adds those after one to the program of those up to it. -/
theorem ofTexts_append (before : List (String × String)) (source : String × String)
    (after : List (String × String)) :
    ofTexts (before ++ source :: after) =
      after.foldl Program.addText ((ofTexts before).addText source) := by
  rw [ofTexts, List.foldl_append, List.foldl_cons]
  rfl

end Program

end ExpressionTyping
