import ExpressionTyping.Proofs.Program.Adding
import ExpressionTyping.Proofs.Typing.Alike
import ExpressionTyping.Session.Basic

/-!
# Canonical types of a session

A session takes the canonical types of scalar kinds from a file of built-in declarations, which it
compiles when the first of them is asked for. Into whatever sound program this file is compiled, its
variables get the types with words of their own, as they do in the empty program: a word is its own
copy. So for every scalar kind the load brings a type with the keyword of the kind as its name, of
that kind, and with nothing else to it (`GivesWords.complete`, `defaultBuiltIns_givesWords`).
-/

set_option autoImplicit false

namespace ExpressionTyping

open Std.Do

/-! ## Types with words of their own -/

/-- In a sound program, the type of a word is the intrinsic one. -/
theorem Program.Sound.get_word {program : Program} (h : program.Sound) (word : TypeWord) :
    program.types.get (.ofWord word) = .intrinsic word := by
  apply TypeTable.get_of_entries
  cases word <;> (rw [h.initial _ (by decide)]; rfl)

/-- Linked programs have the types of words at the same ids. -/
theorem Links.eq_ofWord {links : Links} {word : TypeWord} {b : TypeId}
    (h : links.types (.ofWord word) b) : b = .ofWord word :=
  ((links.oneToOne (links.word word) h).mp rfl).symm

/-- Looking up a key among mapped values finds the image of the value. -/
theorem lookup_map {α β : Type} (f : α → β) (entries : List (Nat × α)) (key : Nat) :
    (entries.map fun entry => (entry.1, f entry.2)).lookup key = (entries.lookup key).map f := by
  induction entries with
  | nil => rfl
  | cons entry rest ih =>
    rw [List.map_cons, List.lookup_cons, List.lookup_cons, ih]
    cases key == entry.1 <;> rfl

namespace Embeds

variable {base own all : Program} {links : Links} (h : Embeds base links own all)
include h

/-- A declaration of a file that is embedded has the symbol that it has in the smaller program, at
its place in the larger one. -/
theorem symbolOf? (file : FileId) (declaration : Nat) :
    all.symbolOf? (base.filePlace file) declaration =
      (own.symbolOf? file declaration).map base.symbolPlace := by
  unfold Program.symbolOf?
  cases hinfo : own.files[file.index]? with
  | none =>
    have hnone : all.files[(base.filePlace file).index]? = none := h.files.copy_eq_none hinfo
    rw [hnone]
    rfl
  | some info =>
    obtain ⟨info', hinfo', hmatches⟩ := h.files.new _ info hinfo
    have hsome : all.files[(base.filePlace file).index]? = some info' := hinfo'
    rw [hsome, Option.bind_some, Option.bind_some, hmatches.declarations, lookup_map]

/-- A declaration whose type is a word has the same type wherever its file is compiled. -/
theorem typeOf?_word {file : FileId} {declaration : Nat} {word : TypeWord}
    (hword : own.typeOf? file declaration = some (.ofWord word)) :
    all.typeOf? (base.filePlace file) declaration = some (.ofWord word) := by
  obtain ⟨id, hid, htype⟩ := Option.map_eq_some_iff.mp hword
  unfold Program.typeOf?
  rw [h.symbolOf?, hid, Option.map_some, Option.map_some]
  have hlink := (h.symbol id).type
  rw [htype] at hlink
  rw [Links.eq_ofWord hlink]

end Embeds

namespace Session

/-! ## What the load brings -/

/-- The word of a scalar kind. -/
def wordOf : TypeKind → TypeWord
  | .string => .string
  | .number => .number
  | .boolean => .boolean
  | .symbol => .symbol
  | _ => .any

/-- The intrinsic type of a scalar kind is of that kind. -/
theorem word_flags_kind {kind : TypeKind} (hkind : kind.isScalar = true) :
    (TypeData.intrinsic (wordOf kind)).flags.kind = kind := by
  cases kind with
  | string | number | boolean | symbol => rfl
  | any | undefined | null | object | function | other => cases hkind

/-- The word of a scalar kind is spelled by the keyword of the kind. -/
theorem word_text {kind : TypeKind} (hkind : kind.isScalar = true) :
    (wordOf kind).keyword.text = kind.keyword := by
  cases kind with
  | string | number | boolean | symbol => rfl
  | any | undefined | null | object | function | other => cases hkind

/-- The type with the word of a scalar kind has nothing to it but its keyword. -/
theorem isBlank_word {program : Program} (h : program.Sound) (location : Location)
    {kind : TypeKind} (hkind : kind.isScalar = true) :
    IsBlank kind (SessionType.declared ⟨program, location, .ofWord (wordOf kind)⟩) := by
  have hget := h.get_word (wordOf kind)
  constructor
  · show program.display Program.displayLevels (.ofWord (wordOf kind)) = _
    unfold Program.displayLevels Program.display
    rw [hget]
    exact word_text hkind
  · show (program.types.get (.ofWord (wordOf kind))).flags.kind = kind
    rw [hget]
    exact word_flags_kind hkind
  · show (DeclaredType.symbolTypes program location (program.properties _)).map _ = _
    unfold Program.properties
    rw [hget]
    rfl
  · show ((program.signatures _).map _).map _ = _
    unfold Program.signatures
    rw [hget]
    rfl

/-- The variables of scalar kinds that a file declares. -/
def scalarsOf (file : SourceFile) : List (TypeKind × Node) :=
  file.visits.filterMap (builtInOf? file)

/-- The types that a file brings for scalar kinds when it is added to a program. -/
def broughtBy (file : SourceFile) (program : Program) : List (TypeKind × SessionType) :=
  (scalarsOf file).filterMap fun entry =>
    ((program.add file).2.typeOf? (program.add file).1 entry.2.id).map fun type =>
      (entry.1, .declared ⟨(program.add file).2, ⟨(program.add file).1, entry.2.span.start⟩, type⟩)

/-- The file of a text of built-in declarations. -/
def builtInsFile (source : String) : SourceFile :=
  (SourceFile.parse builtInsName source).tree

/-- Loading the built-in declarations adds their file and brings the types that it declares. -/
theorem loadBuiltIns_run (source : String) (program : Program) :
    (loadBuiltIns source).run program =
      (broughtBy (builtInsFile source) program, (program.add (builtInsFile source)).2) := by
  unfold loadBuiltIns builtInsFile
  generalize (SourceFile.parse builtInsName source).tree = file
  rfl

/-- Compiled alone, a file gives its scalar kinds the types with their words. -/
def GivesWords (file : SourceFile) : Prop :=
  (scalarsOf file).map (fun entry => (entry.1,
      (Program.empty.add file).2.typeOf? (Program.empty.add file).1 entry.2.id)) =
    [TypeKind.string, .number, .boolean, .symbol].map fun kind =>
      (kind, some (.ofWord (wordOf kind)))

namespace GivesWords

variable {file : SourceFile} (h : GivesWords file)
include h

/-- Each scalar that the file declares has its kind, and its type is the word of the kind. -/
theorem word {entry : TypeKind × Node} (hentry : entry ∈ scalarsOf file) :
    entry.1.isScalar = true ∧
      (Program.empty.add file).2.typeOf? (Program.empty.add file).1 entry.2.id =
        some (.ofWord (wordOf entry.1)) := by
  have hmem := List.mem_map_of_mem (f := fun entry => (entry.1,
    (Program.empty.add file).2.typeOf? (Program.empty.add file).1 entry.2.id)) hentry
  rw [h] at hmem
  obtain ⟨kind, hkind, heq⟩ := List.mem_map.mp hmem
  obtain ⟨rfl, htype⟩ := Prod.mk.inj heq
  have hscalar : ∀ kind ∈ [TypeKind.string, .number, .boolean, .symbol], kind.isScalar = true := by
    decide
  exact ⟨hscalar _ hkind, htype.symm⟩

/-- The file declares every scalar kind. -/
theorem exists_mem {kind : TypeKind} (hkind : kind.isScalar = true) :
    ∃ node, (kind, node) ∈ scalarsOf file := by
  have hmem : (kind, some (TypeId.ofWord (wordOf kind))) ∈
      [TypeKind.string, .number, .boolean, .symbol].map fun kind =>
        (kind, some (TypeId.ofWord (wordOf kind))) := by
    apply List.mem_map_of_mem
    cases kind with
    | string | number | boolean | symbol => decide
    | any | undefined | null | object | function | other => cases hkind
  rw [← h] at hmem
  obtain ⟨⟨_, node⟩, hentry, heq⟩ := List.mem_map.mp hmem
  cases (Prod.mk.inj heq).1
  exact ⟨node, hentry⟩

end GivesWords

/-- Blank types, with one for every scalar kind among them. -/
structure Complete (types : List (TypeKind × SessionType)) : Prop where
  blank : ∀ entry ∈ types, IsBlank entry.1 entry.2
  scalar : ∀ kind : TypeKind, kind.isScalar = true → ∃ type, (kind, type) ∈ types

/-- Among complete types, each scalar kind has one with nothing to it but its keyword. -/
theorem Complete.find? {types : List (TypeKind × SessionType)} (h : Complete types)
    {kind : TypeKind} (hkind : kind.isScalar = true) :
    ∃ type, BuiltInCache.find? types kind = some type ∧ IsBlank kind type := by
  unfold BuiltInCache.find?
  -- a later entry hides earlier ones of its kind, but all of them are blank
  cases hfound : types.reverse.lookup kind with
  | none =>
    obtain ⟨type, htype⟩ := h.scalar kind hkind
    have hne := List.lookup_eq_none_iff.mp hfound (kind, type) (List.mem_reverse.mpr htype)
    simp at hne
  | some type =>
    obtain ⟨_, _, hsplit, -⟩ := List.lookup_eq_some_iff.mp hfound
    have hmem : (kind, type) ∈ types := by
      rw [← List.mem_reverse, hsplit]
      exact List.mem_append_right _ List.mem_cons_self
    exact ⟨type, rfl, h.blank _ hmem⟩

/-- A file that gives the words brings blank types of all scalar kinds into every sound program. -/
theorem GivesWords.complete {file : SourceFile} (h : GivesWords file) {program : Program}
    (hsound : program.Sound) : Complete (broughtBy file program) := by
  obtain ⟨links, hembeds⟩ := hsound.add_embeds file
  have htype : ∀ entry ∈ scalarsOf file,
      (program.add file).2.typeOf? (program.add file).1 entry.2.id =
        some (.ofWord (wordOf entry.1)) := by
    intro entry hentry
    rw [Program.add_filePlace]
    exact hembeds.typeOf?_word (h.word hentry).2
  constructor
  · intro entry hentry
    obtain ⟨old, hold, hsome⟩ := List.mem_filterMap.mp hentry
    rw [htype old hold, Option.map_some] at hsome
    cases hsome
    exact isBlank_word (hsound.add file) _ (h.word hold).1
  · intro kind hkind
    obtain ⟨node, hnode⟩ := h.exists_mem hkind
    refine ⟨.declared ⟨(program.add file).2, ⟨(program.add file).1, node.span.start⟩,
      .ofWord (wordOf kind)⟩, List.mem_filterMap.mpr ⟨(kind, node), hnode, ?_⟩⟩
    rw [htype _ hnode, Option.map_some]

/-- The default declarations give each scalar kind its word. -/
theorem defaultBuiltIns_givesWords : GivesWords (builtInsFile defaultBuiltIns) := by
  unfold GivesWords
  decide +kernel

end Session

end ExpressionTyping
