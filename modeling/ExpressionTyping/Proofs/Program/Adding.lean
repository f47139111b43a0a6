import ExpressionTyping.Proofs.Program.Resolution

/-!
# Adding files

A program that was built by adding files is sound: it starts with the types and the symbol that
every program has, shared types stand at one place only, and nothing in it refers to what is not
there. Into a sound program a file is compiled as into the empty one (`add_embeds`), which gives two
things at once. The new program holds a copy of what the file declares alone; and everything that
was there before is kept as it was (`Grows`), so the new program is sound again.
-/

set_option autoImplicit false

namespace ExpressionTyping

/-! ## Programs without dangling references -/

/-- The types of a signature stand in a table of a size. -/
def Signature.Within (types : Nat) (signature : Signature) : Prop :=
  (∀ parameter ∈ signature.parameters, parameter.2.index < types) ∧ signature.result.index < types

/-- What a type refers to stands among so many types and symbols. -/
def TypeData.Within (types symbols : Nat) : TypeData → Prop
  | object _ members signatures => (∀ entry ∈ members.entries, entry.2.index < symbols) ∧
      ∀ signature ∈ signatures, signature.Within types
  | array element => element.index < types
  | union members => ∀ member ∈ members, member.index < types
  | _ => True

/-- What stands among some types and symbols stands among more. -/
theorem TypeData.Within.mono {types symbols types' symbols' : Nat} {data : TypeData}
    (h : data.Within types symbols) (htypes : types ≤ types') (hsymbols : symbols ≤ symbols') :
    data.Within types' symbols' := by
  cases data with
  | object name? members signatures =>
    refine ⟨fun entry hentry => Nat.lt_of_lt_of_le (h.1 entry hentry) hsymbols, ?_⟩
    intro signature hsignature
    obtain ⟨hparameters, hresult⟩ := h.2 signature hsignature
    refine ⟨fun p hp => ?_, Nat.lt_of_lt_of_le hresult htypes⟩
    exact Nat.lt_of_lt_of_le (hparameters p hp) htypes
  | array element => exact Nat.lt_of_lt_of_le h htypes
  | union members => exact fun member hmember => Nat.lt_of_lt_of_le (h member hmember) htypes
  | _ => trivial

/-- Nothing in the program refers to what is not there. -/
structure Program.Closed (program : Program) : Prop where
  types : ∀ (i : Nat) data, program.types.entries[i]? = some data →
    data.Within program.types.entries.size program.symbols.size
  symbols : ∀ (i : Nat) symbol, program.symbols[i]? = some symbol →
    symbol.type.index < program.types.entries.size
  values : ∀ (i : Nat) scope, program.scopes[i]? = some scope → ∀ entry ∈ scope.values.entries,
    entry.2.index < program.symbols.size
  assignments : ∀ (i : Nat) scope, program.scopes[i]? = some scope → ∀ a ∈ scope.assignments,
    a.type.index < program.types.entries.size
  files : ∀ (i : Nat) info, program.files[i]? = some info → ∀ id ∈ info.scopes,
    id.index < program.scopes.size

/-- What holds of every program that was built by adding files. -/
structure Program.Sound (program : Program) : Prop where
  initial : ∀ i < TypeTable.initial.entries.size,
    program.types.entries[i]? = TypeTable.initial.entries[i]?
  sharedOnce : program.types.SharedOnce
  length : program.symbols[0]? = some ⟨"length", .property, [], .ofWord .number⟩
  closed : program.Closed

/-- The types that every program starts with stand at one place each. -/
theorem TypeTable.initial_sharedOnce : TypeTable.initial.SharedOnce := by
  intro i j data hshared hi
  have hnone : ∀ data ∈ TypeTable.initial.entries, data.isShared = false := by decide
  rw [hnone data (Array.mem_of_getElem? hi)] at hshared
  cases hshared

/-- The types that every program starts with refer to nothing. -/
theorem TypeTable.initial_within {types symbols : Nat} :
    ∀ data ∈ TypeTable.initial.entries, data.Within types symbols := by
  simp [initial, TypeData.Within, TypeData.named, SymbolTable.empty]

/-- The program without files is sound. -/
theorem Program.empty_sound : Program.empty.Sound := by
  refine ⟨fun _ _ => rfl, TypeTable.initial_sharedOnce, rfl, ?_⟩
  constructor
  case types =>
    intro i data hdata
    exact TypeTable.initial_within data (Array.mem_of_getElem? hdata)
  case symbols =>
    intro i symbol hsymbol
    have hmem : symbol ∈ Program.empty.symbols := Array.mem_of_getElem? hsymbol
    rw [List.mem_singleton.mp (Array.mem_toList_iff.mpr hmem)]
    decide
  case values | assignments => exact fun i scope hscope => by cases hscope
  case files => exact fun i info hinfo => by cases hinfo

/-! ## A file in a sound program -/

/-- The links before anything is compiled: the types that every program starts with. -/
def Links.start : Links where
  types a b := a = b ∧ a.index < TypeTable.initial.entries.size
  sorts _ _ := False
  files := 0
  oneToOne := by
    rintro a _ a' _ ⟨rfl, -⟩ ⟨rfl, -⟩
    rfl
  wellKnown _ hi := ⟨rfl, hi⟩

/-- The types that every program starts with refer to no others. -/
theorem TypeTable.initial_mirrors (types : TypeId → TypeId → Prop)
    (symbols : SymbolId → SymbolId → Prop) :
    ∀ data ∈ TypeTable.initial.entries, data.Mirrors types symbols data := by
  simp only [initial, List.mem_toArray, List.forall_mem_cons]
  exact ⟨.intrinsic _, .intrinsic _, .intrinsic _, .intrinsic _, .intrinsic _, .intrinsic _,
    .intrinsic _, .intrinsic _, .intrinsic _, .intrinsic _, .intrinsic _, .booleanLiteral _,
    .booleanLiteral _, .named _, .named _, fun _ hmem => absurd hmem List.not_mem_nil⟩

/-- Each type that every program starts with is its own copy. -/
theorem TypeTable.initial_matches (base : Program) (links : Links) :
    ∀ data ∈ TypeTable.initial.entries, data.Matches base links data :=
  TypeTable.initial_mirrors links.types (base.IsCopy links)

namespace Program

variable {base : Program}

/-- A sound program holds a copy of the empty one. -/
theorem Sound.embeds_empty (h : base.Sound) : Embeds base Links.start Program.empty base := by
  have hlength := (Array.getElem?_eq_some_iff.mp h.length).1
  constructor
  case linked => exact fun i hi => ⟨⟨i⟩, rfl, hi⟩
  case types =>
    rintro a _ ⟨rfl, ha⟩
    have hdata : TypeTable.initial.entries[a.index]? = some TypeTable.initial.entries[a.index] :=
      Array.getElem?_eq_getElem ha
    refine ⟨_, _, hdata, (h.initial a.index ha).trans hdata, ?_⟩
    exact TypeTable.initial_matches base Links.start _ (Array.getElem_mem ha)
  case oldTypes => exact fun _ _ => rfl
  case newTypes => exact fun i hle hlt => absurd hle (Nat.not_le.mpr hlt)
  case sharedOnce => exact h.sharedOnce
  case sorts => exact False.elim
  case symbols =>
    refine ⟨Nat.le_refl 1, hlength, rfl, fun _ _ => rfl, ?_⟩
    intro i symbol hsymbol
    cases i with
    | zero =>
      cases hsymbol
      exact ⟨_, h.length, rfl, rfl, rfl, Links.start.word .number, nofun⟩
    | succ i => cases hsymbol
  case scopes => exact ⟨Nat.le_refl 0, Nat.zero_le _, rfl, fun _ _ => rfl, nofun⟩
  case files => exact ⟨Nat.le_refl 0, Nat.zero_le _, rfl, fun _ _ => rfl, nofun⟩
  case filesKnown => exact Nat.zero_le _
  case fileScopes => exact nofun
  case issues => exact (List.append_nil _).symm

/-- The steps of adding a file. -/
def adding (file : SourceFile) : Compile FileId := do
  let id ← Compile.addFile file.name file.node.span.stop
  let scope ← Compile.addScope id [] ⟨0, file.node.span.stop⟩
  let bound ← Bind.statements ⟨id, scope, scope, []⟩ file.statements
  modify fun program => ((Resolve.everything id bound).run ⟨program, []⟩).2.program
  return id

/-- Adding a file behind other files does the same as adding it to the program without files, on the
copies of its own types, symbols and scopes. -/
theorem adding_follows (hinj : Function.Injective base.symbolPlace) (links : Links)
    (file : SourceFile) :
    Follows (Embeds base) links (adding file) (adding file)
      fun links' id _ => id.index < links'.files := by
  refine (Compile.addFile_follows _ _).bind ?_
  rintro links₁ - id _ ⟨rfl, hid⟩
  refine (Compile.addScope_follows id [] _).bind ?_
  rintro links₂ hle₂ scope _ rfl
  refine (Bind.statements_follows ⟨id, scope, scope, []⟩ file.statements links₂).bind ?_
  rintro links₃ hle₃ bound _ ⟨rfl, hbound⟩
  intro own all h
  obtain ⟨links₄, hle₄, h', -⟩ :=
    Resolve.everything_follows id hinj hbound ⟨own, []⟩ ⟨all, []⟩ ⟨h, rfl⟩
  have hfiles : links₁.files ≤ links₄.files := ((hle₂.trans hle₃).trans hle₄).2.2
  exact ⟨links₄, hle₄, h'.program, Nat.lt_of_lt_of_le hid hfiles⟩

/-- A file compiled into a sound program leaves there a copy of what it leaves in the empty one. -/
theorem Sound.add_embeds (h : base.Sound) (file : SourceFile) :
    ∃ links, Embeds base links (Program.empty.add file).2 (base.add file).2 := by
  have hinj : Function.Injective base.symbolPlace :=
    symbolPlace_injective (Array.getElem?_eq_some_iff.mp h.length).1
  obtain ⟨links, -, hembeds, -⟩ := adding_follows hinj Links.start file _ _ h.embeds_empty
  exact ⟨links, hembeds⟩

/-- The file that is added to the program without files stands in the program that results. -/
theorem empty_add_file_lt (file : SourceFile) :
    (empty.add file).1.index < (empty.add file).2.files.size := by
  have hinj : Function.Injective empty.symbolPlace := symbolPlace_injective (by decide)
  obtain ⟨links, -, hembeds, hid⟩ :=
    adding_follows hinj Links.start file _ _ empty_sound.embeds_empty
  exact Nat.lt_of_lt_of_le hid hembeds.filesKnown

/-- The file that is added gets the next number. -/
theorem add_file (program : Program) (file : SourceFile) :
    (program.add file).1 = ⟨program.files.size⟩ :=
  rfl

/-- A file that is added to a program stands where the copy of the file stands that is added to the
program without files. -/
theorem add_filePlace (base : Program) (file : SourceFile) :
    (base.add file).1 = base.filePlace (empty.add file).1 := by
  rw [add_file, add_file]
  rfl

end Program

/-! ## What adding a file keeps -/

/-- The entries of an array are kept in another. -/
def Kept {α : Type} (before after : Array α) : Prop :=
  ∀ i < before.size, after[i]? = before[i]?

namespace Kept

variable {α : Type} {before after : Array α}

/-- An entry of an array stands at the same place where the array is kept. -/
theorem of_some (h : Kept before after) {i : Nat} {a : α} (ha : before[i]? = some a) :
    after[i]? = some a := by
  rw [h i (Array.getElem?_eq_some_iff.mp ha).1, ha]

/-- An array that is kept in another is no longer than that one. -/
theorem size_le (h : Kept before after) : before.size ≤ after.size := by
  apply Nat.le_of_not_lt
  intro hlt
  have hlast := h.of_some (Array.getElem?_eq_getElem hlt)
  rw [Array.getElem?_eq_none (Nat.le_refl _)] at hlast
  cases hlast

/-- What is kept in an array is kept wherever that one is kept. -/
theorem trans {later : Array α} (h : Kept before after) (h' : Kept after later) :
    Kept before later := by
  intro i hi
  rw [h' i (Nat.lt_of_lt_of_le hi h.size_le), h i hi]

end Kept

/-- A type of a table that is kept is read as before. -/
theorem TypeTable.get_eq_of_kept {table later : TypeTable}
    (h : Kept table.entries later.entries) {id : TypeId} (hid : id.index < table.entries.size) :
    later.get id = table.get id :=
  get_congr (h id.index hid)

/-- A program keeps everything that another holds. -/
structure Program.Grows (before after : Program) : Prop where
  types : Kept before.types.entries after.types.entries
  symbols : Kept before.symbols after.symbols
  scopes : Kept before.scopes after.scopes
  files : Kept before.files after.files

/-- Every program keeps what it holds. -/
theorem Program.Grows.refl (program : Program) : program.Grows program :=
  ⟨fun _ _ => rfl, fun _ _ => rfl, fun _ _ => rfl, fun _ _ => rfl⟩

/-- Growing twice is growing. -/
theorem Program.Grows.trans {before after later : Program} (h : before.Grows after)
    (h' : after.Grows later) : before.Grows later :=
  ⟨h.types.trans h'.types, h.symbols.trans h'.symbols, h.scopes.trans h'.scopes,
    h.files.trans h'.files⟩

/-- In lists paired by a relation, each element of the second has a partner. -/
theorem exists_of_forall₂_right {α β : Type} {R : α → β → Prop} {as : List α} {bs : List β}
    (h : List.Forall₂ R as bs) {b : β} (hb : b ∈ bs) : ∃ a ∈ as, R a b := by
  induction h with
  | nil => cases hb
  | cons hab _ ih =>
    rcases List.mem_cons.mp hb with rfl | hb
    · exact ⟨_, List.mem_cons_self, hab⟩
    · obtain ⟨a, ha, hR⟩ := ih hb
      exact ⟨a, List.mem_cons_of_mem _ ha, hR⟩

namespace Embeds

variable {base own all : Program} {links : Links} (h : Embeds base links own all)
include h

/-- A program that a file was added to keeps everything it held. -/
theorem grows : base.Grows all :=
  ⟨h.oldTypes, h.symbols.old, h.scopes.old, h.files.old⟩

/-- The copies of a file's known symbols stand in the program that it was added to. -/
theorem symbolPlace_lt {id : SymbolId} (hid : links.Knows id) :
    (base.symbolPlace id).index < all.symbols.size := by
  obtain ⟨sort, hsort⟩ := hid
  obtain ⟨-, symbol, hsymbol, -⟩ := h.sorts hsort
  obtain ⟨symbol', hsymbol', -⟩ := h.symbols.new _ _ hsymbol
  exact (Array.getElem?_eq_some_iff.mp hsymbol').1

/-- The copies of a file's scopes stand in the program that it was added to. -/
theorem scopePlace_lt {id : ScopeId} (hid : id.index < own.scopes.size) :
    (base.scopePlace id).index < all.scopes.size := by
  obtain ⟨scope', hscope', -⟩ := h.scopes.new _ _ (Array.getElem?_eq_getElem hid)
  exact (Array.getElem?_eq_some_iff.mp hscope').1

/-- The copy of a type refers to what is in the program. -/
theorem within {data data' : TypeData} (hdata : data.Matches base links data') :
    data'.Within all.types.entries.size all.symbols.size := by
  cases hdata with
  | object name? hmembers hsignatures =>
    constructor
    · intro entry hentry
      obtain ⟨old, -, -, hcopy, hknown⟩ := exists_of_forall₂_right hmembers hentry
      rw [hcopy]
      exact h.symbolPlace_lt hknown
    · intro signature' hsignature'
      obtain ⟨signature, -, hmatches⟩ := exists_of_forall₂_right hsignatures hsignature'
      constructor
      · intro p hp
        obtain ⟨q, -, -, hlink⟩ := exists_of_forall₂_right hmatches.parameters hp
        exact (h.lt_of_types hlink).2
      · exact (h.lt_of_types hmatches.result).2
  | array helement => exact (h.lt_of_types helement).2
  | union hmembers =>
    intro member' hmember'
    obtain ⟨member, -, hlink⟩ := exists_of_forall₂_right hmembers hmember'
    exact (h.lt_of_types hlink).2
  | _ => trivial

/-- What was there refers to what was there, and copies refer to copies. -/
theorem closed (hbase : base.Closed) : all.Closed := by
  have htypes := h.grows.types.size_le
  have hsymbols := h.grows.symbols.size_le
  have hscopes := h.grows.scopes.size_le
  constructor
  -- each part: what was there is as it was, and what is new is the copy of something
  case types =>
    intro i data hdata
    by_cases hi : i < base.types.entries.size
    · exact (hbase.types i data (h.oldTypes i hi ▸ hdata)).mono htypes hsymbols
    · have hlt := (Array.getElem?_eq_some_iff.mp hdata).1
      obtain ⟨a, hlink⟩ := h.newTypes i (Nat.le_of_not_lt hi) hlt
      obtain ⟨own, data', -, hdata', hmatches⟩ := h.types hlink
      cases hdata.symm.trans hdata'
      exact h.within hmatches
  case symbols =>
    intro i symbol hsymbol
    by_cases hi : i < base.symbols.size
    · exact Nat.lt_of_lt_of_le (hbase.symbols i symbol (h.symbols.old i hi ▸ hsymbol)) htypes
    · obtain ⟨_, _, -, hmatches⟩ := h.symbols.exists_of_le (Nat.le_of_not_lt hi) hsymbol
      exact (h.lt_of_types hmatches.type).2
  case values =>
    intro i scope hscope entry hentry
    by_cases hi : i < base.scopes.size
    · have hold := hbase.values i scope (h.scopes.old i hi ▸ hscope) entry hentry
      exact Nat.lt_of_lt_of_le hold hsymbols
    · obtain ⟨_, _, -, hmatches⟩ := h.scopes.exists_of_le (Nat.le_of_not_lt hi) hscope
      rw [hmatches.values] at hentry
      obtain ⟨old, hold, rfl⟩ := List.mem_map.mp hentry
      exact h.symbolPlace_lt (hmatches.knownValues old hold)
  case assignments =>
    intro i scope hscope a ha
    by_cases hi : i < base.scopes.size
    · have hold := hbase.assignments i scope (h.scopes.old i hi ▸ hscope) a ha
      exact Nat.lt_of_lt_of_le hold htypes
    · obtain ⟨_, _, -, hmatches⟩ := h.scopes.exists_of_le (Nat.le_of_not_lt hi) hscope
      obtain ⟨_, -, hassignment⟩ := exists_of_forall₂_right hmatches.assignments ha
      exact (h.lt_of_types hassignment.type).2
  case files =>
    intro i info hinfo id hid
    by_cases hi : i < base.files.size
    · exact Nat.lt_of_lt_of_le (hbase.files i info (h.files.old i hi ▸ hinfo) id hid) hscopes
    · obtain ⟨j, own, hown, hmatches⟩ := h.files.exists_of_le (Nat.le_of_not_lt hi) hinfo
      rw [hmatches.scopes] at hid
      obtain ⟨place, hplace, rfl⟩ := List.mem_map.mp hid
      exact h.scopePlace_lt (h.fileScopes j own hown place hplace)

/-- Adding a file keeps a program sound. -/
theorem sound (hbase : base.Sound) : all.Sound := by
  refine ⟨fun i hi => ?_, h.sharedOnce, ?_, h.closed hbase.closed⟩
  · have hinitial : TypeTable.initial.entries[i]? = some TypeTable.initial.entries[i] :=
      Array.getElem?_eq_getElem hi
    rw [hinitial]
    exact h.grows.types.of_some ((hbase.initial i hi).trans hinitial)
  · exact h.grows.symbols.of_some hbase.length

end Embeds

namespace Program

variable {base : Program}

/-- A sound program stays sound when a file is added. -/
theorem Sound.add (h : base.Sound) (file : SourceFile) : (base.add file).2.Sound := by
  obtain ⟨links, hembeds⟩ := h.add_embeds file
  exact hembeds.sound h

/-- Adding a file keeps everything that was there. -/
theorem Sound.add_grows (h : base.Sound) (file : SourceFile) : base.Grows (base.add file).2 := by
  obtain ⟨links, hembeds⟩ := h.add_embeds file
  exact hembeds.grows

end Program

end ExpressionTyping
