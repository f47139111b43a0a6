import ExpressionTyping.Proofs.Program.Scoping

/-!
# What assignments narrow

An assignment to a variable of a declared union keeps the members of the union that the value may
belong to. It is recorded in the scope it stands in, after the assignments before it, and nothing
else changes what is recorded there (`Program.Compiled.recorded_of_mem`).

A part of the value that is covered by the declared union, by itself or by what it widens to, stays
covered by what is kept (`TypeTable.Canonical.narrowed_covers`). A part that is not covered by it
makes no difference, unless nothing at all is kept: so a variable that may be `true`, `false` or a
string is taken for a string when it is assigned a value that is a boolean or a string.
-/

set_option autoImplicit false

namespace ExpressionTyping

/-! ## Members that are kept -/

namespace TypeTable

variable {table later : TypeTable}

/-- One of the types that a type is made of is a part of a value, or the type of all values like it,
or `unknown`. -/
def Covers (table : TypeTable) (type part : TypeId) : Prop :=
  ∃ member ∈ table.constituents type, member = part ∨ member = table.widen part ∨
    (table.get member).flags.has TypeFlags.unknown = true

instance (table : TypeTable) (type part : TypeId) : Decidable (table.Covers type part) := by
  unfold Covers
  infer_instance

/-- A type is widened alike in a table that keeps more. -/
theorem widen_kept (h : Kept table.entries later.entries) {id : TypeId}
    (hid : id.index < table.entries.size) : later.widen id = table.widen id := by
  unfold widen
  rw [get_eq_of_kept h hid]

/-- What covers what stays when types are added. -/
theorem covers_kept (h : Kept table.entries later.entries) (hcanonical : table.Canonical)
    {type part : TypeId} (htype : type.index < table.entries.size)
    (hpart : part.index < table.entries.size) :
    later.Covers type part ↔ table.Covers type part := by
  unfold Covers
  rw [constituents_kept h htype, widen_kept h hpart]
  refine exists_congr fun member => and_congr_right fun hmember => ?_
  rw [get_eq_of_kept h (hcanonical.constituents_flat htype member hmember).1]

/-- The union of different types that are no unions is made of them. -/
theorem constituents_unionOf {ids : List TypeId} (hne : ids ≠ []) (honce : ids.Nodup)
    (hany : TypeId.any ∉ ids) (hflat : ∀ id ∈ ids, ∀ inner, table.get id ≠ .union inner) :
    (table.unionOf ids).2.constituents (table.unionOf ids).1 = ids := by
  have hself : ∀ id ∈ ids, table.constituents id = [id] := by
    intro id hid
    unfold constituents
    split
    · exact absurd ‹_› (hflat id hid _)
    · rfl
  have hparts : (ids.flatMap table.constituents).eraseDups = ids := by
    rw [List.flatMap_congr hself, List.flatMap_singleton', Resolve.eraseDups_of_nodup honce]
  have hcontains : ¬ids.contains .any = true := fun h => hany (List.mem_of_elem_eq_true h)
  unfold unionOf
  simp only [hparts, if_neg hcontains]
  match ids with
  | [] => exact absurd rfl hne
  | [id] => exact hself id List.mem_cons_self
  | first :: second :: rest =>
    simp only [constituents, Guarded.get_share]

/-- The members of a union that are kept when a value of a type is assigned. -/
def keptMembers (table : TypeTable) (members : List TypeId) (assigned : TypeId) : List TypeId :=
  members.filter fun member =>
    (table.get member).flags.has TypeFlags.unknown ||
      (table.constituents assigned).any fun part => part = member || table.widen part = member

/-- A part of the value is covered by the members that are kept if it is covered by all. -/
theorem mem_keptMembers {members : List TypeId} {assigned part member : TypeId}
    (hpart : part ∈ table.constituents assigned) (hmember : member ∈ members)
    (hcovers : member = part ∨ member = table.widen part ∨
      (table.get member).flags.has TypeFlags.unknown = true) :
    member ∈ table.keptMembers members assigned := by
  refine List.mem_filter.mpr ⟨hmember, ?_⟩
  rw [Bool.or_eq_true, List.any_eq_true]
  rcases hcovers with rfl | rfl | hunknown
  · exact .inr ⟨member, hpart, by simp⟩
  · exact .inr ⟨part, hpart, by simp⟩
  · exact .inl hunknown

end TypeTable

namespace Resolve

variable {s : Program} {declared assigned : TypeId} {members : List TypeId}

/-- Narrowing a union gives the union of the members that are kept, or the declared type if none
is. -/
theorem narrowed_run (hunion : s.types.get declared = .union members) :
    (narrowed declared assigned).run s =
      if (s.types.keptMembers members assigned).isEmpty then (declared, s)
      else ((s.types.unionOf (s.types.keptMembers members assigned)).1,
        { s with types := (s.types.unionOf (s.types.keptMembers members assigned)).2 }) := by
  unfold narrowed TypeTable.keptMembers
  rw [StateT.run_bind]
  simp only [StateT.run_get, pure_bind, hunion]
  split
  · rfl
  · rfl

/-- The union of the members that are kept is made of them. -/
theorem constituents_kept_union (hcanonical : s.types.Canonical)
    (hunion : s.types.get declared = .union members)
    (hne : ¬(s.types.keptMembers members assigned).isEmpty = true) :
    let made := s.types.unionOf (s.types.keptMembers members assigned)
    made.2.constituents made.1 = s.types.keptMembers members assigned := by
  have hfits := hcanonical.unions _ _ (TypeTable.entries_of_get hunion nofun)
  have hsub : s.types.keptMembers members assigned ⊆ members := List.filter_subset_self _
  refine TypeTable.constituents_unionOf ?_ (hfits.once.filter _) ?_ ?_
  · exact fun hnil => hne (List.isEmpty_iff.mpr hnil)
  · exact fun hany => hfits.noAny (hsub hany)
  · exact fun id hid => hfits.flat id (hsub hid)

/-- Narrowing leaves a declared union as it is, or what is kept of it covers those parts of the
value that all of it covers. -/
theorem narrowed_covers (hcanonical : s.types.Canonical)
    (hassigned : assigned.index < s.types.entries.size)
    (hunion : s.types.get declared = .union members) :
    let narrowed := (narrowed declared assigned).run s
    narrowed.1 = declared ∨ ∀ part ∈ s.types.constituents assigned,
      (narrowed.2.types.Covers narrowed.1 part ↔ s.types.Covers declared part) := by
  intro narrowed
  have hrun : narrowed = _ := narrowed_run hunion
  by_cases hempty : (s.types.keptMembers members assigned).isEmpty = true
  · rw [hrun, if_pos hempty]
    exact .inl rfl
  right
  rw [hrun, if_neg hempty]
  intro part hpart
  have hentry := TypeTable.entries_of_get hunion nofun
  have hplace := (Array.getElem?_eq_some_iff.mp hentry).1
  have hfits := hcanonical.unions _ _ hentry
  have hsub : s.types.keptMembers members assigned ⊆ members :=
    List.filter_subset_self _
  have hkept := s.types.kept_unionOf (s.types.keptMembers members assigned)
  have hmade := constituents_kept_union hcanonical hunion hempty
  have hdeclared : s.types.constituents declared = members := by
    unfold TypeTable.constituents
    rw [hunion]
  have hwiden := (hcanonical.constituents_flat hassigned part hpart).1
  have hget {member : TypeId} (hmember : member ∈ members) :=
    TypeTable.get_eq_of_kept hkept (Nat.lt_trans (hfits.earlier member hmember) hplace)
  unfold TypeTable.Covers
  rw [hmade, hdeclared, TypeTable.widen_kept hkept hwiden]
  constructor
  · rintro ⟨member, hmember, hcovers⟩
    rw [hget (hsub hmember)] at hcovers
    exact ⟨member, hsub hmember, hcovers⟩
  · rintro ⟨member, hmember, hcovers⟩
    refine ⟨member, TypeTable.mem_keptMembers hpart hmember hcovers, ?_⟩
    rw [hget hmember]
    exact hcovers

end Resolve

/-! ## One assignment -/

namespace Resolve

variable (file : FileId) (pending : Pending) (a : PendingAssignment) (s : ResolveState)

/-- The type of the value of an assignment, and the state in which it is known. -/
def assignedValue : TypeId × ResolveState :=
  (valueType file (fresh file pending) a.scope a.stop a.value).run s

/-- What the type of a variable is narrowed to by an assignment, and the program with that type. -/
def narrowedBy (id : SymbolId) : TypeId × Program :=
  (narrowed (s.program.symbol id).type (assignedValue file pending a s).1).run
    (assignedValue file pending a s).2.program

/-- The state after an assignment to a variable. -/
def assign (id : SymbolId) : ResolveState :=
  let narrowed := narrowedBy file pending a s id
  { (assignedValue file pending a s).2 with
    program := { narrowed.2 with
      scopes := narrowed.2.scopes.modify a.scope.index fun scope =>
        { scope with assignments := scope.assignments ++ [⟨id, a.stop, narrowed.1⟩] } } }

/-- An assignment is recorded, or nothing happens but that something is reported. -/
theorem assignment_cases :
    ((assignment file pending a).run s).2.program.scopes = s.program.scopes ∨
      ∃ id, s.program.resolveValue? a.scope a.target.text = some id ∧
        ((assignment file pending a).run s).2 = assign file pending a s id := by
  cases hfound : s.program.resolveValue? a.scope a.target.text with
  | none =>
    refine .inl ?_
    simp [assignment, program, hfound]
    rfl
  | some id =>
    by_cases hconstant : (s.program.symbol id).sort = .constant
    · refine .inl ?_
      simp [assignment, program, hfound, hconstant]
      rfl
    by_cases hvariable : (s.program.symbol id).sort.isVariable = true
    · refine .inr ⟨id, rfl, ?_⟩
      simp [assignment, program, hfound, hconstant, hvariable]
      rfl
    · refine .inl ?_
      simp [assignment, program, hfound, hconstant, hvariable]
      rfl

end Resolve

/-- A type that a declared union is narrowed to for a value is that union, or it covers those parts
of the value that the union covers. -/
def TypeTable.Narrows (table : TypeTable) (declared assigned type : TypeId) : Prop :=
  ∀ members, table.get declared = .union members → type = declared ∨
    ∀ part ∈ table.constituents assigned,
      (table.Covers type part ↔ table.Covers declared part)

/-- What a union is narrowed to is so in a table that keeps more. -/
theorem TypeTable.Narrows.kept {table later : TypeTable} (hkept : Kept table.entries later.entries)
    (hcanonical : table.Canonical) {declared assigned type : TypeId}
    (hdeclared : declared.index < table.entries.size)
    (hassigned : assigned.index < table.entries.size) (htype : type.index < table.entries.size)
    (h : table.Narrows declared assigned type) : later.Narrows declared assigned type := by
  intro members hunion
  rw [get_eq_of_kept hkept hdeclared] at hunion
  refine (h members hunion).imp_right fun hcovers part hpart => ?_
  rw [constituents_kept hkept hassigned] at hpart
  have hlt := (hcanonical.constituents_flat hassigned part hpart).1
  rw [covers_kept hkept hcanonical htype hlt, covers_kept hkept hcanonical hdeclared hlt]
  exact hcovers part hpart

/-- What an assignment comes to in a state of resolution: the variable it assigns to, the type of
the value, read where the assignment ends, and what is recorded after the assignments that stood in
the scope before. -/
structure ResolveState.Assigns (file : FileId) (pending : Pending) (s : ResolveState)
    (a : PendingAssignment) (assigned : TypeId) (made : Assignment) : Prop where
  symbol : s.program.resolveValue? a.scope a.target.text = some made.symbol
  offset : made.offset = a.stop
  assigned : assigned =
    ((Resolve.valueType file (Resolve.fresh file pending) a.scope a.stop a.value).run s).1
  recorded : (((Resolve.assignment file pending a).run s).2.program.scope a.scope).assignments =
    (s.program.scope a.scope).assignments ++ [made]

deriving instance DecidableEq for Assignment

instance (file : FileId) (pending : Pending) (s : ResolveState) (a : PendingAssignment)
    (assigned : TypeId) (made : Assignment) : Decidable (s.Assigns file pending a assigned made) :=
  decidable_of_iff
    (s.program.resolveValue? a.scope a.target.text = some made.symbol ∧ made.offset = a.stop ∧
      assigned =
        ((Resolve.valueType file (Resolve.fresh file pending) a.scope a.stop a.value).run s).1 ∧
      (((Resolve.assignment file pending a).run s).2.program.scope a.scope).assignments =
        (s.program.scope a.scope).assignments ++ [made])
    ⟨fun ⟨h₁, h₂, h₃, h₄⟩ => ⟨h₁, h₂, h₃, h₄⟩, fun ⟨h₁, h₂, h₃, h₄⟩ => ⟨h₁, h₂, h₃, h₄⟩⟩

/-- What is known of a state in which every declared symbol is resolved. -/
structure ResolveState.Ready (file : FileId) (length : Nat) (pending : Pending) (s : ResolveState) :
    Prop where
  wellFormed : s.WellFormed file length pending
  orderly : s.Orderly pending []
  canonical : s.program.types.Canonical
  settled : ∀ id, s.program.HasSymbol id → s.Settled pending id

namespace ResolveState.Ready

variable {file : FileId} {length : Nat} {pending : Pending} {s : ResolveState}
  (h : s.Ready file length pending) {a : PendingAssignment}
  (ha : (Bound.assignment a).Fits s.program length)
include h ha

/-- The value of an assignment has a type that stands in the table, and its state advances from the
one before. -/
theorem assignedValue :
    let value := Resolve.assignedValue file pending a s
    value.2.program.WellFormed ∧ s.program.Extends value.2.program ∧
      value.2.program.HasType value.1 ∧ s.Signs file pending True [] [] value.2 := by
  obtain ⟨hscope, -, hplaced⟩ := ha
  obtain ⟨hrun, hwell, hext, hassigned⟩ :=
    Guarded.valueType_safe Guarded.fresh_resolves a.stop a.value hscope hplaced h.wellFormed
  have hfinds : Guarded.Finds file pending True [] false (Guarded.fresh file pending) :=
    Guarded.fresh_ends false (.inr trivial)
  obtain ⟨-, hsigns, -⟩ :=
    Guarded.valueType_ends hfinds a.scope a.stop a.value s _ _ hrun h.orderly
  exact ⟨hwell.program, hext.program, hassigned, hsigns⟩

/-- What an assignment narrows a variable to covers the parts of the value that the union covers. -/
theorem narrowedBy {id : SymbolId} (hid : s.program.HasSymbol id) :
    let value := Resolve.assignedValue file pending a s
    let narrowed := Resolve.narrowedBy file pending a s id
    value.2.program.Grown narrowed.2 ∧ narrowed.2.HasType narrowed.1 ∧
      narrowed.2.types.Narrows (s.program.symbol id).type value.1 narrowed.1 := by
  intro value narrowed
  obtain ⟨hwell, hext, hassigned, hsigns⟩ := h.assignedValue ha
  have hcanonical : value.2.program.types.Canonical := h.canonical.reaches hsigns.reaches
  have hdeclared := hext.hasType (h.wellFormed.program.symbol_type hid)
  obtain ⟨hrun, -, -, htype⟩ := Guarded.narrowed_safe hdeclared hassigned hwell
  have hgrown : value.2.program.Grown narrowed.2 :=
    (Guarded.narrowed_ends _ _ _ _ hrun trivial).2.1
  refine ⟨hgrown, htype, fun members hunion => ?_⟩
  rw [TypeTable.get_eq_of_kept hgrown.types hdeclared] at hunion
  refine (Resolve.narrowed_covers hcanonical hassigned hunion).imp_right fun hcovers part => ?_
  rw [TypeTable.constituents_kept hgrown.types hassigned]
  intro hpart
  have hlt := (hcanonical.constituents_flat hassigned part hpart).1
  rw [TypeTable.covers_kept hgrown.types hcanonical hdeclared hlt]
  exact hcovers part hpart

/-- An assignment to a variable changes its scope and no other. -/
theorem assign_scopes {id : SymbolId} (hid : s.program.HasSymbol id) :
    (Resolve.assign file pending a s id).program.scopes =
      s.program.scopes.modify a.scope.index fun scope =>
        { scope with assignments := scope.assignments ++
            [⟨id, a.stop, (Resolve.narrowedBy file pending a s id).1⟩] } := by
  obtain ⟨-, -, -, hsigns⟩ := h.assignedValue ha
  obtain ⟨hgrown, -, -⟩ := h.narrowedBy ha hid
  rw [← hsigns.sameScopes, ← hgrown.scopes]
  rfl

/-- What an assignment to a variable is recorded as. -/
theorem assign_recorded {id : SymbolId} (hid : s.program.HasSymbol id) :
    ((Resolve.assign file pending a s id).program.scope a.scope).assignments =
      (s.program.scope a.scope).assignments ++
        [⟨id, a.stop, (Resolve.narrowedBy file pending a s id).1⟩] := by
  have hscope : s.program.scopes[a.scope.index]? = _ := Array.getElem?_eq_getElem ha.1
  unfold Program.scope
  rw [h.assign_scopes ha hid, Array.getElem?_modify, if_pos rfl, hscope]
  rfl

/-- An assignment is recorded in its scope, with the type that the declared one is narrowed to, or
nothing happens but that something is reported. -/
theorem assignment :
    let after := ((Resolve.assignment file pending a).run s).2
    after.program.scopes = s.program.scopes ∨ ∃ assigned made,
      s.Assigns file pending a assigned made ∧ s.program.HasSymbol made.symbol ∧
      (∀ scope, scope ≠ a.scope → after.program.scope scope = s.program.scope scope) ∧
      after.program.HasType assigned ∧ after.program.HasType made.type ∧
      after.program.types.Narrows (s.program.symbol made.symbol).type assigned made.type := by
  intro after
  rcases Resolve.assignment_cases file pending a s with hsame | ⟨id, hfound, heq⟩
  · exact .inl hsame
  have hsymbol := (h.wellFormed.program.answers.lookupValue _ _ ha.1).2 id hfound
  obtain ⟨-, -, hassigned, -⟩ := h.assignedValue ha
  obtain ⟨hgrown, htype, hnarrows⟩ := h.narrowedBy ha hsymbol
  let made : Assignment := ⟨id, a.stop, (Resolve.narrowedBy file pending a s id).1⟩
  have htypes : after.program.types = (Resolve.narrowedBy file pending a s id).2.types :=
    congrArg (fun s => s.program.types) heq
  -- only the scope of the assignment is changed
  have hscopes : after.program.scopes = _ :=
    (congrArg (fun s => s.program.scopes) heq).trans (h.assign_scopes ha hsymbol)
  refine .inr ⟨_, made, ⟨hfound, rfl, rfl, ?_⟩, hsymbol, fun scope hne => ?_, ?_, ?_, ?_⟩
  · rw [heq]
    exact h.assign_recorded ha hsymbol
  · apply Program.scope_congr
    rw [hscopes, Array.getElem?_modify, if_neg]
    exact fun hindex => hne (congrArg ScopeId.mk hindex.symm)
  · show _ < after.program.types.entries.size
    rw [htypes]
    exact Nat.lt_of_lt_of_le hassigned hgrown.types.size_le
  · show _ < after.program.types.entries.size
    rw [htypes]
    exact htype
  · rw [htypes]
    exact hnarrows

end ResolveState.Ready

/-! ## The assignments of a file -/

/-- The assignment that is handed on. -/
def Bound.assignment? : Bound → Option PendingAssignment
  | declaration _ _ => none
  | assignment a => some a

/-- What is handed on is an assignment exactly when it is handed on as one. -/
theorem Bound.assignment?_eq_some {b : Bound} {a : PendingAssignment} :
    b.assignment? = some a ↔ b = .assignment a := by
  cases b with
  | declaration id made => simp [assignment?]
  | assignment made => simp [assignment?]

mutual

/-- Blocks open scopes from the next one on. -/
theorem Statement.le_of_mem_blocks (statement : Statement) (enclosing : List ScopeId) (next : Nat) :
    ∀ block ∈ statement.blocks enclosing next, next ≤ block.id.index := by
  cases statement with
  | block node body =>
    refine List.forall_mem_cons.mpr ⟨Nat.le_refl next, fun block hblock => ?_⟩
    exact Nat.le_of_succ_le (le_of_mem_blocksOf body _ _ block hblock)
  | _ => exact nofun

/-- The blocks in statements have numbers from the next one on. -/
theorem le_of_mem_blocksOf (list : List Statement) (enclosing : List ScopeId) (next : Nat) :
    ∀ block ∈ blocksOf enclosing next list, next ≤ block.id.index := by
  cases list with
  | nil => exact nofun
  | cons first rest =>
    refine List.forall_mem_append.mpr ⟨first.le_of_mem_blocks enclosing next, ?_⟩
    exact fun block hblock => Nat.le_of_add_right_le (le_of_mem_blocksOf rest _ _ block hblock)

end

namespace Program

/-- The state in which everything that a file declares is resolved and some of what was bound is
recorded. -/
def recordedIn (program : Program) (file : SourceFile) (recorded : List Bound) : ResolveState :=
  let bound := program.boundIn file
  ((Resolve.recording bound.1.1 bound.1.2 recorded).run ⟨bound.2, []⟩).2

/-- After everything bound is recorded, the file is resolved. -/
theorem recordedIn_bound (program : Program) (file : SourceFile) :
    program.recordedIn file (program.boundIn file).1.2 = program.resolvedIn file :=
  rfl

/-- An assignment of a file, in the state after those before it, makes the one that is recorded. -/
structure Makes (program : Program) (file : SourceFile) (earlier : List Bound)
    (a : PendingAssignment) (assigned : TypeId) (made : Assignment) : Prop where
  assigns : (program.recordedIn file earlier).Assigns ⟨program.files.size⟩
    (Resolve.pendingOf (program.boundIn file).1.2) a assigned made
  hasSymbol : (program.recordedIn file earlier).program.HasSymbol made.symbol
  hasAssigned : (program.recordedIn file (earlier ++ [.assignment a])).program.HasType assigned
  hasType : (program.recordedIn file (earlier ++ [.assignment a])).program.HasType made.type
  narrows : (program.recordedIn file (earlier ++ [.assignment a])).program.types.Narrows
    ((program.recordedIn file earlier).program.symbol made.symbol).type assigned made.type

namespace Compiled

variable {program : Program} (h : program.Compiled) {file : SourceFile} {text : List Char}
  (hplaced : ∀ statement ∈ file.statements, statement.Placed text)
include h hplaced

/-- Recording does not fail, and every declared symbol stays resolved. -/
theorem recordedIn {recorded : List Bound} (hsub : recorded ⊆ (program.boundIn file).1.2) :
    (Guarded.recording ⟨program.files.size⟩ (program.boundIn file).1.2 recorded).run
        ⟨(program.boundIn file).2, []⟩ = some ((), program.recordedIn file recorded) ∧
      (program.recordedIn file recorded).WellFormed ⟨program.files.size⟩ text.length
        (Resolve.pendingOf (program.boundIn file).1.2) ∧
      (program.boundIn file).2.Extends (program.recordedIn file recorded).program ∧
      ∀ id, (Resolve.pendingOf (program.boundIn file).1.2).Declares id →
        id ∈ (program.recordedIn file recorded).resolved := by
  obtain ⟨-, hwell, -, hfile, hbound⟩ := h.wellFormed.boundIn hplaced
  have hstart : ResolveState.WellFormed (program.boundIn file).1.1 text.length
      (Resolve.pendingOf (program.boundIn file).1.2) ⟨(program.boundIn file).2, []⟩ :=
    ⟨hwell, hfile, Guarded.pendingOf_of hbound, nofun⟩
  obtain ⟨hrun, hend, hext, hresolved⟩ := Guarded.recording_safe hsub hbound hstart
  exact ⟨hrun, hend, hext.program, hresolved⟩

/-- What is recorded later is recorded in the state after what is recorded before. -/
theorem recordedIn_append {earlier later : List Bound}
    (hsub : earlier ++ later ⊆ (program.boundIn file).1.2) :
    (later.forM (Guarded.record ⟨program.files.size⟩
        (Resolve.pendingOf (program.boundIn file).1.2))).run (program.recordedIn file earlier) =
      some ((), program.recordedIn file (earlier ++ later)) := by
  obtain ⟨hrun, -⟩ := h.recordedIn hplaced hsub
  obtain ⟨hrun', -⟩ := h.recordedIn hplaced (List.append_subset.mp hsub).1
  rw [Guarded.recording_append, StateT.run_bind, hrun'] at hrun
  exact hrun

/-- After any part of what was bound is recorded, every declared symbol is resolved. -/
theorem recordedIn_ready {recorded : List Bound} (hsub : recorded ⊆ (program.boundIn file).1.2) :
    (program.recordedIn file recorded).Ready ⟨program.files.size⟩ text.length
      (Resolve.pendingOf (program.boundIn file).1.2) := by
  obtain ⟨-, hwell, -, hresolved⟩ := h.recordedIn hplaced hsub
  obtain ⟨hstart, -⟩ := h.recordedIn hplaced (List.nil_subset _)
  obtain ⟨hexplains, -⟩ :=
    Guarded.declarations_ends (h.sorted.boundIn file) (h.boundIn_tidy file) hstart
  have hafter : ((recorded.forM (Guarded.record ⟨program.files.size⟩
      (Resolve.pendingOf (program.boundIn file).1.2))).run (program.recordedIn file [])) =
        some ((), program.recordedIn file ([] ++ recorded)) :=
    h.recordedIn_append hplaced hsub
  obtain ⟨horderly, hrecords, -⟩ :=
    Guarded.records_ends recorded _ _ hafter (hexplains.sorted.orderly hexplains.tidy)
  have hreaches : TypeTable.initial.Reaches (program.recordedIn file recorded).program.types :=
    ((h.reaches.trans (program.boundIn_binds file).1.reaches).trans hexplains.reaches).trans
      hrecords.reaches
  refine ⟨hwell, horderly, TypeTable.initial_canonical.reaches hreaches, fun id hid => ⟨hid, ?_⟩⟩
  cases hdeclarations : (Resolve.pendingOf (program.boundIn file).1.2).declarationsOf id with
  | nil => exact .inr rfl
  | cons first rest =>
    exact .inl (hresolved id ⟨first, Pending.mem_of_declarationsOf hdeclarations⟩)

/-- Recording further assignments only adds to those recorded. -/
theorem recordedIn_records {earlier later : List Bound}
    (hsub : earlier ++ later ⊆ (program.boundIn file).1.2) :
    (program.recordedIn file earlier).Records ⟨program.files.size⟩
      (Resolve.pendingOf (program.boundIn file).1.2) []
      (program.recordedIn file (earlier ++ later)) := by
  have hready := h.recordedIn_ready hplaced (List.append_subset.mp hsub).1
  exact (Guarded.records_ends later _ _ (h.recordedIn_append hplaced hsub) hready.orderly).2.1

omit h hplaced in
/-- Nothing is recorded in the scopes of a file while its names are bound. -/
theorem boundIn_assignments {block : BlockScope} (hblock : block ∈ program.openedBy file) :
    ((program.boundIn file).2.scope block.id).assignments = [] := by
  have hnew : program.scopes.size ≤ block.id.index := by
    rcases List.mem_cons.mp hblock with rfl | hmem
    · exact Nat.le_refl _
    · exact Nat.le_of_succ_le (le_of_mem_blocksOf _ _ _ block hmem)
  rw [(program.boundIn_binds file).1.assignments]
  exact congrArg Scope.assignments (scope_of_le hnew)

/-- Nothing is recorded in the scopes of a file before its assignments are. -/
theorem recordedIn_nil {block : BlockScope} (hblock : block ∈ program.openedBy file) :
    ((program.recordedIn file []).program.scope block.id).assignments = [] := by
  obtain ⟨hstart, -⟩ := h.recordedIn hplaced (List.nil_subset _)
  obtain ⟨-, hscopes⟩ :=
    Guarded.declarations_ends (h.sorted.boundIn file) (h.boundIn_tidy file) hstart
  have hsame : (program.recordedIn file []).program.scope block.id =
      (program.boundIn file).2.scope block.id :=
    congrArg (fun scopes => scopes[block.id.index]?.getD default) hscopes
  rw [hsame]
  exact boundIn_assignments hblock

/-- One more assignment is recorded in the state after those before it. -/
theorem recordedIn_assignment {earlier : List Bound} {a : PendingAssignment}
    (hsub : earlier ++ [.assignment a] ⊆ (program.boundIn file).1.2) :
    (Bound.assignment a).Fits (program.recordedIn file earlier).program text.length ∧
      program.recordedIn file (earlier ++ [.assignment a]) =
        ((Resolve.assignment ⟨program.files.size⟩
          (Resolve.pendingOf (program.boundIn file).1.2) a).run
            (program.recordedIn file earlier)).2 := by
  have hrun := h.recordedIn_append hplaced hsub
  obtain ⟨hbefore, hlast⟩ := List.append_subset.mp hsub
  obtain ⟨-, hwell, hext, -⟩ := h.recordedIn hplaced hbefore
  obtain ⟨-, -, -, -, hbound⟩ := h.wellFormed.boundIn hplaced
  have ha := (hbound _ (hlast List.mem_cons_self)).mono hext
  obtain ⟨hassignment, -⟩ := Guarded.assignment_safe ha hwell
  change (Guarded.assignment _ _ a >>= fun _ => pure ()).run _ = _ at hrun
  rw [StateT.run_bind, hassignment] at hrun
  exact ⟨ha, (congrArg Prod.snd (Option.some.inj hrun)).symm⟩

/-- What is recorded after one more was bound was recorded before, or it is made by that. -/
theorem recorded_step {earlier : List Bound} {b : Bound}
    (hsub : earlier ++ [b] ⊆ (program.boundIn file).1.2) {scope : ScopeId} {made : Assignment}
    (hmade : made ∈
      ((program.recordedIn file (earlier ++ [b])).program.scope scope).assignments) :
    made ∈ ((program.recordedIn file earlier).program.scope scope).assignments ∨
      ∃ a assigned, b = .assignment a ∧ a.scope = scope ∧
        program.Makes file earlier a assigned made := by
  have hrun := h.recordedIn_append hplaced hsub
  obtain ⟨hbefore, hlast⟩ := List.append_subset.mp hsub
  cases b with
  | declaration id declaration =>
    have hsame : program.recordedIn file (earlier ++ [.declaration id declaration]) =
        program.recordedIn file earlier :=
      (congrArg Prod.snd (Option.some.inj hrun)).symm
    rw [hsame] at hmade
    exact .inl hmade
  | assignment a =>
    obtain ⟨ha, hafter⟩ := h.recordedIn_assignment hplaced hsub
    rcases (h.recordedIn_ready hplaced hbefore).assignment ha with hsame |
      ⟨assigned, made', hassigns, hsymbol, hother, hassigned, htype, hnarrows⟩
    · left
      have hscope := congrArg (fun scopes => scopes[scope.index]?.getD default) hsame
      rw [← hafter] at hscope
      exact (congrArg Scope.assignments hscope) ▸ hmade
    rw [← hafter] at hother hassigned htype hnarrows
    by_cases hscope : scope = a.scope
    · obtain rfl := hscope
      rw [hafter, hassigns.recorded, List.mem_append, List.mem_singleton] at hmade
      refine hmade.imp_right ?_
      rintro rfl
      exact ⟨a, assigned, rfl, rfl, hassigns, hsymbol, hassigned, htype, hnarrows⟩
    · rw [hother scope hscope] at hmade
      exact .inl hmade

/-- Whatever is recorded in the scopes of a file is made by one of its assignments. -/
theorem recorded_of_mem {recorded : List Bound} (hsub : recorded ⊆ (program.boundIn file).1.2)
    {block : BlockScope} (hblock : block ∈ program.openedBy file) {made : Assignment}
    (hmade : made ∈ ((program.recordedIn file recorded).program.scope block.id).assignments) :
    ∃ earlier a later assigned, recorded = earlier ++ .assignment a :: later ∧
      a.scope = block.id ∧ program.Makes file earlier a assigned made := by
  induction recorded using List.reverseRecOn with
  | nil =>
    rw [h.recordedIn_nil hplaced hblock] at hmade
    cases hmade
  | append_singleton earlier b ih =>
    rcases h.recorded_step hplaced hsub hmade with hold | ⟨a, assigned, rfl, hscope, hmakes⟩
    · obtain ⟨earlier', a, later, assigned, rfl, hrest⟩ :=
        ih (List.append_subset.mp hsub).1 hold
      exact ⟨earlier', a, later ++ [b], assigned, by simp, hrest⟩
    · exact ⟨earlier, a, [], assigned, rfl, hscope, hmakes⟩

/-- The states before and after one assignment of a file, and what is recorded from there on. -/
theorem recordedIn_around {earlier later : List Bound} {a : PendingAssignment}
    (hbound : (program.boundIn file).1.2 = earlier ++ .assignment a :: later) :
    (program.recordedIn file earlier).Ready ⟨program.files.size⟩ text.length
        (Resolve.pendingOf (program.boundIn file).1.2) ∧
      (program.recordedIn file (earlier ++ [.assignment a])).Ready ⟨program.files.size⟩ text.length
        (Resolve.pendingOf (program.boundIn file).1.2) ∧
      (program.recordedIn file earlier).Records ⟨program.files.size⟩
        (Resolve.pendingOf (program.boundIn file).1.2) []
        (program.recordedIn file (earlier ++ [.assignment a])) ∧
      (program.recordedIn file (earlier ++ [.assignment a])).Records ⟨program.files.size⟩
        (Resolve.pendingOf (program.boundIn file).1.2) [] (program.resolvedIn file) := by
  let bound := (program.boundIn file).1.2
  have hall : (earlier ++ [.assignment a]) ++ later = bound := by
    rw [List.append_assoc]
    exact hbound.symm
  have hsub : (earlier ++ [.assignment a]) ++ later ⊆ bound :=
    hall ▸ List.Subset.refl _
  have hend : program.recordedIn file ((earlier ++ [.assignment a]) ++ later) =
      program.resolvedIn file := by
    rw [hall]
    exact program.recordedIn_bound file
  have hfirst := (List.append_subset.mp hsub).1
  have hlast := h.recordedIn_records hplaced hsub
  rw [hend] at hlast
  exact ⟨h.recordedIn_ready hplaced (List.append_subset.mp hfirst).1,
    h.recordedIn_ready hplaced hfirst, h.recordedIn_records hplaced hfirst, hlast⟩

/-- When everything is resolved, the variable has the type that it was declared with, and what its
type was narrowed to still covers the same parts of the value. -/
theorem narrows_resolvedIn {earlier later : List Bound} {a : PendingAssignment} {assigned : TypeId}
    {made : Assignment}
    (hbound : (program.boundIn file).1.2 = earlier ++ .assignment a :: later)
    (hmakes : program.Makes file earlier a assigned made) :
    (program.add file).2.HasSymbol made.symbol ∧
      (program.add file).2.HasType assigned ∧ (program.add file).2.HasType made.type ∧
      (program.add file).2.types.Narrows ((program.add file).2.symbol made.symbol).type assigned
        made.type := by
  obtain ⟨hready, hready₁, hrecords₁, hrecords₂⟩ := h.recordedIn_around hplaced hbound
  have hrecords := hrecords₁.trans hrecords₂
  have hdeclared := hready.wellFormed.program.symbol_type hmakes.hasSymbol
  have htype : ((program.add file).2.symbol made.symbol).type =
      ((program.recordedIn file earlier).program.symbol made.symbol).type :=
    hrecords.type_eq (hready.settled _ hmakes.hasSymbol)
  refine ⟨hrecords.hasSymbol hmakes.hasSymbol,
    Nat.lt_of_lt_of_le hmakes.hasAssigned hrecords₂.kept.size_le,
    Nat.lt_of_lt_of_le hmakes.hasType hrecords₂.kept.size_le, ?_⟩
  rw [htype]
  exact hmakes.narrows.kept hrecords₂.kept hready₁.canonical
    (Nat.lt_of_lt_of_le hdeclared hrecords₁.types.size_le) hmakes.hasAssigned hmakes.hasType

/-- This is still so when the program grows. -/
theorem narrows_of_mem {all : Program} (hgrows : (program.add file).2.Grows all)
    {block : BlockScope} (hblock : block ∈ program.openedBy file) {made : Assignment}
    (hmade : made ∈ (all.scope block.id).assignments) :
    ∃ earlier a later assigned,
      (program.boundIn file).1.2 = earlier ++ .assignment a :: later ∧ a.scope = block.id ∧
      (program.recordedIn file earlier).Assigns ⟨program.files.size⟩
        (Resolve.pendingOf (program.boundIn file).1.2) a assigned made ∧
      all.types.Narrows (all.symbol made.symbol).type assigned made.type := by
  have hadded := h.add hplaced
  obtain ⟨own, hown, -⟩ := (h.add_opens hplaced).held block hblock
  rw [hgrows.scope_eq (HasScope.of_scope? hown).1] at hmade
  obtain ⟨earlier, a, later, assigned, hbound, hscope, hmakes⟩ :=
    h.recorded_of_mem hplaced (List.Subset.refl _) hblock hmade
  obtain ⟨hsymbol, hassigned, htype, hnarrows⟩ := h.narrows_resolvedIn hplaced hbound hmakes
  have hdeclared := hadded.wellFormed.symbol_type hsymbol
  have hcanonical := TypeTable.initial_canonical.reaches hadded.reaches
  refine ⟨earlier, a, later, assigned, hbound, hscope, hmakes.assigns, ?_⟩
  rw [hgrows.symbol_eq hsymbol]
  exact hnarrows.kept hgrows.types hcanonical hdeclared hassigned htype

end Compiled

/-- Every assignment that is recorded in a scope of a compiled text, which may have errors, is made
by one of the text in the state of resolution after those before it. If the variable is declared
with a union, what is recorded is that union, or it covers those parts of the value that the union
covers. -/
theorem narrowing_covers (before : List (String × String)) (name text : String)
    (after : List (String × String)) :
    let host := ofTexts before
    let file := (SourceFile.parse name text).tree
    let bound := (host.boundIn file).1.2
    let program := ofTexts (before ++ (name, text) :: after)
    ∃ info, program.file? ⟨before.length⟩ = some info ∧
      ∀ scope ∈ info.scopes, ∀ made ∈ (program.scope scope).assignments,
        ∃ earlier a later assigned, bound = earlier ++ .assignment a :: later ∧ a.scope = scope ∧
          (host.recordedIn file earlier).Assigns ⟨before.length⟩ (Resolve.pendingOf bound) a assigned
            made ∧
          ∀ members, program.types.get (program.symbol made.symbol).type = .union members →
            made.type = (program.symbol made.symbol).type ∨
              ∀ part ∈ program.types.constituents assigned,
                (program.types.Covers made.type part ↔
                  program.types.Covers (program.symbol made.symbol).type part) := by
  intro host file bound program
  obtain ⟨hcompiled, hsize⟩ := ofTexts_compiled before
  have hplaced := (SourceFile.parse_placed name text).1
  have hadded := hcompiled.add hplaced
  have hgrows : (host.add file).2.Grows program := by
    obtain ⟨-, hgrows, -⟩ := hadded.addTexts after
    rw [show program = _ from ofTexts_append before (name, text) after]
    exact hgrows
  have hopens := hcompiled.add_opens hplaced
  have hopens' := hopens.mono hgrows
  rw [hsize] at hopens'
  obtain ⟨info, hinfo, heq⟩ := Option.map_eq_some_iff.mp hopens'.listed
  refine ⟨info, hinfo, fun scope hscope made hmade => ?_⟩
  rw [(Prod.mk.inj heq).2] at hscope
  obtain ⟨block, hblock, rfl⟩ := List.mem_map.mp hscope
  obtain ⟨earlier, a, later, assigned, hbound, hat, hassigns, hnarrows⟩ :=
    hcompiled.narrows_of_mem hplaced hgrows hblock hmade
  rw [hsize] at hassigns
  exact ⟨earlier, a, later, assigned, hbound, hat, hassigns, hnarrows⟩

/-- A variable of a union of strings and numbers is taken for a number once it is assigned one. -/
theorem narrowing_covers_number : ∃ program,
    program = ofTexts [("file", "let x: string | number; x = 1;")] ∧
      ∃ made ∈ (program.scope ⟨0⟩).assignments, ∃ assigned,
        program.types.get (program.symbol made.symbol).type =
          .union [.ofWord .string, .ofWord .number] ∧
        (made.type = (program.symbol made.symbol).type ∨
          ∀ part ∈ program.types.constituents assigned,
            (program.types.Covers made.type part ↔
              program.types.Covers (program.symbol made.symbol).type part)) := by
  obtain ⟨info, hinfo, hall⟩ := narrowing_covers [] "file" "let x: string | number; x = 1;" []
  have hscopes : ((ofTexts [("file", "let x: string | number; x = 1;")]).file? ⟨0⟩).map
      FileInfo.scopes = some [⟨0⟩] := by
    decide +kernel
  have hmade : ((ofTexts [("file", "let x: string | number; x = 1;")]).scope ⟨0⟩).assignments =
      [⟨⟨1⟩, 30, .ofWord .number⟩] := by
    decide +kernel
  have hunion : (ofTexts [("file", "let x: string | number; x = 1;")]).types.get
      ((ofTexts [("file", "let x: string | number; x = 1;")]).symbol ⟨1⟩).type =
        .union [.ofWord .string, .ofWord .number] := by
    decide +kernel
  change (ofTexts [("file", "let x: string | number; x = 1;")]).file? ⟨0⟩ = some info at hinfo
  change ∀ scope ∈ info.scopes, ∀ made ∈
    ((ofTexts [("file", "let x: string | number; x = 1;")]).scope scope).assignments, _ at hall
  rw [hinfo] at hscopes
  have hmem : (⟨0⟩ : ScopeId) ∈ info.scopes := by
    rw [Option.some.inj hscopes]
    exact List.mem_singleton.mpr rfl
  have hmem' : (⟨⟨1⟩, 30, .ofWord .number⟩ : Assignment) ∈
      ((ofTexts [("file", "let x: string | number; x = 1;")]).scope ⟨0⟩).assignments := by
    rw [hmade]
    exact List.mem_singleton.mpr rfl
  obtain ⟨earlier, a, later, assigned, -, -, -, hcovers⟩ := hall _ hmem _ hmem'
  exact ⟨_, rfl, _, hmem', assigned, hunion, hcovers _ hunion⟩

/-- The members of a declared union that a part of the value may belong to are dropped if another
part belongs to a member: a variable that may be `true`, `false` or a string is taken for a string
when it is assigned a value that is a boolean or a string. -/
theorem narrowing_excludes_boolean :
    let file := (SourceFile.parse "test.d.ts"
      "let x: true | false | string;\nlet y: boolean | string;\nx = y;\n").tree
    let bound := (Program.empty.boundIn file).1.2
    let program := ofTexts [("test.d.ts",
      "let x: true | false | string;\nlet y: boolean | string;\nx = y;\n")]
    ∃ made ∈ (program.scope ⟨0⟩).assignments, ∃ earlier a later assigned,
      bound = earlier ++ .assignment a :: later ∧ a.scope = ⟨0⟩ ∧
      (Program.empty.recordedIn file earlier).Assigns ⟨0⟩ (Resolve.pendingOf bound) a assigned
        made ∧
      (∃ members, program.types.get (program.symbol made.symbol).type = .union members) ∧
      made.type ≠ (program.symbol made.symbol).type ∧
      ∃ part ∈ program.types.constituents assigned, ¬program.types.Covers made.type part := by
  intro file bound program
  have hmade : (program.scope ⟨0⟩).assignments = [⟨⟨1⟩, 61, .ofWord .string⟩] := by
    decide +kernel
  have hassigns : ∃ a ∈ bound[2]?.bind Bound.assignment?, a.scope = ⟨0⟩ ∧
      (Program.empty.recordedIn file (bound.take 2)).Assigns ⟨0⟩ (Resolve.pendingOf bound) a
        ⟨16⟩ ⟨⟨1⟩, 61, .ofWord .string⟩ := by
    decide +kernel
  have hnarrowed : (∃ members ∈ [[TypeId.ofBoolean true, .ofBoolean false, .ofWord .string]],
        program.types.get (program.symbol ⟨1⟩).type = .union members) ∧
      TypeId.ofWord .string ≠ (program.symbol ⟨1⟩).type ∧
      ∃ part ∈ program.types.constituents ⟨16⟩,
        ¬program.types.Covers (.ofWord .string) part := by
    decide +kernel
  obtain ⟨⟨members, -, hunion⟩, hne, part, hpart, hnot⟩ := hnarrowed
  obtain ⟨a, ha, hscope, hassigns⟩ := hassigns
  obtain ⟨b, hfound, hb⟩ := Option.bind_eq_some_iff.mp ha
  obtain rfl := Bound.assignment?_eq_some.mp hb
  obtain ⟨hlt, hget⟩ := List.getElem?_eq_some_iff.mp hfound
  have hsplit : bound = bound.take 2 ++ .assignment a :: bound.drop 3 := by
    rw [← hget, ← List.drop_eq_getElem_cons hlt, List.take_append_drop]
  refine ⟨⟨⟨1⟩, 61, .ofWord .string⟩, ?_, bound.take 2, a, bound.drop 3, ⟨16⟩, hsplit, hscope,
    hassigns, ⟨members, hunion⟩, hne, part, hpart, hnot⟩
  rw [hmade]
  exact List.mem_singleton.mpr rfl

end Program

end ExpressionTyping
