import ExpressionTyping.Proofs.Program.Embedding

/-!
# Building a program and its copy in step

A computation that builds a program alone and one that builds it inside another program are compared
by a relational triple: `Follows inv links p q Q` says that from states related by `inv links` the
runs of `p` and `q` end in states related by `inv` at more links, with results related by `Q`. Links
only grow, so what was linked once stays linked to the end.

Each step that builds programs follows itself. The one that needs an argument is sharing: a type
that is new in the program alone may already be there in the other one, at a place that is the copy
of nothing yet.
-/

set_option autoImplicit false

namespace ExpressionTyping

/-! ## The triple -/

section Follows

variable {κ σ τ α β γ δ : Type} [Preorder κ]

/-- From related states the runs end in related states and give related results. -/
def Follows (inv : κ → σ → τ → Prop) (links : κ) (p : StateM σ α) (q : StateM τ β)
    (Q : κ → α → β → Prop) : Prop :=
  ∀ s t, inv links s t → ∃ links', links ≤ links' ∧ inv links' (p.run s).2 (q.run t).2 ∧
    Q links' (p.run s).1 (q.run t).1

namespace Follows

variable {inv : κ → σ → τ → Prop} {links : κ}

/-- Related results from related states follow on each other. -/
theorem pure {Q : κ → α → β → Prop} {a : α} {b : β} (h : Q links a b) :
    Follows inv links (Pure.pure a) (Pure.pure b) Q :=
  fun _ _ hst => ⟨links, le_rfl, hst, h⟩

/-- Runs that follow on each other do so in a row, with whatever was linked by the first. -/
theorem bind {p : StateM σ α} {q : StateM τ β} {P : κ → α → β → Prop} {f : α → StateM σ γ}
    {g : β → StateM τ δ} {Q : κ → γ → δ → Prop} (h : Follows inv links p q P)
    (hnext : ∀ links', links ≤ links' → ∀ a b, P links' a b → Follows inv links' (f a) (g b) Q) :
    Follows inv links (p >>= f) (q >>= g) Q := by
  intro s t hst
  obtain ⟨links', hle, hinv, hP⟩ := h s t hst
  obtain ⟨links'', hle', hinv', hQ⟩ := hnext links' hle _ _ hP _ _ hinv
  exact ⟨links'', hle.trans hle', hinv', hQ⟩

/-- What follows may be weakened, also in all later links. -/
theorem imp {p : StateM σ α} {q : StateM τ β} {P Q : κ → α → β → Prop} (h : Follows inv links p q P)
    (himp : ∀ links', links ≤ links' → ∀ a b, P links' a b → Q links' a b) :
    Follows inv links p q Q := by
  intro s t hst
  obtain ⟨links', hle, hinv, hP⟩ := h s t hst
  exact ⟨links', hle, hinv, himp links' hle _ _ hP⟩

/-- Both look at their states. -/
theorem get : Follows inv links MonadState.get MonadState.get inv :=
  fun _ _ hst => ⟨links, le_rfl, hst, hst⟩

/-- Both go through lists whose elements correspond. -/
theorem forM_map {f : γ → δ} {p : γ → StateM σ PUnit} {q : δ → StateM τ PUnit} (xs : List γ)
    (h : ∀ links', links ≤ links' → ∀ x ∈ xs,
      Follows inv links' (p x) (q (f x)) fun _ _ _ => True) :
    Follows inv links (xs.forM p) ((xs.map f).forM q) fun _ _ _ => True := by
  induction xs generalizing links with
  | nil => exact pure trivial
  | cons x rest ih =>
    refine (h links le_rfl x List.mem_cons_self).bind fun links' hle _ _ _ => ih ?_
    intro links'' hle' y hy
    exact h links'' (hle.trans hle') y (List.mem_cons_of_mem x hy)

end Follows

end Follows

/-! ## Growing links -/

/-- Dropping repetitions on both sides keeps elements together that correspond one to one. -/
theorem Forall₂.eraseDups {α β : Type} [BEq α] [LawfulBEq α] [BEq β] [LawfulBEq β]
    {R : α → β → Prop} (hR : ∀ {a b a' b'}, R a b → R a' b' → (a = a' ↔ b = b')) :
    ∀ {as : List α} {bs : List β}, List.Forall₂ R as bs → List.Forall₂ R as.eraseDups bs.eraseDups
  | [], [], _ => .nil
  | a :: as, b :: bs, .cons hab h => by
    rw [List.eraseDups_cons, List.eraseDups_cons]
    -- the recursion is on what the filter leaves, which is no tail of the list but shorter
    refine .cons hab (Forall₂.eraseDups hR (List.rel_filter ?_ h))
    intro a' b' hab'
    simp [hR hab' hab]
termination_by as => as.length
decreasing_by exact Nat.lt_succ_of_le (List.length_filter_le _ _)

namespace Links

/-- The links with the sort of one more symbol. -/
def addSort (links : Links) (id : SymbolId) (sort : SymbolSort) : Links :=
  { links with sorts := fun i s => links.sorts i s ∨ i = id ∧ s = sort }

/-- Links grow by the sort of a symbol. -/
theorem le_addSort (links : Links) (id : SymbolId) (sort : SymbolSort) :
    links ≤ links.addSort id sort :=
  ⟨fun _ _ h => h, fun _ _ => .inl, Nat.le_refl _⟩

/-- The links with so many files known. -/
def withFiles (links : Links) (count : Nat) : Links :=
  { links with files := count }

/-- Links grow by a number of files. -/
theorem le_withFiles {links : Links} {count : Nat} (h : links.files ≤ count) :
    links ≤ links.withFiles count :=
  ⟨fun _ _ => id, fun _ _ => id, h⟩

/-- The links with one more, between two places that have none. -/
def link (links : Links) (a b : TypeId) (ha : ∀ b', ¬ links.types a b')
    (hb : ∀ a', ¬ links.types a' b) : Links where
  types x y := links.types x y ∨ x = a ∧ y = b
  sorts := links.sorts
  files := links.files
  oneToOne := by
    rintro x y x' y' (h | ⟨rfl, rfl⟩) (h' | ⟨rfl, rfl⟩)
    · exact links.oneToOne h h'
    · constructor
      · rintro rfl
        exact absurd h (ha y)
      · rintro rfl
        exact absurd h (hb x)
    · constructor
      · rintro rfl
        exact absurd h' (ha y')
      · rintro rfl
        exact absurd h' (hb x')
    · exact iff_of_true rfl rfl
  wellKnown i hi := .inl (links.wellKnown i hi)

/-- Links grow by two places that have no link yet. -/
theorem le_link {links : Links} {a b : TypeId} (ha : ∀ b', ¬ links.types a b')
    (hb : ∀ a', ¬ links.types a' b) : links ≤ links.link a b ha hb :=
  ⟨fun _ _ => .inl, fun _ _ => id, Nat.le_refl _⟩

/-- Types are linked to one list of types only. -/
theorem forall₂_right_unique {links : Links} {as bs cs : List TypeId}
    (hb : List.Forall₂ links.types as bs) (hc : List.Forall₂ links.types as cs) : bs = cs := by
  induction hb generalizing cs with
  | nil =>
    cases hc
    rfl
  | cons hab _ ih =>
    obtain _ | ⟨hac, hc⟩ := hc
    rw [(links.oneToOne hab hac).mp rfl, ih hc]

/-- Lists of types that are linked to one list are the same. -/
theorem forall₂_left_unique {links : Links} {as bs cs : List TypeId}
    (ha : List.Forall₂ links.types as cs) (hb : List.Forall₂ links.types bs cs) : as = bs := by
  induction ha generalizing bs with
  | nil =>
    cases hb
    rfl
  | cons hac _ ih =>
    obtain _ | ⟨hbc, hb⟩ := hb
    rw [(links.oneToOne hac hbc).mpr rfl, ih hb]

end Links

/-! ## Shared types -/

namespace TypeData.Matches

variable {base : Program} {links : Links} {data data' : TypeData}

/-- A type and its copy are shared or neither is. -/
theorem isShared (h : data.Matches base links data') : data'.isShared = data.isShared := by
  cases h <;> rfl

/-- A shared type determines its copy. -/
theorem right_unique {other : TypeData} (h : data.Matches base links data')
    (h' : data.Matches base links other) (hshared : data.isShared = true) : data' = other := by
  cases h with
  | intrinsic | booleanLiteral | object => cases hshared
  | stringLiteral | numberLiteral =>
    cases h'
    rfl
  | array hab =>
    obtain _ | _ | _ | _ | _ | hac := h'
    rw [(links.oneToOne hab hac).mp rfl]
  | union hab =>
    obtain _ | _ | _ | _ | _ | _ | hac := h'
    rw [Links.forall₂_right_unique hab hac]

/-- A shared type is determined by its copy. -/
theorem left_unique {other : TypeData} (h : data.Matches base links data')
    (h' : other.Matches base links data') (hshared : data.isShared = true) : data = other := by
  cases h with
  | intrinsic | booleanLiteral | object => cases hshared
  | stringLiteral | numberLiteral =>
    cases h'
    rfl
  | array hac =>
    obtain _ | _ | _ | _ | _ | hbc := h'
    rw [(links.oneToOne hac hbc).mpr rfl]
  | union hac =>
    obtain _ | _ | _ | _ | _ | _ | hbc := h'
    rw [Links.forall₂_left_unique hac hbc]

end TypeData.Matches

namespace TypeTable

variable {table : TypeTable} {data : TypeData}

/-- A type is shared with one that looks the same, else it is added. -/
theorem share_cases (table : TypeTable) (data : TypeData) :
    (∃ i : Nat, table.entries[i]? = some data ∧ table.share data = (⟨i⟩, table)) ∨
      (∀ i : Nat, table.entries[i]? ≠ some data) ∧ table.share data = table.add data := by
  unfold share
  cases hfound : table.entries.findIdx? (· == data) with
  | some i =>
    obtain ⟨hi, hdata, -⟩ := Array.findIdx?_eq_some_iff_getElem.mp hfound
    refine .inl ⟨i, ?_, rfl⟩
    rw [Array.getElem?_eq_getElem hi, eq_of_beq hdata]
  | none =>
    refine .inr ⟨fun i hi => ?_, rfl⟩
    obtain ⟨hlt, heq⟩ := Array.getElem?_eq_some_iff.mp hi
    have hne := Array.findIdx?_eq_none_iff.mp hfound _ (Array.getElem_mem hlt)
    rw [heq] at hne
    simp at hne

/-- Adding a type that is not shared, or is not there, keeps shared types at one place only. -/
theorem SharedOnce.add (h : table.SharedOnce)
    (hnew : data.isShared = true → ∀ i : Nat, table.entries[i]? ≠ some data) :
    (table.add data).2.SharedOnce := by
  intro i j other hshared hi hj
  change (table.entries.push data)[i]? = some other at hi
  change (table.entries.push data)[j]? = some other at hj
  rw [Array.getElem?_push] at hi hj
  split at hi <;> split at hj
  · omega
  · cases hi
    exact absurd hj (hnew hshared j)
  · cases hj
    exact absurd hi (hnew hshared i)
  · exact h hshared hi hj

/-- Only objects are changed at their places, which are not shared. -/
theorem updateObject_shared {id : TypeId}
    {f : SymbolTable SymbolId → List Signature → SymbolTable SymbolId × List Signature} {i : Nat}
    (hshared : data.isShared = true) (h : (table.updateObject id f).entries[i]? = some data) :
    table.entries[i]? = some data := by
  unfold updateObject at h
  rw [Array.getElem?_modify] at h
  split at h
  · obtain ⟨old, hold, rfl⟩ := Option.map_eq_some_iff.mp h
    rw [hold]
    cases old with
    | object => cases hshared
    | _ => rfl
  · exact h

/-- Changing an object at its place keeps shared types at one place only. -/
theorem SharedOnce.updateObject (h : table.SharedOnce) (id : TypeId)
    (f : SymbolTable SymbolId → List Signature → SymbolTable SymbolId × List Signature) :
    (table.updateObject id f).SharedOnce := by
  intro i j data hshared hi hj
  exact h hshared (updateObject_shared hshared hi) (updateObject_shared hshared hj)

end TypeTable

/-! ## Steps on both programs -/

namespace Embeds

variable {base own all : Program} {links : Links}

/-- Linked places stand in both tables. -/
theorem lt_of_types (h : Embeds base links own all) {a b : TypeId} (hab : links.types a b) :
    a.index < own.types.entries.size ∧ b.index < all.types.entries.size := by
  obtain ⟨data, data', hdata, hdata', -⟩ := h.types hab
  exact ⟨(Array.getElem?_eq_some_iff.mp hdata).1, (Array.getElem?_eq_some_iff.mp hdata').1⟩

/-- A type is added to the program alone, and its copy stands at a place of the other program that
was the copy of nothing: a new one, or one that was there before. -/
theorem addLinked (h : Embeds base links own all) {data data' : TypeData} {types : TypeTable}
    {b : TypeId} (hdata : data.Matches base links data')
    (hkept : ∀ (i : Nat) old, all.types.entries[i]? = some old → types.entries[i]? = some old)
    (hb : types.entries[b.index]? = some data')
    (honly : ∀ i < types.entries.size, all.types.entries.size ≤ i → i = b.index)
    (hfree : ∀ a, ¬ links.types a b) (honce : types.SharedOnce) :
    ∃ links', links ≤ links' ∧
      Embeds base links' { own with types := (own.types.add data).2 } { all with types } ∧
      links'.types (own.types.add data).1 b := by
  have hnew : ∀ b', ¬ links.types ⟨own.types.entries.size⟩ b' := by
    intro b' hab
    exact absurd (h.lt_of_types hab).1 (Nat.lt_irrefl _)
  have hle := Links.le_link hnew hfree
  refine ⟨links.link _ b hnew hfree, hle, ?_, .inr ⟨rfl, rfl⟩⟩
  constructor
  case linked =>
    intro i hi
    change i < (own.types.entries.push data).size at hi
    rw [Array.size_push] at hi
    rcases Nat.lt_succ_iff_lt_or_eq.mp hi with hi | rfl
    · obtain ⟨b', hab⟩ := h.linked i hi
      exact ⟨b', .inl hab⟩
    · exact ⟨b, .inr ⟨rfl, rfl⟩⟩
  case types =>
    rintro a' b' (hab | ⟨rfl, rfl⟩)
    · obtain ⟨old, old', hold, hold', hmatches⟩ := h.types hab
      refine ⟨old, old', ?_, hkept _ _ hold', hmatches.mono hle⟩
      show (own.types.entries.push data)[a'.index]? = some old
      rw [Array.getElem?_push, if_neg (Nat.ne_of_lt (h.lt_of_types hab).1)]
      exact hold
    · refine ⟨data, data', ?_, hb, hdata.mono hle⟩
      exact Array.getElem?_push_size
  case oldTypes =>
    intro i hi
    have hold : base.types.entries[i]? = some base.types.entries[i] := Array.getElem?_eq_getElem hi
    rw [hold]
    exact hkept i _ ((h.oldTypes i hi).trans hold)
  case newTypes =>
    intro i hbase hi
    by_cases hlt : i < all.types.entries.size
    · obtain ⟨a, ha⟩ := h.newTypes i hbase hlt
      exact ⟨a, .inl ha⟩
    · have hib : (⟨i⟩ : TypeId) = b := congrArg TypeId.mk (honly i hi (Nat.le_of_not_lt hlt))
      exact ⟨⟨own.types.entries.size⟩, .inr ⟨rfl, hib⟩⟩
  case sharedOnce => exact honce
  case sorts => exact h.sorts
  case symbols => exact h.symbols.mono fun _ _ hs => hs.mono hle
  case scopes => exact h.scopes.mono fun _ _ hs => hs.mono hle
  case files => exact h.files.mono fun _ _ hf => hf.mono hle
  case filesKnown => exact h.filesKnown
  case fileScopes => exact h.fileScopes
  case issues => exact h.issues

/-- A type is added to both programs. -/
theorem addType (h : Embeds base links own all) {data data' : TypeData}
    (hdata : data.Matches base links data')
    (hnew : data'.isShared = true → ∀ i : Nat, all.types.entries[i]? ≠ some data') :
    ∃ links', links ≤ links' ∧
      Embeds base links' { own with types := (own.types.add data).2 }
        { all with types := (all.types.add data').2 } ∧
      links'.types (own.types.add data).1 (all.types.add data').1 := by
  apply h.addLinked hdata
  · intro i old hold
    have hlt := (Array.getElem?_eq_some_iff.mp hold).1
    show (all.types.entries.push data')[i]? = some old
    rw [Array.getElem?_push, if_neg (Nat.ne_of_lt hlt)]
    exact hold
  · exact Array.getElem?_push_size
  · intro i hi hle
    change i < (all.types.entries.push data').size at hi
    rw [Array.size_push] at hi
    exact Nat.le_antisymm (Nat.lt_succ_iff.mp hi) hle
  · intro a ha
    exact absurd (h.lt_of_types ha).2 (Nat.lt_irrefl _)
  · exact h.sharedOnce.add hnew

/-- A shared type is asked for in both programs. -/
theorem share (h : Embeds base links own all) {data data' : TypeData}
    (hdata : data.Matches base links data') (hshared : data.isShared = true) :
    ∃ links', links ≤ links' ∧
      Embeds base links' { own with types := (own.types.share data).2 }
        { all with types := (all.types.share data').2 } ∧
      links'.types (own.types.share data).1 (all.types.share data').1 := by
  have hshared' : data'.isShared = true := hdata.isShared.trans hshared
  rcases own.types.share_cases data with ⟨i, hi, hown⟩ | ⟨hnone, hown⟩
  · -- it is there already, so its copy is, and at one place only
    obtain ⟨b, hab⟩ := h.linked i (Array.getElem?_eq_some_iff.mp hi).1
    obtain ⟨old, old', hold, hold', hmatches⟩ := h.types hab
    cases hi.symm.trans hold
    cases hmatches.right_unique hdata hshared
    rcases all.types.share_cases data' with ⟨j, hj, hall⟩ | ⟨hnone, -⟩
    · have hjb : (⟨j⟩ : TypeId) = b := congrArg TypeId.mk (h.sharedOnce hshared' hj hold')
      rw [hown, hall, hjb]
      exact ⟨links, le_rfl, h, hab⟩
    · exact absurd hold' (hnone b.index)
  · rcases all.types.share_cases data' with ⟨j, hj, hall⟩ | ⟨hnone', hall⟩
    · -- another file left such a type: the new one is linked to it, and nothing is added there
      rw [hown, hall]
      apply h.addLinked hdata (fun _ _ hold => hold) hj
      · intro i hi hle
        exact absurd hle (Nat.not_le.mpr hi)
      · -- a type with this copy would be the one that is not there
        intro a ha
        obtain ⟨old, old', hold, hold', hmatches⟩ := h.types ha
        cases hj.symm.trans hold'
        cases hdata.left_unique hmatches hshared
        exact hnone a.index hold
      · exact h.sharedOnce
    · rw [hown, hall]
      exact h.addType hdata fun _ => hnone'

/-- A type and its copy are made of linked types. -/
theorem constituents (h : Embeds base links own all) {a b : TypeId} (hab : links.types a b) :
    List.Forall₂ links.types (own.types.constituents a) (all.types.constituents b) := by
  have hget := h.get hab
  unfold TypeTable.constituents
  generalize own.types.get a = data at hget ⊢
  generalize all.types.get b = data' at hget ⊢
  cases hget with
  | union hmembers => exact hmembers
  | _ => exact .cons hab .nil

/-- The unions of linked types are linked, and both programs stay embedded with them. -/
theorem unionOf (h : Embeds base links own all) {ids ids' : List TypeId}
    (hids : List.Forall₂ links.types ids ids') :
    ∃ links', links ≤ links' ∧
      Embeds base links' { own with types := (own.types.unionOf ids).2 }
        { all with types := (all.types.unionOf ids').2 } ∧
      links'.types (own.types.unionOf ids).1 (all.types.unionOf ids').1 := by
  have hmembers : List.Forall₂ links.types (ids.flatMap own.types.constituents).eraseDups
      (ids'.flatMap all.types.constituents).eraseDups :=
    Forall₂.eraseDups links.oneToOne (List.rel_flatMap hids fun _ _ hab => h.constituents hab)
  unfold TypeTable.unionOf
  simp only
  generalize (ids.flatMap own.types.constituents).eraseDups = members at hmembers ⊢
  generalize (ids'.flatMap all.types.constituents).eraseDups = members' at hmembers ⊢
  -- `any` is linked to itself alone, so both unions have it or neither does
  have hany : members'.contains .any = members.contains .any := by
    induction hmembers with
    | nil => rfl
    | cons hab _ ih =>
      rw [List.contains_cons, List.contains_cons, ih]
      congr 1
      simp only [beq_eq_decide, links.oneToOne links.any hab]
  rw [hany]
  split
  · exact ⟨links, le_rfl, h, links.any⟩
  · cases hmembers with
    | nil => exact ⟨links, le_rfl, h, links.word .never⟩
    | cons hab hrest =>
      cases hrest with
      | nil => exact ⟨links, le_rfl, h, hab⟩
      | cons hab' hrest => exact h.share (.union (.cons hab (.cons hab' hrest))) rfl

/-- An object that no other file sees is changed alike in both programs. -/
theorem updateObject (h : Embeds base links own all) {a b : TypeId} (hab : links.types a b)
    (hown : base.types.entries.size ≤ b.index)
    {f f' : SymbolTable SymbolId → List Signature → SymbolTable SymbolId × List Signature}
    (hf : ∀ members members' signatures signatures', members.Pairs (base.IsCopy links) members' →
      List.Forall₂ (Signature.Mirrors links.types) signatures signatures' →
      (f members signatures).1.Pairs (base.IsCopy links) (f' members' signatures').1 ∧
        List.Forall₂ (Signature.Mirrors links.types) (f members signatures).2
          (f' members' signatures').2) :
    Embeds base links { own with types := own.types.updateObject a f }
      { all with types := all.types.updateObject b f' } := by
  constructor
  case linked =>
    intro i hi
    apply h.linked i
    rw [← Array.size_modify]
    exact hi
  case types =>
    intro a' b' hab'
    obtain ⟨old, old', hold, hold', hmatches⟩ := h.types hab'
    simp only [TypeTable.updateObject, Array.getElem?_modify, hold, hold']
    by_cases ha : a.index = a'.index
    · have hb : b.index = b'.index :=
        congrArg TypeId.index ((links.oneToOne hab hab').mp (congrArg TypeId.mk ha))
      rw [if_pos ha, if_pos hb]
      refine ⟨_, _, rfl, rfl, ?_⟩
      cases hmatches with
      | object name? hmembers hsignatures =>
        obtain ⟨hmembers', hsignatures'⟩ := hf _ _ _ _ hmembers hsignatures
        exact .object name? hmembers' hsignatures'
      | intrinsic word => exact .intrinsic word
      | stringLiteral value => exact .stringLiteral value
      | numberLiteral text => exact .numberLiteral text
      | booleanLiteral value => exact .booleanLiteral value
      | array hel => exact .array hel
      | union hmem => exact .union hmem
    · have hb : b.index ≠ b'.index := by
        intro hb
        have hbb := congrArg TypeId.mk hb
        exact ha (congrArg TypeId.index ((links.oneToOne hab hab').mpr hbb))
      rw [if_neg ha, if_neg hb]
      exact ⟨old, old', rfl, rfl, hmatches⟩
  case oldTypes =>
    intro i hi
    show (all.types.entries.modify b.index _)[i]? = _
    -- the changed type is none of those that were there before the file
    rw [Array.getElem?_modify, if_neg (by omega)]
    exact h.oldTypes i hi
  case newTypes =>
    intro i hbase hi
    apply h.newTypes i hbase
    rw [← Array.size_modify]
    exact hi
  case sharedOnce => exact h.sharedOnce.updateObject b _
  case sorts => exact h.sorts
  case symbols => exact h.symbols
  case scopes => exact h.scopes
  case files => exact h.files
  case filesKnown => exact h.filesKnown
  case fileScopes => exact h.fileScopes
  case issues => exact h.issues

/-- An object that no other file sees is given members in both programs. -/
theorem setMembers (h : Embeds base links own all) {a b : TypeId} (hab : links.types a b)
    (hown : base.types.entries.size ≤ b.index) {members members' : SymbolTable SymbolId}
    (hmembers : members.Pairs (base.IsCopy links) members') :
    Embeds base links { own with types := own.types.setMembers a members }
      { all with types := all.types.setMembers b members' } :=
  h.updateObject hab hown fun _ _ _ _ _ hsignatures => ⟨hmembers, hsignatures⟩

/-- An object that no other file sees gets one more signature in both programs. -/
theorem addSignature (h : Embeds base links own all) {a b : TypeId} (hab : links.types a b)
    (hown : base.types.entries.size ≤ b.index) {signature signature' : Signature}
    (hsignature : signature.Mirrors links.types signature') :
    Embeds base links { own with types := own.types.addSignature a signature }
      { all with types := all.types.addSignature b signature' } :=
  h.updateObject hab hown fun _ _ _ _ hmembers hsignatures =>
    ⟨hmembers, List.rel_append hsignatures (.cons hsignature .nil)⟩

/-- More is known of the symbols and of the files. -/
theorem know (h : Embeds base links own all) {links' : Links} (hle : links ≤ links')
    (htypes : ∀ a b, links'.types a b → links.types a b)
    (hsorts : ∀ {id sort}, links'.sorts id sort →
      1 ≤ id.index ∧ ∃ symbol, own.symbols[id.index]? = some symbol ∧ symbol.sort = sort)
    (hfiles : links'.files ≤ own.files.size) : Embeds base links' own all := by
  constructor
  case linked =>
    intro i hi
    obtain ⟨b, hb⟩ := h.linked i hi
    exact ⟨b, hle.1 _ _ hb⟩
  case types =>
    intro a b hab
    obtain ⟨data, data', hdata, hdata', hmatches⟩ := h.types (htypes a b hab)
    exact ⟨data, data', hdata, hdata', hmatches.mono hle⟩
  case oldTypes => exact h.oldTypes
  case newTypes =>
    intro i hbase hi
    obtain ⟨a, ha⟩ := h.newTypes i hbase hi
    exact ⟨a, hle.1 _ _ ha⟩
  case sharedOnce => exact h.sharedOnce
  case sorts => exact hsorts
  case symbols => exact h.symbols.mono fun _ _ hs => hs.mono hle
  case scopes => exact h.scopes.mono fun _ _ hs => hs.mono hle
  case files => exact h.files.mono fun _ _ hf => hf.mono hle
  case filesKnown => exact hfiles
  case fileScopes => exact h.fileScopes
  case issues => exact h.issues

/-- What is known of a file is changed in both programs; its scopes stay scopes of the program. -/
theorem updateFile (h : Embeds base links own all) (id : FileId) {f g : FileInfo → FileInfo}
    (hscopes : ∀ info, ∀ place ∈ (f info).scopes,
      place ∈ info.scopes ∨ place.index < own.scopes.size)
    (hfg : ∀ info info', info.Matches base links info' → (f info).Matches base links (g info')) :
    Embeds base links { own with files := own.files.modify id.index f }
      { all with files := all.files.modify (base.filePlace id).index g } := by
  refine { h with files := h.files.modify (Nat.zero_le _) ?_, filesKnown := ?_, fileScopes := ?_ }
  · exact fun info info' _ => hfg info info'
  · exact Nat.le_trans h.filesKnown (Nat.le_of_eq Array.size_modify.symm)
  · intro i info hinfo place hplace
    change (own.files.modify id.index f)[i]? = some info at hinfo
    rw [Array.getElem?_modify] at hinfo
    split at hinfo
    · obtain ⟨old, hold, rfl⟩ := Option.map_eq_some_iff.mp hinfo
      rcases hscopes old place hplace with hplace | hplace
      · exact h.fileScopes i old hold place hplace
      · exact hplace
    · exact h.fileScopes i info hinfo place hplace

end Embeds

namespace Compile

variable {base : Program} {links : Links}

/-- Operations on tables that keep programs embedded are steps that follow on each other. -/
theorem onTypes_follows {f g : TypeTable → TypeId × TypeTable} {Q : Links → TypeId → TypeId → Prop}
    (h : ∀ own all, Embeds base links own all → ∃ links', links ≤ links' ∧
      Embeds base links' { own with types := (f own.types).2 }
        { all with types := (g all.types).2 } ∧
      Q links' (f own.types).1 (g all.types).1) :
    Follows (Embeds base) links (onTypes f) (onTypes g) Q :=
  fun own all hembeds => h own all hembeds

/-- A type that is not shared gets places that no other file sees. -/
theorem addType_follows {data data' : TypeData} (hdata : data.Matches base links data')
    (hshared : data.isShared = false) :
    Follows (Embeds base) links (addType data) (addType data') fun links' a b =>
      links'.types a b ∧ base.types.entries.size ≤ b.index := by
  apply onTypes_follows
  intro own all h
  obtain ⟨links', hle, h', hab⟩ := h.addType hdata fun hshared' => by
    rw [hdata.isShared, hshared] at hshared'
    cases hshared'
  refine ⟨links', hle, h', hab, ?_⟩
  show base.types.entries.size ≤ all.types.entries.size
  apply Nat.le_of_not_lt
  intro hlt
  have hlast := h.oldTypes _ hlt
  rw [Array.getElem?_eq_none (Nat.le_refl _), Array.getElem?_eq_getElem hlt] at hlast
  cases hlast

/-- Sharing a type and its copy gives linked types. -/
theorem shareType_follows {data data' : TypeData} (hdata : data.Matches base links data')
    (hshared : data.isShared = true) :
    Follows (Embeds base) links (shareType data) (shareType data') Links.types :=
  onTypes_follows fun _ _ h => h.share hdata hshared

/-- The unions of linked types are linked. -/
theorem unionOf_follows {ids ids' : List TypeId} (hids : List.Forall₂ links.types ids ids') :
    Follows (Embeds base) links (unionOf ids) (unionOf ids') Links.types :=
  onTypes_follows fun _ _ h => h.unionOf hids

/-- An object that no other file sees gets one more signature in both programs. -/
theorem addSignature_follows {type type' : TypeId} (htype : links.types type type')
    (hown : base.types.entries.size ≤ type'.index) {signature signature' : Signature}
    (hsignature : signature.Mirrors links.types signature') :
    Follows (Embeds base) links (addSignature type signature) (addSignature type' signature')
      fun _ _ _ => True :=
  fun _ _ h => ⟨links, le_rfl, h.addSignature htype hown hsignature, trivial⟩

/-- Adding a symbol with a linked type gives a symbol and its copy. -/
theorem addSymbol_follows (name : String) {sort : SymbolSort} {type type' : TypeId}
    (htype : links.types type type')
    (hown : sort.ownsType = true → base.types.entries.size ≤ type'.index) :
    Follows (Embeds base) links (addSymbol name sort type) (addSymbol name sort type')
      fun links' id id' => id' = base.symbolPlace id ∧ links'.sorts id sort := by
  intro own all h
  have hsorts : ∀ {id sort'}, links.sorts id sort' → 1 ≤ id.index ∧ ∃ symbol,
      (own.symbols.push ⟨name, sort, [], type⟩)[id.index]? = some symbol ∧
        symbol.sort = sort' := by
    intro id sort' hsort
    obtain ⟨hpos, symbol, hsymbol, heq⟩ := h.sorts hsort
    have hlt := (Array.getElem?_eq_some_iff.mp hsymbol).1
    refine ⟨hpos, symbol, ?_, heq⟩
    rw [Array.getElem?_push, if_neg (Nat.ne_of_lt hlt)]
    exact hsymbol
  have hpushed : Embeds base links
      { own with symbols := own.symbols.push ⟨name, sort, [], type⟩ }
      { all with symbols := all.symbols.push ⟨name, sort, [], type'⟩ } :=
    { h with symbols := h.symbols.push ⟨rfl, rfl, rfl, htype, hown⟩, sorts := hsorts }
  have hle := links.le_addSort ⟨own.symbols.size⟩ sort
  refine ⟨_, hle, ?_, congrArg SymbolId.mk h.symbols.copyPlace_size.symm, .inr ⟨rfl, rfl⟩⟩
  refine hpushed.know hle (fun _ _ => id) ?_ h.filesKnown
  rintro id sort' (hsort | ⟨rfl, rfl⟩)
  · exact hsorts hsort
  · exact ⟨h.symbols.shared_le, _, Array.getElem?_push_size, rfl⟩

/-- Updating a symbol and its copy alike keeps programs embedded, if their sorts stay. -/
theorem updateSymbol_follows {id : SymbolId} (hid : links.Knows id) {f g : Symbol → Symbol}
    (hf : ∀ symbol, (f symbol).sort = symbol.sort)
    (hfg : ∀ symbol symbol', (∀ sort, links.sorts id sort → symbol.sort = sort) →
      symbol.Matches base links symbol' → (f symbol).Matches base links (g symbol')) :
    Follows (Embeds base) links (updateSymbol id f) (updateSymbol (base.symbolPlace id) g)
      fun _ _ _ => True := by
  intro own all h
  refine ⟨links, le_rfl, ?_, trivial⟩
  obtain ⟨_, hsort⟩ := hid
  have hpos := (h.sorts hsort).1
  refine { h with sorts := ?_, symbols := h.symbols.modify hpos ?_ }
  · intro other sort hother
    obtain ⟨hpos', symbol, hsymbol, heq⟩ := h.sorts hother
    refine ⟨hpos', ?_⟩
    show ∃ symbol, (own.symbols.modify id.index f)[other.index]? = some symbol ∧ _
    rw [Array.getElem?_modify, hsymbol]
    split
    · exact ⟨f symbol, rfl, (hf symbol).trans heq⟩
    · exact ⟨symbol, rfl, heq⟩
  · intro symbol symbol' hsymbol
    apply hfg
    intro sort hother
    obtain ⟨-, known, hknown, heq⟩ := h.sorts hother
    cases hsymbol.symm.trans hknown
    exact heq

/-- Adding a location to a symbol and its copy keeps programs embedded. -/
theorem addLocation_follows {id : SymbolId} (hid : links.Knows id) (location : Location) :
    Follows (Embeds base) links (addLocation id location)
      (addLocation (base.symbolPlace id) (base.locationPlace location)) fun _ _ _ => True := by
  apply updateSymbol_follows hid
  · exact fun _ => rfl
  · intro symbol symbol' _ h
    refine ⟨h.name, h.sort, ?_, h.type, h.own⟩
    show symbol'.declarations ++ _ = List.map _ (symbol.declarations ++ _)
    rw [h.declarations, List.map_append, List.map_singleton]

/-- Updating a scope and its copy alike keeps programs embedded. -/
theorem updateScope_follows (id : ScopeId) {f g : Scope → Scope}
    (hfg : ∀ scope scope', scope.Matches base links scope' →
      (f scope).Matches base links (g scope')) :
    Follows (Embeds base) links (updateScope id f) (updateScope (base.scopePlace id) g)
      fun _ _ _ => True := by
  intro own all h
  refine ⟨links, le_rfl, ?_, trivial⟩
  refine { h with scopes := h.scopes.modify (Nat.zero_le _) ?_, fileScopes := ?_ }
  · exact fun scope scope' _ => hfg scope scope'
  · intro i info hinfo place hplace
    show place.index < (own.scopes.modify id.index f).size
    rw [Array.size_modify]
    exact h.fileScopes i info hinfo place hplace

/-- Updating a file and its copy alike keeps programs embedded, if their scopes stay. -/
theorem updateFile_follows (id : FileId) {f g : FileInfo → FileInfo}
    (hf : ∀ info, (f info).scopes = info.scopes)
    (hfg : ∀ info info', info.Matches base links info' → (f info).Matches base links (g info')) :
    Follows (Embeds base) links (updateFile id f) (updateFile (base.filePlace id) g)
      fun _ _ _ => True := by
  intro own all h
  refine ⟨links, le_rfl, h.updateFile id ?_ hfg, trivial⟩
  intro info place hplace
  exact .inl (hf info ▸ hplace)

/-- Opening a scope in both programs opens a scope and its copy. -/
theorem addScope_follows (file : FileId) (enclosing : List ScopeId) (span : Span) :
    Follows (Embeds base) links (addScope file enclosing span)
      (addScope (base.filePlace file) (enclosing.map base.scopePlace) span)
      fun _ id id' => id' = base.scopePlace id := by
  intro own all h
  have hplace : (⟨all.scopes.size⟩ : ScopeId) = base.scopePlace ⟨own.scopes.size⟩ :=
    congrArg ScopeId.mk h.scopes.copyPlace_size.symm
  have hscopes : Embeds base links
      { own with scopes := own.scopes.push ⟨enclosing, span, .empty, .empty, []⟩ }
      { all with
        scopes := all.scopes.push ⟨enclosing.map base.scopePlace, span, .empty, .empty, []⟩ } := by
    refine { h with scopes := h.scopes.push ?_, fileScopes := ?_ }
    · exact ⟨rfl, rfl, rfl, rfl, fun _ hmem => absurd hmem List.not_mem_nil,
        fun _ hmem => absurd hmem List.not_mem_nil, .nil⟩
    · intro i info hinfo id hid
      show id.index < (own.scopes.push _).size
      rw [Array.size_push]
      exact Nat.lt_succ_of_lt (h.fileScopes i info hinfo id hid)
  refine ⟨links, le_rfl, hscopes.updateFile file ?_ ?_, hplace⟩
  · intro info id hid
    rcases List.mem_append.mp hid with hid | hid
    · exact .inl hid
    · cases List.mem_singleton.mp hid
      refine .inr ?_
      show own.scopes.size < (own.scopes.push _).size
      rw [Array.size_push]
      exact Nat.lt_succ_self _
  · intro info info' hinfo
    refine ⟨hinfo.name, hinfo.length, ?_, hinfo.declarations, hinfo.known⟩
    show info'.scopes ++ _ = List.map _ (info.scopes ++ _)
    rw [hinfo.scopes, List.map_append, List.map_singleton, hplace]

/-- Adding a file to both programs adds a file and its copy. -/
theorem addFile_follows (name : String) (length : Nat) :
    Follows (Embeds base) links (addFile name length) (addFile name length)
      fun links' id id' => id' = base.filePlace id ∧ id.index < links'.files := by
  intro own all h
  have hsize : (own.files.push ⟨name, length, [], []⟩).size = own.files.size + 1 :=
    Array.size_push _
  have hknown := Nat.le_succ_of_le h.filesKnown
  have hpushed : Embeds base links
      { own with files := own.files.push ⟨name, length, [], []⟩ }
      { all with files := all.files.push ⟨name, length, [], []⟩ } := by
    refine { h with files := h.files.push ?_, filesKnown := ?_, fileScopes := ?_ }
    · exact ⟨rfl, rfl, rfl, rfl, fun _ hmem => absurd hmem List.not_mem_nil⟩
    · exact Nat.le_trans hknown (Nat.le_of_eq hsize.symm)
    · intro i info hinfo id hid
      change (own.files.push ⟨name, length, [], []⟩)[i]? = some info at hinfo
      rw [Array.getElem?_push] at hinfo
      split at hinfo
      · cases hinfo
        cases hid
      · exact h.fileScopes i info hinfo id hid
  have hle := Links.le_withFiles hknown
  refine ⟨_, hle, ?_, congrArg FileId.mk h.files.copyPlace_size.symm, Nat.lt_succ_self _⟩
  exact hpushed.know hle (fun _ _ => id) hpushed.sorts (Nat.le_of_eq hsize.symm)

/-- Reporting a problem in both programs keeps them embedded. -/
theorem report_follows (file : FileId) (span : Span) (problem : Problem) :
    Follows (Embeds base) links (report file span problem)
      (report (base.filePlace file) span problem) fun _ _ _ => True := by
  intro own all h
  refine ⟨links, le_rfl, ?_, trivial⟩
  refine { h with issues := ?_ }
  show all.issues ++ _ = base.issues ++ (own.issues ++ _)
  rw [h.issues, List.append_assoc, (h.file file).name]

end Compile

end ExpressionTyping
