import ExpressionTyping.Proofs.Program.Selecting

/-!
# Unions of unions

A union is taken apart when it becomes part of another one. What stands in the table as a union is
flat already, has no repetitions and no `any`, so what a union of types is made of can be read off
the types: they are taken apart and listed as they first occur, or `any` swallows all
(`TypeTable.Reaches.constituents_unionOf`). Repetitions that were dropped from parts of a list make no
difference to what is left of the whole list, so it does not matter whether types are joined at once
or in groups (`TypeTable.Reaches.unionOf_pair`); and since unions are shared, to join them once more
finds what was made (`TypeTable.unionOf_again`).
-/

set_option autoImplicit false

namespace ExpressionTyping

/-! ## Lists without repetitions -/

section Lists

variable {α : Type} [DecidableEq α]

/-- A list has what occurs in another one, each once and as it first occurs there. -/
structure FirstOccurrences (list found : List α) : Prop where
  mem_iff : ∀ a, a ∈ found ↔ a ∈ list
  ordered : found.Pairwise fun a b => list.idxOf a < list.idxOf b

/-- Erasing duplicates leaves the first occurrences of a list. -/
theorem firstOccurrences_eraseDups (list : List α) : FirstOccurrences list list.eraseDups := by
  refine ⟨fun a => List.mem_eraseDups, ?_⟩
  induction list using List.reverseRecOn with
  | nil => exact .nil
  | append_singleton list last ih =>
    have hfound {a : α} (ha : a ∈ list.eraseDups) :
        (list ++ [last]).idxOf a = list.idxOf a ∧ list.idxOf a < list.length := by
      have hmem := List.mem_eraseDups.mp ha
      exact ⟨List.idxOf_append_of_mem hmem, List.idxOf_lt_length_of_mem hmem⟩
    have hearlier : list.eraseDups.Pairwise fun a b =>
        (list ++ [last]).idxOf a < (list ++ [last]).idxOf b := by
      refine ih.imp_of_mem fun ha hb h => ?_
      rwa [(hfound ha).1, (hfound hb).1]
    rw [eraseDups_concat]
    split
    · exact hearlier
    · rename_i hnew
      refine List.pairwise_append.mpr ⟨hearlier, List.pairwise_singleton _ _, fun a ha b hb => ?_⟩
      obtain rfl := List.mem_singleton.mp hb
      rw [(hfound ha).1, List.idxOf_append_of_notMem hnew, List.idxOf_cons_self]
      exact (hfound ha).2

/-- Repetitions may be dropped from the end of a list before they are dropped from all of it. -/
theorem eraseDups_append_right (first second : List α) :
    (first ++ second.eraseDups).eraseDups = (first ++ second).eraseDups := by
  induction second using List.reverseRecOn with
  | nil => rfl
  | append_singleton second last ih =>
    rw [← List.append_assoc, eraseDups_concat, eraseDups_concat]
    by_cases hlast : last ∈ second
    · rw [if_pos hlast, if_pos (List.mem_append_right _ hlast), ih]
    · rw [if_neg hlast, ← List.append_assoc, eraseDups_concat, ih]
      simp only [List.mem_append, List.mem_eraseDups]

/-- Repetitions may be dropped from the start of a list before they are dropped from all of it. -/
theorem eraseDups_append_left (first second : List α) :
    (first.eraseDups ++ second).eraseDups = (first ++ second).eraseDups := by
  induction second using List.reverseRecOn with
  | nil => simpa using eraseDups_append_right [] first
  | append_singleton second last ih =>
    rw [← List.append_assoc, ← List.append_assoc, eraseDups_concat, eraseDups_concat, ih]
    simp only [List.mem_append, List.mem_eraseDups]

end Lists

/-! ## What is left of joined types -/

/-- What is left when types that are no unions are joined: each of them, as they first occur, or
`any` alone. -/
def joined (parts : List TypeId) : List TypeId :=
  if TypeId.any ∈ parts then [.any] else parts.eraseDups

/-- Types with `any` among them are joined to `any` alone. -/
theorem joined_of_any {parts : List TypeId} (h : TypeId.any ∈ parts) : joined parts = [.any] :=
  if_pos h

/-- Types without `any` among them are joined to each of them once. -/
theorem joined_of_not_any {parts : List TypeId} (h : TypeId.any ∉ parts) :
    joined parts = parts.eraseDups :=
  if_neg h

/-- The type `any` is among the joined types exactly when it was among the types. -/
theorem any_mem_joined {parts : List TypeId} : TypeId.any ∈ joined parts ↔ TypeId.any ∈ parts := by
  by_cases h : TypeId.any ∈ parts
  · simp [joined_of_any h, h]
  · simp [joined_of_not_any h]

/-- It is the same to join types in two groups first and then what is left of the groups. -/
theorem joined_append (first second : List TypeId) :
    joined (joined first ++ joined second) = joined (first ++ second) := by
  by_cases h : TypeId.any ∈ first ++ second
  · have hgroups : TypeId.any ∈ joined first ++ joined second := by
      simpa only [List.mem_append, any_mem_joined] using h
    rw [joined_of_any h, joined_of_any hgroups]
  · have hgroups : TypeId.any ∉ joined first ++ joined second := by
      simpa only [List.mem_append, any_mem_joined] using h
    obtain ⟨hfirst, hsecond⟩ := not_or.mp (mt List.mem_append.mpr h)
    rw [joined_of_not_any h, joined_of_not_any hgroups, joined_of_not_any hfirst,
      joined_of_not_any hsecond, eraseDups_append_left, eraseDups_append_right]

namespace TypeTable

variable {table : TypeTable} {ids : List TypeId}

/-! ## Sharing once more -/

/-- Sharing a type that is shared already finds it where it stands. -/
theorem share_again (table : TypeTable) (data : TypeData) :
    (table.share data).2.share data = table.share data := by
  rcases table.share_cases data with ⟨_, _, heq⟩ | ⟨hnone, heq⟩
  · rw [heq]
    exact heq
  · rw [heq]
    rcases (table.add data).2.share_cases data with ⟨i, hi, hagain⟩ | ⟨hmissing, -⟩
    -- what was added is found again at its place, since it stands nowhere else
    · change (table.entries.push data)[i]? = some data at hi
      rw [Array.getElem?_push] at hi
      split at hi
      · rename_i hlast
        rw [hagain, hlast]
        rfl
      · exact absurd hi (hnone i)
    · exact absurd Array.getElem?_push_size (hmissing _)

/-- A shared type stands in the table. -/
theorem share_lt (table : TypeTable) (data : TypeData) :
    (table.share data).1.index < (table.share data).2.entries.size := by
  rcases table.share_cases data with ⟨i, hi, heq⟩ | ⟨-, heq⟩
  · rw [heq]
    exact (Array.getElem?_eq_some_iff.mp hi).1
  · rw [heq]
    exact Nat.lt_of_lt_of_eq (Nat.lt_succ_self _) (Array.size_push _).symm

/-! ## The cases of a union -/

/-- The union of types with `any` in them is `any`. -/
theorem unionOf_of_any (h : TypeId.any ∈ ids.flatMap table.constituents) :
    table.unionOf ids = (.any, table) := by
  have hcontains : ((ids.flatMap table.constituents).eraseDups).contains .any = true :=
    List.elem_eq_true_of_mem (List.mem_eraseDups.mpr h)
  unfold unionOf
  simp only [if_pos hcontains]

/-- The union of types that are all one is that one. -/
theorem unionOf_of_single {id : TypeId}
    (h : (ids.flatMap table.constituents).eraseDups = [id]) (hid : id ≠ .any) :
    table.unionOf ids = (id, table) := by
  have hcontains : ¬[id].contains TypeId.any = true := by simpa using hid.symm
  unfold unionOf
  simp only [h, if_neg hcontains]

/-- The union of different types is shared under their first occurrences. -/
theorem unionOf_of_several (h : TypeId.any ∉ ids.flatMap table.constituents)
    (hseveral : 2 ≤ (ids.flatMap table.constituents).eraseDups.length) :
    table.unionOf ids = table.share (.union (ids.flatMap table.constituents).eraseDups) := by
  have hcontains : ¬((ids.flatMap table.constituents).eraseDups).contains .any = true := fun h' =>
    h (List.mem_eraseDups.mp (List.mem_of_elem_eq_true h'))
  unfold unionOf
  simp only [if_neg hcontains]
  match (ids.flatMap table.constituents).eraseDups, hseveral with
  | first :: second :: rest, _ => rfl

/-- Types are joined by what is left of them when they are taken apart. -/
theorem unionOf_congr {ids' : List TypeId}
    (h : joined (ids.flatMap table.constituents) = joined (ids'.flatMap table.constituents)) :
    table.unionOf ids = table.unionOf ids' := by
  have hsame : TypeId.any ∈ ids.flatMap table.constituents ↔
      TypeId.any ∈ ids'.flatMap table.constituents := by
    rw [← any_mem_joined, h, any_mem_joined]
  by_cases hany : TypeId.any ∈ ids.flatMap table.constituents
  · rw [unionOf_of_any hany, unionOf_of_any (hsame.mp hany)]
  · rw [joined_of_not_any hany, joined_of_not_any (mt hsame.mpr hany)] at h
    unfold unionOf
    rw [h]

/-- To join types that are there once more finds what was made. -/
theorem unionOf_again (hids : ∀ id ∈ ids, id.index < table.entries.size) :
    (table.unionOf ids).2.unionOf ids = table.unionOf ids := by
  have hparts : ids.flatMap (table.unionOf ids).2.constituents = ids.flatMap table.constituents :=
    List.flatMap_congr fun id hid => constituents_kept (table.kept_unionOf ids) (hids id hid)
  rcases table.unionOf_cases ids with ⟨_, heq⟩ | ⟨hseveral, hany, heq⟩
  · rw [heq]
    exact heq
  · have hagain := @unionOf_of_several (table.unionOf ids).2 ids
    rw [hparts] at hagain
    rw [hagain (fun h => hany (List.mem_eraseDups.mpr h)) hseveral, heq]
    exact table.share_again _

/-! ## Tables that came about in steps -/

namespace Reaches

variable (h : initial.Reaches table)
include h

/-- The type `any` is made of itself. -/
theorem constituents_any : table.constituents .any = [.any] := by
  refine constituents_of_not_union fun members hget => ?_
  obtain ⟨data, hdata, hstays⟩ := h.stays 0 (.intrinsic .any) rfl
  rcases hstays with rfl | ⟨_, _, _, _, _, hobject, -⟩
  · cases hdata.symm.trans (entries_of_get hget nofun)
  · cases hobject

/-- Every table that is not empty has `any` in it. -/
theorem any_lt : TypeId.any.index < table.entries.size :=
  Nat.lt_of_lt_of_le (show 0 < initial.entries.size by decide) h.stays.size_le

section Parts

variable (hids : ∀ id ∈ ids, id.index < table.entries.size)
include hids

/-- What types that are there are made of is there, and none of it is a union. -/
theorem flat_of_mem {part : TypeId} (hpart : part ∈ ids.flatMap table.constituents) :
    part.index < table.entries.size ∧ ∀ inner, table.get part ≠ .union inner := by
  obtain ⟨id, hid, hmem⟩ := List.mem_flatMap.mp hpart
  exact (initial_canonical.reaches h).constituents_flat (hids id hid) part hmem

/-- A union of some types that are there stands in the table, and it is made of what is left of them
when they are taken apart. -/
theorem constituents_unionOf (hne : ids ≠ []) :
    (table.unionOf ids).1.index < (table.unionOf ids).2.entries.size ∧
      (table.unionOf ids).2.constituents (table.unionOf ids).1 =
        joined (ids.flatMap table.constituents) := by
  by_cases hany : TypeId.any ∈ ids.flatMap table.constituents
  · rw [unionOf_of_any hany, joined_of_any hany]
    exact ⟨h.any_lt, h.constituents_any⟩
  rw [joined_of_not_any hany]
  have hsome : (ids.flatMap table.constituents).eraseDups ≠ [] := by
    obtain ⟨id, hid⟩ := List.exists_mem_of_ne_nil ids hne
    obtain ⟨part, hpart⟩ := List.exists_mem_of_ne_nil _
      ((initial_canonical.reaches h).constituents_ne_nil id)
    exact List.ne_nil_of_mem (List.mem_eraseDups.mpr (List.mem_flatMap.mpr ⟨id, hid, hpart⟩))
  match hmembers : (ids.flatMap table.constituents).eraseDups with
  | [] => exact absurd hmembers hsome
  | [id] =>
    have hid : id ∈ ids.flatMap table.constituents :=
      List.mem_eraseDups.mp (hmembers ▸ List.mem_singleton_self id)
    obtain ⟨hlt, hflat⟩ := h.flat_of_mem hids hid
    rw [unionOf_of_single hmembers (ne_of_mem_of_not_mem hid hany)]
    exact ⟨hlt, constituents_of_not_union hflat⟩
  | first :: second :: rest =>
    rw [unionOf_of_several hany (by simp [hmembers]), hmembers]
    exact ⟨table.share_lt _, constituents_of_union (Guarded.get_share _ _)⟩

end Parts

/-- A type by itself is a union already. -/
theorem unionOf_single {id : TypeId} (hid : id.index < table.entries.size) :
    table.unionOf [id] = (id, table) := by
  have hcanonical := initial_canonical.reaches h
  have hparts : [id].flatMap table.constituents = table.constituents id :=
    List.flatMap_singleton _ _
  by_cases hunion : ∃ members, table.get id = .union members
  · obtain ⟨members, hget⟩ := hunion
    have hentry := entries_of_get hget nofun
    have hfits := hcanonical.unions _ _ hentry
    have honce : members.eraseDups = members := Resolve.eraseDups_of_nodup hfits.once
    rw [constituents_of_union hget] at hparts
    rw [unionOf_of_several (hparts ▸ hfits.noAny) (by rw [hparts, honce]; exact hfits.several),
      hparts, honce]
    rcases table.share_cases (.union members) with ⟨i, hi, heq⟩ | ⟨hnone, -⟩
    · rw [heq, hcanonical.sharedOnce rfl hi hentry]
    · exact absurd hentry (hnone _)
  · rw [constituents_of_not_union fun members hget => hunion ⟨members, hget⟩] at hparts
    by_cases hany : id = .any
    · subst hany
      exact unionOf_of_any (by rw [hparts]; exact List.mem_singleton_self _)
    · exact unionOf_of_single (by rw [hparts]; rfl) hany

/-- To join two unions is to join all that they were made of. -/
theorem unionOf_pair {ids' : List TypeId} (hids : ∀ id ∈ ids, id.index < table.entries.size)
    (hids' : ∀ id ∈ ids', id.index < table.entries.size) (hne : ids ≠ []) (hne' : ids' ≠ []) :
    let first := table.unionOf ids
    let second := first.2.unionOf ids'
    second.2.unionOf [first.1, second.1] = second.2.unionOf (ids ++ ids') := by
  intro first second
  have hkept : Kept table.entries first.2.entries := table.kept_unionOf ids
  have hkept' : Kept first.2.entries second.2.entries := first.2.kept_unionOf ids'
  have hlater : ∀ id ∈ ids', id.index < first.2.entries.size := fun id hid =>
    Nat.lt_of_lt_of_le (hids' id hid) hkept.size_le
  have hreaches : initial.Reaches first.2 := h.tail (.unionOf hids)
  obtain ⟨hlt, hfirst⟩ := h.constituents_unionOf hids hne
  obtain ⟨-, hsecond⟩ := hreaches.constituents_unionOf hlater hne'
  -- what a type is made of stays when unions are made
  have hparts : ids.flatMap second.2.constituents = ids.flatMap table.constituents :=
    List.flatMap_congr fun id hid => constituents_kept (hkept.trans hkept') (hids id hid)
  have hparts' : ids'.flatMap second.2.constituents = ids'.flatMap first.2.constituents :=
    List.flatMap_congr fun id hid => constituents_kept hkept' (hlater id hid)
  refine unionOf_congr ?_
  calc joined ([first.1, second.1].flatMap second.2.constituents)
      = joined (first.2.constituents first.1 ++ second.2.constituents second.1) := by
        rw [List.flatMap_cons, List.flatMap_singleton, constituents_kept hkept' hlt]
    _ = joined (ids.flatMap table.constituents ++ ids'.flatMap first.2.constituents) := by
        rw [hfirst, hsecond, joined_append]
    _ = joined ((ids ++ ids').flatMap second.2.constituents) := by
        rw [List.flatMap_append, hparts, hparts']

end Reaches

end TypeTable

namespace Program

/-- Unions flatten. In a table that came about in steps, as that of compiled texts did, a type by
itself is a union already; a union of some types is made of what these are made of, each as it first
occurs, unless `any` is among that and is the union; and when two unions are joined, then to join
all that they were made of gives the same type again and adds nothing to the table. -/
theorem unions_flatten :
    (∀ sources, TypeTable.initial.Reaches (ofTexts sources).types) ∧
    ∀ table, TypeTable.initial.Reaches table →
      (∀ id : TypeId, id.index < table.entries.size → table.unionOf [id] = (id, table)) ∧
      (∀ ids : List TypeId, ids ≠ [] → (∀ id ∈ ids, id.index < table.entries.size) →
        (TypeId.any ∈ ids.flatMap table.constituents → table.unionOf ids = (.any, table)) ∧
        (TypeId.any ∉ ids.flatMap table.constituents →
          FirstOccurrences (ids.flatMap table.constituents)
            ((table.unionOf ids).2.constituents (table.unionOf ids).1))) ∧
      ∀ ids ids' : List TypeId, ids ≠ [] → ids' ≠ [] →
        (∀ id ∈ ids, id.index < table.entries.size) →
        (∀ id ∈ ids', id.index < table.entries.size) →
        let first := table.unionOf ids
        let second := first.2.unionOf ids'
        let made := second.2.unionOf [first.1, second.1]
        made.2.unionOf (ids ++ ids') = made := by
  refine ⟨fun sources => (ofTexts_compiled sources).1.reaches, fun table h =>
    ⟨fun id hid => h.unionOf_single hid, fun ids hne hids => ⟨TypeTable.unionOf_of_any, ?_⟩, ?_⟩⟩
  · intro hany
    rw [(h.constituents_unionOf hids hne).2, joined_of_not_any hany]
    exact firstOccurrences_eraseDups _
  · intro ids ids' hne hne' hids hids' first second made
    have hmade : made = second.2.unionOf (ids ++ ids') := h.unionOf_pair hids hids' hne hne'
    have hkept : Kept table.entries second.2.entries :=
      (table.kept_unionOf ids).trans (first.2.kept_unionOf ids')
    rw [hmade]
    refine TypeTable.unionOf_again fun id hid => Nat.lt_of_lt_of_le ?_ hkept.size_le
    exact (List.mem_append.mp hid).elim (hids id) (hids' id)

/-- Two declared unions that overlap, one of them joined with a string again: the union of both
lists strings, numbers and booleans once, in this order, and it is found again. -/
theorem unions_flatten_overlapping : ∃ table,
    table = (ofTexts [("unions", "let a: string | number; let b: number | boolean;")]).types ∧
      let first := table.unionOf [⟨15⟩]
      let second := first.2.unionOf [⟨16⟩, .ofWord .string]
      let made := second.2.unionOf [first.1, second.1]
      first = (⟨15⟩, table) ∧ second.1 = ⟨17⟩ ∧ made.1 = ⟨18⟩ ∧
        made.2.constituents made.1 = [.ofWord .string, .ofWord .number, .ofWord .boolean] ∧
        made.2.unionOf ([⟨15⟩] ++ [⟨16⟩, .ofWord .string]) = made ∧
        FirstOccurrences [.ofWord .number, .ofWord .boolean, .ofWord .string]
          (second.2.constituents second.1) := by
  obtain ⟨hreaches, hall⟩ := unions_flatten
  have hcompiled := hreaches [("unions", "let a: string | number; let b: number | boolean;")]
  have hevaluated : let table := (ofTexts
        [("unions", "let a: string | number; let b: number | boolean;")]).types
      let first := table.unionOf [⟨15⟩]
      let second := first.2.unionOf [⟨16⟩, .ofWord .string]
      let made := second.2.unionOf [first.1, second.1]
      table.entries.size = 17 ∧ second.1 = ⟨17⟩ ∧ made.1 = ⟨18⟩ ∧
        made.2.constituents made.1 = [.ofWord .string, .ofWord .number, .ofWord .boolean] ∧
        [⟨16⟩, .ofWord .string].flatMap table.constituents =
          [.ofWord .number, .ofWord .boolean, .ofWord .string] := by
    decide +kernel
  refine ⟨_, rfl, ?_⟩
  generalize (ofTexts _).types = table at hcompiled hevaluated ⊢
  obtain ⟨hsize, hsecond, hmade, hconstituents, hparts⟩ := hevaluated
  obtain ⟨hsingle, hunion, hpair⟩ := hall table hcompiled
  have hfirst : table.unionOf [⟨15⟩] = (⟨15⟩, table) := hsingle ⟨15⟩ (by rw [hsize]; decide)
  have hin : ∀ id ∈ [(⟨16⟩ : TypeId), .ofWord .string], id.index < table.entries.size := by
    rw [hsize]
    decide
  refine ⟨hfirst, hsecond, hmade, hconstituents, ?_, ?_⟩
  · refine hpair [⟨15⟩] [⟨16⟩, .ofWord .string] (by simp) (by simp) ?_ hin
    rw [hsize]
    decide
  · have hoccurrences := (hunion [⟨16⟩, .ofWord .string] (by simp) hin).2
    rw [hparts] at hoccurrences
    rw [hfirst]
    exact hoccurrences (by decide)

end Program

end ExpressionTyping
