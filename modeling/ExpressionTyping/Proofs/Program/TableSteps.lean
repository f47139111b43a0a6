import Mathlib.Logic.Relation
import ExpressionTyping.Proofs.Program.WellFormed

/-!
# What happens to a table of types

Building a program changes its table of types in few ways: an object type gets a new place, a type
that is shared is looked for and added if it is not there, a union is formed of types that are
there, an object type is given its members, and a method gets one more signature. These are the
operations (`TableOp`). A step is an operation where it is allowed (`TypeTable.Step`), and
`TypeTable.Reaches` is any number of steps (`TypeTable.reaches_iff`).

Sharing keeps one place for types that look the same. A union is taken apart before it is shared, so
what stands in the table as a union has at least two members, all different, none of them `any` or a
union, and each at an earlier place (`TypeTable.Canonical`). Changing an object at its place touches
neither.
-/

set_option autoImplicit false

namespace ExpressionTyping

/-- Dropping repeats leaves none. -/
theorem nodup_eraseDups {α : Type} [BEq α] [LawfulBEq α] : ∀ list : List α, list.eraseDups.Nodup
  | [] => List.nodup_nil
  | first :: rest => by
    rw [List.eraseDups_cons]
    refine List.nodup_cons.mpr ⟨fun hmem => ?_, nodup_eraseDups _⟩
    have hfilter := (List.mem_filter.mp (List.mem_eraseDups.mp hmem)).2
    simp at hfilter
termination_by list => list.length
decreasing_by exact Nat.lt_succ_of_le (List.length_filter_le _ _)

/-- One more element is kept if it is new. -/
theorem eraseDups_concat {α : Type} [DecidableEq α] (list : List α) (a : α) :
    (list ++ [a]).eraseDups = if a ∈ list then list.eraseDups else list.eraseDups ++ [a] := by
  rw [List.eraseDups_append]
  split
  · rename_i hmem
    simp [List.removeAll, hmem]
  · rename_i hnew
    simp [List.removeAll, hnew, List.eraseDups_cons]

/-! ## Operations -/

/-- The kinds of types that are shared. -/
inductive SharedKind where
  | stringLiteral
  | numberLiteral
  | array
  | union
deriving DecidableEq

namespace TypeData

/-- The kind of a type, if types like it are shared. -/
def sharedKind? : TypeData → Option SharedKind
  | stringLiteral _ => some .stringLiteral
  | numberLiteral _ => some .numberLiteral
  | array _ => some .array
  | union _ => some .union
  | _ => none

variable {data : TypeData}

/-- Shared data has a kind that it is found by. -/
theorem sharedKind?_of_isShared (h : data.isShared = true) :
    ∃ kind, data.sharedKind? = some kind := by
  cases data with
  | stringLiteral | numberLiteral | array | union => exact ⟨_, rfl⟩
  | _ => cases h

/-- Data with a kind to be found by is shared. -/
theorem isShared_of_sharedKind? {kind : SharedKind} (h : data.sharedKind? = some kind) :
    data.isShared = true := by
  cases data with
  | stringLiteral | numberLiteral | array | union => rfl
  | _ => cases h

end TypeData

/-- What building a program does to its table of types at once. -/
inductive TableOp where
  /-- An object type gets a place of its own. -/
  | addObject (name? : Option String) (members : SymbolTable SymbolId) (signatures : List Signature)
  /-- A type of a shared kind is looked for, and added if it is not there. -/
  | share (kind : SharedKind) (data : TypeData)
  /-- A union is formed. -/
  | unionOf (ids : List TypeId)
  /-- A type, if it is an object, is given its members. -/
  | setMembers (id : TypeId) (members : SymbolTable SymbolId)
  /-- A type, if it is an object, gets one more signature. -/
  | addSignature (id : TypeId) (signature : Signature)

namespace TypeTable

variable {table later : TypeTable}

/-- Carries out an operation. Where it is about a type that is asked for, that has a place. -/
def perform (table : TypeTable) : TableOp → Option TypeId × TypeTable
  | .addObject name? members signatures =>
    (some (table.add (.object name? members signatures)).1,
      (table.add (.object name? members signatures)).2)
  | .share _ data => (some (table.share data).1, (table.share data).2)
  | .unionOf ids => (some (table.unionOf ids).1, (table.unionOf ids).2)
  | .setMembers id members => (none, table.setMembers id members)
  | .addSignature id signature => (none, table.addSignature id signature)

/-- What is shared is of its kind and no union, and a union is formed of types that are there. -/
def Allows (table : TypeTable) : TableOp → Prop
  | .share kind data => data.sharedKind? = some kind ∧ kind ≠ .union
  | .unionOf ids => ∀ id ∈ ids, id.index < table.entries.size
  | _ => True

/-- Carries out operations one after the other. -/
def performAll (table : TypeTable) : List TableOp → List (Option TypeId) × TypeTable
  | [] => ([], table)
  | op :: rest =>
    ((table.perform op).1 :: ((table.perform op).2.performAll rest).1,
      ((table.perform op).2.performAll rest).2)

/-- Each operation is allowed when its turn comes. -/
def AllowsAll (table : TypeTable) : List TableOp → Prop
  | [] => True
  | op :: rest => table.Allows op ∧ (table.perform op).2.AllowsAll rest

/-! ## Steps -/

/-- One table comes about from another by an operation that is allowed. -/
inductive Step (table : TypeTable) : TypeTable → Prop where
  | perform (op : TableOp) (h : table.Allows op) : Step table (table.perform op).2

namespace Step

/-- Adding an object is a step. -/
theorem addObject (name? : Option String) (members : SymbolTable SymbolId)
    (signatures : List Signature) : table.Step (table.add (.object name? members signatures)).2 :=
  .perform (.addObject name? members signatures) trivial

/-- Sharing a type that is no union is a step. -/
theorem share {data : TypeData} (hshared : data.isShared = true)
    (hflat : ∀ members, data ≠ .union members) : table.Step (table.share data).2 := by
  obtain ⟨kind, hkind⟩ := TypeData.sharedKind?_of_isShared hshared
  refine .perform (.share kind data) ⟨hkind, ?_⟩
  rintro rfl
  cases data with
  | union members => exact hflat members rfl
  | _ => cases hkind

/-- Forming a union of types that are there is a step. -/
theorem unionOf {ids : List TypeId} (h : ∀ id ∈ ids, id.index < table.entries.size) :
    table.Step (table.unionOf ids).2 :=
  .perform (.unionOf ids) h

/-- Giving a type its members is a step. -/
theorem setMembers (id : TypeId) (members : SymbolTable SymbolId) :
    table.Step (table.setMembers id members) :=
  .perform (.setMembers id members) trivial

/-- Adding a signature to a type is a step. -/
theorem addSignature (id : TypeId) (signature : Signature) :
    table.Step (table.addSignature id signature) :=
  .perform (.addSignature id signature) trivial

end Step

/-- A table comes about from another in any number of steps. -/
abbrev Reaches : TypeTable → TypeTable → Prop :=
  Relation.ReflTransGen Step

/-- What is reached is reached by operations that are allowed. -/
theorem reaches_iff :
    table.Reaches later ↔ ∃ ops, table.AllowsAll ops ∧ (table.performAll ops).2 = later := by
  constructor
  · intro h
    induction h using Relation.ReflTransGen.head_induction_on with
    | refl => exact ⟨[], trivial, rfl⟩
    | head hstep _ ih =>
      obtain ⟨op, hop⟩ := hstep
      obtain ⟨ops, hops, rfl⟩ := ih
      exact ⟨op :: ops, ⟨hop, hops⟩, rfl⟩
  · rintro ⟨ops, hops, rfl⟩
    induction ops generalizing table with
    | nil => exact .refl
    | cons op rest ih => exact .head (.perform op hops.1) (ih hops.2)

/-! ## Places that are kept -/

/-- Adding an entry keeps the others. -/
theorem kept_add (table : TypeTable) (data : TypeData) :
    Kept table.entries (table.add data).2.entries := by
  intro i hi
  show (table.entries.push data)[i]? = _
  rw [Array.getElem?_push, if_neg (Nat.ne_of_lt hi)]

/-- Sharing a type keeps every entry. -/
theorem kept_share (table : TypeTable) (data : TypeData) :
    Kept table.entries (table.share data).2.entries := by
  rcases table.share_cases data with ⟨_, _, heq⟩ | ⟨_, heq⟩
  · rw [heq]
    exact fun _ _ => rfl
  · rw [heq]
    exact table.kept_add data

/-- A union is one of the types that are there, or it is shared and has several members. -/
theorem unionOf_cases (table : TypeTable) (ids : List TypeId) :
    (∃ id, table.unionOf ids = (id, table)) ∨
      (2 ≤ (ids.flatMap table.constituents).eraseDups.length ∧
        TypeId.any ∉ (ids.flatMap table.constituents).eraseDups ∧
        table.unionOf ids = table.share (.union (ids.flatMap table.constituents).eraseDups)) := by
  unfold unionOf
  generalize (ids.flatMap table.constituents).eraseDups = members
  by_cases hany : members.contains .any = true
  · simp only [if_pos hany]
    exact .inl ⟨_, rfl⟩
  · simp only [if_neg hany]
    match members with
    | [] => exact .inl ⟨_, rfl⟩
    | [id] => exact .inl ⟨id, rfl⟩
    | first :: second :: rest =>
      refine .inr ⟨by simp, fun hmem => hany ?_, rfl⟩
      exact List.elem_eq_true_of_mem hmem

/-- Making a union keeps every entry. -/
theorem kept_unionOf (table : TypeTable) (ids : List TypeId) :
    Kept table.entries (table.unionOf ids).2.entries := by
  rcases table.unionOf_cases ids with ⟨_, heq⟩ | ⟨-, -, heq⟩
  · rw [heq]
    exact fun _ _ => rfl
  · rw [heq]
    exact table.kept_share _

/-! ## Unions -/

/-- The members of a union that stands at a place. -/
structure UnionFits (table : TypeTable) (place : Nat) (members : List TypeId) : Prop where
  several : 2 ≤ members.length
  once : members.Nodup
  noAny : TypeId.any ∉ members
  earlier : ∀ member ∈ members, member.index < place
  flat : ∀ member ∈ members, ∀ inner, table.get member ≠ .union inner

/-- Types that look the same and are shared stand at one place, and unions are flat. -/
structure Canonical (table : TypeTable) : Prop where
  sharedOnce : table.SharedOnce
  unions : ∀ (i : Nat) members, table.entries[i]? = some (.union members) →
    table.UnionFits i members

/-- A union goes on fitting at its place as entries are added. -/
theorem UnionFits.kept {place : Nat} {members : List TypeId} (h : table.UnionFits place members)
    (hkept : Kept table.entries later.entries) (hplace : place ≤ table.entries.size) :
    later.UnionFits place members where
  several := h.several
  once := h.once
  noAny := h.noAny
  earlier := h.earlier
  flat member hmember inner hinner := by
    refine h.flat member hmember inner ?_
    have hlt := Nat.lt_of_lt_of_le (h.earlier member hmember) hplace
    rw [← get_congr (hkept member.index hlt)]
    exact hinner

namespace Canonical

variable (h : table.Canonical)
include h

/-- The constituents of a type that is there are there, and none of them is a union. -/
theorem constituents_flat {id : TypeId} (hid : id.index < table.entries.size) :
    ∀ part ∈ table.constituents id,
      part.index < table.entries.size ∧ ∀ inner, table.get part ≠ .union inner := by
  unfold constituents
  split
  · rename_i members hget
    have hentry := entries_of_get hget nofun
    have hfits := h.unions _ _ hentry
    exact fun part hpart =>
      ⟨Nat.lt_trans (hfits.earlier part hpart) hid, hfits.flat part hpart⟩
  · rename_i hflat
    intro part hpart
    obtain rfl := List.mem_singleton.mp hpart
    exact ⟨hid, fun inner hinner => hflat inner hinner⟩

/-- A new type that is no union, or a union that fits, and that stands nowhere yet if it is shared,
keeps a table canonical. -/
theorem add {data : TypeData}
    (hnew : data.isShared = true → ∀ i : Nat, table.entries[i]? ≠ some data)
    (hunion : ∀ members, data = .union members → table.UnionFits table.entries.size members) :
    (table.add data).2.Canonical where
  sharedOnce := h.sharedOnce.add hnew
  unions i members hentry := by
    have hkept := table.kept_add data
    change (table.entries.push data)[i]? = some (.union members) at hentry
    rw [Array.getElem?_push] at hentry
    split at hentry
    · rename_i hi
      subst hi
      exact (hunion members (Option.some.inj hentry)).kept hkept (Nat.le_refl _)
    · have hlt := (Array.getElem?_eq_some_iff.mp hentry).1
      exact (h.unions i members hentry).kept hkept (Nat.le_of_lt hlt)

/-- Sharing keeps a table canonical, if a new union fits. -/
theorem share {data : TypeData}
    (hunion : ∀ members, data = .union members → table.UnionFits table.entries.size members) :
    (table.share data).2.Canonical := by
  rcases table.share_cases data with ⟨_, _, heq⟩ | ⟨hnone, heq⟩
  · rw [heq]
    exact h
  · rw [heq]
    exact h.add (fun _ => hnone) hunion

/-- A union of known types keeps a table canonical. -/
theorem unionOf {ids : List TypeId} (hids : ∀ id ∈ ids, id.index < table.entries.size) :
    (table.unionOf ids).2.Canonical := by
  rcases table.unionOf_cases ids with ⟨_, heq⟩ | ⟨hseveral, hany, heq⟩
  · rw [heq]
    exact h
  · rw [heq]
    have hflat : ∀ member ∈ (ids.flatMap table.constituents).eraseDups,
        member.index < table.entries.size ∧ ∀ inner, table.get member ≠ .union inner := by
      intro member hmember
      obtain ⟨id, hid, hpart⟩ := List.mem_flatMap.mp (List.mem_eraseDups.mp hmember)
      exact h.constituents_flat (hids id hid) member hpart
    refine h.share ?_
    rintro _ ⟨⟩
    exact ⟨hseveral, nodup_eraseDups _, hany, fun member hmember => (hflat member hmember).1,
      fun member hmember => (hflat member hmember).2⟩

/-- Changing an object at its place keeps a table canonical. -/
theorem updateObject (id : TypeId)
    (f : SymbolTable SymbolId → List Signature → SymbolTable SymbolId × List Signature) :
    (table.updateObject id f).Canonical where
  sharedOnce := h.sharedOnce.updateObject id f
  unions i parts hentry := by
    have hentry' : table.entries[i]? = some (.union parts) := updateObject_shared rfl hentry
    have hfits := h.unions i parts hentry'
    refine ⟨hfits.several, hfits.once, hfits.noAny, hfits.earlier, ?_⟩
    intro part hpart inner hinner
    have hinner' : table.entries[part.index]? = some (.union inner) :=
      updateObject_shared rfl (entries_of_get hinner nofun)
    exact hfits.flat part hpart inner (get_of_entries hinner')

/-- One step keeps a table canonical. -/
theorem step (hstep : table.Step later) : later.Canonical := by
  obtain ⟨op, hop⟩ := hstep
  cases op with
  | addObject name? members signatures => exact h.add nofun nofun
  | share kind data =>
    obtain ⟨hkind, hflat⟩ := hop
    refine h.share fun members heq => ?_
    subst heq
    exact absurd (Option.some.inj hkind).symm hflat
  | unionOf ids => exact h.unionOf hop
  | setMembers id members => exact h.updateObject id _
  | addSignature id signature => exact h.updateObject id _

/-- Any number of steps keeps a table canonical. -/
theorem reaches (hreaches : table.Reaches later) : later.Canonical := by
  induction hreaches with
  | refl => exact h
  | tail _ hstep ih => exact ih.step hstep

end Canonical

/-- The table that every program starts with is canonical. -/
theorem initial_canonical : initial.Canonical where
  sharedOnce := initial_sharedOnce
  unions i members hentry := by
    have hnone : ∀ data ∈ initial.entries, ∀ members, data ≠ .union members := by
      simp [initial, TypeData.named]
    exact absurd rfl (hnone _ (Array.mem_of_getElem? hentry) members)

end TypeTable

/-! ## What stays at a place -/

/-- A type stays what it is, but an object may get other members and more signatures. -/
def TypeData.Stays (data later : TypeData) : Prop :=
  later = data ∨ ∃ name? members members' signatures more,
    data = .object name? members signatures ∧
      later = .object name? members' (signatures ++ more)

/-- Data stays what it is. -/
theorem TypeData.Stays.refl (data : TypeData) : data.Stays data :=
  .inl rfl

/-- Staying goes on from data to data. -/
theorem TypeData.Stays.trans {a b c : TypeData} (h : a.Stays b) (h' : b.Stays c) : a.Stays c := by
  rcases h with rfl | ⟨name?, members, members', signatures, more, rfl, rfl⟩
  · exact h'
  · rcases h' with rfl | ⟨_, _, later, _, more', heq, rfl⟩
    · exact .inr ⟨name?, members, members', signatures, more, rfl, rfl⟩
    · cases heq
      refine .inr ⟨name?, members, later, signatures, more ++ more', rfl, ?_⟩
      rw [List.append_assoc]

namespace TypeTable

variable {table later : TypeTable}

/-- An object that gets other members and more signatures stays. -/
theorem updateObject_stays (id : TypeId)
    {f : SymbolTable SymbolId → List Signature → SymbolTable SymbolId × List Signature}
    (hf : ∀ members signatures, signatures <+: (f members signatures).2) :
    Continues TypeData.Stays table.entries (table.updateObject id f).entries := by
  refine .modify TypeData.Stays.refl _ _ fun data => ?_
  cases data with
  | object name? members signatures =>
    obtain ⟨more, hmore⟩ := hf members signatures
    exact .inr ⟨name?, members, _, signatures, more, rfl, by rw [hmore]⟩
  | _ => exact .refl _

/-- A step keeps every entry in its place, up to the members and further signatures of an object. -/
theorem Step.stays (h : table.Step later) :
    Continues TypeData.Stays table.entries later.entries := by
  have hkept {later : TypeTable} (hkept : Kept table.entries later.entries) :
      Continues TypeData.Stays table.entries later.entries :=
    fun _ data hdata => ⟨data, hkept.of_some hdata, .refl data⟩
  obtain ⟨op, -⟩ := h
  cases op with
  | addObject name? members signatures => exact hkept (table.kept_add _)
  | share kind data => exact hkept (table.kept_share _)
  | unionOf ids => exact hkept (table.kept_unionOf _)
  | setMembers id members => exact updateObject_stays id fun _ _ => List.prefix_rfl
  | addSignature id signature => exact updateObject_stays id fun _ _ => List.prefix_append _ _

/-- No place is given away again: whatever steps are made, each type stays at its place. -/
theorem Reaches.stays (h : table.Reaches later) :
    Continues TypeData.Stays table.entries later.entries := by
  induction h with
  | refl => exact .refl TypeData.Stays.refl _
  | tail _ hstep ih => exact ih.trans (R := TypeData.Stays) (fun _ _ _ => .trans) hstep.stays

end TypeTable

end ExpressionTyping
