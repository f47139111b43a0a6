import ExpressionTyping.Proofs.Program.Compiled

/-!
# Tables that remember where types stand

To share a type its table is searched for what looks the same. The same can be had from a table
that keeps the flags of each type beside it and remembers the shared types in a dictionary of each
kind (`StoredTable`). The dictionaries and the flags are never looked over again: they stay right
because every operation keeps them so, also those that change an object type at its place
(`StoredTable.InStep`). Such a table gives out the same places as one that is searched, operation by
operation (`StoredTable.InStep.performAll`).

So what is compiled has a table of types in which nothing moves, shared types stand once, unions are
flat, and flags tell what a type is (`Program.types_canonical`).
-/

set_option autoImplicit false

namespace ExpressionTyping

/-! ## Types with their flags -/

/-- The flags that a shared type of a kind is stored with. -/
def SharedKind.flags : SharedKind → TypeFlags
  | stringLiteral => .single TypeFlags.stringLiteral
  | numberLiteral => .single TypeFlags.numberLiteral
  | array => .single TypeFlags.object
  | union => .single TypeFlags.union

/-- The kind that data is found by decides its flags. -/
theorem TypeData.flags_of_sharedKind? {data : TypeData} {kind : SharedKind}
    (h : data.sharedKind? = some kind) : data.flags = kind.flags := by
  cases data with
  | stringLiteral | numberLiteral | array | union =>
    cases h
    rfl
  | _ => cases h

/-- A single bit has no bit but itself. -/
theorem TypeFlags.has_single (bit other : Nat) :
    (TypeFlags.single bit).has other = decide (bit = other) := by
  show (1 <<< bit).testBit other = _
  rw [Nat.one_shiftLeft, Nat.testBit_two_pow]

/-- Unions are told from other types by a flag. -/
theorem TypeData.flags_has_union_iff (data : TypeData) :
    data.flags.has TypeFlags.union = true ↔ ∃ members, data = .union members := by
  have hsingle (bit : Nat) (hne : bit ≠ TypeFlags.union) :
      ¬(TypeFlags.single bit).has TypeFlags.union = true := by
    rw [TypeFlags.has_single]
    exact of_decide_eq_true.mt hne
  constructor
  · intro h
    cases data with
    | union members => exact ⟨members, rfl⟩
    | intrinsic word => exact absurd h (hsingle _ (by cases word <;> decide))
    | _ => exact absurd h (hsingle _ (by decide))
  · rintro ⟨members, rfl⟩
    exact (TypeFlags.has_single _ _).trans (decide_eq_true rfl)

/-- A type with its flags. -/
structure StoredType where
  /-- The flags. -/
  flags : TypeFlags
  /-- What stands there. -/
  data : TypeData

/-- An object type with other members or signatures; any other type is unchanged. -/
def StoredType.updateObject
    (f : SymbolTable SymbolId → List Signature → SymbolTable SymbolId × List Signature)
    (entry : StoredType) : StoredType :=
  match entry.data with
  | .object name? members signatures =>
    { entry with data := .object name? (f members signatures).1 (f members signatures).2 }
  | _ => entry

/-- A table that remembers where the shared types of each kind stand. -/
structure StoredTable where
  /-- The types with their flags. -/
  entries : Array StoredType
  /-- The shared types of each kind with their places. -/
  known : SharedKind → List (TypeData × TypeId)

namespace StoredTable

/-- The table that every program starts with. -/
def initial : StoredTable where
  entries := #[
    ⟨.single TypeFlags.any, .intrinsic .any⟩,
    ⟨.single TypeFlags.unknown, .intrinsic .unknown⟩,
    ⟨.single TypeFlags.string, .intrinsic .string⟩,
    ⟨.single TypeFlags.number, .intrinsic .number⟩,
    ⟨.single TypeFlags.boolean, .intrinsic .boolean⟩,
    ⟨.single TypeFlags.symbol, .intrinsic .symbol⟩,
    ⟨.single TypeFlags.void, .intrinsic .void⟩,
    ⟨.single TypeFlags.undefined, .intrinsic .undefined⟩,
    ⟨.single TypeFlags.null, .intrinsic .null⟩,
    ⟨.single TypeFlags.never, .intrinsic .never⟩,
    ⟨.single TypeFlags.nonPrimitive, .intrinsic .object⟩,
    ⟨.single TypeFlags.booleanLiteral, .booleanLiteral true⟩,
    ⟨.single TypeFlags.booleanLiteral, .booleanLiteral false⟩,
    ⟨.single TypeFlags.object, .named "Function"⟩,
    ⟨.single TypeFlags.object, .named "Object"⟩]
  known _ := []

variable (stored : StoredTable)

/-- Adds a type with its flags at a new place. -/
def add (flags : TypeFlags) (data : TypeData) : TypeId × StoredTable :=
  (⟨stored.entries.size⟩, { stored with entries := stored.entries.push ⟨flags, data⟩ })

/-- The place that the dictionary of a kind has for a type, or a new place, which it has from then
on. -/
def intern (kind : SharedKind) (data : TypeData) : TypeId × StoredTable :=
  match (stored.known kind).lookup data with
  | some id => (id, stored)
  | none =>
    let (id, added) := stored.add kind.flags data
    (id, { added with
      known := fun other =>
        if other = kind then (data, id) :: stored.known kind else stored.known other })

/-- The types that a union is made of; any other type is made of itself. -/
def constituents (id : TypeId) : List TypeId :=
  match stored.entries[id.index]?.map StoredType.data with
  | some (.union members) => members
  | _ => [id]

/-- The union of types. -/
def unionOf (ids : List TypeId) : TypeId × StoredTable :=
  let members := (ids.flatMap stored.constituents).eraseDups
  if members.contains .any then (.any, stored)
  else match members with
    | [] => (.ofWord .never, stored)
    | [id] => (id, stored)
    | _ => stored.intern .union (.union members)

/-- Changes the members and the signatures of an object type at its place. -/
def updateObject (id : TypeId)
    (f : SymbolTable SymbolId → List Signature → SymbolTable SymbolId × List Signature) :
    StoredTable :=
  { stored with entries := stored.entries.modify id.index (StoredType.updateObject f) }

/-- Carries out an operation. Where it is about a type that is asked for, that has a place. -/
def perform : TableOp → Option TypeId × StoredTable
  | .addObject name? members signatures =>
    (some (stored.add (.single TypeFlags.object) (.object name? members signatures)).1,
      (stored.add (.single TypeFlags.object) (.object name? members signatures)).2)
  | .share kind data => (some (stored.intern kind data).1, (stored.intern kind data).2)
  | .unionOf ids => (some (stored.unionOf ids).1, (stored.unionOf ids).2)
  | .setMembers id members =>
    (none, stored.updateObject id fun _ signatures => (members, signatures))
  | .addSignature id signature =>
    (none, stored.updateObject id fun members signatures => (members, signatures ++ [signature]))

/-- Carries out operations one after the other. -/
def performAll (stored : StoredTable) : List TableOp → List (Option TypeId) × StoredTable
  | [] => ([], stored)
  | op :: rest =>
    ((stored.perform op).1 :: ((stored.perform op).2.performAll rest).1,
      ((stored.perform op).2.performAll rest).2)

/-- A table remembers what stands in a table without dictionaries: the same types, each with its own
flags, and the shared types of each kind where they stand. -/
structure InStep (stored : StoredTable) (table : TypeTable) : Prop where
  entries : table.entries = stored.entries.map StoredType.data
  flags : ∀ entry ∈ stored.entries, entry.flags = entry.data.flags
  known : ∀ kind data id, (stored.known kind).lookup data = some id ↔
    data.sharedKind? = some kind ∧ table.entries[id.index]? = some data

variable {stored}

/-- The stored table of the ready-made types is in step with the plain one. -/
theorem initial_inStep : initial.InStep .initial where
  entries := by simp [TypeTable.initial, initial]
  flags := by simp [initial, TypeData.flags, TypeData.wordFlag, TypeData.named]
  known kind data id := by
    constructor
    · intro h
      cases h
    · rintro ⟨hkind, hentry⟩
      have hnone : ∀ data ∈ TypeTable.initial.entries, data.sharedKind? = none := by
        simp [TypeTable.initial, TypeData.named, TypeData.sharedKind?]
      rw [hnone data (Array.mem_of_getElem? hentry)] at hkind
      cases hkind

namespace InStep

variable {table : TypeTable} (h : stored.InStep table)
include h

/-- Tables in step have equally many entries. -/
theorem size_eq : stored.entries.size = table.entries.size := by
  rw [h.entries, Array.size_map]

/-- Pushing an entry with the flags of its data keeps every stored flag right. -/
theorem push {flags : TypeFlags} {data : TypeData} (hflags : flags = data.flags) :
    ∀ entry ∈ (stored.add flags data).2.entries, entry.flags = entry.data.flags := by
  intro entry hentry
  rcases Array.mem_push.mp hentry with hold | rfl
  · exact h.flags entry hold
  · exact hflags

/-- A type that is not shared gets a new place. -/
theorem add (data : TypeData) (hdata : data.sharedKind? = none) :
    (stored.add data.flags data).1 = (table.add data).1 ∧
      (stored.add data.flags data).2.InStep (table.add data).2 := by
  refine ⟨congrArg TypeId.mk h.size_eq, ?_, h.push rfl, fun kind other id => ?_⟩
  · show table.entries.push data = (stored.entries.push _).map _
    rw [Array.map_push, ← h.entries]
  · show (stored.known kind).lookup other = some id ↔
      _ ∧ (table.entries.push data)[id.index]? = some other
    rw [h.known, Array.getElem?_push]
    refine and_congr_right fun hkind => ?_
    split
    · rename_i hid
      rw [hid, Array.getElem?_eq_none (Nat.le_refl _)]
      constructor
      · nofun
      · rintro ⟨rfl⟩
        cases hdata.symm.trans hkind
    · rfl

/-- A shared type is found in its dictionary where a search finds it, or both give it the same new
place. -/
theorem intern {kind : SharedKind} {data : TypeData}
    (hkind : data.sharedKind? = some kind) :
    (stored.intern kind data).1 = (table.share data).1 ∧
      (stored.intern kind data).2.InStep (table.share data).2 := by
  rcases table.share_cases data with ⟨i, hi, heq⟩ | ⟨hnone, heq⟩
  · have hlookup : (stored.known kind).lookup data = some ⟨i⟩ :=
      (h.known kind data ⟨i⟩).mpr ⟨hkind, hi⟩
    rw [heq, StoredTable.intern, hlookup]
    exact ⟨rfl, h⟩
  · have hlookup : (stored.known kind).lookup data = none := by
      cases hfound : (stored.known kind).lookup data with
      | none => rfl
      | some id => exact absurd ((h.known kind data id).mp hfound).2 (hnone id.index)
    rw [heq, StoredTable.intern, hlookup]
    refine ⟨congrArg TypeId.mk h.size_eq, ?_, h.push (TypeData.flags_of_sharedKind? hkind).symm, ?_⟩
    · show table.entries.push data = (stored.entries.push _).map _
      rw [Array.map_push, ← h.entries]
    · intro other data' id
      show (if other = kind then (data, ⟨stored.entries.size⟩) :: stored.known kind
        else stored.known other).lookup data' = some id ↔
          _ ∧ (table.entries.push data)[id.index]? = some data'
      rw [Array.getElem?_push, h.size_eq]
      by_cases hdata : data' = data
      · subst hdata
        -- the new type is remembered by its own dictionary only, and stands nowhere else
        by_cases hother : other = kind
        · rw [if_pos hother, List.lookup_cons_self, hother]
          constructor
          · rintro ⟨rfl⟩
            exact ⟨hkind, if_pos rfl⟩
          · rintro ⟨-, hentry⟩
            split at hentry
            · rename_i hid
              rw [← hid]
            · exact absurd hentry (hnone _)
        · rw [if_neg hother, h.known]
          constructor
          · rintro ⟨-, hentry⟩
            exact absurd hentry (hnone _)
          · rintro ⟨hkind', -⟩
            exact absurd (Option.some.inj (hkind'.symm.trans hkind)) hother
      · have hlookup' : (if other = kind then (data, (⟨table.entries.size⟩ : TypeId)) ::
            stored.known kind else stored.known other).lookup data' =
            (stored.known other).lookup data' := by
          split
          · rename_i heq
            rw [List.lookup_cons, beq_false_of_ne hdata, heq]
          · rfl
        rw [hlookup', h.known]
        refine and_congr_right fun _ => ?_
        split
        · rename_i hid
          rw [hid, Array.getElem?_eq_none (Nat.le_refl _)]
          constructor
          · nofun
          · rintro ⟨rfl⟩
            exact absurd rfl hdata
        · rfl

/-- Tables in step have the same constituents. -/
theorem constituents_eq (id : TypeId) : stored.constituents id = table.constituents id := by
  unfold StoredTable.constituents TypeTable.constituents TypeTable.get
  rw [h.entries, Array.getElem?_map]
  cases stored.entries[id.index]? with
  | none => rfl
  | some entry =>
    obtain ⟨flags, data⟩ := entry
    cases data <;> rfl

/-- A union is made alike in tables in step, with the same id. -/
theorem unionOf (ids : List TypeId) :
    (stored.unionOf ids).1 = (table.unionOf ids).1 ∧
      (stored.unionOf ids).2.InStep (table.unionOf ids).2 := by
  have hparts : ids.flatMap stored.constituents = ids.flatMap table.constituents :=
    congrArg (ids.flatMap ·) (funext h.constituents_eq)
  unfold StoredTable.unionOf TypeTable.unionOf
  rw [hparts]
  generalize (ids.flatMap table.constituents).eraseDups = members
  by_cases hany : members.contains .any = true
  · simp only [if_pos hany]
    exact ⟨trivial, h⟩
  · simp only [if_neg hany]
    cases members with
    | nil => exact ⟨rfl, h⟩
    | cons first rest =>
      cases rest with
      | nil => exact ⟨rfl, h⟩
      | cons second rest => exact h.intern rfl

/-- Changing an object at its place changes neither flags nor what is shared. -/
theorem updateObject (id : TypeId)
    (f : SymbolTable SymbolId → List Signature → SymbolTable SymbolId × List Signature) :
    (stored.updateObject id f).InStep (table.updateObject id f) where
  entries := by
    apply Array.ext_getElem?
    intro i
    unfold TypeTable.updateObject StoredTable.updateObject
    rw [Array.getElem?_modify, Array.getElem?_map, Array.getElem?_modify, h.entries,
      Array.getElem?_map]
    split
    · rw [Option.map_map, Option.map_map]
      refine congrArg (Option.map · _) (funext fun entry => ?_)
      obtain ⟨flags, data⟩ := entry
      cases data <;> rfl
    · rfl
  flags entry hentry := by
    change entry ∈ stored.entries.modify id.index (StoredType.updateObject f) at hentry
    rcases mem_modify_cases hentry with hold | ⟨old, hold, rfl⟩
    · exact h.flags entry hold
    · obtain ⟨flags, data⟩ := old
      have hflags : flags = data.flags := h.flags _ (Array.mem_of_getElem? hold)
      cases data <;> exact hflags
  known kind data other := by
    refine (h.known kind data other).trans (and_congr_right fun hkind => ?_)
    have hshared := TypeData.isShared_of_sharedKind? hkind
    refine ⟨fun hentry => ?_, TypeTable.updateObject_shared hshared⟩
    show (table.entries.modify id.index _)[other.index]? = some data
    rw [Array.getElem?_modify, hentry]
    split
    · cases data with
      | object => cases hkind
      | _ => rfl
    · rfl

/-! ## Operations -/

/-- An operation gives out the same place in both tables, and they stay in step. -/
theorem perform {op : TableOp} (hop : table.Allows op) :
    (stored.perform op).1 = (table.perform op).1 ∧
      (stored.perform op).2.InStep (table.perform op).2 := by
  cases op with
  | addObject name? members signatures =>
    exact (h.add (.object name? members signatures) rfl).imp_left (congrArg some)
  | share kind data => exact (h.intern hop.1).imp_left (congrArg some)
  | unionOf ids => exact (h.unionOf ids).imp_left (congrArg some)
  | setMembers id members => exact ⟨rfl, h.updateObject id _⟩
  | addSignature id signature => exact ⟨rfl, h.updateObject id _⟩

/-- Operations give out the same places in both tables, one after the other, and the tables are in
step at the end. -/
theorem performAll {ops : List TableOp} (hops : table.AllowsAll ops) :
    (stored.performAll ops).1 = (table.performAll ops).1 ∧
      (stored.performAll ops).2.InStep (table.performAll ops).2 := by
  induction ops generalizing stored table with
  | nil => exact ⟨rfl, h⟩
  | cons op rest ih =>
    obtain ⟨hplace, hnext⟩ := h.perform hops.1
    obtain ⟨hplaces, hlast⟩ := ih hnext hops.2
    exact ⟨congrArg₂ List.cons hplace hplaces, hlast⟩

end InStep

end StoredTable

namespace Program

/-- The union bit marks exactly the unions. -/
theorem flags_has_union_iff (program : Program) (id : TypeId) :
    (program.flags id).has TypeFlags.union = true ↔
      ∃ members, program.types.get id = .union members :=
  TypeData.flags_has_union_iff _

/-- The table of types of compiled texts comes about in steps from the one every program starts
with, keeps that one, and is kept when more is compiled; what its flags say of unions is what its
types say. Whatever table is reached in steps, no place is given away again, shared types stand at
one place, unions have several members, all different, earlier, and no unions or `any`. The
operations that lead to the table, carried out on a table that stores flags and remembers shared
types of each kind in a dictionary, give out the same places and lead to the same types. -/
theorem types_canonical (sources : List (String × String)) :
    TypeTable.initial.Reaches (ofTexts sources).types ∧
    (∀ more, Kept (ofTexts sources).types.entries (ofTexts (sources ++ more)).types.entries) ∧
    (∀ i < 15, (ofTexts sources).types.entries[i]? = TypeTable.initial.entries[i]?) ∧
    (∀ id, ((ofTexts sources).flags id).has TypeFlags.union = true ↔
      ∃ members, (ofTexts sources).types.get id = .union members) ∧
    ∀ table, TypeTable.initial.Reaches table →
      (∀ later, table.Reaches later → Continues TypeData.Stays table.entries later.entries) ∧
      (∀ id id' data, data.isShared = true → table.get? id = some data →
        table.get? id' = some data → id = id') ∧
      (∀ id members, table.get? id = some (.union members) →
        2 ≤ members.length ∧ members.Nodup ∧ ∀ member ∈ members, member.index < id.index ∧
          member ≠ .any ∧ ∀ inner, table.get? member ≠ some (.union inner)) ∧
      ∃ ops, TypeTable.initial.AllowsAll ops ∧ (TypeTable.initial.performAll ops).2 = table ∧
        (StoredTable.initial.performAll ops).1 = (TypeTable.initial.performAll ops).1 ∧
        (StoredTable.initial.performAll ops).2.InStep table := by
  obtain ⟨hcompiled, -⟩ := ofTexts_compiled sources
  refine ⟨hcompiled.reaches, fun more => ?_, hcompiled.sound.initial,
    (ofTexts sources).flags_has_union_iff, fun table htable => ?_⟩
  · rw [ofTexts, ofTexts, List.foldl_append]
    exact (hcompiled.addTexts more).2.1.types
  · have hcanonical := TypeTable.initial_canonical.reaches htable
    refine ⟨fun later hlater => hlater.stays, ?_, fun id members hunion => ?_, ?_⟩
    · intro id id' data hshared hid hid'
      exact congrArg TypeId.mk (hcanonical.sharedOnce hshared hid hid')
    · have hfits := hcanonical.unions id.index members hunion
      refine ⟨hfits.several, hfits.once, fun member hmember => ?_⟩
      refine ⟨hfits.earlier member hmember, ?_, ?_⟩
      · rintro rfl
        exact hfits.noAny hmember
      · intro inner hinner
        exact hfits.flat member hmember inner (TypeTable.get_of_entries hinner)
    · obtain ⟨ops, hops, rfl⟩ := TypeTable.reaches_iff.mp htable
      exact ⟨ops, hops, rfl, StoredTable.initial_inStep.performAll hops⟩

/-- Two annotations that say the same union share its place, and it is flat. -/
theorem types_canonical_union : ∃ program,
    program = ofTexts [("unions", "let a: 'k' | (number | 'k'); let b: 'k' | number;")] ∧
      program.types.get? ⟨17⟩ = some (.union [⟨15⟩, .ofWord .number]) ∧
      (program.flags ⟨17⟩).has TypeFlags.union = true ∧
      ∀ id, program.types.get? id = some (.union [⟨15⟩, .ofWord .number]) → id = ⟨17⟩ := by
  obtain ⟨hreaches, -, -, hflags, hall⟩ := types_canonical
    [("unions", "let a: 'k' | (number | 'k'); let b: 'k' | number;")]
  have hunion :
      (ofTexts [("unions", "let a: 'k' | (number | 'k'); let b: 'k' | number;")]).types.get? ⟨17⟩ =
        some (.union [⟨15⟩, .ofWord .number]) := by
    decide +kernel
  refine ⟨_, rfl, ?_⟩
  generalize ofTexts _ = program at hreaches hflags hunion ⊢
  obtain ⟨-, honce, -⟩ := hall program.types hreaches
  refine ⟨hunion, (hflags ⟨17⟩).mpr ⟨_, TypeTable.get_of_entries hunion⟩, ?_⟩
  exact fun id hid => honce id ⟨17⟩ _ rfl hid hunion

end Program

end ExpressionTyping
