import Mathlib.Data.List.Forall2
import ExpressionTyping.Typing.SymbolTable

/-!
# Symbol tables side by side

Two symbol tables that were filled in the same way have the same names in the same order. `Pairs R`
says so, and that the values under one name are related by `R`. A table with changed values is the
case where `R` is a function.
-/

set_option autoImplicit false

namespace ExpressionTyping

namespace SymbolTable

variable {α β : Type} {R : α → β → Prop}

/-- The tables have the same names in the same order, with related values. -/
def Pairs (R : α → β → Prop) (table : SymbolTable α) (table' : SymbolTable β) : Prop :=
  List.Forall₂ (fun entry entry' => entry'.1 = entry.1 ∧ R entry.2 entry'.2) table.entries
    table'.entries

namespace Pairs

variable {table : SymbolTable α} {table' : SymbolTable β}

/-- Tables paired by a relation are paired by every weaker one. -/
theorem imp {S : α → β → Prop} (h : table.Pairs R table') (himp : ∀ a b, R a b → S a b) :
    table.Pairs S table' :=
  List.Forall₂.imp (fun _ _ hentry => ⟨hentry.1, himp _ _ hentry.2⟩) h

/-- Tables paired by a relation are paired by another that follows from it for the values of the
second one. -/
theorem imp_mem {S : α → β → Prop} (h : table.Pairs R table')
    (himp : ∀ entry ∈ table'.entries, ∀ a, R a entry.2 → S a entry.2) : table.Pairs S table' := by
  obtain ⟨entries⟩ := table
  obtain ⟨entries'⟩ := table'
  change List.Forall₂ _ entries entries' at h
  show List.Forall₂ _ entries entries'
  induction h with
  | nil => exact .nil
  | cons hentry _ ih =>
    obtain ⟨hfirst, hrest⟩ := List.forall_mem_cons.mp himp
    exact .cons ⟨hentry.1, hfirst _ hentry.2⟩ (ih hrest)

/-- Maps that take related values to related ones keep tables paired. -/
theorem map {γ δ : Type} {S : γ → δ → Prop} {f : α → γ} {g : β → δ} (h : table.Pairs R table')
    (hfg : ∀ a b, R a b → S (f a) (g b)) : (table.map f).Pairs S (table'.map g) :=
  List.rel_map (fun _ _ hentry => ⟨hentry.1, hfg _ _ hentry.2⟩) h

/-- Paired tables have related values, in order. -/
theorem values (h : table.Pairs R table') : List.Forall₂ R table.values table'.values :=
  List.rel_map (fun _ _ hentry => hentry.2) h

/-- Paired tables have the same names, in order. -/
theorem names (h : table.Pairs R table') : table'.names = table.names := by
  have hnames : List.Forall₂ (fun name name' => name' = name) table.names table'.names :=
    List.rel_map (fun _ _ hentry => hentry.1) h
  have hflip := hnames.flip
  rwa [List.forall₂_eq_eq_eq] at hflip

/-- Looking up a name in paired tables finds related values, or none in either. -/
theorem get? (h : table.Pairs R table') (name : String) :
    Option.Rel R (table.get? name) (table'.get? name) := by
  obtain ⟨entries⟩ := table
  obtain ⟨entries'⟩ := table'
  change List.Forall₂ _ entries entries' at h
  show Option.Rel R (entries.lookup name) (entries'.lookup name)
  induction h with
  | nil => exact .none
  | cons hentry _ ih =>
    rw [List.lookup_cons, List.lookup_cons, hentry.1]
    split
    · exact .some hentry.2
    · exact ih

/-- Inserting related values under one name keeps tables paired. -/
theorem insert (h : table.Pairs R table') (name : String) {value : α} {value' : β}
    (hvalue : R value value') : (table.insert name value).Pairs R (table'.insert name value') := by
  obtain ⟨entries⟩ := table
  obtain ⟨entries'⟩ := table'
  change List.Forall₂ _ entries entries' at h
  show List.Forall₂ _ (insertEntry name value entries) (insertEntry name value' entries')
  induction h with
  | nil => exact .cons ⟨rfl, hvalue⟩ .nil
  | cons hentry hrest ih =>
    rw [insertEntry, insertEntry, hentry.1]
    split
    · exact .cons ⟨rfl, hvalue⟩ hrest
    · exact .cons hentry ih

/-- A value is replaced in the first of two paired tables alone. They are paired by a relation that
holds for the new value, and follows for the values of other names. -/
theorem replace {S : α → β → Prop} (h : table.Pairs R table') (honce : table'.names.Nodup)
    {name : String} {value : α} {value' : β} (hget : table'.get? name = some value')
    (hvalue : S value value')
    (hothers : ∀ entry ∈ table'.entries, entry.1 ≠ name → ∀ a, R a entry.2 → S a entry.2) :
    (table.insert name value).Pairs S table' := by
  obtain ⟨entries⟩ := table
  obtain ⟨entries'⟩ := table'
  change List.Forall₂ _ entries entries' at h
  change (entries'.map Prod.fst).Nodup at honce
  change entries'.lookup name = some value' at hget
  show List.Forall₂ _ (insertEntry name value entries) entries'
  induction h with
  | nil => cases hget
  | @cons entry entry' rest rest' hentry hrest ih =>
    obtain ⟨hnew, honce'⟩ := List.nodup_cons.mp honce
    obtain ⟨hfirst, hlater⟩ := List.forall_mem_cons.mp hothers
    rw [insertEntry]
    by_cases hname : entry.1 = name
    · have hname' : entry'.1 = name := hentry.1.trans hname
      rw [List.lookup_cons, hname', beq_self_eq_true] at hget
      cases hget
      rw [if_pos (beq_iff_eq.mpr hname)]
      refine .cons ⟨hname', hvalue⟩ ?_
      -- the name does not occur again
      have hothers : (⟨rest⟩ : SymbolTable α).Pairs R ⟨rest'⟩ := hrest
      refine hothers.imp_mem fun other hother => hlater other hother fun heq => hnew ?_
      rw [hname', ← heq]
      exact List.mem_map_of_mem hother
    · have hname' : entry'.1 ≠ name := hentry.1 ▸ hname
      rw [List.lookup_cons, beq_false_of_ne hname'.symm] at hget
      rw [if_neg (by simpa using hname)]
      exact .cons ⟨hentry.1, hfirst hname' _ hentry.2⟩ (ih hlater honce' hget)

/-- Lists that pair the same names with related values make paired tables. -/
theorem ofList {entries : List (String × α)} {entries' : List (String × β)}
    (h : List.Forall₂ (fun entry entry' => entry'.1 = entry.1 ∧ R entry.2 entry'.2) entries
      entries') : (ofList entries).Pairs R (ofList entries') := by
  refine List.rel_foldl (P := Pairs R) ?_ List.Forall₂.nil h
  intro table table' htable entry entry' hentry
  show Pairs R (table.insert entry.1 entry.2) (table'.insert entry'.1 entry'.2)
  rw [hentry.1]
  exact htable.insert entry.1 hentry.2

end Pairs

variable (f : α → β)

/-- Tables whose values are related by a function. -/
theorem pairs_iff_map {table : SymbolTable α} {table' : SymbolTable β} :
    table.Pairs (fun a b => b = f a) table' ↔ table' = table.map f := by
  constructor
  · intro h
    obtain ⟨entries⟩ := table
    obtain ⟨entries'⟩ := table'
    change List.Forall₂ _ entries entries' at h
    show (⟨entries'⟩ : SymbolTable β) = ⟨entries.map fun entry => (entry.1, f entry.2)⟩
    congr 1
    induction h with
    | nil => rfl
    | cons hentry _ ih => rw [List.map_cons, ← ih, ← hentry.1, ← hentry.2]
  · rintro rfl
    refine List.forall₂_map_right_iff.mpr (List.forall₂_same.mpr ?_)
    exact fun _ _ => ⟨rfl, rfl⟩

/-- Looking up a name in a mapped table finds the image of the value. -/
theorem get?_map (table : SymbolTable α) (name : String) :
    (table.map f).get? name = (table.get? name).map f := by
  have h := ((pairs_iff_map f).mpr (Eq.refl (table.map f))).get? name
  generalize table.get? name = value at h ⊢
  generalize (table.map f).get? name = value' at h ⊢
  cases h with
  | none => rfl
  | some h => rw [h, Option.map_some]

/-- Inserting an image into a mapped table is the same as mapping after the insertion. -/
theorem insert_map (table : SymbolTable α) (name : String) (value : α) :
    (table.map f).insert name (f value) = (table.insert name value).map f :=
  (pairs_iff_map f).mp (((pairs_iff_map f).mpr rfl).insert name rfl)

/-- A table of images is the image of the table. -/
theorem ofList_map (entries : List (String × α)) :
    ofList (entries.map fun entry => (entry.1, f entry.2)) = (ofList entries).map f := by
  have h : (SymbolTable.mk entries).Pairs (fun a b => b = f a) ((SymbolTable.mk entries).map f) :=
    (pairs_iff_map f).mpr rfl
  exact (pairs_iff_map f).mp (Pairs.ofList h)

/-- A value that is looked up is listed under its name. -/
theorem mem_of_get? {table : SymbolTable α} {name : String} {value : α}
    (h : table.get? name = some value) : (name, value) ∈ table.entries := by
  obtain ⟨before, after, hentries, -⟩ := List.lookup_eq_some_iff.mp h
  rw [hentries]
  simp

/-- A condition on names and values holds of all entries after an insertion that satisfies it. -/
theorem forall_entries_insert {P : String × α → Prop} {table : SymbolTable α} {name : String}
    {value : α} (h : ∀ entry ∈ table.entries, P entry) (hnew : P (name, value)) :
    ∀ entry ∈ (table.insert name value).entries, P entry := by
  obtain ⟨entries⟩ := table
  show ∀ entry ∈ insertEntry name value entries, P entry
  induction entries with
  | nil => exact List.forall_mem_singleton.mpr hnew
  | cons first rest ih =>
    obtain ⟨hfirst, hrest⟩ := List.forall_mem_cons.mp h
    rw [insertEntry]
    split
    · exact List.forall_mem_cons.mpr ⟨hnew, hrest⟩
    · exact List.forall_mem_cons.mpr ⟨hfirst, ih hrest⟩

/-- A condition on values holds of all entries after an insertion that satisfies it. -/
theorem forall_mem_insert {P : α → Prop} {table : SymbolTable α} {name : String} {value : α}
    (h : ∀ entry ∈ table.entries, P entry.2) (hvalue : P value) :
    ∀ entry ∈ (table.insert name value).entries, P entry.2 :=
  forall_entries_insert h hvalue

/-- A condition on values holds of all entries of a table made from a list that satisfies it. -/
theorem forall_mem_ofList {P : α → Prop} {entries : List (String × α)}
    (h : ∀ entry ∈ entries, P entry.2) : ∀ entry ∈ (ofList entries).entries, P entry.2 := by
  have key (table : SymbolTable α) (htable : ∀ entry ∈ table.entries, P entry.2) :
      ∀ entry ∈ (entries.foldl (fun table entry => table.insert entry.1 entry.2) table).entries,
        P entry.2 := by
    induction entries generalizing table with
    | nil => exact htable
    | cons first rest ih =>
      obtain ⟨hfirst, hrest⟩ := List.forall_mem_cons.mp h
      exact ih hrest _ (forall_mem_insert htable hfirst)
  exact key .empty fun _ hmem => absurd hmem List.not_mem_nil

end SymbolTable

end ExpressionTyping
