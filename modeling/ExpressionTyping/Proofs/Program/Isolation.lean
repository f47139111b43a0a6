import ExpressionTyping.Proofs.Program.Adding
import ExpressionTyping.Proofs.Program.Mirror

/-!
# Files do not see each other

A file compiled into a program that holds other files is, to everyone who asks about that file, the
file compiled alone: the same issues are added, and at every offset the same names are visible, with
types that have the same texts, are the same type or not, and look the same to any depth. Only the
places of types and symbols differ, and a program embeds the one of the file alone up to those.
-/

set_option autoImplicit false

namespace ExpressionTyping

namespace Program

/-- The program that holds files, added in order. -/
def ofFiles (files : List SourceFile) : Program :=
  files.foldl (fun program file => (program.add file).2) Program.empty

/-- The types of the values visible at a location, in the order of the values. -/
def typesAt (program : Program) (location : Location) : List TypeId :=
  (program.symbolsAt location).map fun id => program.typeAt id location

/-- The names visible at a location, each with the text of its type there and with what the type
looks like to a depth. -/
def shownAt (program : Program) (depth : Nat) (location : Location) :
    List (String × String × TypeSketch) :=
  (program.symbolsAt location).map fun id =>
    let type := program.typeAt id location
    ((program.symbol id).name, program.typeText type, program.sketch location depth type)

/-- The program of any files is sound. -/
theorem ofFiles_sound (files : List SourceFile) : (ofFiles files).Sound := by
  unfold ofFiles
  generalize hstart : Program.empty = start
  have hsound : start.Sound := hstart ▸ empty_sound
  clear hstart
  induction files generalizing start with
  | nil => exact hsound
  | cons file rest ih => exact ih _ (hsound.add file)

end Program

namespace Embeds

variable {base own all : Program} {links : Links} (h : Embeds base links own all)
include h

/-- A program and the one it is embedded in look alike from a location and its copy. -/
theorem mirrors (location : Location) :
    Mirrors links.types (fun id id' => id' = base.symbolPlace id) own location all
      (base.locationPlace location) where
  get hab := (h.get hab).imp (fun _ _ => id) fun _ _ hid => hid.1
  name := by
    rintro id _ rfl
    exact (h.symbol id).name
  sort := by
    rintro id _ rfl
    exact (h.symbol id).sort
  type := by
    rintro id _ rfl
    exact (h.symbol id).type
  typeAt := by
    rintro id _ rfl
    exact h.typeAt id location
  length := rfl

/-- The symbols at the copy of a location are the copies of those at the location. -/
theorem symbolsAt (location : Location) :
    all.symbolsAt (base.locationPlace location) =
      (own.symbolsAt location).map base.symbolPlace := by
  have hvisible : all.visibleAt (base.locationPlace location) =
      (own.visibleAt location).map base.symbolPlace := by
    unfold Program.visibleAt
    rw [h.scopesAt, List.flatMap_map, ← SymbolTable.ofList_map, List.map_flatMap]
    congr 1
    apply List.flatMap_congr
    intro id _
    rw [(h.scope id).values]
    rfl
  unfold Program.symbolsAt
  rw [hvisible]
  unfold SymbolTable.values SymbolTable.map
  rw [List.map_map, List.map_map]
  rfl

/-- The types at the copy of a location are linked to those at the location. -/
theorem typesAt (location : Location) :
    List.Forall₂ links.types (own.typesAt location)
      (all.typesAt (base.locationPlace location)) := by
  unfold Program.typesAt
  rw [h.symbolsAt, List.map_map, List.forall₂_map_left_iff, List.forall₂_map_right_iff,
    List.forall₂_same]
  exact fun id _ => h.typeAt id location

/-- What is shown at the copy of a location is what is shown at the location. -/
theorem shownAt (depth : Nat) (location : Location) :
    all.shownAt depth (base.locationPlace location) = own.shownAt depth location := by
  unfold Program.shownAt
  rw [h.symbolsAt, List.map_map]
  apply List.map_congr_left
  intro id _
  have hmirrors := h.mirrors location
  have htype := h.typeAt id location
  simp only [Function.comp_apply, (h.symbol id).name, hmirrors.typeText_eq htype,
    hmirrors.sketch_eq depth htype]

end Embeds

/-- Elements that correspond one to one are the same in one list if and only if they are in the
other. -/
theorem getElem?_eq_iff {α β : Type} {R : α → β → Prop}
    (hR : ∀ {a b a' b'}, R a b → R a' b' → (a = a' ↔ b = b')) {as : List α} {bs : List β}
    (h : List.Forall₂ R as bs) (i j : Nat) : bs[i]? = bs[j]? ↔ as[i]? = as[j]? := by
  have hget (k : Nat) : Option.Rel R as[k]? bs[k]? := by
    induction h generalizing k with
    | nil => exact .none
    | cons hab _ ih =>
      cases k with
      | zero => exact .some hab
      | succ k => exact ih k
  have hi := hget i
  have hj := hget j
  generalize as[i]? = a at hi ⊢
  generalize bs[i]? = b at hi ⊢
  generalize as[j]? = a' at hj ⊢
  generalize bs[j]? = b' at hj ⊢
  cases hi with
  | none =>
    cases hj with
    | none => exact iff_of_true rfl rfl
    | some _ => exact iff_of_false nofun nofun
  | some hab =>
    cases hj with
    | none => exact iff_of_false nofun nofun
    | some hab' => rw [Option.some_inj, Option.some_inj, hR hab hab']

/-- Compiling a file into a program that holds other files and compiling it alone cannot be told
apart by asking about the file: the same issues are added, and at every offset the same names are
visible, with types of the same texts, that look the same to any depth, and of which the same ones
are the same type. -/
theorem Program.add_isolated (others : List SourceFile) (file : SourceFile) :
    let host := ofFiles others
    let there := host.add file
    let alone := Program.empty.add file
    there.2.issues = host.issues ++ alone.2.issues ∧
      ∀ offset : Nat,
        (∀ depth, there.2.shownAt depth ⟨there.1, offset⟩ =
          alone.2.shownAt depth ⟨alone.1, offset⟩) ∧
        ∀ i j : Nat, (there.2.typesAt ⟨there.1, offset⟩)[i]? =
            (there.2.typesAt ⟨there.1, offset⟩)[j]? ↔
          (alone.2.typesAt ⟨alone.1, offset⟩)[i]? = (alone.2.typesAt ⟨alone.1, offset⟩)[j]? := by
  intro host there alone
  obtain ⟨links, h⟩ := (ofFiles_sound others).add_embeds file
  refine ⟨h.issues, fun offset => ?_⟩
  -- an offset of the file in the host is the copy of the same offset of the file alone
  have hplace : (⟨there.1, offset⟩ : Location) = host.locationPlace ⟨alone.1, offset⟩ := rfl
  rw [hplace]
  refine ⟨fun depth => h.shownAt depth ⟨alone.1, offset⟩, fun i j => ?_⟩
  exact getElem?_eq_iff links.oneToOne (h.typesAt ⟨alone.1, offset⟩) i j

end ExpressionTyping
