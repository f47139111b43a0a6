import ExpressionTyping.Proofs.Program.Embedding
import ExpressionTyping.Proofs.Typing.Alike
import ExpressionTyping.Session.DeclaredType

/-!
# Programs that look alike

A program says of a type its flags, its text, its properties and its signatures, and of a symbol its
name and its type at a location. Where two programs, seen from two locations, agree on the data of
related types and symbols (`Mirrors`), they agree on all of that, however far it is followed: the
texts are equal (`display_eq`), so are descriptions to any depth (`sketch_eq`), and the rules cannot
tell the types apart (`declared_alike`).
-/

set_option autoImplicit false

namespace ExpressionTyping

/-! ## Descriptions of types -/

/-- A description of a type, cut at some depth. -/
inductive TypeSketch where
  /-- The description ends here. -/
  | cut
  /-- The flags of a type, its properties by name, and its signatures: the parameters, the result,
  and whether the last parameter takes every further argument. -/
  | node (flags : TypeFlags) (properties : List (String × TypeSketch))
      (signatures : List (List (String × TypeSketch) × TypeSketch × Bool))

/-- What a type looks like at a location, followed to a depth. -/
def Program.sketch (program : Program) (location : Location) : (depth : Nat) → TypeId → TypeSketch
  | 0, _ => .cut
  | depth + 1, id =>
    .node (program.flags id)
      ((program.properties id).map fun property =>
        ((program.symbol property).name,
          program.sketch location depth (program.typeAt property location)))
      ((program.signatures id).map fun signature =>
        (signature.parameters.map fun p => (p.1, program.sketch location depth p.2),
          program.sketch location depth signature.result, signature.hasRest))

/-! ## Programs seen from locations -/

/-- Related types and symbols of two programs, each seen from a location, have the same data. -/
structure Mirrors (types : TypeId → TypeId → Prop) (symbols : SymbolId → SymbolId → Prop)
    (program : Program) (location : Location) (program' : Program) (location' : Location) :
    Prop where
  get : ∀ {a b}, types a b → (program.types.get a).Mirrors types symbols (program'.types.get b)
  name : ∀ {id id'}, symbols id id' → (program'.symbol id').name = (program.symbol id).name
  sort : ∀ {id id'}, symbols id id' → (program'.symbol id').sort = (program.symbol id).sort
  type : ∀ {id id'}, symbols id id' → types (program.symbol id).type (program'.symbol id').type
  typeAt : ∀ {id id'}, symbols id id' →
    types (program.typeAt id location) (program'.typeAt id' location')
  length : symbols Program.lengthSymbol Program.lengthSymbol

namespace Mirrors

variable {types : TypeId → TypeId → Prop} {symbols : SymbolId → SymbolId → Prop}
  {program program' : Program} {location location' : Location}

section Queries

variable (h : Mirrors types symbols program location program' location')
include h

/-- Related types have the same flags. -/
theorem flags {a b : TypeId} (hab : types a b) : program'.flags b = program.flags a :=
  (h.get hab).flags

/-- Related types have related properties. -/
theorem properties {a b : TypeId} (hab : types a b) :
    List.Forall₂ symbols (program.properties a) (program'.properties b) := by
  have hget := h.get hab
  unfold Program.properties
  generalize program.types.get a = data at hget ⊢
  generalize program'.types.get b = data' at hget ⊢
  cases hget with
  | object name? hmembers _ => exact hmembers.values
  | array _ => exact .cons h.length .nil
  | _ => exact .nil

/-- Related types have signatures that look the same. -/
theorem signatures {a b : TypeId} (hab : types a b) :
    List.Forall₂ (Signature.Mirrors types) (program.signatures a) (program'.signatures b) := by
  have hget := h.get hab
  unfold Program.signatures
  generalize program.types.get a = data at hget ⊢
  generalize program'.types.get b = data' at hget ⊢
  cases hget with
  | object _ _ hsignatures => exact hsignatures
  | _ => exact .nil

end Queries

/-- Lists of related elements are the same after a map that related elements agree on. -/
theorem map_eq {α β γ : Type} {R : α → β → Prop} {f : α → γ} {g : β → γ} {as : List α}
    {bs : List β} (h : List.Forall₂ R as bs) (hfg : ∀ a b, R a b → g b = f a) :
    bs.map g = as.map f := by
  induction h with
  | nil => rfl
  | cons hab _ ih => rw [List.map_cons, List.map_cons, hfg _ _ hab, ih]

/-- Lists paired by a relation are both empty or neither is. -/
theorem isEmpty_eq {α β : Type} {R : α → β → Prop} {as : List α} {bs : List β}
    (h : List.Forall₂ R as bs) : bs.isEmpty = as.isEmpty := by
  cases h <;> rfl

/-- Lists of related elements are both empty, or both end in related elements. -/
theorem forall₂_cases_last {α β : Type} {R : α → β → Prop} {as : List α} {bs : List β}
    (h : List.Forall₂ R as bs) : as = [] ∧ bs = [] ∨
      ∃ as' a bs' b, as = as' ++ [a] ∧ bs = bs' ++ [b] ∧ List.Forall₂ R as' bs' ∧ R a b := by
  induction h with
  | nil => exact .inl ⟨rfl, rfl⟩
  | @cons a b _ _ hab _ ih =>
    rcases ih with ⟨rfl, rfl⟩ | ⟨as', c, bs', d, rfl, rfl, hrest, hcd⟩
    · exact .inr ⟨[], a, [], b, rfl, rfl, .nil, hab⟩
    · exact .inr ⟨a :: as', c, b :: bs', d, rfl, rfl, .cons hab hrest, hcd⟩

/-- Related types look the same to any depth. -/
theorem sketch_eq (h : Mirrors types symbols program location program' location') (depth : Nat)
    {a b : TypeId} (hab : types a b) :
    program'.sketch location' depth b = program.sketch location depth a := by
  -- types may run in circles, so the induction is on the depth and not on the types
  induction depth generalizing a b with
  | zero => rfl
  | succ depth ih =>
    unfold Program.sketch
    congr 1
    · exact h.flags hab
    · apply map_eq (h.properties hab)
      intro id id' hid
      rw [h.name hid, ih (h.typeAt hid)]
    · apply map_eq (h.signatures hab)
      intro signature signature' hsignature
      rw [ih hsignature.result, hsignature.hasRest]
      congr 1
      apply map_eq hsignature.parameters
      intro p q hpq
      rw [hpq.1, ih hpq.2]

/-! ## Texts -/

section Texts

variable {text text' : TypeId → String} (htext : ∀ a b, types a b → text' b = text a)
include htext

/-- Signatures that look the same have the same text for their parameters. -/
theorem parametersText_eq {signature signature' : Signature}
    (h : signature.Mirrors types signature') :
    Program.parametersText text' signature' = Program.parametersText text signature := by
  unfold Program.parametersText
  simp only [← h.parameters.length_eq, h.hasRest]
  congr 1
  generalize signature.parameters.length - 1 = last
  have key (start : Nat) {ps qs : List (String × TypeId)}
      (hps : List.Forall₂ (fun p q => q.1 = p.1 ∧ types p.2 q.2) ps qs) :
      (qs.zipIdx start).map (fun p =>
        (if signature.hasRest && p.2 == last then "..." else "") ++ p.1.1 ++ ": " ++ text' p.1.2) =
      (ps.zipIdx start).map (fun p =>
        (if signature.hasRest && p.2 == last then "..." else "") ++ p.1.1 ++ ": " ++
          text p.1.2) := by
    induction hps generalizing start with
    | nil => rfl
    | cons hpq _ ih =>
      rw [List.zipIdx_cons, List.zipIdx_cons, List.map_cons, List.map_cons, ih, hpq.1,
        htext _ _ hpq.2]
  exact key 0 h.parameters

/-- Signatures that look the same have the same text. -/
theorem signatureText_eq (name : String) {signature signature' : Signature}
    (h : signature.Mirrors types signature') :
    Program.signatureText text' name signature' = Program.signatureText text name signature := by
  unfold Program.signatureText
  rw [parametersText_eq htext h, htext _ _ h.result]

/-- Related members have the same text. -/
theorem memberTexts_eq (h : Mirrors types symbols program location program' location')
    (name : String) {id id' : SymbolId} (hid : symbols id id') :
    program'.memberTexts text' name id' = program.memberTexts text name id := by
  have htype := h.type hid
  have hget := h.get htype
  unfold Program.memberTexts
  simp only [h.sort hid, htext _ _ htype]
  generalize program.types.get _ = data at hget ⊢
  generalize program'.types.get _ = data' at hget ⊢
  cases (program.symbol id).sort with
  | method =>
    cases hget with
    | object name? hmembers hsignatures =>
      rename_i members members' signatures signatures'
      cases name? with
      | some _ => rfl
      | none =>
        obtain ⟨entries⟩ := members
        obtain ⟨entries'⟩ := members'
        obtain _ | _ := hmembers
        · exact map_eq hsignatures fun _ _ hsignature => signatureText_eq htext name hsignature
        · rfl
    | _ => rfl
  | _ => rfl

end Texts

/-- Types that look the same both need parentheses or neither does. -/
theorem needsParentheses_eq {data data' : TypeData} (h : data.Mirrors types symbols data') :
    Program.needsParentheses data' = Program.needsParentheses data := by
  cases h with
  | object name? hmembers hsignatures =>
    rename_i members members' signatures signatures'
    cases name? with
    | some _ => rfl
    | none =>
      show (members'.entries.isEmpty && signatures'.length == 1) =
        (members.entries.isEmpty && signatures.length == 1)
      rw [isEmpty_eq hmembers, hsignatures.length_eq]
  | _ => rfl

/-- Related types have the same text. -/
theorem display_eq (h : Mirrors types symbols program location program' location') (levels : Nat)
    {a b : TypeId} (hab : types a b) : program'.display levels b = program.display levels a := by
  induction levels generalizing a b with
  | zero => rfl
  | succ levels ih =>
    have htext : ∀ a b, types a b → program'.display levels b = program.display levels a :=
      fun _ _ hab => ih hab
    have hget := h.get hab
    unfold Program.display
    simp only
    generalize program.types.get a = data at hget ⊢
    generalize program'.types.get b = data' at hget ⊢
    cases hget with
    | intrinsic | stringLiteral | numberLiteral | booleanLiteral => rfl
    | union hmembers => simp only [map_eq hmembers htext]
    | array helement => simp only [needsParentheses_eq (h.get helement), htext _ _ helement]
    | object name? hmembers hsignatures =>
      rename_i members members' signatures signatures'
      have hparts : signatures'.map (Program.signatureText (program'.display levels) "") ++
            members'.entries.flatMap (fun entry =>
              program'.memberTexts (program'.display levels) entry.1 entry.2) =
          signatures.map (Program.signatureText (program.display levels) "") ++
            members.entries.flatMap (fun entry =>
              program.memberTexts (program.display levels) entry.1 entry.2) := by
        rw [List.flatMap_def, List.flatMap_def]
        congr 1
        · exact map_eq hsignatures fun _ _ hsignature => signatureText_eq htext "" hsignature
        · congr 1
          apply map_eq hmembers
          intro entry entry' hentry
          rw [hentry.1, memberTexts_eq htext h entry.1 hentry.2]
      cases name? with
      | some _ => rfl
      | none =>
        -- without members and with a single signature the text is that of a function
        obtain ⟨entries⟩ := members
        obtain ⟨entries'⟩ := members'
        obtain _ | _ := hmembers
        · obtain _ | ⟨hfirst, hrest⟩ := hsignatures
          · simp only [hparts]
          · obtain _ | _ := hrest
            · simp only [parametersText_eq htext hfirst, htext _ _ hfirst.result]
            · simp only [hparts]
        · simp only [hparts]

/-- Related types have the same text. -/
theorem typeText_eq (h : Mirrors types symbols program location program' location') {a b : TypeId}
    (hab : types a b) : program'.typeText b = program.typeText a :=
  h.display_eq Program.displayLevels hab

/-! ## Types as the rules see them -/

/-- Declared types of the two programs, seen from the two locations. -/
inductive Declared (h : Mirrors types symbols program location program' location') :
    DeclaredType → DeclaredType → Prop where
  | mk {a b : TypeId} (hab : types a b) : Declared h ⟨program, location, a⟩ ⟨program', location', b⟩

variable (h : Mirrors types symbols program location program' location')
include h

/-- Related symbols have related types under the same names. -/
theorem symbolTypes_pairs {ids ids' : List SymbolId} (hids : List.Forall₂ symbols ids ids') :
    (DeclaredType.symbolTypes program location ids).Pairs h.Declared
      (DeclaredType.symbolTypes program' location' ids') := by
  apply SymbolTable.Pairs.ofList
  refine List.rel_map ?_ hids
  intro id id' hid
  exact ⟨h.name hid, .mk (h.typeAt hid)⟩

/-- The element type of an array, or the type itself. -/
theorem restElement {a b : TypeId} (hab : types a b) :
    types ((program.types.elementOf? a).getD a) ((program'.types.elementOf? b).getD b) := by
  have hget := h.get hab
  unfold TypeTable.elementOf?
  generalize program.types.get a = data at hget ⊢
  generalize program'.types.get b = data' at hget ⊢
  cases hget with
  | array helement => exact helement
  | _ => exact hab

/-- Types of one program, seen from one location, are related to those of the other one by one. -/
theorem siblings {as bs : List TypeId} (hab : List.Forall₂ types as bs) {a b : TypeId} :
    List.Forall₂ h.Declared (as.map (DeclaredType.mk program location a).sibling)
      (bs.map (DeclaredType.mk program' location' b).sibling) :=
  List.rel_map (fun _ _ htype => .mk htype) hab

/-- The arguments of signatures that look the same are of related types. -/
theorem arguments {a b : TypeId} {signature signature' : Signature}
    (hsignature : signature.Mirrors types signature') :
    ((DeclaredType.mk program location a).arguments signature).Pairs h.Declared
      ((DeclaredType.mk program' location' b).arguments signature') := by
  have hparameters : List.Forall₂ types (signature.parameters.map Prod.snd)
      (signature'.parameters.map Prod.snd) :=
    List.rel_map (fun _ _ hp => hp.2) hsignature.parameters
  unfold DeclaredType.arguments
  rw [hsignature.hasRest]
  generalize signature.parameters.map Prod.snd = parameters at hparameters ⊢
  generalize signature'.parameters.map Prod.snd = parameters' at hparameters ⊢
  simp only
  split
  · obtain ⟨rfl, rfl⟩ | ⟨as, a, bs, b, rfl, rfl, hleading, hlast⟩ :=
      forall₂_cases_last hparameters
    · exact .any
    · have hrest := h.restElement hlast
      simp only [List.getLast?_concat, List.dropLast_concat, isEmpty_eq hleading, h.flags hrest]
      split
      · exact .any
      · exact .variadic (h.siblings hleading) (.mk hrest)
  · exact .fixed (h.siblings hparameters)

/-- The rules cannot tell declared types of the two programs apart. -/
theorem declared_alike : Alike h.Declared where
  name := by
    rintro _ _ ⟨hab⟩
    exact h.typeText_eq hab
  kind := by
    rintro _ _ ⟨hab⟩
    exact congrArg TypeFlags.kind (h.flags hab)
  members := by
    rintro _ _ ⟨hab⟩
    exact h.symbolTypes_pairs (h.properties hab)
  signatures := by
    rintro _ _ ⟨hab⟩
    refine List.rel_map ?_ (h.signatures hab)
    intro signature signature' hsignature
    exact ⟨h.arguments hsignature, .mk hsignature.result⟩

end Mirrors

end ExpressionTyping
