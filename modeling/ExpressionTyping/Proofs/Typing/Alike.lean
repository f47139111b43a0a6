import ExpressionTyping.Proofs.Typing.Simulation
import ExpressionTyping.Proofs.Typing.SymbolTable

/-!
# Types that look alike to the rules

The rules see of a type its name, its kind, its members and its signatures. A relation under which
related types agree in all of these, with related members and results, is an alikeness (`Alike`):
types may run in circles, so this is a bisimulation and not a recursion. Two checks of an expression
whose scopes and whose canonical types are alike find the same issues (`Alike.infer_issues`).
-/

set_option autoImplicit false

namespace ExpressionTyping

open Std.Do TypeView

/-- What is found first in two lists that go along stands at one place in both. -/
theorem find?_forall₂ {α β : Type} {R : α → β → Prop} {p : α → Bool} {q : β → Bool}
    {list : List α} {list' : List β} (h : List.Forall₂ R list list')
    (hpq : ∀ a b, R a b → p a = q b) : Option.Rel R (list.find? p) (list'.find? q) := by
  induction h with
  | nil => exact .none
  | @cons a b _ _ hfirst _ ih =>
    rw [List.find?_cons, List.find?_cons, hpq a b hfirst]
    split
    · exact .some hfirst
    · exact ih

/-- Arguments of one form, with related types. -/
inductive ArgTypes.Pairs {τ : Type} (R : τ → τ → Prop) : ArgTypes τ → ArgTypes τ → Prop where
  | fixed {parameters parameters' : List τ} (h : List.Forall₂ R parameters parameters') :
      Pairs R (.fixed parameters) (.fixed parameters')
  | variadic {leading leading' : List τ} {rest rest' : τ} (h : List.Forall₂ R leading leading')
      (hrest : R rest rest') : Pairs R (.variadic leading rest) (.variadic leading' rest')
  | any : Pairs R .any .any

namespace ArgTypes.Pairs

variable {τ : Type} {R : τ → τ → Prop} {arguments arguments' : ArgTypes τ}
  (h : arguments.Pairs R arguments')
include h

/-- Related arguments are at least as many. -/
theorem least : arguments'.least = arguments.least := by
  cases h with
  | fixed h => exact h.length_eq.symm
  | variadic h _ => exact h.length_eq.symm
  | any => rfl

/-- Related arguments accept the same numbers of arguments. -/
theorem accepts (count : Nat) : arguments'.accepts count = arguments.accepts count := by
  cases h with
  | fixed h => simp only [ArgTypes.accepts, h.length_eq]
  | variadic h _ => simp only [ArgTypes.accepts, h.length_eq]
  | any => rfl

/-- Related arguments are of a fixed number or neither is. -/
theorem isFixed : arguments'.isFixed = arguments.isFixed := by
  cases h <;> rfl

end ArgTypes.Pairs

/-- A relation that holds of each type and itself relates all arguments to themselves. -/
theorem ArgTypes.Pairs.refl {τ : Type} {R : τ → τ → Prop} (hR : ∀ type, R type type)
    (arguments : ArgTypes τ) : arguments.Pairs R arguments := by
  cases arguments with
  | fixed parameters => exact .fixed (List.forall₂_same.mpr fun type _ => hR type)
  | variadic leading rest =>
    exact .variadic (List.forall₂_same.mpr fun type _ => hR type) (hR rest)
  | any => exact .any

/-- Arguments related by a relation are related by every weaker one. -/
theorem ArgTypes.Pairs.imp {τ : Type} {R S : τ → τ → Prop} {arguments arguments' : ArgTypes τ}
    (h : arguments.Pairs R arguments') (himp : ∀ a b, R a b → S a b) :
    arguments.Pairs S arguments' := by
  cases h with
  | fixed h => exact .fixed (h.imp himp)
  | variadic h hrest => exact .variadic (h.imp himp) (himp _ _ hrest)
  | any => exact .any

/-- A map that keeps the relation of types keeps that of arguments. -/
theorem ArgTypes.Pairs.map {τ υ : Type} {R : τ → τ → Prop} {S : υ → υ → Prop} {f : τ → υ}
    (hf : ∀ a b, R a b → S (f a) (f b)) {arguments arguments' : ArgTypes τ}
    (h : arguments.Pairs R arguments') : (arguments.map f).Pairs S (arguments'.map f) := by
  cases h with
  | fixed h => exact .fixed (List.rel_map hf h)
  | variadic h hrest => exact .variadic (List.rel_map hf h) (hf _ _ hrest)
  | any => exact .any

/-- Signatures with related arguments and related results. -/
structure CallSignature.Pairs {τ : Type} (R : τ → τ → Prop)
    (signature signature' : CallSignature τ) : Prop where
  arguments : signature.arguments.Pairs R signature'.arguments
  result : R signature.result signature'.result

/-- A relation of types that the rules cannot tell apart. -/
structure Alike {τ : Type} [TypeView τ] (R : τ → τ → Prop) : Prop where
  name : ∀ {type type'}, R type type' → name type' = name type
  kind : ∀ {type type'}, R type type' → kind type' = kind type
  members : ∀ {type type'}, R type type' → (members type).Pairs R (members type')
  signatures : ∀ {type type'}, R type type' →
    List.Forall₂ (CallSignature.Pairs R) (signatures type) (signatures type')

namespace Alike

variable {τ : Type} [TypeView τ] {R : τ → τ → Prop} {answer answer' : TypeKind → τ}

open Check

/-- Where two operands have to agree, related operands give related types. -/
theorem agreeing (h : Alike R) (hany : R (answer .any) (answer' .any)) {left left' right right' : τ}
    (hleft : R left left') (hright : R right right') :
    R ((Rule.agreeing left right).resolve answer)
      ((Rule.agreeing left' right').resolve answer') := by
  unfold Rule.agreeing
  rw [h.kind hleft, h.kind hright]
  split
  · exact hleft
  · exact hany

omit [TypeView τ] in
/-- The rule for a name says alike in scopes that pair the same names with related types. -/
theorem identifier (hanswer : ∀ kind, kind ≠ .other → R (answer kind) (answer' kind))
    {scope scope' : SymbolTable τ} (hscope : scope.Pairs R scope') (name : Identifier) :
    RelatedBy R Eq (conclude answer (Rule.identifier scope name) [])
      (conclude answer' (Rule.identifier scope' name) []) := by
  have hget := hscope.get? name.text
  unfold Rule.identifier
  generalize scope.get? name.text = found at hget ⊢
  generalize scope'.get? name.text = found' at hget ⊢
  cases hget with
  | some htype => exact ⟨htype, rfl⟩
  | none =>
    simp only
    split
    · exact ⟨hanswer .undefined (by decide), rfl⟩
    · exact ⟨hanswer .any (by decide), rfl⟩

/-- The rule for a member says alike of related objects. -/
theorem member (h : Alike R) (hany : R (answer .any) (answer' .any)) {object object' : τ}
    (hobject : R object object') (name : Identifier) :
    RelatedBy R Eq (conclude answer (Rule.member object name) [])
      (conclude answer' (Rule.member object' name) []) := by
  have hget := (h.members hobject).get? name.text
  unfold Rule.member
  rw [h.kind hobject, h.name hobject]
  generalize (TypeView.members object).get? name.text = found at hget ⊢
  generalize (TypeView.members object').get? name.text = found' at hget ⊢
  split
  case h_4 => exact ⟨hany, rfl⟩
  all_goals
    cases hget with
    | some htype => exact ⟨htype, rfl⟩
    | none => exact ⟨hany, rfl⟩

omit [TypeView τ] in
/-- The first signature that accepts a call is alike in both. -/
theorem find_accepting {signatures signatures' : List (CallSignature τ)}
    (h : List.Forall₂ (CallSignature.Pairs R) signatures signatures') (count : Nat) :
    Option.Rel (CallSignature.Pairs R)
      (signatures.find? fun signature => signature.arguments.accepts count)
      (signatures'.find? fun signature => signature.arguments.accepts count) :=
  find?_forall₂ h fun _ _ hpair => (hpair.arguments.accepts count).symm

/-- The rule for a call says alike of related callees. -/
theorem call (h : Alike R) (hany : R (answer .any) (answer' .any)) {callee callee' : τ}
    (hcallee : R callee callee') (callSpan calleeSpan : Span) (count : Nat) :
    RelatedBy R Eq (conclude answer (Rule.call callSpan calleeSpan callee count) [])
      (conclude answer' (Rule.call callSpan calleeSpan callee' count) []) := by
  have hsignatures := h.signatures hcallee
  have hfound := find_accepting hsignatures count
  unfold Rule.call
  rw [h.kind hcallee, h.name hcallee]
  split
  · exact ⟨hany, rfl⟩
  · generalize (TypeView.signatures callee).find? _ = found at hfound ⊢
    generalize (TypeView.signatures callee').find? _ = found' at hfound ⊢
    cases hfound with
    | some hsignature => exact ⟨hsignature.result, rfl⟩
    | none =>
      -- no signature accepts the call, and the first one is what the report is about
      generalize TypeView.signatures callee = list at hsignatures ⊢
      generalize TypeView.signatures callee' = list' at hsignatures ⊢
      cases hsignatures with
      | nil =>
        simp only
        split
        · exact ⟨hany, rfl⟩
        · exact ⟨hany, rfl⟩
      | cons hfirst _ =>
        simp only [hfirst.arguments.isFixed, hfirst.arguments.least]
        exact ⟨hany, rfl⟩

/-- The rule for `+` says alike of related operands. -/
theorem add (h : Alike R) (hanswer : ∀ kind, kind ≠ .other → R (answer kind) (answer' kind))
    {left left' right right' : τ} (hleft : R left left') (hright : R right right') (span : Span) :
    RelatedBy R Eq (conclude answer (Rule.add span left right) [])
      (conclude answer' (Rule.add span left' right') []) := by
  unfold Rule.add
  rw [h.kind hleft, h.kind hright, h.name hleft, h.name hright]
  split
  · exact ⟨hanswer .string (by decide), rfl⟩
  · split
    · exact ⟨hanswer .any (by decide), rfl⟩
    · split
      · exact ⟨hanswer .number (by decide), rfl⟩
      · exact ⟨hanswer .any (by decide), rfl⟩

/-- The rule for a binary operator says alike of related operands. -/
theorem binary (h : Alike R) (hanswer : ∀ kind, kind ≠ .other → R (answer kind) (answer' kind))
    {left left' right right' : τ} (hleft : R left left') (hright : R right right') (op : BinaryOp)
    (span leftSpan rightSpan : Span) :
    RelatedBy R Eq (conclude answer (Rule.binary op span leftSpan rightSpan left right) [])
      (conclude answer' (Rule.binary op span leftSpan rightSpan left' right') []) := by
  cases op with
  | add => exact h.add hanswer hleft hright span
  | logicalAnd => exact ⟨hright, rfl⟩
  | logicalOr | coalesce =>
    exact ⟨h.agreeing (hanswer .any (by decide)) hleft hright, rfl⟩
  | multiply | divide | subtract | remainder | power =>
    unfold Rule.binary
    rw [h.kind hleft, h.kind hright]
    exact ⟨hanswer .number (by decide), rfl⟩
  | instanceOf | isIn =>
    unfold Rule.binary
    rw [h.kind hleft, h.kind hright]
    exact ⟨hanswer .boolean (by decide), rfl⟩
  | equal | notEqual | strictEqual | strictNotEqual | less | greater | lessOrEqual
  | greaterOrEqual => exact ⟨hanswer .boolean (by decide), rfl⟩
  | bitAnd | bitOr | bitXor | shiftLeft | shiftRight | shiftRightUnsigned =>
    exact ⟨hanswer .number (by decide), rfl⟩

/-- Rules take alike types to alike types and say the same of them. -/
theorem simulation (h : Alike R) (hanswer : ∀ kind, kind ≠ .other → R (answer kind) (answer' kind))
    {scope scope' : SymbolTable τ} (hscope : scope.Pairs R scope') :
    Simulation answer answer' scope scope' R Eq where
  nil := rfl
  append := by
    rintro _ _ _ _ rfl rfl
    rfl
  nesting _ := rfl
  canonical := hanswer
  identifier := identifier hanswer hscope
  agreeing := h.agreeing (hanswer .any (by decide))
  member name hobject := h.member (hanswer .any (by decide)) hobject name
  call callSpan calleeSpan count hcallee :=
    h.call (hanswer .any (by decide)) hcallee callSpan calleeSpan count
  binary op span leftSpan rightSpan hleft hright :=
    h.binary hanswer hleft hright op span leftSpan rightSpan

/-- Checks with alike canonical types under alike scopes find the same issues. -/
theorem infer_issues (h : Alike R)
    (hanswer : ∀ kind, kind ≠ .other → R (answer kind) (answer' kind))
    {scope scope' : SymbolTable τ} (hscope : scope.Pairs R scope') (levels : Nat) (e : Expr) :
    (infer answer' scope' levels e).issues = (infer answer scope levels e).issues :=
  ((h.simulation hanswer hscope).infer levels e).2.symm

/-! ## Building alikenesses -/

/-- Types that are alike or alike are alike. -/
theorem or {S : τ → τ → Prop} (h : Alike R) (h' : Alike S) :
    Alike fun type type' => R type type' ∨ S type type' where
  name := by
    rintro _ _ (hR | hS)
    · exact h.name hR
    · exact h'.name hS
  kind := by
    rintro _ _ (hR | hS)
    · exact h.kind hR
    · exact h'.kind hS
  members := by
    rintro _ _ (hR | hS)
    · exact (h.members hR).imp fun _ _ => .inl
    · exact (h'.members hS).imp fun _ _ => .inr
  signatures := by
    rintro _ _ (hR | hS)
    · refine (h.signatures hR).imp fun _ _ hpair => ?_
      exact ⟨hpair.arguments.imp fun _ _ => .inl, .inl hpair.result⟩
    · refine (h'.signatures hS).imp fun _ _ hpair => ?_
      exact ⟨hpair.arguments.imp fun _ _ => .inr, .inr hpair.result⟩

end Alike

/-- A type of a kind with its keyword as name and with nothing else to it. -/
structure IsBlank {τ : Type} [TypeView τ] (kind : TypeKind) (type : τ) : Prop where
  name : name type = kind.keyword
  kind : TypeView.kind type = kind
  members : members type = .empty
  signatures : signatures type = []

/-- The same type, or types of one kind with nothing to them but their keyword. -/
inductive SameOrBlank {τ : Type} [TypeView τ] : τ → τ → Prop where
  | same (type : τ) : SameOrBlank type type
  | blank {kind : TypeKind} {type type' : τ} (h : IsBlank kind type) (h' : IsBlank kind type') :
      SameOrBlank type type'

/-- The rules cannot tell apart types of one kind that have nothing to them but their keyword. -/
theorem sameOrBlank_alike {τ : Type} [TypeView τ] : Alike (SameOrBlank : τ → τ → Prop) where
  name := by
    rintro _ _ (_ | ⟨h, h'⟩)
    · rfl
    · rw [h.name, h'.name]
  kind := by
    rintro _ _ (_ | ⟨h, h'⟩)
    · rfl
    · rw [h.kind, h'.kind]
  members := by
    rintro _ _ (_ | ⟨h, h'⟩)
    · exact List.forall₂_same.mpr fun entry _ => ⟨rfl, .same entry.2⟩
    · rw [h.members, h'.members]
      exact .nil
  signatures := by
    rintro _ _ (_ | ⟨h, h'⟩)
    · exact List.forall₂_same.mpr fun _ _ => ⟨.refl .same _, .same _⟩
    · rw [h.signatures, h'.signatures]
      exact .nil

/-! ## Types as other types -/

/-- A map between types that keeps what the rules see. -/
structure TypeView.Faithful {σ τ : Type} [TypeView σ] [TypeView τ] (f : σ → τ) : Prop where
  name : ∀ type, name (f type) = name type
  kind : ∀ type, kind (f type) = kind type
  members : ∀ type, members (f type) = (members type).map f
  signatures : ∀ type, signatures (f type) = (signatures type).map (CallSignature.map f)

namespace TypeView.Faithful

variable {σ τ : Type} [TypeView σ] [TypeView τ] {f : σ → τ} (hf : Faithful f)
include hf

/-- A faithful map keeps a type of a kind that has nothing to it but its keyword. -/
theorem isBlank {kind : TypeKind} {type : σ} (h : IsBlank kind type) : IsBlank kind (f type) where
  name := (hf.name type).trans h.name
  kind := (hf.kind type).trans h.kind
  members := by rw [hf.members, h.members]; rfl
  signatures := by rw [hf.signatures, h.signatures]; rfl

/-- Alike types stay alike under a faithful map. -/
theorem alike {R : σ → σ → Prop} (h : Alike R) : Alike (Relation.Map R f f) where
  name := by
    rintro _ _ ⟨type, type', hR, rfl, rfl⟩
    rw [hf.name, hf.name, h.name hR]
  kind := by
    rintro _ _ ⟨type, type', hR, rfl, rfl⟩
    rw [hf.kind, hf.kind, h.kind hR]
  members := by
    rintro _ _ ⟨type, type', hR, rfl, rfl⟩
    rw [hf.members, hf.members]
    exact (h.members hR).map fun a b hab => ⟨a, b, hab, rfl, rfl⟩
  signatures := by
    rintro _ _ ⟨type, type', hR, rfl, rfl⟩
    rw [hf.signatures, hf.signatures]
    refine List.rel_map ?_ (h.signatures hR)
    intro signature signature' hpair
    refine ⟨hpair.arguments.map fun a b hab => ⟨a, b, hab, rfl, rfl⟩, ?_⟩
    exact ⟨_, _, hpair.result, rfl, rfl⟩

end TypeView.Faithful

end ExpressionTyping
