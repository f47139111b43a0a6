import Mathlib
import ExpressionTyping.Typing.BuiltIns

/-!
# Repositories that answer

A check asks a repository for canonical types, and a repository is an action of some monad: it may
keep a cache, and it may fail. What the theorems on checking assume of it is said here once, as a
Hoare triple. `Yields inv action a` says that wherever `inv` holds the action does not fail, gives
`a`, and leaves `inv` true. A repository `Answers` if it yields a fixed type for every kind but
`other`.

For a repository that is a function the triple is an equation, and for one that runs on a state it
is a statement on its runs (`yields_iff_run`). The static repository is the first example: as long
as its cache is empty or was filled by its own load, it answers every kind with the type named by
the keyword of the kind.
-/

set_option autoImplicit false

namespace ExpressionTyping

open Std.Do

section Yields

variable {m : Type → Type} {ps : PostShape} [Monad m] [WPMonad m ps] {α β : Type}

/-- Wherever `inv` holds, the action does not fail, gives `a`, and leaves `inv` true. -/
def Yields (inv : Assertion ps) (action : m α) (a : α) : Prop :=
  ⦃inv⦄ action ⦃⇓ value => spred(⌜value = a⌝ ∧ inv)⦄

namespace Yields

variable {inv : Assertion ps}

/-- A value that is merely returned is yielded. -/
theorem pure (inv : Assertion ps) (a : α) : Yields inv (Pure.pure a : m α) a := by
  apply Triple.pure
  exact SPred.and_intro (SPred.pure_intro rfl) .rfl

/-- What two actions yield one after the other, the second told what the first yielded. -/
theorem bind {action : m α} {next : α → m β} {a : α} {b : β}
    (first : Yields inv action a) (second : Yields inv (next a) b) :
    Yields inv (action >>= next) b := by
  unfold Yields at *
  refine Triple.bind action next (Q := fun value => spred(⌜value = a⌝ ∧ inv)) first ?_
  intro value
  apply SPred.pure_elim_l
  rintro rfl
  exact second

/-- What is done to a yielded value. -/
theorem map {action : m α} {a : α} (h : Yields inv action a) (f : α → β) :
    Yields inv (f <$> action) (f a) := by
  rw [map_eq_pure_bind]
  exact h.bind (Yields.pure inv (f a))

end Yields

/-- For an action that may fail and runs on a state, yielding a value is a statement on runs: from
every state with the invariant it ends, without a fault, in a state with the invariant. -/
theorem yields_iff_run {σ : Type} {inv : σ → Prop} {action : ExceptT Fault (StateM σ) α} {a : α} :
    Yields (fun s => ⌜inv s⌝) action a ↔
      ∀ s, inv s → ∃ s', inv s' ∧ action.run.run s = (.ok a, s') := by
  have hwp : ∀ s, (wp⟦action⟧ (⇓ value => spred(⌜value = a⌝ ∧ fun s => ⌜inv s⌝)) s).down ↔
      ∃ s', inv s' ∧ action.run.run s = (.ok a, s') := by
    intro s
    simp only [WP.wp, PredTrans.apply_pushExcept, PredTrans.apply_pushArg]
    rcases action.run.run s with ⟨fault | value, s'⟩
    · show False ↔ _
      constructor
      · exact False.elim
      · rintro ⟨s'', -, heq⟩
        cases heq
    · show value = a ∧ inv s' ↔ _
      constructor
      · rintro ⟨rfl, hs'⟩
        exact ⟨s', hs', rfl⟩
      · rintro ⟨s'', hs'', heq⟩
        cases heq
        exact ⟨rfl, hs''⟩
  exact ⟨fun h s hs => (hwp s).mp (h s hs), fun h s hs => (hwp s).mpr (h s hs)⟩

end Yields

/-- Wherever `inv` holds, the repository answers every kind but `other` with the type that `answer`
gives, and leaves `inv` true. -/
def Answers {τ : Type} {m : Type → Type} {ps : PostShape} [Monad m] [WPMonad m ps]
    (inv : Assertion ps) (canonical : TypeKind → m τ) (answer : TypeKind → τ) : Prop :=
  ∀ kind, kind ≠ .other → Yields inv (canonical kind) (answer kind)

/-- A repository whose types are taken for other types answers with those. -/
theorem Answers.map {τ υ : Type} {m : Type → Type} {ps : PostShape} [Monad m] [WPMonad m ps]
    {inv : Assertion ps} {canonical : TypeKind → m τ} {answer : TypeKind → τ}
    (h : Answers inv canonical answer) (f : τ → υ) :
    Answers inv (fun kind => f <$> canonical kind) fun kind => f (answer kind) :=
  fun kind hkind => (h kind hkind).map f

namespace StaticRepository

/-- The cache is empty, or holds what the load of the static repository brings. -/
def Sound (cache : BuiltInCache StaticType) : Prop :=
  cache.loaded? = none ∨ cache.loaded? = some scalars

/-- From a sound cache the static repository answers every kind but `other` with the type named by
its keyword. -/
theorem answers :
    Answers (fun cache => ⌜Sound cache⌝ : Assertion (.except Fault (.arg _ .pure)))
      StaticRepository.typeOf StaticType.ofKind := by
  intro kind hkind
  rw [yields_iff_run]
  intro cache hcache
  obtain ⟨loaded?⟩ := cache
  cases kind with
  | any | null | undefined | object | function => exact ⟨⟨loaded?⟩, hcache, rfl⟩
  | other => exact absurd rfl hkind
  | string | number | boolean | symbol =>
    -- a scalar is found by the load, whether it runs now or ran before
    rcases hcache with h | h <;> cases h <;> exact ⟨⟨some scalars⟩, .inr rfl, rfl⟩

end StaticRepository

end ExpressionTyping
