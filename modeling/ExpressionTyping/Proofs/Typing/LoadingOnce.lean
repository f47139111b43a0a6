import ExpressionTyping.Typing.BuiltIns

/-!
# One load for a whole history

Every call on a cache of built-in types brings its own load, but the cache runs at most one of them:
that of the first call which needs the scalar types. So what any call of a history answers is known
from the call and from that one load (`BuiltInCache.history_eq`). The order of the calls, and
whether some of them failed, matters for nothing else.
-/

set_option autoImplicit false

namespace ExpressionTyping

namespace BuiltInCache

/-! ## Histories -/

/-- A call on a cache, and the types that its load would bring. -/
inductive Call (τ : Type) where
  /-- Asks for the canonical type of a kind. -/
  | request (kind : TypeKind) (supply : List (TypeKind × τ))
  /-- Asks for all scalar types. -/
  | ensureLoaded (supply : List (TypeKind × τ))

/-- What a call gave. -/
inductive Answer (τ : Type) where
  /-- One type. -/
  | type (type : τ)
  /-- All scalar types. -/
  | types (types : List (TypeKind × τ))
  /-- Nothing: the call failed, with a message or without one. -/
  | failure (message? : Option String)
deriving DecidableEq

/-- The answer that a request gets from its result. -/
def Answer.ofResult {τ : Type} : Except Fault τ → Answer τ
  | .ok found => .type found
  | .error fault => .failure fault.message?

/-- What a history of calls gave, and what it left. -/
@[ext]
structure History (τ : Type) where
  /-- The answers, in order. -/
  answers : List (Answer τ)
  /-- The places of the calls whose load ran, in order. -/
  loads : List Nat
  /-- The types that are loaded in the end. -/
  loaded? : Option (List (TypeKind × τ))

variable {τ : Type}

namespace Call

/-- The types that the load of a call would bring. -/
def supply : Call τ → List (TypeKind × τ)
  | request _ supply => supply
  | ensureLoaded supply => supply

/-- The load of a call, which notes the place of the call when it runs. -/
def load (call : Call τ) (place : Nat) : StateM (List Nat) (List (TypeKind × τ)) := do
  modify (· ++ [place])
  return call.supply

/-- Makes a call on a cache. -/
def run (given : TypeKind → τ) (place : Nat) (call : Call τ) :
    StateT (BuiltInCache τ) (StateM (List Nat)) (Answer τ) := do
  match call with
  | request kind _ => return .ofResult (← (BuiltInCache.typeOf given (call.load place) kind).run)
  | ensureLoaded _ => return .types (← BuiltInCache.ensureLoaded (call.load place))

/-- Whether a call needs the scalar types. -/
def needsTypes : Call τ → Bool
  | request kind _ => kind.isScalar
  | ensureLoaded _ => true

/-- What a call answers if these types are the loaded ones. -/
def answer (given : TypeKind → τ) (types : List (TypeKind × τ)) : Call τ → Answer τ
  | ensureLoaded _ => .types types
  | request .other _ =>
    .failure (some "TypeKind::Other has no canonical type and cannot be looked up")
  | request kind _ =>
    if kind.isScalar then
      match find? types kind with
      | some type => .type type
      | none => .failure
        (some s!"built-in type for kind \x60{kind.keyword}\x60 is missing after loading")
    else .type (given kind)

end Call

/-- Makes calls one after the other, the first of them at a place of the history. -/
def runFrom (given : TypeKind → τ) :
    Nat → List (Call τ) → StateT (BuiltInCache τ) (StateM (List Nat)) (List (Answer τ))
  | _, [] => return []
  | place, call :: calls => do
    let answer ← call.run given place
    return answer :: (← runFrom given (place + 1) calls)

/-- What calls give on a new cache, one after the other. -/
def history (given : TypeKind → τ) (calls : List (Call τ)) : History τ :=
  let ((answers, cache), loads) := ((runFrom given 0 calls).run empty).run []
  ⟨answers, loads, cache.loaded?⟩

/-! ## One call, and calls one after the other -/

/-- What a request for a scalar kind does: it loads, and looks the kind up. -/
theorem typeOf_scalar {m : Type → Type} [Monad m] [LawfulMonad m] (given : TypeKind → τ)
    (load : m (List (TypeKind × τ))) {kind : TypeKind} (scalar : kind.isScalar = true) :
    (BuiltInCache.typeOf given load kind).run = do
      let types ← BuiltInCache.ensureLoaded load
      return (find? types kind).elim (.error (.missingBuiltIn kind)) .ok := by
  have looked_up (types : List (TypeKind × τ)) :
      (match find? types kind with
        | some type => return type
        | none => throw (.missingBuiltIn kind) :
          ExceptT Fault (StateT (BuiltInCache τ) m) τ).run =
      pure ((find? types kind).elim (.error (.missingBuiltIn kind)) .ok) := by
    cases find? types kind <;> rfl
  cases kind with
  | any | undefined | null | object | function | other => cases scalar
  | string | number | boolean | symbol =>
    exact (ExceptT.run_bind_lift (BuiltInCache.ensureLoaded load) _).trans (bind_congr looked_up)

/-- A call that does not need the types answers the same whatever they are. -/
theorem Call.answer_congr (given : TypeKind → τ) {call : Call τ} (needless : call.needsTypes = false)
    (types types' : List (TypeKind × τ)) : call.answer given types = call.answer given types' := by
  cases call with
  | ensureLoaded supply => cases needless
  | request kind supply =>
    cases kind with
    | any | undefined | null | object | function | other => rfl
    | string | number | boolean | symbol => cases needless

/-- What a call does: from what is loaded, or else from what its own load brings, it answers, and if
it needs the types they stay loaded. -/
theorem Call.run_eq (given : TypeKind → τ) (place : Nat) (call : Call τ)
    (loaded? : Option (List (TypeKind × τ))) (loads : List Nat) :
    ((call.run given place).run ⟨loaded?⟩).run loads =
      ((call.answer given (loaded?.getD call.supply),
          ⟨if call.needsTypes then some (loaded?.getD call.supply) else loaded?⟩),
        if call.needsTypes && loaded?.isNone then loads ++ [place] else loads) := by
  cases call with
  | ensureLoaded supply => cases loaded? <;> rfl
  | request kind supply =>
    cases hscalar : kind.isScalar with
    | false =>
      cases kind with
      | any | undefined | null | object | function | other => rfl
      | string | number | boolean | symbol => cases hscalar
    | true =>
      have answered : Call.answer given (loaded?.getD supply) (.request kind supply) = .ofResult
          ((find? (loaded?.getD supply) kind).elim (.error (.missingBuiltIn kind)) .ok) := by
        cases kind with
        | any | undefined | null | object | function | other => cases hscalar
        | string | number | boolean | symbol =>
          simp only [Call.answer, TypeKind.isScalar, if_true]
          cases find? (loaded?.getD supply) _ <;> rfl
      simp only [Call.run, typeOf_scalar given _ hscalar, Call.supply, answered, Call.needsTypes,
        hscalar, if_true, Bool.true_and]
      cases loaded? <;> rfl

/-- What calls do one after the other: they all answer from what was loaded at first or what the
first call that needs the types brings, and only that call runs its load. -/
theorem runFrom_eq (given : TypeKind → τ) (place : Nat) (calls : List (Call τ))
    (loaded? : Option (List (TypeKind × τ))) (loads : List Nat) :
    ((runFrom given place calls).run ⟨loaded?⟩).run loads =
      let first? := loaded? <|> (calls.find? Call.needsTypes).map Call.supply
      ((calls.map (Call.answer given (first?.getD [])), ⟨first?⟩),
        if loaded?.isNone then loads ++ ((calls.findIdx? Call.needsTypes).map (place + ·)).toList
        else loads) := by
  induction calls generalizing place loaded? loads with
  | nil => cases loaded? <;> simp [runFrom] <;> rfl
  | cons call calls ih =>
    have step : ((runFrom given place (call :: calls)).run ⟨loaded?⟩).run loads =
        let ((answer, cache), loads) := ((call.run given place).run ⟨loaded?⟩).run loads
        let ((answers, cache), loads) := ((runFrom given (place + 1) calls).run cache).run loads
        ((answer :: answers, cache), loads) := rfl
    rw [step, call.run_eq]
    dsimp only
    rw [ih]
    cases loaded? with
    | some types => simp
    | none =>
      cases needs : call.needsTypes with
      | true => simp [needs, List.findIdx?_cons]
      | false =>
        rw [call.answer_congr given needs _
          (((calls.find? Call.needsTypes).map Call.supply).getD [])]
        simp [needs, List.findIdx?_cons, Function.comp_def, Nat.add_assoc, Nat.add_comm 1]

/-! ## Whole histories -/

/-- The types that calls on a new cache answer from. -/
def firstTypes (calls : List (Call τ)) : List (TypeKind × τ) :=
  ((calls.find? Call.needsTypes).map Call.supply).getD []

/-- A history on a new cache: the first call that needs the types is the only one that loads, and
every call answers from what it brought. -/
theorem history_eq (given : TypeKind → τ) (calls : List (Call τ)) :
    history given calls =
      { answers := calls.map (Call.answer given (firstTypes calls))
        loads := (calls.findIdx? Call.needsTypes).toList
        loaded? := (calls.find? Call.needsTypes).map Call.supply } := by
  have whole := runFrom_eq given 0 calls none []
  rw [history, empty, whole]
  simp [firstTypes]

example : history (fun _ => 0)
      [.request .other [], .request .string [(.number, 1)], .request .number [(.number, 2)]] =
    { answers :=
        [.failure (some "TypeKind::Other has no canonical type and cannot be looked up"),
          .failure (some "built-in type for kind \x60string\x60 is missing after loading"), .type 1]
      loads := [1]
      loaded? := some [(.number, 1)] } := by rfl

/-- What the later of two runs of calls on one cache is answered. -/
def laterAnswers (given : TypeKind → τ) (earlier later : List (Call τ)) : List (Answer τ) :=
  (history given (earlier ++ later)).answers.drop earlier.length

/-- Every later answer is taken from the types that the first call to load brings, so none depends
on where in the history it stands. -/
theorem laterAnswers_eq (given : TypeKind → τ) (earlier later : List (Call τ)) :
    laterAnswers given earlier later =
      later.map (Call.answer given (firstTypes (earlier ++ later))) := by
  simp [laterAnswers, history_eq]

/-- Later calls answer as if a call had not been made, unless it was the first to need the types. -/
theorem laterAnswers_skip (given : TypeKind → τ) (earlier later : List (Call τ)) {call : Call τ}
    (idle : call.needsTypes = false ∨ earlier.any Call.needsTypes = true) :
    laterAnswers given (earlier ++ [call]) later = laterAnswers given earlier later := by
  suffices firstTypes (earlier ++ [call] ++ later) = firstTypes (earlier ++ later) by
    rw [laterAnswers_eq, laterAnswers_eq, this]
  unfold firstTypes
  rcases idle with needless | loaded
  · simp [List.find?_append, needless]
  · obtain ⟨first, found⟩ := Option.isSome_iff_exists.mp
      (List.find?_isSome.mpr (by simpa using loaded) : (earlier.find? Call.needsTypes).isSome)
    simp [List.find?_append, found]

/-- Whatever a call that needs the types answered, later calls answer as if it had only loaded. -/
theorem laterAnswers_load (given : TypeKind → τ) (earlier later : List (Call τ)) {call : Call τ}
    (needs : call.needsTypes = true) :
    laterAnswers given (earlier ++ [call]) later =
      laterAnswers given (earlier ++ [.ensureLoaded call.supply]) later := by
  suffices firstTypes (earlier ++ [call] ++ later) =
      firstTypes (earlier ++ [.ensureLoaded call.supply] ++ later) by
    rw [laterAnswers_eq, laterAnswers_eq, this]
  simp only [firstTypes, List.find?_append, List.find?_singleton, needs, if_true]
  cases earlier.find? Call.needsTypes <;> rfl

/-! ## Handles -/

/-- A type together with where it is kept. -/
structure Handle where
  /-- The place of the type. -/
  address : Nat
  /-- The type. -/
  type : StaticType

/-- The handles that a cache is made with, wherever their types are put. -/
def Handle.made (address : TypeKind → Nat) (kind : TypeKind) : Handle :=
  ⟨address kind, .ofKind kind⟩

/-- The handles that a load makes for different kinds are different. -/
theorem Handle.made_injective (address : TypeKind → Nat) {kind kind' : TypeKind}
    (eq : made address kind = made address kind') : kind = kind' :=
  congrArg (fun handle => handle.type.kind) eq

/-- Calls on one cache, each with a load of its own. At most one load runs: that of the first call
that asks for all scalar types or for one of them. Every call answers from what that load brought:
a request for `any`, `null`, `undefined`, `object` or `function` gets the handle that the cache was
made with, and these are distinct; a request for a scalar gets the entry of its kind, or fails with
a message on what is missing; and a request for `other` fails. A request that fails changes no later
answer: one that did not load might as well not have been made, and after one that did load the
answers are those after a load that did not fail. -/
theorem loads_once (address : TypeKind → Nat) :
    (∀ calls : List (Call Handle), history (Handle.made address) calls =
      { answers := calls.map (Call.answer (Handle.made address) (firstTypes calls))
        loads := (calls.findIdx? Call.needsTypes).toList
        loaded? := (calls.find? Call.needsTypes).map Call.supply }) ∧
    (∀ kind kind', Handle.made address kind = Handle.made address kind' → kind = kind') ∧
    ∀ (earlier later : List (Call Handle)) (call : Call Handle),
      (call.needsTypes = false ∨ earlier.any Call.needsTypes = true →
        laterAnswers (Handle.made address) (earlier ++ [call]) later =
          laterAnswers (Handle.made address) earlier later) ∧
      (call.needsTypes = true →
        laterAnswers (Handle.made address) (earlier ++ [call]) later =
          laterAnswers (Handle.made address) (earlier ++ [.ensureLoaded call.supply]) later) :=
  ⟨history_eq _, fun _ _ => Handle.made_injective address, fun earlier later _ =>
    ⟨laterAnswers_skip _ earlier later, laterAnswers_load _ earlier later⟩⟩

end BuiltInCache

end ExpressionTyping
