import ExpressionTyping.Proofs.Session.Canonical
import ExpressionTyping.Proofs.Typing.Walk

/-!
# Sessions and their requests

A session runs from a state: the types it has loaded, and its program. In a good state the program
is sound and what was loaded is complete. From such a state a session answers every kind but `other`
with a blank type, and the answer does not depend on whether the load has run (`answers`); so a
check ends without a fault, and it leaves the state as it was or loaded (`check_yields`).

The requests to a session are to add a file, to load the built-in declarations, to give a canonical
type, to list what is visible at a location and to check an expression. A request leads from a good
state to a good state whose program has grown (`SessionState.Good.advances_act`), and so do any
number of them (`SessionState.Good.advances_after`).
-/

set_option autoImplicit false

namespace ExpressionTyping

open Std.Do

/-- What a session runs on: the types it has loaded, and its program. -/
structure SessionState where
  cache : BuiltInCache SessionType
  program : Program

namespace SessionState

/-- The state in which nothing is loaded and there are no files. -/
def start : SessionState :=
  ⟨.empty, .empty⟩

/-- The program is sound, and what was loaded is complete. -/
structure Good (s : SessionState) : Prop where
  sound : s.program.Sound
  complete : ∀ types, s.cache.loaded? = some types → Session.Complete types

/-- A new session is good. -/
theorem start_good : start.Good :=
  ⟨Program.empty_sound, nofun⟩

end SessionState

namespace Session

/-- The result of an action and the state it leaves. -/
def runFrom {α : Type} (action : Session α) (s : SessionState) : Except Fault α × SessionState :=
  let ((result, cache), program) := (action.run.run s.cache).run s.program
  (result, ⟨cache, program⟩)

/-- A run of two actions runs the second in the state that the first leaves, unless the first
fails. -/
theorem runFrom_bind {α β : Type} (action : Session α) (next : α → Session β) (s : SessionState) :
    (action >>= next).runFrom s =
      match action.runFrom s with
      | (.ok a, s') => (next a).runFrom s'
      | (.error fault, s') => (.error fault, s') := by
  unfold runFrom ExceptT.run StateT.run
  simp only [bind, ExceptT.bind, ExceptT.mk, ExceptT.bindCont, StateT.bind]
  rcases action s.cache s.program with ⟨⟨fault | a, cache⟩, program⟩
  · rfl
  · rfl

/-- What is done with the result does not change the state. -/
theorem runFrom_discard_snd {α : Type} (action : Session α) (s : SessionState) :
    ((action >>= fun _ => pure ()).runFrom s).2 = (action.runFrom s).2 := by
  rw [runFrom_bind]
  rcases action.runFrom s with ⟨fault | a, s'⟩
  · rfl
  · rfl

/-- A property of states as an assertion. -/
def during (inv : SessionState → Prop) :
    Assertion (.except Fault (.arg (BuiltInCache SessionType) (.arg Program .pure))) :=
  fun cache program => ⌜inv ⟨cache, program⟩⌝

/-- For a session, yielding a value is a statement on runs. -/
theorem yields_iff_runFrom {α : Type} {inv : SessionState → Prop} {action : Session α} {a : α} :
    Yields (during inv) action a ↔
      ∀ s, inv s → ∃ s', inv s' ∧ action.runFrom s = (.ok a, s') := by
  have hwp : ∀ s : SessionState,
      (wp⟦action⟧ (⇓ value => spred(⌜value = a⌝ ∧ during inv)) s.cache s.program).down ↔
        ∃ s', inv s' ∧ action.runFrom s = (.ok a, s') := by
    rintro ⟨cache, program⟩
    unfold runFrom
    simp only [WP.wp, PredTrans.apply_pushExcept, PredTrans.apply_pushArg]
    rcases (action.run.run cache).run program with ⟨⟨fault | value, cache'⟩, program'⟩
    · show False ↔ _
      constructor
      · exact False.elim
      · rintro ⟨s', -, heq⟩
        cases heq
    · show value = a ∧ inv ⟨cache', program'⟩ ↔ _
      constructor
      · rintro ⟨rfl, hinv⟩
        exact ⟨_, hinv, rfl⟩
      · rintro ⟨s', hinv, heq⟩
        cases heq
        exact ⟨rfl, hinv⟩
  exact ⟨fun h s hs => (hwp s).mp (h s.cache s.program hs),
    fun h cache program hs => (hwp ⟨cache, program⟩).mpr (h ⟨cache, program⟩ hs)⟩

end Session

/-! ## The load -/

/-- A load into a sound program brings complete types and leaves a sound program, grown. -/
structure Session.Loads (load : Compile (List (TypeKind × SessionType))) : Prop where
  complete : ∀ {program : Program}, program.Sound → Complete (load.run program).1
  sound : ∀ {program : Program}, program.Sound → (load.run program).2.Sound
  grows : ∀ {program : Program}, program.Sound → program.Grows (load.run program).2

/-- Declarations that give each scalar kind its word bring complete types when they are loaded. -/
theorem Session.GivesWords.loads {source : String} (h : GivesWords (builtInsFile source)) :
    Loads (loadBuiltIns source) := by
  constructor
  · intro program hsound
    rw [loadBuiltIns_run]
    exact h.complete hsound
  · intro program hsound
    rw [loadBuiltIns_run]
    dsimp only
    exact hsound.add (builtInsFile source)
  · intro program hsound
    rw [loadBuiltIns_run]
    dsimp only
    exact hsound.add_grows (builtInsFile source)

/-- The default declarations bring complete types when they are loaded. -/
theorem Session.defaultBuiltIns_loads : Loads (loadBuiltIns defaultBuiltIns) :=
  defaultBuiltIns_givesWords.loads

namespace SessionState

variable (load : Compile (List (TypeKind × SessionType)))

/-- The types that are loaded, or that the load would bring. -/
def types (s : SessionState) : List (TypeKind × SessionType) :=
  s.cache.loaded?.getD (load.run s.program).1

/-- The state after the load, unless it has run before. -/
def loaded (s : SessionState) : SessionState where
  cache := ⟨some (s.types load)⟩
  program := if s.cache.isLoaded then s.program else (load.run s.program).2

/-- The canonical type of a kind, given or loaded. -/
def answer (s : SessionState) (kind : TypeKind) : SessionType :=
  if kind.isScalar then (BuiltInCache.find? (s.types load) kind).getD (.static (.ofKind kind))
  else .static (.ofKind kind)

/-- What a check of an expression finds. -/
def issues (s : SessionState) (scope : SymbolTable SessionType) (e : Expr) : List Issue :=
  Check.nestingOnce false (Check.infer (s.answer load) scope Check.depthLimit e).issues

/-- Loading twice is loading once. -/
theorem loaded_loaded (s : SessionState) : (s.loaded load).loaded load = s.loaded load :=
  rfl

/-- Loading does not change which canonical types there are. -/
theorem answer_loaded (s : SessionState) : (s.loaded load).answer load = s.answer load :=
  rfl

variable {load} {s : SessionState} (h : s.Good) (hload : Session.Loads load)
include h hload

/-- In a good state, what is loaded, or would be, is complete. -/
theorem Good.complete_types : Session.Complete (s.types load) := by
  unfold types
  cases hloaded : s.cache.loaded? with
  | none => exact hload.complete h.sound
  | some types => exact h.complete types hloaded

/-- Loading keeps a state good. -/
theorem Good.loaded : (s.loaded load).Good := by
  constructor
  · show (if s.cache.isLoaded then s.program else _).Sound
    split
    · exact h.sound
    · exact hload.sound h.sound
  · intro types htypes
    cases htypes
    exact h.complete_types hload

/-- Loading only lets the program grow. -/
theorem Good.grows_loaded : s.program.Grows (s.loaded load).program := by
  show s.program.Grows (if s.cache.isLoaded then s.program else _)
  split
  · exact .refl _
  · exact hload.grows h.sound

/-- In a good state, the canonical type of a kind has nothing to it but the keyword. -/
theorem Good.answer_isBlank (kind : TypeKind) : IsBlank kind (s.answer load kind) := by
  unfold answer
  split
  · next hscalar =>
    obtain ⟨type, hfound, hblank⟩ := (h.complete_types hload).find? hscalar
    rw [hfound]
    exact hblank
  · exact ⟨rfl, rfl, rfl, rfl⟩

end SessionState

namespace Session

/-- Asking for the types that are loaded loads them, unless they are. -/
theorem loadedTypes_runFrom (load : Compile (List (TypeKind × SessionType))) (s : SessionState) :
    runFrom (liftM (BuiltInCache.ensureLoaded load)) s = (.ok (s.types load), s.loaded load) := by
  obtain ⟨⟨loaded?⟩, program⟩ := s
  cases loaded? with
  | none => rfl
  | some types => rfl

/-- Loading the built-in declarations leaves the loaded state. -/
theorem ensureLoaded_runFrom (source : String) (s : SessionState) :
    (ensureLoaded source).runFrom s = (.ok (), s.loaded (loadBuiltIns source)) := by
  -- what the load does is of no matter here, and unfolding it would run the parser
  unfold ensureLoaded
  generalize loadBuiltIns source = load
  obtain ⟨⟨loaded?⟩, program⟩ := s
  cases loaded? with
  | none => rfl
  | some types => rfl

/-- The canonical type of a kind that is no scalar is given without loading, and `other` has
none. -/
theorem typeOf_runFrom_given (source : String) (s : SessionState) {kind : TypeKind}
    (hkind : kind.isScalar = false) :
    (typeOf source kind).runFrom s = (if kind = .other then .error .noCanonicalType
      else .ok (s.answer (loadBuiltIns source) kind), s) := by
  unfold typeOf
  generalize loadBuiltIns source = load
  cases kind with
  | string | number | boolean | symbol => cases hkind
  | any | undefined | null | object | function | other => rfl

/-- The canonical type of a scalar kind is the one that is loaded under it. -/
theorem typeOf_runFrom_scalar (source : String) (s : SessionState) {kind : TypeKind}
    (hkind : kind.isScalar = true) :
    (typeOf source kind).runFrom s =
      ((BuiltInCache.find? (s.types (loadBuiltIns source)) kind).elim
        (.error (.missingBuiltIn kind)) .ok, s.loaded (loadBuiltIns source)) := by
  have hload := loadedTypes_runFrom (loadBuiltIns source) s
  unfold typeOf
  generalize loadBuiltIns source = load at hload ⊢
  unfold BuiltInCache.typeOf
  cases kind with
  | string | number | boolean | symbol =>
    simp only [runFrom_bind]
    rw [hload]
    dsimp only
    cases BuiltInCache.find? (s.types load) _ with
    | none => rfl
    | some type => rfl
  | any | undefined | null | object | function | other => cases hkind

/-- From a good state a session answers every kind but `other`, and only the load changes it. -/
theorem answers {source : String} (hload : Loads (loadBuiltIns source)) {s : SessionState}
    (h : s.Good) :
    Answers (during fun t => t = s ∨ t = s.loaded (loadBuiltIns source)) (typeOf source)
      (s.answer (loadBuiltIns source)) := by
  intro kind hkind
  rw [yields_iff_runFrom]
  -- both states answer alike, so the state a request finds need not be told apart
  have hrun (t : SessionState) (ht : t.Good)
      (hanswer : t.answer (loadBuiltIns source) = s.answer (loadBuiltIns source)) :
      ∃ t', (t' = t ∨ t' = t.loaded (loadBuiltIns source)) ∧
        (typeOf source kind).runFrom t = (.ok (s.answer (loadBuiltIns source) kind), t') := by
    rw [← hanswer]
    cases hscalar : kind.isScalar with
    | false =>
      refine ⟨t, .inl rfl, ?_⟩
      rw [typeOf_runFrom_given source t hscalar, if_neg hkind]
    | true =>
      refine ⟨_, .inr rfl, ?_⟩
      obtain ⟨type, hfound, -⟩ := (ht.complete_types hload).find? hscalar
      unfold SessionState.answer
      rw [typeOf_runFrom_scalar source t hscalar, if_pos hscalar, hfound]
      rfl
  rintro t (rfl | rfl)
  · exact hrun t h rfl
  · obtain ⟨t', ht', heq⟩ := hrun _ (h.loaded hload) (SessionState.answer_loaded _ s)
    rw [SessionState.loaded_loaded, or_self] at ht'
    exact ⟨t', .inr ht', heq⟩

/-- A check from a good state ends without a fault, and only the load changes the state. -/
theorem check_yields {source : String} (hload : Loads (loadBuiltIns source)) {s : SessionState}
    (h : s.Good) (scope : SymbolTable SessionType) (e : Expr) :
    Yields (during fun t => t = s ∨ t = s.loaded (loadBuiltIns source))
      (e.check (typeOf source) scope) (s.issues (loadBuiltIns source) scope e) :=
  Check.check_yields (answers hload h) scope e

end Session

/-! ## Requests -/

/-- What can be asked of a session. -/
inductive Request where
  /-- To add a file. -/
  | addFile (file : SourceFile)
  /-- To load the built-in declarations. -/
  | load
  /-- To give the canonical type of a kind. -/
  | typeOf (kind : TypeKind)
  /-- To list what is visible at a location. -/
  | scopeAt (location : Location)
  /-- To check an expression whose names are bound by a scope. -/
  | check (scope : SymbolTable SessionType) (e : Expr)

/-- What a session does on a request. -/
def Request.act (source : String) : Request → Session Unit
  | addFile file => do
    let program ← Session.program
    (set (program.add file).2 : Compile Unit)
  | load => Session.ensureLoaded source
  | typeOf kind => do
    let _ ← Session.typeOf source kind
  | scopeAt location => do
    let _ ← Session.scopeAt location
  | check scope e => do
    let _ ← e.check (Session.typeOf source) scope

namespace SessionState

/-- The state after requests. -/
def after (source : String) (s : SessionState) (requests : List Request) : SessionState :=
  requests.foldl (fun s request => ((request.act source).runFrom s).2) s

/-- A good state whose program has grown out of the program of another. -/
structure Advances (s s' : SessionState) : Prop where
  good : s'.Good
  grows : s.program.Grows s'.program

/-- A good state advances to itself. -/
theorem Good.advances_refl {s : SessionState} (h : s.Good) : s.Advances s :=
  ⟨h, .refl _⟩

/-- Advancing twice is advancing. -/
theorem Advances.trans {s s' s'' : SessionState} (h : s.Advances s') (h' : s'.Advances s'') :
    s.Advances s'' :=
  ⟨h'.good, h.grows.trans h'.grows⟩

variable {source : String} (hload : Session.Loads (Session.loadBuiltIns source)) {s : SessionState}
include hload

/-- A good state advances to the one in which the declarations are loaded. -/
theorem Good.advances_loaded (h : s.Good) : s.Advances (s.loaded (Session.loadBuiltIns source)) :=
  ⟨h.loaded hload, h.grows_loaded hload⟩

/-- A request adds a file, or it leaves the state as it was or loaded. -/
theorem Good.act_cases (h : s.Good) (request : Request) :
    let t := ((request.act source).runFrom s).2
    (∃ file, request = .addFile file ∧ t = ⟨s.cache, (s.program.add file).2⟩) ∨
      t = s ∨ t = s.loaded (Session.loadBuiltIns source) := by
  intro t
  cases request with
  | addFile file => exact .inl ⟨file, rfl, rfl⟩
  | load =>
    have ht : t = ((Session.ensureLoaded source).runFrom s).2 := rfl
    rw [Session.ensureLoaded_runFrom] at ht
    exact .inr (.inr ht)
  | typeOf kind =>
    have ht : t = ((Session.typeOf source kind >>= fun _ => pure ()).runFrom s).2 := rfl
    rw [Session.runFrom_discard_snd] at ht
    cases hscalar : kind.isScalar with
    | false =>
      rw [Session.typeOf_runFrom_given source s hscalar] at ht
      exact .inr (.inl ht)
    | true =>
      rw [Session.typeOf_runFrom_scalar source s hscalar] at ht
      exact .inr (.inr ht)
  | scopeAt location => exact .inr (.inl rfl)
  | check scope e =>
    have ht : t = ((e.check (Session.typeOf source) scope >>= fun _ => pure ()).runFrom s).2 := rfl
    rw [Session.runFrom_discard_snd] at ht
    have hyields := Session.check_yields hload h scope e
    obtain ⟨s', hs', hrun⟩ := Session.yields_iff_runFrom.mp hyields s (.inl rfl)
    rw [hrun] at ht
    exact .inr (ht ▸ hs')

/-- A request leads to a good state whose program has grown. -/
theorem Good.advances_act (h : s.Good) (request : Request) :
    s.Advances ((request.act source).runFrom s).2 := by
  rcases h.act_cases hload request with ⟨file, -, heq⟩ | heq | heq
  · rw [heq]
    exact ⟨⟨h.sound.add file, h.complete⟩, h.sound.add_grows file⟩
  · rw [heq]
    exact h.advances_refl
  · rw [heq]
    exact h.advances_loaded hload

/-- A good state advances to the one after any requests. -/
theorem Good.advances_after (h : s.Good) (requests : List Request) :
    s.Advances (s.after source requests) := by
  induction requests generalizing s with
  | nil => exact h.advances_refl
  | cons request rest ih =>
    have hstep := h.advances_act hload request
    exact hstep.trans (ih hstep.good)

omit hload in
/-- With the default built-in declarations every state that requests lead to is good. -/
theorem start_advances (requests : List Request) :
    start.Advances (start.after Session.defaultBuiltIns requests) :=
  start_good.advances_after Session.defaultBuiltIns_loads requests

end SessionState

end ExpressionTyping
