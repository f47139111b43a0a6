import ExpressionTyping.Proofs.Program.Course
import ExpressionTyping.Proofs.Program.Handing

/-!
# The stages of resolution

A file is resolved in three loops: over its interfaces, which get their members, over all symbols,
and over its assignments. Nothing is being resolved when a round of a loop starts, so each round is
one course of resolution, with little besides (`Guarded.interfaceRound_course`,
`Guarded.symbolRound_course`, `Guarded.record_recorded`). What the rounds of a loop keep holds when
the loop ends (`Guarded.forM_invariant`).
-/

set_option autoImplicit false

namespace ExpressionTyping

/-- An interface gets its members, and nothing else happens. -/
structure ResolveState.Shapes (id : SymbolId) (s s' : ResolveState) : Prop extends GoesOn s s' where
  issues : s'.program.issues = s.program.issues
  sameSymbols : s'.program.symbols = s.program.symbols
  sameScopes : s'.program.scopes = s.program.scopes
  order : s'.resolved = id :: s.resolved

/-- Giving an interface its members leaves the settled symbols as they are. -/
theorem ResolveState.Shapes.steady {id : SymbolId} {s s' : ResolveState} (h : s.Shapes id s') :
    s.Steady s' :=
  { h.toGoesOn with
    issues := h.issues ▸ List.prefix_rfl
    order := h.order ▸ List.suffix_cons _ _
    sameScopes := h.sameScopes
    fixed := fun id _ _ =>
      congrArg Symbol.type (Program.symbol_eq_of_symbols h.sameSymbols id) }

/-- What comes of an assignment: its target is not known or a constant, which is reported; or it is
nothing that is narrowed; or the value is typed and something is recorded in the scope. -/
inductive ResolveState.Recorded (file : FileId) (pending : Pending) (a : PendingAssignment) :
    ResolveState → ResolveState → Prop where
  | unknown {s : ResolveState}
      (hnone : s.program.resolveValue? a.scope a.target.text = none) :
      Recorded file pending a s
        (s.reported file a.target.node.span (.unknownName a.target.text))
  | constant {s : ResolveState} {id : SymbolId}
      (hfound : s.program.resolveValue? a.scope a.target.text = some id)
      (hsort : (s.program.symbol id).sort = .constant) :
      Recorded file pending a s
        (s.reported file a.target.node.span (.assignmentToConstant a.target.text))
  | other {s : ResolveState} {id : SymbolId}
      (hfound : s.program.resolveValue? a.scope a.target.text = some id)
      (hsort : (s.program.symbol id).sort.isVariable = false) : Recorded file pending a s s
  | value {s s₁ s' : ResolveState} {id : SymbolId}
      (hfound : s.program.resolveValue? a.scope a.target.text = some id)
      (hconstant : (s.program.symbol id).sort ≠ .constant)
      (hsort : (s.program.symbol id).sort.isVariable = true)
      (hvalue : s.Course file pending [] (.value a.scope a.value.valueName?) s₁)
      (hgoesOn : s₁.GoesOn s') (hissues : s'.program.issues = s₁.program.issues)
      (hresolved : s'.resolved = s₁.resolved) : Recorded file pending a s s'

/-- Resolving goes on, and reports are added to those before. -/
structure ResolveState.Advances (s s' : ResolveState) : Prop extends GoesOn s s' where
  issues : s.program.issues <+: s'.program.issues

namespace ResolveState

variable {file : FileId} {pending : Pending} {s s₁ s' : ResolveState}

/-- A steady stretch advances. -/
theorem Steady.advances (h : s.Steady s') : s.Advances s' :=
  { h.toGoesOn with issues := h.issues }

/-- Advancing continues from state to state. -/
theorem Advances.trans (h : s.Advances s₁) (h' : s₁.Advances s') : s.Advances s' :=
  { h.toGoesOn.trans h'.toGoesOn with issues := h.issues.trans h'.issues }

/-- Recording an assignment advances. -/
theorem Recorded.advances {a : PendingAssignment} (h : s.Recorded file pending a s') :
    s.Advances s' := by
  cases h with
  | unknown | constant => exact (reported_steady s file _ _).advances
  | other => exact (Steady.refl s).advances
  | value _ _ _ hvalue hgoesOn hissues =>
    exact hvalue.steady.advances.trans { hgoesOn with issues := hissues ▸ List.prefix_rfl }

/-- What was reported since some state. -/
def reportsSince (base s : ResolveState) : List FileIssue :=
  s.program.issues.drop base.program.issues.length

/-- The reports are the old ones and those made since. -/
theorem Advances.reports_eq (h : s.Advances s') :
    s'.program.issues = s.program.issues ++ s.reportsSince s' :=
  (List.prefix_iff_eq_append.mp h.issues).symm

/-- A report comes last among those made since. -/
theorem Advances.reportsSince_reported (h : s.Advances s') (file : FileId) (span : Span)
    (problem : Problem) :
    s.reportsSince (s'.reported file span problem) =
      s.reportsSince s' ++ [⟨s'.program.fileName file, ⟨span, problem⟩⟩] :=
  List.drop_append_of_le_length h.issues.length_le

/-- What holds of all that was reported and of one more report holds of all. -/
theorem Advances.forall_reported {P : FileIssue → Prop} (h : s.Advances s')
    (hbefore : ∀ issue ∈ s.reportsSince s', P issue) {file : FileId} {span : Span}
    {problem : Problem} (hnew : P ⟨s'.program.fileName file, ⟨span, problem⟩⟩) :
    ∀ issue ∈ s.reportsSince (s'.reported file span problem), P issue := by
  rw [h.reportsSince_reported]
  exact List.forall_mem_append.mpr ⟨hbefore, List.forall_mem_singleton.mpr hnew⟩

/-- A silent stretch adds nothing to the reports made since. -/
theorem reportsSince_eq {base : ResolveState} (h : s'.program.issues = s.program.issues) :
    base.reportsSince s' = base.reportsSince s :=
  congrArg (List.drop _) h

end ResolveState

namespace Guarded

open ResolveState

variable {file : FileId} {pending : Pending}

/-! ## Loops -/

/-- What holds before a loop, and is kept by each of its rounds, holds after it. -/
theorem forM_invariant {σ γ : Type} {f : γ → Guarded σ PUnit} {motive : List γ → σ → Prop}
    {xs : List γ} {s s' : σ} (hrun : (xs.forM f).run s = some (⟨⟩, s')) (hstart : motive [] s)
    (hround : ∀ done x rest s s', xs = done ++ x :: rest → (f x).run s = some (⟨⟩, s') →
      motive done s → motive (done ++ [x]) s') : motive xs s' := by
  -- the rounds that are done are generalized, and the others are still to come
  have hrest (done rest : List γ) (s : σ) (hsplit : xs = done ++ rest)
      (hrun : (rest.forM f).run s = some (⟨⟩, s')) (hdone : motive done s) : motive xs s' := by
    induction rest generalizing done s with
    | nil =>
      cases Option.some.inj hrun
      rwa [hsplit, List.append_nil]
    | cons x rest ih =>
      change (f x >>= fun _ => rest.forM f).run s = some (⟨⟩, s') at hrun
      rw [StateT.run_bind] at hrun
      obtain ⟨⟨_, s₁⟩, hfirst, hrun⟩ := Option.bind_eq_some_iff.mp hrun
      refine ih (done ++ [x]) s₁ ?_ hrun (hround done x rest s s₁ hsplit hfirst hdone)
      rw [hsplit, List.append_assoc, List.singleton_append]
  exact hrest [] xs s rfl hrun hstart

/-- A round of the loop over interfaces. -/
def interfaceRound (file : FileId) (pending : Pending) (id : SymbolId) :
    Guarded ResolveState PUnit := do
  if (← (← program).symbol? id).sort = .interface then interfaceMembers file pending id

/-- A round of the loop over symbols. -/
def symbolRound (file : FileId) (pending : Pending) (id : SymbolId) :
    Guarded ResolveState PUnit := do
  let _ ← fresh file pending id

/-- Resolution is three loops, one after the other. -/
theorem recording_stages {bound recorded : List Bound} {s s' : ResolveState}
    (hrun : (recording file bound recorded).run s = some ((), s')) :
    ∃ s₁ s₂,
      ((Resolve.pendingOf bound).symbols.forM
        (interfaceRound file (Resolve.pendingOf bound))).run s = some ((), s₁) ∧
      ((Resolve.pendingOf bound).symbols.forM
        (symbolRound file (Resolve.pendingOf bound))).run s₁ = some ((), s₂) ∧
      (recorded.forM (record file (Resolve.pendingOf bound))).run s₂ = some ((), s') := by
  obtain ⟨⟨_, s₁⟩, hinterfaces, hrun⟩ := Option.bind_eq_some_iff.mp hrun
  obtain ⟨⟨_, s₂⟩, hsymbols, hrecorded⟩ := Option.bind_eq_some_iff.mp hrun
  exact ⟨s₁, s₂, hinterfaces, hsymbols, hrecorded⟩

/-! ## Rounds -/

/-- The names that an interface looks up to get its members. -/
def memberNames (declarations : List Declaration) : List (ScopeId × Identifier) :=
  (declarations.filter Declaration.isInterface).flatMap (Declaration.names Identifier.isThere)

/-- An interface gets its members once the names in its declarations are looked up. -/
theorem interfaceMembers_course (id : SymbolId) (s : ResolveState) :
    Ends (.free _) (interfaceMembers file pending id) s fun _ s' => ∃ s₁,
      s.Course file pending [] (.names (memberNames (pending.declarationsOf id))) s₁ ∧
        s₁.Shapes id s' := by
  refine (interfaceElements_looksUp (reference_looksUp fresh_course) _ .empty s).bind ?_
  refine fun members s₁ _ _ hlooks => Ends.get.bind ?_
  rintro _ s₂ - - ⟨rfl, rfl⟩
  refine .found fun symbol _ => .found fun data _ => .step fun _ =>
    ⟨trivial, trivial, s₂, hlooks, ?_⟩
  exact { GoesOn.refl s₂ with
    reaches := .single (.setMembers _ _)
    resolved := List.subset_cons_self _ _
    issues := rfl
    sameSymbols := rfl
    sameScopes := rfl
    order := rfl }

/-- A round over an interface looks up the names of its members, then gives it its members. -/
theorem interfaceRound_course (id : SymbolId) (s : ResolveState) :
    Ends (.free _) (interfaceRound file pending id) s fun _ s' =>
      (s.program.symbol id).sort ≠ .interface ∧ s' = s ∨
      (s.program.symbol id).sort = .interface ∧ ∃ s₁,
        s.Course file pending [] (.names (memberNames (pending.declarationsOf id))) s₁ ∧
          s₁.Shapes id s' := by
  refine program_ends.bind ?_
  rintro _ s₁ - - ⟨rfl, rfl⟩
  refine .found fun symbol hsymbol => ?_
  obtain ⟨-, rfl⟩ := Program.HasSymbol.of_symbol? hsymbol
  refine .ite (fun hsort => ?_) fun hsort => .pure (.inl ⟨hsort, rfl⟩)
  exact (interfaceMembers_course id s₁).mono fun _ _ _ _ hmembers => .inr ⟨hsort, hmembers⟩

/-- A round over a symbol takes the course of asking for it. -/
theorem symbolRound_course (id : SymbolId) (s : ResolveState) :
    Ends (.free _) (symbolRound file pending id) s fun _ s' =>
      s.Course file pending [] (.symbol id) s' :=
  (fresh_course s id).bind fun _ _ _ _ hcourse => .pure hcourse

/-- What holds before the declarations of a file are resolved, and is kept by every course of
resolution and whenever an interface gets its members, holds after it. -/
theorem declarations_keep {bound : List Bound} {base s' : ResolveState}
    (hsorted : base.Sorted (Resolve.pendingOf bound))
    (hrun : (recording file bound []).run base = some ((), s')) {motive : ResolveState → Prop}
    (hstart : motive base)
    (hcourse : ∀ query s₁ s₂, base.Steady s₁ →
      s₁.Course file (Resolve.pendingOf bound) [] query s₂ → motive s₁ → motive s₂)
    (hshapes : ∀ id s₁ s₂, base.Steady s₁ → (s₁.program.symbol id).sort = .interface →
      s₁.Shapes id s₂ → motive s₁ → motive s₂) : base.Steady s' ∧ motive s' := by
  obtain ⟨s₁, s₂, hinterfaces, hsymbols, hrest⟩ := recording_stages hrun
  cases hrest
  have hmembers : base.Steady s₁ ∧ motive s₁ := by
    refine forM_invariant (motive := fun _ s => base.Steady s ∧ motive s) hinterfaces
      ⟨.refl base, hstart⟩ ?_
    rintro done id rest s s' hsplit hround ⟨hsteady, hinv⟩
    have hid : base.program.HasSymbol id :=
      hsorted.hasSymbol_of_declares (Pending.declares_of_mem_symbols
        (hsplit ▸ List.mem_append_cons_self))
    obtain ⟨-, -, ⟨-, rfl⟩ | ⟨hsort, s₁, hnames, hshaped⟩⟩ :=
      interfaceRound_course id s _ _ hround trivial
    · exact ⟨hsteady, hinv⟩
    have hsteady₁ := hsteady.trans hnames.steady
    rw [← (hnames.steady.symbol (hsteady.hasSymbol hid)).sort] at hsort
    exact ⟨hsteady₁.trans hshaped.steady,
      hshapes id s₁ s' hsteady₁ hsort hshaped (hcourse _ s s₁ hsteady hnames hinv)⟩
  refine forM_invariant (motive := fun _ s => base.Steady s ∧ motive s) hsymbols hmembers ?_
  rintro done id rest s s' - hround ⟨hsteady, hinv⟩
  obtain ⟨-, -, hresolved⟩ := symbolRound_course id s _ _ hround trivial
  exact ⟨hsteady.trans hresolved.steady, hcourse _ s s' hsteady hresolved hinv⟩

/-- Narrowing is quiet. -/
theorem narrowed_quiet (declared assigned : TypeId) (s : Program) :
    Ends .quiet (narrowed declared assigned) s fun _ _ => True := by
  refine Ends.get.bind ?_
  rintro _ s₁ - - ⟨rfl, rfl⟩
  refine .found fun data _ => ?_
  cases data with
  | union members =>
    refine .found fun _ _ => .found fun _ _ => .ite (fun _ => .pure trivial) fun _ => ?_
    exact unionOf_quiet _ _
  | _ => exact .pure trivial

/-- A scope whose names stay is changed, and nothing is reported. -/
theorem updateScope_goesOn (id : ScopeId) {f : Scope → Scope}
    (hf : ∀ scope : Scope, scope.KeepsNames (f scope)) (s : ResolveState) :
    Ends (.free _) (compile (updateScope id f)) s fun _ s' =>
      s.GoesOn s' ∧ s'.program.issues = s.program.issues ∧ s'.resolved = s.resolved := by
  have hupdate : Ends (.free _) (updateScope id f) s.program fun _ after =>
      after = { s.program with scopes := s.program.scopes.modify id.index f } := by
    refine Ends.get.bind ?_
    rintro _ _ - - ⟨rfl, rfl⟩
    exact .found fun _ _ => .step fun _ => ⟨trivial, trivial, rfl⟩
  intro a s' hrun _
  rw [compile_run] at hrun
  obtain ⟨⟨_, program⟩, hq, heq⟩ := Option.bind_eq_some_iff.mp hrun
  cases heq
  obtain ⟨-, -, rfl⟩ := hupdate _ _ hq trivial
  refine ⟨trivial, trivial, ?_, rfl, rfl⟩
  exact { GoesOn.refl s with
    scopes := .modify Scope.KeepsNames.refl _ _ hf
    size := Array.size_modify }

/-- Recording an assignment does to the reports just what it records. -/
theorem assignment_recorded (a : PendingAssignment) (s : ResolveState) :
    Ends (.free _) (assignment file pending a) s fun _ s' => s.Recorded file pending a s' := by
  refine program_ends.bind ?_
  rintro _ s₁ - - ⟨rfl, rfl⟩
  refine .found fun found hfound => ?_
  have htarget : s₁.program.resolveValue? a.scope a.target.text = found := lookup?_eq hfound
  cases found with
  | none =>
    refine (report_reports file _ _ s₁).mono ?_
    rintro _ _ - - rfl
    exact .unknown htarget
  | some id =>
    refine program_ends.bind ?_
    rintro _ s₂ - - ⟨rfl, rfl⟩
    refine .found fun target hsymbol => ?_
    obtain ⟨-, rfl⟩ := Program.HasSymbol.of_symbol? hsymbol
    refine .ite (fun hconstant => ?_) fun hconstant => .ite (fun hvariable => ?_) fun hother => ?_
    · refine (report_reports file _ _ s₂).mono ?_
      rintro _ _ - - rfl
      exact .constant htarget hconstant
    · refine (valueType_course fresh_course a.scope a.stop a.value s₂).bind ?_
      rintro assigned s₃ - - ⟨hvalue, -⟩
      refine (compile_quiet (narrowed_quiet _ assigned s₃.program)).bind ?_
      intro type s₄ _ _ hquiet
      have hkeeps (scope : Scope) : scope.KeepsNames
          { scope with assignments := scope.assignments ++ [⟨id, a.stop, type⟩] } :=
        ⟨⟨rfl, rfl⟩, rfl, rfl⟩
      refine (updateScope_goesOn a.scope hkeeps s₄).mono ?_
      rintro _ s₅ - - ⟨hgoesOn, hissues, hresolved⟩
      exact .value htarget hconstant hvariable hvalue (hquiet.steady.toGoesOn.trans hgoesOn)
        (hissues.trans hquiet.issues) (hresolved.trans hquiet.resolved)
    · exact .pure (.other htarget (by simpa using hother))

/-- A round of the loop over what was bound: only assignments are recorded. -/
theorem record_recorded (b : Bound) (s : ResolveState) :
    Ends (.free _) (record file pending b) s fun _ s' =>
      (∃ a, b = .assignment a ∧ s.Recorded file pending a s') ∨
        (∃ id made, b = .declaration id made) ∧ s' = s := by
  cases b with
  | declaration id made => exact .pure (.inr ⟨⟨id, made, rfl⟩, rfl⟩)
  | assignment a => exact (assignment_recorded a s).mono fun _ _ _ _ h => .inl ⟨a, rfl, h⟩

/-- What is kept when declarations are resolved, and by every assignment that is recorded, holds
when everything is resolved. -/
theorem recording_keep {bound : List Bound} {base s' : ResolveState}
    (hsorted : base.Sorted (Resolve.pendingOf bound))
    (hrun : (recording file bound bound).run base = some ((), s')) {motive : ResolveState → Prop}
    (hstart : motive base)
    (hcourse : ∀ query s₁ s₂, base.Advances s₁ →
      s₁.Course file (Resolve.pendingOf bound) [] query s₂ → motive s₁ → motive s₂)
    (hshapes : ∀ id s₁ s₂, base.Advances s₁ → (s₁.program.symbol id).sort = .interface →
      s₁.Shapes id s₂ → motive s₁ → motive s₂)
    (hrecord : ∀ a s₁ s₂, .assignment a ∈ bound → base.Advances s₁ →
      s₁.Recorded file (Resolve.pendingOf bound) a s₂ → motive s₁ → motive s₂) :
    base.Advances s' ∧ motive s' := by
  have hsplit : (recording file bound ([] ++ bound)).run base = some ((), s') := hrun
  rw [recording_append, StateT.run_bind] at hsplit
  obtain ⟨⟨_, s₁⟩, hdeclarations, hrecords⟩ := Option.bind_eq_some_iff.mp hsplit
  obtain ⟨hsteady, hinv⟩ := declarations_keep hsorted hdeclarations hstart
    (fun query s₁ s₂ hbase => hcourse query s₁ s₂ hbase.advances)
    fun id s₁ s₂ hbase => hshapes id s₁ s₂ hbase.advances
  refine forM_invariant (motive := fun _ s => base.Advances s ∧ motive s) hrecords
    ⟨hsteady.advances, hinv⟩ ?_
  rintro done b rest s s' rfl hround ⟨hbase, hinv⟩
  obtain ⟨-, -, ⟨a, rfl, hrecorded⟩ | ⟨-, rfl⟩⟩ := record_recorded b s _ _ hround trivial
  · exact ⟨hbase.trans hrecorded.advances,
      hrecord a s s' List.mem_append_cons_self hbase hrecorded hinv⟩
  · exact ⟨hbase, hinv⟩

end Guarded

end ExpressionTyping
