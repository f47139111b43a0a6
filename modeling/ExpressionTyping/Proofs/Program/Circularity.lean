import ExpressionTyping.Proofs.Program.Referring
import ExpressionTyping.Proofs.Program.Selecting
import ExpressionTyping.Proofs.Program.Stages

/-!
# Aliases that refer to themselves

Resolution walks along references and reports an alias when it comes back to it. Whatever is being
resolved leads to what is asked for, so an alias that is reported refers to itself, directly or by
way of other aliases (`ResolveState.Course.sound`).

For the converse, look at the order in which symbols get resolved. An alias that another refers to
is resolved before it, unless it is reported (`ResolveState.Course.complete`). So aliases of which
none is reported refer to earlier and earlier ones, and cannot refer to each other in a circle
(`ResolveState.Complete.exists_reported`). Interfaces refer to nothing while they are resolved, so
no circle leads through one.
-/

set_option autoImplicit false

namespace ExpressionTyping

open Relation (TransGen)

/-! ## References between aliases -/

/-- The report of an alias that refers to itself. -/
def Program.circularIssue (program : Program) (file : FileId) (span : Span) (id : SymbolId) :
    FileIssue :=
  ⟨program.fileName file, ⟨span, .circularAlias (program.symbol id).name⟩⟩

namespace Declaration

/-- The scope and the type of the declaration of an alias. -/
def aliased? : Declaration → Option (ScopeId × TypeNode)
  | .typeAlias scope _ type => some (scope, type)
  | _ => none

/-- Only declarations of aliases have an aliased type. -/
theorem aliased?_eq_some {made : Declaration} {scope : ScopeId} {type : TypeNode} :
    made.aliased? = some (scope, type) ↔ ∃ span, made = .typeAlias scope span type := by
  cases made with
  | typeAlias => simp [aliased?]
  | variableDecl | function | interface => exact ⟨nofun, nofun⟩

end Declaration

namespace Pending

/-- A symbol is an alias. -/
def IsAlias (pending : Pending) (id : SymbolId) : Prop :=
  ∃ scope span type, (id, .typeAlias scope span type) ∈ pending

/-- An alias mentions another: a name in its type, at any depth but in members whose names count,
leads to the other. -/
def AliasMentions (counts : Identifier → Bool) (program : Program) (pending : Pending)
    (id other : SymbolId) : Prop :=
  (∃ scope span type, (id, .typeAlias scope span type) ∈ pending ∧
    ∃ name ∈ type.names counts, name.isThere = true ∧
      program.resolveType? scope name.text = some other) ∧ pending.IsAlias other

/-- An alias refers to another: it mentions the other, not just in members without a name. -/
abbrev AliasRefers : Program → Pending → SymbolId → SymbolId → Prop :=
  AliasMentions Identifier.isThere

instance (pending : Pending) (id : SymbolId) : Decidable (pending.IsAlias id) :=
  decidable_of_iff (∃ entry ∈ pending, entry.1 = id ∧ entry.2.aliased?.isSome = true) <| by
    constructor
    · rintro ⟨⟨_, made⟩, hmem, rfl, hsome⟩
      obtain ⟨⟨scope, type⟩, haliased⟩ := Option.isSome_iff_exists.mp hsome
      obtain ⟨span, rfl⟩ := Declaration.aliased?_eq_some.mp haliased
      exact ⟨scope, span, type, hmem⟩
    · rintro ⟨scope, span, type, hmem⟩
      exact ⟨_, hmem, rfl, rfl⟩

instance (counts : Identifier → Bool) (program : Program) (pending : Pending)
    (id other : SymbolId) : Decidable (pending.AliasMentions counts program id other) :=
  decidable_of_iff ((∃ entry ∈ pending, entry.1 = id ∧ ∃ aliased ∈ entry.2.aliased?,
    ∃ name ∈ aliased.2.names counts, name.isThere = true ∧
      program.resolveType? aliased.1 name.text = some other) ∧ pending.IsAlias other) <| by
    refine and_congr_left fun _ => ⟨?_, ?_⟩
    · rintro ⟨⟨_, made⟩, hmem, rfl, ⟨scope, type⟩, haliased, hname⟩
      obtain ⟨span, rfl⟩ := Declaration.aliased?_eq_some.mp haliased
      exact ⟨scope, span, type, hmem, hname⟩
    · rintro ⟨scope, span, type, hmem, hname⟩
      exact ⟨_, hmem, rfl, _, rfl, hname⟩

end Pending

/-- The span of an alias is that of a declaration of an alias. -/
theorem Resolve.aliasSpan?_eq_some {declarations : List Declaration} {span : Span}
    (h : aliasSpan? declarations = some span) :
    ∃ scope type, .typeAlias scope span type ∈ declarations := by
  induction declarations with
  | nil => cases h
  | cons first rest ih =>
    cases first with
    | typeAlias scope _ type =>
      cases h
      exact ⟨scope, type, List.mem_cons_self⟩
    | variableDecl | function | interface =>
      obtain ⟨scope, type, hmem⟩ := ih h
      exact ⟨scope, type, List.mem_cons_of_mem _ hmem⟩

namespace Pending

variable {program : Program} {pending : Pending} {id other : SymbolId}

/-- A symbol with the span of an alias is an alias. -/
theorem isAlias_of_aliasSpan? {span : Span}
    (h : Resolve.aliasSpan? (pending.declarationsOf id) = some span) : pending.IsAlias id := by
  obtain ⟨scope, type, hmem⟩ := Resolve.aliasSpan?_eq_some h
  exact ⟨scope, span, type, mem_of_mem_declarationsOf hmem⟩

namespace Regular

variable (h : pending.Regular program)
include h

/-- A type that refers to something is an alias. -/
theorem isAlias_of_refers (hrefers : pending.Refers program id other)
    (hid : (program.symbol id).sort.isType = true) : pending.IsAlias id := by
  obtain ⟨first, rest, hdeclarations, hleads⟩ := hrefers
  have hmem := mem_of_declarationsOf hdeclarations
  have hfirst := h.sorted.isType_eq hmem
  cases first with
  | typeAlias scope span type => exact ⟨scope, span, type, hmem⟩
  | interface =>
    obtain ⟨_, huse, -⟩ := hleads
    cases huse
  | variableDecl | function =>
    rw [show (program.symbol id).sort.isType = false from hfirst] at hid
    cases hid

/-- What an alias refers to is asked for when it is resolved. -/
theorem refers_iff {scope : ScopeId} {span : Span} {type : TypeNode}
    (hid : (id, .typeAlias scope span type) ∈ pending) :
    pending.Refers program id other ↔ ∃ name ∈ type.names Identifier.isThere,
      name.isThere = true ∧ program.resolveType? scope name.text = some other := by
  have honce := h.once id scope span type hid
  constructor
  · rintro ⟨first, rest, hdeclarations, hleads⟩
    cases honce.symm.trans hdeclarations
    obtain ⟨_, huse, hthere, hfound⟩ := hleads
    obtain ⟨name, hname, rfl⟩ := List.mem_map.mp huse
    exact ⟨name, hname, hthere, hfound⟩
  · rintro ⟨name, hname, hthere, hfound⟩
    exact ⟨_, [], honce, (scope, name), List.mem_map_of_mem hname, hthere, hfound⟩

/-- An alias refers to another exactly when both are aliases and the one refers to the other as a
symbol. -/
theorem aliasRefers_iff :
    pending.AliasRefers program id other ↔
      pending.IsAlias id ∧ pending.Refers program id other ∧ pending.IsAlias other := by
  constructor
  · rintro ⟨⟨scope, span, type, hid, hname⟩, hother⟩
    exact ⟨⟨scope, span, type, hid⟩, (h.refers_iff hid).mpr hname, hother⟩
  · rintro ⟨⟨scope, span, type, hid⟩, hrefers, hother⟩
    exact ⟨⟨scope, span, type, hid, (h.refers_iff hid).mp hrefers⟩, hother⟩

/-- An alias has the span of one of its declarations. -/
theorem aliasSpan?_of_isAlias (hid : pending.IsAlias id) :
    ∃ span, Resolve.aliasSpan? (pending.declarationsOf id) = some span := by
  obtain ⟨scope, span, type, hmem⟩ := hid
  exact ⟨span, by rw [h.once id scope span type hmem]; rfl⟩

/-- An alias is a type. -/
theorem isType_of_isAlias (hid : pending.IsAlias id) :
    (program.symbol id).sort.isType = true := by
  obtain ⟨_, _, _, hmem⟩ := hid
  exact h.sorted.isType_eq hmem

/-- On a path of references that starts at a type and ends at an alias are aliases only. -/
theorem transGen_aliasRefers (hpath : TransGen (pending.Refers program) id other)
    (hid : (program.symbol id).sort.isType = true) (hother : pending.IsAlias other) :
    TransGen (pending.AliasRefers program) id other := by
  induction hpath using TransGen.head_induction_on with
  | single hrefers =>
    exact .single (h.aliasRefers_iff.mpr ⟨h.isAlias_of_refers hrefers hid, hrefers, hother⟩)
  | head hrefers hrest ih =>
    have hnext := hrefers.isType h.sorted hid
    obtain ⟨_, hfollows, -⟩ := TransGen.head'_iff.mp hrest
    exact .head (h.aliasRefers_iff.mpr ⟨h.isAlias_of_refers hrefers hid, hrefers,
      h.isAlias_of_refers hfollows hnext⟩) (ih hnext)

end Regular

end Pending

/-! ## What is reported -/

namespace ResolveState

variable {file : FileId} {pending : Pending} {active : List SymbolId} {query : Query}
  {base s s₁ s' : ResolveState}

/-- Every alias that was reported since some state refers to itself. -/
def Sound (file : FileId) (pending : Pending) (base s : ResolveState) : Prop :=
  ∀ issue ∈ base.reportsSince s, ∀ name, issue.issue.problem = .circularAlias name →
    ∃ id span, Resolve.aliasSpan? (pending.declarationsOf id) = some span ∧
      issue = base.program.circularIssue file span id ∧
      TransGen (pending.Refers base.program) id id

/-- Reports stay sound where nothing is reported. -/
theorem Sound.same (h : Sound file pending base s)
    (hissues : s'.program.issues = s.program.issues) : Sound file pending base s' := by
  unfold Sound
  rw [reportsSince_eq hissues]
  exact h

/-- Something is reported that is no alias, or one that refers to itself. -/
theorem Sound.reported (h : Sound file pending base s) (hbase : base.Advances s) (span : Span)
    {problem : Problem} (hnew : ∀ name, problem = .circularAlias name →
      ∃ id span', Resolve.aliasSpan? (pending.declarationsOf id) = some span' ∧
        ⟨s.program.fileName file, ⟨span, problem⟩⟩ = base.program.circularIssue file span' id ∧
        TransGen (pending.Refers base.program) id id) :
    Sound file pending base (s.reported file span problem) :=
  hbase.forall_reported h hnew

/-- An alias is reported in the file under its name. -/
theorem GoesOn.circularIssue_eq (h : base.GoesOn s) {id : SymbolId}
    (hid : base.program.HasSymbol id) (span : Span) :
    s.program.circularIssue file span id = base.program.circularIssue file span id := by
  unfold Program.circularIssue Program.fileName
  rw [h.files, (h.symbol hid).name]

/-- Aliases that are reported refer to themselves, as what is being resolved leads to what is asked
for. -/
theorem Course.sound (h : s.Course file pending active query s') (hbase : base.Advances s)
    (hregular : pending.Regular base.program)
    (haround : query.Around base.program pending active) (hsound : Sound file pending base s) :
    Sound file pending base s' := by
  induction h with
  | quiet h | plain _ h => exact hsound.same h.issues
  | append h _ ih ih' =>
    exact ih' (hbase.trans h.steady.advances) haround.right (ih hbase haround.left hsound)
  | found hname hfound _ ih =>
    rw [hbase.resolveType?_eq] at hfound
    exact ih hbase (haround.found hname hfound) hsound
  | named hfound _ ih =>
    rw [hbase.resolveValue?_eq] at hfound
    exact ih hbase (haround.named hfound) hsound
  | unknown | unnamed => exact hsound.reported hbase _ nofun
  | @circular active id span s hactive hspan =>
    obtain ⟨_, _, _, hmem⟩ := Pending.isAlias_of_aliasSpan? hspan
    have hid := hregular.sorted.hasSymbol_of_declares ⟨_, hmem⟩
    exact hsound.reported hbase span fun _ _ =>
      ⟨id, span, hspan, hbase.circularIssue_eq hid span, haround id rfl id hactive⟩
  | settles _ _ hdeclarations _ _ _ ih =>
    exact (ih hbase (haround.declared hdeclarations) hsound).same rfl
  | _ => exact hsound

/-- An alias is reported. -/
def Reported (file : FileId) (pending : Pending) (base s : ResolveState) (id : SymbolId) : Prop :=
  ∃ span, Resolve.aliasSpan? (pending.declarationsOf id) = some span ∧
    base.program.circularIssue file span id ∈ base.reportsSince s

/-- A report stays when more is reported. -/
theorem Reported.mono {id : SymbolId} (h : Reported file pending base s id)
    (hissues : s.program.issues <+: s'.program.issues) : Reported file pending base s' id := by
  obtain ⟨span, hspan, hmem⟩ := h
  exact ⟨span, hspan, (hissues.drop _).subset hmem⟩

/-- An alias that is asked for gets resolved, or it is reported. -/
theorem Course.reaches (h : s.Course file pending active query s') (hbase : base.Advances s)
    (hregular : pending.Regular base.program) {id : SymbolId} (hid : pending.IsAlias id)
    (hleads : query.Leads base.program id) :
    id ∈ s'.resolved ∨ Reported file pending base s' id := by
  obtain ⟨_, hspan⟩ := hregular.aliasSpan?_of_isAlias hid
  have htype {s : ResolveState} (hbase : base.Advances s) {scope : ScopeId} {name : Identifier}
      (hleads : (Query.names [(scope, name)]).Leads base.program id) :
      name.isThere = true ∧ s.program.resolveType? scope name.text = some id := by
    obtain ⟨_, huse, hthere, hfound⟩ := hleads
    cases List.mem_singleton.mp huse
    exact ⟨hthere, (hbase.resolveType?_eq scope name.text).trans hfound⟩
  have hvalue {s : ResolveState} (hbase : base.Advances s) {scope : ScopeId}
      {name? : Option Identifier} (hleads : (Query.value scope name?).Leads base.program id) :
      ∃ name, name? = some name ∧ s.program.resolveValue? scope name.text = some id := by
    obtain ⟨name, hname, hfound⟩ := hleads
    exact ⟨name, hname, (hbase.resolveValue?_eq scope name.text).trans hfound⟩
  induction h with
  | quiet =>
    obtain ⟨_, huse, -⟩ := hleads
    cases huse
  | append h h' ih ih' =>
    obtain ⟨use, huse, hfound⟩ := hleads
    rcases List.mem_append.mp huse with huse | huse
    · exact (ih hbase ⟨use, huse, hfound⟩).imp (h'.steady.resolved ·) (·.mono h'.steady.issues)
    · exact ih' (hbase.trans h.steady.advances) ⟨use, huse, hfound⟩
  | missing hname =>
    cases hname.symm.trans (htype hbase hleads).1
  | found _ hfound _ ih =>
    exact ih hbase (Option.some.inj (hfound.symm.trans (htype hbase hleads).2))
  | builtIn _ hnone | unknown _ hnone =>
    cases hnone.symm.trans (htype hbase hleads).2
  | plain hname =>
    obtain ⟨name, rfl, hfound⟩ := hvalue hbase hleads
    cases (hname name rfl).1.symm.trans hfound
  | named hfound _ ih =>
    obtain ⟨_, ⟨⟩, hfound'⟩ := hvalue hbase hleads
    exact ih hbase (Option.some.inj (hfound.symm.trans hfound'))
  | unnamed hnone =>
    obtain ⟨_, ⟨⟩, hfound⟩ := hvalue hbase hleads
    cases hnone.symm.trans hfound
  | @circular active other span s hactive hspan' =>
    obtain rfl : other = id := hleads
    refine .inr ⟨span, hspan', ?_⟩
    obtain ⟨_, _, _, hmem⟩ := hid
    rw [hbase.reportsSince_reported,
      ← hbase.circularIssue_eq (hregular.sorted.hasSymbol_of_declares ⟨_, hmem⟩) span]
    exact List.mem_append_right _ List.mem_cons_self
  | waiting _ hnone =>
    obtain rfl := hleads
    cases hnone.symm.trans hspan
  | settled _ hsettled =>
    obtain rfl := hleads
    refine .inl (hsettled.resolve_right fun hnil => ?_)
    rw [hnil] at hspan
    cases hspan
  | settles =>
    obtain rfl := hleads
    exact .inl List.mem_cons_self

/-- What an alias that is resolved refers to was resolved before it, or is reported. -/
def Complete (file : FileId) (pending : Pending) (base s : ResolveState) : Prop :=
  ∀ later id earlier, s.resolved = later ++ id :: earlier → ∀ other,
    pending.AliasRefers base.program id other →
      other ∈ earlier ∨ Reported file pending base s other

/-- Reports stay complete where nothing more is resolved. -/
theorem Complete.same (h : Complete file pending base s) (hresolved : s'.resolved = s.resolved)
    (hissues : s.program.issues <+: s'.program.issues) : Complete file pending base s' := by
  intro later id earlier hsplit other hrefers
  exact (h later id earlier (hresolved ▸ hsplit) other hrefers).imp_right (·.mono hissues)

/-- One more symbol is resolved. -/
theorem Complete.cons (h : Complete file pending base s) {id : SymbolId}
    (hresolved : s'.resolved = id :: s.resolved)
    (hissues : s.program.issues <+: s'.program.issues)
    (hid : ∀ other, pending.AliasRefers base.program id other →
      other ∈ s.resolved ∨ Reported file pending base s' other) :
    Complete file pending base s' := by
  intro later id' earlier hsplit other hrefers
  rw [hresolved] at hsplit
  rcases List.cons_eq_append_iff.mp hsplit with ⟨rfl, hsplit⟩ | ⟨later, rfl, hsplit⟩
  · cases hsplit
    exact hid other hrefers
  · exact (h later id' earlier (List.cons.inj hsplit).2 other hrefers).imp_right (·.mono hissues)

/-- Along a run of the resolution, reports stay complete: an alias that is resolved was preceded by
those it refers to, unless one is reported. -/
theorem Course.complete (h : s.Course file pending active query s') (hbase : base.Advances s)
    (hregular : pending.Regular base.program) (hcomplete : Complete file pending base s) :
    Complete file pending base s' := by
  induction h with
  | quiet h | plain _ h => exact hcomplete.same h.resolved h.steady.issues
  | append h _ ih ih' => exact ih' (hbase.trans h.steady.advances) (ih hbase hcomplete)
  | found _ _ _ ih | named _ _ ih => exact ih hbase hcomplete
  | unknown | unnamed | circular => exact hcomplete.same rfl (List.prefix_append _ _)
  | settles _ _ hdeclarations h _ _ ih =>
    refine (ih hbase hcomplete).cons rfl List.prefix_rfl fun other hrefers => ?_
    obtain ⟨-, ⟨first, rest, hfirst, hleads⟩, hother⟩ := hregular.aliasRefers_iff.mp hrefers
    cases hdeclarations.symm.trans hfirst
    exact h.reaches hbase hregular hother hleads
  | _ => exact hcomplete

/-! ## Circles -/

/-- Aliases that follow each other are resolved one before the other if they are not reported. -/
theorem Complete.resolved_before (h : Complete file pending base s) {others : List SymbolId}
    {id last : SymbolId} {later earlier : List SymbolId}
    (hsplit : s.resolved = later ++ id :: earlier)
    (hchain : List.IsChain (pending.AliasRefers base.program) (id :: others ++ [last]))
    (hnone : ∀ other ∈ others ++ [last], ¬Reported file pending base s other) :
    ∃ later' earlier', s.resolved = later' ++ last :: earlier' ∧
      earlier'.length < earlier.length := by
  induction others generalizing id later earlier with
  | nil =>
    obtain ⟨hrefers, -⟩ := List.isChain_cons_cons.mp hchain
    have hmem := (h later id earlier hsplit last hrefers).resolve_right
      (hnone last List.mem_cons_self)
    obtain ⟨between, earlier', rfl⟩ := List.append_of_mem hmem
    refine ⟨later ++ id :: between, earlier', by rw [hsplit]; simp, ?_⟩
    rw [List.length_append, List.length_cons]
    omega
  | cons next others ih =>
    obtain ⟨hrefers, hchain⟩ := List.isChain_cons_cons.mp hchain
    have hmem := (h later id earlier hsplit next hrefers).resolve_right
      (hnone next List.mem_cons_self)
    obtain ⟨between, earlier', rfl⟩ := List.append_of_mem hmem
    have hsplit' : s.resolved = (later ++ id :: between) ++ next :: earlier' := by
      rw [hsplit]
      simp
    obtain ⟨later₂, earlier₂, hlast, hlt⟩ := ih hsplit' hchain fun other hother =>
      hnone other (List.mem_cons_of_mem _ hother)
    refine ⟨later₂, earlier₂, hlast, ?_⟩
    rw [List.length_append, List.length_cons]
    omega

/-- Of the aliases in a circle at least one is reported. -/
theorem Complete.exists_reported (h : Complete file pending base s)
    (hall : ∀ id, pending.IsAlias id → id ∈ s.resolved) {first : SymbolId} {others : List SymbolId}
    (hchain : List.IsChain (pending.AliasRefers base.program) (first :: others ++ [first])) :
    ∃ id ∈ first :: others, Reported file pending base s id := by
  by_contra hnone
  have hnone' : ∀ other ∈ others ++ [first], ¬Reported file pending base s other := by
    intro other hother hreported
    refine hnone ⟨other, ?_, hreported⟩
    exact List.mem_cons.mpr (List.mem_append.mp hother |>.symm.imp_left List.mem_singleton.mp)
  have hfirst : pending.IsAlias first := by
    cases others with
    | nil => exact (List.isChain_cons_cons.mp hchain).1.2
    | cons next others =>
      obtain ⟨⟨⟨scope, span, type, hmem, -⟩, -⟩, -⟩ := List.isChain_cons_cons.mp hchain
      exact ⟨scope, span, type, hmem⟩
  -- wherever the first alias stands, it stands once more before that
  have hdescends (n : Nat) : ∀ later earlier, s.resolved = later ++ first :: earlier →
      earlier.length ≠ n := by
    induction n using Nat.strongRecOn with
    | ind n ih =>
      rintro later earlier hsplit rfl
      obtain ⟨later', earlier', hsplit', hlt⟩ := h.resolved_before hsplit hchain hnone'
      exact ih earlier'.length hlt later' earlier' hsplit' rfl
  obtain ⟨later, earlier, hsplit⟩ := List.append_of_mem (hall first hfirst)
  exact hdescends earlier.length later earlier hsplit rfl

end ResolveState

/-! ## Compiled files -/

namespace Program

variable {program : Program} {file : SourceFile}

namespace Compiled

variable (h : program.Compiled) {text : List Char}
  (hplaced : ∀ statement ∈ file.statements, statement.Placed text)
include h hplaced

/-- When everything is resolved, aliases that are reported refer to themselves, and those that are
resolved refer to such as were resolved before or are reported. -/
theorem resolvedIn_circularity :
    let base : ResolveState := ⟨(program.boundIn file).2, []⟩
    let pending := Resolve.pendingOf (program.boundIn file).1.2
    base.Advances (program.resolvedIn file) ∧
      ResolveState.Sound ⟨program.files.size⟩ pending base (program.resolvedIn file) ∧
      ResolveState.Complete ⟨program.files.size⟩ pending base (program.resolvedIn file) := by
  intro base pending
  obtain ⟨hrun, -⟩ := h.recordedIn hplaced (List.Subset.refl _)
  rw [program.recordedIn_bound file] at hrun
  have hregular := h.regular hplaced
  refine Guarded.recording_keep hregular.sorted hrun
    (motive := fun s => ResolveState.Sound ⟨program.files.size⟩ pending base s ∧
      ResolveState.Complete ⟨program.files.size⟩ pending base s) ⟨?_, ?_⟩ ?_ ?_ ?_
  · intro issue hissue
    rw [ResolveState.reportsSince, List.drop_length] at hissue
    cases hissue
  · intro later id earlier hsplit
    cases (List.append_eq_nil_iff.mp hsplit.symm).2
  · rintro query s₁ s₂ hbase hcourse ⟨hsound, hcomplete⟩
    exact ⟨hcourse.sound hbase hregular (.nothing query) hsound,
      hcourse.complete hbase hregular hcomplete⟩
  · rintro id s₁ s₂ hbase hsort hshapes ⟨hsound, hcomplete⟩
    refine ⟨hsound.same hshapes.issues, hcomplete.cons hshapes.order hshapes.steady.issues ?_⟩
    rintro other ⟨⟨scope, span, type, hmem, -⟩, -⟩
    have hof := hregular.sorts id _ hmem
    have hgrows := hbase.symbol (hregular.sorted.hasSymbol_of_declares ⟨_, hmem⟩)
    rw [hgrows.sort] at hsort
    rw [hsort] at hof
    cases hof
  · rintro a s₁ s₂ - hbase hrecorded ⟨hsound, hcomplete⟩
    cases hrecorded with
    | unknown | constant =>
      exact ⟨hsound.reported hbase _ nofun, hcomplete.same rfl (List.prefix_append _ _)⟩
    | other => exact ⟨hsound, hcomplete⟩
    | value _ _ _ hvalue hgoesOn hsame hresolved =>
      refine ⟨(hvalue.sound hbase hregular (.nothing _) hsound).same hsame,
        (hvalue.complete hbase hregular hcomplete).same hresolved ?_⟩
      rw [hsame]

/-- Aliases refer to each other as they did when the names of the file were bound. -/
theorem aliasRefers_add :
    (Resolve.pendingOf (program.boundIn file).1.2).AliasRefers (program.add file).2 =
      (Resolve.pendingOf (program.boundIn file).1.2).AliasRefers (program.boundIn file).2 := by
  obtain ⟨-, -, -, -, hbound⟩ := h.wellFormed.boundIn hplaced
  funext id other
  refine propext (and_congr_left fun _ => exists_congr fun scope => exists_congr fun span =>
    exists_congr fun type => and_congr_right fun hmem => ?_)
  have hscope : (program.boundIn file).2.HasScope scope :=
    (hbound _ (Resolve.mem_pendingOf.mp hmem)).fits.1
  refine exists_congr fun name => and_congr_right fun _ => and_congr_right fun _ => ?_
  rw [(h.resolves_eq hplaced (.refl _) hscope name.text).2]

/-- The aliases of a file that are reported refer to themselves, and one is reported of every circle
of aliases. -/
theorem aliases_reported :
    let pending := Resolve.pendingOf (program.boundIn file).1.2
    let after := (program.add file).2
    ∃ added, after.issues = program.issues ++ added ∧
      (∀ issue ∈ added, ∀ name, issue.issue.problem = .circularAlias name →
        ∃ id scope span type, (id, .typeAlias scope span type) ∈ pending ∧
          issue = ⟨file.name, ⟨span, .circularAlias (after.symbol id).name⟩⟩ ∧
          TransGen (pending.AliasRefers after) id id) ∧
      ∀ first others, List.IsChain (pending.AliasRefers after) (first :: others ++ [first]) →
        ∃ id ∈ first :: others, ∃ scope span type, (id, .typeAlias scope span type) ∈ pending ∧
          ⟨file.name, ⟨span, .circularAlias (after.symbol id).name⟩⟩ ∈ added := by
  intro pending after
  have hregular := h.regular hplaced
  obtain ⟨hadvances, hsound, hcomplete⟩ := h.resolvedIn_circularity hplaced
  obtain ⟨hname, -⟩ := boundIn_hands h.sorted file
  obtain ⟨refused, hrefused, htaken⟩ := boundIn_issues h.sorted file
  obtain ⟨-, -, -, hresolved⟩ := h.recordedIn hplaced (List.Subset.refl _)
  rw [program.recordedIn_bound file] at hresolved
  -- an alias is reported under the name of the file, with the name of its symbol
  have hissue {id : SymbolId} {span : Span}
      (hspan : Resolve.aliasSpan? (pending.declarationsOf id) = some span) :
      (program.boundIn file).2.circularIssue ⟨program.files.size⟩ span id =
        ⟨file.name, ⟨span, .circularAlias (after.symbol id).name⟩⟩ := by
    obtain ⟨_, _, _, hmem⟩ := Pending.isAlias_of_aliasSpan? hspan
    have hid := hregular.sorted.hasSymbol_of_declares ⟨_, hmem⟩
    rw [← hadvances.circularIssue_eq hid, Program.circularIssue, fileName, hadvances.files]
    exact congrArg (fun name => FileIssue.mk name _) hname
  have hdeclared {id : SymbolId} {span : Span}
      (hspan : Resolve.aliasSpan? (pending.declarationsOf id) = some span) :
      ∃ scope type, (id, .typeAlias scope span type) ∈ pending := by
    obtain ⟨scope, type, hmem⟩ := Resolve.aliasSpan?_eq_some hspan
    exact ⟨scope, type, Pending.mem_of_mem_declarationsOf hmem⟩
  rw [show pending.AliasRefers after = pending.AliasRefers (program.boundIn file).2 from
    h.aliasRefers_add hplaced]
  refine ⟨refused ++ ResolveState.reportsSince ⟨(program.boundIn file).2, []⟩
    (program.resolvedIn file), ?_, ?_, ?_⟩
  · rw [← List.append_assoc, ← hrefused]
    exact hadvances.reports_eq
  · intro issue hmem name hproblem
    rcases List.mem_append.mp hmem with hmem | hmem
    · obtain ⟨name', rfl⟩ := htaken issue hmem
      cases hproblem
    · obtain ⟨id, span, hspan, heq, hpath⟩ := hsound issue hmem name hproblem
      have hid := Pending.isAlias_of_aliasSpan? hspan
      obtain ⟨scope, type, hmem⟩ := hdeclared hspan
      exact ⟨id, scope, span, type, hmem, heq.trans (hissue hspan),
        hregular.transGen_aliasRefers hpath (hregular.isType_of_isAlias hid) hid⟩
  · intro first others hchain
    have hall : ∀ id, pending.IsAlias id → id ∈ (program.resolvedIn file).resolved := by
      rintro id ⟨_, _, _, hmem⟩
      exact hresolved id ⟨_, hmem⟩
    obtain ⟨id, hid, span, hspan, hmem⟩ := hcomplete.exists_reported hall hchain
    obtain ⟨scope, type, hdeclaration⟩ := hdeclared hspan
    exact ⟨id, hid, scope, span, type, hdeclaration,
      List.mem_append_right _ (hissue hspan ▸ hmem)⟩

end Compiled

/-- Resolving a text, which may have errors, comes to an end in a program of compiled texts. Of the
aliases that it declares, each that is reported as referring to itself does so, directly or by way
of other aliases; and of every circle of aliases that refer to each other at least one is reported.
Names in a member without a name do not count. -/
theorem circular_aliases_reported (before : List (String × String)) (name text : String) :
    let host := ofTexts before
    let file := (SourceFile.parse name text).tree
    let pending := Resolve.pendingOf (host.boundIn file).1.2
    let program := (host.add file).2
    host.add? file = some (host.add file) ∧ ∃ added, program.issues = host.issues ++ added ∧
      (∀ issue ∈ added, ∀ aliasName, issue.issue.problem = .circularAlias aliasName →
        ∃ id scope span type, (id, .typeAlias scope span type) ∈ pending ∧
          issue = ⟨file.name, ⟨span, .circularAlias (program.symbol id).name⟩⟩ ∧
          TransGen (pending.AliasRefers program) id id) ∧
      ∀ first others, List.IsChain (pending.AliasRefers program) (first :: others ++ [first]) →
        ∃ id ∈ first :: others, ∃ scope span type, (id, .typeAlias scope span type) ∈ pending ∧
          ⟨file.name, ⟨span, .circularAlias (program.symbol id).name⟩⟩ ∈ added := by
  obtain ⟨hcompiled, -⟩ := ofTexts_compiled before
  have hplaced := (SourceFile.parse_placed name text).1
  exact ⟨(hcompiled.wellFormed.add hplaced).1, hcompiled.aliases_reported hplaced⟩

/-- Of two aliases that stand for each other one is reported. -/
theorem circular_aliases_reported_pair :
    let file := (SourceFile.parse "test.d.ts" "type A = B;\ntype B = A[];\n").tree
    let pending := Resolve.pendingOf ((ofTexts []).boundIn file).1.2
    let program := ((ofTexts []).add file).2
    pending.AliasRefers program ⟨1⟩ ⟨2⟩ ∧ pending.AliasRefers program ⟨2⟩ ⟨1⟩ ∧
      ∃ id ∈ [(⟨1⟩ : SymbolId), ⟨2⟩], ∃ span,
        ⟨file.name, ⟨span, .circularAlias (program.symbol id).name⟩⟩ ∈ program.issues := by
  intro file pending program
  have hcircle : pending.AliasRefers program ⟨1⟩ ⟨2⟩ ∧ pending.AliasRefers program ⟨2⟩ ⟨1⟩ := by
    decide +kernel
  obtain ⟨-, added, hissues, -, hreported⟩ :=
    circular_aliases_reported [] "test.d.ts" "type A = B;\ntype B = A[];\n"
  simp only [file, pending, program] at hcircle ⊢
  obtain ⟨id, hid, _, span, _, -, hmem⟩ := hreported ⟨1⟩ [⟨2⟩]
    (.cons_cons hcircle.1 (.cons_cons hcircle.2 (.singleton _)))
  rw [hissues]
  exact ⟨hcircle.1, hcircle.2, id, hid, span, List.mem_append_right _ hmem⟩

/-- An alias that mentions itself in a member without a name is not reported. -/
theorem circular_alias_not_reported :
    let file := (SourceFile.parse "test.d.ts" "type A = \x7b : A \x7d;").tree
    let pending := Resolve.pendingOf (Program.empty.boundIn file).1.2
    let program := (Program.empty.add file).2
    pending.AliasMentions (fun _ => true) program ⟨1⟩ ⟨1⟩ ∧
      ∀ issue ∈ program.issues, ∀ aliasName, issue.issue.problem ≠ .circularAlias aliasName := by
  intro file pending program
  have hmissed : pending.AliasMentions (fun _ => true) program ⟨1⟩ ⟨1⟩ ∧ program.issues = [] := by
    decide +kernel
  refine ⟨hmissed.1, fun issue hissue => ?_⟩
  rw [hmissed.2] at hissue
  cases hissue

end Program

end ExpressionTyping
