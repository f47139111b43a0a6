import ExpressionTyping.Proofs.Program.Referring
import ExpressionTyping.Proofs.Program.Stages

/-!
# How often a name is reported

A name that leads nowhere is reported whenever it is looked up, so what a run of resolution reports
is what the names say that it looks up. To resolve a symbol is to look up what its declarations ask
for, and that happens once, however often the symbol is asked for. So over any run the reports of a
name balance with what the symbols ask for that got resolved meanwhile
(`ResolveState.Course.balance`), and when everything is resolved every declaration has been paid for
once (`Guarded.recording_tallies`).
-/

set_option autoImplicit false

namespace ExpressionTyping

/-! ## What is reported of names -/

/-- The report of a name that is not known. -/
def Identifier.unknown (file : String) (name : Identifier) : FileIssue :=
  ⟨file, ⟨name.node.span, .unknownName name.text⟩⟩

/-- Whether what is reported is a name that is not known. -/
def FileIssue.isUnknownName (issue : FileIssue) : Bool :=
  match issue.issue.problem with
  | .unknownName _ => true
  | _ => false

namespace Program

variable (program : Program)

/-- Whether the name of a type leads nowhere. -/
def isUnknownType (use : ScopeId × Identifier) : Bool :=
  (program.resolveType? use.1 use.2.text).isNone && use.2.text ≠ "Function" &&
    use.2.text ≠ "Object"

/-- Whether the name of a value leads nowhere. -/
def isUnknownValue (use : ScopeId × Identifier) : Bool :=
  (program.resolveValue? use.1 use.2.text).isNone && use.2.text ≠ "undefined"

/-- The reports of names of types that lead nowhere. -/
def unknownTypes (file : String) (uses : List (ScopeId × Identifier)) : List FileIssue :=
  (uses.filter program.isUnknownType).map fun use => use.2.unknown file

/-- The reports of names of values that lead nowhere. -/
def unknownValues (file : String) (uses : List (ScopeId × Identifier)) : List FileIssue :=
  (uses.filter program.isUnknownValue).map fun use => use.2.unknown file

variable {program}

/-- The unknown types among uses in a row are those of the first, then those of the others. -/
theorem unknownTypes_append (file : String) (uses uses' : List (ScopeId × Identifier)) :
    program.unknownTypes file (uses ++ uses') =
      program.unknownTypes file uses ++ program.unknownTypes file uses' := by
  unfold unknownTypes
  rw [List.filter_append, List.map_append]

/-- The unknown types among uses listed for several things are listed for each in turn. -/
theorem unknownTypes_flatMap {α : Type} (file : String) (list : List α)
    (uses : α → List (ScopeId × Identifier)) :
    program.unknownTypes file (list.flatMap uses) =
      list.flatMap fun a => program.unknownTypes file (uses a) := by
  unfold unknownTypes
  rw [List.filter_flatMap, List.map_flatMap]

end Program

/-- What is reported when something is asked for, apart from what is asked for on the way. -/
def Query.reports (program : Program) (file : String) : Query → List FileIssue
  | .names uses => program.unknownTypes file (uses.filter (·.2.isThere))
  | .value scope name? => program.unknownValues file (name?.toList.map (scope, ·))
  | .symbol _ => []

/-- A missing name is not reported as unknown. -/
theorem Query.reports_missing {program : Program} {file : String} {scope : ScopeId}
    {name : Identifier} (hname : name.isThere = false) :
    (Query.names [(scope, name)]).reports program file = [] := by
  simp [Query.reports, Program.unknownTypes, hname]

/-- Asking for the name of a type reports it where it leads nowhere. -/
theorem Query.reports_name {program : Program} {file : String} {scope : ScopeId}
    {name : Identifier} (hname : name.isThere = true) :
    (Query.names [(scope, name)]).reports program file =
      if program.isUnknownType (scope, name) then [name.unknown file] else [] := by
  rw [Query.reports, List.filter_singleton, hname, cond_true, Program.unknownTypes,
    List.filter_singleton]
  cases program.isUnknownType (scope, name) <;> rfl

/-- Asking for the name of a value reports it where it leads nowhere. -/
theorem Query.reports_value (program : Program) (file : String) (scope : ScopeId)
    (name : Identifier) :
    (Query.value scope (some name)).reports program file =
      if program.isUnknownValue (scope, name) then [name.unknown file] else [] := by
  rw [Query.reports, Program.unknownValues, Option.toList_some, List.map_singleton,
    List.filter_singleton]
  cases program.isUnknownValue (scope, name) <;> rfl

/-- What the declarations of a symbol ask for when it is resolved. -/
def Declarations.asks : List Declaration → Query
  | [] => .names []
  | first :: rest => first.query (first :: rest)

/-- What a symbol asks for when it is resolved. -/
def Pending.asks (pending : Pending) (id : SymbolId) : Query :=
  Declarations.asks (pending.declarationsOf id)

namespace ResolveState

variable {file : FileId} {pending : Pending} {active : List SymbolId} {query : Query}
  {base s s₁ s' : ResolveState} {issue : FileIssue}

/-- What is reported for the symbols that are resolved. -/
def due (base : ResolveState) (file : FileId) (pending : Pending) (s : ResolveState) :
    List FileIssue :=
  s.resolved.flatMap fun id =>
    (pending.asks id).reports base.program (base.program.fileName file)

/-- How often something was reported. -/
def times (issue : FileIssue) (s : ResolveState) : Nat :=
  s.program.issues.count issue

/-- A quiet step reports nothing once more. -/
theorem Quiet.times_eq (h : s.Quiet s') : times issue s' = times issue s :=
  congrArg (List.count issue) h.issues

/-- A quiet step makes no more reports due. -/
theorem Quiet.due_eq (h : s.Quiet s') :
    base.due file pending s' = base.due file pending s := by
  unfold due
  rw [h.resolved]

/-- When a symbol is settled, what is reported for its declarations becomes due. -/
theorem due_settle (id : SymbolId) (type : TypeId) :
    base.due file pending (Guarded.settle s id type) =
      (pending.asks id).reports base.program (base.program.fileName file) ++
        base.due file pending s :=
  rfl

/-- A report is made once more. -/
theorem times_reported (s : ResolveState) (file : FileId) (span : Span) (problem : Problem) :
    times issue (s.reported file span problem) =
      times issue s + [⟨s.program.fileName file, ⟨span, problem⟩⟩].count issue :=
  List.count_append

/-- The resolution keeps the names of files. -/
theorem GoesOn.fileName_eq (h : base.GoesOn s) (file : FileId) :
    s.program.fileName file = base.program.fileName file := by
  unfold Program.fileName
  rw [h.files]

/-- What is not the report of a name does not count. -/
theorem times_reported_other (hissue : issue.isUnknownName = true) (s : ResolveState)
    (file : FileId) (span : Span) {problem : Problem}
    (hother : ∀ name, problem ≠ .unknownName name) :
    times issue (s.reported file span problem) = times issue s := by
  rw [times_reported, List.count_singleton, if_neg, Nat.add_zero]
  intro heq
  rw [← beq_iff_eq.mp heq] at hissue
  cases problem with
  | unknownName name => exact hother name rfl
  | _ => cases hissue

/-- Over a run, the reports of a name balance with what the symbols ask for that got resolved. -/
theorem Course.balance (h : s.Course file pending active query s') (hbase : base.Advances s)
    (hissue : issue.isUnknownName = true) :
    times issue s' + (base.due file pending s).count issue =
      times issue s +
        (query.reports base.program (base.program.fileName file)).count issue +
        (base.due file pending s').count issue := by
  induction h with
  | quiet h =>
    rw [h.times_eq, h.due_eq]
    rfl
  | append h _ ih ih' =>
    have hfirst := ih hbase
    have hsecond := ih' (hbase.trans h.steady.advances)
    rw [Query.reports] at hfirst hsecond ⊢
    rw [List.filter_append, Program.unknownTypes_append, List.count_append]
    omega
  | missing hname =>
    rw [Query.reports_missing hname]
    rfl
  | @found active scope name id s s' hname hfound _ ih =>
    have hrest := ih hbase
    rw [hbase.resolveType?_eq] at hfound
    rw [Query.reports_name hname, if_neg (by simp [Program.isUnknownType, hfound])]
    exact hrest
  | builtIn hname _ hknown =>
    rw [Query.reports_name hname,
      if_neg (by rcases hknown with h | h <;> simp [Program.isUnknownType, h])]
    rfl
  | unknown hname hnone hfunction hobject =>
    rw [hbase.resolveType?_eq] at hnone
    rw [Query.reports_name hname,
      if_pos (by simp [Program.isUnknownType, hnone, hfunction, hobject]), times_reported, hbase.fileName_eq]
    rfl
  | @plain active scope name? s s' hname h =>
    have hreports : (Query.value scope name?).reports base.program
        (base.program.fileName file) = [] := by
      cases name? with
      | none => rfl
      | some name =>
        rw [Query.reports_value, if_neg (by simp [Program.isUnknownValue, (hname name rfl).2])]
    rw [h.times_eq, h.due_eq, hreports]
    rfl
  | named hfound _ ih =>
    have hrest := ih hbase
    rw [hbase.resolveValue?_eq] at hfound
    rw [Query.reports_value, if_neg (by simp [Program.isUnknownValue, hfound])]
    exact hrest
  | unnamed hnone hundefined =>
    rw [hbase.resolveValue?_eq] at hnone
    rw [Query.reports_value, if_pos (by simp [Program.isUnknownValue, hnone, hundefined]),
      times_reported, hbase.fileName_eq]
    rfl
  | circular =>
    rw [times_reported_other hissue _ _ _ (by simp)]
    rfl
  | waiting | settled => rfl
  | @settles active id first rest type s s₁ _ _ hdeclarations _ _ _ ih =>
    have hasked := ih hbase
    have hasks : pending.asks id = first.query (first :: rest) := by
      rw [Pending.asks, hdeclarations]
      rfl
    have htimes : times issue (Guarded.settle s₁ id type) = times issue s₁ := rfl
    rw [htimes, due_settle, hasks, List.count_append]
    change _ = times issue s + 0 + _
    omega

end ResolveState

/-! ## What is looked up in all -/

/-- What is reported of the names in a declaration. -/
def Declaration.reports (program : Program) (file : String) (made : Declaration) :
    List FileIssue :=
  program.unknownTypes file ((made.names Identifier.isThere).filter (·.2.isThere))

/-- Asking for the names in declarations reports what each of them reports. -/
theorem Query.reports_names (program : Program) (file : String) (declarations : List Declaration) :
    (Query.names (declarations.flatMap (Declaration.names Identifier.isThere))).reports program
      file = declarations.flatMap (Declaration.reports program file) := by
  rw [Query.reports, List.filter_flatMap, Program.unknownTypes_flatMap]
  rfl

/-- What is reported when a symbol of a sort gets its members, which only interfaces do. -/
def Declarations.members (program : Program) (file : String) (sort : SymbolSort)
    (declarations : List Declaration) : List FileIssue :=
  if sort = .interface then
    (Query.names (Guarded.memberNames declarations)).reports program file
  else []

/-- The name of a value that a variable is declared to be. -/
def Declaration.values : Declaration → List (ScopeId × Identifier)
  | .variableDecl scope _ none (some initializer) => initializer.valueName?.toList.map (scope, ·)
  | _ => []

/-- The names of values that are looked up for what was bound. -/
def Bound.values : Bound → List (ScopeId × Identifier)
  | .declaration _ made => made.values
  | .assignment a => (a.scope, a.target) :: a.value.valueName?.toList.map (a.scope, ·)

/-- What is reported of names of values: each of them is one of those that are looked up, and leads
nowhere. -/
def Program.ReportsValues (program : Program) (file : String) (uses : List (ScopeId × Identifier))
    (reports : List FileIssue) : Prop :=
  ∀ issue ∈ reports, ∃ use ∈ uses, program.resolveValue? use.1 use.2.text = none ∧
    issue = use.2.unknown file

namespace Program

variable {program : Program} {file : String} {uses uses' : List (ScopeId × Identifier)}
  {reports reports' : List FileIssue}

/-- The values that lead nowhere are reported as unknown. -/
theorem unknownValues_reports :
    program.ReportsValues file uses (program.unknownValues file uses) := by
  intro issue hissue
  obtain ⟨use, hmem, rfl⟩ := List.mem_map.mp hissue
  obtain ⟨huse, hunknown⟩ := List.mem_filter.mp hmem
  rw [isUnknownValue, Bool.and_eq_true] at hunknown
  exact ⟨use, huse, Option.isNone_iff_eq_none.mp hunknown.1, rfl⟩

/-- Reports of values in a row are reports of values. -/
theorem ReportsValues.append (h : program.ReportsValues file uses reports)
    (h' : program.ReportsValues file uses reports') :
    program.ReportsValues file uses (reports ++ reports') :=
  List.forall_mem_append.mpr ⟨h, h'⟩

/-- Reports of values among some uses are such among more. -/
theorem ReportsValues.mono (h : program.ReportsValues file uses reports) (hsub : uses ⊆ uses') :
    program.ReportsValues file uses' reports := by
  intro issue hissue
  obtain ⟨use, huse, hreports⟩ := h issue hissue
  exact ⟨use, hsub huse, hreports⟩

end Program

/-! ## The declarations of one symbol -/

namespace Declaration

/-- Whether a declaration is one of a variable. -/
def isVariable : Declaration → Bool
  | .variableDecl _ _ _ _ => true
  | _ => false

variable {made : Declaration} {sort : SymbolSort} (h : made.isOf sort = true)
include h

/-- A declaration is one of a variable exactly when its symbol is of the sort of one. -/
theorem isVariable_eq : made.isVariable = sort.isVariable := by
  cases made with
  | variableDecl =>
    rw [isOf, Bool.and_eq_true] at h
    exact h.1.symm
  | function | interface | typeAlias =>
    cases of_decide_eq_true h
    rfl

/-- A declaration is one of a function exactly when its symbol is of that sort. -/
theorem isFunction_eq : made.isFunction = decide (sort = .function) := by
  cases made with
  | variableDecl =>
    rw [isOf, Bool.and_eq_true] at h
    cases sort <;> cases h.1 <;> rfl
  | function | interface | typeAlias =>
    cases of_decide_eq_true h
    rfl

end Declaration

namespace Declarations

/-- The declarations that give a symbol its type: of a variable that is declared more than once only
the first. -/
def effective : List Declaration → List Declaration
  | [] => []
  | first :: rest => first :: rest.filter fun made => !made.isVariable

/-- The declarations that declare a variable once more. -/
def repeated : List Declaration → List Declaration
  | [] => []
  | _ :: rest => rest.filter Declaration.isVariable

/-- Every declaration gives a symbol its type or declares a variable once more. -/
theorem effective_append_repeated (declarations : List Declaration) :
    (effective declarations ++ repeated declarations).Perm declarations := by
  cases declarations with
  | nil => rfl
  | cons first rest =>
    exact .cons first (List.perm_append_comm.trans (List.filter_append_perm _ rest))

/-- Interfaces ask for nothing. -/
theorem asks_of_interface {declarations : List Declaration}
    (h : ∀ made ∈ declarations, made.isInterface = true) : asks declarations = .names [] := by
  cases declarations with
  | nil => rfl
  | cons first rest =>
    have hfirst := h first List.mem_cons_self
    cases first with
    | interface => rfl
    | variableDecl | function | typeAlias => cases hfirst

variable {declarations : List Declaration} {sort : SymbolSort}
  (hof : ∀ made ∈ declarations, made.isOf sort = true)
include hof

/-- The declarations of anything but a variable are all effective. -/
theorem effective_eq (hsort : sort.isVariable = false) : effective declarations = declarations := by
  cases declarations with
  | nil => rfl
  | cons first rest =>
    refine congrArg (first :: ·) (List.filter_eq_self.mpr fun made hmade => ?_)
    rw [Declaration.isVariable_eq (hof made (List.mem_cons_of_mem _ hmade)), hsort]
    rfl

/-- Of the declarations of a variable the first one is effective. -/
theorem effective_eq_take (hsort : sort.isVariable = true) :
    effective declarations = declarations.take 1 := by
  cases declarations with
  | nil => rfl
  | cons first rest =>
    refine congrArg (first :: ·) (List.filter_eq_nil_iff.mpr fun made hmade => ?_)
    rw [Declaration.isVariable_eq (hof made (List.mem_cons_of_mem _ hmade)), hsort]
    exact nofun

/-- What is looked up for a symbol are the names in the declarations that give it its type, and the
name of the value that it is declared to be. -/
theorem reports_eq (hsole : sort = .typeAlias → declarations.length ≤ 1) (program : Program)
    (file : String) :
    (asks declarations).reports program file ++ members program file sort declarations =
      (effective declarations).flatMap (Declaration.reports program file) ++
        program.unknownValues file ((declarations.take 1).flatMap Declaration.values) := by
  unfold members
  cases declarations with
  | nil => split <;> rfl
  | cons first rest =>
    have hfirst := hof first List.mem_cons_self
    rw [show (first :: rest).take 1 = [first] from rfl, List.flatMap_singleton]
    cases first with
    | variableDecl scope constant type? initializer =>
      have hsort := Declaration.isVariable_eq hfirst
      rw [if_neg (by rintro rfl; cases hsort), effective_eq_take hof hsort.symm, List.append_nil,
        show (_ :: rest).take 1 = [_] from rfl, List.flatMap_singleton]
      cases type? with
      | none => cases initializer <;> rfl
      | some type => exact (List.append_nil _).symm
    | function scope parameters result =>
      have hsort : sort = .function := of_decide_eq_true hfirst
      have hall : (Declaration.function scope parameters result :: rest).filter
          Declaration.isFunction = Declaration.function scope parameters result :: rest :=
        List.filter_eq_self.mpr fun made hmade => by
          rw [Declaration.isFunction_eq (hof made hmade), decide_eq_true hsort]
      rw [if_neg (by rw [hsort]; exact nofun), effective_eq hof (by rw [hsort]; rfl), asks,
        Declaration.query, hall, Query.reports_names]
      rfl
    | interface scope elements =>
      have hsort : sort = .interface := of_decide_eq_true hfirst
      have hall : (Declaration.interface scope elements :: rest).filter
          Declaration.isInterface = Declaration.interface scope elements :: rest :=
        List.filter_eq_self.mpr fun made hmade => by
          rw [Declaration.isInterface_eq (hof made hmade), decide_eq_true hsort]
      rw [if_pos hsort, effective_eq hof (by rw [hsort]; rfl), Guarded.memberNames, hall,
        Query.reports_names]
      exact (List.append_nil _).symm
    | typeAlias scope span type =>
      have hsort : sort = .typeAlias := of_decide_eq_true hfirst
      have hnone : rest = [] := by
        simpa using hsole hsort
      rw [if_neg (by rw [hsort]; exact nofun), hnone, effective, List.filter_nil,
        List.flatMap_singleton]
      rfl

end Declarations

/-! ## Everything that is looked up -/

/-- What is reported when a symbol gets its members. -/
def Pending.members (program : Program) (file : String) (pending : Pending) (id : SymbolId) :
    List FileIssue :=
  Declarations.members program file (program.symbol id).sort (pending.declarationsOf id)

namespace ResolveState

/-- Names are reported as often as they are among what is reported for the symbols that are resolved
and among some other reports. -/
structure Tallies (base : ResolveState) (file : FileId) (pending : Pending)
    (reports : List FileIssue) (s : ResolveState) : Prop where
  advances : base.Advances s
  count : ∀ issue : FileIssue, issue.isUnknownName = true →
    times issue s =
      times issue base + (base.due file pending s).count issue + reports.count issue

namespace Tallies

variable {file : FileId} {pending : Pending} {base s s' : ResolveState}
  {reports : List FileIssue}

/-- Before anything is resolved, nothing is reported or due. -/
theorem start (hresolved : base.resolved = []) : Tallies base file pending [] base := by
  refine ⟨(Steady.refl base).advances, fun issue _ => ?_⟩
  rw [due, hresolved]
  rfl

variable (h : Tallies base file pending reports s)
include h

/-- A run of the resolution reports what it asks for and what is due for the symbols it resolves. -/
theorem course {query : Query} (hcourse : s.Course file pending [] query s') :
    Tallies base file pending
      (reports ++ query.reports base.program (base.program.fileName file)) s' := by
  refine ⟨h.advances.trans hcourse.steady.advances, fun issue hissue => ?_⟩
  have hbefore := h.count issue hissue
  have hbalance := hcourse.balance h.advances hissue
  rw [List.count_append]
  omega

/-- Nothing is reported and no symbol that asks for anything gets resolved. -/
theorem same (hadvances : s.Advances s') (hissues : s'.program.issues = s.program.issues)
    (hdue : base.due file pending s' = base.due file pending s) :
    Tallies base file pending reports s' := by
  refine ⟨h.advances.trans hadvances, fun issue hissue => ?_⟩
  rw [hdue, ← h.count issue hissue]
  exact congrArg (List.count issue) hissues

/-- A symbol gets its members if it is an interface. -/
theorem interfaceRound (hregular : pending.Regular base.program) {id : SymbolId}
    (hid : pending.Declares id)
    (hround : (Guarded.interfaceRound file pending id).run s = some ((), s')) :
    Tallies base file pending
      (reports ++ pending.members base.program (base.program.fileName file) id) s' := by
  have hsort : (s.program.symbol id).sort = (base.program.symbol id).sort :=
    (h.advances.symbol (hregular.sorted.hasSymbol_of_declares hid)).sort
  unfold Pending.members Declarations.members
  obtain ⟨-, -, ⟨hother, rfl⟩ | ⟨hinterface, s₁, hnames, hshaped⟩⟩ :=
    Guarded.interfaceRound_course id s _ _ hround trivial
  · rw [if_neg (hsort ▸ hother), List.append_nil]
    exact h
  · rw [hsort] at hinterface
    rw [if_pos hinterface]
    refine (h.course hnames).same hshaped.steady.advances hshaped.issues ?_
    have hasks : pending.asks id = .names [] := Declarations.asks_of_interface fun made hmade => by
      rw [Declaration.isInterface_eq (hregular.isOf_of_mem id made hmade),
        decide_eq_true hinterface]
    rw [due, hshaped.order, List.flatMap_cons, hasks]
    rfl

/-- What an assignment reports are names of values, besides what is reported for the symbols that
get resolved. -/
theorem recorded {a : PendingAssignment} (hrecorded : s.Recorded file pending a s') :
    ∃ values, base.program.ReportsValues (base.program.fileName file) (Bound.assignment a).values
        values ∧ Tallies base file pending (reports ++ values) s' := by
  cases hrecorded with
  | unknown hnone =>
    rw [h.advances.resolveValue?_eq] at hnone
    refine ⟨[a.target.unknown (base.program.fileName file)], ?_,
      h.advances.trans (reported_steady s file _ _).advances, fun issue hissue => ?_⟩
    · exact List.forall_mem_singleton.mpr ⟨(a.scope, a.target), List.mem_cons_self, hnone, rfl⟩
    · rw [times_reported, h.advances.fileName_eq, h.count issue hissue, List.count_append,
        Nat.add_assoc]
      rfl
  | constant =>
    refine ⟨[], nofun, h.advances.trans (reported_steady s file _ _).advances,
      fun issue hissue => ?_⟩
    rw [times_reported_other hissue _ _ _ (by simp), List.append_nil]
    exact h.count issue hissue
  | other => exact ⟨[], nofun, by rwa [List.append_nil]⟩
  | value _ _ _ hvalue hgoesOn hissues hresolved =>
    refine ⟨_, ?_, (h.course hvalue).same { hgoesOn with issues := hissues ▸ List.prefix_rfl }
      hissues ?_⟩
    · exact Program.unknownValues_reports.mono (List.subset_cons_self _ _)
    · unfold due
      rw [hresolved]

end Tallies

end ResolveState

open ResolveState in
/-- When everything is resolved, names are reported as often as they are among what is reported for
the symbols, their members, and the assignments. -/
theorem Guarded.recording_tallies {file : FileId} {bound : List Bound} {base s' : ResolveState}
    (hregular : (Resolve.pendingOf bound).Regular base.program) (hresolved : base.resolved = [])
    (hrun : (recording file bound bound).run base = some ((), s')) :
    let pending := Resolve.pendingOf bound
    let name := base.program.fileName file
    ∃ values, base.program.ReportsValues name (bound.flatMap Bound.values) values ∧
      Tallies base file pending
        (pending.symbols.flatMap (pending.members base.program name) ++ values) s' := by
  intro pending name
  obtain ⟨s₁, s₂, hinterfaces, hsymbols, hrecords⟩ := recording_stages hrun
  let members := pending.members base.program name
  have hmembers : Tallies base file pending (pending.symbols.flatMap members) s₁ := by
    refine forM_invariant (motive := fun done => Tallies base file pending (done.flatMap members))
      hinterfaces (.start hresolved) fun done id rest s s' hsplit hround htallies => ?_
    rw [List.flatMap_append, List.flatMap_singleton]
    exact htallies.interfaceRound hregular
      (Pending.declares_of_mem_symbols (hsplit ▸ List.mem_append_cons_self)) hround
  have hdeclared : Tallies base file pending (pending.symbols.flatMap members) s₂ := by
    refine forM_invariant
      (motive := fun _ => Tallies base file pending (pending.symbols.flatMap members))
      hsymbols hmembers fun _ id _ s s' _ hround htallies => ?_
    obtain ⟨-, -, hcourse⟩ := symbolRound_course id s _ _ hround trivial
    simpa [Query.reports] using htallies.course hcourse
  refine forM_invariant (motive := fun done s => ∃ values,
    base.program.ReportsValues name (done.flatMap Bound.values) values ∧
      Tallies base file pending (pending.symbols.flatMap members ++ values) s) hrecords
    ⟨[], nofun, by rwa [List.append_nil]⟩ ?_
  rintro done b rest s s' - hround ⟨values, hvalues, htallies⟩
  rw [List.flatMap_append, List.flatMap_singleton]
  obtain ⟨-, -, ⟨a, rfl, hrecorded⟩ | ⟨-, rfl⟩⟩ := record_recorded b s _ _ hround trivial
  · obtain ⟨more, hmore, htallies⟩ := htallies.recorded hrecorded
    rw [List.append_assoc] at htallies
    exact ⟨values ++ more, (hvalues.mono (List.subset_append_left _ _)).append
      (hmore.mono (List.subset_append_right _ _)), htallies⟩
  · exact ⟨values, hvalues.mono (List.subset_append_left _ _), htallies⟩

end ExpressionTyping
