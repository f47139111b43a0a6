import ExpressionTyping.CommandLine.Report
import ExpressionTyping.Proofs.Program.Stability
import ExpressionTyping.Proofs.Session.Requests

/-!
# Answers that last

What a session answers about its files it answers for good. Requests only let the program grow, and
a program that grows keeps what it says of the files it had. What a check finds depends on the types
in scope and on the canonical types, and both look to the rules as they did before: the ones are
seen in a grown program from the same location, the others are blank, whichever load they come from
(`issues_eq`). It also does not matter whether a scope is taken before or after a request.

On the command line all expressions are checked in one session, and each check may load the
built-in declarations for those that follow. Since this changes no answer, what is reported on an
expression depends on the expression alone.
-/

set_option autoImplicit false

namespace ExpressionTyping

open Std.Do TypeView

/-- A declared type stays what it is when it becomes a type of a session. -/
theorem SessionType.declared_faithful : Faithful SessionType.declared :=
  ⟨fun _ => rfl, fun _ => rfl, fun _ => rfl, fun _ => rfl⟩

/-- A declared type answers alike over every later program: its text and its kind are the same, and
so is what it says of its members and of its signatures, however far they are followed. -/
theorem DeclaredType.alike_later {program later : Program} (h : program.Sound)
    (hgrows : program.Grows later) {location : Location}
    (hfile : location.file.index < program.files.size) :
    ∃ R : DeclaredType → DeclaredType → Prop, Alike R ∧
      ∀ id : TypeId, id.index < program.types.entries.size →
        R ⟨program, location, id⟩ ⟨later, location, id⟩ := by
  have hmirrors := h.mirrors hgrows (hgrows.scopesAt_eq h.closed hfile)
  exact ⟨hmirrors.Declared, hmirrors.declared_alike, fun _ hid => .mk ⟨rfl, hid⟩⟩

namespace SessionState

/-- The types of the values visible at a location. -/
def scopeAt (s : SessionState) (location : Location) : SymbolTable SessionType :=
  (DeclaredType.symbolTypes s.program location (s.program.symbolsAt location)).map .declared

/-- Asking for the scope at a location changes nothing. -/
theorem scopeAt_runFrom (s : SessionState) (location : Location) :
    (Session.scopeAt location).runFrom s = (.ok (s.scopeAt location), s) :=
  rfl

/-- Asking for the end of a file changes nothing. -/
theorem endOfFile_runFrom {s : SessionState} {file : FileId} {location : Location}
    (hend : s.program.endOfFile? file = some location) :
    (Session.endOfFile file).runFrom s = (.ok location, s) := by
  have hrun : Session.program.runFrom s = (.ok s.program, s) := rfl
  unfold Session.endOfFile
  rw [Session.runFrom_bind, hrun]
  dsimp only
  rw [hend]
  rfl

variable {s t u : SessionState} {location : Location}

/-- The scopes around a location of a file that was there stay. -/
theorem Advances.scopesAt_eq (h : s.Good) (ht : s.Advances t)
    (hfile : location.file.index < s.program.files.size) :
    t.program.scopesAt location = s.program.scopesAt location :=
  ht.grows.scopesAt_eq h.sound.closed hfile

/-- A scope that a later program still has pairs the same names with types that are alike in both
programs. -/
theorem scopeAt_pairs (h : s.Good) (ht : s.Advances t)
    (hscopes : t.program.scopesAt location = s.program.scopesAt location) :
    (s.scopeAt location).Pairs
      (Relation.Map (h.sound.mirrors ht.grows hscopes).Declared SessionType.declared
        SessionType.declared) (t.scopeAt location) := by
  have hsymbols : List.Forall₂ s.program.SameSymbol (s.program.symbolsAt location)
      (t.program.symbolsAt location) := by
    rw [ht.grows.symbolsAt_eq h.sound.closed hscopes]
    exact List.forall₂_same.mpr fun id hid => ⟨rfl, h.sound.closed.symbolsAt_lt id hid⟩
  refine ((h.sound.mirrors ht.grows hscopes).symbolTypes_pairs hsymbols).map ?_
  intro type type' htype
  exact ⟨type, type', htype, rfl, rfl⟩

variable {source : String} (hload : Session.Loads (Session.loadBuiltIns source))
include hload

/-- A scope taken now or later leads to the same issues, whenever the check is made. -/
theorem issues_eq (h : s.Good) (ht : s.Advances t) (hu : u.Good)
    (hfile : location.file.index < s.program.files.size) (e : Expr) :
    u.issues (Session.loadBuiltIns source) (t.scopeAt location) e =
      s.issues (Session.loadBuiltIns source) (s.scopeAt location) e := by
  have hscopes := ht.scopesAt_eq h hfile
  have hscope := scopeAt_pairs h ht hscopes
  have hdeclared := SessionType.declared_faithful.alike
    (h.sound.mirrors ht.grows hscopes).declared_alike
  have hanswer : ∀ kind, kind ≠ .other → SameOrBlank (s.answer (Session.loadBuiltIns source) kind)
      (u.answer (Session.loadBuiltIns source) kind) := by
    intro kind _
    exact .blank (h.answer_isBlank hload kind) (hu.answer_isBlank hload kind)
  -- members of types in scope are seen in the grown program, results of operators are canonical
  unfold issues
  rw [(sameOrBlank_alike.or hdeclared).infer_issues (fun kind hkind => .inl (hanswer kind hkind))
    (hscope.imp fun _ _ => .inr)]

end SessionState

/-- What a session in a state answers about what its program has by then is what it answers after
any further requests. -/
structure SessionState.Lasting (source : String) (s : SessionState) : Prop where
  /-- At a location of a file, the names in scope, and what is found in an expression whose names
  are bound by the scope, wherever in the course of requests the scope is taken and the expression
  is checked. -/
  checks : ∀ location : Location, location.file.index < s.program.files.size →
    ∃ (names : List String) (issuesOf : Expr → List Issue), ∀ before : List Request, ∃ scope,
      ((Session.scopeAt location).runFrom (s.after source before)).1 = .ok scope ∧
      scope.names = names ∧
      ∀ (between : List Request) (e : Expr),
        ((e.check (Session.typeOf source) scope).runFrom
          ((s.after source before).after source between)).1 = .ok (issuesOf e)
  symbolsAt : ∀ location : Location, location.file.index < s.program.files.size →
    ∀ requests, (s.after source requests).program.symbolsAt location =
      s.program.symbolsAt location
  typeAt : ∀ location : Location, location.file.index < s.program.files.size →
    ∀ requests (id : SymbolId), id.index < s.program.symbols.size →
      (s.after source requests).program.typeAt id location = s.program.typeAt id location
  symbol : ∀ requests (id : SymbolId), id.index < s.program.symbols.size →
    (s.after source requests).program.symbol id = s.program.symbol id
  typeText : ∀ requests (id : TypeId), id.index < s.program.types.entries.size →
    (s.after source requests).program.typeText id = s.program.typeText id
  flags : ∀ requests (id : TypeId), id.index < s.program.types.entries.size →
    (s.after source requests).program.flags id = s.program.flags id
  properties : ∀ requests (id : TypeId), id.index < s.program.types.entries.size →
    (s.after source requests).program.properties id = s.program.properties id
  signatures : ∀ requests (id : TypeId), id.index < s.program.types.entries.size →
    (s.after source requests).program.signatures id = s.program.signatures id

/-- A good session lasts: its answers hold in every state that it can advance to. -/
theorem SessionState.Good.lasting {source : String} {s : SessionState} (h : s.Good)
    (hload : Session.Loads (Session.loadBuiltIns source)) : s.Lasting source := by
  have hafter := fun requests => h.advances_after hload requests
  have hscopes : ∀ location : Location, location.file.index < s.program.files.size →
      ∀ requests, (s.after source requests).program.scopesAt location =
        s.program.scopesAt location :=
    fun location hfile requests => (hafter requests).scopesAt_eq h hfile
  constructor
  case checks =>
    intro location hfile
    refine ⟨(s.scopeAt location).names,
      s.issues (Session.loadBuiltIns source) (s.scopeAt location), ?_⟩
    intro before
    refine ⟨_, rfl, (scopeAt_pairs h (hafter before) (hscopes location hfile before)).names, ?_⟩
    intro between e
    have hlater := (hafter before).good.advances_after hload between
    obtain ⟨s', -, hrun⟩ := Session.yields_iff_runFrom.mp
      (Session.check_yields hload hlater.good ((s.after source before).scopeAt location) e) _
      (.inl rfl)
    rw [issues_eq hload h (hafter before) hlater.good hfile e] at hrun
    exact congrArg Prod.fst hrun
  case symbolsAt =>
    intro location hfile requests
    exact (hafter requests).grows.symbolsAt_eq h.sound.closed (hscopes location hfile requests)
  case typeAt =>
    intro location hfile requests id hid
    exact (hafter requests).grows.typeAt_eq h.sound.closed (hscopes location hfile requests) hid
  case symbol => exact fun requests id hid => (hafter requests).grows.symbol_eq hid
  case typeText => exact fun requests id hid => h.sound.typeText_eq (hafter requests).grows hid
  case flags => exact fun requests id hid => (hafter requests).grows.flags_eq hid
  case properties => exact fun requests id hid => (hafter requests).grows.properties_eq hid
  case signatures => exact fun requests id hid => (hafter requests).grows.signatures_eq hid

/-- A type that was handed out over the program of a session answers alike over the program that the
session has after any further requests. -/
theorem SessionState.Good.declared_alike {source : String} {s : SessionState} (h : s.Good)
    (hload : Session.Loads (Session.loadBuiltIns source)) (requests : List Request)
    {location : Location} (hfile : location.file.index < s.program.files.size) :
    ∃ R : DeclaredType → DeclaredType → Prop, Alike R ∧
      ∀ id : TypeId, id.index < s.program.types.entries.size →
        R ⟨s.program, location, id⟩ ⟨(s.after source requests).program, location, id⟩ :=
  DeclaredType.alike_later h.sound (h.advances_after hload requests).grows hfile

/-! ## Reports on the command line -/

namespace CommandLine

namespace Report

/-- The reports on an expression, given its name, its text and what is wrong with it. -/
def group (name text : String) (issues : List Issue) : List Report :=
  issues.map fun issue => ⟨issue.diagnostic (some name), text⟩

/-- The reports on expressions, given their texts and what is wrong with them, which are numbered
in order. -/
def numbered : (first : Nat) → List (String × List Issue) → List Report
  | _, [] => []
  | first, (text, issues) :: rest =>
    group s!"<expr {first}>" text issues ++ numbered (first + 1) rest

/-- What is wrong with the text of an expression, which is checked only if it can be parsed. -/
def issuesIn (issuesOf : Expr → List Issue) (text : String) : List Issue :=
  let parsed := Expr.parse text
  if parsed.issues.isEmpty then issuesOf parsed.tree else parsed.issues

variable {m : Type → Type} {ps : PostShape} [Monad m] [WPMonad m ps] {inv : Assertion ps}
  {check : Expr → m (List Issue)} {issuesOf : Expr → List Issue}

/-- Checks that each yield their issues yield, on an expression, the group of its issues. -/
theorem ofExpression_yields (h : ∀ e, Yields inv (check e) (issuesOf e)) (name text : String) :
    Yields inv (ofExpression check name text) (group name text (issuesIn issuesOf text)) := by
  unfold ofExpression issuesIn
  dsimp only
  split
  · exact (h _).bind (Yields.pure inv _)
  · exact (Yields.pure inv _).bind (Yields.pure inv _)

/-- Checks that each yield their issues yield, on numbered expressions, the group of each. -/
theorem ofExpressions_yields (h : ∀ e, Yields inv (check e) (issuesOf e)) (first : Nat)
    (texts : List String) :
    Yields inv (ofExpressions check first texts)
      (numbered first (texts.map fun text => (text, issuesIn issuesOf text))) := by
  induction texts generalizing first with
  | nil => exact Yields.pure inv []
  | cons text rest ih =>
    refine (ofExpression_yields h s!"<expr {first}>" text).bind ?_
    refine (ih (first + 1)).bind ?_
    exact Yields.pure inv _

end Report

namespace Environment

/-- The reports on a file of declarations. -/
def contextReports (name text : String) (parsed : Parsed SourceFile) (program : Program) :
    List Report :=
  (parsed.issues.map (Issue.diagnostic (some name)) ++
    program.issues.map FileIssue.diagnostic).map (⟨·, text⟩)

/-- The steps of a session on the command line. -/
theorem sessionReports_runFrom {name text source : String} {expressions : List String}
    {s s' : SessionState} {parsed : Parsed SourceFile} {file : FileId} {program : Program}
    {location : Location} {reports : List Report} (hparsed : SourceFile.parse name text = parsed)
    (hadd : s.program.add parsed.tree = (file, program))
    (hend : program.endOfFile? file = some location)
    (hreports : (Report.ofExpressions (fun e => e.check (Session.typeOf source)
      (SessionState.scopeAt ⟨s.cache, program⟩ location)) 1 expressions).runFrom
        ⟨s.cache, program⟩ = (.ok reports, s')) :
    (sessionReports name text source expressions).runFrom s =
      (.ok (contextReports name text parsed program ++ reports), s') := by
  have hprogram : Session.program.runFrom s = (.ok s.program, s) := rfl
  have hset : Session.runFrom (liftM (set program : Compile Unit)) s =
      (.ok (), ⟨s.cache, program⟩) := rfl
  have hlocation : (Session.endOfFile file).runFrom ⟨s.cache, program⟩ =
      (.ok location, ⟨s.cache, program⟩) := SessionState.endOfFile_runFrom hend
  unfold sessionReports
  rw [hparsed]
  simp only [Session.runFrom_bind, hprogram, hadd, hset, hlocation, SessionState.scopeAt_runFrom,
    hreports]
  rfl

/-- The reports of a run are those that asking a new session gives. -/
theorem reports_eq (name text source : String) (expressions : List String) :
    (declared name text source).reports expressions =
      ((sessionReports name text source expressions).runFrom .start).1 := by
  unfold reports
  dsimp only
  generalize sessionReports name text source expressions = action
  rfl

/-- What is reported on the declarations does not depend on the expressions, and what is wrong with
an expression depends on its text alone. -/
theorem reports_declared (name text : String) :
    ∃ (context : List Report) (issuesOf : String → List Issue), ∀ expressions : List String,
      (declared name text Session.defaultBuiltIns).reports expressions =
        .ok (context ++
          Report.numbered 1 (expressions.map fun text => (text, issuesOf text))) := by
  have hload := Session.defaultBuiltIns_loads
  generalize hparsed : SourceFile.parse name text = parsed
  have hsound := Program.empty_sound.add parsed.tree
  have hfile := Program.empty_add_file_lt parsed.tree
  generalize hadd : Program.empty.add parsed.tree = added at hsound hfile
  obtain ⟨file, program⟩ := added
  have hend : program.endOfFile? file = some ⟨file, program.files[file.index].length⟩ := by
    unfold Program.endOfFile?
    rw [Array.getElem?_eq_getElem hfile]
    rfl
  -- all expressions are checked from this state or the one after the load, which answer alike
  let s : SessionState := ⟨.empty, program⟩
  have hgood : s.Good := ⟨hsound, nofun⟩
  let scope := s.scopeAt ⟨file, program.files[file.index].length⟩
  refine ⟨contextReports name text parsed program, Report.issuesIn
    (s.issues (Session.loadBuiltIns Session.defaultBuiltIns) scope), ?_⟩
  intro expressions
  have hyields := Report.ofExpressions_yields (Session.check_yields hload hgood scope) 1 expressions
  obtain ⟨s', -, hreports⟩ := Session.yields_iff_runFrom.mp hyields s (.inl rfl)
  rw [reports_eq, sessionReports_runFrom (s := .start) hparsed hadd hend hreports]

end Environment

end CommandLine

/-! ## The answers of a session -/

open CommandLine in
/-- Whatever was asked of a session with the default built-in declarations, what it then answers
about what its program has lasts. So the reports on expressions in one session are made of groups,
one for each expression, that do not depend on the other expressions: listed in another order, the
expressions have the same groups in that order. -/
theorem Session.answers_last (earlier : List Request) :
    (SessionState.start.after defaultBuiltIns earlier).Lasting defaultBuiltIns ∧
    ∀ name text : String, ∃ (context : List Report) (issuesOf : String → List Issue),
      ∀ expressions : List String,
        (Environment.declared name text defaultBuiltIns).reports expressions =
          .ok (context ++ Report.numbered 1 (expressions.map fun text => (text, issuesOf text))) :=
  ⟨(SessionState.start_advances earlier).good.lasting defaultBuiltIns_loads,
    Environment.reports_declared⟩

/-- The symbol at the name of a variable that was added is the same after any further requests. -/
theorem Session.answers_last_variable :
    let s := SessionState.start.after defaultBuiltIns
      [.addFile (SourceFile.parse "a.d.ts" "declare let n: number;").tree]
    0 < s.program.files.size ∧
      ∀ requests, (s.after defaultBuiltIns requests).program.symbolsAt ⟨⟨0⟩, 22⟩ = [⟨1⟩] := by
  intro s
  have hfile : 0 < s.program.files.size := by decide +kernel
  have hsymbols : s.program.symbolsAt ⟨⟨0⟩, 22⟩ = [⟨1⟩] := by decide +kernel
  refine ⟨hfile, ?_⟩
  intro requests
  rw [(answers_last _).1.symbolsAt ⟨⟨0⟩, 22⟩ hfile requests, hsymbols]

end ExpressionTyping
