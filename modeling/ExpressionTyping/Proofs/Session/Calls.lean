import ExpressionTyping.Proofs.Program.Overloads
import ExpressionTyping.Proofs.Session.Permanence

/-!
# Calls of declared functions

The parameters of a function go through several forms before a call of it is judged: those that are
written down, those of a signature, and the arguments that a call may pass. All of them agree on how
many arguments are accepted (`DeclaredType.arguments_of_means`). Since the overloads of a function
become the signatures of one type, in order, a call is judged by the first overload that accepts its
number of arguments, and else by the first of all (`DeclaredType.call_overloaded`).

At the end of a file a name of its scope stands for what the file declares, whatever was added to
the session before or after. So what is found in a call there is known from the text alone
(`Session.call_overloads`).
-/

set_option autoImplicit false

namespace ExpressionTyping

open Std.Do TypeView

/-! ## Numbers of arguments -/

namespace FunctionDeclaration

/-- Whether the last parameter takes every further argument. -/
def hasRest (declaration : FunctionDeclaration) : Bool :=
  declaration.parameters.getLast?.any Parameter.isRest

/-- The fewest arguments that a call has to pass. -/
def least (declaration : FunctionDeclaration) : Nat :=
  if declaration.hasRest then declaration.parameters.length - 1 else declaration.parameters.length

/-- Whether a call may pass so many arguments. -/
def accepts (declaration : FunctionDeclaration) (count : Nat) : Bool :=
  if declaration.hasRest then declaration.parameters.length - 1 ≤ count
  else count = declaration.parameters.length

/-- The word that the result is declared to be. -/
def resultWord? (declaration : FunctionDeclaration) : Option TypeWord :=
  match declaration.result with
  | some (.word _ word) => some word
  | _ => none

end FunctionDeclaration

section Arity

variable {r : Reading} {scope : ScopeId}

/-- The parameters of a signature are as many as those that are written down, and its last one is a
rest parameter if that is. -/
theorem Parameters.Mean.counts {parameters : List Parameter} {types : List (String × TypeId)}
    {hasRest : Bool} (h : Parameters.Mean r scope parameters types hasRest) :
    types.length = parameters.length ∧ hasRest = parameters.getLast?.any Parameter.isRest := by
  induction parameters generalizing types hasRest with
  | nil =>
    cases h
    exact ⟨rfl, rfl⟩
  | cons parameter rest ih =>
    cases h with
    | cons hfirst hrest =>
      obtain ⟨hlength, hlast⟩ := ih hrest
      refine ⟨congrArg (· + 1) hlength, ?_⟩
      cases rest with
      | nil => rfl
      | cons next others => exact hlast

/-- The arguments of a declared signature are accepted and counted as its declaration says. -/
theorem DeclaredType.arguments_of_means (type : DeclaredType) {declaration : FunctionDeclaration}
    {signature : Signature}
    (h : signature.Means r scope declaration.parameters declaration.result) (count : Nat) :
    (type.arguments signature).accepts count = declaration.accepts count ∧
      (type.arguments signature).least = declaration.least ∧
      (type.arguments signature).isFixed = !declaration.hasRest := by
  obtain ⟨hlength, hrest⟩ := h.1.counts
  change signature.hasRest = declaration.hasRest at hrest
  have hlast? : declaration.hasRest = true → ∃ last,
      (signature.parameters.map Prod.snd).getLast? = some last := by
    intro hlast
    refine Option.ne_none_iff_exists'.mp fun hnone => ?_
    have hnil : declaration.parameters = [] := by
      rw [← List.length_eq_zero_iff, ← hlength, List.length_eq_zero_iff]
      exact List.map_eq_nil_iff.mp (List.getLast?_eq_none_iff.mp hnone)
    rw [FunctionDeclaration.hasRest, hnil] at hlast
    cases hlast
  unfold DeclaredType.arguments FunctionDeclaration.accepts FunctionDeclaration.least
  rw [hrest]
  cases hdeclared : declaration.hasRest with
  | false => simp [ArgTypes.accepts, ArgTypes.least, ArgTypes.isFixed, hlength, eq_comm]
  | true =>
    obtain ⟨last, hlast⟩ := hlast? hdeclared
    have hleading : (signature.parameters.map Prod.snd).dropLast.length =
        declaration.parameters.length - 1 := by
      rw [List.length_dropLast, List.length_map, hlength]
    simp only [hlast, if_true]
    split
    · -- one rest parameter of anything leaves the arguments free
      rename_i hany
      have hnil := List.isEmpty_iff.mp (Bool.and_eq_true_iff.mp hany).1
      rw [hnil] at hleading
      simp [ArgTypes.accepts, ArgTypes.least, ArgTypes.isFixed, ← hleading]
    · simp [ArgTypes.accepts, ArgTypes.least, ArgTypes.isFixed, hlength]

end Arity

namespace ArgTypes

variable {τ υ : Type} (f : τ → υ) (arguments : ArgTypes τ)

/-- Mapping the types of arguments keeps which numbers of arguments they accept. -/
theorem accepts_map (count : Nat) : (arguments.map f).accepts count = arguments.accepts count := by
  cases arguments <;> simp [map, accepts]

/-- Mapping the types of arguments keeps how many there are at least. -/
theorem least_map : (arguments.map f).least = arguments.least := by
  cases arguments <;> simp [map, least]

/-- Mapping the types of arguments keeps whether their number is fixed. -/
theorem isFixed_map : (arguments.map f).isFixed = arguments.isFixed := by
  cases arguments <;> rfl

end ArgTypes

/-! ## Calls of overloaded functions -/

/-- What is wrong with a call of overloads, of which none accepts the number of arguments. -/
def FunctionDeclaration.refusal (first : FunctionDeclaration) (count : Nat) : Problem :=
  if first.hasRest then .tooFewArguments first.least count else .argumentCount first.least count

/-- A function that is declared several times is called by the first declaration that accepts the
number of arguments. If there is none, the first declaration is what the call is held against. -/
theorem DeclaredType.call_overloaded {r : Reading} {scope : ScopeId} {type : DeclaredType}
    {overloads : List FunctionDeclaration} (hne : overloads ≠ []) {signatures : List Signature}
    (hget : type.program.types.get type.id = .object none .empty signatures)
    (hsignatures : List.Forall₂ (fun declaration signature =>
      signature.Means r scope declaration.parameters declaration.result) overloads signatures)
    (callSpan calleeSpan : Span) (count : Nat) :
    let verdict := Rule.call callSpan calleeSpan (SessionType.declared type) count
    match overloads.find? fun declaration => declaration.accepts count with
    | some declaration => ∃ signature ∈ signatures,
        signature.Means r scope declaration.parameters declaration.result ∧
        verdict = ⟨[], .given (.declared (type.sibling signature.result))⟩
    | none => ∃ first, overloads.head? = some first ∧
        verdict = ⟨[⟨callSpan, first.refusal count⟩], .canonical .any⟩ := by
  intro verdict
  have hkind : TypeView.kind (SessionType.declared type) ≠ .any := by
    show (type.program.types.get type.id).flags.kind ≠ .any
    rw [hget]
    show (TypeFlags.single TypeFlags.object).kind ≠ .any
    decide
  have hviewed : List.Forall₂ (fun declaration (signature : CallSignature SessionType) =>
      (∃ own ∈ signatures, own.Means r scope declaration.parameters declaration.result ∧
        signature.result = .declared (type.sibling own.result)) ∧
      signature.arguments.accepts count = declaration.accepts count ∧
      signature.arguments.least = declaration.least ∧
      signature.arguments.isFixed = !declaration.hasRest) overloads
        (TypeView.signatures (SessionType.declared type)) := by
    have hmembers := ((List.forall₂_and_left _ _).mpr
      ⟨fun signature (hmem : signature ∈ signatures) => hmem, hsignatures.flip⟩).flip
    show List.Forall₂ _ _ (((type.program.signatures type.id).map _).map _)
    unfold Program.signatures
    rw [hget, List.map_map]
    refine List.forall₂_map_right_iff.mpr (hmembers.imp fun declaration own ⟨hmem, hmeans⟩ => ?_)
    refine ⟨⟨own, hmem, hmeans, rfl⟩, ?_⟩
    show (ArgTypes.map _ _).accepts count = _ ∧ (ArgTypes.map _ _).least = _ ∧
      (ArgTypes.map _ _).isFixed = _
    rw [ArgTypes.accepts_map, ArgTypes.least_map, ArgTypes.isFixed_map]
    exact type.arguments_of_means hmeans count
  have hverdict : verdict = _ := if_neg hkind
  generalize TypeView.signatures (SessionType.declared type) = list at hviewed hverdict
  have hfind := find?_forall₂ (p := fun declaration => declaration.accepts count)
    (q := fun signature => signature.arguments.accepts count) hviewed fun _ _ h => h.2.1.symm
  generalize (list.find? fun signature => signature.arguments.accepts count) = found
    at hfind hverdict
  cases hdeclared : overloads.find? fun declaration => declaration.accepts count with
  | some declaration =>
    rw [hdeclared] at hfind
    cases hfind with
    | some h =>
      obtain ⟨⟨own, hmem, hmeans, hresult⟩, -⟩ := h
      exact ⟨own, hmem, hmeans, hresult ▸ hverdict⟩
  | none =>
    rw [hdeclared] at hfind
    cases hfind
    cases hviewed with
    | nil => exact absurd rfl hne
    | @cons first _ _ _ hfirst _ =>
      obtain ⟨-, -, hleast, hfixed⟩ := hfirst
      refine ⟨first, rfl, ?_⟩
      rw [hverdict, FunctionDeclaration.refusal, ← hleast]
      simp only [hfixed]
      cases first.hasRest <;> rfl

/-! ## Checking a call of a name -/

/-- Issues that are not about nesting come before those of the parts, all of them. -/
theorem CheckState.add_own (s : CheckState) {own : List Issue}
    (hown : ∀ issue ∈ own, issue.isNesting = false) (parts : List Issue) :
    s.add (own ++ parts) = ⟨s.issues ++ own ++ (Check.nestingOnce s.nestingReported parts),
      (s.add parts).nestingReported⟩ := by
  have hany : own.any Issue.isNesting = false := by simpa using hown
  simp [add, Check.nestingOnce_append, Check.nestingOnce_eq_self _ hown, hany]

namespace Check

variable {τ : Type} [TypeView τ] {m : Type → Type} {ps : PostShape} [Monad m] [WPMonad m ps]
  {inv : Assertion ps} {canonical : TypeKind → m τ} {answer : TypeKind → τ}

/-- A call of a name in scope is judged by the type of the name. What is wrong with the call itself
comes before what is wrong with its arguments. -/
theorem visit_call_yields (h : Answers inv canonical answer) {scope : SymbolTable τ}
    {callee : Identifier} {type : τ} (htype : scope.get? callee.text = some type) {depth : Nat}
    (hdepth : depth + 1 < depthLimit) (node : Node) (arguments : List Expr) (s : CheckState) :
    let verdict := Rule.call node.span callee.node.span type arguments.length
    ∃ parts reported,
      Yields inv ((visitAll canonical scope (depth + 1) arguments).run s)
        ((), ⟨s.issues ++ parts, reported⟩) ∧
      Yields inv ((visit canonical scope depth (.call node (.identifier callee) arguments)).run s)
        (verdict.outcome.resolve answer, ⟨s.issues ++ verdict.issues ++ parts, reported⟩) := by
  intro verdict
  obtain ⟨levels, hlevels⟩ : ∃ levels, depthLimit - depth = levels + 2 :=
    ⟨depthLimit - depth - 2, by omega⟩
  have hnext : depthLimit - (depth + 1) = levels + 1 := by omega
  let found := inferAll answer scope (levels + 1) arguments
  have harguments : Yields inv ((visitAll canonical scope (depth + 1) arguments).run s)
      ((), s.add found) := by
    refine visitAll_yields fun e _ s => ?_
    rw [← hnext]
    exact visit_yields h scope (depth + 1) e s
  have hcall := visit_yields h scope depth (.call node (.identifier callee) arguments) s
  have hcallee : Rule.identifier scope callee = ⟨[], .given type⟩ := by
    rw [Rule.identifier, htype]
  have hinfer : infer answer scope (levels + 2) (.call node (.identifier callee) arguments) =
      ⟨verdict.outcome.resolve answer, verdict.issues ++ found⟩ := by
    rw [infer, infer, hcallee]
    rfl
  have hsettled := (Rule.call_onParts node.span callee.node.span type arguments.length).settled
  rw [hlevels, hinfer, CheckState.add_own s hsettled.issues] at hcall
  exact ⟨nestingOnce s.nestingReported found, _, harguments, hcall⟩

end Check

/-! ## Names at the end of a file -/

namespace Program

variable {program later : Program} {location : Location}

/-- What is found from the scopes around a location under a name is what the types of the visible
values have under that name. -/
theorem Sorted.symbolTypes_get? (h : program.Sorted) (hclosed : program.Closed)
    (hgrows : program.Grows later) (hfile : location.file.index < program.files.size)
    {name : String} {id : SymbolId}
    (hfound : (program.scopesAt location).reverse.findSome?
      (fun scope => (program.scope scope).values.get? name) = some id) :
    (DeclaredType.symbolTypes later location (later.symbolsAt location)).get? name =
      some ⟨later, location, program.typeAt id location⟩ := by
  have hscopes := hgrows.scopesAt_eq hclosed hfile
  have hentries : (later.symbolsAt location).map (fun id => ((later.symbol id).name,
        (⟨later, location, later.typeAt id location⟩ : DeclaredType))) =
      (program.symbolsAt location).map fun id =>
        ((program.symbol id).name, ⟨later, location, program.typeAt id location⟩) := by
    rw [hgrows.symbolsAt_eq hclosed hscopes]
    refine List.map_congr_left fun id hid => ?_
    have hlt := hclosed.symbolsAt_lt id hid
    rw [hgrows.symbol_eq hlt, hgrows.typeAt_eq hclosed hscopes hlt]
  obtain ⟨hmem, rfl⟩ := (h.mem_symbolsAt location name id).mpr hfound
  let table : SymbolTable DeclaredType := ⟨(program.symbolsAt location).map fun id =>
    ((program.symbol id).name, ⟨later, location, program.typeAt id location⟩)⟩
  have honce : (table.entries.map Prod.fst).Nodup := by
    rw [List.map_map]
    show ((program.symbolsAt location).map fun id => (program.symbol id).name).Nodup
    rw [h.names_symbolsAt]
    exact nodup_eraseDups _
  unfold DeclaredType.symbolTypes
  rw [hentries, SymbolTable.get?_ofList, SymbolTable.lookup_reverse honce]
  exact (SymbolTable.get?_eq_some_iff honce).mpr (List.mem_map_of_mem hmem)

/-- At the end of a file only the scope of the file is left. -/
theorem Opens.scopesAt_end {file : FileId} {length next : Nat} {top : ScopeId}
    {list : List Statement} (h : program.Opens file length
      (⟨top, [], ⟨0, length⟩⟩ :: blocksOf [top] next list))
    (hnests : nestsAll 0 length list) :
    program.scopesAt ⟨file, length⟩ = [top] := by
  rw [h.scopesAt (blocksOf_enclosed list (List.cons_ne_nil top []) next), if_pos (Nat.le_refl _),
    blocksAt_outside list hnests (.inr (Nat.le_refl _))]
  rfl

end Program

/-! ## Files of a session -/

/-- A file that is added on a request was parsed. -/
def Request.IsParsed : Request → Prop
  | addFile file => ∃ name text, file = (SourceFile.parse name text).tree
  | _ => True

namespace SessionState

variable {s t : SessionState}

/-- A request for a parsed file leaves a compiled program, as does any other. -/
theorem Good.compiled_act {source : String}
    (hload : Session.Loads (Session.loadBuiltIns source)) (h : s.Good)
    (hcompiled : s.program.Compiled) {request : Request} (hparsed : request.IsParsed) :
    ((request.act source).runFrom s).2.program.Compiled := by
  rcases h.act_cases hload request with ⟨file, rfl, heq⟩ | heq | heq
  · obtain ⟨name, text, rfl⟩ := hparsed
    rw [heq]
    dsimp only
    exact hcompiled.add (SourceFile.parse_placed name text).1
  · rw [heq]
    exact hcompiled
  · rw [heq]
    show (if s.cache.isLoaded then s.program else _).Compiled
    split
    · exact hcompiled
    · rw [Session.loadBuiltIns_run]
      dsimp only
      exact hcompiled.add (SourceFile.parse_placed Session.builtInsName source).1

/-- Requests whose files are parsed leave a good session's program compiled. -/
theorem Good.compiled_after {source : String}
    (hload : Session.Loads (Session.loadBuiltIns source)) (h : s.Good)
    (hcompiled : s.program.Compiled) {requests : List Request}
    (hparsed : ∀ request ∈ requests, request.IsParsed) :
    (s.after source requests).program.Compiled := by
  induction requests generalizing s with
  | nil => exact hcompiled
  | cons request rest ih =>
    obtain ⟨hfirst, hrest⟩ := List.forall_mem_cons.mp hparsed
    exact ih (h.advances_act hload request).good (h.compiled_act hload hcompiled hfirst) hrest

/-- At the end of a file that was added, a name that its scope has from functions only is in scope
with their signatures. -/
theorem scopeAt_overloads (hcompiled : s.program.Compiled) {file : SourceFile} {text : List Char}
    (hplaced : ∀ statement ∈ file.statements, statement.Placed text)
    (hnests : nestsAll 0 file.node.span.stop file.statements) {name : String}
    (hname : name ∉ fileVariablesOf file.statements)
    (hne : overloadsOf name file.statements ≠ [])
    (hgrows : (s.program.add file).2.Grows t.program) :
    t.program.endOfFile? ⟨s.program.files.size⟩ =
        some ⟨⟨s.program.files.size⟩, file.node.span.stop⟩ ∧
      ∃ top type signatures,
        ((s.program.add file).2.file? ⟨s.program.files.size⟩).bind
          (fun info => info.scopes.head?) = some top ∧
        (t.scopeAt ⟨⟨s.program.files.size⟩, file.node.span.stop⟩).get? name =
          some (.declared ⟨t.program, ⟨⟨s.program.files.size⟩, file.node.span.stop⟩, type⟩) ∧
        t.program.types.get type = .object none .empty signatures ∧
        (∀ signature ∈ signatures, (s.program.add file).2.HasType signature.result) ∧
        List.Forall₂ (fun declaration signature => signature.Means
            ((s.program.add file).2.reading ⟨s.program.files.size⟩) top declaration.parameters
            declaration.result)
          (overloadsOf name file.statements) signatures := by
  have hadded := hcompiled.add hplaced
  have hopens := hcompiled.add_opens hplaced
  obtain ⟨id, signatures, hfound, hid, hget, hmeans⟩ := hcompiled.overloads hplaced hname hne
  generalize (s.program.add file).2 = added at *
  obtain ⟨info, hinfo, heq⟩ := Option.map_eq_some_iff.mp hopens.listed
  obtain ⟨hlength, hscopes⟩ := Prod.mk.inj heq
  have htype := hadded.wellFormed.symbol_type hid
  have hend := hopens.scopesAt_end hnests
  have hdeclared : added.typeAt id ⟨⟨s.program.files.size⟩, file.node.span.stop⟩ =
      (added.symbol id).type := by
    have hunion : ¬(TypeFlags.single TypeFlags.object).has TypeFlags.union = true := by decide
    unfold Program.typeAt
    simp only [hget]
    exact if_neg hunion
  have hfirst : (added.scopesAt ⟨⟨s.program.files.size⟩, file.node.span.stop⟩).reverse.findSome?
      (fun scope => (added.scope scope).values.get? name) = some id := by
    rw [hend]
    simpa using hfound
  have hvisible := hadded.sorted.symbolTypes_get? hadded.sound.closed hgrows
    (Array.getElem?_eq_some_iff.mp hinfo).1 hfirst
  rw [hdeclared] at hvisible
  refine ⟨?_, ⟨s.program.scopes.size⟩, (added.symbol id).type, signatures, ?_, ?_, ?_, ?_, hmeans⟩
  · have hlater : t.program.files[s.program.files.size]? = some info := hgrows.files.of_some hinfo
    unfold Program.endOfFile?
    rw [hlater, Option.map_some, hlength]
  · rw [hinfo, Option.bind_some, hscopes]
    rfl
  · show (SymbolTable.map _ _).get? name = _
    rw [SymbolTable.get?_map, hvisible]
    rfl
  · rw [hgrows.get_eq htype]
    exact hget
  · have hwithin := hadded.sound.closed.get_within htype
    rw [hget] at hwithin
    exact fun signature hmem => (hwithin.2 signature hmem).2

end SessionState

namespace Session

/-- In a session, the call of a name in scope that stands for overloads is judged by the first that
accepts the number of arguments, and else by the first of all. -/
theorem visit_overloads {t : SessionState} (h : t.Good) {scope : SymbolTable SessionType}
    {callee : Identifier} {type : DeclaredType}
    (hscope : scope.get? callee.text = some (.declared type)) {r : Reading} {top : ScopeId}
    {overloads : List FunctionDeclaration} (hne : overloads ≠ []) {signatures : List Signature}
    (hget : type.program.types.get type.id = .object none .empty signatures)
    (hsignatures : List.Forall₂ (fun declaration signature =>
      signature.Means r top declaration.parameters declaration.result) overloads signatures)
    {depth : Nat} (hdepth : depth + 1 < Check.depthLimit) (node : Node) (arguments : List Expr)
    (c : CheckState) :
    ∃ parts reported own result,
      (((Check.visitAll (typeOf defaultBuiltIns) scope (depth + 1) arguments).run c).runFrom t).1 =
        .ok ((), ⟨c.issues ++ parts, reported⟩) ∧
      (((Check.visit (typeOf defaultBuiltIns) scope depth
          (.call node (.identifier callee) arguments)).run c).runFrom t).1 =
        .ok (result, ⟨c.issues ++ own ++ parts, reported⟩) ∧
      match overloads.find? fun declaration => declaration.accepts arguments.length with
      | some declaration => own = [] ∧ ∃ signature ∈ signatures,
          signature.Means r top declaration.parameters declaration.result ∧
          result = .declared (type.sibling signature.result)
      | none => ∃ first, overloads.head? = some first ∧
          own = [⟨node.span, first.refusal arguments.length⟩] := by
  have hanswers := answers defaultBuiltIns_loads h
  obtain ⟨parts, reported, hparts, hcall⟩ :=
    Check.visit_call_yields hanswers hscope hdepth node arguments c
  have hjudged := DeclaredType.call_overloaded hne hget hsignatures node.span callee.node.span
    arguments.length
  generalize Rule.call node.span callee.node.span (SessionType.declared type) arguments.length =
    verdict at hcall hjudged
  obtain ⟨_, -, hrunParts⟩ := yields_iff_runFrom.mp hparts t (.inl rfl)
  obtain ⟨_, -, hrunCall⟩ := yields_iff_runFrom.mp hcall t (.inl rfl)
  refine ⟨parts, reported, verdict.issues, _, congrArg Prod.fst hrunParts,
    congrArg Prod.fst hrunCall, ?_⟩
  cases hfound : overloads.find? fun declaration => declaration.accepts arguments.length with
  | some declaration =>
    rw [hfound] at hjudged
    obtain ⟨signature, hmem, hmeans, rfl⟩ := hjudged
    exact ⟨rfl, signature, hmem, hmeans, rfl⟩
  | none =>
    rw [hfound] at hjudged
    obtain ⟨first, hfirst, rfl⟩ := hjudged
    exact ⟨first, hfirst, rfl⟩

/-- A text, which may have errors, is added to a session among other requests. If a name has nothing
but functions in the scope of the text, calls of it at the end of the text are judged by these. The
first one that accepts the number of arguments gives the call its type, the one that is declared as
the result, and nothing is wrong with the call itself. If none accepts it, the call is reported
with the least number of arguments of the first one. What is wrong with the arguments comes after
that, and is not changed by it. -/
theorem call_overloads (earlier later : List Request)
    (hearlier : ∀ request ∈ earlier, request.IsParsed) (name text : String) (callee : Identifier)
    (hdeclared : overloadsOf callee.text (SourceFile.parse name text).tree.statements ≠ [])
    (hvariables : callee.text ∉ fileVariablesOf (SourceFile.parse name text).tree.statements)
    (node : Node) (arguments : List Expr) (depth : Nat) (hdepth : depth + 1 < Check.depthLimit)
    (c : CheckState) :
    let file := (SourceFile.parse name text).tree
    let host := SessionState.start.after defaultBuiltIns earlier
    let added := host.program.add file
    let s := host.after defaultBuiltIns (.addFile file :: later)
    let overloads := overloadsOf callee.text file.statements
    let count := arguments.length
    ∃ location scope top,
      ((endOfFile added.1).runFrom s).1 = .ok location ∧
      ((scopeAt location).runFrom s).1 = .ok scope ∧
      (added.2.file? added.1).bind (fun info => info.scopes.head?) = some top ∧
      ∃ parts reported own type,
        (((Check.visitAll (typeOf defaultBuiltIns) scope (depth + 1)
            arguments).run c).runFrom s).1 =
          .ok ((), ⟨c.issues ++ parts, reported⟩) ∧
        (((Check.visit (typeOf defaultBuiltIns) scope depth
            (.call node (.identifier callee) arguments)).run c).runFrom s).1 =
          .ok (type, ⟨c.issues ++ own ++ parts, reported⟩) ∧
        (∀ declaration,
          overloads.find? (fun overload => overload.accepts count) = some declaration →
            own = [] ∧ ∃ id,
              OptionalType.Means (added.2.reading added.1) top declaration.result id ∧
              type.name = added.2.typeText id ∧ type.kind = (added.2.flags id).kind) ∧
        ((∀ overload ∈ overloads, ¬overload.accepts count = true) → ∃ first,
          overloads.head? = some first ∧
          own = [⟨node.span, if first.hasRest then .tooFewArguments first.least count
            else .argumentCount first.least count⟩]) := by
  have hload := defaultBuiltIns_loads
  have hgood := (SessionState.start_advances earlier).good
  have hcompiled := SessionState.start_good.compiled_after hload Program.empty_compiled hearlier
  have hplaced := (SourceFile.parse_placed name text).1
  obtain ⟨hspan, hnests⟩ := SourceFile.parse_nests name text
  -- how the session came about and what the text looks like is of no matter from here on
  generalize SessionState.start.after defaultBuiltIns earlier = host at hgood hcompiled ⊢
  generalize (SourceFile.parse name text).tree = file at *
  intro _ _ added s overloads count
  have hadded : host.Advances ⟨host.cache, added.2⟩ :=
    hgood.advances_act hload (.addFile file)
  have hs : SessionState.Advances ⟨host.cache, added.2⟩ s := hadded.good.advances_after hload later
  obtain ⟨hend, top, type, signatures, htop, hscope, hget, hresults, hmeans⟩ :=
    SessionState.scopeAt_overloads hcompiled hplaced (by rw [hspan]; exact hnests) hvariables
      hdeclared hs.grows
  obtain ⟨parts, reported, own, result, hparts, hcall, hjudged⟩ :=
    visit_overloads hs.good hscope hdeclared hget hmeans hdepth node arguments c
  refine ⟨_, _, top, congrArg Prod.fst (SessionState.endOfFile_runFrom hend),
    congrArg Prod.fst (s.scopeAt_runFrom _), htop, parts, reported, own, result, hparts, hcall, ?_⟩
  constructor
  · intro declaration hfound
    rw [hfound] at hjudged
    obtain ⟨hown, signature, hmem, hsignature, rfl⟩ := hjudged
    have hresult := hresults signature hmem
    refine ⟨hown, signature.result, hsignature.2, ?_, ?_⟩
    · exact hadded.good.sound.typeText_eq hs.grows hresult
    · exact congrArg TypeFlags.kind (hs.grows.flags_eq hresult)
  · intro hrefused
    rw [List.find?_eq_none.mpr hrefused] at hjudged
    exact hjudged

/-- The type of the call with two arguments of a function that takes one number, or a number and
then strings, is that of the second declaration. A call without arguments is held against the
first. -/
theorem call_overloads_rest :
    let earlier := [Request.addFile (SourceFile.parse "a.d.ts" "let n: number;").tree]
    let file := (SourceFile.parse "f.d.ts"
      "function f(a: number): string; function f(a: number, ...b: string[]): number;").tree
    let s := (SessionState.start.after defaultBuiltIns earlier).after defaultBuiltIns
      [.addFile file, .load]
    let callee : Identifier := ⟨⟨0, ⟨0, 1⟩⟩, "f"⟩
    let argument : Expr := .literal ⟨1, ⟨2, 3⟩⟩ (.number "1")
    (∀ request ∈ earlier, request.IsParsed) ∧ overloadsOf "f" file.statements ≠ [] ∧
    "f" ∉ fileVariablesOf file.statements ∧ 0 + 1 < Check.depthLimit ∧
    (∃ scope type reported, (((Check.visit (typeOf defaultBuiltIns) scope 0
        (.call ⟨1, ⟨0, 3⟩⟩ (.identifier callee) [])).run Check.initial).runFrom s).1 =
      .ok (type, ⟨[⟨⟨0, 3⟩, .argumentCount 1 0⟩], reported⟩)) ∧
    ∃ scope type parts reported, (((Check.visit (typeOf defaultBuiltIns) scope 0
        (.call ⟨3, ⟨0, 7⟩⟩ (.identifier callee) [argument, argument])).run
          Check.initial).runFrom s).1 =
      .ok (type, ⟨parts, reported⟩) ∧ type.kind = .number := by
  intro earlier file s callee argument
  have hparsed : ∀ request ∈ earlier, request.IsParsed :=
    List.forall_mem_singleton.mpr ⟨"a.d.ts", "let n: number;", rfl⟩
  have hvariables : "f" ∉ fileVariablesOf file.statements := by
    decide +kernel
  have hsummary : (overloadsOf "f" file.statements).map (fun declaration =>
      (declaration.hasRest, declaration.parameters.length, declaration.resultWord?)) =
        [(false, 1, some .string), (true, 2, some .number)] := by
    decide +kernel
  obtain ⟨first, rest, hoverloads, hfirst, hrest⟩ := List.map_eq_cons_iff.mp hsummary
  obtain ⟨second, rest, rfl, hsecond, hrest⟩ := List.map_eq_cons_iff.mp hrest
  obtain rfl := List.map_eq_nil_iff.mp hrest
  simp only [Prod.mk.injEq] at hfirst hsecond
  obtain ⟨hfirstRest, hfirstLength, -⟩ := hfirst
  obtain ⟨hsecondRest, hsecondLength, hnumber⟩ := hsecond
  have hdeclared : overloadsOf "f" file.statements ≠ [] := hoverloads ▸ List.cons_ne_nil _ _
  have hdepth : 0 + 1 < Check.depthLimit := by decide
  refine ⟨hparsed, hdeclared, hvariables, hdepth, ?_, ?_⟩
  · obtain ⟨_, scope, top, -, -, -, parts, reported, own, type, hparts, hcall, -, hrefused⟩ :=
      call_overloads earlier [.load] hparsed "f.d.ts"
        "function f(a: number): string; function f(a: number, ...b: string[]): number;" callee
        hdeclared hvariables ⟨1, ⟨0, 3⟩⟩ [] 0 hdepth Check.initial
    have hnone : ∀ overload ∈ overloadsOf "f" file.statements, ¬overload.accepts 0 = true := by
      rw [hoverloads]
      simp [FunctionDeclaration.accepts, hfirstRest, hfirstLength, hsecondRest, hsecondLength]
    obtain ⟨_, hhead, rfl⟩ := hrefused hnone
    change (overloadsOf "f" file.statements).head? = some _ at hhead
    rw [hoverloads] at hhead
    obtain rfl := Option.some.inj hhead
    have hempty : Except.ok ((), Check.initial) =
        (Except.ok ((), ⟨[] ++ parts, reported⟩) : Except Fault (Unit × CheckState)) := hparts
    cases hempty
    rw [FunctionDeclaration.least, hfirstRest, hfirstLength] at hcall
    exact ⟨scope, type, _, hcall⟩
  · obtain ⟨_, scope, top, -, -, -, parts, reported, own, type, -, hcall, haccepted, -⟩ :=
      call_overloads earlier [.load] hparsed "f.d.ts"
        "function f(a: number): string; function f(a: number, ...b: string[]): number;" callee
        hdeclared hvariables ⟨3, ⟨0, 7⟩⟩ [argument, argument] 0 hdepth Check.initial
    have hfound : (overloadsOf "f" file.statements).find? (fun overload => overload.accepts 2) =
        some second := by
      rw [hoverloads]
      simp [FunctionDeclaration.accepts, hfirstRest, hfirstLength, hsecondRest, hsecondLength]
    obtain ⟨-, id, hmeans, -, hkind⟩ := haccepted second hfound
    have hid : id = .ofWord .number := by
      unfold FunctionDeclaration.resultWord? at hnumber
      split at hnumber
      · rename_i hresult
        cases hnumber
        rw [hresult] at hmeans
        cases hmeans with
        | some hword => cases hword; rfl
      · cases hnumber
    refine ⟨scope, type, _, _, hcall, ?_⟩
    have hsound := (SessionState.start_advances earlier).good.sound.add file
    rw [hkind, hid]
    show (Program.flags _ _).kind = _
    unfold Program.flags
    rw [hsound.get_word]
    rfl

end Session

end ExpressionTyping
