import ExpressionTyping.Proofs.Session.Requests

/-!
# Repositories that can be exchanged

A check asks its repository for canonical types only. Those of the static repository and those of a
session are blank types of the same kinds: the session gives some of them in full and reads the
others off a compiled file, but to the rules they look the same. So the two repositories lead to the
same issues for every expression and every scope, in whatever state the session is
(`check_interchange`).

Types for the rules may be of any sort as long as the types of both repositories are among them:
`ofStatic` and `ofSession` say how, and they keep what the rules see.
-/

set_option autoImplicit false

namespace ExpressionTyping

open Std.Do TypeView

/-- The type that stands for a kind has nothing to it but the keyword of the kind. -/
theorem StaticType.ofKind_isBlank (kind : TypeKind) : IsBlank kind (StaticType.ofKind kind) :=
  ⟨rfl, rfl, rfl, rfl⟩

/-- Taking a static type for a type of a session keeps what the rules see. -/
theorem SessionType.static_faithful : Faithful SessionType.static :=
  ⟨fun _ => rfl, fun _ => rfl, fun _ => rfl, fun _ => rfl⟩

/-- Taking a type of a session for itself keeps what the rules see. -/
theorem SessionType.id_faithful : Faithful (id : SessionType → SessionType) where
  name _ := rfl
  kind _ := rfl
  members type := by
    show _ = SymbolTable.mk (List.map (fun entry => entry) _)
    rw [List.map_id']
    rfl
  signatures type := by
    have hid : ∀ signature : CallSignature SessionType, signature.map id = signature := by
      rintro ⟨parameters | ⟨leading, rest⟩ | _, result⟩
      · show CallSignature.mk (.fixed (parameters.map id)) result = _
        rw [List.map_id]
      · show CallSignature.mk (.variadic (leading.map id) rest) result = _
        rw [List.map_id]
      · rfl
    rw [List.map_congr_left fun signature _ => hid signature, List.map_id']
    rfl

/-- Over any scope, the check finds the same with the static repository and with the repository of a
session, whatever the session was asked before, and neither fails. -/
theorem Session.check_interchange {υ : Type} [TypeView υ] {ofStatic : StaticType → υ}
    {ofSession : SessionType → υ} (hstatic : Faithful ofStatic) (hsession : Faithful ofSession)
    (requests : List Request) (scope : SymbolTable υ) (e : Expr) :
    ∃ issues,
      ((e.check (fun kind => ofStatic <$> StaticRepository.typeOf kind) scope).run.run
        BuiltInCache.empty).1 = .ok issues ∧
      ((e.check (fun kind => ofSession <$> Session.typeOf defaultBuiltIns kind) scope).runFrom
        (SessionState.start.after defaultBuiltIns requests)).1 = .ok issues := by
  have hload := defaultBuiltIns_loads
  have hgood := (SessionState.start_advances requests).good
  generalize SessionState.start.after defaultBuiltIns requests = s at hgood ⊢
  obtain ⟨cache, -, hstaticRun⟩ := yields_iff_run.mp
    (Check.check_yields (StaticRepository.answers.map ofStatic) scope e) BuiltInCache.empty
    (.inl rfl)
  obtain ⟨s', -, hsessionRun⟩ := yields_iff_runFrom.mp
    (Check.check_yields ((Session.answers hload hgood).map ofSession) scope e) s (.inl rfl)
  -- the scope is the same in both checks, so only the canonical types are to be compared
  have hanswer : ∀ kind, kind ≠ .other → SameOrBlank (ofStatic (.ofKind kind))
      (ofSession (s.answer (loadBuiltIns defaultBuiltIns) kind)) := by
    intro kind _
    exact .blank (hstatic.isBlank (StaticType.ofKind_isBlank kind))
      (hsession.isBlank (hgood.answer_isBlank hload kind))
  have hscope : scope.Pairs SameOrBlank scope :=
    List.forall₂_same.mpr fun entry _ => ⟨rfl, .same entry.2⟩
  have hissues := sameOrBlank_alike.infer_issues hanswer hscope Check.depthLimit e
  refine ⟨_, congrArg Prod.fst hstaticRun, ?_⟩
  rw [hsessionRun, ← hissues]

/-- Both repositories report the same problems of a product, the second after a session that has a
file and has loaded. -/
theorem Session.check_interchange_product : ∃ issues,
    (((Expr.parse "n * true").tree.check
      (fun kind => SessionType.static <$> StaticRepository.typeOf kind)
      (.ofList [("n", .static (.ofKind .string))])).run.run BuiltInCache.empty).1 = .ok issues ∧
    (((Expr.parse "n * true").tree.check (fun kind => id <$> Session.typeOf defaultBuiltIns kind)
      (.ofList [("n", .static (.ofKind .string))])).runFrom
        (SessionState.start.after defaultBuiltIns
          [.addFile (SourceFile.parse "a.d.ts" "declare let n: number;").tree, .load])).1 =
      .ok issues :=
  check_interchange SessionType.static_faithful SessionType.id_faithful _ _ _

end ExpressionTyping
