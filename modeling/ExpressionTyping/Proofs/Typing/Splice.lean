import ExpressionTyping.Proofs.Grammar.Counter
import ExpressionTyping.Proofs.Typing.Walk

/-!
# Splicing at a mark never misses

A check puts issues in at a mark of its list, and it points at nodes by their spans. Both could go
wrong: a mark past the end of the list has no place there, and the bounds of a node could be out of
order. `Check.visit?` is the walk that fails in these two cases.

On an expression whose nodes lie in a text it never fails. The list only grows while an expression
is walked, so the mark that was taken at the start stays inside it, and every issue points at a node
or at the name of a member. `Tracks` says so of a walk and a failing copy of it, for a list that is
at least `floor` long: whatever the repository does, the two do the same.

The last theorem follows a text from its tokens to what is reported about it
(`Expr.parse_check_safe`).
-/

set_option autoImplicit false

namespace ExpressionTyping

namespace Check

variable {τ : Type} [TypeView τ] {m : Type → Type} [Monad m]

/-! ## The walk that may fail -/

/-- A request to the repository, which does not touch the reports. -/
def request {α : Type} (action : m α) : StateT CheckState (OptionT m) α :=
  StateT.lift (OptionT.lift action)

/-- Puts issues in at a mark, which has to lie in the reports, over bounds that are in order. -/
def emit? (mark : Nat) (own : List Issue) : StateT CheckState (OptionT m) Unit := do
  let s ← get
  if mark ≤ s.issues.length && own.all (·.span.ordered) then emit mark own else failure

/-- Settles what a rule says. -/
def settle? (canonical : TypeKind → m τ) (mark : Nat) (verdict : Verdict τ) :
    StateT CheckState (OptionT m) τ := do
  let type ← match verdict.outcome with
    | .given type => pure type
    | .canonical kind => request (canonical kind)
  emit? mark verdict.issues
  return type

/-- Stops at an expression below the depth limit. -/
def stopAt? (canonical : TypeKind → m τ) (span : Span) : StateT CheckState (OptionT m) τ := do
  unless (← get).nestingReported do
    modify fun s => { s with nestingReported := true }
    emit? (← mark) [⟨span, .tooDeeplyNested⟩]
  request (canonical .any)

mutual

/-- Walks an expression at a depth and finds its type. -/
def visit? (canonical : TypeKind → m τ) (scope : SymbolTable τ) (depth : Nat) (e : Expr) :
    StateT CheckState (OptionT m) τ := do
  if depthLimit ≤ depth then stopAt? canonical e.span
  else
    let mark ← mark
    match e with
    | .identifier name => settle? canonical mark (Rule.identifier scope name)
    | .literal _ value => settle? canonical mark (Rule.plain (Rule.literalKind value))
    | .parenthesized _ inner => visit? canonical scope (depth + 1) inner
    | .member _ object name =>
      let object ← visit? canonical scope (depth + 1) object
      settle? canonical mark (Rule.member object name)
    | .element _ object key =>
      let _ ← visit? canonical scope (depth + 1) object
      let _ ← visit? canonical scope (depth + 1) key
      settle? canonical mark (Rule.plain .any)
    | .call node callee arguments =>
      let function ← visit? canonical scope (depth + 1) callee
      visitAll? canonical scope (depth + 1) arguments
      settle? canonical mark (Rule.call node.span callee.span function arguments.length)
    | .unary _ op operand =>
      let _ ← visit? canonical scope (depth + 1) operand
      settle? canonical mark (Rule.plain (Rule.unaryKind op))
    | .binary node left op _ right =>
      let first ← visit? canonical scope (depth + 1) left
      let second ← visit? canonical scope (depth + 1) right
      settle? canonical mark (Rule.binary op node.span left.span right.span first second)
    | .assign _ target _ value =>
      let _ ← visit? canonical scope (depth + 1) target
      let type ← visit? canonical scope (depth + 1) value
      settle? canonical mark ⟨[], .given type⟩
    | .conditional _ condition whenTrue whenFalse =>
      let _ ← visit? canonical scope (depth + 1) condition
      let first ← visit? canonical scope (depth + 1) whenTrue
      let second ← visit? canonical scope (depth + 1) whenFalse
      settle? canonical mark ⟨[], Rule.agreeing first second⟩
    | .missing _ => settle? canonical mark (Rule.plain .any)

/-- Walks expressions in order. -/
def visitAll? (canonical : TypeKind → m τ) (scope : SymbolTable τ) (depth : Nat)
    (es : List Expr) : StateT CheckState (OptionT m) Unit := do
  match es with
  | [] => return ()
  | e :: rest =>
    let _ ← visit? canonical scope depth e
    visitAll? canonical scope depth rest

end

end Check

/-- What is wrong with an expression, unless the walk fails. -/
def Expr.check? {τ : Type} [TypeView τ] {m : Type → Type} [Monad m] (canonical : TypeKind → m τ)
    (scope : SymbolTable τ) (e : Expr) : OptionT m (List Issue) := do
  let (_, final) ← (Check.visit? canonical scope 0 e).run Check.initial
  return final.issues

/-! ## What rules point at -/

/-- Every issue of a verdict lies in a text. -/
def Verdict.InText {τ : Type} (length : Nat) (verdict : Verdict τ) : Prop :=
  ∀ issue ∈ verdict.issues, issue.span.Within length

namespace Rule

variable {τ : Type} {length : Nat}

/-- A verdict without issues lies in every text. -/
theorem silent_inText (outcome : Outcome τ) : (⟨[], outcome⟩ : Verdict τ).InText length :=
  nofun

/-- A verdict that only gives a kind lies in every text. -/
theorem plain_inText (kind : TypeKind) : (plain kind : Verdict τ).InText length :=
  silent_inText (.canonical kind)

/-- What is required at a place in the text is reported in the text. -/
theorem require_inText {condition : Bool} {span : Span} {problem : Problem}
    (h : span.Within length) :
    ∀ issue ∈ require condition span problem, issue.span.Within length := by
  cases condition <;> simp [require, h]

/-- The rule for a name reports in the text. -/
theorem identifier_inText (scope : SymbolTable τ) {name : Identifier}
    (h : name.node.span.Within length) : (identifier scope name).InText length := by
  unfold identifier
  cases scope.get? name.text with
  | some type => exact nofun
  | none =>
    simp only
    split
    · exact plain_inText _
    · simpa [Verdict.InText] using h

variable [TypeView τ]

/-- The rule for a member reports in the text. -/
theorem member_inText (object : τ) {name : Identifier} (h : name.node.span.Within length) :
    (member object name).InText length := by
  rw [member_eq]
  split
  · cases (TypeView.members object).get? name.text with
    | some type => exact nofun
    | none => simpa [Verdict.InText] using h
  · exact plain_inText _

/-- The rule for a call reports in the text. -/
theorem call_inText {callSpan calleeSpan : Span} (hcall : callSpan.Within length)
    (hcallee : calleeSpan.Within length) (callee : τ) (count : Nat) :
    (call callSpan calleeSpan callee count).InText length := by
  unfold call
  split
  · exact plain_inText _
  · split
    · exact nofun
    · split
      · simpa [Verdict.InText] using hcall
      · split
        · exact plain_inText _
        · simpa [Verdict.InText] using hcallee

/-- The rule for `+` reports in the text. -/
theorem add_inText {span : Span} (h : span.Within length) (left right : τ) :
    (add span left right).InText length := by
  unfold add
  split
  · exact plain_inText _
  · split
    · exact plain_inText _
    · split
      · exact plain_inText _
      · simpa [Verdict.InText] using h

/-- The rule for a binary operator reports in the text. -/
theorem binary_inText (op : BinaryOp) {span leftSpan rightSpan : Span} (h : span.Within length)
    (hleft : leftSpan.Within length) (hright : rightSpan.Within length) (left right : τ) :
    (binary op span leftSpan rightSpan left right).InText length := by
  have hrequire (first second : Bool) (p q : Problem) (kind : TypeKind) :
      (⟨require first leftSpan p ++ require second rightSpan q, .canonical kind⟩ :
        Verdict τ).InText length := by
    intro issue hissue
    rcases List.mem_append.mp hissue with hissue | hissue
    · exact require_inText hleft issue hissue
    · exact require_inText hright issue hissue
  cases op with
  | multiply | divide | subtract | remainder | power | instanceOf | isIn => exact hrequire _ _ _ _ _
  | add => exact add_inText h left right
  | logicalAnd | logicalOr | coalesce => exact nofun
  | equal | notEqual | strictEqual | strictNotEqual | less | greater | lessOrEqual
  | greaterOrEqual | bitAnd | bitOr | bitXor | shiftLeft | shiftRight | shiftRightUnsigned =>
    exact plain_inText _

end Rule

/-! ## The walk does not fail -/

namespace Check

variable {τ : Type} {m : Type → Type} [Monad m] {α β : Type} {length floor : Nat}

/-- The reports are at least `floor` long, and they lie in a text. -/
structure Walked (length floor : Nat) (s : CheckState) : Prop where
  grown : floor ≤ s.issues.length
  within : ∀ issue ∈ s.issues, issue.span.Within length

/-- From reports at least `floor` long, a walk that may fail does what another walk does, and leaves
reports at least `floor` long. The action of the repository that both come from gives the reports
with the proof that they are. -/
def Tracks (length floor : Nat) (q : StateT CheckState (OptionT m) α) (p : StateT CheckState m α) :
    Prop :=
  ∀ s, Walked length floor s → ∃ action : m (α × { s : CheckState // Walked length floor s }),
    p.run s = (fun x => (x.1, x.2.1)) <$> action ∧
      (q.run s).run = (fun x => some (x.1, x.2.1)) <$> action

namespace Tracks

variable [LawfulMonad m]

/-- A walk that does nothing does not fail. -/
theorem pure (a : α) : Tracks (m := m) length floor (Pure.pure a) (Pure.pure a) :=
  fun s hs => ⟨Pure.pure (a, ⟨s, hs⟩), by simp, by simp⟩

/-- Walks that do not fail one after the other do not fail together, and they do what the plain ones
do. -/
theorem bind {q : StateT CheckState (OptionT m) α} {p : StateT CheckState m α}
    {f : α → StateT CheckState (OptionT m) β} {g : α → StateT CheckState m β}
    (h : Tracks length floor q p) (hf : ∀ a, Tracks length floor (f a) (g a)) :
    Tracks length floor (q >>= f) (p >>= g) := by
  intro s hs
  obtain ⟨action, hp, hq⟩ := h s hs
  choose next hg hf using fun x : α × { s : CheckState // Walked length floor s } =>
    hf x.1 x.2.1 x.2.2
  refine ⟨action >>= next, ?_, ?_⟩
  · rw [StateT.run_bind, hp, bind_map_left, map_bind]
    exact bind_congr hg
  · rw [StateT.run_bind, OptionT.run_bind, hq, Option.elimM, bind_map_left, map_bind]
    exact bind_congr hf

/-- A request leaves the reports as they are. -/
theorem request (action : m α) : Tracks length floor (request action) (StateT.lift action) := by
  intro s hs
  refine ⟨action >>= fun a => Pure.pure (a, ⟨s, hs⟩), ?_, ?_⟩
  · simp [StateT.lift, StateT.run]
  · simp [Check.request, StateT.lift, StateT.run]

/-- What is done from a mark on needs reports only as long as the mark. -/
theorem mark_bind {f : Nat → StateT CheckState (OptionT m) α} {g : Nat → StateT CheckState m α}
    (h : ∀ n, Tracks length n (f n) (g n)) :
    Tracks length floor (mark >>= f) (mark >>= g) := by
  intro s hs
  obtain ⟨action, hp, hq⟩ := h s.issues.length s ⟨Nat.le_refl _, hs.within⟩
  have hweaken (x : { s' : CheckState // Walked length s.issues.length s' }) :
      Walked length floor x.1 := ⟨Nat.le_trans hs.grown x.2.grown, x.2.within⟩
  refine ⟨(fun x => (x.1, ⟨x.2.1, hweaken x.2⟩)) <$> action, ?_, ?_⟩
  · rw [StateT.run_bind, mark_run, pure_bind, hp, Functor.map_map]
  · rw [StateT.run_bind, mark_run, pure_bind, hq, Functor.map_map]

end Tracks

variable [LawfulMonad m]

/-- Issues go in at the mark: it lies in the reports, which get longer. -/
theorem emit_tracks {own : List Issue} (h : ∀ issue ∈ own, issue.span.Within length) :
    Tracks (m := m) length floor (emit? floor own) (emit floor own) := by
  intro s hs
  have hordered : own.all (·.span.ordered) = true := by
    rw [List.all_eq_true]
    exact fun issue hissue => decide_eq_true (h issue hissue).ordered
  have hmark : floor ≤ s.issues.length := hs.grown
  have hwalked : Walked length floor
      { s with issues := s.issues.take floor ++ own ++ s.issues.drop floor } := by
    constructor
    · simp only [List.length_append, List.length_take, List.length_drop]
      omega
    · intro issue hissue
      simp only [List.mem_append] at hissue
      rcases hissue with (htake | hown) | hdrop
      · exact hs.within issue (List.mem_of_mem_take htake)
      · exact h issue hown
      · exact hs.within issue (List.mem_of_mem_drop hdrop)
  refine ⟨Pure.pure ((), ⟨_, hwalked⟩), ?_, ?_⟩
  · simp [emit]
  · simp [emit?, emit, hmark, hordered]

variable {canonical : TypeKind → m τ}

/-- Settling a verdict in the text at a mark within the reports does not fail. -/
theorem settle_tracks {verdict : Verdict τ} (h : verdict.InText length) :
    Tracks length floor (settle? canonical floor verdict) (settle canonical floor verdict) := by
  obtain ⟨issues, outcome⟩ := verdict
  cases outcome with
  | given type => exact (Tracks.pure type).bind fun _ => (emit_tracks h).bind fun _ => .pure _
  | canonical kind =>
    exact (Tracks.request (canonical kind)).bind fun _ => (emit_tracks h).bind fun _ => .pure _

/-- Stopping at a place in the text does not fail. -/
theorem stopAt_tracks {span : Span} (h : span.Within length) :
    Tracks length floor (stopAt? canonical span) (stopAt canonical span) := by
  have hreport : Tracks (m := m) length floor
      (do modify fun s => { s with nestingReported := true }
          emit? (← mark) [⟨span, .tooDeeplyNested⟩])
      (do modify fun s => { s with nestingReported := true }
          emit (← mark) [⟨span, .tooDeeplyNested⟩]) := by
    intro s hs
    have hemit : ∀ n, Tracks (m := m) length n (emit? n [⟨span, .tooDeeplyNested⟩])
        (emit n [⟨span, .tooDeeplyNested⟩]) := fun n => emit_tracks (by simpa using h)
    obtain ⟨action, hp, hq⟩ := Tracks.mark_bind hemit { s with nestingReported := true }
      ⟨hs.grown, hs.within⟩
    exact ⟨action, by simpa using hp, by simpa using hq⟩
  intro s hs
  obtain ⟨issues, reported⟩ := s
  cases reported with
  | true =>
    obtain ⟨action, hp, hq⟩ := Tracks.request (canonical .any) ⟨issues, true⟩ hs
    exact ⟨action, by simpa [stopAt] using hp, by simpa [stopAt?] using hq⟩
  | false =>
    obtain ⟨action, hp, hq⟩ := (hreport.bind fun _ => Tracks.request (canonical .any))
      ⟨issues, false⟩ hs
    exact ⟨action, by simpa [stopAt] using hp, by simpa [stopAt?] using hq⟩

variable [TypeView τ]

/-- Walking expressions in order does not fail when walking each of them does not. -/
theorem visitAll_tracks {scope : SymbolTable τ} {depth : Nat} {es : List Expr}
    (h : ∀ e ∈ es, Tracks length floor (visit? canonical scope depth e)
      (visit canonical scope depth e)) :
    Tracks length floor (visitAll? canonical scope depth es)
      (visitAll canonical scope depth es) := by
  induction es with
  | nil =>
    rw [visitAll?, visitAll]
    exact .pure ()
  | cons e rest ih =>
    rw [visitAll?, visitAll]
    have hrest := ih fun other hother => h other (List.mem_cons_of_mem e hother)
    exact (h e List.mem_cons_self).bind fun _ => hrest

/-- Walking an expression whose nodes lie in a text does not fail. -/
theorem visit_tracks (canonical : TypeKind → m τ) (scope : SymbolTable τ) {e : Expr}
    (h : e.Throughout (Expr.InText length)) (depth floor : Nat) :
    Tracks length floor (visit? canonical scope depth e) (visit canonical scope depth e) := by
  induction h generalizing depth floor with
  | @intro e here below ih =>
  by_cases hdepth : depthLimit ≤ depth
  · rw [visit?, visit, if_pos hdepth, if_pos hdepth]
    exact stopAt_tracks here.span
  · rw [visit?, visit, if_neg hdepth, if_neg hdepth]
    refine Tracks.mark_bind fun n => ?_
    have hchild := fun child hc => ih child hc (depth + 1) n
    have hspan := fun child hc => (Expr.throughout_iff.mp (below child hc)).1.span
    cases e with
    | identifier name => exact settle_tracks (Rule.identifier_inText scope here.span)
    | literal | missing => exact settle_tracks (Rule.plain_inText _)
    | parenthesized node inner => exact hchild inner (by simp)
    | member node object name =>
      refine (hchild object (by simp)).bind fun type => ?_
      exact settle_tracks (Rule.member_inText type (here.name name rfl))
    | element node object key =>
      refine (hchild object (by simp)).bind fun _ => ?_
      refine (hchild key (by simp)).bind fun _ => ?_
      exact settle_tracks (Rule.plain_inText _)
    | call node callee arguments =>
      refine (hchild callee (by simp)).bind fun function => ?_
      have hall : ∀ child ∈ arguments, child ∈ (Expr.call node callee arguments).children :=
        fun child hc => List.mem_cons_of_mem _ hc
      refine (visitAll_tracks fun child hc => hchild child (hall child hc)).bind fun _ => ?_
      exact settle_tracks (Rule.call_inText here.span (hspan callee List.mem_cons_self) function _)
    | unary node op operand =>
      refine (hchild operand (by simp)).bind fun _ => ?_
      exact settle_tracks (Rule.plain_inText _)
    | binary node left op mark right =>
      refine (hchild left (by simp)).bind fun first => ?_
      refine (hchild right (by simp)).bind fun second => ?_
      exact settle_tracks (Rule.binary_inText op here.span (hspan left (by simp))
        (hspan right (by simp)) first second)
    | assign node target mark value =>
      refine (hchild target (by simp)).bind fun _ => ?_
      refine (hchild value (by simp)).bind fun type => ?_
      exact settle_tracks (Rule.silent_inText (.given type))
    | conditional node condition whenTrue whenFalse =>
      refine (hchild condition (by simp)).bind fun _ => ?_
      refine (hchild whenTrue (by simp)).bind fun first => ?_
      refine (hchild whenFalse (by simp)).bind fun second => ?_
      exact settle_tracks (Rule.silent_inText (Rule.agreeing first second))

/-- A check of an expression whose nodes lie in a text does not fail, and what it reports lies in
the text. -/
theorem check_tracks (canonical : TypeKind → m τ) (scope : SymbolTable τ) {e : Expr}
    (h : e.Throughout (Expr.InText length)) :
    ∃ action : m { issues : List Issue // ∀ issue ∈ issues, issue.span.Within length },
      e.check canonical scope = Subtype.val <$> action ∧
        (e.check? canonical scope).run = (fun issues => some issues.1) <$> action := by
  obtain ⟨action, hp, hq⟩ := visit_tracks canonical scope h 0 0 initial ⟨Nat.zero_le _, nofun⟩
  refine ⟨(fun x => ⟨x.2.1.issues, x.2.2.within⟩) <$> action, ?_, ?_⟩
  · rw [Expr.check, hp]
    simp
  · rw [Expr.check?, OptionT.run_bind, hq]
    simp [Option.elimM]

end Check

/-- Scanning a text, parsing it with the counter of levels and checking the tree, with any errors in
the text and any scope, go wrong nowhere. Tokens are ranges of the text, and words and numbers are
the characters in their ranges. The counted parse does not fail and ends with the counter at zero.
The nodes of the tree, the names of members and everything that is reported lie in the text. The
check asks for no type that the repository lacks, and no splice misses. -/
theorem Expr.parse_check_safe (text : String) (scope : SymbolTable StaticType)
    {cache : BuiltInCache StaticType} (hcache : StaticRepository.Sound cache) :
    (∀ token ∈ Token.ofText Alphabet.standard text.toList,
      token.Located Alphabet.standard text.toList ∧
        (token.kind = .identifier ∨ token.kind.isKeyword = true ∨ token.kind = .number →
          token.value.toList = token.span.cut text.toList)) ∧
    Expr.parseCounted? text = some (Expr.parse text, 0) ∧
    (Expr.parse text).tree.Throughout (Expr.InText text.length) ∧
    (∀ issue ∈ (Expr.parse text).issues, issue.span.Within text.length) ∧
    ∃ issues cache',
      ((Expr.parse text).tree.check? StaticRepository.typeOf scope).run.run.run cache =
        (.ok (some issues), cache') ∧
      ((Expr.parse text).tree.check StaticRepository.typeOf scope).run.run cache =
        (.ok issues, cache') ∧
      ∀ issue ∈ issues, issue.span.Within text.length := by
  obtain ⟨htree, hissues⟩ := Expr.parse_within text
  refine ⟨fun token htoken => ?_, Expr.parseCounted?_eq text, htree, hissues, ?_⟩
  · have hlocated := (Token.ofText_located Alphabet.standard text.toList).1 token htoken
    exact ⟨hlocated, hlocated.value_eq_cut⟩
  · obtain ⟨action, hcheck, hcheck?⟩ := Check.check_tracks StaticRepository.typeOf scope htree
    have hyields := Check.check_yields StaticRepository.answers scope (Expr.parse text).tree
    obtain ⟨cache', -, hrun⟩ := yields_iff_run.mp hyields cache hcache
    -- the repository answers, so the action that both walks come from gives a list
    rw [hcheck, ExceptT.run_map, StateT.run_map] at hrun
    rw [hcheck, hcheck?, ExceptT.run_map, ExceptT.run_map, StateT.run_map, StateT.run_map]
    generalize action.run.run cache = result at hrun ⊢
    rcases result with ⟨fault | issues, cache''⟩
    · cases hrun
    · exact ⟨issues.1, cache'', rfl, rfl, issues.2⟩

/-- A text with errors: a sum without its second operand, and a member without a name. -/
theorem Expr.parse_check_safe_broken :
    ∃ issues cache', ((Expr.parse "(a. + ").tree.check? StaticRepository.typeOf .empty).run.run.run
        .empty = (.ok (some issues), cache') ∧
      ((Expr.parse "(a. + ").tree.check StaticRepository.typeOf .empty).run.run .empty =
        (.ok issues, cache') ∧
      ∀ issue ∈ issues, issue.span.Within "(a. + ".length :=
  (Expr.parse_check_safe "(a. + " .empty (.inl rfl)).2.2.2.2

end ExpressionTyping
