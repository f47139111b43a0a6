import ExpressionTyping.Proofs.Syntax.Cutting
import ExpressionTyping.Proofs.Typing.Walk

/-!
# The table of rules

What is wrong with an expression is said here by a table and a recursion that know nothing of how a
check proceeds. A row of the table says which kinds the operands of an operator may have, what is
reported of an operand of another kind, and which type the result has. `typeOf` reads the type of an
expression off the table, `own` lists what is wrong with the expression itself, and `violations`
puts that before the violations of the children, left to right.

A check of an expression whose nodes lie above the depth limit reports exactly its violations, and
walking any node of it gives exactly the type of the table (`check_yields_violations`). Operands are
reported where they stand, a wrong sum or a wrong number of arguments over the whole expression, a
missing member at its name, and what cannot be called where it stands.
-/

set_option autoImplicit false

namespace ExpressionTyping

open Std.Do

namespace RuleTable

/-! ## The table -/

/-- The kinds that an operand may have, and what is reported of an operand of another kind. -/
structure Operand where
  kinds : List TypeKind
  problem : Problem

/-- What the table says of a binary operator. -/
inductive Row where
  /-- Each operand is checked on its own, and the result has a fixed kind. -/
  | checked (left right : Operand) (result : TypeKind)
  /-- The operands are checked together, and so is the kind of their sum found. -/
  | addition
  /-- The operands may be anything, and the result has a fixed kind. -/
  | unchecked (result : TypeKind)
  /-- The operands may be anything, and the result is the right one. -/
  | right
  /-- The operands may be anything, and the result is the left one if the kinds agree. -/
  | agreeing

/-- The row of an operator. -/
def row : BinaryOp → Row
  | .multiply | .divide | .subtract | .remainder | .power =>
    .checked ⟨[.number, .any], .leftOperandNotNumber⟩ ⟨[.number, .any], .rightOperandNotNumber⟩
      .number
  | .instanceOf =>
    .checked ⟨[.object, .any], .instanceNotObject⟩ ⟨[.function, .any], .classNotFunction⟩ .boolean
  | .isIn =>
    .checked ⟨[.number, .string, .symbol, .any], .keyNotScalar⟩ ⟨[.object, .any], .keyedNotObject⟩
      .boolean
  | .add => .addition
  | .equal | .notEqual | .strictEqual | .strictNotEqual | .less | .greater | .lessOrEqual
  | .greaterOrEqual => .unchecked .boolean
  | .bitAnd | .bitOr | .bitXor | .shiftLeft | .shiftRight | .shiftRightUnsigned =>
    .unchecked .number
  | .logicalAnd => .right
  | .logicalOr | .coalesce => .agreeing

/-- A sum is valid if both sides are numbers, either is a string, or either is `any`. -/
def validSum (left right : TypeKind) : Bool :=
  (left = .number && right = .number) || (left = .string || right = .string) ||
    (left = .any || right = .any)

/-- The kind of a sum: a string if a side is one, else `any` if a side is, else a number; `any` if
the sum is not valid. -/
def sumKind (left right : TypeKind) : TypeKind :=
  if !validSum left right then .any
  else if left = .string || right = .string then .string
  else if left = .any || right = .any then .any
  else .number

/-- The kinds of types that are known by their members. -/
def structured : List TypeKind :=
  [.object, .function, .other]

/-- What is reported of a call whose number of arguments no signature accepts, where the first
signature decides the wording. -/
def arityProblem {τ : Type} (first : ArgTypes τ) (count : Nat) : Problem :=
  match first with
  | .fixed parameters => .argumentCount parameters.length count
  | .variadic leading _ => .tooFewArguments leading.length count
  | .any => .tooFewArguments 0 count

/-! ## The type of an expression -/

section

variable {τ : Type} [TypeView τ] (answer : TypeKind → τ) (scope : SymbolTable τ)

open TypeView

/-- The left type if the kinds agree, else `any`. -/
def agreeingType (left right : τ) : τ :=
  if kind left = kind right then left else answer .any

/-- The type of a member: looked up in a structured type, and `any` if it is not there. -/
def memberType (object : τ) (member : String) : τ :=
  if kind object ∈ structured then ((members object).get? member).getD (answer .any)
  else answer .any

/-- The type of a call: the result of the first signature that accepts the number of arguments. -/
def callType (callee : τ) (count : Nat) : τ :=
  if kind callee = .any then answer .any
  else
    match (signatures callee).find? (·.arguments.accepts count) with
    | some signature => signature.result
    | none => answer .any

/-- The type of a binary expression from the types of its operands. -/
def binaryType (op : BinaryOp) (left right : τ) : τ :=
  match row op with
  | .checked _ _ result | .unchecked result => answer result
  | .addition => answer (sumKind (kind left) (kind right))
  | .right => right
  | .agreeing => agreeingType answer left right

/-- The type of an expression. -/
def typeOf : Expr → τ
  | .identifier name =>
    match scope.get? name.text with
    | some type => type
    | none => answer (if name.text = "undefined" then .undefined else .any)
  | .literal _ (.number _) => answer .number
  | .literal _ (.string _) | .literal _ (.template _) => answer .string
  | .literal _ (.boolean _) => answer .boolean
  | .literal _ .null => answer .null
  | .parenthesized _ inner => typeOf inner
  | .member _ object name => memberType answer (typeOf object) name.text
  | .element _ _ _ => answer .any
  | .call _ callee arguments => callType answer (typeOf callee) arguments.length
  | .unary _ .not _ => answer .boolean
  | .unary _ .plus _ | .unary _ .minus _ | .unary _ .complement _ => answer .number
  | .unary _ .typeOf _ => answer .string
  | .unary _ .void _ => answer .undefined
  | .binary _ left op _ right => binaryType answer op (typeOf left) (typeOf right)
  | .assign _ _ _ value => typeOf value
  | .conditional _ _ whenTrue whenFalse => agreeingType answer (typeOf whenTrue) (typeOf whenFalse)
  | .missing _ => answer .any

/-! ## What is wrong with an expression -/

/-- What is reported of an operand of a type. -/
def Operand.violation (operand : Operand) (span : Span) (type : τ) : List Issue :=
  if kind type ∈ operand.kinds then [] else [⟨span, operand.problem⟩]

/-- What is wrong with a binary expression itself, over whose whole, left and right spans it may be
reported. -/
def binaryViolations (op : BinaryOp) (whole leftSpan rightSpan : Span) (left right : τ) :
    List Issue :=
  match row op with
  | .checked leftOperand rightOperand _ =>
    leftOperand.violation leftSpan left ++ rightOperand.violation rightSpan right
  | .addition =>
    if validSum (kind left) (kind right) then []
    else [⟨whole, .additionMismatch (name left) (name right)⟩]
  | .unchecked _ | .right | .agreeing => []

/-- What is wrong with naming a member of a type. -/
def memberViolations (object : τ) (member : Identifier) : List Issue :=
  if kind object ∈ structured ∧ (members object).contains member.text = false then
    [⟨member.node.span, .missingMember member.text (name object)⟩]
  else []

/-- What is wrong with a call itself. -/
def callViolations (whole calleeSpan : Span) (callee : τ) (count : Nat) : List Issue :=
  if kind callee = .any ∨ (signatures callee).any (·.arguments.accepts count) then []
  else
    match signatures callee with
    | first :: _ => [⟨whole, arityProblem first.arguments count⟩]
    | [] => if kind callee = .function then [] else [⟨calleeSpan, .notCallable (name callee)⟩]

/-- What is wrong with an expression itself. -/
def own : Expr → List Issue
  | .identifier name =>
    if scope.contains name.text ∨ name.text = "undefined" then []
    else [⟨name.node.span, .undefinedName name.text⟩]
  | .member _ object member => memberViolations (typeOf answer scope object) member
  | .call node callee arguments =>
    callViolations node.span callee.span (typeOf answer scope callee) arguments.length
  | .binary node left op _ right =>
    binaryViolations op node.span left.span right.span (typeOf answer scope left)
      (typeOf answer scope right)
  | _ => []

/-- What is wrong with an expression and with its parts: its own violations, then those of its
children, left to right. -/
def violations (e : Expr) : List Issue :=
  own answer scope e ++ e.children.attach.flatMap fun child => violations child.1
termination_by sizeOf e
decreasing_by exact Expr.sizeOf_lt_of_mem_children child.2

/-- The violations of an expression, without the bookkeeping of the recursion. -/
theorem violations_eq (e : Expr) :
    violations answer scope e =
      own answer scope e ++ e.children.flatMap (violations answer scope) := by
  rw [violations, List.flatMap_subtype (g := violations answer scope) (fun _ _ => rfl),
    List.unattach_attach]

end

/-! ## Rules follow the table

Each rule, concluded after the issues of the parts, gives the type of the table and the violations of
the table in front of those issues. -/

variable {τ : Type} [TypeView τ] {answer : TypeKind → τ} {scope : SymbolTable τ}

/-- The rule for a name gives the type and the violation of the table. -/
theorem conclude_identifier (name : Identifier) :
    Check.conclude answer (Rule.identifier scope name) [] =
      ⟨typeOf answer scope (.identifier name), own answer scope (.identifier name)⟩ := by
  rcases Option.eq_none_or_eq_some (scope.get? name.text) with hget | ⟨type, hget⟩
  · simp only [Rule.identifier, typeOf, own, SymbolTable.contains, hget]
    by_cases h : name.text = "undefined" <;>
      simp [h, Check.conclude, Outcome.resolve, Rule.plain]
  · simp [Rule.identifier, typeOf, own, SymbolTable.contains, hget, Check.conclude,
      Outcome.resolve]

/-- The rule for a literal gives the type of the table. -/
theorem conclude_literal (scope : SymbolTable τ) (node : Node) (value : Literal) :
    Check.conclude answer (Rule.plain (Rule.literalKind value)) [] =
      ⟨typeOf answer scope (.literal node value), []⟩ := by
  cases value <;> rfl

/-- The rule for an operator in front gives the type of the table. -/
theorem conclude_unary (scope : SymbolTable τ) (node : Node) (op : UnaryOp) (operand : Expr)
    (parts : List Issue) :
    Check.conclude answer (Rule.plain (Rule.unaryKind op)) parts =
      ⟨typeOf answer scope (.unary node op operand), parts⟩ := by
  cases op <;> rfl

/-- Operands that have to agree give the type of the table. -/
theorem conclude_agreeing (left right : τ) (parts : List Issue) :
    Check.conclude answer ⟨[], Rule.agreeing left right⟩ parts =
      ⟨agreeingType answer left right, parts⟩ := by
  unfold Rule.agreeing agreeingType
  split <;> rfl

/-- The rule for a member gives the type and the violations of the table. -/
theorem conclude_member (object : τ) (name : Identifier) (parts : List Issue) :
    Check.conclude answer (Rule.member object name) parts =
      ⟨memberType answer object name.text, memberViolations object name ++ parts⟩ := by
  have hstructured : Rule.isStructured (TypeView.kind object) =
      decide (TypeView.kind object ∈ structured) := rfl
  rw [Rule.member_eq, hstructured]
  unfold memberType memberViolations SymbolTable.contains
  by_cases hkind : TypeView.kind object ∈ structured
  · cases (TypeView.members object).get? name.text <;>
      simp [hkind, Check.conclude, Outcome.resolve]
  · simp [hkind, Check.conclude, Outcome.resolve, Rule.plain]

omit [TypeView τ] in
/-- The wording that the rule of a call chooses is that of the first signature. -/
theorem arityProblem_eq (first : ArgTypes τ) (count : Nat) :
    arityProblem first count =
      if first.isFixed then .argumentCount first.least count
      else .tooFewArguments first.least count := by
  cases first <;> rfl

/-- The rule for a call gives the type and the violations of the table. -/
theorem conclude_call (whole calleeSpan : Span) (callee : τ) (count : Nat) (parts : List Issue) :
    Check.conclude answer (Rule.call whole calleeSpan callee count) parts =
      ⟨callType answer callee count, callViolations whole calleeSpan callee count ++ parts⟩ := by
  unfold Rule.call callType callViolations
  by_cases hany : TypeView.kind callee = .any
  · simp [hany, Check.conclude, Outcome.resolve, Rule.plain]
  · cases hfind : (TypeView.signatures callee).find? (·.arguments.accepts count) with
    | some signature =>
      have hsome : (TypeView.signatures callee).any (·.arguments.accepts count) = true := by
        rw [List.any_eq_true]
        exact ⟨signature, List.mem_of_find?_eq_some hfind, by simpa using List.find?_some hfind⟩
      simp [hany, hsome, Check.conclude, Outcome.resolve]
    | none =>
      have hnone : (TypeView.signatures callee).any (·.arguments.accepts count) = false := by
        simpa using hfind
      cases hsignatures : TypeView.signatures callee with
      | nil =>
        by_cases hfunction : TypeView.kind callee = .function <;>
          simp [hany, hfunction, Check.conclude, Outcome.resolve, Rule.plain]
      | cons first rest =>
        rw [hsignatures] at hnone
        simp [hany, hnone, arityProblem_eq, Check.conclude, Outcome.resolve]

/-- The rule for `+` gives the kind of sum and the violation of the table. -/
theorem conclude_add (whole : Span) (left right : τ) (parts : List Issue) :
    Check.conclude answer (Rule.add whole left right) parts =
      ⟨answer (sumKind (TypeView.kind left) (TypeView.kind right)),
        (if validSum (TypeView.kind left) (TypeView.kind right) then []
          else [⟨whole, .additionMismatch (TypeView.name left) (TypeView.name right)⟩]) ++
          parts⟩ := by
  unfold Rule.add
  generalize TypeView.kind left = leftKind
  generalize TypeView.kind right = rightKind
  cases leftKind <;> cases rightKind <;> rfl

/-- The tests of the rules are memberships in the kinds of the table. -/
theorem isNumeric_eq (kind : TypeKind) : Rule.isNumeric kind = decide (kind ∈ [.number, .any]) := by
  cases kind <;> rfl

/-- Objects are the kinds that the table admits as such. -/
theorem isObject_eq (kind : TypeKind) : Rule.isObject kind = decide (kind ∈ [.object, .any]) := by
  cases kind <;> rfl

/-- Functions are the kinds that the table admits as such. -/
theorem isFunction_eq (kind : TypeKind) :
    Rule.isFunction kind = decide (kind ∈ [.function, .any]) := by
  cases kind <;> rfl

/-- Keys are the kinds that the table admits as such. -/
theorem isKey_eq (kind : TypeKind) :
    Rule.isKey kind = decide (kind ∈ [.number, .string, .symbol, .any]) := by
  cases kind <;> rfl

/-- The rule for a binary operator gives the type and the violations of the table, for each group of
operators. -/
theorem conclude_binary (op : BinaryOp) (whole leftSpan rightSpan : Span) (left right : τ)
    (parts : List Issue) :
    Check.conclude answer (Rule.binary op whole leftSpan rightSpan left right) parts =
      ⟨binaryType answer op left right,
        binaryViolations op whole leftSpan rightSpan left right ++ parts⟩ := by
  have hviolation (operand : Operand) (span : Span) (type : τ) :
      operand.violation span type =
        Rule.require (decide (TypeView.kind type ∈ operand.kinds)) span operand.problem := by
    simp [Rule.require, Operand.violation]
  cases op with
  | multiply | divide | subtract | remainder | power | instanceOf | isIn =>
    simp only [Rule.binary, Check.conclude, binaryType, binaryViolations, row, Outcome.resolve,
      hviolation, isNumeric_eq, isObject_eq, isFunction_eq, isKey_eq]
  | add => exact conclude_add whole left right parts
  | logicalAnd => rfl
  | logicalOr | coalesce => exact conclude_agreeing left right parts
  | equal | notEqual | strictEqual | strictNotEqual | less | greater | lessOrEqual
  | greaterOrEqual | bitAnd | bitOr | bitXor | shiftLeft | shiftRight | shiftRightUnsigned => rfl

/-! ## A check reports the violations -/

/-- The table says nothing about nesting. -/
theorem own_isNesting (answer : TypeKind → τ) (scope : SymbolTable τ) (e : Expr) :
    ∀ issue ∈ own answer scope e, issue.isNesting = false := by
  have hsettled {verdict : Verdict τ} {type : τ} {issues : List Issue} (h : verdict.Settled)
      (hconclude : Check.conclude answer verdict [] = ⟨type, issues⟩) :
      ∀ issue ∈ issues, issue.isNesting = false := by
    have heq : verdict.issues = issues := by
      simpa [Check.conclude] using congrArg Inferred.issues hconclude
    rw [← heq]
    exact h.issues
  -- Each row comes from a rule, and no rule reports nesting: only the walk does.
  cases e with
  | identifier name => exact hsettled (Rule.identifier_settled scope name) (conclude_identifier name)
  | member node object name =>
    simpa [own] using hsettled (Rule.member_onParts _ name).settled
      (conclude_member (typeOf answer scope object) name [])
  | call node callee arguments =>
    simpa [own] using hsettled (Rule.call_onParts _ _ _ _).settled
      (conclude_call node.span callee.span (typeOf answer scope callee) arguments.length [])
  | binary node left op mark right =>
    simpa [own] using hsettled (Rule.binary_onParts op _ _ _ _ _).settled
      (conclude_binary op node.span left.span right.span (typeOf answer scope left)
        (typeOf answer scope right) [])
  | literal | parenthesized | element | unary | assign | conditional | missing => simp [own]

/-- No violation is about nesting. -/
theorem violations_isNesting (answer : TypeKind → τ) (scope : SymbolTable τ) (e : Expr) :
    ∀ issue ∈ violations answer scope e, issue.isNesting = false := by
  induction e using Expr.induction_on_children with
  | step e ih =>
  intro issue hissue
  rw [violations_eq, List.mem_append, List.mem_flatMap] at hissue
  rcases hissue with hown | ⟨child, hchild, hissue⟩
  · exact own_isNesting answer scope e issue hown
  · exact ih child hchild issue hissue

/-- What is found wrong looking `levels` levels deep: the violations of an expression cut at that
depth, with an issue about nesting for each node that was cut off. -/
def found (answer : TypeKind → τ) (scope : SymbolTable τ) : (levels : Nat) → Expr → List Issue
  | 0, e => [⟨e.span, .tooDeeplyNested⟩]
  | levels + 1, e =>
    own answer scope (e.cut (levels + 1)) ++ e.children.flatMap (found answer scope levels)

/-- If the recursion gives the issues of each of some expressions, it gives them all in order. -/
theorem inferAll_eq_flatMap {levels : Nat} {es : List Expr} {issues : Expr → List Issue}
    (h : ∀ e ∈ es, (Check.infer answer scope levels e).issues = issues e) :
    Check.inferAll answer scope levels es = es.flatMap issues := by
  induction es with
  | nil => rfl
  | cons e rest ih =>
    rw [Check.inferAll, h e List.mem_cons_self, List.flatMap_cons]
    rw [ih fun other hother => h other (List.mem_cons_of_mem e hother)]

/-- The recursion of a check gives the type of the table, of the expression cut where the levels
end. -/
theorem infer_eq_found (answer : TypeKind → τ) (scope : SymbolTable τ) (levels : Nat) (e : Expr) :
    Check.infer answer scope levels e =
      ⟨typeOf answer scope (e.cut levels), found answer scope levels e⟩ := by
  induction e using Expr.induction_on_children generalizing levels with
  | step e ih =>
  cases levels with
  | zero => cases e <;> rfl
  | succ levels =>
    have hchild := fun child hc => ih child hc levels
    rw [found]
    cases e with
    | identifier name => simp [Check.infer, conclude_identifier, Expr.cut]
    | literal node value =>
      simp [Check.infer, conclude_literal scope node, Expr.cut, own]
    | missing node => rfl
    | parenthesized node inner =>
      have hinner := hchild inner (by simp)
      simp [Check.infer, hinner, Expr.cut, own, typeOf]
    | member node object name =>
      have hobject := hchild object (by simp)
      simp [Check.infer, hobject, conclude_member, Expr.cut, own, typeOf]
    | element node object key =>
      have hobject := hchild object (by simp)
      have hkey := hchild key (by simp)
      simp [Check.infer, hobject, hkey, Expr.cut, own, typeOf, Check.conclude, Rule.plain,
        Outcome.resolve]
    | call node callee arguments =>
      have hcallee := hchild callee (by simp)
      have harguments : Check.inferAll answer scope levels arguments =
          arguments.flatMap (found answer scope levels) :=
        inferAll_eq_flatMap fun argument hargument =>
          congrArg Inferred.issues (hchild argument (List.mem_cons_of_mem callee hargument))
      simp [Check.infer, hcallee, harguments, conclude_call, Expr.cut, own, typeOf]
    | unary node op operand =>
      have hoperand := hchild operand (by simp)
      simp [Check.infer, hoperand, conclude_unary scope node op (operand.cut levels), Expr.cut, own]
    | binary node left op mark right =>
      have hleft := hchild left (by simp)
      have hright := hchild right (by simp)
      simp [Check.infer, hleft, hright, conclude_binary, Expr.cut, own, typeOf]
    | assign node target mark value =>
      have htarget := hchild target (by simp)
      have hvalue := hchild value (by simp)
      simp [Check.infer, htarget, hvalue, Expr.cut, own, typeOf, Check.conclude, Outcome.resolve]
    | conditional node condition whenTrue whenFalse =>
      have hcondition := hchild condition (by simp)
      have htrue := hchild whenTrue (by simp)
      have hfalse := hchild whenFalse (by simp)
      simp [Check.infer, hcondition, htrue, hfalse, conclude_agreeing, Expr.cut, own, typeOf]

/-- Where the levels suffice, nothing but violations is found. -/
theorem found_eq_violations (answer : TypeKind → τ) (scope : SymbolTable τ) {levels : Nat}
    {e : Expr} (h : e.depthBelow levels = true) :
    found answer scope levels e = violations answer scope e := by
  induction e using Expr.induction_on_children generalizing levels with
  | step e ih =>
  cases levels with
  | zero => cases h
  | succ levels =>
    have hchild : ∀ child ∈ e.children,
        found answer scope levels child = violations answer scope child := by
      intro child hc
      exact ih child hc (List.all_eq_true.mp h child hc)
    rw [found, violations_eq, Expr.cut_eq_self h, List.flatMap_congr hchild]

/-- Where the levels suffice, the recursion of a check gives the type and the violations of the
table. -/
theorem infer_eq_violations (answer : TypeKind → τ) (scope : SymbolTable τ) {levels : Nat}
    {e : Expr} (h : e.depthBelow levels = true) :
    Check.infer answer scope levels e = ⟨typeOf answer scope e, violations answer scope e⟩ := by
  rw [infer_eq_found, Expr.cut_eq_self h, found_eq_violations answer scope h]

variable {m : Type → Type} {ps : PostShape} [Monad m] [WPMonad m ps] {inv : Assertion ps}
  {canonical : TypeKind → m τ}

/-- A check of an expression whose nodes all lie at depths below the limit reports exactly its
violations, and walking any of its nodes gives the type of the table and puts the violations of the
node after what was reported before. -/
theorem check_yields_violations (h : Answers inv canonical answer) (scope : SymbolTable τ)
    (e : Expr) (hdepth : e.depthBelow Check.depthLimit = true) :
    Yields inv (e.check canonical scope) (violations answer scope e) ∧
      ∀ depth node, e.AtDepth depth node → ∀ s : CheckState,
        Yields inv ((Check.visit canonical scope depth node).run s)
          (typeOf answer scope node,
            ⟨s.issues ++ violations answer scope node, s.nestingReported⟩) := by
  constructor
  · have hcheck := Check.check_yields h scope e
    rw [infer_eq_violations answer scope hdepth] at hcheck
    rwa [Check.nestingOnce_eq_self _ (violations_isNesting answer scope e)] at hcheck
  · intro depth node hnode s
    have hinfer := infer_eq_violations answer scope (hnode.depthBelow hdepth).2
    have hnone := violations_isNesting answer scope node
    have hany : (violations answer scope node).any Issue.isNesting = false := by simpa using hnone
    have hvisit := Check.visit_yields h scope depth node s
    rw [hinfer] at hvisit
    simpa [CheckState.add, Check.nestingOnce_eq_self _ hnone, hany] using hvisit

/-- The expression `"a" * (x - null)`. -/
def product : Expr :=
  .binary ⟨6, ⟨0, 16⟩⟩ (.literal ⟨0, ⟨0, 3⟩⟩ (.string "a")) .multiply ⟨4, 5⟩
    (.parenthesized ⟨4, ⟨6, 16⟩⟩
      (.binary ⟨3, ⟨7, 15⟩⟩ (.identifier ⟨⟨1, ⟨7, 8⟩⟩, "x"⟩) .subtract ⟨9, 10⟩
        (.literal ⟨2, ⟨11, 15⟩⟩ .null)))

/-- The static repository checks `"a" * (x - null)`: the left operand is reported before what is
inside the right one, and there `null` before the name `x` to its left. -/
theorem check_product_yields :
    Yields (fun cache => ⌜StaticRepository.Sound cache⌝)
      (product.check StaticRepository.typeOf .empty)
      [⟨⟨0, 3⟩, .leftOperandNotNumber⟩, ⟨⟨11, 15⟩, .rightOperandNotNumber⟩,
        ⟨⟨7, 8⟩, .undefinedName "x"⟩] := by
  have h := (check_yields_violations StaticRepository.answers .empty product (by decide)).1
  have hviolations : violations StaticType.ofKind .empty product =
      [⟨⟨0, 3⟩, .leftOperandNotNumber⟩, ⟨⟨11, 15⟩, .rightOperandNotNumber⟩,
        ⟨⟨7, 8⟩, .undefinedName "x"⟩] := by
    simp only [product, violations_eq, Expr.children, List.flatMap_cons, List.flatMap_nil]
    decide
  rwa [hviolations] at h

end RuleTable

end ExpressionTyping
