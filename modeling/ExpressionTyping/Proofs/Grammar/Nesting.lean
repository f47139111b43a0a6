import ExpressionTyping.Proofs.Grammar.FilePlacement
import ExpressionTyping.Proofs.Grammar.RoundTrip

/-!
# How deeply a parse nests

Operands on the left, the objects of members and elements, what is called, and conditions are read
by loops; the other parts of an expression count as nested. The nesting of an expression is the
largest number of such parts on a way from its root to a leaf (`Path.le_nesting`). The target of an
assignment counts as well.

The depth limit is spent by assignments and by operators in front. Between two of them only the
right operands of binary operators nest, and there the precedence rises, so each level adds at most
thirteen. The exception is the power, which groups to the right: its right operand is read with the
same precedence again, and this spends nothing. So the limit bounds the nesting of a parsed
expression only where the right operands of powers are not counted, and a chain of powers nests as
deeply as it is long.

Blocks spend nothing at all. They nest as deeply as there are opening braces
(`parse_nesting_bounded`), and nested braces do make as many nested blocks (`parse_braces`).
-/

set_option autoImplicit false

namespace ExpressionTyping

namespace Expr

/-! ## Nesting -/

mutual

/-- The largest number of nested parts on a way to a leaf. The right operand of an operator is a
nested part if `counts` says so. -/
@[simp] def nesting (counts : BinaryOp → Bool) : Expr → Nat
  | identifier _ | literal _ _ | missing _ => 0
  | parenthesized _ inner => inner.nesting counts + 1
  | member _ object _ => object.nesting counts
  | element _ object key => max (object.nesting counts) (key.nesting counts + 1)
  | call _ callee arguments => max (callee.nesting counts) (argumentNesting counts arguments)
  | unary _ _ operand => operand.nesting counts + 1
  | binary _ left op _ right =>
    max (left.nesting counts) (right.nesting counts + (counts op).toNat)
  | assign _ target _ value => max (target.nesting counts + 1) (value.nesting counts + 1)
  | conditional _ condition whenTrue whenFalse =>
    max (condition.nesting counts)
      (max (whenTrue.nesting counts + 1) (whenFalse.nesting counts + 1))

/-- The nesting of arguments, each of which is a nested part. -/
@[simp] def argumentNesting (counts : BinaryOp → Bool) : List Expr → Nat
  | [] => 0
  | argument :: others => max (argument.nesting counts + 1) (argumentNesting counts others)

end

/-- The parts of an expression, with one for each that is nested and zero for the others. -/
def edges (counts : BinaryOp → Bool) : Expr → List (Nat × Expr)
  | identifier _ | literal _ _ | missing _ => []
  | parenthesized _ inner => [(1, inner)]
  | member _ object _ => [(0, object)]
  | element _ object key => [(0, object), (1, key)]
  | call _ callee arguments => (0, callee) :: arguments.map fun argument => (1, argument)
  | unary _ _ operand => [(1, operand)]
  | binary _ left op _ right => [(0, left), ((counts op).toNat, right)]
  | assign _ target _ value => [(1, target), (1, value)]
  | conditional _ condition whenTrue whenFalse => [(0, condition), (1, whenTrue), (1, whenFalse)]

/-- The ways from the root of a tree to its nodes, with the number of nested parts on them. -/
inductive Path (counts : BinaryOp → Bool) (root : Expr) :
    (nested : Nat) → (node : Expr) → Prop where
  | root : Path counts root 0 root
  | step {nested edge : Nat} {parent node : Expr} (h : Path counts root nested parent)
      (hedge : (edge, node) ∈ parent.edges counts) : Path counts root (nested + edge) node

/-- An argument is nested at least one less deeply than the arguments. -/
theorem nesting_argument_lt (counts : BinaryOp → Bool) {arguments : List Expr} {argument : Expr}
    (h : argument ∈ arguments) :
    argument.nesting counts + 1 ≤ argumentNesting counts arguments := by
  induction arguments with
  | nil => cases h
  | cons first others ih =>
    rw [argumentNesting]
    rcases List.mem_cons.mp h with rfl | h
    · omega
    · have := ih h
      omega

/-- A part is nested less deeply than the expression, by one if it counts as nested. -/
theorem nesting_of_mem_edges {counts : BinaryOp → Bool} {e child : Expr} {edge : Nat}
    (h : (edge, child) ∈ e.edges counts) : edge + child.nesting counts ≤ e.nesting counts := by
  cases e with
  | call node callee arguments =>
    rw [nesting]
    rcases List.mem_cons.mp h with h | h
    · cases h
      omega
    · obtain ⟨argument, hargument, heq⟩ := List.mem_map.mp h
      cases heq
      have := nesting_argument_lt counts hargument
      omega
  | identifier | literal | missing => simp [edges] at h
  | parenthesized | member | unary =>
    cases List.mem_singleton.mp h
    rw [nesting]
    omega
  | element | binary | assign =>
    simp only [edges, List.mem_cons, Prod.mk.injEq, List.not_mem_nil, or_false] at h
    rw [nesting]
    rcases h with ⟨rfl, rfl⟩ | ⟨rfl, rfl⟩ <;> omega
  | conditional =>
    simp only [edges, List.mem_cons, Prod.mk.injEq, List.not_mem_nil, or_false] at h
    rw [nesting]
    rcases h with ⟨rfl, rfl⟩ | ⟨rfl, rfl⟩ | ⟨rfl, rfl⟩ <;> omega

/-- A way to a node has at most as many nested parts as the tree nests. -/
theorem Path.le_nesting {counts : BinaryOp → Bool} {root node : Expr} {nested : Nat}
    (h : Path counts root nested node) : nested + node.nesting counts ≤ root.nesting counts := by
  induction h with
  | root => omega
  | step _ hedge ih =>
    have := nesting_of_mem_edges hedge
    omega

end Expr

/-! ## The depth limit -/

/-- Every operator but the power. -/
def BinaryOp.isNotPower (op : BinaryOp) : Bool :=
  op != .power

/-- A right operand that counts is read one rank above the operator, and that of a power, which does
not, is read at its rank again. -/
theorem BinaryOp.rightFloor_count (op : BinaryOp) :
    11 - op.precedence.rightFloor.rank + op.isNotPower.toNat ≤ 12 - op.precedence.rank := by
  cases op <;> decide

namespace Parse

variable {α β : Type}

/-- A parse gives a result with a condition, whatever tokens it reads. -/
def Gives (p : Parse α) (Q : α → Prop) : Prop :=
  ∀ s, Q (p.run s).1

namespace Gives

/-- A parse that does nothing gives what it is given. -/
theorem pure {a : α} {Q : α → Prop} (h : Q a) : Gives (pure a) Q :=
  fun _ => h

/-- What a second parse gives may depend on what the first one gave. -/
theorem bind {p : Parse α} {f : α → Parse β} {P : α → Prop} {Q : β → Prop} (hp : Gives p P)
    (hf : ∀ a, P a → Gives (f a) Q) : Gives (p >>= f) Q :=
  fun s => hf _ (hp s) _

/-- Whatever comes first, what follows gives the result. -/
theorem next {p : Parse α} {f : α → Parse β} {Q : β → Prop} (h : ∀ a, Gives (f a) Q) :
    Gives (p >>= f) Q :=
  fun _ => h _ _

/-- What satisfies a condition satisfies every weaker one. -/
theorem mono {p : Parse α} {P Q : α → Prop} (h : Gives p P) (himp : ∀ a, P a → Q a) : Gives p Q :=
  fun s => himp _ (h s)

/-- A choice gives what both branches give. -/
theorem ite {c : Prop} [Decidable c] {p q : Parse α} {Q : α → Prop} (hp : Gives p Q)
    (hq : Gives q Q) : Gives (if c then p else q) Q := by
  split
  · exact hp
  · exact hq

end Gives

/-- A parse that reads expressions of a bounded nesting, where right operands of powers are not
counted. -/
def NestsTo (bound : Nat) (p : Parse Expr) : Prop :=
  Gives p fun e => e.nesting BinaryOp.isNotPower ≤ bound

/-- A bound on the nesting may be raised. -/
theorem NestsTo.mono {bound bound' : Nat} {p : Parse Expr} (h : NestsTo bound p)
    (hle : bound ≤ bound') : NestsTo bound' p :=
  Gives.mono h fun _ he => Nat.le_trans he hle

/-- A missing expression has no nested part. -/
theorem missing_nests (bound : Nat) : NestsTo bound missing :=
  .next fun _ => .next fun _ => .next fun _ => .pure (Nat.zero_le _)

section Levels

variable {assignment operand : Parse Expr} {outer inner : Nat}

section Access

variable (h : NestsTo outer assignment)
include h

/-- A primary expression nests at most one deeper than those it may contain. -/
theorem primary_nests : NestsTo (outer + 1) (primary assignment) := by
  refine .next fun token => .ite (.next fun _ => .pure (Nat.zero_le _)) ?_
  cases Literal.ofToken? token with
  | some value =>
    exact .next fun _ => .next fun _ => .pure (Nat.zero_le _)
  | none =>
    refine .next fun _ => .ite ?_ (missing_nests _)
    refine Gives.bind h fun e he => .next fun _ => .next fun _ => .pure ?_
    exact Nat.succ_le_succ he

/-- Further arguments nest at most one deeper than each of them. -/
theorem argumentsTail_nests (limit : Nat) :
    Gives (argumentsTail assignment limit) fun arguments =>
      Expr.argumentNesting BinaryOp.isNotPower arguments ≤ outer + 1 := by
  induction limit with
  | zero => exact .pure (Nat.zero_le _)
  | succ limit ih =>
    refine .next fun _ => .next fun _ => .ite (.pure (Nat.zero_le _)) ?_
    refine Gives.bind h fun e he => .next fun _ => .ite ?_ ?_
    · refine ih.bind fun others hothers => .pure ?_
      rw [Expr.argumentNesting]
      omega
    · refine .pure ?_
      rw [Expr.argumentNesting, Expr.argumentNesting]
      omega

/-- Arguments nest at most one deeper than each of them. -/
theorem arguments_nests :
    Gives (arguments assignment) fun arguments =>
      Expr.argumentNesting BinaryOp.isNotPower arguments ≤ outer + 1 :=
  .next fun _ => .next fun limit => (argumentsTail_nests h limit).bind fun _ hvalues =>
    .next fun _ => .pure hvalues

/-- Members, keys and calls after an expression nest at most one deeper than the keys and
arguments. -/
theorem accessTail_nests (limit : Nat) {e : Expr}
    (he : e.nesting BinaryOp.isNotPower ≤ outer + 1) :
    NestsTo (outer + 1) (accessTail assignment limit e) := by
  induction limit generalizing e with
  | zero => exact .pure he
  | succ limit ih =>
    refine .next fun _ => .ite ?_ ?_
    · exact .next fun _ => .next fun _ => ih he
    refine .next fun _ => .ite ?_ ?_
    · refine Gives.bind h fun key hkey => .next fun _ => .next fun _ => ih ?_
      rw [Expr.nesting]
      omega
    refine .next fun _ => .ite ?_ (.pure he)
    refine (arguments_nests h).bind fun values hvalues => .next fun _ => ih ?_
    rw [Expr.nesting]
    omega

/-- A primary expression with what follows it nests at most one deeper than those it may contain. -/
theorem access_nests : NestsTo (outer + 1) (access assignment) :=
  Gives.bind (primary_nests h) fun _ he => .next fun limit =>
    accessTail_nests h limit he

end Access

/-- Above a bound of precedence, each right operand that counts raises the bound by one. -/
theorem binaryTail_nests (h : NestsTo inner operand) (limit : Nat) {bound : Precedence}
    {left : Expr} (hleft : left.nesting BinaryOp.isNotPower ≤ inner + (11 - bound.rank)) :
    NestsTo (inner + (11 - bound.rank)) (binaryTail operand limit bound left) := by
  induction limit generalizing bound left with
  | zero => exact .pure hleft
  | succ limit ih =>
    refine .next fun token => ?_
    cases BinaryOp.ofToken? token.kind with
    | none => exact .pure hleft
    | some op =>
      simp only
      by_cases hrank : bound.rank < op.precedence.rank
      · rw [if_pos hrank]
        refine .next fun _ => Gives.bind h fun first hfirst => ?_
        have hfloor : first.nesting BinaryOp.isNotPower ≤
            inner + (11 - op.precedence.rightFloor.rank) := by omega
        refine Gives.bind (ih hfloor) fun right hright => .next fun node => ih ?_
        have hcount := op.rightFloor_count
        rw [Expr.nesting]
        omega
      · rw [if_neg hrank]
        exact .pure hleft

/-- Operands joined by operators nest at most eleven deeper than the operands, one for each
precedence below that of powers. -/
theorem binary_nests (h : NestsTo inner operand) : NestsTo (inner + 11) (binary operand) :=
  Gives.bind h fun left hleft => .next fun limit => by
    have hfloor : left.nesting BinaryOp.isNotPower ≤ inner + (11 - Precedence.floor.rank) := by
      omega
    exact binaryTail_nests h limit hfloor

/-- The branches of a choice nest at most one deeper than assignments. -/
theorem conditional_nests (h : NestsTo outer assignment) (hoperand : NestsTo inner operand)
    (hle : outer + 1 ≤ inner + 11) : NestsTo (inner + 11) (conditional assignment operand) := by
  refine Gives.bind (binary_nests hoperand) fun condition hcondition => .next fun _ =>
    .ite ?_ (.pure hcondition)
  refine Gives.bind h fun whenTrue htrue => .next fun _ => Gives.bind h fun whenFalse hfalse =>
    .next fun _ => .pure ?_
  rw [Expr.nesting]
  omega

/-- An assignment or a choice nests at most twelve deeper than the operands. -/
theorem assignment_nests (h : NestsTo outer assignment) (hoperand : NestsTo inner operand)
    (hle : outer + 1 ≤ inner + 11) :
    NestsTo (inner + 12) (Parse.assignment assignment operand) := by
  refine Gives.bind (conditional_nests h hoperand hle) fun target htarget => .next fun mark => ?_
  cases mark with
  | some mark =>
    refine Gives.bind h fun value hvalue => .next fun _ => .pure ?_
    rw [Expr.nesting]
    omega
  | none => exact .pure (Nat.le_succ_of_le htarget)

/-- Each operator in front nests the operand one deeper. -/
theorem unary_nests {operand? : Option (Parse Expr)} (h : NestsTo outer assignment)
    (hoperand : ∀ operand, operand? = some operand → NestsTo outer operand) :
    NestsTo (outer + 1) (unary assignment operand?) := by
  refine .next fun token => ?_
  cases UnaryOp.ofToken? token.kind with
  | none => exact access_nests h
  | some op =>
    cases operand? with
    | none => exact missing_nests _
    | some operand =>
      refine .next fun _ => Gives.bind (hoperand operand rfl) fun e he => .next fun _ => .pure ?_
      rw [Expr.nesting]
      omega

end Levels

/-- Each level of depth adds at most thirteen. -/
theorem nested_nests (depth : Nat) :
    NestsTo (13 * depth) (nested depth).assignment ∧
      NestsTo (13 * depth + 1) (nested depth).unary := by
  induction depth with
  | zero => exact ⟨missing_nests _, unary_nests (missing_nests _) nofun⟩
  | succ depth ih =>
    have houter : NestsTo (13 * (depth + 1)) (nested (depth + 1)).assignment :=
      (assignment_nests ih.1 ih.2 (by omega)).mono (by omega)
    refine ⟨houter, unary_nests houter ?_⟩
    rintro _ ⟨⟩
    exact ih.2.mono (by omega)

/-- A whole expression nests at most thirteen times as deeply as the depth limit allows. -/
theorem wholeExpression_nests : NestsTo (13 * depthLimit) wholeExpression :=
  Gives.bind (nested_nests depthLimit).1 fun _ he => .next fun _ =>
    .ite (.pure he) (.next fun _ => .pure he)

end Parse

/-! ## Chains of powers -/

namespace Expr

/-- A number raised to itself over and over. -/
def powers : Nat → Expr
  | 0 => .literal default (.number "1")
  | count + 1 => .binary default (.literal default (.number "1")) .power default (powers count)

/-- A condition on a number and on each power that is made of it holds throughout. -/
theorem powers_throughout {P : Expr → Prop} (hleaf : P (.literal default (.number "1")))
    (hstep : ∀ count, P (powers (count + 1))) (count : Nat) : (powers count).Throughout P := by
  induction count with
  | zero => exact ⟨hleaf, nofun⟩
  | succ count ih =>
    have hone : (literal default (.number "1")).Throughout P := ⟨hleaf, nofun⟩
    refine ⟨hstep count, ?_⟩
    simpa [powers] using ⟨hone, ih⟩

/-- Powers of numbers are shaped as the grammar asks for. -/
theorem powers_fits (count : Nat) : (powers count).Throughout fun node => node.fits = true := by
  refine powers_throughout (P := fun node => node.fits = true) rfl (fun count => ?_) count
  cases count <;> rfl

/-- Powers of numbers can be written in the standard alphabet. -/
theorem powers_printable (count : Nat) :
    (powers count).Throughout (Printable Alphabet.standard) := by
  have hone : Token.Alone Alphabet.standard (.number, "1") := by decide +kernel
  exact powers_throughout hone (fun _ => trivial) count

/-- Powers open no frames, since they stand right of each other. -/
theorem powers_frames (count : Nat) : (powers count).frames = 0 := by
  induction count with
  | zero => rfl
  | succ count ih => simp [powers, frames, ih]

/-- A way that starts with a part goes on inside it. -/
theorem Path.into {counts : BinaryOp → Bool} {root child node : Expr} {edge nested : Nat}
    (hedge : (edge, child) ∈ root.edges counts) (h : Path counts child nested node) :
    Path counts root (edge + nested) node := by
  induction h with
  | root =>
    have hroot : Path counts root 0 root := .root
    have hstep := hroot.step hedge
    rwa [Nat.zero_add] at hstep
  | step _ hnext ih =>
    rw [← Nat.add_assoc]
    exact ih.step hnext

/-- An expression that is the same as powers but for numbers and places has a path with as many
nested parts. -/
theorem powers_path {count : Nat} {e : Expr} (h : e.bare = (powers count).bare) :
    ∃ node, Path (fun _ => true) e count node := by
  induction count generalizing e with
  | zero => exact ⟨e, .root⟩
  | succ count ih =>
    cases e <;> simp only [powers, bare, reduceCtorEq] at h
    rename_i node left op mark right
    obtain ⟨leaf, hleaf⟩ := ih (Expr.binary.inj h).2.2.2.2
    refine ⟨leaf, ?_⟩
    have hedge : (1, right) ∈ (Expr.binary node left op mark right).edges fun _ => true := by
      simp [edges]
    rw [Nat.add_comm]
    exact .into hedge hleaf

/-- A chain of powers is read without a report, and it nests as deeply as it is long. -/
theorem parse_powers (count : Nat) :
    (Expr.parse (powers count).print).issues = [] ∧
      ∃ node, Path (fun _ => true) (Expr.parse (powers count).print).tree count node := by
  have hregular : (powers count).Throughout (Regular Alphabet.standard) :=
    (powers_fits count).and (powers_printable count)
  have hframes : (powers count).frames < Parse.depthLimit := by
    rw [powers_frames]
    decide
  obtain ⟨hissues, hbare⟩ := parse_print_of_regular hregular hframes
  exact ⟨hissues, powers_path hbare⟩

end Expr

/-! ## Blocks -/

mutual

/-- How deeply the blocks of a statement are nested. -/
def Statement.blockNesting : Statement → Nat
  | .block _ statements => blockNestingAll statements + 1
  | _ => 0

/-- How deeply the blocks of statements are nested. -/
def blockNestingAll : List Statement → Nat
  | [] => 0
  | statement :: rest => max statement.blockNesting (blockNestingAll rest)

end

/-- How deeply the blocks of a file are nested. -/
def SourceFile.blockNesting (file : SourceFile) : Nat :=
  blockNestingAll file.statements

/-- The number of opening braces among tokens. -/
def Token.braces (tokens : List Token) : Nat :=
  tokens.countP fun token => token.kind = .punctuator .openBrace

namespace Parse

open ParseState

variable {text : List Char}

/-- Going forward leaves no more opening braces ahead. -/
theorem braces_le {s s' : ParseState} (h : s.Leads s') :
    Token.braces s'.ahead ≤ Token.braces s.ahead :=
  h.ahead.sublist.countP_le

/-- No declaration is a block. -/
theorem declaration_blocks (start : Nat) (ambient : Bool) :
    Gives (declaration start ambient) fun statement => statement.blockNesting = 0 := by
  have hexpression : Gives expressionStatement fun statement => statement.blockNesting = 0 :=
    .next fun _ => .next fun _ => .next fun _ => .next fun _ => .pure rfl
  have hvariable (form : VariableForm) :
      Gives (variableStatement start ambient form) fun statement => statement.blockNesting = 0 :=
    .next fun _ => .next fun _ => .next fun _ => .next fun _ => .next fun _ => .next fun _ =>
      .next fun _ => .pure rfl
  have hfunction :
      Gives (functionDeclaration start ambient) fun statement => statement.blockNesting = 0 :=
    .next fun _ => .next fun _ => .next fun _ => .next fun _ => .next fun _ => .next fun _ =>
      .pure rfl
  have hinterface :
      Gives (interfaceDeclaration start) fun statement => statement.blockNesting = 0 :=
    .next fun _ => .next fun _ => .next fun _ => .next fun _ => .pure rfl
  have halias : Gives (aliasDeclaration start) fun statement => statement.blockNesting = 0 :=
    .next fun _ => .next fun _ => .next fun _ => .next fun _ => .next fun _ => .next fun _ =>
      .pure rfl
  refine .next fun token => ?_
  split
  · exact hvariable _
  · exact hvariable _
  · exact .next fun _ => .ite (hvariable _) hexpression
  · exact hfunction
  · exact .next fun _ => .ite hinterface hexpression
  · exact .next fun _ => .ite halias hexpression
  · exact hexpression

/-- The blocks of a statement that does not start with a brace nest no deeper than the opening
braces it takes. -/
theorem declaration_braces (start : Nat) (ambient : Bool) (s : ParseState) :
    Runs text (declaration start ambient) s fun statement s' =>
      statement.blockNesting + Token.braces s'.ahead ≤ Token.braces s.ahead := by
  intro hplaced
  obtain ⟨hplaced', hleads, -⟩ := declaration_places start ambient s hplaced
  have hbraces := braces_le hleads
  have hnone := declaration_blocks start ambient s
  exact ⟨hplaced', hleads, by omega⟩

/-- Taking an opening brace leaves one less ahead. -/
theorem braces_taken {s : ParseState} (hready : s.Ready)
    (hkind : s.current.kind = .punctuator .openBrace) :
    Token.braces s.taken.ahead + 1 = Token.braces s.ahead := by
  have htook := (hready.took_punctuator hkind).1.ahead
  rw [htook, Token.braces, Token.braces, List.singleton_append, List.countP_cons]
  simp [hkind]

/-- Each block takes a brace of its own. -/
theorem statement_braces {body : Parse (List Statement)}
    (h : ∀ s, Runs text body s fun statements s' =>
      blockNestingAll statements + Token.braces s'.ahead ≤ Token.braces s.ahead) (s : ParseState) :
    Runs text (statement body) s fun statement s' =>
      statement.blockNesting + Token.braces s'.ahead ≤ Token.braces s.ahead := by
  refine (current_runs s).bind fun token s₁ hplaced _ hs₁ => ?_
  obtain ⟨rfl, rfl⟩ := hs₁
  split
  · refine (advance_runs _).bind fun _ s₂ _ hleads₂ _ => (newNode_runs _ s₂).bind
      fun node s₃ _ hleads₃ _ => .pure ?_
    have hbraces := braces_le (hleads₂.trans hleads₃)
    rw [Statement.blockNesting]
    · omega
    · simp
  · rename_i hkind
    refine (advance_runs _).bind fun _ s₂ _ _ h₂ => ?_
    subst h₂
    have htaken := braces_taken hplaced.ready hkind
    refine (h _).bind fun statements s₃ _ _ hstatements => (expectPunctuator_runs _ s₃).bind
      fun _ s₄ _ hleads₄ _ => (closeNode_runs _ s₄).bind fun node s₅ _ hleads₅ _ => .pure ?_
    have hbraces := braces_le (hleads₄.trans hleads₅)
    rw [Statement.blockNesting]
    omega
  · refine (nextKind_runs _).bind fun kind s₂ _ _ hs₂ => ?_
    subst hs₂
    refine .ite (fun _ => ?_) fun _ => declaration_braces _ false _
    refine (advance_runs _).bind fun _ s₃ _ hleads₃ _ => ?_
    refine (declaration_braces _ true s₃).mono fun statement s₄ _ _ hstatement => ?_
    have hbraces := braces_le hleads₃
    omega
  · exact declaration_braces _ false _

/-- The blocks of statements nest no deeper than the opening braces they take. -/
theorem statementsTail_braces (limit : Nat) (s : ParseState) :
    Runs text (statementsTail limit) s fun statements s' =>
      blockNestingAll statements + Token.braces s'.ahead ≤ Token.braces s.ahead := by
  induction limit generalizing s with
  | zero => exact .pure (by simp [blockNestingAll])
  | succ limit ih =>
    refine (isAt_runs _ s).bind fun ending s₁ _ hleads₁ _ => (isAt_runs _ s₁).bind
      fun closing s₂ _ hleads₂ _ => ?_
    have hbefore := braces_le (hleads₁.trans hleads₂)
    refine .ite (fun _ => .pure (by simpa [blockNestingAll] using hbefore)) fun _ => ?_
    refine (current_runs s₂).bind fun token s₃ _ hleads₃ _ => (statement_braces ih s₃).bind
      fun first s₄ _ _ hfirst => (current_runs s₄).bind fun next s₅ _ hleads₅ _ => ?_
    have hbefore' := braces_le hleads₃
    have hrest (s₆ : ParseState) (hleads : s₄.Leads s₆) :
        Runs text (do return first :: (← statementsTail limit)) s₆ fun statements s' =>
          blockNestingAll statements + Token.braces s'.ahead ≤ Token.braces s.ahead := by
      refine (ih s₆).bind fun others s₇ _ hleads₇ hothers => .pure ?_
      have hbraces := braces_le hleads
      have hbraces' := braces_le hleads₇
      rw [blockNestingAll]
      omega
    refine .ite (fun _ => ?_) fun _ => hrest s₅ hleads₅
    exact (report_runs _ s₅).bind fun _ s₆ _ hleads₆ _ => (advance_runs s₆).bind
      fun _ s₇ _ hleads₇ _ => hrest s₇ ((hleads₅.trans hleads₆).trans hleads₇)

/-! ## Nested braces -/

/-- At the end of the text or at a closing brace there are no further statements. -/
theorem statementsTail_run_stop (limit : Nat) {s : ParseState}
    (h : s.current.kind = .endOfText ∨ s.current.kind = .punctuator .closeBrace) :
    (statementsTail (limit + 1)).run s = ([], s) := by
  have hstop : (decide (s.current.kind = .endOfText) ||
      decide (s.current.kind = .punctuator .closeBrace)) = true := by
    rcases h with h | h <;> simp [h]
  rw [statementsTail, run_bind, isAt_run, run_bind, isAtPunctuator, isAt_run, if_pos hstop]
  rfl

/-- A statement that has moved on is followed by the others. -/
theorem statementsTail_run_cons (limit : Nat) {s s' : ParseState} {first : Statement}
    (hend : s.current.kind ≠ .endOfText) (hclose : s.current.kind ≠ .punctuator .closeBrace)
    (hfirst : (statement (statementsTail limit)).run s = (first, s'))
    (hmoved : s.current.span.start < s'.current.span.start) :
    (statementsTail (limit + 1)).run s =
      (first :: ((statementsTail limit).run s').1, ((statementsTail limit).run s').2) := by
  have hgo : (decide (s.current.kind = .endOfText) ||
      decide (s.current.kind = .punctuator .closeBrace)) ≠ true := by simp [hend, hclose]
  have hstart : (decide (s'.current.span.start = s.current.span.start) &&
      s'.current.kind != .endOfText) ≠ true := by
    simp [Nat.ne_of_gt hmoved]
  rw [statementsTail, run_bind, isAt_run, run_bind, isAtPunctuator, isAt_run, if_neg hgo, run_bind,
    current_run, run_bind, hfirst, run_bind, current_run, if_neg hstart]
  rfl

/-- A statement at an opening brace is a block of the statements up to the closing brace. -/
theorem statement_run_block {body : Parse (List Statement)} {s s' : ParseState}
    {statements : List Statement} (hopen : s.current.kind = .punctuator .openBrace)
    (hbody : body.run s.taken = (statements, s'))
    (hclose : s'.current.kind = .punctuator .closeBrace) :
    (statement body).run s =
      (.block ⟨s'.taken.nextId, ⟨s.current.span.start, s'.taken.previousStop⟩⟩ statements,
        s'.taken.numbered) := by
  rw [statement, run_bind, current_run]
  simp only [hopen]
  rw [run_bind, advance_run, run_bind, hbody, run_bind, expectPunctuator_run hclose, run_bind,
    closeNode_run]
  rfl

end Parse

/-- Pairs of braces, each inside the one before. -/
def bracePairs : Nat → List (TokenKind × String)
  | 0 => []
  | count + 1 => (TokenKind.punctuator .openBrace).fixed ::
      (bracePairs count ++ [(TokenKind.punctuator .closeBrace).fixed])

/-- Pairs of braces can be written in any alphabet. -/
theorem bracePairs_writable (alphabet : Alphabet) (count : Nat) :
    ∀ content ∈ bracePairs count, Token.Writable alphabet content := by
  induction count with
  | zero => exact nofun
  | succ count ih =>
    have hmark (p : Punctuator) : Token.Writable alphabet (TokenKind.punctuator p).fixed :=
      TokenKind.fixed_writable alphabet rfl
    simp only [bracePairs, List.mem_cons, List.mem_append, List.not_mem_nil, or_false]
    rintro content (rfl | h | rfl)
    · exact hmark _
    · exact ih content h
    · exact hmark _

/-- Nested pairs of braces are at least as many tokens as pairs. -/
theorem le_length_bracePairs (count : Nat) : count ≤ (bracePairs count).length := by
  induction count with
  | zero => exact Nat.zero_le _
  | succ count ih =>
    simp only [bracePairs, List.length_cons, List.length_append]
    omega

/-- A punctuator is no empty token, so taking it moves on. -/
theorem ParseState.Placed.start_lt {text : List Char} {s s' : ParseState} (h : s.Placed text)
    {p : Punctuator} (hkind : s.current.kind = .punctuator p) (hleads : s.taken.Leads s') :
    s.current.span.start < s'.current.span.start := by
  have hlength : (s.current.span.cut text).length ≤ s.current.span.stop - s.current.span.start :=
    List.length_take_le _ _
  rw [h.current.cut_of_punctuator hkind] at hlength
  have hsome := List.length_pos_of_ne_nil p.spelling_ne_nil
  have hbehind := h.taken.behind
  have hstop := s.taken_previousStop
  have hstart := hleads.start
  omega

namespace Parse

open ParseState

variable {text : List Char}

/-- Nested braces are read as nested blocks, up to what stands after them, and nothing is
reported. -/
theorem statementsTail_bracePairs {count limit : Nat} {s : ParseState} {pairs rest : List Token}
    (hplaced : s.Placed text) (hlimit : count < limit) (hahead : s.ahead = pairs ++ rest)
    (hpairs : pairs.map Token.content = bracePairs count)
    (hrest : ∃ next others, rest = next :: others ∧
      (next.kind = .endOfText ∨ next.kind = .punctuator .closeBrace)) :
    ∃ statements s', (statementsTail limit).run s = (statements, s') ∧ s'.Placed text ∧
      s.Leads s' ∧ s'.ahead = rest ∧ s'.issues = s.issues ∧ blockNestingAll statements = count := by
  obtain ⟨next, others, rfl, hnext⟩ := hrest
  induction count generalizing limit s pairs next others with
  | zero =>
    obtain ⟨limit, rfl⟩ := Nat.exists_eq_add_one_of_ne_zero (Nat.ne_of_gt hlimit)
    obtain rfl : pairs = [] := List.map_eq_nil_iff.mp hpairs
    rw [← current_of_ahead hahead] at hnext
    exact ⟨[], s, statementsTail_run_stop limit hnext, hplaced, .refl s, hahead, rfl, rfl⟩
  | succ count ih =>
    obtain ⟨limit, rfl⟩ : ∃ rest, limit = rest + 1 :=
      Nat.exists_eq_add_one_of_ne_zero (Nat.ne_of_gt (Nat.zero_lt_of_lt hlimit))
    obtain ⟨opening, later, rfl, hopening, hlater⟩ := List.map_eq_cons_iff.mp hpairs
    obtain ⟨inner, last, rfl, hinner, hlast⟩ := List.map_eq_append_iff.mp hlater
    obtain ⟨closing, rfl, hclosing⟩ := List.map_eq_singleton_iff.mp hlast
    -- the opening brace, the statements inside and the closing brace
    have hopen : s.current.kind = .punctuator .openBrace := by
      rw [current_of_ahead hahead]
      exact congrArg Prod.fst hopening
    have htook := (hplaced.ready.took_punctuator hopen).1.ahead
    have hinside : s.taken.ahead = inner ++ closing :: next :: others := by
      have h := hahead.symm.trans htook
      simpa using (List.cons.inj h).2.symm
    have hclose : closing.kind = .punctuator .closeBrace := congrArg Prod.fst hclosing
    obtain ⟨statements, s₁, hrun₁, hplaced₁, hleads₁, hahead₁, hissues₁, hnesting₁⟩ :=
      ih hplaced.taken (Nat.lt_of_succ_lt_succ hlimit) hinner closing _ (.inr hclose) hinside
    rw [← current_of_ahead hahead₁] at hclose
    have hblock := statement_run_block hopen hrun₁ hclose
    have hmoved : s.current.span.start < s₁.taken.current.span.start :=
      hplaced.start_lt hopen (hleads₁.trans hplaced₁.leads_taken)
    have hafter : s₁.taken.numbered.ahead = next :: others :=
      taken_ahead hahead₁ (List.cons_ne_nil _ _)
    obtain ⟨limit, rfl⟩ : ∃ less, limit = less + 1 :=
      Nat.exists_eq_add_one_of_ne_zero (by omega)
    rw [← current_of_ahead hafter] at hnext
    have hrun := statementsTail_run_cons (limit + 1) (by simp [hopen]) (by simp [hopen])
      hblock hmoved
    rw [statementsTail_run_stop limit hnext] at hrun
    refine ⟨_, _, hrun, hplaced₁.taken.numbered, ?_, hafter, ?_, ?_⟩
    · exact ((hplaced.leads_taken.trans hleads₁).trans hplaced₁.leads_taken).trans
        (leads_numbered _)
    · rw [numbered_issues, taken_issues, hissues₁, taken_issues]
    · simp [blockNestingAll, Statement.blockNesting, hnesting₁]

end Parse

/-- The depth limit bounds the nesting of a parsed expression, thirteen for each level, where right
operands of powers are not counted; in a parsed file blocks are nested at most as deeply as there
are opening braces. -/
theorem parse_nesting_bounded (name text : String) :
    (∀ nested node, Expr.Path BinaryOp.isNotPower (Expr.parse text).tree nested node →
      nested ≤ 13 * Parse.depthLimit) ∧
    (SourceFile.parse name text).tree.blockNesting ≤
      Token.braces (Token.ofText Alphabet.standard text.toList) := by
  constructor
  · intro nested node hpath
    have hnesting : (Expr.parse text).tree.nesting BinaryOp.isNotPower ≤ 13 * Parse.depthLimit :=
      Parse.wholeExpression_nests _
    have hle := hpath.le_nesting
    omega
  · have hplaced := ParseState.Placed.initial text.toList
    have hahead := Parse.initial_ahead (Token.ofText_ne_nil Alphabet.standard text.toList)
    have hlast : Token.braces (Parse.initial (Token.ofText Alphabet.standard text.toList)).ahead =
        Token.braces (Token.ofText Alphabet.standard text.toList) := by rw [hahead]
    obtain ⟨-, -, hbraces⟩ := Parse.statementsTail_braces
      (Parse.initial (Token.ofText Alphabet.standard text.toList)).ahead.length _ hplaced
    rw [← hlast]
    exact Nat.le_trans (Nat.le_add_right _ _) hbraces

/-- Nested braces are nested blocks, as many as there are, and nothing is reported. -/
theorem parse_braces (name : String) (count : Nat) :
    (SourceFile.parse name (String.ofList (Token.written (bracePairs count)))).issues = [] ∧
      (SourceFile.parse name (String.ofList (Token.written (bracePairs count)))).tree.blockNesting =
        count := by
  rw [SourceFile.parse, String.toList_ofList]
  obtain ⟨tokens, final, htokens, hfinal, hcontents, hfaults⟩ := Token.read_written
    (bracePairs_writable Alphabet.standard count) 0 (Nat.lt_succ_self _)
  have hplaced := ParseState.Placed.initial (Token.written (bracePairs count))
  rw [Token.ofText, htokens] at hplaced ⊢
  have hahead : (Parse.initial (tokens ++ [final])).ahead = tokens ++ [final] :=
    Parse.initial_ahead (by simp)
  have hlimit : count < (Parse.initial (tokens ++ [final])).ahead.length := by
    have hlength : tokens.length = (bracePairs count).length := by rw [← hcontents, List.length_map]
    have hmany := le_length_bracePairs count
    rw [hahead, List.length_append, List.length_singleton]
    omega
  obtain ⟨statements, s', hrun, -, -, -, hissues, hnesting⟩ := Parse.statementsTail_bracePairs
    hplaced hlimit hahead hcontents ⟨final, [], rfl, .inl hfinal⟩
  have hwhole : (Parse.wholeFile name (Token.written (bracePairs count))).run
      (Parse.initial (tokens ++ [final])) =
        (⟨⟨s'.nextId, ⟨0, (Token.written (bracePairs count)).length⟩⟩, statements, name,
          Token.written (bracePairs count)⟩, s'.numbered) := by
    have hstatements : Parse.statements.run (Parse.initial (tokens ++ [final])) =
        (statements, s') := hrun
    rw [Parse.wholeFile, Parse.run_bind, hstatements]
    rfl
  rw [Parse.initial_issues] at hissues
  rw [Parse.throughout, hwhole]
  simp only [ParseState.numbered_issues, hissues, Parse.tokenIssues_eq_nil hfaults, List.append_nil]
  exact ⟨List.mergeSort_nil, hnesting⟩

/-- The depth limit bounds neither the right operands of powers nor the blocks. -/
theorem parse_nests_past_limit :
    (∃ text nested node, Expr.Path (fun _ => true) (Expr.parse text).tree nested node ∧
      16 * (Parse.depthLimit + 1) < nested) ∧
    ∃ text, (SourceFile.parse "test.d.ts" text).issues = [] ∧
      Parse.depthLimit < (SourceFile.parse "test.d.ts" text).tree.blockNesting := by
  obtain ⟨-, node, hpath⟩ := Expr.parse_powers 3217
  obtain ⟨hissues, hnesting⟩ := parse_braces "test.d.ts" 201
  refine ⟨⟨_, _, node, hpath, by decide⟩, _, hissues, ?_⟩
  rw [hnesting]
  decide

end ExpressionTyping
