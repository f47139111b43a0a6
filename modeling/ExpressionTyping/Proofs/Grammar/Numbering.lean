import ExpressionTyping.Grammar.Basic
import ExpressionTyping.Proofs.Grammar.Step
import ExpressionTyping.Proofs.Syntax.NodeTrees

/-!
# How nodes are numbered

A node takes the next number when it is closed, and by then all that is inside it has been read. So
the trees that a parse has read and not yet enclosed are at every moment a forest `Numbered` up to
the next number. `Parse.Numbers` says how a parse goes on with such a forest: most steps leave it as
it is (`Parse.Keeps`), a nested parse adds trees on the right (`Numbers.after`), and closing a node
encloses the whole forest (`closeNode_numbers`).

At the end of the text a single tree is left, and it has all the numbers that were given
(`parse_numbers_postorder`).
-/

set_option autoImplicit false

namespace ExpressionTyping

namespace Parse

variable {α β : Type}

/-- A parse that starts with one numbered forest ends with another. -/
def Numbers (before : List NodeTree) (p : Parse α) (after : α → List NodeTree) : Prop :=
  ∀ (start : Nat) (s : ParseState), Numbered start s.nextId before →
    Numbered start (p.run s).2.nextId (after (p.run s).1)

/-- A parse gives no number. -/
def Keeps (p : Parse α) : Prop :=
  ∀ s : ParseState, (p.run s).2.nextId = s.nextId

namespace Numbers

variable {before : List NodeTree} {p : Parse α} {trees : α → List NodeTree}

/-- A parse that does nothing leaves the forest as it is. -/
theorem pure {a : α} (h : before = trees a) : Numbers before (pure a) trees := by
  intro start s hbefore
  rw [h] at hbefore
  exact hbefore

/-- Parses in a row hand on the forest from one to the next. -/
theorem bind {f : α → Parse β} {final : β → List NodeTree} (hp : Numbers before p trees)
    (hf : ∀ a, Numbers (trees a) (f a) final) : Numbers before (p >>= f) final :=
  fun start s h => hf _ start _ (hp start s h)

/-- A choice ends with a forest when both branches do. -/
theorem ite {c : Prop} [Decidable c] {q : Parse α} (hp : Numbers before p trees)
    (hq : Numbers before q trees) : Numbers before (if c then p else q) trees := by
  split
  · exact hp
  · exact hq

/-- What was read before stays on the left. -/
theorem frame (context : List NodeTree) (h : Numbers before p trees) :
    Numbers (context ++ before) p fun a => context ++ trees a := by
  intro start s hall
  obtain ⟨middle, hcontext, hbefore⟩ := hall.of_append
  exact hcontext.append (h middle s hbefore)

/-- A parse that starts with nothing adds what it reads on the right. -/
theorem after (context : List NodeTree) (h : Numbers [] p trees) :
    Numbers context p fun a => context ++ trees a := by
  have hframe := h.frame context
  rwa [List.append_nil] at hframe

end Numbers

namespace Keeps

/-- Steps in a row that give no number give none together. -/
theorem bind {p : Parse α} {f : α → Parse β} (hp : Keeps p) (hf : ∀ a, Keeps (f a)) :
    Keeps (p >>= f) :=
  fun s => (hf _ _).trans (hp s)

/-- A choice between steps that give no number gives none. -/
theorem ite {c : Prop} [Decidable c] {p q : Parse α} (hp : Keeps p) (hq : Keeps q) :
    Keeps (if c then p else q) := by
  split
  · exact hp
  · exact hq

/-- A step without a number leaves the forest as it is. -/
theorem next {p : Parse α} {f : α → Parse β} {before : List NodeTree}
    {trees : β → List NodeTree} (hp : Keeps p) (hf : ∀ a, Numbers before (f a) trees) :
    Numbers before (p >>= f) trees := by
  intro start s h
  rw [← hp s] at h
  exact hf (p.run s).1 start (p.run s).2 h

end Keeps

/-! ## Steps -/

/-- Doing nothing gives no number. -/
theorem pure_keeps (a : α) : Keeps (pure a) :=
  fun _ => rfl

/-- Looking at the current token gives no number. -/
theorem current_keeps : Keeps current :=
  fun _ => rfl

/-- Counting the tokens ahead gives no number. -/
theorem remaining_keeps : Keeps remaining :=
  fun _ => rfl

/-- Asking for the kind of the current token gives no number. -/
theorem isAt_keeps (kind : TokenKind) : Keeps (isAt kind) :=
  fun _ => rfl

/-- Asking for a punctuator gives no number. -/
theorem isAtPunctuator_keeps (p : Punctuator) : Keeps (isAtPunctuator p) :=
  isAt_keeps _

/-- Reporting a problem gives no number. -/
theorem report_keeps (problem : Problem) : Keeps (report problem) :=
  fun _ => rfl

/-- Taking a token gives no number. -/
theorem advance_keeps : Keeps advance := by
  rintro ⟨current, upcoming, previousStop, nextId, issues⟩
  cases upcoming <;> rfl

/-- Expecting a punctuator gives no number. -/
theorem expectPunctuator_keeps (p : Punctuator) : Keeps (expectPunctuator p) :=
  (isAt_keeps _).bind fun _ => .ite advance_keeps (report_keeps _)

/-- Taking a punctuator, if it is there, gives no number. -/
theorem accept?_keeps (p : Punctuator) : Keeps (accept? p) :=
  (isAtPunctuator_keeps p).bind fun _ => .ite
    (current_keeps.bind fun _ => advance_keeps.bind fun _ => pure_keeps _) (pure_keeps _)

/-- Taking a punctuator and telling whether it was there gives no number. -/
theorem accept_keeps (p : Punctuator) : Keeps (accept p) :=
  (accept?_keeps p).bind fun _ => pure_keeps _

/-- A new node encloses all that was read. -/
theorem newNode_numbers (span : Span) (before : List NodeTree) :
    Numbers before (newNode span) fun node => [.mk node.id before] :=
  fun _ _ h => h.enclose

/-- Closing a node puts the forest read so far under the next number. -/
theorem closeNode_numbers (start : Nat) (before : List NodeTree) :
    Numbers before (closeNode start) fun node => [.mk node.id before] :=
  fun _ _ h => h.enclose

/-- A name is a tree of its own, whose number is the next one. -/
theorem identifier_numbers : Numbers [] identifier fun name => [name.nodeTree] := by
  refine current_keeps.next fun token => .ite ?_ ?_
  · exact advance_keeps.next fun _ => (newNode_numbers _ _).bind fun _ => .pure rfl
  · exact (report_keeps _).next fun _ => (newNode_numbers _ _).bind fun _ => .pure rfl

/-- The name of a member is a tree of its own, whose number is the next one. -/
theorem memberName_numbers : Numbers [] memberName fun name => [name.nodeTree] := by
  refine current_keeps.next fun token => .ite ?_ identifier_numbers
  exact advance_keeps.next fun _ => (newNode_numbers _ _).bind fun _ => .pure rfl

/-! ## Expressions -/

/-- A parse reads one tree of an expression. -/
abbrev NumbersExpr (before : List NodeTree) (p : Parse Expr) : Prop :=
  Numbers before p fun e => [e.nodeTree]

/-- A missing expression is a leaf with the next number. -/
theorem missing_numbers : NumbersExpr [] missing :=
  (report_keeps _).next fun _ => current_keeps.next fun _ =>
    (newNode_numbers _ _).bind fun _ => .pure rfl

section Levels

variable {assignment operand : Parse Expr} (h : NumbersExpr [] assignment)
include h

/-- A primary expression has its number after those of its parts. -/
theorem primary_numbers : NumbersExpr [] (primary assignment) := by
  refine current_keeps.next fun token => .ite (identifier_numbers.bind fun _ => .pure rfl) ?_
  cases Literal.ofToken? token with
  | some value =>
    exact advance_keeps.next fun _ => (newNode_numbers _ _).bind fun _ => .pure rfl
  | none =>
    refine (accept_keeps _).next fun _ => .ite ?_ missing_numbers
    exact Numbers.bind h fun _ => (expectPunctuator_keeps _).next fun _ =>
      (closeNode_numbers _ _).bind fun _ => .pure rfl

/-- Further arguments are numbered from left to right. -/
theorem argumentsTail_numbers (limit : Nat) :
    Numbers [] (argumentsTail assignment limit) argumentTrees := by
  induction limit with
  | zero => exact .pure rfl
  | succ limit ih =>
    refine (isAtPunctuator_keeps _).next fun _ => (isAt_keeps _).next fun _ => .ite (.pure rfl) ?_
    refine Numbers.bind h fun argument => (accept_keeps _).next fun _ => .ite ?_ (.pure rfl)
    exact (ih.after [argument.nodeTree]).bind fun _ => .pure rfl

/-- Arguments are numbered from left to right. -/
theorem arguments_numbers : Numbers [] (arguments assignment) argumentTrees :=
  (expectPunctuator_keeps _).next fun _ => remaining_keeps.next fun limit =>
    (argumentsTail_numbers h limit).bind fun _ => (expectPunctuator_keeps _).next fun _ => .pure rfl

/-- Each member, key or call takes the tree of what stands before it as its first part. -/
theorem accessTail_numbers (limit : Nat) (e : Expr) :
    NumbersExpr [e.nodeTree] (accessTail assignment limit e) := by
  induction limit generalizing e with
  | zero => exact .pure rfl
  | succ limit ih =>
    refine (accept_keeps _).next fun _ => .ite ?_ ?_
    · exact (memberName_numbers.after [e.nodeTree]).bind fun name =>
        (closeNode_numbers _ _).bind fun node => ih (.member node e name)
    refine (accept_keeps _).next fun _ => .ite ?_ ?_
    · exact (Numbers.after [e.nodeTree] h).bind fun key =>
        (expectPunctuator_keeps _).next fun _ =>
          (closeNode_numbers _ _).bind fun node => ih (.element node e key)
    refine (isAtPunctuator_keeps _).next fun _ => .ite ?_ (.pure rfl)
    exact ((arguments_numbers h).after [e.nodeTree]).bind fun values =>
      (closeNode_numbers _ _).bind fun node => ih (.call node e values)

/-- A primary expression with what follows it is one tree, numbered in post-order. -/
theorem access_numbers : NumbersExpr [] (access assignment) :=
  (primary_numbers h).bind fun e => remaining_keeps.next fun limit => accessTail_numbers h limit e

/-- An operator in front has its number after that of its operand. -/
theorem unary_numbers {operand? : Option (Parse Expr)}
    (hoperand : ∀ operand ∈ operand?, NumbersExpr [] operand) :
    NumbersExpr [] (unary assignment operand?) := by
  refine current_keeps.next fun token => ?_
  cases UnaryOp.ofToken? token.kind with
  | none => exact access_numbers h
  | some op =>
    cases operand? with
    | none => exact missing_numbers
    | some operand =>
      exact advance_keeps.next fun _ => (hoperand operand rfl).bind fun e =>
        (closeNode_numbers _ _).bind fun _ => .pure rfl

end Levels

section Levels

variable {assignment operand : Parse Expr} (hoperand : NumbersExpr [] operand)
include hoperand

/-- Each operator takes the tree on its left as its first part and has its number after that of its
right operand. -/
theorem binaryTail_numbers (limit : Nat) (bound : Precedence) (left : Expr) :
    NumbersExpr [left.nodeTree] (binaryTail operand limit bound left) := by
  induction limit generalizing bound left with
  | zero => exact .pure rfl
  | succ limit ih =>
    refine current_keeps.next fun token => ?_
    cases BinaryOp.ofToken? token.kind with
    | none => exact .pure rfl
    | some op =>
      refine .ite (advance_keeps.next fun _ => ?_) (.pure rfl)
      -- the right operand is read while the left one waits
      refine (Numbers.after [left.nodeTree] hoperand).bind fun first => ?_
      refine ((ih op.precedence.rightFloor first).frame [left.nodeTree]).bind fun right => ?_
      exact (closeNode_numbers _ _).bind fun node => ih bound (.binary node left op token.span right)

/-- Operands joined by operators are one tree, numbered in post-order. -/
theorem binary_numbers : NumbersExpr [] (binary operand) :=
  Numbers.bind hoperand fun left => remaining_keeps.next fun limit =>
    binaryTail_numbers hoperand limit .floor left

variable (h : NumbersExpr [] assignment)
include h

/-- A choice has its number after those of its condition and its branches. -/
theorem conditional_numbers : NumbersExpr [] (conditional assignment operand) := by
  refine (binary_numbers hoperand).bind fun condition => (accept_keeps _).next fun _ =>
    .ite ?_ (.pure rfl)
  refine (Numbers.after [condition.nodeTree] h).bind fun whenTrue =>
    (expectPunctuator_keeps _).next fun _ => ?_
  exact (Numbers.after [condition.nodeTree, whenTrue.nodeTree] h).bind fun _ =>
    (closeNode_numbers _ _).bind fun _ => .pure rfl

/-- An assignment has its number after those of its target and its value. -/
theorem assignment_numbers : NumbersExpr [] (Parse.assignment assignment operand) := by
  refine (conditional_numbers hoperand h).bind fun target => (accept?_keeps _).next fun mark => ?_
  cases mark with
  | none => exact .pure rfl
  | some mark =>
    exact (Numbers.after [target.nodeTree] h).bind fun _ =>
      (closeNode_numbers _ _).bind fun _ => .pure rfl

end Levels

/-- Nested expressions are numbered in post-order at every depth. -/
theorem nested_numbers (depth : Nat) :
    NumbersExpr [] (nested depth).assignment ∧ NumbersExpr [] (nested depth).unary := by
  induction depth with
  | zero => exact ⟨missing_numbers, unary_numbers missing_numbers nofun⟩
  | succ depth ih =>
    obtain ⟨hassignment, hunary⟩ := ih
    have houter := assignment_numbers hunary hassignment
    refine ⟨houter, unary_numbers houter ?_⟩
    rintro operand ⟨⟩
    exact hunary

/-- An expression is one tree, numbered in post-order. -/
theorem expression_numbers : NumbersExpr [] expression :=
  (nested_numbers depthLimit).1

/-- A whole expression is one tree, numbered in post-order from zero. -/
theorem wholeExpression_numbers : NumbersExpr [] wholeExpression := by
  refine expression_numbers.bind fun _ => current_keeps.next fun token => .ite ?_ ?_
  · exact .pure rfl
  · exact (report_keeps _).next fun _ => .pure rfl

/-! ## Types -/

/-- A parse reads one tree of a type. -/
abbrev NumbersType (before : List NodeTree) (p : Parse TypeNode) : Prop :=
  Numbers before p fun type => [type.nodeTree]

/-- Looking ahead for a function type gives no number. -/
theorem startsFunctionType_keeps : Keeps startsFunctionType :=
  fun _ => rfl

/-- A missing type is a leaf with the next number. -/
theorem missingType_numbers : NumbersType [] missingType :=
  (report_keeps _).next fun _ => current_keeps.next fun _ =>
    (newNode_numbers _ _).bind fun _ => .pure rfl

section Types

variable {type : Parse TypeNode} (h : NumbersType [] type)
include h

/-- An annotation, if there is one, is the tree of its type. -/
theorem optionalType_numbers : Numbers [] (optionalType type) annotationTrees :=
  (accept_keeps _).next fun _ => .ite (Numbers.bind h fun _ => .pure rfl) (.pure rfl)

/-- A parameter has its number after those of its name and its type. -/
theorem parameter_numbers : Numbers [] (parameter type) fun parameter => [parameter.nodeTree] := by
  refine current_keeps.next fun token => (accept?_keeps _).next fun rest => ?_
  refine identifier_numbers.bind fun name => (accept_keeps _).next fun _ => ?_
  exact ((optionalType_numbers h).after [name.nodeTree]).bind fun _ =>
    (closeNode_numbers _ _).bind fun _ => .pure rfl

/-- Further parameters are numbered from left to right. -/
theorem parametersTail_numbers (limit : Nat) (afterRest : Bool) :
    Numbers [] (parametersTail type limit afterRest) parameterTrees := by
  induction limit generalizing afterRest with
  | zero => exact .pure rfl
  | succ limit ih =>
    refine (isAtPunctuator_keeps _).next fun _ => (isAt_keeps _).next fun _ => .ite (.pure rfl) ?_
    have hothers : Numbers [] (do
        let first ← parameter type
        if ← accept .comma then
          return first :: (← parametersTail type limit first.isRest)
        else return [first]) parameterTrees := by
      refine (parameter_numbers h).bind fun first => (accept_keeps _).next fun _ =>
        .ite ?_ (.pure rfl)
      exact ((ih first.isRest).after [first.nodeTree]).bind fun _ => .pure rfl
    exact .ite ((report_keeps _).next fun _ => hothers) hothers

/-- Parameters are numbered from left to right. -/
theorem parameters_numbers : Numbers [] (parameters type) parameterTrees :=
  (expectPunctuator_keeps _).next fun _ => remaining_keeps.next fun limit =>
    (parametersTail_numbers h limit false).bind fun _ =>
      (expectPunctuator_keeps _).next fun _ => .pure rfl

/-- A member has its number after those of its name, its parameters and its type. -/
theorem element_numbers : Numbers [] (element type) fun element => [element.nodeTree] := by
  refine current_keeps.next fun token => memberName_numbers.bind fun name =>
    (accept_keeps _).next fun _ => (isAtPunctuator_keeps _).next fun _ => .ite ?_ ?_
  · refine ((parameters_numbers h).after [name.nodeTree]).bind fun values => ?_
    refine ((optionalType_numbers h).after ([name.nodeTree] ++ parameterTrees values)).bind
      fun _ => ?_
    exact (closeNode_numbers _ _).bind fun _ => .pure rfl
  · exact ((optionalType_numbers h).after [name.nodeTree]).bind fun _ =>
      (closeNode_numbers _ _).bind fun _ => .pure rfl

/-- Further members are numbered from left to right. -/
theorem elementsTail_numbers (limit : Nat) : Numbers [] (elementsTail type limit) elementTrees := by
  induction limit with
  | zero => exact .pure rfl
  | succ limit ih =>
    refine (isAtPunctuator_keeps _).next fun _ => (isAt_keeps _).next fun _ => .ite (.pure rfl) ?_
    refine current_keeps.next fun token => (element_numbers h).bind fun first => ?_
    have hothers : Numbers [first.nodeTree] (do
        return first :: (← elementsTail type limit)) elementTrees :=
      (ih.after [first.nodeTree]).bind fun _ => .pure rfl
    have hmoves : Numbers [first.nodeTree] (do
        if (← current).span.start = token.span.start then advance
        return first :: (← elementsTail type limit)) elementTrees :=
      current_keeps.next fun _ => .ite (advance_keeps.next fun _ => hothers) hothers
    exact (accept_keeps _).next fun _ => .ite hmoves ((accept_keeps _).next fun _ => hmoves)

/-- Members are numbered from left to right. -/
theorem elements_numbers : Numbers [] (elements type) elementTrees :=
  (expectPunctuator_keeps _).next fun _ => remaining_keeps.next fun limit =>
    (elementsTail_numbers h limit).bind fun _ => (expectPunctuator_keeps _).next fun _ => .pure rfl

/-- A primary type has its number after those of its parts. -/
theorem primaryType_numbers : NumbersType [] (primaryType type) := by
  refine current_keeps.next fun token => ?_
  cases TypeWord.ofToken? token.kind with
  | some word => exact advance_keeps.next fun _ => (newNode_numbers _ _).bind fun _ => .pure rfl
  | none =>
    cases Literal.ofToken? token with
    | some value =>
      exact advance_keeps.next fun _ => (newNode_numbers _ _).bind fun _ =>
        (closeNode_numbers _ _).bind fun _ => .pure rfl
    | none =>
      refine .ite ?_ (.ite ?_ (.ite ?_ missingType_numbers))
      · exact (elements_numbers h).bind fun _ => (closeNode_numbers _ _).bind fun _ => .pure rfl
      · refine startsFunctionType_keeps.next fun _ => .ite ?_ ?_
        · refine (parameters_numbers h).bind fun values =>
            (expectPunctuator_keeps _).next fun _ => ?_
          exact (Numbers.after (parameterTrees values) h).bind fun _ =>
            (closeNode_numbers _ _).bind fun _ => .pure rfl
        · exact advance_keeps.next fun _ => Numbers.bind h fun _ =>
            (expectPunctuator_keeps _).next fun _ =>
              (closeNode_numbers _ _).bind fun _ => .pure rfl
      · exact identifier_numbers.bind fun _ => (closeNode_numbers _ _).bind fun _ => .pure rfl

omit h in
/-- Each pair of brackets takes the type before it as its part. -/
theorem arrayTail_numbers (start limit : Nat) (element : TypeNode) :
    NumbersType [element.nodeTree] (arrayTail start limit element) := by
  induction limit generalizing element with
  | zero => exact .pure rfl
  | succ limit ih =>
    refine current_keeps.next fun token => .ite ?_ (.pure rfl)
    exact advance_keeps.next fun _ => (expectPunctuator_keeps _).next fun _ =>
      (closeNode_numbers _ _).bind fun node => ih (.array node element)

/-- An array type is one tree, numbered in post-order. -/
theorem arrayType_numbers : NumbersType [] (arrayType type) :=
  current_keeps.next fun _ => (primaryType_numbers h).bind fun element =>
    remaining_keeps.next fun limit => arrayTail_numbers _ limit element

/-- Further members of a union are numbered from left to right. -/
theorem unionTail_numbers (limit : Nat) : Numbers [] (unionTail type limit) typeTrees := by
  induction limit with
  | zero => exact .pure rfl
  | succ limit ih =>
    refine (accept_keeps _).next fun _ => .ite ?_ (.pure rfl)
    exact (arrayType_numbers h).bind fun member => (ih.after [member.nodeTree]).bind fun _ =>
      .pure rfl

/-- A union has its number after those of its members. -/
theorem unionType_numbers : NumbersType [] (unionType type) := by
  refine current_keeps.next fun token => (accept_keeps _).next fun _ =>
    (arrayType_numbers h).bind fun first => remaining_keeps.next fun limit =>
      ((unionTail_numbers h limit).after [first.nodeTree]).bind fun others => ?_
  cases others with
  | nil => exact .pure rfl
  | cons second others => exact (closeNode_numbers _ _).bind fun _ => .pure rfl

end Types

/-- Nested types are numbered in post-order at every depth. -/
theorem nestedType_numbers (depth : Nat) : NumbersType [] (nestedType depth) := by
  induction depth with
  | zero => exact missingType_numbers
  | succ depth ih => exact unionType_numbers ih

/-- A type is one tree, numbered in post-order. -/
theorem typeNode_numbers : NumbersType [] typeNode :=
  nestedType_numbers depthLimit

/-! ## Statements -/

/-- The end of a statement gives no number. -/
theorem endStatement_keeps : Keeps endStatement :=
  current_keeps.bind fun _ => .ite advance_keeps (.ite (pure_keeps _) (report_keeps _))

/-- Looking at the next token gives no number. -/
theorem nextKind_keeps : Keeps nextKind :=
  fun _ => rfl

/-- A variable declaration has its number after those of its name, its type and its value. -/
theorem variableDeclaration_numbers :
    Numbers [] variableDeclaration fun declaration => [declaration.nodeTree] := by
  refine current_keeps.next fun token => identifier_numbers.bind fun name => ?_
  refine ((optionalType_numbers typeNode_numbers).after [name.nodeTree]).bind fun written => ?_
  have hclose (value : Option Expr) :
      Numbers ([name.nodeTree] ++ annotationTrees written ++ argumentTrees value.toList)
        (do return (⟨← closeNode token.span.start, name, written, value⟩ : VariableDeclaration))
        fun declaration => [declaration.nodeTree] :=
    (closeNode_numbers _ _).bind fun node => .pure (by
      simp [VariableDeclaration.nodeTree])
  refine (accept_keeps _).next fun _ => .ite ?_ ?_
  · exact (expression_numbers.after _).bind fun value => hclose (some value)
  · have hnone := hclose none
    rwa [Option.toList_none, argumentTrees, List.append_nil] at hnone

/-- Further variable declarations are numbered from left to right. -/
theorem variablesTail_numbers (limit : Nat) :
    Numbers [] (variablesTail limit) fun declarations =>
      declarations.map VariableDeclaration.nodeTree := by
  induction limit with
  | zero => exact .pure rfl
  | succ limit ih =>
    refine variableDeclaration_numbers.bind fun first => (accept_keeps _).next fun _ =>
      .ite ?_ (.pure rfl)
    exact (ih.after [first.nodeTree]).bind fun _ => .pure rfl

/-- A parse reads one tree of a statement. -/
abbrev NumbersStatement (before : List NodeTree) (p : Parse Statement) : Prop :=
  Numbers before p fun statement => [statement.nodeTree]

/-- A variable statement has its number after those of its declarations. -/
theorem variableStatement_numbers (start : Nat) (ambient : Bool) (form : VariableForm) :
    NumbersStatement [] (variableStatement start ambient form) :=
  current_keeps.next fun _ => advance_keeps.next fun _ => remaining_keeps.next fun limit =>
    (variablesTail_numbers limit).bind fun _ => (closeNode_numbers _ _).bind fun _ =>
      endStatement_keeps.next fun _ => (closeNode_numbers _ _).bind fun _ => .pure rfl

/-- A function declaration has its number after those of its name, its parameters and its result. -/
theorem functionDeclaration_numbers (start : Nat) (ambient : Bool) :
    NumbersStatement [] (functionDeclaration start ambient) := by
  refine advance_keeps.next fun _ => identifier_numbers.bind fun name => ?_
  refine ((parameters_numbers typeNode_numbers).after [name.nodeTree]).bind fun values => ?_
  refine ((optionalType_numbers typeNode_numbers).after
    ([name.nodeTree] ++ parameterTrees values)).bind fun _ => ?_
  exact endStatement_keeps.next fun _ => (closeNode_numbers _ _).bind fun _ => .pure rfl

/-- An interface declaration has its number after those of its name and its members. -/
theorem interfaceDeclaration_numbers (start : Nat) :
    NumbersStatement [] (interfaceDeclaration start) :=
  advance_keeps.next fun _ => identifier_numbers.bind fun name =>
    ((elements_numbers typeNode_numbers).after [name.nodeTree]).bind fun _ =>
      (closeNode_numbers _ _).bind fun _ => .pure rfl

/-- An alias declaration has its number after those of its name and its type. -/
theorem aliasDeclaration_numbers (start : Nat) : NumbersStatement [] (aliasDeclaration start) :=
  advance_keeps.next fun _ => identifier_numbers.bind fun name =>
    (expectPunctuator_keeps _).next fun _ => (typeNode_numbers.after [name.nodeTree]).bind fun _ =>
      endStatement_keeps.next fun _ => (closeNode_numbers _ _).bind fun _ => .pure rfl

/-- An expression statement has its number after that of its expression. -/
theorem expressionStatement_numbers : NumbersStatement [] expressionStatement :=
  current_keeps.next fun _ => expression_numbers.bind fun _ => endStatement_keeps.next fun _ =>
    (closeNode_numbers _ _).bind fun _ => .pure rfl

/-- A statement other than a block is one tree, numbered in post-order. -/
theorem declaration_numbers (start : Nat) (ambient : Bool) :
    NumbersStatement [] (declaration start ambient) := by
  refine current_keeps.next fun token => ?_
  split
  · exact variableStatement_numbers start ambient .hoisted
  · exact variableStatement_numbers start ambient .constant
  · exact nextKind_keeps.next fun _ =>
      .ite (variableStatement_numbers start ambient .block) expressionStatement_numbers
  · exact functionDeclaration_numbers start ambient
  · exact nextKind_keeps.next fun _ =>
      .ite (interfaceDeclaration_numbers start) expressionStatement_numbers
  · exact nextKind_keeps.next fun _ =>
      .ite (aliasDeclaration_numbers start) expressionStatement_numbers
  · exact expressionStatement_numbers

/-- A block has its number after those of its statements. -/
theorem statement_numbers {body : Parse (List Statement)} (h : Numbers [] body statementTrees) :
    NumbersStatement [] (statement body) := by
  refine current_keeps.next fun token => ?_
  dsimp only
  split
  · exact advance_keeps.next fun _ => (newNode_numbers _ _).bind fun _ => .pure rfl
  · exact advance_keeps.next fun _ => Numbers.bind h fun _ =>
      (expectPunctuator_keeps _).next fun _ => (closeNode_numbers _ _).bind fun _ => .pure rfl
  · refine nextKind_keeps.next fun _ => .ite ?_ (declaration_numbers _ false)
    exact advance_keeps.next fun _ => declaration_numbers _ true
  · exact declaration_numbers _ false

/-- Statements are numbered from left to right. -/
theorem statementsTail_numbers (limit : Nat) :
    Numbers [] (statementsTail limit) statementTrees := by
  induction limit with
  | zero => exact .pure rfl
  | succ limit ih =>
    refine (isAt_keeps _).next fun _ => (isAtPunctuator_keeps _).next fun _ => .ite (.pure rfl) ?_
    refine current_keeps.next fun token => (statement_numbers ih).bind fun first => ?_
    have hothers : Numbers [first.nodeTree] (do
        return first :: (← statementsTail limit)) statementTrees :=
      (ih.after [first.nodeTree]).bind fun _ => .pure rfl
    refine current_keeps.next fun _ => .ite ?_ hothers
    exact (report_keeps _).next fun _ => advance_keeps.next fun _ => hothers

/-- A file is one tree, numbered in post-order, and its own number is the last. -/
theorem wholeFile_numbers (name : String) (text : List Char) :
    Numbers [] (wholeFile name text) fun file => [file.nodeTree] := by
  have hstatements : Numbers [] statements statementTrees :=
    remaining_keeps.next fun limit => statementsTail_numbers limit
  exact hstatements.bind fun _ => (newNode_numbers _ _).bind fun _ => .pure rfl

end Parse

/-- The nodes of a parsed expression and of a parsed file are those that the parse numbered, and
their numbers are their places in postorder. -/
theorem parse_numbers_postorder (name text : String) :
    (Expr.parse text).tree.nodeTree.InPostorder
      (Parse.wholeExpression.run
        (Parse.initial (Token.ofText Alphabet.standard text.toList))).2.nextId ∧
    (SourceFile.parse name text).tree.nodeTree.InPostorder
      ((Parse.wholeFile name text.toList).run
        (Parse.initial (Token.ofText Alphabet.standard text.toList))).2.nextId := by
  have hstart : (Parse.initial (Token.ofText Alphabet.standard text.toList)).nextId = 0 := by
    cases Token.ofText Alphabet.standard text.toList <;> rfl
  have hnil : Numbered 0 (Parse.initial (Token.ofText Alphabet.standard text.toList)).nextId [] := by
    rw [hstart]
    exact .nil 0
  exact ⟨NodeTree.inPostorder (Parse.wholeExpression_numbers 0 _ hnil),
    NodeTree.inPostorder (Parse.wholeFile_numbers name text.toList 0 _ hnil)⟩

end ExpressionTyping
