import ExpressionTyping.Grammar.Basic
import ExpressionTyping.Proofs.Token.Faults

/-!
# The steps a parse is made of

A parse knows the text through a few steps only: it looks at the current token, takes it, asks where
the last token ended, and looks ahead for the kind of the next token or for the arrow of a function
type; and it reports problems and numbers nodes. A `Script` is a parse written out in such steps. It
can be run on the tokens of a text (`Script.onTokens`), and it could be run on anything else that
takes these steps.

Every parse of the grammar is `Scripted`: it is what some script does on tokens. This is shown
production by production. The one thing to be checked is that no parse distinguishes tokens that
differ in whether a line break precedes the end of the text (`Token.seen`).
-/

set_option autoImplicit false

namespace ExpressionTyping

/-- The token as a parse sees it, which never asks for a line break before the end of the text. -/
def Token.seen (token : Token) : Token :=
  { token with afterLineBreak := token.afterLineBreak && token.kind != .endOfText }

/-- A token other than the end of the text is seen as it is. -/
theorem Token.seen_of_ne {token : Token} (h : token.kind ≠ .endOfText) : token.seen = token := by
  have hkind : (token.kind != .endOfText) = true := bne_iff_ne.mpr h
  rw [seen, hkind, Bool.and_true]

/-- A parse written out in steps, each followed by what depends on its answer. -/
inductive Script (α : Type) where
  /-- The parse ends. -/
  | done (result : α)
  /-- Looks at the current token. -/
  | look (next : Token → Script α)
  /-- Asks how many tokens are left, which bounds a loop. -/
  | remaining (next : Nat → Script α)
  /-- Asks where the token taken last ended. -/
  | previousStop (next : Nat → Script α)
  /-- Looks ahead for the kind of the next token. -/
  | nextKind (next : TokenKind → Script α)
  /-- Looks ahead for the arrow behind the parenthesis that closes the current one. -/
  | startsFunctionType (next : Bool → Script α)
  /-- Takes the current token. -/
  | advance (next : Script α)
  /-- Reports a problem, which is none of a token by itself, at the current token. -/
  | report (problem : Problem) (ordinary : problem.isLexical = false) (next : Script α)
  /-- Numbers a node. -/
  | number (span : Span) (next : Node → Script α)

namespace Script

variable {α β : Type}

/-- One script after another. -/
def bind (script : Script α) (f : α → Script β) : Script β :=
  match script with
  | done result => f result
  | look next => look fun token => (next token).bind f
  | remaining next => remaining fun count => (next count).bind f
  | previousStop next => previousStop fun stop => (next stop).bind f
  | nextKind next => nextKind fun kind => (next kind).bind f
  | startsFunctionType next => startsFunctionType fun found => (next found).bind f
  | advance next => advance (next.bind f)
  | report problem ordinary next => report problem ordinary (next.bind f)
  | number span next => number span fun node => (next node).bind f

/-- What a script does on the tokens of a text. -/
def onTokens : Script α → Parse α
  | done result => pure result
  | look next => do (next (← Parse.current).seen).onTokens
  | remaining next => do (next (← Parse.remaining)).onTokens
  | previousStop next => do (next (← get).previousStop).onTokens
  | nextKind next => do (next (← Parse.nextKind)).onTokens
  | startsFunctionType next => do (next (← Parse.startsFunctionType)).onTokens
  | advance next => do Parse.advance; next.onTokens
  | report problem _ next => do Parse.report problem; next.onTokens
  | number span next => do (next (← Parse.newNode span)).onTokens

/-- Scripts one after the other do on tokens what each of them does. -/
theorem onTokens_bind (script : Script α) (f : α → Script β) :
    (script.bind f).onTokens = script.onTokens >>= fun result => (f result).onTokens := by
  induction script with
  | done result => exact (pure_bind _ _).symm
  | look next ih | remaining next ih | previousStop next ih | nextKind next ih
  | startsFunctionType next ih | advance next ih | report problem ordinary next ih
  | number span next ih => simp only [bind, onTokens, bind_assoc, ih]

end Script

namespace Parse

variable {α β : Type}

/-- A parse is what some script does on tokens. -/
def Scripted (p : Parse α) : Prop :=
  ∃ script : Script α, script.onTokens = p

namespace Scripted

/-- Doing nothing is a script. -/
theorem pure (a : α) : Scripted (pure a) :=
  ⟨.done a, rfl⟩

/-- Scripts one after the other are a script. -/
theorem bind {p : Parse α} {f : α → Parse β} (hp : Scripted p) (hf : ∀ a, Scripted (f a)) :
    Scripted (p >>= f) := by
  obtain ⟨script, rfl⟩ := hp
  choose next hnext using hf
  refine ⟨script.bind next, ?_⟩
  rw [Script.onTokens_bind]
  exact congrArg _ (funext hnext)

/-- A choice between scripts is a script. -/
theorem ite {c : Prop} [Decidable c] {p q : Parse α} (hp : Scripted p) (hq : Scripted q) :
    Scripted (if c then p else q) := by
  split
  · exact hp
  · exact hq

/-- A parse that looks at the current token goes on with what can be seen of it. -/
theorem look {f : Token → Parse α} (hseen : ∀ token, f token.seen = f token)
    (hf : ∀ token, Scripted (f token)) : Scripted (current >>= f) := by
  choose next hnext using hf
  refine ⟨.look next, ?_⟩
  simp only [Script.onTokens, hnext, hseen]

end Scripted

/-! ## Steps -/

/-- Counting the tokens ahead is a script. -/
theorem remaining_scripted : Scripted remaining :=
  ⟨.remaining .done, bind_pure _⟩

/-- Looking at the next token is a script. -/
theorem nextKind_scripted : Scripted nextKind :=
  ⟨.nextKind .done, bind_pure _⟩

/-- Looking ahead for a function type is a script. -/
theorem startsFunctionType_scripted : Scripted startsFunctionType :=
  ⟨.startsFunctionType .done, bind_pure _⟩

/-- Taking a token is a script. -/
theorem advance_scripted : Scripted advance :=
  ⟨.advance (.done ()), bind_pure _⟩

/-- Reporting a problem that the scanner does not report is a script. -/
theorem report_scripted {problem : Problem} (h : problem.isLexical = false) :
    Scripted (report problem) :=
  ⟨.report problem h (.done ()), bind_pure _⟩

/-- Making a node is a script. -/
theorem newNode_scripted (span : Span) : Scripted (newNode span) :=
  ⟨.number span .done, bind_pure _⟩

/-- Closing a node is a script. -/
theorem closeNode_scripted (start : Nat) : Scripted (closeNode start) :=
  ⟨.previousStop fun stop => .number ⟨start, stop⟩ .done, rfl⟩

/-- Asking for a kind of token is a script. -/
theorem isAt_scripted (kind : TokenKind) : Scripted (isAt kind) :=
  .look (fun _ => rfl) fun _ => .pure _

/-- Asking for a punctuator is a script. -/
theorem isAtPunctuator_scripted (p : Punctuator) : Scripted (isAtPunctuator p) :=
  isAt_scripted _

/-- Expecting a punctuator is a script. -/
theorem expectPunctuator_scripted (p : Punctuator) : Scripted (expectPunctuator p) :=
  (isAt_scripted _).bind fun _ => .ite advance_scripted (report_scripted rfl)

/-- Taking a punctuator, if it is there, is a script. -/
theorem accept?_scripted (p : Punctuator) : Scripted (accept? p) :=
  (isAtPunctuator_scripted p).bind fun _ => .ite
    (.look (fun _ => rfl) fun _ => advance_scripted.bind fun _ => .pure _) (.pure _)

/-- Taking a punctuator and telling whether it was there is a script. -/
theorem accept_scripted (p : Punctuator) : Scripted (accept p) :=
  (accept?_scripted p).bind fun _ => .pure _

/-- Reading a name is a script. -/
theorem identifier_scripted : Scripted identifier := by
  refine .look (fun _ => rfl) fun token => .ite ?_ ?_
  · exact advance_scripted.bind fun _ => (newNode_scripted _).bind fun _ => .pure _
  · exact (report_scripted rfl).bind fun _ => (newNode_scripted _).bind fun _ => .pure _

/-- Reading the name of a member is a script. -/
theorem memberName_scripted : Scripted memberName := by
  refine .look (fun _ => rfl) fun token => .ite ?_ identifier_scripted
  exact advance_scripted.bind fun _ => (newNode_scripted _).bind fun _ => .pure _

/-! ## Expressions -/

/-- Reading a missing expression is a script. -/
theorem missing_scripted : Scripted missing :=
  (report_scripted rfl).bind fun _ => .look (fun _ => rfl) fun _ =>
    (newNode_scripted _).bind fun _ => .pure _

section Levels

variable {assignment operand : Parse Expr} (h : Scripted assignment)
include h

/-- Reading a primary expression is a script, if reading nested ones is. -/
theorem primary_scripted : Scripted (primary assignment) := by
  refine .look (fun _ => rfl) fun token => .ite (identifier_scripted.bind fun _ => .pure _) ?_
  cases Literal.ofToken? token with
  | some value => exact advance_scripted.bind fun _ => (newNode_scripted _).bind fun _ => .pure _
  | none =>
    refine (accept_scripted _).bind fun _ => .ite ?_ missing_scripted
    exact h.bind fun _ => (expectPunctuator_scripted _).bind fun _ =>
      (closeNode_scripted _).bind fun _ => .pure _

/-- Reading further arguments is a script, if reading one is. -/
theorem argumentsTail_scripted (limit : Nat) : Scripted (argumentsTail assignment limit) := by
  induction limit with
  | zero => exact .pure _
  | succ limit ih =>
    refine (isAtPunctuator_scripted _).bind fun _ => (isAt_scripted _).bind fun _ =>
      .ite (.pure _) ?_
    refine h.bind fun _ => (accept_scripted _).bind fun _ => .ite ?_ (.pure _)
    exact ih.bind fun _ => .pure _

/-- Reading arguments is a script, if reading one is. -/
theorem arguments_scripted : Scripted (arguments assignment) :=
  (expectPunctuator_scripted _).bind fun _ => remaining_scripted.bind fun limit =>
    (argumentsTail_scripted h limit).bind fun _ => (expectPunctuator_scripted _).bind fun _ =>
      .pure _

/-- Reading members, keys and calls is a script, if reading keys and arguments is. -/
theorem accessTail_scripted (limit : Nat) (e : Expr) : Scripted (accessTail assignment limit e) := by
  induction limit generalizing e with
  | zero => exact .pure _
  | succ limit ih =>
    refine (accept_scripted _).bind fun _ => .ite ?_ ?_
    · exact memberName_scripted.bind fun _ => (closeNode_scripted _).bind fun _ => ih _
    refine (accept_scripted _).bind fun _ => .ite ?_ ?_
    · exact h.bind fun _ => (expectPunctuator_scripted _).bind fun _ =>
        (closeNode_scripted _).bind fun _ => ih _
    refine (isAtPunctuator_scripted _).bind fun _ => .ite ?_ (.pure _)
    exact (arguments_scripted h).bind fun _ => (closeNode_scripted _).bind fun _ => ih _

/-- Reading a primary expression with what follows it is a script. -/
theorem access_scripted : Scripted (access assignment) :=
  (primary_scripted h).bind fun e => remaining_scripted.bind fun limit =>
    accessTail_scripted h limit e

/-- Reading operators in front of an operand is a script, if reading the operand is. -/
theorem unary_scripted {operand? : Option (Parse Expr)}
    (hoperand : ∀ operand ∈ operand?, Scripted operand) :
    Scripted (unary assignment operand?) := by
  refine .look (fun _ => rfl) fun token => ?_
  cases UnaryOp.ofToken? token.kind with
  | none => exact access_scripted h
  | some op =>
    cases operand? with
    | none => exact missing_scripted
    | some operand =>
      exact advance_scripted.bind fun _ => (hoperand operand rfl).bind fun _ =>
        (closeNode_scripted _).bind fun _ => .pure _

end Levels

section Levels

variable {assignment operand : Parse Expr} (hoperand : Scripted operand)
include hoperand

/-- Reading operators and right operands is a script, if reading operands is. -/
theorem binaryTail_scripted (limit : Nat) (bound : Precedence) (left : Expr) :
    Scripted (binaryTail operand limit bound left) := by
  induction limit generalizing bound left with
  | zero => exact .pure _
  | succ limit ih =>
    refine .look (fun _ => rfl) fun token => ?_
    cases BinaryOp.ofToken? token.kind with
    | none => exact .pure _
    | some op =>
      refine .ite (advance_scripted.bind fun _ => ?_) (.pure _)
      exact hoperand.bind fun first => (ih _ first).bind fun _ =>
        (closeNode_scripted _).bind fun _ => ih _ _

/-- Reading operands joined by operators is a script, if reading operands is. -/
theorem binary_scripted : Scripted (binary operand) :=
  hoperand.bind fun left => remaining_scripted.bind fun limit =>
    binaryTail_scripted hoperand limit .floor left

variable (h : Scripted assignment)
include h

/-- Reading a choice is a script, if reading its condition and its branches is. -/
theorem conditional_scripted : Scripted (conditional assignment operand) := by
  refine (binary_scripted hoperand).bind fun condition => (accept_scripted _).bind fun _ =>
    .ite ?_ (.pure _)
  exact h.bind fun _ => (expectPunctuator_scripted _).bind fun _ => h.bind fun _ =>
    (closeNode_scripted _).bind fun _ => .pure _

/-- Reading an assignment is a script, if reading its target and its value is. -/
theorem assignment_scripted : Scripted (Parse.assignment assignment operand) := by
  refine (conditional_scripted hoperand h).bind fun target => (accept?_scripted _).bind fun mark => ?_
  cases mark with
  | none => exact .pure _
  | some mark => exact h.bind fun _ => (closeNode_scripted _).bind fun _ => .pure _

end Levels

/-- Reading nested expressions is a script at every depth. -/
theorem nested_scripted (depth : Nat) :
    Scripted (nested depth).assignment ∧ Scripted (nested depth).unary := by
  induction depth with
  | zero => exact ⟨missing_scripted, unary_scripted missing_scripted nofun⟩
  | succ depth ih =>
    obtain ⟨hassignment, hunary⟩ := ih
    have houter := assignment_scripted hunary hassignment
    refine ⟨houter, unary_scripted houter ?_⟩
    rintro operand ⟨⟩
    exact hunary

/-- Reading an expression is a script. -/
theorem expression_scripted : Scripted expression :=
  (nested_scripted depthLimit).1

/-- Reading a whole expression is a script. -/
theorem wholeExpression_scripted : Scripted wholeExpression := by
  refine expression_scripted.bind fun _ => .look (fun _ => rfl) fun token => .ite (.pure _) ?_
  exact (report_scripted rfl).bind fun _ => .pure _

/-! ## Types -/

/-- Reading a missing type is a script. -/
theorem missingType_scripted : Scripted missingType :=
  (report_scripted rfl).bind fun _ => .look (fun _ => rfl) fun _ =>
    (newNode_scripted _).bind fun _ => .pure _

section Types

variable {type : Parse TypeNode} (h : Scripted type)
include h

/-- Reading an annotation is a script, if reading a type is. -/
theorem optionalType_scripted : Scripted (optionalType type) :=
  (accept_scripted _).bind fun _ => .ite (h.bind fun _ => .pure _) (.pure _)

/-- Reading a parameter is a script, if reading a type is. -/
theorem parameter_scripted : Scripted (parameter type) :=
  .look (fun _ => rfl) fun _ => (accept?_scripted _).bind fun _ => identifier_scripted.bind fun _ =>
    (accept_scripted _).bind fun _ => (optionalType_scripted h).bind fun _ =>
      (closeNode_scripted _).bind fun _ => .pure _

/-- Reading further parameters is a script, if reading a type is. -/
theorem parametersTail_scripted (limit : Nat) (afterRest : Bool) :
    Scripted (parametersTail type limit afterRest) := by
  induction limit generalizing afterRest with
  | zero => exact .pure _
  | succ limit ih =>
    refine (isAtPunctuator_scripted _).bind fun _ => (isAt_scripted _).bind fun _ =>
      .ite (.pure _) ?_
    have hothers : Scripted (do
        let first ← parameter type
        if ← accept .comma then
          return first :: (← parametersTail type limit first.isRest)
        else return [first]) :=
      (parameter_scripted h).bind fun first => (accept_scripted _).bind fun _ =>
        .ite ((ih first.isRest).bind fun _ => .pure _) (.pure _)
    exact .ite ((report_scripted rfl).bind fun _ => hothers) hothers

/-- Reading parameters is a script, if reading a type is. -/
theorem parameters_scripted : Scripted (parameters type) :=
  (expectPunctuator_scripted _).bind fun _ => remaining_scripted.bind fun limit =>
    (parametersTail_scripted h limit false).bind fun _ =>
      (expectPunctuator_scripted _).bind fun _ => .pure _

/-- Reading a member is a script, if reading a type is. -/
theorem element_scripted : Scripted (element type) := by
  refine .look (fun _ => rfl) fun token => memberName_scripted.bind fun name =>
    (accept_scripted _).bind fun _ => (isAtPunctuator_scripted _).bind fun _ => .ite ?_ ?_
  · exact (parameters_scripted h).bind fun _ => (optionalType_scripted h).bind fun _ =>
      (closeNode_scripted _).bind fun _ => .pure _
  · exact (optionalType_scripted h).bind fun _ => (closeNode_scripted _).bind fun _ => .pure _

/-- Reading further members is a script, if reading a type is. -/
theorem elementsTail_scripted (limit : Nat) : Scripted (elementsTail type limit) := by
  induction limit with
  | zero => exact .pure _
  | succ limit ih =>
    refine (isAtPunctuator_scripted _).bind fun _ => (isAt_scripted _).bind fun _ =>
      .ite (.pure _) ?_
    refine .look (fun _ => rfl) fun token => (element_scripted h).bind fun first => ?_
    have hothers : Scripted (do return first :: (← elementsTail type limit)) :=
      ih.bind fun _ => .pure _
    have hmoves : Scripted (do
        if (← current).span.start = token.span.start then advance
        return first :: (← elementsTail type limit)) :=
      .look (fun _ => rfl) fun _ => .ite (advance_scripted.bind fun _ => hothers) hothers
    exact (accept_scripted _).bind fun _ => .ite hmoves ((accept_scripted _).bind fun _ => hmoves)

/-- Reading members is a script, if reading a type is. -/
theorem elements_scripted : Scripted (elements type) :=
  (expectPunctuator_scripted _).bind fun _ => remaining_scripted.bind fun limit =>
    (elementsTail_scripted h limit).bind fun _ => (expectPunctuator_scripted _).bind fun _ =>
      .pure _

/-- Reading a primary type is a script, if reading nested ones is. -/
theorem primaryType_scripted : Scripted (primaryType type) := by
  refine .look (fun _ => rfl) fun token => ?_
  cases TypeWord.ofToken? token.kind with
  | some word => exact advance_scripted.bind fun _ => (newNode_scripted _).bind fun _ => .pure _
  | none =>
    cases Literal.ofToken? token with
    | some value =>
      exact advance_scripted.bind fun _ => (newNode_scripted _).bind fun _ =>
        (closeNode_scripted _).bind fun _ => .pure _
    | none =>
      refine .ite ?_ (.ite ?_ (.ite ?_ missingType_scripted))
      · exact (elements_scripted h).bind fun _ => (closeNode_scripted _).bind fun _ => .pure _
      · refine startsFunctionType_scripted.bind fun _ => .ite ?_ ?_
        · exact (parameters_scripted h).bind fun _ => (expectPunctuator_scripted _).bind fun _ =>
            h.bind fun _ => (closeNode_scripted _).bind fun _ => .pure _
        · exact advance_scripted.bind fun _ => h.bind fun _ =>
            (expectPunctuator_scripted _).bind fun _ => (closeNode_scripted _).bind fun _ => .pure _
      · exact identifier_scripted.bind fun _ => (closeNode_scripted _).bind fun _ => .pure _

omit h in
/-- Reading brackets after a type is a script. -/
theorem arrayTail_scripted (start limit : Nat) (element : TypeNode) :
    Scripted (arrayTail start limit element) := by
  induction limit generalizing element with
  | zero => exact .pure _
  | succ limit ih =>
    refine .look (fun token => ?_) fun token => .ite ?_ (.pure _)
    -- a line break is asked for only before a bracket
    · by_cases hend : token.kind = .endOfText
      · simp [Token.seen, hend]
      · rw [Token.seen_of_ne hend]
    · exact advance_scripted.bind fun _ => (expectPunctuator_scripted _).bind fun _ =>
        (closeNode_scripted _).bind fun _ => ih _

/-- Reading an array type is a script, if reading nested types is. -/
theorem arrayType_scripted : Scripted (arrayType type) :=
  .look (fun _ => rfl) fun _ => (primaryType_scripted h).bind fun element =>
    remaining_scripted.bind fun limit => arrayTail_scripted _ limit element

/-- Reading further members of a union is a script, if reading nested types is. -/
theorem unionTail_scripted (limit : Nat) : Scripted (unionTail type limit) := by
  induction limit with
  | zero => exact .pure _
  | succ limit ih =>
    refine (accept_scripted _).bind fun _ => .ite ?_ (.pure _)
    exact (arrayType_scripted h).bind fun _ => ih.bind fun _ => .pure _

/-- Reading a union is a script, if reading nested types is. -/
theorem unionType_scripted : Scripted (unionType type) :=
  .look (fun _ => rfl) fun _ => (accept_scripted _).bind fun _ =>
    (arrayType_scripted h).bind fun _ => remaining_scripted.bind fun limit =>
      (unionTail_scripted h limit).bind fun _ =>
        .ite (.pure _) ((closeNode_scripted _).bind fun _ => .pure _)

end Types

/-- Reading nested types is a script at every depth. -/
theorem nestedType_scripted (depth : Nat) : Scripted (nestedType depth) := by
  induction depth with
  | zero => exact missingType_scripted
  | succ depth ih => exact unionType_scripted ih

/-- Reading a type is a script. -/
theorem typeNode_scripted : Scripted typeNode :=
  nestedType_scripted depthLimit

/-! ## Statements -/

/-- Reading the end of a statement is a script. -/
theorem endStatement_scripted : Scripted endStatement := by
  refine .look (fun token => ?_) fun token =>
    .ite advance_scripted (.ite (.pure _) (report_scripted rfl))
  -- at the end of the text a statement ends with or without a line break
  by_cases hend : token.kind = .endOfText
  · simp [Token.seen, hend]
  · rw [Token.seen_of_ne hend]

/-- Reading a variable declaration is a script. -/
theorem variableDeclaration_scripted : Scripted variableDeclaration := by
  refine .look (fun _ => rfl) fun token => identifier_scripted.bind fun name =>
    (optionalType_scripted typeNode_scripted).bind fun written =>
      (accept_scripted _).bind fun _ => .ite ?_ ?_
  · exact expression_scripted.bind fun _ => (Scripted.pure _).bind fun _ =>
      (closeNode_scripted _).bind fun _ => .pure _
  · exact (Scripted.pure _).bind fun _ => (closeNode_scripted _).bind fun _ => .pure _

/-- Reading further variable declarations is a script. -/
theorem variablesTail_scripted (limit : Nat) : Scripted (variablesTail limit) := by
  induction limit with
  | zero => exact .pure _
  | succ limit ih =>
    refine variableDeclaration_scripted.bind fun _ => (accept_scripted _).bind fun _ =>
      .ite (ih.bind fun _ => .pure _) (.pure _)

/-- Reading a variable statement is a script. -/
theorem variableStatement_scripted (start : Nat) (ambient : Bool) (form : VariableForm) :
    Scripted (variableStatement start ambient form) :=
  .look (fun _ => rfl) fun _ => advance_scripted.bind fun _ => remaining_scripted.bind fun limit =>
    (variablesTail_scripted limit).bind fun _ => (closeNode_scripted _).bind fun _ =>
      endStatement_scripted.bind fun _ => (closeNode_scripted _).bind fun _ => .pure _

/-- Reading a function declaration is a script. -/
theorem functionDeclaration_scripted (start : Nat) (ambient : Bool) :
    Scripted (functionDeclaration start ambient) :=
  advance_scripted.bind fun _ => identifier_scripted.bind fun _ =>
    (parameters_scripted typeNode_scripted).bind fun _ =>
      (optionalType_scripted typeNode_scripted).bind fun _ => endStatement_scripted.bind fun _ =>
        (closeNode_scripted _).bind fun _ => .pure _

/-- Reading an interface declaration is a script. -/
theorem interfaceDeclaration_scripted (start : Nat) : Scripted (interfaceDeclaration start) :=
  advance_scripted.bind fun _ => identifier_scripted.bind fun _ =>
    (elements_scripted typeNode_scripted).bind fun _ => (closeNode_scripted _).bind fun _ => .pure _

/-- Reading an alias declaration is a script. -/
theorem aliasDeclaration_scripted (start : Nat) : Scripted (aliasDeclaration start) :=
  advance_scripted.bind fun _ => identifier_scripted.bind fun _ =>
    (expectPunctuator_scripted _).bind fun _ => typeNode_scripted.bind fun _ =>
      endStatement_scripted.bind fun _ => (closeNode_scripted _).bind fun _ => .pure _

/-- Reading an expression statement is a script. -/
theorem expressionStatement_scripted : Scripted expressionStatement :=
  .look (fun _ => rfl) fun _ => expression_scripted.bind fun _ => endStatement_scripted.bind fun _ =>
    (closeNode_scripted _).bind fun _ => .pure _

/-- Reading a statement other than a block is a script. -/
theorem declaration_scripted (start : Nat) (ambient : Bool) :
    Scripted (declaration start ambient) := by
  refine .look (fun _ => rfl) fun token => ?_
  split
  · exact variableStatement_scripted start ambient .hoisted
  · exact variableStatement_scripted start ambient .constant
  · exact nextKind_scripted.bind fun _ =>
      .ite (variableStatement_scripted start ambient .block) expressionStatement_scripted
  · exact functionDeclaration_scripted start ambient
  · exact nextKind_scripted.bind fun _ =>
      .ite (interfaceDeclaration_scripted start) expressionStatement_scripted
  · exact nextKind_scripted.bind fun _ =>
      .ite (aliasDeclaration_scripted start) expressionStatement_scripted
  · exact expressionStatement_scripted

/-- Reading a statement is a script, if reading the statements of a block is. -/
theorem statement_scripted {body : Parse (List Statement)} (h : Scripted body) :
    Scripted (statement body) := by
  refine .look (fun _ => rfl) fun token => ?_
  dsimp only
  split
  · exact advance_scripted.bind fun _ => (newNode_scripted _).bind fun _ => .pure _
  · exact advance_scripted.bind fun _ => h.bind fun _ =>
      (expectPunctuator_scripted _).bind fun _ => (closeNode_scripted _).bind fun _ => .pure _
  · refine nextKind_scripted.bind fun _ => .ite ?_ (declaration_scripted _ false)
    exact advance_scripted.bind fun _ => declaration_scripted _ true
  · exact declaration_scripted _ false

/-- Reading statements is a script. -/
theorem statementsTail_scripted (limit : Nat) : Scripted (statementsTail limit) := by
  induction limit with
  | zero => exact .pure _
  | succ limit ih =>
    refine (isAt_scripted _).bind fun _ => (isAtPunctuator_scripted _).bind fun _ =>
      .ite (.pure _) ?_
    refine .look (fun _ => rfl) fun token => (statement_scripted ih).bind fun first => ?_
    have hothers : Scripted (do return first :: (← statementsTail limit)) :=
      ih.bind fun _ => .pure _
    refine .look (fun _ => rfl) fun _ => .ite ?_ hothers
    exact (report_scripted rfl).bind fun _ => advance_scripted.bind fun _ => hothers

/-- Reading a file is a script. -/
theorem wholeFile_scripted (name : String) (text : List Char) :
    Scripted (wholeFile name text) := by
  have hstatements : Scripted statements :=
    remaining_scripted.bind fun limit => statementsTail_scripted limit
  exact hstatements.bind fun _ => (newNode_scripted _).bind fun _ => .pure _

end Parse

end ExpressionTyping
