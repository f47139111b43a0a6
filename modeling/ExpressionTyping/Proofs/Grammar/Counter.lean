import ExpressionTyping.Proofs.Grammar.Placement

/-!
# The depth limit kept by a counter

The grammar of expressions gives each nested reader one level less to spend. Here is the same
grammar with one counter for the whole parse instead: it goes up when an assignment or an operand of
an operator in front is entered, down when it is left, and nothing is read where it passes the depth
limit. Such a parse can go wrong in two ways, and `CountedParse` has a failure for both: the counter
could be lowered below zero, and a report could be made over bounds that are out of order.

Neither happens. On the tokens of a text the counted grammar takes the steps of the plain one and
leaves the counter as it was (`Tracks`), so a whole parse ends with the counter at zero and with the
tree and the reports of the plain parse (`parseCounted?_eq`).
-/

set_option autoImplicit false

namespace ExpressionTyping

/-- A step of a parse that keeps a counter and may fail. -/
abbrev CountedParse := StateT Nat (OptionT Parse)

namespace CountedParse

open Parse (current accept accept? isAt isAtPunctuator remaining advance newNode closeNode
  depthLimit)

variable {α β : Type}

/-- A step that neither reports nor counts. -/
def step (p : Parse α) : CountedParse α :=
  StateT.lift (OptionT.lift p)

/-- Reports a problem at the current token; bounds that are out of order make no span. -/
def report (problem : Problem) : CountedParse Unit := do
  let token ← step current
  match Span.ofBounds? token.span.start token.span.stop with
  | some _ => step (Parse.report problem)
  | none => failure

/-- Lowers the counter, which must not be zero. -/
def lower : CountedParse Unit := do
  match ← get with
  | 0 => failure
  | count + 1 => set count

/-- Goes one level down, does what is to be done at the depth limit or above it, and comes back. -/
def level (atLimit inside : CountedParse α) : CountedParse α := do
  modify (· + 1)
  if depthLimit < (← get) then
    lower
    atLimit
  else
    let result ← inside
    lower
    return result

/-- Takes a punctuator or reports that it is missing. -/
def expectPunctuator (p : Punctuator) : CountedParse Unit := do
  if ← step (isAt (.punctuator p)) then step advance
  else report (.tokenExpected ((TokenKind.punctuator p).text?.getD "token"))

/-- The name that the current token spells, or a missing name. -/
def identifier : CountedParse Identifier := do
  let token ← step current
  if token.kind.isName then
    step advance
    return ⟨← step (newNode token.span), token.value⟩
  else
    report .identifierExpected
    return ⟨← step (newNode ⟨token.span.start, token.span.start⟩), ""⟩

/-- The name of a member, which may be any keyword. -/
def memberName : CountedParse Identifier := do
  let token ← step current
  if token.kind.isKeyword then
    step advance
    return ⟨← step (newNode token.span), token.value⟩
  else identifier

/-- A missing expression. -/
def missing : CountedParse Expr := do
  report .expressionExpected
  let start := (← step current).span.start
  return .missing (← step (newNode ⟨start, start⟩))

/-- A name, a literal or an expression in parentheses. -/
def primary (assignment : CountedParse Expr) : CountedParse Expr := do
  let token ← step current
  if token.kind.isName then
    return .identifier (← identifier)
  else match Literal.ofToken? token with
    | some value =>
      step advance
      return .literal (← step (newNode token.span)) value
    | none =>
      if ← step (accept .openParen) then
        let inner ← assignment
        expectPunctuator .closeParen
        return .parenthesized (← step (closeNode token.span.start)) inner
      else missing

/-- Arguments up to the closing parenthesis, at most `limit` of them. -/
def argumentsTail (assignment : CountedParse Expr) : (limit : Nat) → CountedParse (List Expr)
  | 0 => return []
  | limit + 1 => do
    if (← step (isAtPunctuator .closeParen)) || (← step (isAt .endOfText)) then return []
    let argument ← assignment
    if ← step (accept .comma) then
      return argument :: (← argumentsTail assignment limit)
    else return [argument]

/-- Arguments in parentheses. -/
def arguments (assignment : CountedParse Expr) : CountedParse (List Expr) := do
  expectPunctuator .openParen
  let values ← argumentsTail assignment (← step remaining)
  expectPunctuator .closeParen
  return values

/-- The members, keys and calls that follow an expression, at most `limit` of them. -/
def accessTail (assignment : CountedParse Expr) : (limit : Nat) → Expr → CountedParse Expr
  | 0, e => return e
  | limit + 1, e => do
    let start := e.span.start
    if ← step (accept .dot) then
      let name ← memberName
      accessTail assignment limit (.member (← step (closeNode start)) e name)
    else if ← step (accept .openBracket) then
      let key ← assignment
      expectPunctuator .closeBracket
      accessTail assignment limit (.element (← step (closeNode start)) e key)
    else if ← step (isAtPunctuator .openParen) then
      let values ← arguments assignment
      accessTail assignment limit (.call (← step (closeNode start)) e values)
    else return e

/-- A primary expression with its members, keys and calls. -/
def access (assignment : CountedParse Expr) : CountedParse Expr := do
  let e ← primary assignment
  accessTail assignment (← step remaining) e

/-- Operators in front of an operand, each one level down. -/
def unary (assignment operand : CountedParse Expr) : CountedParse Expr := do
  let token ← step current
  match UnaryOp.ofToken? token.kind with
  | none => access assignment
  | some op =>
    level missing do
      step advance
      let e ← operand
      return .unary (← step (closeNode token.span.start)) op e

/-- The operators above a bound that follow a left operand, at most `limit` of them counting those
of right operands. -/
def binaryTail (operand : CountedParse Expr) :
    (limit : Nat) → (bound : Precedence) → Expr → CountedParse Expr
  | 0, _, left => return left
  | limit + 1, bound, left => do
    let token ← step current
    match BinaryOp.ofToken? token.kind with
    | none => return left
    | some op =>
      if bound.rank < op.precedence.rank then
        step advance
        let right ← binaryTail operand limit op.precedence.rightFloor (← operand)
        let node ← step (closeNode left.span.start)
        binaryTail operand limit bound (.binary node left op token.span right)
      else return left

/-- Operands joined by binary operators. -/
def binary (operand : CountedParse Expr) : CountedParse Expr := do
  let left ← operand
  binaryTail operand (← step remaining) .floor left

/-- A choice between two expressions, or a binary expression alone. -/
def conditional (assignment operand : CountedParse Expr) : CountedParse Expr := do
  let condition ← binary operand
  if ← step (accept .question) then
    let whenTrue ← assignment
    expectPunctuator .colon
    let whenFalse ← assignment
    return .conditional (← step (closeNode condition.span.start)) condition whenTrue whenFalse
  else return condition

/-- An assignment, which groups to the right, or a choice alone, one level down. -/
def assignment (nested operand : CountedParse Expr) : CountedParse Expr :=
  level missing do
    let target ← conditional nested operand
    match ← step (accept? .equals) with
    | some mark =>
      let value ← nested
      return .assign (← step (closeNode target.span.start)) target mark value
    | none => return target

/-- The readers of nested expressions. -/
structure Nested where
  /-- Reads any expression. -/
  assignment : CountedParse Expr
  /-- Reads an operand with the operators in front of it. -/
  unary : CountedParse Expr

/-- The readers that may call each other `calls` deep. The counter stops them before that, so at the
end of the calls is a failure. -/
def nested : (calls : Nat) → Nested
  | 0 => ⟨failure, failure⟩
  | calls + 1 =>
    let inner := nested calls
    let outer := assignment inner.assignment inner.unary
    ⟨outer, unary outer inner.unary⟩

/-- One expression; the token after it, if any, is reported. -/
def wholeExpression : CountedParse Expr := do
  let e ← (nested (depthLimit + 1)).assignment
  let token ← step current
  unless token.kind = .endOfText do
    report (.unexpectedToken token.text)
  return e

/-! ## The counted grammar takes the steps of the plain one -/

/-- Running two counted parses in a row hands on the counter, and a failure of the first ends the
run. -/
theorem run_bind (q : CountedParse α) (f : α → CountedParse β) (count : Nat) (s : ParseState) :
    ((q >>= f).run count).run.run s =
      match (q.run count).run.run s with
      | (some (a, count'), s') => ((f a).run count').run.run s'
      | (none, s') => (none, s') := by
  simp only [StateT.run_bind, OptionT.run_bind, Option.elimM]
  rcases (q.run count).run.run s with ⟨_ | ⟨a, count'⟩, s'⟩ <;> rfl

/-- From a state that stands on the tokens of a text and with the counter at `count`, a counted parse
does what a plain parse does, and the counter is at `count` again when it is done. -/
def TracksFrom (text : List Char) (count : Nat) (s : ParseState) (q : CountedParse α)
    (p : Parse α) : Prop :=
  s.Placed text →
    (q.run count).run.run s = (some ((p.run s).1, count), (p.run s).2) ∧ (p.run s).2.Placed text

/-- On the tokens of a text and with the counter at `count`, a counted parse does what a plain parse
does, wherever it starts. -/
def Tracks (text : List Char) (count : Nat) (q : CountedParse α) (p : Parse α) : Prop :=
  ∀ s, TracksFrom text count s q p

namespace Tracks

variable {text : List Char} {count : Nat}

/-- A counted parse that does nothing does what the plain one does. -/
theorem pure (a : α) : Tracks text count (Pure.pure a) (Pure.pure a) :=
  fun _ h => ⟨rfl, h⟩

/-- Counted parses that each do what plain ones do, do so one after the other. -/
theorem bind {q : CountedParse α} {p : Parse α} {f : α → CountedParse β} {g : α → Parse β}
    (h : Tracks text count q p) (hf : ∀ a, Tracks text count (f a) (g a)) :
    Tracks text count (q >>= f) (p >>= g) := by
  intro s hs
  obtain ⟨hrun, hplaced⟩ := h s hs
  obtain ⟨hrun', hplaced'⟩ := hf (p.run s).1 (p.run s).2 hplaced
  refine ⟨?_, hplaced'⟩
  rw [run_bind, hrun]
  exact hrun'

/-- A choice between counted parses does what the choice between plain ones does. -/
theorem ite {c : Prop} [Decidable c] {q q' : CountedParse α} {p p' : Parse α}
    (h : Tracks text count q p) (h' : Tracks text count q' p') :
    Tracks text count (if c then q else q') (if c then p else p') := by
  split
  · exact h
  · exact h'

/-- A step that goes forward on the tokens of a text is a step of the counted parse. -/
theorem step {p : Parse α} {Q : ParseState → α → ParseState → Prop}
    (h : ∀ s, Parse.Runs text p s (Q s)) : Tracks text count (step p) p :=
  fun s hs => ⟨rfl, (h s hs).1⟩

/-- After a look at the current token a parse goes on from the same state. -/
theorem current_bind {f : Token → CountedParse α} {g : Token → Parse α}
    (h : ∀ s, TracksFrom text count s (f s.current) (g s.current)) :
    Tracks text count (CountedParse.step current >>= f) (current >>= g) :=
  h

end Tracks

section Levels

variable {text : List Char} {count : Nat}

/-- The current token stands in the text, so its bounds are in order. -/
theorem report_tracks (problem : Problem) :
    Tracks text count (report problem) (Parse.report problem) := by
  intro s hs
  have hbounds : Span.ofBounds? s.current.span.start s.current.span.stop =
      some ⟨s.current.span.start, s.current.span.stop⟩ := if_pos hs.within.ordered
  refine ⟨?_, (Parse.report_runs problem s hs).1⟩
  rw [report, run_bind]
  show ((match Span.ofBounds? s.current.span.start s.current.span.stop with
    | some _ => step (Parse.report problem)
    | none => failure).run count).run.run s = _
  rw [hbounds]
  rfl

/-- Below the limit a level raises the counter for what is inside and lowers it again. -/
theorem level_tracks {atLimit inside : CountedParse α} {p : Parse α}
    (hcount : count < depthLimit) (h : Tracks text (count + 1) inside p) :
    Tracks text count (level atLimit inside) p := by
  intro s hs
  obtain ⟨hrun, hplaced⟩ := h s hs
  refine ⟨?_, hplaced⟩
  have hlimit : ¬depthLimit < count + 1 := by omega
  have hinside : ((level atLimit inside).run count).run.run s =
      ((inside >>= fun e => lower >>= fun _ => Pure.pure e).run (count + 1)).run.run s := by
    show ((if depthLimit < count + 1 then lower >>= fun _ => atLimit
      else inside >>= fun e => lower >>= fun _ => Pure.pure e).run (count + 1)).run.run s = _
    rw [if_neg hlimit]
  rw [hinside, run_bind, hrun]
  rfl

/-- At the limit a level reads nothing that is inside. -/
theorem level_atLimit {atLimit inside : CountedParse α} {p : Parse α}
    (hcount : count = depthLimit) (h : Tracks text count atLimit p) :
    Tracks text count (level atLimit inside) p := by
  intro s hs
  obtain ⟨hrun, hplaced⟩ := h s hs
  refine ⟨?_, hplaced⟩
  have hlimit : depthLimit < count + 1 := by omega
  have hlower : ((level atLimit inside).run count).run.run s = (atLimit.run count).run.run s := by
    show ((if depthLimit < count + 1 then lower >>= fun _ => atLimit
      else inside >>= fun e => lower >>= fun _ => Pure.pure e).run (count + 1)).run.run s = _
    rw [if_pos hlimit]
    rfl
  rw [hlower, hrun]

/-- Expecting a punctuator does what the plain parse does: its report is at a place in the text. -/
theorem expectPunctuator_tracks (p : Punctuator) :
    Tracks text count (expectPunctuator p) (Parse.expectPunctuator p) :=
  (Tracks.step (Parse.isAt_runs _)).bind fun _ =>
    .ite (.step Parse.advance_runs) (report_tracks _)

/-- Reading a name does what the plain parse does. -/
theorem identifier_tracks : Tracks text count identifier Parse.identifier :=
  (Tracks.step Parse.current_runs).bind fun _ => .ite
    ((Tracks.step Parse.advance_runs).bind fun _ =>
      (Tracks.step (Parse.newNode_runs _)).bind fun _ => .pure _)
    ((report_tracks _).bind fun _ => (Tracks.step (Parse.newNode_runs _)).bind fun _ => .pure _)

/-- Reading the name of a member does what the plain parse does. -/
theorem memberName_tracks : Tracks text count memberName Parse.memberName :=
  (Tracks.step Parse.current_runs).bind fun _ => .ite
    ((Tracks.step Parse.advance_runs).bind fun _ =>
      (Tracks.step (Parse.newNode_runs _)).bind fun _ => .pure _)
    identifier_tracks

/-- Reading a missing expression does what the plain parse does. -/
theorem missing_tracks : Tracks text count missing Parse.missing :=
  (report_tracks _).bind fun _ => (Tracks.step Parse.current_runs).bind fun _ =>
    (Tracks.step (Parse.newNode_runs _)).bind fun _ => .pure _

variable {assignment operand : CountedParse Expr} {assignment' operand' : Parse Expr}
  (h : Tracks text count assignment assignment') (hoperand : Tracks text count operand operand')

section
include h

/-- Reading a primary expression does what the plain parse does, if reading nested ones does. -/
theorem primary_tracks : Tracks text count (primary assignment) (Parse.primary assignment') := by
  refine (Tracks.step Parse.current_runs).bind fun token => .ite
    (identifier_tracks.bind fun _ => .pure _) ?_
  cases Literal.ofToken? token with
  | some value =>
    exact (Tracks.step Parse.advance_runs).bind fun _ =>
      (Tracks.step (Parse.newNode_runs _)).bind fun _ => .pure _
  | none =>
    refine (Tracks.step (Parse.accept_runs _)).bind fun _ => .ite ?_ missing_tracks
    exact h.bind fun _ => (expectPunctuator_tracks _).bind fun _ =>
      (Tracks.step (Parse.closeNode_runs _)).bind fun _ => .pure _

/-- Reading further arguments does what the plain parse does, if reading one does. -/
theorem argumentsTail_tracks (limit : Nat) :
    Tracks text count (argumentsTail assignment limit) (Parse.argumentsTail assignment' limit) := by
  induction limit with
  | zero => exact .pure []
  | succ limit ih =>
    refine (Tracks.step (Parse.isAt_runs _)).bind fun _ => (Tracks.step (Parse.isAt_runs _)).bind
      fun _ => .ite (.pure _) ?_
    exact h.bind fun _ => (Tracks.step (Parse.accept_runs _)).bind fun _ =>
      .ite (ih.bind fun _ => .pure _) (.pure _)

/-- Reading arguments in parentheses does what the plain parse does. -/
theorem arguments_tracks :
    Tracks text count (arguments assignment) (Parse.arguments assignment') :=
  (expectPunctuator_tracks _).bind fun _ => (Tracks.step Parse.remaining_runs).bind fun limit =>
    (argumentsTail_tracks h limit).bind fun _ => (expectPunctuator_tracks _).bind fun _ => .pure _

/-- Reading what follows an expression does what the plain parse does. -/
theorem accessTail_tracks (limit : Nat) (e : Expr) :
    Tracks text count (accessTail assignment limit e) (Parse.accessTail assignment' limit e) := by
  induction limit generalizing e with
  | zero => exact .pure e
  | succ limit ih =>
    refine (Tracks.step (Parse.accept_runs _)).bind fun _ => .ite ?_ ?_
    · exact memberName_tracks.bind fun _ =>
        (Tracks.step (Parse.closeNode_runs _)).bind fun _ => ih _
    refine (Tracks.step (Parse.accept_runs _)).bind fun _ => .ite ?_ ?_
    · exact h.bind fun _ => (expectPunctuator_tracks _).bind fun _ =>
        (Tracks.step (Parse.closeNode_runs _)).bind fun _ => ih _
    refine (Tracks.step (Parse.isAt_runs _)).bind fun _ => .ite ?_ (.pure e)
    exact (arguments_tracks h).bind fun _ =>
      (Tracks.step (Parse.closeNode_runs _)).bind fun _ => ih _

/-- Reading a primary expression with what follows it does what the plain parse does. -/
theorem access_tracks : Tracks text count (access assignment) (Parse.access assignment') :=
  (primary_tracks h).bind fun e => (Tracks.step Parse.remaining_runs).bind fun limit =>
    accessTail_tracks h limit e

end

include hoperand in
/-- Reading operators and their right operands does what the plain parse does. -/
theorem binaryTail_tracks (limit : Nat) (bound : Precedence) (left : Expr) :
    Tracks text count (binaryTail operand limit bound left)
      (Parse.binaryTail operand' limit bound left) := by
  induction limit generalizing bound left with
  | zero => exact .pure left
  | succ limit ih =>
    refine (Tracks.step Parse.current_runs).bind fun token => ?_
    cases BinaryOp.ofToken? token.kind with
    | none => exact .pure left
    | some op =>
      refine .ite ?_ (.pure left)
      exact (Tracks.step Parse.advance_runs).bind fun _ => hoperand.bind fun _ =>
        (ih _ _).bind fun _ => (Tracks.step (Parse.closeNode_runs _)).bind fun _ => ih _ _

include hoperand in
/-- Reading operands joined by operators does what the plain parse does. -/
theorem binary_tracks : Tracks text count (binary operand) (Parse.binary operand') :=
  hoperand.bind fun left => (Tracks.step Parse.remaining_runs).bind fun limit =>
    binaryTail_tracks hoperand limit .floor left

include h hoperand in
/-- Reading a choice between two expressions does what the plain parse does. -/
theorem conditional_tracks :
    Tracks text count (conditional assignment operand)
      (Parse.conditional assignment' operand') := by
  refine (binary_tracks hoperand).bind fun _ => (Tracks.step (Parse.accept_runs _)).bind fun _ =>
    .ite ?_ (.pure _)
  exact h.bind fun _ => (expectPunctuator_tracks _).bind fun _ => h.bind fun _ =>
    (Tracks.step (Parse.closeNode_runs _)).bind fun _ => .pure _

end Levels

/-- An assignment below the limit reads what is nested in it one level down. -/
theorem assignment_tracks {text : List Char} {count : Nat} {nested operand : CountedParse Expr}
    {nested' operand' : Parse Expr} (hcount : count < depthLimit)
    (h : Tracks text (count + 1) nested nested')
    (hoperand : Tracks text (count + 1) operand operand') :
    Tracks text count (assignment nested operand) (Parse.assignment nested' operand') := by
  refine level_tracks hcount ((conditional_tracks h hoperand).bind fun _ =>
    (Tracks.step (Parse.accept?_runs _)).bind fun mark => ?_)
  cases mark with
  | some mark => exact h.bind fun _ => (Tracks.step (Parse.closeNode_runs _)).bind fun _ => .pure _
  | none => exact .pure _

/-- With the counter at `count`, the counted readers take the steps of the plain ones that have the
rest of the limit to spend. -/
theorem nested_tracks {text : List Char} (depth count : Nat) (hlimit : count + depth = depthLimit) :
    Tracks text count (nested (depth + 1)).assignment (Parse.nested depth).assignment ∧
      Tracks text count (nested (depth + 1)).unary (Parse.nested depth).unary := by
  induction depth generalizing count with
  | zero =>
    have hassignment : Tracks text count (nested 1).assignment (Parse.nested 0).assignment :=
      level_atLimit hlimit missing_tracks
    refine ⟨hassignment, (Tracks.step Parse.current_runs).bind fun token => ?_⟩
    cases UnaryOp.ofToken? token.kind with
    | none => exact access_tracks hassignment
    | some op => exact level_atLimit hlimit missing_tracks
  | succ depth ih =>
    obtain ⟨hinner, hunary⟩ := ih (count + 1) (by omega)
    have hcount : count < depthLimit := by omega
    have hassignment := assignment_tracks hcount hinner hunary
    refine ⟨hassignment, (Tracks.step Parse.current_runs).bind fun token => ?_⟩
    cases UnaryOp.ofToken? token.kind with
    | none => exact access_tracks hassignment
    | some op =>
      exact level_tracks hcount ((Tracks.step Parse.advance_runs).bind fun _ => hunary.bind fun _ =>
        (Tracks.step (Parse.closeNode_runs _)).bind fun _ => .pure _)

/-- Reading a whole expression never fails from a counter at zero, and leaves the counter at
zero. -/
theorem wholeExpression_tracks {text : List Char} :
    Tracks text 0 wholeExpression Parse.wholeExpression := by
  refine (nested_tracks depthLimit 0 (Nat.zero_add _)).1.bind fun e =>
    (Tracks.step Parse.current_runs).bind fun token => ?_
  by_cases hkind : token.kind = .endOfText
  · simpa [hkind] using Tracks.pure e
  · simpa [hkind] using (report_tracks _).bind fun _ => Tracks.pure e

/-- Runs a counted parse over tokens, with a counter that starts at zero, and gives the counter
too. -/
def throughout (parse : CountedParse α) (tokens : List Token) : Option (Parsed α × Nat) :=
  match (parse.run 0).run.run (Parse.initial tokens) with
  | (some (tree, count), final) =>
    some (⟨tree, Issue.sortByStart (final.issues ++ Parse.tokenIssues tokens final)⟩, count)
  | (none, _) => none

/-- A counted parse over the tokens of a text does not fail, gives what the plain parse gives, and
ends with the counter at zero. -/
theorem throughout_eq {text : List Char} {q : CountedParse α} {p : Parse α}
    (h : Tracks text 0 q p) :
    throughout q (Token.ofText Alphabet.standard text) =
      some (Parse.throughout p (Token.ofText Alphabet.standard text), 0) := by
  obtain ⟨hrun, -⟩ := h _ (ParseState.Placed.initial text)
  unfold throughout
  simp only [hrun]
  rfl

end CountedParse

/-- Parses a text as one expression, with the counter. -/
def Expr.parseCounted? (text : String) : Option (Parsed Expr × Nat) :=
  CountedParse.wholeExpression.throughout (Token.ofText Alphabet.standard text.toList)

/-- The counted parse of any text succeeds with the plain result and its counter back at zero. -/
theorem Expr.parseCounted?_eq (text : String) :
    Expr.parseCounted? text = some (Expr.parse text, 0) :=
  CountedParse.throughout_eq CountedParse.wholeExpression_tracks

end ExpressionTyping
