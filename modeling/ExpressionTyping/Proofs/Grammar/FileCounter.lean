import ExpressionTyping.Proofs.Grammar.Counter
import ExpressionTyping.Proofs.Grammar.FilePlacement

/-!
# The depth limit of a file kept by a counter

The grammars of types and of statements with the counter of levels: a type enters a level as an
assignment does, and a statement enters none. The counter is at zero wherever a statement reads a
type or an expression, so the counted grammar of files takes the steps of the plain one
(`SourceFile.parseCounted?_eq`).

To tell a function type from a type in parentheses, the parentheses that are open are counted, and
lowering this number below zero is one more failure. It never happens, since the look ahead starts
at an opening parenthesis (`arrowFollows?_eq`).
-/

set_option autoImplicit false

namespace ExpressionTyping

namespace CountedParse

open Parse (current accept accept? isAt isAtPunctuator remaining advance newNode closeNode nextKind
  arrowFollows startsDeclaration depthLimit)

/-! ## Types -/

/-- Whether an arrow follows the parenthesis that closes `depth` open ones; their number must not be
lowered below zero. -/
def arrowFollows? : (depth : Nat) → List Token → Option Bool
  | _, [] => some false
  | depth, token :: rest =>
    match token.kind with
    | .punctuator .openParen => arrowFollows? (depth + 1) rest
    | .punctuator .closeParen =>
      match depth with
      | 0 => none
      | depth + 1 =>
        if depth = 0 then
          match rest with
          | [] => some false
          | next :: _ => some (next.kind = .punctuator .arrow)
        else arrowFollows? depth rest
    | _ => arrowFollows? depth rest

/-- Whether the current parenthesis opens the parameters of a function type. -/
def startsFunctionType : CountedParse Bool := do
  match arrowFollows? 0 (← step (return (← get).ahead)) with
  | some found => return found
  | none => failure

/-- A missing type. -/
def missingType : CountedParse TypeNode := do
  report .typeExpected
  let start := (← step current).span.start
  return .word (← step (newNode ⟨start, start⟩)) .any

/-- The type after a colon, if there is one. -/
def optionalType (type : CountedParse TypeNode) : CountedParse (Option TypeNode) := do
  if ← step (accept .colon) then return some (← type) else return none

/-- A parameter. -/
def parameter (type : CountedParse TypeNode) : CountedParse Parameter := do
  let start := (← step current).span.start
  let rest ← step (accept? .ellipsis)
  let name ← identifier
  let _ ← step (accept .question)
  let written ← optionalType type
  return .mk (← step (closeNode start)) rest name written

/-- Parameters up to the closing parenthesis, at most `limit` of them. -/
def parametersTail (type : CountedParse TypeNode) : (limit : Nat) → (afterRest : Bool) →
    CountedParse (List Parameter)
  | 0, _ => return []
  | limit + 1, afterRest => do
    if (← step (isAtPunctuator .closeParen)) || (← step (isAt .endOfText)) then return []
    if afterRest then report .restParameterNotLast
    let first ← parameter type
    if ← step (accept .comma) then
      return first :: (← parametersTail type limit first.isRest)
    else return [first]

/-- Parameters in parentheses. -/
def parameters (type : CountedParse TypeNode) : CountedParse (List Parameter) := do
  expectPunctuator .openParen
  let values ← parametersTail type (← step remaining) false
  expectPunctuator .closeParen
  return values

/-- A member of an object type. -/
def element (type : CountedParse TypeNode) : CountedParse TypeElement := do
  let start := (← step current).span.start
  let name ← memberName
  let _ ← step (accept .question)
  if ← step (isAtPunctuator .openParen) then
    let values ← parameters type
    let result ← optionalType type
    return .method (← step (closeNode start)) name values result
  else
    let written ← optionalType type
    return .property (← step (closeNode start)) name written

/-- Members up to the closing brace, at most `limit` of them. -/
def elementsTail (type : CountedParse TypeNode) : (limit : Nat) → CountedParse (List TypeElement)
  | 0 => return []
  | limit + 1 => do
    if (← step (isAtPunctuator .closeBrace)) || (← step (isAt .endOfText)) then return []
    let start := (← step current).span.start
    let first ← element type
    unless ← step (accept .semicolon) do
      let _ ← step (accept .comma)
    if (← step current).span.start = start then step advance
    return first :: (← elementsTail type limit)

/-- Members in braces. -/
def elements (type : CountedParse TypeNode) : CountedParse (List TypeElement) := do
  expectPunctuator .openBrace
  let members ← elementsTail type (← step remaining)
  expectPunctuator .closeBrace
  return members

/-- A type that is neither a union nor an array. -/
def primaryType (type : CountedParse TypeNode) : CountedParse TypeNode := do
  let token ← step current
  let start := token.span.start
  match TypeWord.ofToken? token.kind, Literal.ofToken? token with
  | some word, _ =>
    step advance
    return .word (← step (newNode token.span)) word
  | none, some value =>
    step advance
    let constant ← step (newNode token.span)
    return .literal (← step (closeNode start)) constant value
  | none, none =>
    if token.kind = .punctuator .openBrace then
      let members ← elements type
      return .object (← step (closeNode start)) members
    else if token.kind = .punctuator .openParen then
      if ← startsFunctionType then
        let values ← parameters type
        expectPunctuator .arrow
        let result ← type
        return .function (← step (closeNode start)) values result
      else
        step advance
        let inner ← type
        expectPunctuator .closeParen
        return .parenthesized (← step (closeNode start)) inner
    else if token.kind.isName then
      let name ← identifier
      return .reference (← step (closeNode start)) name
    else missingType

/-- The brackets that follow a type on its line, at most `limit` of them. -/
def arrayTail (start : Nat) : (limit : Nat) → TypeNode → CountedParse TypeNode
  | 0, element => return element
  | limit + 1, element => do
    let token ← step current
    if token.kind = .punctuator .openBracket && !token.afterLineBreak then
      step advance
      expectPunctuator .closeBracket
      arrayTail start limit (.array (← step (closeNode start)) element)
    else return element

/-- A primary type or an array over one. -/
def arrayType (type : CountedParse TypeNode) : CountedParse TypeNode := do
  let start := (← step current).span.start
  let element ← primaryType type
  arrayTail start (← step remaining) element

/-- The further members of a union, at most `limit` of them. -/
def unionTail (type : CountedParse TypeNode) : (limit : Nat) → CountedParse (List TypeNode)
  | 0 => return []
  | limit + 1 => do
    if ← step (accept .bar) then
      let member ← arrayType type
      return member :: (← unionTail type limit)
    else return []

/-- A union, which may start with a bar, or its only member. -/
def unionType (type : CountedParse TypeNode) : CountedParse TypeNode := do
  let start := (← step current).span.start
  let _ ← step (accept .bar)
  let first ← arrayType type
  let others ← unionTail type (← step remaining)
  if others.isEmpty then return first
  else return .union (← step (closeNode start)) (first :: others)

/-- The reader of types that may call itself `calls` deep; the counter stops it before that. -/
def nestedType : (calls : Nat) → CountedParse TypeNode
  | 0 => failure
  | calls + 1 => level missingType (unionType (nestedType calls))

/-- Reads a type. -/
def typeNode : CountedParse TypeNode :=
  nestedType (depthLimit + 1)

/-! ## Statements -/

/-- Reads an expression. -/
def expression : CountedParse Expr :=
  (nested (depthLimit + 1)).assignment

/-- The end of a statement. -/
def endStatement : CountedParse Unit := do
  let token ← step current
  if token.kind = .punctuator .semicolon then step advance
  else if token.afterLineBreak || token.kind = .punctuator .closeBrace ||
      token.kind = .endOfText then
    return ()
  else report (.tokenExpected ";")

/-- One variable with its type and value. -/
def variableDeclaration : CountedParse VariableDeclaration := do
  let start := (← step current).span.start
  let name ← identifier
  let written ← optionalType typeNode
  let initializer ← do
    if ← step (accept .equals) then pure (some (← expression)) else pure none
  return ⟨← step (closeNode start), name, written, initializer⟩

/-- Variables separated by commas, at most `limit` of them. -/
def variablesTail : (limit : Nat) → CountedParse (List VariableDeclaration)
  | 0 => return []
  | limit + 1 => do
    let first ← variableDeclaration
    if ← step (accept .comma) then
      return first :: (← variablesTail limit)
    else return [first]

/-- A declaration of variables, from the word that starts it. -/
def variableStatement (start : Nat) (ambient : Bool) (form : VariableForm) :
    CountedParse Statement := do
  let listStart := (← step current).span.start
  step advance
  let declarations ← variablesTail (← step remaining)
  let list ← step (closeNode listStart)
  endStatement
  return .variableList ⟨← step (closeNode start), ambient, list, form, declarations⟩

/-- A declaration of a function, from the word that starts it. -/
def functionDeclaration (start : Nat) (ambient : Bool) : CountedParse Statement := do
  step advance
  let name ← identifier
  let values ← parameters typeNode
  let result ← optionalType typeNode
  endStatement
  return .function ⟨← step (closeNode start), ambient, name, values, result⟩

/-- A declaration of an interface, from the word that starts it. -/
def interfaceDeclaration (start : Nat) : CountedParse Statement := do
  step advance
  let name ← identifier
  let members ← elements typeNode
  return .interface ⟨← step (closeNode start), name, members⟩

/-- A declaration of a type alias, from the word that starts it. -/
def aliasDeclaration (start : Nat) : CountedParse Statement := do
  step advance
  let name ← identifier
  expectPunctuator .equals
  let type ← typeNode
  endStatement
  return .typeAlias ⟨← step (closeNode start), name, type⟩

/-- An expression as a statement. -/
def expressionStatement : CountedParse Statement := do
  let start := (← step current).span.start
  let value ← expression
  endStatement
  return .expression (← step (closeNode start)) value

/-- A declaration that starts at an offset, or else an expression. -/
def declaration (start : Nat) (ambient : Bool) : CountedParse Statement := do
  match (← step current).kind with
  | .keyword .varWord => variableStatement start ambient .hoisted
  | .keyword .constWord => variableStatement start ambient .constant
  | .keyword .letWord =>
    if (← step nextKind).isName then variableStatement start ambient .block
    else expressionStatement
  | .keyword .functionWord => functionDeclaration start ambient
  | .keyword .interfaceWord =>
    if (← step nextKind).isName then interfaceDeclaration start else expressionStatement
  | .keyword .typeWord =>
    if (← step nextKind).isName then aliasDeclaration start else expressionStatement
  | _ => expressionStatement

/-- A statement; `body` reads the statements of a block. -/
def statement (body : CountedParse (List Statement)) : CountedParse Statement := do
  let token ← step current
  let start := token.span.start
  match token.kind with
  | .punctuator .semicolon =>
    step advance
    return .empty (← step (newNode token.span))
  | .punctuator .openBrace =>
    step advance
    let statements ← body
    expectPunctuator .closeBrace
    return .block (← step (closeNode start)) statements
  | .keyword .declareWord =>
    if startsDeclaration (← step nextKind) then
      step advance
      declaration start true
    else declaration start false
  | _ => declaration start false

/-- Statements up to a closing brace or the end of the text, at most `limit` of them. -/
def statementsTail : (limit : Nat) → CountedParse (List Statement)
  | 0 => return []
  | limit + 1 => do
    if (← step (isAt .endOfText)) || (← step (isAtPunctuator .closeBrace)) then return []
    let start := (← step current).span.start
    let first ← statement (statementsTail limit)
    let token ← step current
    if token.span.start = start && token.kind != .endOfText then
      report .statementExpected
      step advance
    return first :: (← statementsTail limit)

/-- The statements of a file. -/
def statements : CountedParse (List Statement) := do
  statementsTail (← step remaining)

/-- A declaration file of a name and a text. -/
def wholeFile (name : String) (text : List Char) : CountedParse SourceFile := do
  let content ← statements
  return ⟨← step (newNode ⟨0, text.length⟩), content, name, text⟩

/-! ## Types are read in step -/

section Types

variable {text : List Char} {count : Nat}

/-- Closing a node and making a tree of it does what the plain parse does. -/
theorem close_tracks {α : Type} (make : Node → α) (start : Nat) :
    Tracks text count (do return make (← step (closeNode start)))
      (do return make (← closeNode start)) :=
  (Tracks.step (Parse.closeNode_runs _)).bind fun _ => .pure _

/-- Reading a missing type does what the plain parse does. -/
theorem missingType_tracks : Tracks text count missingType Parse.missingType :=
  (report_tracks _).bind fun _ => (Tracks.step Parse.current_runs).bind fun _ =>
    (Tracks.step (Parse.newNode_runs _)).bind fun _ => .pure _

/-- Once a parenthesis is open, the number of open ones stays above zero up to the last that is
closed. -/
theorem arrowFollows?_succ (depth : Nat) (tokens : List Token) :
    arrowFollows? (depth + 1) tokens = some (arrowFollows (depth + 1) tokens) := by
  induction tokens generalizing depth with
  | nil => rfl
  | cons token rest ih =>
    unfold arrowFollows? arrowFollows
    cases token.kind with
    | punctuator mark =>
      cases mark with
      | openParen => exact ih (depth + 1)
      | closeParen =>
        cases depth with
        | zero => cases rest <;> rfl
        | succ depth => exact ih depth
      | _ => exact ih depth
    | _ => exact ih depth

/-- Counting from an opening parenthesis on, the number of open ones is never lowered below zero. -/
theorem arrowFollows?_eq {s : ParseState} (h : s.current.kind = .punctuator .openParen) :
    arrowFollows? 0 s.ahead = some (arrowFollows 0 s.ahead) := by
  unfold ParseState.ahead arrowFollows? arrowFollows
  rw [h]
  exact arrowFollows?_succ 0 s.upcoming

/-- At an opening parenthesis the counted look ahead finds what the plain one does. -/
theorem startsFunctionType_bind {α : Type} {f : Bool → CountedParse α} {g : Bool → Parse α}
    {s : ParseState} (hopen : s.current.kind = .punctuator .openParen)
    (h : ∀ found, Tracks text count (f found) (g found)) :
    TracksFrom text count s (startsFunctionType >>= f) (Parse.startsFunctionType >>= g) := by
  intro hs
  have hrun : (startsFunctionType.run count).run.run s =
      (some (arrowFollows 0 s.ahead, count), s) := by
    rw [startsFunctionType, run_bind]
    show ((match arrowFollows? 0 s.ahead with
      | some found => pure found
      | none => failure : CountedParse Bool).run count).run.run s = _
    rw [arrowFollows?_eq hopen]
    rfl
  rw [run_bind, hrun]
  exact h _ s hs

variable {type : CountedParse TypeNode} {type' : Parse TypeNode} (h : Tracks text count type type')
include h

/-- Reading an annotation does what the plain parse does, if reading a type does. -/
theorem optionalType_tracks :
    Tracks text count (optionalType type) (Parse.optionalType type') :=
  (Tracks.step (Parse.accept_runs _)).bind fun _ => .ite (h.bind fun _ => .pure _) (.pure _)

/-- Reading a parameter does what the plain parse does, if reading a type does. -/
theorem parameter_tracks : Tracks text count (parameter type) (Parse.parameter type') :=
  (Tracks.step Parse.current_runs).bind fun _ => (Tracks.step (Parse.accept?_runs _)).bind fun _ =>
    identifier_tracks.bind fun _ => (Tracks.step (Parse.accept_runs _)).bind fun _ =>
    (optionalType_tracks h).bind fun _ => close_tracks _ _

/-- Reading further parameters does what the plain parse does, if reading a type does. -/
theorem parametersTail_tracks (limit : Nat) (afterRest : Bool) :
    Tracks text count (parametersTail type limit afterRest)
      (Parse.parametersTail type' limit afterRest) := by
  induction limit generalizing afterRest with
  | zero => exact .pure []
  | succ limit ih =>
    refine (Tracks.step (Parse.isAt_runs _)).bind fun _ => (Tracks.step (Parse.isAt_runs _)).bind
      fun _ => .ite (.pure _) ?_
    have hround : Tracks text count
        (do
          let first ← parameter type
          if ← step (accept .comma) then return first :: (← parametersTail type limit first.isRest)
          else return [first])
        (do
          let first ← Parse.parameter type'
          if ← accept .comma then return first :: (← Parse.parametersTail type' limit first.isRest)
          else return [first]) :=
      (parameter_tracks h).bind fun first => (Tracks.step (Parse.accept_runs .comma)).bind
        fun _ => .ite ((ih _).bind fun _ => .pure _) (.pure _)
    cases afterRest with
    | false => exact hround
    | true => exact (report_tracks _).bind fun _ => hround

/-- Reading parameters does what the plain parse does, if reading a type does. -/
theorem parameters_tracks : Tracks text count (parameters type) (Parse.parameters type') :=
  (expectPunctuator_tracks _).bind fun _ => (Tracks.step Parse.remaining_runs).bind fun limit =>
    (parametersTail_tracks h limit false).bind fun _ => (expectPunctuator_tracks _).bind
    fun _ => .pure _

/-- Reading a member does what the plain parse does, if reading a type does. -/
theorem element_tracks : Tracks text count (element type) (Parse.element type') := by
  refine (Tracks.step Parse.current_runs).bind fun _ => memberName_tracks.bind fun _ =>
    (Tracks.step (Parse.accept_runs _)).bind fun _ => (Tracks.step (Parse.isAt_runs _)).bind
    fun _ => .ite ?_ ?_
  · exact (parameters_tracks h).bind fun _ => (optionalType_tracks h).bind fun _ =>
      close_tracks _ _
  · exact (optionalType_tracks h).bind fun _ => close_tracks _ _

/-- Reading further members does what the plain parse does, if reading a type does. -/
theorem elementsTail_tracks (limit : Nat) :
    Tracks text count (elementsTail type limit) (Parse.elementsTail type' limit) := by
  induction limit with
  | zero => exact .pure []
  | succ limit ih =>
    refine (Tracks.step (Parse.isAt_runs _)).bind fun _ => (Tracks.step (Parse.isAt_runs _)).bind
      fun _ => .ite (.pure _) ((Tracks.step Parse.current_runs).bind fun token =>
      (element_tracks h).bind fun first => (Tracks.step (Parse.accept_runs _)).bind
      fun semicolon => ?_)
    have hrest : Tracks text count (do return first :: (← elementsTail type limit))
        (do return first :: (← Parse.elementsTail type' limit)) := ih.bind fun _ => .pure _
    have hstuck : Tracks text count
        (do
          if (← step current).span.start = token.span.start then step advance
          return first :: (← elementsTail type limit))
        (do
          if (← current).span.start = token.span.start then advance
          return first :: (← Parse.elementsTail type' limit)) :=
      (Tracks.step Parse.current_runs).bind fun _ =>
        .ite ((Tracks.step Parse.advance_runs).bind fun _ => hrest) hrest
    cases semicolon with
    | true => exact hstuck
    | false => exact (Tracks.step (Parse.accept_runs _)).bind fun _ => hstuck

/-- Reading members does what the plain parse does, if reading a type does. -/
theorem elements_tracks : Tracks text count (elements type) (Parse.elements type') :=
  (expectPunctuator_tracks _).bind fun _ => (Tracks.step Parse.remaining_runs).bind fun limit =>
    (elementsTail_tracks h limit).bind fun _ => (expectPunctuator_tracks _).bind fun _ => .pure _

/-- Reading a primary type does what the plain parse does, if reading nested ones does. -/
theorem primaryType_tracks : Tracks text count (primaryType type) (Parse.primaryType type') := by
  refine Tracks.current_bind fun s => ?_
  simp only
  cases TypeWord.ofToken? s.current.kind with
  | some word =>
    exact (Tracks.step Parse.advance_runs).bind
      (fun _ => (Tracks.step (Parse.newNode_runs _)).bind fun _ => .pure _) s
  | none =>
    cases Literal.ofToken? s.current with
    | some value =>
      exact (Tracks.step Parse.advance_runs).bind
        (fun _ => (Tracks.step (Parse.newNode_runs _)).bind fun _ => close_tracks _ _) s
    | none =>
      dsimp only
      split
      · exact (elements_tracks h).bind (fun _ => close_tracks _ _) s
      split
      · rename_i hopen
        refine startsFunctionType_bind hopen fun _ => .ite ?_ ?_
        · exact (parameters_tracks h).bind fun _ => (expectPunctuator_tracks _).bind fun _ =>
            h.bind fun _ => close_tracks _ _
        · exact (Tracks.step Parse.advance_runs).bind fun _ => h.bind fun _ =>
            (expectPunctuator_tracks _).bind fun _ => close_tracks _ _
      · exact Tracks.ite (identifier_tracks.bind fun _ => close_tracks _ _) missingType_tracks s

omit h in
/-- Reading brackets after a type does what the plain parse does. -/
theorem arrayTail_tracks (start limit : Nat) (element : TypeNode) :
    Tracks text count (arrayTail start limit element) (Parse.arrayTail start limit element) := by
  induction limit generalizing element with
  | zero => exact .pure element
  | succ limit ih =>
    refine (Tracks.step Parse.current_runs).bind fun _ => .ite ?_ (.pure element)
    exact (Tracks.step Parse.advance_runs).bind fun _ => (expectPunctuator_tracks _).bind fun _ =>
      (Tracks.step (Parse.closeNode_runs _)).bind fun _ => ih _

/-- Reading an array type does what the plain parse does, if reading nested ones does. -/
theorem arrayType_tracks : Tracks text count (arrayType type) (Parse.arrayType type') :=
  (Tracks.step Parse.current_runs).bind fun _ => (primaryType_tracks h).bind fun _ =>
    (Tracks.step Parse.remaining_runs).bind fun _ => arrayTail_tracks _ _ _

/-- Reading further members of a union does what the plain parse does, if reading nested types
does. -/
theorem unionTail_tracks (limit : Nat) :
    Tracks text count (unionTail type limit) (Parse.unionTail type' limit) := by
  induction limit with
  | zero => exact .pure []
  | succ limit ih =>
    refine (Tracks.step (Parse.accept_runs _)).bind fun _ => .ite ?_ (.pure [])
    exact (arrayType_tracks h).bind fun _ => ih.bind fun _ => .pure _

/-- Reading a union does what the plain parse does, if reading nested types does. -/
theorem unionType_tracks : Tracks text count (unionType type) (Parse.unionType type') :=
  (Tracks.step Parse.current_runs).bind fun _ => (Tracks.step (Parse.accept_runs _)).bind fun _ =>
    (arrayType_tracks h).bind fun _ => (Tracks.step Parse.remaining_runs).bind fun _ =>
    (unionTail_tracks h _).bind fun _ => .ite (.pure _) (close_tracks _ _)

end Types

/-- With the counter at `count`, the counted reader of types takes the steps of the plain one that
has the rest of the limit to spend. -/
theorem nestedType_tracks {text : List Char} (depth count : Nat)
    (hlimit : count + depth = depthLimit) :
    Tracks text count (nestedType (depth + 1)) (Parse.nestedType depth) := by
  induction depth generalizing count with
  | zero => exact level_atLimit hlimit missingType_tracks
  | succ depth ih =>
    exact level_tracks (by omega) (unionType_tracks (ih (count + 1) (by omega)))

/-! ## Statements are read in step -/

section Statements

variable {text : List Char}

/-- Reading a type from a counter at zero does what the plain parse does, and brings the counter
back. -/
theorem typeNode_tracks : Tracks text 0 typeNode Parse.typeNode :=
  nestedType_tracks depthLimit 0 (Nat.zero_add _)

/-- Reading an expression from a counter at zero does what the plain parse does, and brings the
counter back. -/
theorem expression_tracks : Tracks text 0 expression Parse.expression :=
  (nested_tracks depthLimit 0 (Nat.zero_add _)).1

/-- Reading the end of a statement does what the plain parse does. -/
theorem endStatement_tracks : Tracks text 0 endStatement Parse.endStatement :=
  (Tracks.step Parse.current_runs).bind fun _ =>
    .ite (.step Parse.advance_runs) (.ite (.pure ()) (report_tracks _))

/-- Reading a variable declaration does what the plain parse does. -/
theorem variableDeclaration_tracks :
    Tracks text 0 variableDeclaration Parse.variableDeclaration := by
  refine (Tracks.step Parse.current_runs).bind fun _ => identifier_tracks.bind fun _ =>
    (optionalType_tracks typeNode_tracks).bind fun _ =>
    (Tracks.step (Parse.accept_runs _)).bind fun _ => ?_
  simp only [pure_bind]
  exact .ite (expression_tracks.bind fun _ => close_tracks _ _) (close_tracks _ _)

/-- Reading further variable declarations does what the plain parse does. -/
theorem variablesTail_tracks (limit : Nat) :
    Tracks text 0 (variablesTail limit) (Parse.variablesTail limit) := by
  induction limit with
  | zero => exact .pure []
  | succ limit ih =>
    exact variableDeclaration_tracks.bind fun _ => (Tracks.step (Parse.accept_runs _)).bind fun _ =>
      .ite (ih.bind fun _ => .pure _) (.pure _)

/-- Reading a variable statement does what the plain parse does. -/
theorem variableStatement_tracks (start : Nat) (ambient : Bool) (form : VariableForm) :
    Tracks text 0 (variableStatement start ambient form)
      (Parse.variableStatement start ambient form) :=
  (Tracks.step Parse.current_runs).bind fun _ => (Tracks.step Parse.advance_runs).bind fun _ =>
    (Tracks.step Parse.remaining_runs).bind fun _ => (variablesTail_tracks _).bind fun _ =>
    (Tracks.step (Parse.closeNode_runs _)).bind fun _ => endStatement_tracks.bind fun _ =>
    close_tracks _ _

/-- Reading a function declaration does what the plain parse does. -/
theorem functionDeclaration_tracks (start : Nat) (ambient : Bool) :
    Tracks text 0 (functionDeclaration start ambient) (Parse.functionDeclaration start ambient) :=
  (Tracks.step Parse.advance_runs).bind fun _ => identifier_tracks.bind fun _ =>
    (parameters_tracks typeNode_tracks).bind fun _ => (optionalType_tracks typeNode_tracks).bind
    fun _ => endStatement_tracks.bind fun _ => close_tracks _ _

/-- Reading an interface declaration does what the plain parse does. -/
theorem interfaceDeclaration_tracks (start : Nat) :
    Tracks text 0 (interfaceDeclaration start) (Parse.interfaceDeclaration start) :=
  (Tracks.step Parse.advance_runs).bind fun _ => identifier_tracks.bind fun _ =>
    (elements_tracks typeNode_tracks).bind fun _ => close_tracks _ _

/-- Reading an alias declaration does what the plain parse does. -/
theorem aliasDeclaration_tracks (start : Nat) :
    Tracks text 0 (aliasDeclaration start) (Parse.aliasDeclaration start) :=
  (Tracks.step Parse.advance_runs).bind fun _ => identifier_tracks.bind fun _ =>
    (expectPunctuator_tracks _).bind fun _ => typeNode_tracks.bind fun _ =>
    endStatement_tracks.bind fun _ => close_tracks _ _

/-- Reading an expression statement does what the plain parse does. -/
theorem expressionStatement_tracks :
    Tracks text 0 expressionStatement Parse.expressionStatement :=
  (Tracks.step Parse.current_runs).bind fun _ => expression_tracks.bind fun _ =>
    endStatement_tracks.bind fun _ => close_tracks _ _

/-- Reading a statement other than a block does what the plain parse does. -/
theorem declaration_tracks (start : Nat) (ambient : Bool) :
    Tracks text 0 (declaration start ambient) (Parse.declaration start ambient) := by
  refine (Tracks.step Parse.current_runs).bind fun token => ?_
  cases token.kind with
  | keyword word =>
    cases word with
    | varWord => exact variableStatement_tracks start ambient .hoisted
    | constWord => exact variableStatement_tracks start ambient .constant
    | letWord =>
      exact (Tracks.step Parse.nextKind_runs).bind fun _ =>
        .ite (variableStatement_tracks start ambient .block) expressionStatement_tracks
    | functionWord => exact functionDeclaration_tracks start ambient
    | interfaceWord =>
      exact (Tracks.step Parse.nextKind_runs).bind fun _ =>
        .ite (interfaceDeclaration_tracks start) expressionStatement_tracks
    | typeWord =>
      exact (Tracks.step Parse.nextKind_runs).bind fun _ =>
        .ite (aliasDeclaration_tracks start) expressionStatement_tracks
    | _ => exact expressionStatement_tracks
  | _ => exact expressionStatement_tracks

/-- Reading a statement does what the plain parse does, if reading the statements of a block
does. -/
theorem statement_tracks {body : CountedParse (List Statement)} {body' : Parse (List Statement)}
    (h : Tracks text 0 body body') :
    Tracks text 0 (statement body) (Parse.statement body') := by
  refine (Tracks.step Parse.current_runs).bind fun token => ?_
  cases token.kind with
  | punctuator mark =>
    cases mark with
    | semicolon =>
      exact (Tracks.step Parse.advance_runs).bind fun _ =>
        (Tracks.step (Parse.newNode_runs _)).bind fun _ => .pure _
    | openBrace =>
      exact (Tracks.step Parse.advance_runs).bind fun _ => h.bind fun _ =>
        (expectPunctuator_tracks _).bind fun _ => close_tracks _ _
    | _ => exact declaration_tracks _ false
  | keyword word =>
    cases word with
    | declareWord =>
      exact (Tracks.step Parse.nextKind_runs).bind fun _ => .ite
        ((Tracks.step Parse.advance_runs).bind fun _ => declaration_tracks _ true)
        (declaration_tracks _ false)
    | _ => exact declaration_tracks _ false
  | _ => exact declaration_tracks _ false

/-- Reading statements does what the plain parse does, to the same limit. -/
theorem statementsTail_tracks (limit : Nat) :
    Tracks text 0 (statementsTail limit) (Parse.statementsTail limit) := by
  induction limit with
  | zero => exact .pure []
  | succ limit ih =>
    refine (Tracks.step (Parse.isAt_runs _)).bind fun _ => (Tracks.step (Parse.isAt_runs _)).bind
      fun _ => .ite (.pure _) ((Tracks.step Parse.current_runs).bind fun _ =>
      (statement_tracks ih).bind fun first => (Tracks.step Parse.current_runs).bind fun _ => ?_)
    have hrest : Tracks text 0 (do return first :: (← statementsTail limit))
        (do return first :: (← Parse.statementsTail limit)) := ih.bind fun _ => .pure _
    exact .ite ((report_tracks _).bind fun _ => (Tracks.step Parse.advance_runs).bind
      fun _ => hrest) hrest

/-- Reading all statements does what the plain parse does. -/
theorem statements_tracks : Tracks text 0 statements Parse.statements :=
  (Tracks.step Parse.remaining_runs).bind fun limit => statementsTail_tracks limit

/-- Reading a file never fails from a counter at zero, and leaves the counter at zero. -/
theorem wholeFile_tracks (name : String) (content : List Char) :
    Tracks text 0 (wholeFile name content) (Parse.wholeFile name content) :=
  statements_tracks.bind fun _ => (Tracks.step (Parse.newNode_runs _)).bind fun _ => .pure _

end Statements

end CountedParse

/-- Parses a text as a declaration file, with the counter. -/
def SourceFile.parseCounted? (name text : String) : Option (Parsed SourceFile × Nat) :=
  (CountedParse.wholeFile name text.toList).throughout
    (Token.ofText Alphabet.standard text.toList)

/-- The counted parse of any file succeeds with the plain result and its counter back at zero. -/
theorem SourceFile.parseCounted?_eq (name text : String) :
    SourceFile.parseCounted? name text = some (SourceFile.parse name text, 0) :=
  CountedParse.throughout_eq (CountedParse.wholeFile_tracks name text.toList)

end ExpressionTyping
