import ExpressionTyping.Proofs.Grammar.Scripts
import ExpressionTyping.Proofs.Grammar.TypeRoundTrip
import ExpressionTyping.Proofs.Token.Faithfulness

/-!
# Reading a text while it is parsed

A parse need not be given the tokens of a text beforehand. A `TextReader` has a cursor in the text
and reads a token when it needs one; to look ahead it moves the cursor on, puts it back, and drops
what was reported on the way. `Script.onText` runs a script on a reader.

A reader and a parse over all tokens see the same as long as the cursor stands on the current token
(`TextReader.Sees`). Each step keeps this, so a script gives the same tree on both (`onText_eq`).
The cursor of a reader is where as many readings in a row bring it as tokens were taken, and one
more: looking ahead leaves no trace. So each fault of a token is reported once, as by a plain
reading of the text up to the token on which the parse stops (`parse_reads_once`).
-/

set_option autoImplicit false

namespace ExpressionTyping

/-! ## What a cursor has before it -/

namespace Token

/-- More room than the text needs changes nothing. -/
theorem read_eq_of_lt (alphabet : Alphabet) {limit limit' : Nat} (offset : Nat) {text : List Char}
    (h : text.length < limit) (h' : text.length < limit') :
    read alphabet limit offset text = read alphabet limit' offset text := by
  induction limit generalizing limit' offset text with
  | zero => omega
  | succ limit ih =>
    obtain ⟨limit', rfl⟩ : ∃ room, limit' = room + 1 := ⟨limit' - 1, by omega⟩
    unfold read
    simp only
    rcases next_cases alphabet offset text with hend | ⟨hordinary, -, -, -, hless⟩
    · rw [if_pos hend, if_pos hend]
    · rw [if_neg hordinary, if_neg hordinary]
      exact congrArg _ (ih _ (by omega) (by omega))

end Token

namespace Cursor

/-- The tokens after that of a cursor, up to the end of the text. -/
def coming (cursor : Cursor) : List Token :=
  if cursor.token.kind = .endOfText then []
  else cursor.ahead Alphabet.standard (cursor.rest.length + 1)

/-- Nothing comes after the end of the text. -/
theorem coming_of_end {cursor : Cursor} (h : cursor.token.kind = .endOfText) :
    cursor.coming = [] :=
  if_pos h

/-- Unless a cursor stands at the end of the text, its next token is the first one that comes. -/
theorem coming_of_ordinary {cursor : Cursor} (h : cursor.token.kind ≠ .endOfText) :
    cursor.coming = (cursor.advance Alphabet.standard).token ::
      (cursor.advance Alphabet.standard).coming := by
  rw [coming, if_neg h, ahead_succ, coming]
  split
  · rfl
  · rename_i hordinary
    obtain ⟨-, -, -, -, hless⟩ := (Token.next_cases Alphabet.standard cursor.token.span.stop
      cursor.rest).resolve_left hordinary
    exact congrArg _ (Token.read_eq_of_lt _ _ hless (Nat.lt_succ_self _))

/-- A cursor that has read the end of the text reads it again, without a line break before it. -/
structure AtEnd (cursor : Cursor) : Prop where
  token : ∃ offset breaksLine, cursor.token = .endOfText offset breaksLine
  rest : cursor.rest = []

/-- A cursor that has advanced to the end of the text is at its end. -/
theorem atEnd_advance {alphabet : Alphabet} {cursor : Cursor}
    (h : (cursor.advance alphabet).token.kind = .endOfText) : (cursor.advance alphabet).AtEnd := by
  have hempty := (Token.next_gap alphabet cursor.token.span.stop cursor.rest).2.2.mp h
  have htoken : (cursor.advance alphabet).token =
      .endOfText (cursor.token.span.stop + (Trivia.skip cursor.rest).length)
        (Trivia.skip cursor.rest).breaksLine := by
    show (Token.next alphabet cursor.token.span.stop cursor.rest).1 = _
    simp only [Token.next, hempty]
  exact ⟨⟨_, _, htoken⟩, (advance_of_end h).1⟩

/-- Advancing at the end of the text reads the same token again and reports nothing. -/
theorem AtEnd.advance_eq {alphabet : Alphabet} {cursor : Cursor} (h : cursor.AtEnd) :
    (cursor.advance alphabet).token.seen = cursor.token.seen ∧
      (cursor.advance alphabet).issues = cursor.issues := by
  obtain ⟨⟨offset, breaksLine, htoken⟩, hrest⟩ := h
  have hstep : cursor.advance alphabet = ⟨.endOfText offset false, [], cursor.issues⟩ := by
    rw [advance, hrest, htoken]
    exact congrArg _ (List.append_nil cursor.issues)
  rw [hstep, htoken]
  simp [Token.seen, Token.endOfText]

end Cursor

/-! ## Readers -/

/-- The state of a parse that reads a text as it goes. -/
structure TextReader where
  /-- The place in the text; its token is the current one. -/
  cursor : Cursor
  /-- The tokens taken, in order. -/
  taken : List Token
  /-- Where the token taken last ended. -/
  previousStop : Nat
  /-- The number of the next node. -/
  nextId : Nat
  /-- What has been reported, apart from the faults of tokens. -/
  issues : List Issue

namespace TextReader

/-- The reader that has read the first token of a text. -/
def start (text : String) : TextReader :=
  ⟨(Cursor.start text).advance Alphabet.standard, [], 0, 0, []⟩

/-- Takes the current token and reads the next one. -/
def advance (r : TextReader) : TextReader :=
  { r with
    cursor := r.cursor.advance Alphabet.standard
    taken := r.taken ++ [r.cursor.token]
    previousStop := r.cursor.token.span.stop }

/-- Moves the cursor, then puts it back and drops what was reported on the way. -/
def lookAhead {β : Type} (move : StateM Cursor β) : StateM TextReader β := do
  let r ← get
  let (answer, moved) := move.run r.cursor
  let back := moved.restore r.cursor
  set { r with cursor := { back with issues := back.issues.take r.cursor.issues.length } }
  return answer

/-- Reads one token more. -/
def step : StateM Cursor Unit :=
  modify (Cursor.advance Alphabet.standard)

/-- The kind of the next token. -/
def peek : StateM Cursor TokenKind := do
  step
  return (← get).token.kind

/-- Reads on, at most `limit` tokens, to the parenthesis that closes `depth` open ones, and says
whether an arrow follows it. -/
def seekArrow : (limit : Nat) → (depth : Nat) → StateM Cursor Bool
  | 0, _ => return false
  | limit + 1, depth => do
    let kind := (← get).token.kind
    if kind = .endOfText then return false
    else if kind = .punctuator .openParen then
      step
      seekArrow limit (depth + 1)
    else if kind = .punctuator .closeParen then
      if depth ≤ 1 then return (← peek) = .punctuator .arrow
      else
        step
        seekArrow limit (depth - 1)
    else
      step
      seekArrow limit depth

end TextReader

/-- What a script does on a text. -/
def Script.onText {α : Type} : Script α → StateM TextReader α
  | done result => pure result
  | look next => do (next (← get).cursor.token.seen).onText
  | remaining next => do (next ((← get).cursor.coming.length + 1)).onText
  | previousStop next => do (next (← get).previousStop).onText
  | nextKind next => do (next (← TextReader.lookAhead TextReader.peek)).onText
  | startsFunctionType next => do
    let limit := (← get).cursor.coming.length + 1
    (next (← TextReader.lookAhead (TextReader.seekArrow limit 0))).onText
  | advance next => do
    modify TextReader.advance
    next.onText
  | report problem _ next => do
    modify fun r => { r with issues := r.issues ++ [⟨r.cursor.token.span, problem⟩] }
    next.onText
  | number span next => do
    let r ← get
    set { r with nextId := r.nextId + 1 }
    (next ⟨r.nextId, span⟩).onText

namespace TextReader

/-! ## Looking ahead leaves no trace -/

/-- A movement only adds to what was reported. -/
def Adds {β : Type} (move : StateM Cursor β) : Prop :=
  ∀ cursor : Cursor, cursor.issues <+: (move.run cursor).2.issues

/-- Movements in a row only add to what was reported. -/
theorem Adds.bind {β γ : Type} {move : StateM Cursor β} {next : β → StateM Cursor γ}
    (h : Adds move) (hnext : ∀ answer, Adds (next answer)) : Adds (move >>= next) :=
  fun cursor => (h cursor).trans (hnext _ _)

/-- Doing nothing adds nothing to what was reported. -/
theorem pure_adds {β : Type} (answer : β) : Adds (pure answer) :=
  fun _ => List.prefix_refl _

/-- Looking at the cursor adds nothing to what was reported. -/
theorem get_adds : Adds get :=
  fun _ => List.prefix_refl _

/-- Reading a token more only adds to what was reported. -/
theorem step_adds : Adds step :=
  fun _ => List.prefix_append _ _

/-- Looking at the next token only adds to what was reported. -/
theorem peek_adds : Adds peek :=
  step_adds.bind fun _ => get_adds.bind fun _ => pure_adds _

/-- Looking for an arrow only adds to what was reported. -/
theorem seekArrow_adds (limit depth : Nat) : Adds (seekArrow limit depth) := by
  induction limit generalizing depth with
  | zero => exact pure_adds _
  | succ limit ih =>
    refine get_adds.bind fun cursor => ?_
    dsimp only
    split
    · exact pure_adds _
    · split
      · exact step_adds.bind fun _ => ih _
      · split
        · split
          · exact peek_adds.bind fun _ => pure_adds _
          · exact step_adds.bind fun _ => ih _
        · exact step_adds.bind fun _ => ih _

/-- After looking ahead a reader is what it was. -/
theorem lookAhead_run {β : Type} {move : StateM Cursor β} (h : Adds move) (r : TextReader) :
    (lookAhead move).run r = ((move.run r.cursor).1, r) := by
  have hissues := List.prefix_iff_eq_take.mp (h r.cursor)
  have hcursor : ({ (move.run r.cursor).2.restore r.cursor with
      issues := (move.run r.cursor).2.issues.take r.cursor.issues.length } : Cursor) =
        r.cursor := by
    rw [← hissues]
    rfl
  show ((move.run r.cursor).1, ({ r with cursor := _ } : TextReader)) = _
  rw [show r = { r with cursor := r.cursor } from rfl]
  exact congrArg (fun cursor => ((move.run r.cursor).1, ({ r with cursor := cursor } : TextReader)))
    hcursor

/-- On the way to an arrow the tokens are seen that come. -/
theorem seekArrow_run (limit depth : Nat) (cursor : Cursor) (h : cursor.coming.length < limit) :
    ((seekArrow limit depth).run cursor).1 =
      Parse.arrowFollows depth (cursor.token :: cursor.coming) := by
  induction limit generalizing depth cursor with
  | zero => omega
  | succ limit ih =>
    rw [seekArrow]
    simp only [StateT.run_bind, StateT.run_get, pure_bind]
    by_cases hend : cursor.token.kind = .endOfText
    · rw [if_pos hend, Cursor.coming_of_end hend]
      rw [Parse.arrowFollows_other (by simp [hend]) (by simp [hend])]
      rfl
    have hcoming := Cursor.coming_of_ordinary hend
    have hroom : (cursor.advance Alphabet.standard).coming.length < limit := by
      rw [hcoming, List.length_cons] at h
      omega
    rw [if_neg hend, hcoming]
    by_cases hopen : cursor.token.kind = .punctuator .openParen
    · rw [if_pos hopen, Parse.arrowFollows_open hopen]
      exact ih _ _ hroom
    rw [if_neg hopen]
    by_cases hclose : cursor.token.kind = .punctuator .closeParen
    · rw [if_pos hclose]
      by_cases hdepth : depth ≤ 1
      · rw [if_pos hdepth, Parse.arrowFollows_last hclose hdepth]
        rfl
      · rw [if_neg hdepth, Parse.arrowFollows_close hclose (by omega)]
        exact ih _ _ hroom
    · rw [if_neg hclose, Parse.arrowFollows_other hopen hclose]
      exact ih _ _ hroom

/-! ## Readers and parses over all tokens -/

/-- A plain reading of a text, after the first token and some more. -/
def reading (text : String) (count : Nat) : Cursor :=
  (Cursor.advance Alphabet.standard)^[count + 1] (Cursor.start text)

/-- A reading by one token more is advanced once more. -/
theorem reading_succ (text : String) (count : Nat) :
    reading text (count + 1) = (reading text count).advance Alphabet.standard :=
  Function.iterate_succ_apply' _ _ _

/-- A reading that is at the end of the text stays there. -/
theorem reading_atEnd {text : String} {count : Nat}
    (h : (reading text count).token.kind = .endOfText) : (reading text count).AtEnd := by
  rw [reading, Function.iterate_succ_apply'] at h ⊢
  exact Cursor.atEnd_advance h

/-- A reader of a text stands where a plain reading stands, and took the tokens that it read. -/
structure Follows (text : String) (r : TextReader) : Prop where
  cursor : r.cursor = reading text r.taken.length
  taken : r.taken = (List.range r.taken.length).map fun index => (reading text index).token

/-- A reader starts where the plain reading of the text does. -/
theorem follows_start (text : String) : (start text).Follows text :=
  ⟨rfl, rfl⟩

/-- A reader that takes a token still stands where a plain reading does. -/
theorem Follows.advance {text : String} {r : TextReader} (h : r.Follows text) :
    r.advance.Follows text := by
  have hlength : r.advance.taken.length = r.taken.length + 1 := List.length_append
  constructor
  · rw [hlength, reading_succ, ← h.cursor]
    rfl
  · rw [hlength, List.range_succ, List.map_append, ← h.taken, List.map_singleton, ← h.cursor]
    rfl

/-- A reader of a text and a parse over all its tokens stand on the same token with the same tokens
ahead, and what tokens have reported to the reader are the faults of those read. -/
structure Sees (text : String) (r : TextReader) (s : ParseState) : Prop where
  follows : r.Follows text
  current : r.cursor.token.seen = s.current.seen
  coming : r.cursor.coming = s.upcoming
  previousStop : r.previousStop = s.previousStop
  nextId : r.nextId = s.nextId
  issues : r.issues = s.issues
  ordinary : ∀ issue ∈ s.issues, issue.problem.isLexical = false
  reported : ∃ read, Token.ofText Alphabet.standard text.toList = read ++ s.upcoming ∧
    r.cursor.issues = read.filterMap Token.issue?

/-- At the start, a reader and a parse over all tokens stand on the first token. -/
theorem sees_start (text : String) :
    (start text).Sees text (Parse.initial (Token.ofText Alphabet.standard text.toList)) := by
  -- before its first token a cursor has all tokens of the text before it
  have hall : (Cursor.start text).coming = Token.ofText Alphabet.standard text.toList := rfl
  have hordinary : (Cursor.start text).token.kind ≠ .endOfText := nofun
  have hcoming := Cursor.coming_of_ordinary hordinary
  have hreported : (start text).cursor.issues =
      [(start text).cursor.token].filterMap Token.issue? := Cursor.advance_issues _ _
  rw [← hall, hcoming]
  exact ⟨follows_start text, rfl, rfl, rfl, rfl, rfl, nofun,
    ⟨[(start text).cursor.token], hall.symm.trans hcoming, hreported⟩⟩

namespace Sees

variable {text : String} {r : TextReader} {s : ParseState} (h : r.Sees text s)
include h

/-- A reader and a parse that see the same stand on tokens of one kind. -/
theorem kind : r.cursor.token.kind = s.current.kind := by
  show r.cursor.token.seen.kind = s.current.seen.kind
  rw [h.current]

/-- A reader and a parse that see the same stand on tokens at one place. -/
theorem span : r.cursor.token.span = s.current.span := by
  show r.cursor.token.seen.span = s.current.seen.span
  rw [h.current]

/-- Taking a token keeps what is seen, at the end of the text as well. -/
theorem advance : r.advance.Sees text s.taken := by
  have hstop := congrArg Span.stop h.span
  have hfollows := h.follows.advance
  by_cases hend : r.cursor.token.kind = .endOfText
  · have hupcoming : s.upcoming = [] := h.coming.symm.trans (Cursor.coming_of_end hend)
    have htaken : s.taken = { s with previousStop := s.current.span.stop } := by
      obtain ⟨current, upcoming, previousStop, nextId, issues⟩ := s
      obtain rfl : upcoming = [] := hupcoming
      rfl
    have hcursor : r.cursor.AtEnd := by
      rw [h.follows.cursor] at hend ⊢
      exact reading_atEnd hend
    obtain ⟨hseen, hissues⟩ : (r.cursor.advance Alphabet.standard).token.seen =
        r.cursor.token.seen ∧ (r.cursor.advance Alphabet.standard).issues = r.cursor.issues :=
      hcursor.advance_eq
    have hkind : (r.cursor.advance Alphabet.standard).token.kind = .endOfText :=
      (congrArg Token.kind hseen).trans hend
    obtain ⟨read, htokens, hreported⟩ := h.reported
    rw [htaken]
    exact ⟨hfollows, hseen.trans h.current, (Cursor.coming_of_end hkind).trans hupcoming.symm,
      hstop, h.nextId, h.issues, h.ordinary, ⟨read, htokens, hissues.trans hreported⟩⟩
  · have hcoming := h.coming.symm.trans (Cursor.coming_of_ordinary hend)
    have htaken : s.taken = { s with
        current := (r.cursor.advance Alphabet.standard).token
        upcoming := (r.cursor.advance Alphabet.standard).coming
        previousStop := s.current.span.stop } := by
      obtain ⟨current, upcoming, previousStop, nextId, issues⟩ := s
      obtain rfl : upcoming = _ := hcoming
      rfl
    obtain ⟨read, htokens, hreported⟩ := h.reported
    have hread : r.advance.cursor.issues =
        (read ++ [(r.cursor.advance Alphabet.standard).token]).filterMap Token.issue? := by
      rw [List.filterMap_append, ← hreported]
      exact Cursor.advance_issues _ _
    rw [hcoming, List.append_cons] at htokens
    rw [htaken]
    exact ⟨hfollows, rfl, rfl, hstop, h.nextId, h.issues, h.ordinary, ⟨_, htokens, hread⟩⟩

/-- Numbering a node keeps what is seen. -/
theorem numbered : ({ r with nextId := r.nextId + 1 } : TextReader).Sees text s.numbered :=
  ⟨⟨h.follows.cursor, h.follows.taken⟩, h.current, h.coming, h.previousStop,
    congrArg (· + 1) h.nextId, h.issues, h.ordinary, h.reported⟩

/-- Reporting a problem of the grammar at the current token keeps what is seen. -/
theorem report {problem : Problem} (hproblem : problem.isLexical = false) :
    ({ r with issues := r.issues ++ [⟨r.cursor.token.span, problem⟩] } : TextReader).Sees text
      { s with issues := s.issues ++ [⟨s.current.span, problem⟩] } := by
  refine ⟨⟨h.follows.cursor, h.follows.taken⟩, h.current, h.coming, h.previousStop, h.nextId, ?_,
    ?_, h.reported⟩
  · show r.issues ++ [⟨r.cursor.token.span, problem⟩] = s.issues ++ [⟨s.current.span, problem⟩]
    rw [h.issues, h.span]
  · exact List.forall_mem_append.mpr ⟨h.ordinary, List.forall_mem_singleton.mpr hproblem⟩

/-- The kind of the next token is that of the first one that comes. -/
theorem peek_eq : (peek.run r.cursor).1 = (Parse.nextKind.run s).1 := by
  show (r.cursor.advance Alphabet.standard).token.kind =
    (s.upcoming.head?.map Token.kind).getD .endOfText
  rw [← h.coming]
  by_cases hend : r.cursor.token.kind = .endOfText
  · have hcursor : r.cursor.AtEnd := by
      rw [h.follows.cursor] at hend ⊢
      exact reading_atEnd hend
    rw [Cursor.coming_of_end hend]
    exact (congrArg Token.kind hcursor.advance_eq.1).trans hend
  · rw [Cursor.coming_of_ordinary hend]
    rfl

/-- The arrow of a function type is found on both. -/
theorem seekArrow_eq :
    ((seekArrow (r.cursor.coming.length + 1) 0).run r.cursor).1 =
      (Parse.startsFunctionType.run s).1 := by
  have hkind := h.kind
  rw [seekArrow_run _ _ _ (Nat.lt_succ_self _), h.coming]
  show Parse.arrowFollows 0 (r.cursor.token :: s.upcoming) =
    Parse.arrowFollows 0 (s.current :: s.upcoming)
  rw [Parse.arrowFollows.eq_def, Parse.arrowFollows.eq_def 0 (s.current :: _)]
  simp only [hkind]

/-- Of all tokens those are to be reported which were reported to the reader. -/
theorem tokenIssues_eq :
    Parse.tokenIssues (Token.ofText Alphabet.standard text.toList) s = r.cursor.issues := by
  obtain ⟨read, htokens, hreported⟩ := h.reported
  rw [Parse.tokenIssues, htokens, hreported, List.length_append, Nat.add_sub_cancel,
    List.take_left]

/-- When all that was reported is sorted, the faults of tokens stay in the order of the text. -/
theorem filter_issues :
    ((Issue.sortByStart (s.issues ++ r.cursor.issues)).filter fun issue =>
      issue.problem.isLexical) = r.cursor.issues := by
  obtain ⟨read, htokens, hreported⟩ := h.reported
  have hlexical := Token.ofText_isLexical Alphabet.standard text.toList
  have hordered := Token.ofText_ordered Alphabet.standard text.toList
  rw [htokens] at hlexical hordered
  have hsorted : r.cursor.issues.Pairwise fun first second =>
      first.span.start ≤ second.span.start := by
    rw [hreported, List.pairwise_filterMap]
    refine (List.pairwise_append.mp hordered).1.imp fun {first second} hbefore => ?_
    intro issue hissue issue' hissue'
    rw [Token.issue?_span hissue, Token.issue?_span hissue']
    exact Nat.le_of_lt hbefore
  have hfaults : (r.cursor.issues.filter fun issue => issue.problem.isLexical) =
      r.cursor.issues := by
    rw [List.filter_eq_self, hreported]
    intro issue hissue
    obtain ⟨token, htoken, hfault⟩ := List.mem_filterMap.mp hissue
    exact hlexical token (List.mem_append_left _ htoken) issue hfault
  have hothers : (s.issues.filter fun issue => issue.problem.isLexical) = [] := by
    rw [List.filter_eq_nil_iff]
    intro issue hissue
    simp [h.ordinary issue hissue]
  have hall : ((s.issues ++ r.cursor.issues).filter fun issue => issue.problem.isLexical) =
      r.cursor.issues := by
    rw [List.filter_append, hothers, hfaults, List.nil_append]
  rw [Issue.filter_sortByStart (by rwa [hall]), hall]

end Sees

end TextReader

namespace Script

variable {α : Type}

/-- A script gives the same on a reader and on all tokens, and goes on seeing the same. -/
theorem onText_eq (script : Script α) {text : String} {r : TextReader} {s : ParseState}
    (h : r.Sees text s) :
    (script.onText.run r).1 = (script.onTokens.run s).1 ∧
      (script.onText.run r).2.Sees text (script.onTokens.run s).2 := by
  induction script generalizing r s with
  | done result => exact ⟨rfl, h⟩
  | look next ih =>
    show ((next r.cursor.token.seen).onText.run r).1 = ((next s.current.seen).onTokens.run s).1 ∧
      ((next r.cursor.token.seen).onText.run r).2.Sees text
        ((next s.current.seen).onTokens.run s).2
    rw [h.current]
    exact ih _ h
  | remaining next ih =>
    show ((next (r.cursor.coming.length + 1)).onText.run r).1 =
        ((next (s.upcoming.length + 1)).onTokens.run s).1 ∧
      ((next (r.cursor.coming.length + 1)).onText.run r).2.Sees text
        ((next (s.upcoming.length + 1)).onTokens.run s).2
    rw [h.coming]
    exact ih _ h
  | previousStop next ih =>
    show ((next r.previousStop).onText.run r).1 = ((next s.previousStop).onTokens.run s).1 ∧
      ((next r.previousStop).onText.run r).2.Sees text ((next s.previousStop).onTokens.run s).2
    rw [h.previousStop]
    exact ih _ h
  | nextKind next ih =>
    have hrun : (Script.nextKind next).onText.run r =
        (next ((Parse.nextKind.run s).1)).onText.run r := by
      rw [← h.peek_eq, onText, StateT.run_bind, TextReader.lookAhead_run TextReader.peek_adds]
      rfl
    rw [hrun]
    exact ih _ h
  | startsFunctionType next ih =>
    have hrun : (Script.startsFunctionType next).onText.run r =
        (next ((Parse.startsFunctionType.run s).1)).onText.run r := by
      rw [← h.seekArrow_eq]
      simp only [onText, StateT.run_bind, StateT.run_get, pure_bind,
        TextReader.lookAhead_run (TextReader.seekArrow_adds _ _)]
      rfl
    rw [hrun]
    exact ih _ h
  | advance next ih => exact ih h.advance
  | report problem ordinary next ih => exact ih (h.report ordinary)
  | number span next ih =>
    have hnumbered := h.numbered
    show ((next ⟨r.nextId, span⟩).onText.run { r with nextId := r.nextId + 1 }).1 =
        ((next ⟨s.nextId, span⟩).onTokens.run s.numbered).1 ∧
      ((next ⟨r.nextId, span⟩).onText.run { r with nextId := r.nextId + 1 }).2.Sees text
        ((next ⟨s.nextId, span⟩).onTokens.run s.numbered).2
    rw [h.nextId] at hnumbered ⊢
    exact ih _ hnumbered

/-- A parse of a text by a script gives the tree that the script makes while it reads the text. What
is reported of tokens by then is reported in the end, each once and in this order, as well as what
the script reports and nothing else. -/
structure ReadsOnce (text : String) (script : Script α) (parsed : Parsed α) : Prop where
  tree : parsed.tree = (script.onText.run (TextReader.start text)).1
  follows : (script.onText.run (TextReader.start text)).2.Follows text
  issues : parsed.issues = Issue.sortByStart
    ((script.onText.run (TextReader.start text)).2.issues ++
      (script.onText.run (TextReader.start text)).2.cursor.issues)
  lexical : (parsed.issues.filter fun issue => issue.problem.isLexical) =
    (script.onText.run (TextReader.start text)).2.cursor.issues

/-- Whatever script is run on a text, the reader and the parse over all tokens give the same tree,
and each fault of a token is reported once. -/
theorem readsOnce (script : Script α) (text : String) :
    script.ReadsOnce text
      (Parse.throughout script.onTokens (Token.ofText Alphabet.standard text.toList)) := by
  obtain ⟨htree, hsees⟩ := script.onText_eq (TextReader.sees_start text)
  have hissues : (Parse.throughout script.onTokens
      (Token.ofText Alphabet.standard text.toList)).issues = Issue.sortByStart
        ((script.onText.run (TextReader.start text)).2.issues ++
          (script.onText.run (TextReader.start text)).2.cursor.issues) := by
    rw [hsees.issues, ← hsees.tokenIssues_eq]
    rfl
  refine ⟨htree.symm, hsees.follows, hissues, ?_⟩
  rw [hissues, hsees.issues]
  exact hsees.filter_issues

end Script

namespace Parse

/-- A parse is written out in steps in some way, and in whatever way it is, a reader that takes
these steps one by one arrives at what the parse gives on all tokens of the text. -/
structure ReadsOnce {α : Type} (text : String) (p : Parse α) (parsed : Parsed α) : Prop where
  scripted : Scripted p
  readsOnce : ∀ script : Script α, script.onTokens = p → script.ReadsOnce text parsed

/-- A parse that is a script on the tokens of a text is that script on the text as it is read. -/
theorem Scripted.readsOnce {α : Type} {p : Parse α} (h : Scripted p) (text : String) :
    p.ReadsOnce text (throughout p (Token.ofText Alphabet.standard text.toList)) := by
  refine ⟨h, ?_⟩
  rintro script rfl
  exact script.readsOnce text

end Parse

/-- Each fault of a token is reported once, however often the parse looked ahead over it: what an
expression and a file report of tokens is what a plain reading reports, up to the token on which
the parse stopped, and the tokens taken are those of the plain reading. -/
theorem parse_reads_once (name text : String) :
    Parse.wholeExpression.ReadsOnce text (Expr.parse text) ∧
      (Parse.wholeFile name text.toList).ReadsOnce text (SourceFile.parse name text) :=
  ⟨Parse.wholeExpression_scripted.readsOnce text,
    (Parse.wholeFile_scripted name text.toList).readsOnce text⟩

end ExpressionTyping
