import ExpressionTyping.Proofs.Grammar.RoundTrip
import ExpressionTyping.Proofs.Syntax.TypePrinting

/-!
# Reading the parts of types

What a step of the grammar reads from the tokens that it stands before, and which tokens it leaves, is
said by `Parse.Reads`; steps follow each other by `Reads.bind`. Given that the types inside are read
back (`ReadsType`), so are annotations, parameters and the members of object types. The tokens are on
one line and in order, since brackets on a new line go with no type and a member that takes no token
is passed over.
-/

set_option autoImplicit false

namespace ExpressionTyping

/-! ## Where a type ends -/

/-- Whether a token ends any type before it. -/
def TokenKind.endsType : TokenKind → Bool
  | punctuator .closeParen | punctuator .comma | punctuator .semicolon => true
  | _ => false

/-- A token that ends a type is no punctuator that does not. -/
theorem TokenKind.ne_of_endsType {kind : TokenKind} {p : Punctuator} (h : kind.endsType = true)
    (hp : (TokenKind.punctuator p).endsType = false) : kind ≠ .punctuator p := by
  rintro rfl
  rw [hp] at h
  cases h

/-- Tokens on one line, each of which starts after the one before it. -/
structure Token.OnLine (tokens : List Token) : Prop where
  unbroken : ∀ token ∈ tokens, token.afterLineBreak = false
  ordered : tokens.Pairwise fun first second => first.span.start < second.span.start

/-- The tokens after the first of those on a line are on a line. -/
theorem Token.OnLine.tail {token : Token} {rest : List Token} (h : OnLine (token :: rest)) :
    OnLine rest :=
  ⟨fun other hother => h.unbroken other (List.mem_cons_of_mem _ hother),
    (List.pairwise_cons.mp h.ordered).2⟩

/-- The tokens ahead are on one line. -/
structure ParseState.Faces (s : ParseState) (tokens : List Token) : Prop where
  ahead : s.ahead = tokens
  onLine : Token.OnLine tokens

namespace ParseState.Faces

variable {s : ParseState} {token : Token} {rest tokens : List Token}

/-- The first of the tokens faced is the current one. -/
theorem current (h : s.Faces (token :: rest)) : s.current = token :=
  current_of_ahead h.ahead

/-- After a token is taken, those after it are faced. -/
theorem taken (h : s.Faces (token :: rest)) (hrest : rest ≠ []) : s.taken.Faces rest :=
  ⟨taken_ahead h.ahead hrest, h.onLine.tail⟩

/-- Giving a number leaves the tokens faced. -/
theorem numbered (h : s.Faces tokens) : s.numbered.Faces tokens :=
  ⟨h.ahead, h.onLine⟩

/-- A token always lies ahead, so a loop that has a round for each token has one left. -/
theorem exists_round (h : s.Faces tokens) {limit : Nat} (hlimit : tokens.length ≤ limit) :
    ∃ rounds, limit = rounds + 1 :=
  Parse.exists_round (h.ahead ▸ hlimit)

end ParseState.Faces

/-! ## Steps that read what is there -/

namespace Parse

variable {α β : Type}

/-- A parse has a result of which a condition holds, reports nothing and leaves the given tokens. -/
def Reads (p : Parse α) (Q : α → Prop) (s : ParseState) (after : List Token) : Prop :=
  ∃ a s', p.run s = (a, s') ∧ Q a ∧ s'.Faces after ∧ s'.issues = s.issues

section Steps

variable {s : ParseState} {token : Token} {tokens rest mid after : List Token} {Q : α → Prop}
  {R : β → Prop}

/-- A parse that does nothing leaves the tokens faced. -/
theorem Reads.pure {a : α} (ha : Q a) (h : s.Faces tokens) : Reads (pure a) Q s tokens :=
  ⟨a, s, rfl, ha, h, rfl⟩

/-- Reading to some tokens and from these on is reading in a row. -/
theorem Reads.bind {p : Parse α} {f : α → Parse β} (hp : Reads p Q s mid)
    (hf : ∀ a s', Q a → s'.Faces mid → Reads (f a) R s' after) : Reads (p >>= f) R s after := by
  obtain ⟨a, s₁, hrun, ha, hfaces, hissues⟩ := hp
  obtain ⟨b, s₂, hrun', hb, hfaces', hissues'⟩ := hf a s₁ ha hfaces
  refine ⟨b, s₂, ?_, hb, hfaces', hissues'.trans hissues⟩
  rw [run_bind, hrun, hrun']

/-- A step whose result is known. -/
theorem Reads.step {p : Parse α} {f : α → Parse β} {a : α} (hp : Reads p (· = a) s mid)
    (hf : ∀ s', s'.Faces mid → Reads (f a) R s' after) : Reads (p >>= f) R s after :=
  hp.bind fun _ s' heq hfaces => heq ▸ hf s' hfaces

/-- Looking at the current token reads the first one and takes none. -/
theorem current_reads (h : s.Faces (token :: rest)) :
    Reads current (· = token) s (token :: rest) :=
  ⟨s.current, s, current_run s, h.current, h, rfl⟩

/-- Counting the tokens ahead takes none. -/
theorem remaining_reads (h : s.Faces tokens) : Reads remaining (· = tokens.length) s tokens :=
  ⟨s.ahead.length, s, remaining_run s, by rw [h.ahead], h, rfl⟩

/-- Taking a token leaves those after it. -/
theorem advance_reads (h : s.Faces (token :: rest)) (hrest : rest ≠ []) :
    Reads advance (fun _ => True) s rest :=
  ⟨(), s.taken, advance_run s, trivial, h.taken hrest, s.taken_issues⟩

/-- Making a node takes no token. -/
theorem newNode_reads (span : Span) (h : s.Faces tokens) :
    Reads (newNode span) (fun _ => True) s tokens :=
  ⟨_, s.numbered, newNode_run span s, trivial, h.numbered, rfl⟩

/-- Closing a node takes no token. -/
theorem closeNode_reads (start : Nat) (h : s.Faces tokens) :
    Reads (closeNode start) (fun _ => True) s tokens :=
  ⟨_, s.numbered, closeNode_run start s, trivial, h.numbered, rfl⟩

/-- Asking for a kind of token compares it with that of the first one and takes none. -/
theorem isAt_reads (kind : TokenKind) (h : s.Faces (token :: rest)) :
    Reads (isAt kind) (· = decide (token.kind = kind)) s (token :: rest) :=
  ⟨_, s, isAt_run kind s, by rw [h.current], h, rfl⟩

/-- A loop over a list stops at the token that closes the list. -/
theorem loop_stops {close : Punctuator} {go : Parse (List α)} {Q : List α → Prop}
    (h : s.Faces (token :: rest)) (hclose : token.kind = .punctuator close) (hnone : Q []) :
    Reads (do
      if (← isAtPunctuator close) || (← isAt .endOfText) then return []
      go) Q s (token :: rest) := by
  refine (isAt_reads _ h).step fun s₁ h₁ => (isAt_reads _ h₁).step fun s₂ h₂ => ?_
  rw [decide_eq_true hclose]
  exact .pure hnone h₂

/-- A loop over a list goes on at any other token of the text. -/
theorem loop_goes_on {close : Punctuator} {go : Parse (List α)} {Q : List α → Prop}
    (h : s.Faces (token :: rest)) (hclose : token.kind ≠ .punctuator close)
    (hend : token.kind ≠ .endOfText) (hgo : Reads go Q s after) :
    Reads (do
      if (← isAtPunctuator close) || (← isAt .endOfText) then return []
      go) Q s after := by
  obtain ⟨values, s', hrun, hvalues⟩ := hgo
  refine ⟨values, s', ?_, hvalues⟩
  rw [run_bind, isAtPunctuator, isAt_run, run_bind, isAt_run, h.current, decide_eq_false hclose,
    decide_eq_false hend]
  exact hrun

/-- A punctuator that stands first is taken. -/
theorem accept?_reads {p : Punctuator} (h : s.Faces (token :: rest))
    (hkind : token.kind = .punctuator p) (hrest : rest ≠ []) :
    Reads (accept? p) (fun mark => mark.isSome = true) s rest := by
  rw [← h.current] at hkind
  exact ⟨_, s.taken, accept?_run_of_eq hkind, rfl, h.taken hrest, s.taken_issues⟩

/-- A punctuator that does not stand first is not taken. -/
theorem accept?_reads_none {p : Punctuator} (h : s.Faces (token :: rest))
    (hkind : token.kind ≠ .punctuator p) : Reads (accept? p) (· = none) s (token :: rest) := by
  rw [← h.current] at hkind
  exact ⟨_, s, accept?_run_of_ne hkind, rfl, h, rfl⟩

/-- A punctuator that stands first is taken and said to be there. -/
theorem accept_reads {p : Punctuator} (h : s.Faces (token :: rest))
    (hkind : token.kind = .punctuator p) (hrest : rest ≠ []) :
    Reads (accept p) (· = true) s rest := by
  rw [← h.current] at hkind
  exact ⟨_, s.taken, accept_run_of_eq hkind, rfl, h.taken hrest, s.taken_issues⟩

/-- A punctuator that does not stand first is said not to be there. -/
theorem accept_reads_none {p : Punctuator} (h : s.Faces (token :: rest))
    (hkind : token.kind ≠ .punctuator p) : Reads (accept p) (· = false) s (token :: rest) := by
  rw [← h.current] at hkind
  exact ⟨_, s, accept_run_of_ne hkind, rfl, h, rfl⟩

/-- An expected punctuator that stands first is taken. -/
theorem expectPunctuator_reads {p : Punctuator} (h : s.Faces (token :: rest))
    (hkind : token.kind = .punctuator p) (hrest : rest ≠ []) :
    Reads (expectPunctuator p) (fun _ => True) s rest := by
  rw [← h.current] at hkind
  exact ⟨(), s.taken, expectPunctuator_run hkind, trivial, h.taken hrest, s.taken_issues⟩

/-- A name is read from the token that spells it. -/
theorem identifier_reads {name : Identifier} (h : s.Faces (token :: rest))
    (hcontent : token.content = name.content) (hname : (TokenKind.ofWord name.text).isName = true)
    (hrest : rest ≠ []) : Reads identifier (fun name' => name'.bare = name.bare) s rest := by
  rw [← h.current] at hcontent
  have hkind : s.current.kind.isName = true := by
    rw [Token.kind_of_content hcontent]
    exact hname
  have hvalue : s.current.value = name.text := congrArg Prod.snd hcontent
  exact ⟨_, s.taken.numbered, identifier_run hkind, congrArg (Identifier.mk default) hvalue,
    (h.taken hrest).numbered, s.taken_issues⟩

/-- The name of a member is read from the token that spells it. -/
theorem memberName_reads {name : Identifier} (h : s.Faces (token :: rest))
    (hcontent : token.content = name.content) (hrest : rest ≠ []) :
    Reads memberName (fun name' => name'.bare = name.bare) s rest := by
  rw [← h.current] at hcontent
  have hkind : s.current.kind.isKeyword = true ∨ s.current.kind.isName = true := by
    rw [Token.kind_of_content hcontent]
    exact TokenKind.ofWord_isWord name.text
  have hvalue : s.current.value = name.text := congrArg Prod.snd hcontent
  exact ⟨_, s.taken.numbered, memberName_run hkind, congrArg (Identifier.mk default) hvalue,
    (h.taken hrest).numbered, s.taken_issues⟩

end Steps

/-! ## Annotations, parameters and members -/

section Parts

variable {type : Parse TypeNode} {s : ParseState} {tokens after : List Token} {next : Token}

/-- A reader of types reads one before a token that ends it. -/
def ReadsType (p : Parse TypeNode) (t : TypeNode) : Prop :=
  ∀ s tokens next after, s.Faces (tokens ++ next :: after) →
    tokens.map Token.content = t.contents → next.kind.endsType = true →
    Reads p (fun t' => t'.bare = t.bare) s (next :: after)

/-- An annotation, or none, is read before a token that ends it. -/
theorem optionalType_reads {type? : Option TypeNode} (h : ∀ t ∈ type?, ReadsType type t)
    (hfaces : s.Faces (tokens ++ next :: after))
    (hcontents : tokens.map Token.content = annotationContents type?)
    (hnext : next.kind.endsType = true) :
    Reads (optionalType type) (fun written => bareType? written = bareType? type?) s
      (next :: after) := by
  cases type? with
  | none =>
    rw [annotationContents, List.map_eq_nil_iff] at hcontents
    subst hcontents
    refine (accept_reads_none hfaces (TokenKind.ne_of_endsType hnext rfl)).step fun s₁ h₁ => ?_
    exact .pure rfl h₁
  | some t =>
    rw [annotationContents] at hcontents
    obtain ⟨colon, tokens, rfl, hcolon, htokens⟩ := List.map_eq_cons_iff.mp hcontents
    refine (accept_reads hfaces (Token.kind_of_content hcolon) (by simp)).step fun s₁ h₁ => ?_
    refine (h t rfl s₁ tokens next after h₁ htokens hnext).bind fun t' s₂ ht' h₂ => ?_
    exact .pure (by rw [bareType?, bareType?, ht']) h₂

/-- After a name comes the colon of its annotation, or what ends it. -/
theorem annotation_head {type? : Option TypeNode}
    (hcontents : tokens.map Token.content = annotationContents type?)
    (hnext : next.kind.endsType = true) (after : List Token) :
    ∃ first more, tokens ++ next :: after = first :: more ∧
      (first.kind = .punctuator .colon ∨ first.kind.endsType = true) := by
  cases type? with
  | none =>
    rw [annotationContents, List.map_eq_nil_iff] at hcontents
    subst hcontents
    exact ⟨next, after, rfl, .inr hnext⟩
  | some t =>
    rw [annotationContents] at hcontents
    obtain ⟨colon, tokens, rfl, hcolon, -⟩ := List.map_eq_cons_iff.mp hcontents
    exact ⟨colon, tokens ++ next :: after, rfl, .inl (Token.kind_of_content hcolon)⟩

/-- A name, and the type that is written for it, before what ends it. -/
theorem named_reads {alphabet : Alphabet} {name : Identifier} {type? : Option TypeNode}
    (hname : name.Usable alphabet) (h : ∀ t ∈ type?, ReadsType type t)
    (hfaces : s.Faces (tokens ++ next :: after))
    (hcontents : tokens.map Token.content = name.content :: annotationContents type?)
    (hnext : next.kind.endsType = true) (start : Nat) (rest : Option Span) :
    Reads (do
      let name ← identifier
      let _ ← accept .question
      let written ← optionalType type
      return Parameter.mk (← closeNode start) rest name written)
      (fun value => value.bare =
        .mk default (rest.map fun _ => default) name.bare (bareType? type?)) s (next :: after) := by
  obtain ⟨word, tokens, rfl, hword, htokens⟩ := List.map_eq_cons_iff.mp hcontents
  obtain ⟨first, more, hmore, hfirst⟩ := annotation_head htokens hnext after
  rw [List.cons_append] at hfaces
  have hquestion : first.kind ≠ .punctuator .question := by
    rcases hfirst with hfirst | hfirst
    · simp [hfirst]
    · exact TokenKind.ne_of_endsType hfirst rfl
  refine (identifier_reads hfaces hword hname.1 (by simp)).bind fun name' s₁ hname' h₁ => ?_
  rw [hmore] at h₁
  refine (accept_reads_none h₁ hquestion).bind fun _ s₂ _ h₂ => ?_
  rw [← hmore] at h₂
  refine (optionalType_reads h h₂ htokens hnext).bind fun written s₃ hwritten h₃ => ?_
  refine (closeNode_reads start h₃).bind fun node s₄ _ h₄ => ?_
  exact .pure (by rw [Parameter.bare, hname', hwritten]) h₄

/-- A parameter is read before a token that ends it. -/
theorem parameter_reads {alphabet : Alphabet} {parameter : Parameter}
    (hname : parameter.name.Usable alphabet) (h : ∀ t ∈ parameter.type?, ReadsType type t)
    (hfaces : s.Faces (tokens ++ next :: after))
    (hcontents : tokens.map Token.content = parameter.contents)
    (hnext : next.kind.endsType = true) :
    Reads (Parse.parameter type) (fun value => value.bare = parameter.bare) s (next :: after) := by
  obtain ⟨node, rest, name, type?⟩ := parameter
  cases rest with
  | none =>
    rw [Parameter.contents] at hcontents
    obtain ⟨word, words, rfl, hword, -⟩ := List.map_eq_cons_iff.mp hcontents
    have hplain : word.kind ≠ .punctuator .ellipsis := by
      intro hkind
      have hisName : word.kind.isName = true := by
        rw [Token.kind_of_content hword]
        exact hname.1
      rw [hkind] at hisName
      cases hisName
    refine (current_reads hfaces).bind fun _ s₁ _ h₁ => ?_
    refine (accept?_reads_none h₁ hplain).step fun s₂ h₂ => ?_
    rw [Parameter.bare]
    exact named_reads hname h h₂ hcontents hnext _ none
  | some span =>
    rw [Parameter.contents] at hcontents
    obtain ⟨dots, words, rfl, hdots, hwords⟩ := List.map_eq_cons_iff.mp hcontents
    refine (current_reads hfaces).bind fun _ s₁ _ h₁ => ?_
    refine (accept?_reads h₁ (Token.kind_of_content hdots) (by simp)).bind fun mark s₂ hmark h₂ => ?_
    obtain ⟨place, rfl⟩ := Option.isSome_iff_exists.mp hmark
    rw [Parameter.bare]
    exact named_reads hname h h₂ hwords hnext _ (some place)

/-- A parameter starts with a name or with dots. -/
theorem parameter_head {alphabet : Alphabet} {parameter : Parameter}
    (hname : parameter.name.Usable alphabet)
    (hcontents : tokens.map Token.content = parameter.contents) :
    ∃ first more, tokens = first :: more ∧ first.kind ≠ .punctuator .closeParen ∧
      first.kind ≠ .endOfText := by
  obtain ⟨node, rest, name, type?⟩ := parameter
  cases rest with
  | none =>
    rw [Parameter.contents] at hcontents
    obtain ⟨word, words, rfl, hword, -⟩ := List.map_eq_cons_iff.mp hcontents
    have hisName : word.kind.isName = true := by
      rw [Token.kind_of_content hword]
      exact hname.1
    refine ⟨word, words, rfl, fun hkind => ?_, fun hkind => ?_⟩
    · rw [hkind] at hisName
      cases hisName
    · rw [hkind] at hisName
      cases hisName
  | some span =>
    rw [Parameter.contents] at hcontents
    obtain ⟨dots, words, rfl, hdots, -⟩ := List.map_eq_cons_iff.mp hcontents
    have hkind : dots.kind = .punctuator .ellipsis := Token.kind_of_content hdots
    exact ⟨dots, words, rfl, by simp [hkind], by simp [hkind]⟩

/-- Parameters are read up to the closing parenthesis, if only the last one is a rest parameter. -/
theorem parametersTail_reads {alphabet : Alphabet} {parameters : List Parameter}
    (hnames : ∀ parameter ∈ parameters, parameter.name.Usable alphabet)
    (h : ∀ t ∈ parameters.filterMap Parameter.type?, ReadsType type t)
    (hrest : restOnlyLast parameters = true) (hfaces : s.Faces (tokens ++ next :: after))
    (hcontents : tokens.map Token.content = parameterContents parameters)
    (hnext : next.kind = .punctuator .closeParen) {limit : Nat}
    (hlimit : (tokens ++ next :: after).length ≤ limit) :
    Reads (parametersTail type limit false)
      (fun values => bareParameters values = bareParameters parameters) s (next :: after) := by
  have hends : next.kind.endsType = true := by
    rw [hnext]
    rfl
  induction parameters generalizing limit s tokens with
  | nil =>
    rw [parameterContents, List.map_eq_nil_iff] at hcontents
    subst hcontents
    obtain ⟨limit, rfl⟩ := hfaces.exists_round hlimit
    exact loop_stops hfaces hnext rfl
  | cons parameter others ih =>
    obtain ⟨limit, rfl⟩ := hfaces.exists_round hlimit
    obtain ⟨hname, hnames⟩ := List.forall_mem_cons.mp hnames
    have htype : ∀ t ∈ parameter.type?, ReadsType type t := fun t ht =>
      h t (List.mem_filterMap.mpr ⟨parameter, List.mem_cons_self, ht⟩)
    -- The loop goes on to the parameter, whatever follows it.
    have hgoes {words mid : List Token} {Q : List Parameter → Prop}
        (hwords : words.map Token.content = parameter.contents) (h₀ : s.Faces (words ++ mid))
        (hread : Reads (do
          let first ← Parse.parameter type
          if ← accept .comma then
            return first :: (← parametersTail type limit first.isRest)
          else return [first] : Parse (List Parameter)) Q s (next :: after)) :
        Reads (parametersTail type (limit + 1) false) Q s (next :: after) := by
      obtain ⟨first, more, rfl, hclose, hend⟩ := parameter_head hname hwords
      exact loop_goes_on h₀ hclose hend hread
    cases others with
    | nil =>
      rw [parameterContents] at hcontents
      refine hgoes hcontents hfaces ?_
      refine (parameter_reads hname htype hfaces hcontents hends).bind fun value s₁ hvalue h₁ => ?_
      refine (accept_reads_none h₁ (by simp [hnext])).step fun s₂ h₂ => ?_
      exact .pure (by simp only [bareParameters, hvalue]) h₂
    | cons second others =>
      rw [parameterContents_cons_cons] at hcontents
      obtain ⟨words, comma, more, rfl, hwords, hcomma, hmore⟩ :=
        Token.exists_of_map_append_cons hcontents
      rw [List.append_assoc] at hfaces
      have hcommaKind : comma.kind = .punctuator .comma := Token.kind_of_content hcomma
      obtain ⟨hplain, hothers⟩ := restOnlyLast_cons_cons.mp hrest
      refine hgoes hwords hfaces ?_
      refine (parameter_reads hname htype hfaces hwords (by rw [hcommaKind]; rfl)).bind
        fun value s₁ hvalue h₁ => ?_
      refine (accept_reads h₁ hcommaKind (by simp)).step fun s₂ h₂ => ?_
      have hvalueRest : value.isRest = false := by
        rw [← Parameter.isRest_bare, hvalue, Parameter.isRest_bare, hplain]
      have hroom : (more ++ next :: after).length ≤ limit := by
        simp only [List.length_append, List.length_cons] at hlimit ⊢
        omega
      rw [hvalueRest]
      refine (ih hnames (fun t ht => ?_) hothers h₂ hmore hroom).bind fun values s₃ hvalues h₃ => ?_
      · obtain ⟨other, hmem, hother⟩ := List.mem_filterMap.mp ht
        exact h t (List.mem_filterMap.mpr ⟨other, List.mem_cons_of_mem _ hmem, hother⟩)
      · exact .pure (by rw [bareParameters, hvalue, hvalues]; rfl) h₃

/-- Parameters in parentheses are read. -/
theorem parameters_reads {alphabet : Alphabet} {parameters : List Parameter}
    (hnames : ∀ parameter ∈ parameters, parameter.name.Usable alphabet)
    (h : ∀ t ∈ parameters.filterMap Parameter.type?, ReadsType type t)
    (hrest : restOnlyLast parameters = true) {opening closing : Token} {within : List Token}
    (hfaces : s.Faces (opening :: (within ++ closing :: after)))
    (hopening : opening.kind = .punctuator .openParen)
    (hcontents : within.map Token.content = parameterContents parameters)
    (hclosing : closing.kind = .punctuator .closeParen) (hafter : after ≠ []) :
    Reads (Parse.parameters type) (fun values => bareParameters values = bareParameters parameters) s
      after := by
  refine (expectPunctuator_reads hfaces hopening (by simp)).bind fun _ s₁ _ h₁ => ?_
  refine (remaining_reads h₁).step fun s₂ h₂ => ?_
  refine (parametersTail_reads hnames h hrest h₂ hcontents hclosing (Nat.le_refl _)).bind
    fun values s₃ hvalues h₃ => ?_
  refine (expectPunctuator_reads h₃ hclosing hafter).bind fun _ s₄ _ h₄ => ?_
  exact .pure hvalues h₄

/-- A member is read before a token that ends it. -/
theorem element_reads {alphabet : Alphabet} {member : TypeElement}
    (hnames : ∀ parameter ∈ member.parameters, parameter.name.Usable alphabet)
    (h : ∀ t ∈ member.types, ReadsType type t) (hrest : restOnlyLast member.parameters = true)
    (hfaces : s.Faces (tokens ++ next :: after))
    (hcontents : tokens.map Token.content = member.contents)
    (hnext : next.kind.endsType = true) :
    Reads (element type) (fun value => value.bare = member.bare) s (next :: after) := by
  have hannotation : ∀ t ∈ member.type?, ReadsType type t := fun t ht =>
    h t (List.mem_append_right _ (Option.mem_toList.mpr ht))
  cases member with
  | property node name type? =>
    rw [TypeElement.contents] at hcontents
    obtain ⟨word, tokens, rfl, hword, htokens⟩ := List.map_eq_cons_iff.mp hcontents
    obtain ⟨first, more, hmore, hfirst⟩ := annotation_head htokens hnext after
    rw [List.cons_append] at hfaces
    have hne {p : Punctuator} (hp : (TokenKind.punctuator p).endsType = false)
        (hcolon : p ≠ .colon) : first.kind ≠ .punctuator p := by
      rcases hfirst with hfirst | hfirst
      · rw [hfirst]
        exact fun heq => hcolon (TokenKind.punctuator.inj heq).symm
      · exact TokenKind.ne_of_endsType hfirst hp
    refine (current_reads hfaces).bind fun _ s₁ _ h₁ => ?_
    refine (memberName_reads h₁ hword (by simp)).bind fun name' s₂ hname' h₂ => ?_
    rw [hmore] at h₂
    refine (accept_reads_none h₂ (hne rfl (by decide))).bind fun _ s₃ _ h₃ => ?_
    refine (isAt_reads _ h₃).step fun s₄ h₄ => ?_
    rw [decide_eq_false (hne rfl (by decide))]
    rw [← hmore] at h₄
    refine (optionalType_reads hannotation h₄ htokens hnext).bind fun written s₅ hwritten h₅ => ?_
    refine (closeNode_reads _ h₅).bind fun node s₆ _ h₆ => ?_
    exact .pure (by rw [TypeElement.bare, TypeElement.bare, hname', hwritten]; rfl) h₆
  | method node name parameters result =>
    rw [TypeElement.contents] at hcontents
    obtain ⟨word, more, rfl, hword, hmore⟩ := List.map_eq_cons_iff.mp hcontents
    obtain ⟨opening, more, rfl, hopening, hmore⟩ := List.map_eq_cons_iff.mp hmore
    obtain ⟨within, closing, tokens, rfl, hwithin, hclosing, htokens⟩ :=
      Token.exists_of_map_append_cons hmore
    have hopen : opening.kind = .punctuator .openParen := Token.kind_of_content hopening
    simp only [List.cons_append, List.append_assoc] at hfaces
    refine (current_reads hfaces).bind fun _ s₁ _ h₁ => ?_
    refine (memberName_reads h₁ hword (by simp)).bind fun name' s₂ hname' h₂ => ?_
    refine (accept_reads_none h₂ (by simp [hopen])).bind fun _ s₃ _ h₃ => ?_
    refine (isAt_reads _ h₃).step fun s₄ h₄ => ?_
    rw [decide_eq_true hopen]
    refine (parameters_reads hnames (fun t ht => h t (List.mem_append_left _ ht)) hrest h₄ hopen
      hwithin (Token.kind_of_content hclosing) (by simp)).bind fun values s₅ hvalues h₅ => ?_
    refine (optionalType_reads hannotation h₅ htokens hnext).bind fun written s₆ hwritten h₆ => ?_
    refine (closeNode_reads _ h₆).bind fun node s₇ _ h₇ => ?_
    exact .pure (by rw [TypeElement.bare, TypeElement.bare, hname', hvalues, hwritten]; rfl) h₇

/-- A member starts with a word. -/
theorem element_head {member : TypeElement}
    (hcontents : tokens.map Token.content = member.contents) :
    ∃ first more, tokens = first :: more ∧ first.kind ≠ .punctuator .closeBrace ∧
      first.kind ≠ .endOfText := by
  have hcons : ∃ more, member.contents = member.name.content :: more := by
    cases member with
    | property => exact ⟨_, by rw [TypeElement.contents]; rfl⟩
    | method => exact ⟨_, by rw [TypeElement.contents]; rfl⟩
  obtain ⟨more, hmore⟩ := hcons
  rw [hmore] at hcontents
  obtain ⟨word, words, rfl, hword, -⟩ := List.map_eq_cons_iff.mp hcontents
  have hkind : word.kind.isKeyword = true ∨ word.kind.isName = true := by
    rw [Token.kind_of_content hword]
    exact TokenKind.ofWord_isWord member.name.text
  refine ⟨word, words, rfl, fun heq => ?_, fun heq => ?_⟩
  · rw [heq] at hkind
    rcases hkind with hkind | hkind <;> cases hkind
  · rw [heq] at hkind
    rcases hkind with hkind | hkind <;> cases hkind

/-- Members are read up to the closing brace. -/
theorem elementsTail_reads {alphabet : Alphabet} {members : List TypeElement}
    (hnames : ∀ member ∈ members, ∀ parameter ∈ member.parameters,
      parameter.name.Usable alphabet)
    (h : ∀ t ∈ members.flatMap TypeElement.types, ReadsType type t)
    (hrest : ∀ member ∈ members, restOnlyLast member.parameters = true)
    (hfaces : s.Faces (tokens ++ next :: after))
    (hcontents : tokens.map Token.content = elementContents members)
    (hnext : next.kind = .punctuator .closeBrace) {limit : Nat}
    (hlimit : (tokens ++ next :: after).length ≤ limit) :
    Reads (elementsTail type limit) (fun values => bareElements values = bareElements members) s
      (next :: after) := by
  induction members generalizing limit s tokens with
  | nil =>
    rw [elementContents, List.map_eq_nil_iff] at hcontents
    subst hcontents
    obtain ⟨limit, rfl⟩ := hfaces.exists_round hlimit
    exact loop_stops hfaces hnext rfl
  | cons member others ih =>
    obtain ⟨limit, rfl⟩ := hfaces.exists_round hlimit
    obtain ⟨hname, hnames⟩ := List.forall_mem_cons.mp hnames
    obtain ⟨hlast, hrest⟩ := List.forall_mem_cons.mp hrest
    rw [elementContents] at hcontents
    obtain ⟨words, semicolon, more, rfl, hwords, hsemicolon, hmore⟩ :=
      Token.exists_of_map_append_cons hcontents
    have hkind : semicolon.kind = .punctuator .semicolon := Token.kind_of_content hsemicolon
    rw [List.append_assoc, List.cons_append] at hfaces
    obtain ⟨first, words, rfl, hclose, hend⟩ := element_head hwords
    -- What is read takes at least the first word, so no token is passed over.
    have hmoved : ∀ token ∈ (more ++ next :: after).head?, token.span.start ≠ first.span.start := by
      intro token htoken
      have hmem : token ∈ words ++ semicolon :: (more ++ next :: after) :=
        List.mem_append_right _ (List.mem_cons_of_mem _ (List.mem_of_mem_head? htoken))
      exact Nat.ne_of_gt ((List.pairwise_cons.mp hfaces.onLine.ordered).1 token hmem)
    refine loop_goes_on hfaces hclose hend ?_
    refine (current_reads hfaces).step fun s₁ h₁ => ?_
    refine (element_reads hname (fun t ht => h t (List.mem_append_left _ ht)) hlast h₁ hwords
      (by rw [hkind]; rfl)).bind fun value s₂ hvalue h₂ => ?_
    refine (accept_reads h₂ hkind (by simp)).step fun s₃ h₃ => ?_
    obtain ⟨token, rest, heq⟩ := List.exists_cons_of_ne_nil
      (show more ++ next :: after ≠ [] by simp)
    rw [heq] at h₃ hmoved
    refine (current_reads h₃).step fun s₄ h₄ => ?_
    rw [if_neg (hmoved _ rfl)]
    rw [← heq] at h₄
    have hroom : (more ++ next :: after).length ≤ limit := by
      simp only [List.length_append, List.length_cons] at hlimit ⊢
      omega
    refine (ih hnames (fun t ht => h t (List.mem_append_right _ ht)) hrest h₄ hmore hroom).bind
      fun values s₅ hvalues h₅ => ?_
    exact .pure (by rw [bareElements, bareElements, hvalue, hvalues]) h₅

/-- Members in braces are read. -/
theorem elements_reads {alphabet : Alphabet} {members : List TypeElement}
    (hnames : ∀ member ∈ members, ∀ parameter ∈ member.parameters,
      parameter.name.Usable alphabet)
    (h : ∀ t ∈ members.flatMap TypeElement.types, ReadsType type t)
    (hrest : ∀ member ∈ members, restOnlyLast member.parameters = true)
    {opening closing : Token} {within : List Token}
    (hfaces : s.Faces (opening :: (within ++ closing :: after)))
    (hopening : opening.kind = .punctuator .openBrace)
    (hcontents : within.map Token.content = elementContents members)
    (hclosing : closing.kind = .punctuator .closeBrace) (hafter : after ≠ []) :
    Reads (elements type) (fun values => bareElements values = bareElements members) s after := by
  refine (expectPunctuator_reads hfaces hopening (by simp)).bind fun _ s₁ _ h₁ => ?_
  refine (remaining_reads h₁).step fun s₂ h₂ => ?_
  refine (elementsTail_reads hnames h hrest h₂ hcontents hclosing (Nat.le_refl _)).bind
    fun values s₃ hvalues h₃ => ?_
  refine (expectPunctuator_reads h₃ hclosing hafter).bind fun _ s₄ _ h₄ => ?_
  exact .pure hvalues h₄

end Parts

end Parse

end ExpressionTyping
