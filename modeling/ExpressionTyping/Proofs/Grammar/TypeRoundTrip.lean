import ExpressionTyping.Proofs.Grammar.FilePlacement
import ExpressionTyping.Proofs.Grammar.TypeParts

/-!
# Parsing types inverts printing them

A type that is shaped as the grammar asks for is read back from the declaration of an alias for it.

A parenthesis is told from the parameters of a function type by looking for its partner and the token
after that. The tokens of a type have their parentheses in pairs (`TypeNode.balanced`), so the search
ends where the printed type says: before an arrow for a function type, and before something else for
a type in parentheses. Brackets are read in a loop, so an array type is read as its innermost element
(`TypeNode.core`) and then as many pairs of brackets as it has (`TypeNode.rank`).
-/

set_option autoImplicit false

namespace ExpressionTyping

/-! ## The partner of a parenthesis -/

namespace Parse

variable {token : Token}

/-- An opening parenthesis is one more to be closed. -/
theorem arrowFollows_open (h : token.kind = .punctuator .openParen) (depth : Nat)
    (rest : List Token) : arrowFollows depth (token :: rest) = arrowFollows (depth + 1) rest := by
  rw [arrowFollows.eq_def]
  simp only [h]

/-- A closing parenthesis that is not the last one to be closed is passed over. -/
theorem arrowFollows_close (h : token.kind = .punctuator .closeParen) {depth : Nat}
    (hdepth : 1 < depth) (rest : List Token) :
    arrowFollows depth (token :: rest) = arrowFollows (depth - 1) rest := by
  rw [arrowFollows.eq_def]
  simp only [h, if_neg (Nat.not_le.mpr hdepth)]

/-- After the last parenthesis to be closed, the next token is the arrow or not. -/
theorem arrowFollows_last (h : token.kind = .punctuator .closeParen) {depth : Nat}
    (hdepth : depth ≤ 1) (next : Token) (rest : List Token) :
    arrowFollows depth (token :: next :: rest) = decide (next.kind = .punctuator .arrow) := by
  rw [arrowFollows.eq_def]
  simp only [h, if_pos hdepth]

/-- A token other than a parenthesis is passed over. -/
theorem arrowFollows_other (hopen : token.kind ≠ .punctuator .openParen)
    (hclose : token.kind ≠ .punctuator .closeParen) (depth : Nat) (rest : List Token) :
    arrowFollows depth (token :: rest) = arrowFollows depth rest := by
  rw [arrowFollows.eq_def]
  split
  · rename_i heq
    cases heq
  · rename_i heq
    cases heq
    split
    · exact absurd ‹_› hopen
    · exact absurd ‹_› hclose
    · rfl

end Parse

/-- Whoever looks for the partner of a parenthesis that is open passes over tokens of these kinds and
stands where it stood. -/
def Balanced (contents : List (TokenKind × String)) : Prop :=
  ∀ tokens : List Token, tokens.map Token.content = contents → ∀ depth rest, 1 ≤ depth →
    Parse.arrowFollows depth (tokens ++ rest) = Parse.arrowFollows depth rest

namespace Balanced

/-- No tokens are balanced. -/
theorem nil : Balanced [] := by
  intro tokens htokens depth rest _
  rw [List.map_eq_nil_iff.mp htokens, List.nil_append]

/-- Balanced tokens in a row are balanced. -/
theorem append {contents others : List (TokenKind × String)} (h : Balanced contents)
    (hothers : Balanced others) : Balanced (contents ++ others) := by
  intro tokens htokens depth rest hdepth
  obtain ⟨first, second, rfl, hfirst, hsecond⟩ := List.map_eq_append_iff.mp htokens
  rw [List.append_assoc, h first hfirst depth _ hdepth, hothers second hsecond depth rest hdepth]

/-- A token other than a parenthesis in front of balanced ones keeps them balanced. -/
theorem cons {content : TokenKind × String} {others : List (TokenKind × String)}
    (hopen : content.1 ≠ .punctuator .openParen) (hclose : content.1 ≠ .punctuator .closeParen)
    (h : Balanced others) : Balanced (content :: others) := by
  intro tokens htokens depth rest hdepth
  obtain ⟨token, tokens, rfl, htoken, htokens⟩ := List.map_eq_cons_iff.mp htokens
  have hkind := Token.kind_of_content htoken
  rw [← hkind] at hopen hclose
  rw [List.cons_append, Parse.arrowFollows_other hopen hclose, h tokens htokens depth rest hdepth]

/-- Balanced tokens in parentheses in front of balanced ones are balanced. -/
theorem parens {contents others : List (TokenKind × String)} (h : Balanced contents)
    (hothers : Balanced others) :
    Balanced (Punctuator.openParen.content ::
      (contents ++ Punctuator.closeParen.content :: others)) := by
  intro tokens htokens depth rest hdepth
  obtain ⟨opening, more, rfl, hopening, hmore⟩ := List.map_eq_cons_iff.mp htokens
  obtain ⟨within, closing, tokens, rfl, hwithin, hclosing, htokens⟩ :=
    Token.exists_of_map_append_cons hmore
  have hopen : opening.kind = .punctuator .openParen := Token.kind_of_content hopening
  have hclose : closing.kind = .punctuator .closeParen := Token.kind_of_content hclosing
  simp only [List.cons_append, List.append_assoc]
  rw [Parse.arrowFollows_open hopen, h within hwithin (depth + 1) _ (by omega),
    Parse.arrowFollows_close hclose (by omega), Nat.add_sub_cancel,
    hothers tokens htokens depth rest hdepth]

/-- A name in front of balanced tokens keeps them balanced. -/
theorem name {name : Identifier} {others : List (TokenKind × String)} (h : Balanced others) :
    Balanced (name.content :: others) := by
  have hword := TokenKind.ofWord_isWord name.text
  refine cons (fun heq => ?_) (fun heq => ?_) h
  · change TokenKind.ofWord name.text = _ at heq
    rw [heq] at hword
    rcases hword with hword | hword <;> cases hword
  · change TokenKind.ofWord name.text = _ at heq
    rw [heq] at hword
    rcases hword with hword | hword <;> cases hword

/-- An annotation with a balanced type is balanced. -/
theorem annotated {type? : Option TypeNode} (h : ∀ t ∈ type?, Balanced t.contents) :
    Balanced (annotationContents type?) := by
  cases type? with
  | none =>
    rw [annotationContents]
    exact nil
  | some t =>
    rw [annotationContents]
    exact cons (by decide) (by decide) (h t rfl)

/-- A parameter with a balanced type is balanced. -/
theorem parameter {parameter : Parameter} (h : ∀ t ∈ parameter.type?, Balanced t.contents) :
    Balanced parameter.contents := by
  obtain ⟨node, rest, name, type?⟩ := parameter
  cases rest with
  | none =>
    rw [Parameter.contents]
    exact Balanced.name (annotated h)
  | some span =>
    rw [Parameter.contents]
    exact cons (by decide) (by decide) (Balanced.name (annotated h))

/-- Parameters with balanced types are balanced. -/
theorem parameters {parameters : List Parameter}
    (h : ∀ t ∈ parameters.filterMap Parameter.type?, Balanced t.contents) :
    Balanced (parameterContents parameters) := by
  induction parameters with
  | nil =>
    rw [parameterContents]
    exact nil
  | cons first others ih =>
    have hfirst : Balanced first.contents := parameter fun t ht =>
      h t (List.mem_filterMap.mpr ⟨first, List.mem_cons_self, ht⟩)
    have hothers := ih fun t ht => by
      obtain ⟨other, hmem, hother⟩ := List.mem_filterMap.mp ht
      exact h t (List.mem_filterMap.mpr ⟨other, List.mem_cons_of_mem _ hmem, hother⟩)
    cases others with
    | nil =>
      rw [parameterContents]
      exact hfirst
    | cons second others =>
      rw [parameterContents_cons_cons]
      exact hfirst.append (cons (by decide) (by decide) hothers)

/-- A member with balanced types is balanced. -/
theorem element {member : TypeElement} (h : ∀ t ∈ member.types, Balanced t.contents) :
    Balanced member.contents := by
  have hannotation : Balanced (annotationContents member.type?) := annotated fun t ht =>
    h t (List.mem_append_right _ (Option.mem_toList.mpr ht))
  cases member with
  | property node name type? =>
    rw [TypeElement.contents]
    exact Balanced.name hannotation
  | method node name parameters result =>
    rw [TypeElement.contents]
    exact Balanced.name (parens (Balanced.parameters fun t ht => h t (List.mem_append_left _ ht))
      hannotation)

/-- Members with balanced types are balanced. -/
theorem elements {members : List TypeElement}
    (h : ∀ t ∈ members.flatMap TypeElement.types, Balanced t.contents) :
    Balanced (elementContents members) := by
  induction members with
  | nil =>
    rw [elementContents]
    exact nil
  | cons member others ih =>
    rw [elementContents]
    exact (element fun t ht => h t (List.mem_append_left _ ht)).append
      (cons (by decide) (by decide) (ih fun t ht => h t (List.mem_append_right _ ht)))

/-- Further members of a union are balanced when each is. -/
theorem further {members : List TypeNode} (h : ∀ t ∈ members, Balanced t.contents) :
    Balanced (furtherContents members) := by
  induction members with
  | nil =>
    rw [furtherContents]
    exact nil
  | cons member others ih =>
    obtain ⟨hmember, hothers⟩ := List.forall_mem_cons.mp h
    rw [furtherContents]
    exact cons (by decide) (by decide) (hmember.append (ih hothers))

end Balanced

/-- The parentheses of a type come in pairs. -/
theorem TypeNode.balanced (t : TypeNode) : Balanced t.contents := by
  induction t using induction_on_children with
  | step t ih =>
    cases t with
    | word node word =>
      rw [contents]
      refine .cons ?_ ?_ .nil <;> rintro ⟨⟩
    | literal node constant value =>
      rw [contents]
      cases value with
      | boolean value => cases value <;> exact .cons (by decide) (by decide) .nil
      | string | template | number | null => refine .cons ?_ ?_ .nil <;> rintro ⟨⟩
    | reference node name =>
      rw [contents]
      exact .name .nil
    | array node element =>
      rw [contents]
      exact (ih element (by simp)).append
        (.cons (by decide) (by decide) (.cons (by decide) (by decide) .nil))
    | union node members =>
      cases members with
      | nil =>
        rw [contents]
        exact .nil
      | cons first others =>
        rw [contents]
        exact (ih first List.mem_cons_self).append
          (.further fun t ht => ih t (List.mem_cons_of_mem _ ht))
    | function node parameters result =>
      rw [contents]
      exact .parens (.parameters fun t ht => ih t (List.mem_append_left _ ht))
        (.cons (by decide) (by decide) (ih result (List.mem_append_right _ List.mem_cons_self)))
    | object node members =>
      rw [contents]
      exact .cons (by decide) (by decide)
        ((Balanced.elements ih).append (.cons (by decide) (by decide) .nil))
    | parenthesized node inner =>
      rw [contents]
      exact .parens (ih inner (by simp)) .nil

/-- The search from a parenthesis ends at its partner. -/
theorem arrowFollows_partner {contents : List (TokenKind × String)} (h : Balanced contents)
    {opening closing next : Token} {within after : List Token}
    (hopening : opening.kind = .punctuator .openParen)
    (hwithin : within.map Token.content = contents)
    (hclosing : closing.kind = .punctuator .closeParen) :
    Parse.arrowFollows 0 (opening :: (within ++ closing :: next :: after)) =
      decide (next.kind = .punctuator .arrow) := by
  rw [Parse.arrowFollows_open hopening, h within hwithin 1 _ (Nat.le_refl _),
    Parse.arrowFollows_last hclosing (Nat.le_refl 1)]

/-! ## Types that are neither unions nor arrays -/

/-- A literal other than `null` is no word for a type. -/
theorem Literal.ofToken?_typeWord {value : Literal} (h : value ≠ .null) :
    TypeWord.ofToken? value.content.1 = none := by
  cases value with
  | boolean value => cases value <;> rfl
  | string | template | number => rfl
  | null => exact absurd rfl h

/-- A name is read as no literal. -/
theorem Literal.ofToken?_of_isName {token : Token} (h : token.kind.isName = true) :
    ofToken? token = none := by
  unfold ofToken?
  split <;> first | rfl | (rename_i hkind; rw [hkind] at h; cases h)

namespace Parse

section Levels

variable {type : Parse TypeNode}

/-- A reader of primary types reads one before a token that ends it; brackets and bars may also come
next, except after a function type, which takes them as part of its result. -/
def ReadsPrimary (type : Parse TypeNode) (t : TypeNode) : Prop :=
  ∀ s tokens next after, s.Faces (tokens ++ next :: after) →
    tokens.map Token.content = t.contents →
    (next.kind.endsType = true ∨ t.isFunction = false ∧
      (next.kind = .punctuator .bar ∨ next.kind = .punctuator .openBracket)) →
    Reads (primaryType type) (fun t' => t'.bare = t.bare) s (next :: after)

/-- A word is read as itself. -/
theorem word_readsPrimary {node : Node} {word : TypeWord} :
    ReadsPrimary type (.word node word) := by
  intro s tokens next after hfaces hcontents _
  rw [TypeNode.contents] at hcontents
  obtain ⟨token, rfl, htoken⟩ := List.map_eq_singleton_iff.mp hcontents
  have hword : TypeWord.ofToken? token.kind = some word := by
    rw [Token.kind_of_content htoken]
    exact word.ofToken?_keyword
  refine (current_reads hfaces).step fun s₁ h₁ => ?_
  simp only [hword]
  refine (advance_reads h₁ (by simp)).bind fun _ s₂ _ h₂ => ?_
  refine (newNode_reads _ h₂).bind fun node s₃ _ h₃ => ?_
  exact .pure (by rw [TypeNode.bare, TypeNode.bare]) h₃

/-- A literal other than `null` is read as the type of its value. -/
theorem literal_readsPrimary {node constant : Node} {value : Literal} (hvalue : value ≠ .null) :
    ReadsPrimary type (.literal node constant value) := by
  intro s tokens next after hfaces hcontents _
  rw [TypeNode.contents] at hcontents
  obtain ⟨token, rfl, htoken⟩ := List.map_eq_singleton_iff.mp hcontents
  have hword : TypeWord.ofToken? token.kind = none := by
    rw [Token.kind_of_content htoken]
    exact Literal.ofToken?_typeWord hvalue
  have hliteral : Literal.ofToken? token = some value := (Literal.ofToken?_of_content htoken).2
  refine (current_reads hfaces).step fun s₁ h₁ => ?_
  simp only [hword, hliteral]
  refine (advance_reads h₁ (by simp)).bind fun _ s₂ _ h₂ => ?_
  refine (newNode_reads _ h₂).bind fun constant s₃ _ h₃ => ?_
  refine (closeNode_reads _ h₃).bind fun node s₄ _ h₄ => ?_
  exact .pure (by rw [TypeNode.bare, TypeNode.bare]) h₄

/-- A name that is no word is read as a reference. -/
theorem reference_readsPrimary {alphabet : Alphabet} {node : Node} {name : Identifier}
    (hname : name.Usable alphabet)
    (hword : TypeWord.ofToken? (TokenKind.ofWord name.text) = none) :
    ReadsPrimary type (.reference node name) := by
  intro s tokens next after hfaces hcontents _
  rw [TypeNode.contents] at hcontents
  obtain ⟨token, rfl, htoken⟩ := List.map_eq_singleton_iff.mp hcontents
  have hkind : token.kind = TokenKind.ofWord name.text := Token.kind_of_content htoken
  have hisName : token.kind.isName = true := by
    rw [hkind]
    exact hname.1
  have hbrace : token.kind ≠ .punctuator .openBrace := by
    intro heq
    rw [heq] at hisName
    cases hisName
  have hparen : token.kind ≠ .punctuator .openParen := by
    intro heq
    rw [heq] at hisName
    cases hisName
  rw [← hkind] at hword
  refine (current_reads hfaces).step fun s₁ h₁ => ?_
  simp only [hword, Literal.ofToken?_of_isName hisName]
  rw [if_neg hbrace, if_neg hparen, if_pos hisName]
  refine (identifier_reads h₁ htoken hname.1 (by simp)).bind fun name' s₂ hname' h₂ => ?_
  refine (closeNode_reads _ h₂).bind fun node s₃ _ h₃ => ?_
  exact .pure (by rw [TypeNode.bare, TypeNode.bare, hname']) h₃

/-- Punctuators are neither words for types nor literals. -/
theorem ofToken?_of_punctuator {token : Token} {p : Punctuator}
    (h : token.kind = .punctuator p) :
    TypeWord.ofToken? token.kind = none ∧ Literal.ofToken? token = none := by
  simp [TypeWord.ofToken?, Literal.ofToken?, h]

/-- An object type is read, if the types in its members are. -/
theorem object_readsPrimary {alphabet : Alphabet} {node : Node} {members : List TypeElement}
    (hnames : ∀ member ∈ members, ∀ parameter ∈ member.parameters,
      parameter.name.Usable alphabet)
    (h : ∀ t ∈ members.flatMap TypeElement.types, ReadsType type t)
    (hrest : ∀ member ∈ members, restOnlyLast member.parameters = true) :
    ReadsPrimary type (.object node members) := by
  intro s tokens next after hfaces hcontents _
  rw [TypeNode.contents] at hcontents
  obtain ⟨opening, within, closing, rfl, hopening, hwithin, hclosing⟩ :=
    Token.exists_of_map_bracketed hcontents
  simp only [List.cons_append, List.append_assoc, List.nil_append] at hfaces
  have hopen : opening.kind = .punctuator .openBrace := Token.kind_of_content hopening
  obtain ⟨hword, hliteral⟩ := ofToken?_of_punctuator hopen
  refine (current_reads hfaces).step fun s₁ h₁ => ?_
  simp only [hword, hliteral]
  rw [if_pos hopen]
  refine (elements_reads hnames h hrest h₁ hopen hwithin (Token.kind_of_content hclosing)
    (by simp)).bind fun values s₂ hvalues h₂ => ?_
  refine (closeNode_reads _ h₂).bind fun node s₃ _ h₃ => ?_
  exact .pure (by rw [TypeNode.bare, TypeNode.bare, hvalues]) h₃

/-- Looking ahead for a function type looks through the tokens faced and takes none. -/
theorem startsFunctionType_reads {s : ParseState} {tokens : List Token} (h : s.Faces tokens) :
    Reads startsFunctionType (· = arrowFollows 0 tokens) s tokens := by
  refine ⟨arrowFollows 0 s.ahead, s, rfl, ?_, h, rfl⟩
  rw [h.ahead]

/-- A function type is read, if the types of its parameters and its result are. -/
theorem function_readsPrimary {alphabet : Alphabet} {node : Node} {parameters : List Parameter}
    {result : TypeNode} (hnames : ∀ parameter ∈ parameters, parameter.name.Usable alphabet)
    (h : ∀ t ∈ parameters.filterMap Parameter.type?, ReadsType type t)
    (hrest : restOnlyLast parameters = true) (hresult : ReadsType type result) :
    ReadsPrimary type (.function node parameters result) := by
  intro s tokens next after hfaces hcontents hnext
  have hends : next.kind.endsType = true := by
    rcases hnext with hnext | ⟨hnot, -⟩
    · exact hnext
    · cases hnot
  rw [TypeNode.contents] at hcontents
  obtain ⟨opening, more, rfl, hopening, hmore⟩ := List.map_eq_cons_iff.mp hcontents
  obtain ⟨within, closing, more, rfl, hwithin, hclosing, hmore⟩ :=
    Token.exists_of_map_append_cons hmore
  obtain ⟨arrow, tokens, rfl, harrow, htokens⟩ := List.map_eq_cons_iff.mp hmore
  simp only [List.cons_append, List.append_assoc] at hfaces
  have hopen : opening.kind = .punctuator .openParen := Token.kind_of_content hopening
  have hclose : closing.kind = .punctuator .closeParen := Token.kind_of_content hclosing
  have harrowKind : arrow.kind = .punctuator .arrow := Token.kind_of_content harrow
  obtain ⟨hword, hliteral⟩ := ofToken?_of_punctuator hopen
  have hpartner : Balanced (parameterContents parameters) := .parameters fun t _ => t.balanced
  refine (current_reads hfaces).step fun s₁ h₁ => ?_
  simp only [hword, hliteral]
  rw [if_neg (by simp [hopen]), if_pos hopen]
  refine (startsFunctionType_reads h₁).step fun s₂ h₂ => ?_
  rw [arrowFollows_partner hpartner hopen hwithin hclose, decide_eq_true harrowKind]
  refine (parameters_reads hnames h hrest h₂ hopen hwithin hclose (by simp)).bind
    fun values s₃ hvalues h₃ => ?_
  refine (expectPunctuator_reads h₃ harrowKind (by simp)).bind fun _ s₄ _ h₄ => ?_
  refine (hresult s₄ tokens next after h₄ htokens hends).bind fun result' s₅ hresult' h₅ => ?_
  refine (closeNode_reads _ h₅).bind fun node s₆ _ h₆ => ?_
  exact .pure (by rw [TypeNode.bare, TypeNode.bare, hvalues, hresult']) h₆

/-- A type in parentheses is read, if the one in them is. -/
theorem parenthesized_readsPrimary {node : Node} {inner : TypeNode} (h : ReadsType type inner) :
    ReadsPrimary type (.parenthesized node inner) := by
  intro s tokens next after hfaces hcontents hnext
  have harrow : next.kind ≠ .punctuator .arrow := by
    rcases hnext with hnext | ⟨-, hnext | hnext⟩
    · exact TokenKind.ne_of_endsType hnext rfl
    · simp [hnext]
    · simp [hnext]
  rw [TypeNode.contents] at hcontents
  obtain ⟨opening, within, closing, rfl, hopening, hwithin, hclosing⟩ :=
    Token.exists_of_map_bracketed hcontents
  simp only [List.cons_append, List.append_assoc, List.nil_append] at hfaces
  have hopen : opening.kind = .punctuator .openParen := Token.kind_of_content hopening
  have hclose : closing.kind = .punctuator .closeParen := Token.kind_of_content hclosing
  obtain ⟨hword, hliteral⟩ := ofToken?_of_punctuator hopen
  refine (current_reads hfaces).step fun s₁ h₁ => ?_
  simp only [hword, hliteral]
  rw [if_neg (by simp [hopen]), if_pos hopen]
  refine (startsFunctionType_reads h₁).step fun s₂ h₂ => ?_
  rw [arrowFollows_partner inner.balanced hopen hwithin hclose, decide_eq_false harrow]
  refine (advance_reads h₂ (by simp)).bind fun _ s₃ _ h₃ => ?_
  refine (h s₃ within closing (next :: after) h₃ hwithin (by rw [hclose]; rfl)).bind
    fun inner' s₄ hinner' h₄ => ?_
  refine (expectPunctuator_reads h₄ hclose (by simp)).bind fun _ s₅ _ h₅ => ?_
  refine (closeNode_reads _ h₅).bind fun node s₆ _ h₆ => ?_
  exact .pure (by rw [TypeNode.bare, TypeNode.bare, hinner']) h₆

end Levels

end Parse

/-! ## Arrays -/

namespace TypeNode

/-- The innermost element of an array type; another type is its own. -/
def core : TypeNode → TypeNode
  | array _ element => element.core
  | t => t

/-- How many pairs of brackets stand after the innermost element. -/
def rank : TypeNode → Nat
  | array _ element => element.rank + 1
  | _ => 0

/-- A type without numbers and places with pairs of brackets put after it. -/
def wrap : Nat → TypeNode → TypeNode
  | 0, t => t
  | count + 1, t => wrap count (.array default t)

/-- Pairs of brackets. -/
def brackets : Nat → List (TokenKind × String)
  | 0 => []
  | count + 1 =>
    Punctuator.openBracket.content :: Punctuator.closeBracket.content :: brackets count

/-- A further pair of brackets stands behind the others. -/
theorem brackets_succ (count : Nat) : brackets (count + 1) =
    brackets count ++ [Punctuator.openBracket.content, Punctuator.closeBracket.content] := by
  induction count with
  | zero => rfl
  | succ count ih =>
    conv_lhs => rw [brackets, ih]
    rw [brackets]
    rfl

/-- A further pair of brackets makes an array of the type before it. -/
theorem wrap_succ (count : Nat) (t : TypeNode) :
    wrap (count + 1) t = .array default (wrap count t) := by
  induction count generalizing t with
  | zero => rfl
  | succ count ih => rw [wrap, ih, wrap]

/-- A type is printed as its innermost element with its brackets behind it. -/
theorem contents_eq_core (t : TypeNode) : t.contents = t.core.contents ++ brackets t.rank := by
  induction t using induction_on_children with
  | step t ih =>
    cases t with
    | array node element =>
      rw [contents, core, rank, brackets_succ, ih element (by simp), List.append_assoc]
    | word | literal | reference | union | function | object | parenthesized =>
      rw [core, rank, brackets, List.append_nil]
      all_goals rintro _ _ ⟨⟩

/-- A type is its innermost element with its brackets put after it, up to numbers and places. -/
theorem bare_eq_core (t : TypeNode) : t.bare = wrap t.rank t.core.bare := by
  induction t using induction_on_children with
  | step t ih =>
    cases t with
    | array node element =>
      rw [bare, core, rank, wrap_succ, ih element (by simp)]
    | word | literal | reference | union | function | object | parenthesized =>
      rw [core, rank, wrap]
      all_goals rintro _ _ ⟨⟩

/-- A type that is shaped as the grammar asks for and can be written. -/
def Regular (alphabet : Alphabet) (t : TypeNode) : Prop :=
  t.fits = true ∧ t.Printable alphabet

variable {alphabet : Alphabet} {t : TypeNode}

/-- No array has a function type as its innermost element. -/
theorem Throughout.core_isFunction (h : t.Throughout (Regular alphabet))
    (hcore : t.core.isFunction = true) : t.isFunction = true ∧ t.rank = 0 := by
  induction h with
  | @intro t here below ih =>
    cases t with
    | array node element =>
      have hfits : element.isUnion = false ∧ element.isFunction = false := by
        simpa [fits] using here.1
      have helement := (ih element (by simp) hcore).1
      rw [hfits.2] at helement
      cases helement
    | function => exact ⟨rfl, rfl⟩
    | word | literal | reference | union | object | parenthesized => cases hcore

/-- No type starts with a bar. -/
theorem Throughout.head_ne_bar (h : t.Throughout (Regular alphabet)) :
    ∃ first rest, t.contents = first :: rest ∧ first.1 ≠ .punctuator .bar := by
  induction h with
  | @intro t here below ih =>
    cases t with
    | word node word =>
      refine ⟨_, _, by rw [contents], ?_⟩
      rintro ⟨⟩
    | literal node constant value =>
      refine ⟨_, _, by rw [contents], ?_⟩
      cases value with
      | boolean value => cases value <;> rintro ⟨⟩
      | string | template | number | null => rintro ⟨⟩
    | reference node name =>
      refine ⟨_, _, by rw [contents], fun heq => ?_⟩
      have hname := here.2.1
      change TokenKind.ofWord name.text = _ at heq
      rw [heq] at hname
      cases hname
    | array node element =>
      obtain ⟨first, rest, hfirst, hne⟩ := ih element (by simp)
      exact ⟨first, _, by rw [contents, hfirst, List.cons_append], hne⟩
    | union node members =>
      cases members with
      | nil =>
        have hfits := here.1
        simp [fits] at hfits
      | cons member others =>
        obtain ⟨first, rest, hfirst, hne⟩ := ih member List.mem_cons_self
        exact ⟨first, _, by rw [contents, hfirst, List.cons_append], hne⟩
    | function | object | parenthesized => exact ⟨_, _, by rw [contents], by decide⟩

end TypeNode

namespace Parse

variable {type : Parse TypeNode} {alphabet : Alphabet}

/-- Brackets are read as arrays over the element, up to a token that opens none. -/
theorem arrayTail_reads {s : ParseState} {tokens after : List Token} {next : Token} {count : Nat}
    (hfaces : s.Faces (tokens ++ next :: after))
    (hcontents : tokens.map Token.content = TypeNode.brackets count)
    (hnext : next.kind ≠ .punctuator .openBracket) (start : Nat) {limit : Nat}
    (hlimit : (tokens ++ next :: after).length ≤ limit) (element : TypeNode) :
    Reads (arrayTail start limit element) (fun t => t.bare = TypeNode.wrap count element.bare) s
      (next :: after) := by
  induction count generalizing s tokens limit element with
  | zero =>
    obtain rfl := List.map_eq_nil_iff.mp hcontents
    obtain ⟨limit, rfl⟩ := hfaces.exists_round hlimit
    refine (current_reads hfaces).step fun s₁ h₁ => ?_
    rw [if_neg (by simp [hnext])]
    exact .pure rfl h₁
  | succ count ih =>
    obtain ⟨limit, rfl⟩ := hfaces.exists_round hlimit
    obtain ⟨opening, more, rfl, hopening, hmore⟩ := List.map_eq_cons_iff.mp hcontents
    obtain ⟨closing, tokens, rfl, hclosing, htokens⟩ := List.map_eq_cons_iff.mp hmore
    have hopen : opening.kind = .punctuator .openBracket := Token.kind_of_content hopening
    have hline : opening.afterLineBreak = false :=
      hfaces.onLine.unbroken opening List.mem_cons_self
    refine (current_reads hfaces).step fun s₁ h₁ => ?_
    rw [if_pos (by simp [hopen, hline])]
    refine (advance_reads h₁ (by simp)).bind fun _ s₂ _ h₂ => ?_
    refine (expectPunctuator_reads h₂ (Token.kind_of_content hclosing) (by simp)).bind
      fun _ s₃ _ h₃ => ?_
    refine (closeNode_reads start h₃).bind fun node s₄ _ h₄ => ?_
    have hroom : (tokens ++ next :: after).length ≤ limit := by
      simp only [List.length_append, List.length_cons] at hlimit ⊢
      omega
    have hloop := ih h₄ htokens hroom (.array node element)
    rw [TypeNode.bare] at hloop
    exact hloop

/-- A reader of members of unions reads one before a token that ends it; a bar may also come next,
except after a function type. -/
def ReadsMember (type : Parse TypeNode) (t : TypeNode) : Prop :=
  ∀ s tokens next after, s.Faces (tokens ++ next :: after) →
    tokens.map Token.content = t.contents →
    (next.kind.endsType = true ∨ t.isFunction = false ∧ next.kind = .punctuator .bar) →
    Reads (arrayType type) (fun t' => t'.bare = t.bare) s (next :: after)

/-- A regular type is read as a member of a union, if its innermost element is read. -/
theorem readsMember_of_core {t : TypeNode} (h : ReadsPrimary type t.core)
    (hregular : t.Throughout (TypeNode.Regular alphabet)) : ReadsMember type t := by
  intro s tokens next after hfaces hcontents hnext
  rw [t.contents_eq_core] at hcontents
  obtain ⟨words, brackets, rfl, hwords, hbrackets⟩ := List.map_eq_append_iff.mp hcontents
  rw [List.append_assoc] at hfaces
  have hfirst : ∃ first more, brackets ++ next :: after = first :: more ∧
      (first.kind.endsType = true ∨ t.core.isFunction = false ∧
        (first.kind = .punctuator .bar ∨ first.kind = .punctuator .openBracket)) := by
    cases hrank : t.rank with
    | zero =>
      rw [hrank] at hbrackets
      obtain rfl := List.map_eq_nil_iff.mp hbrackets
      refine ⟨next, after, rfl, hnext.imp_right fun ⟨hfunction, hbar⟩ => ⟨?_, .inl hbar⟩⟩
      by_contra hcore
      have := (hregular.core_isFunction (by simpa using hcore)).1
      rw [hfunction] at this
      cases this
    | succ count =>
      rw [hrank] at hbrackets
      obtain ⟨opening, more, rfl, hopening, -⟩ := List.map_eq_cons_iff.mp hbrackets
      refine ⟨opening, _, rfl, .inr ⟨?_, .inr (Token.kind_of_content hopening)⟩⟩
      by_contra hcore
      have := (hregular.core_isFunction (by simpa using hcore)).2
      rw [hrank] at this
      cases this
  have hstop : next.kind ≠ .punctuator .openBracket := by
    rcases hnext with hnext | ⟨-, hnext⟩
    · exact TokenKind.ne_of_endsType hnext rfl
    · simp [hnext]
  obtain ⟨first, more, hmore, hfirst⟩ := hfirst
  obtain ⟨token, rest, hrest⟩ := List.exists_cons_of_ne_nil
    (show words ++ (brackets ++ next :: after) ≠ [] by simp)
  rw [hrest] at hfaces
  refine (current_reads hfaces).bind fun opening s₁ _ h₁ => ?_
  rw [← hrest, hmore] at h₁
  refine (h s₁ words first more h₁ hwords hfirst).bind fun element s₂ helement h₂ => ?_
  rw [← hmore] at h₂
  refine (remaining_reads h₂).step fun s₃ h₃ => ?_
  have hloop := arrayTail_reads h₃ hbrackets hstop opening.span.start (Nat.le_refl _) element
  rw [helement, ← t.bare_eq_core] at hloop
  exact hloop

/-! ## Unions -/

/-- Further members of a union are read, if only the last one is a function type. -/
theorem unionTail_reads {members : List TypeNode} (h : ∀ t ∈ members, ReadsMember type t)
    (hlast : ∀ t ∈ members.dropLast, t.isFunction = false) {s : ParseState}
    {tokens after : List Token} {next : Token} (hfaces : s.Faces (tokens ++ next :: after))
    (hcontents : tokens.map Token.content = furtherContents members)
    (hnext : next.kind.endsType = true) {limit : Nat}
    (hlimit : (tokens ++ next :: after).length ≤ limit) :
    Reads (unionTail type limit) (fun values => bareTypes values = bareTypes members) s
      (next :: after) := by
  induction members generalizing s tokens limit with
  | nil =>
    rw [furtherContents, List.map_eq_nil_iff] at hcontents
    subst hcontents
    obtain ⟨limit, rfl⟩ := hfaces.exists_round hlimit
    refine (accept_reads_none hfaces (TokenKind.ne_of_endsType hnext rfl)).step fun s₁ h₁ => ?_
    exact .pure rfl h₁
  | cons member others ih =>
    obtain ⟨limit, rfl⟩ := hfaces.exists_round hlimit
    obtain ⟨hmember, hothers⟩ := List.forall_mem_cons.mp h
    rw [furtherContents] at hcontents
    obtain ⟨bar, more, rfl, hbar, hmore⟩ := List.map_eq_cons_iff.mp hcontents
    obtain ⟨words, tokens, rfl, hwords, htokens⟩ := List.map_eq_append_iff.mp hmore
    simp only [List.cons_append, List.append_assoc] at hfaces
    have hfirst : ∃ first rest, tokens ++ next :: after = first :: rest ∧
        (first.kind.endsType = true ∨
          member.isFunction = false ∧ first.kind = .punctuator .bar) := by
      cases others with
      | nil =>
        rw [furtherContents, List.map_eq_nil_iff] at htokens
        subst htokens
        exact ⟨next, after, rfl, .inl hnext⟩
      | cons second others =>
        rw [furtherContents] at htokens
        obtain ⟨bar, rest, rfl, hbar, -⟩ := List.map_eq_cons_iff.mp htokens
        exact ⟨bar, _, rfl, .inr ⟨hlast member List.mem_cons_self, Token.kind_of_content hbar⟩⟩
    obtain ⟨first, rest, hrest, hfirst⟩ := hfirst
    have hroom : (tokens ++ next :: after).length ≤ limit := by
      simp only [List.cons_append, List.append_assoc, List.length_append, List.length_cons]
        at hlimit ⊢
      omega
    have hlast' : ∀ t ∈ others.dropLast, t.isFunction = false := fun t ht =>
      hlast t (by cases others <;> simp_all)
    refine (accept_reads hfaces (Token.kind_of_content hbar) (by simp)).step fun s₁ h₁ => ?_
    rw [hrest] at h₁
    refine (hmember s₁ words first rest h₁ hwords hfirst).bind fun value s₂ hvalue h₂ => ?_
    rw [← hrest] at h₂
    refine (ih hothers hlast' h₂ htokens hroom).bind fun values s₃ hvalues h₃ => ?_
    exact .pure (by rw [bareTypes, bareTypes, hvalue, hvalues]) h₃

/-- Only no types have none left without numbers and places. -/
theorem bareTypes_eq_nil {types : List TypeNode} : bareTypes types = [] ↔ types = [] := by
  cases types with
  | nil => rw [bareTypes]
  | cons => simp [bareTypes]

/-- The members of a union, or the only type where there is no bar. -/
theorem unionType_reads {first : TypeNode} {others : List TypeNode}
    (h : ∀ t ∈ first :: others, ReadsMember type t)
    (hlast : ∀ t ∈ (first :: others).dropLast, t.isFunction = false)
    (hregular : first.Throughout (TypeNode.Regular alphabet)) {s : ParseState}
    {tokens after : List Token} {next : Token} (hfaces : s.Faces (tokens ++ next :: after))
    (hcontents : tokens.map Token.content = first.contents ++ furtherContents others)
    (hnext : next.kind.endsType = true) :
    Reads (unionType type)
      (fun t => t.bare = if others = [] then first.bare
        else .union default (bareTypes (first :: others))) s (next :: after) := by
  obtain ⟨hfirst, hothers⟩ := List.forall_mem_cons.mp h
  obtain ⟨words, tokens, rfl, hwords, htokens⟩ := List.map_eq_append_iff.mp hcontents
  rw [List.append_assoc] at hfaces
  obtain ⟨content, contents, hhead, hbar⟩ := hregular.head_ne_bar
  rw [hhead] at hwords
  obtain ⟨word, words, rfl, hword, hwords'⟩ := List.map_eq_cons_iff.mp hwords
  rw [← hhead] at hwords
  have hbarKind : word.kind ≠ .punctuator .bar := by
    rw [Token.kind_of_content hword]
    exact hbar
  have hend : ∃ token rest, tokens ++ next :: after = token :: rest ∧
      (token.kind.endsType = true ∨ first.isFunction = false ∧ token.kind = .punctuator .bar) := by
    cases others with
    | nil =>
      rw [furtherContents, List.map_eq_nil_iff] at htokens
      subst htokens
      exact ⟨next, after, rfl, .inl hnext⟩
    | cons second others =>
      rw [furtherContents] at htokens
      obtain ⟨bar, rest, rfl, hbar, -⟩ := List.map_eq_cons_iff.mp htokens
      exact ⟨bar, _, rfl, .inr ⟨hlast first List.mem_cons_self, Token.kind_of_content hbar⟩⟩
  obtain ⟨token, rest, hrest, hend⟩ := hend
  have hlast' : ∀ t ∈ others.dropLast, t.isFunction = false := fun t ht =>
    hlast t (by cases others <;> simp_all)
  refine (current_reads hfaces).bind fun _ s₁ _ h₁ => ?_
  refine (accept_reads_none h₁ hbarKind).bind fun _ s₂ _ h₂ => ?_
  rw [hrest] at h₂
  refine (hfirst s₂ (word :: words) token rest h₂ hwords hend).bind fun value s₃ hvalue h₃ => ?_
  rw [← hrest] at h₃
  refine (remaining_reads h₃).step fun s₄ h₄ => ?_
  refine (unionTail_reads hothers hlast' h₄ htokens hnext (Nat.le_refl _)).bind
    fun values s₅ hvalues h₅ => ?_
  by_cases hnone : others = []
  · subst hnone
    obtain rfl := bareTypes_eq_nil.mp hvalues
    exact .pure (by simpa using hvalue) h₅
  · have hsome : values ≠ [] := fun heq => hnone (bareTypes_eq_nil.mp (by rw [← hvalues, heq]; rfl))
    rw [if_neg (by simpa using hsome)]
    refine (closeNode_reads _ h₅).bind fun node s₆ _ h₆ => ?_
    exact .pure (by rw [if_neg hnone, TypeNode.bare, bareTypes, bareTypes, hvalue, hvalues]) h₆

/-! ## All types -/

/-- What is read of a type by the readers of a depth, if its nesting leaves room. -/
structure ReadableType (depth : Nat) (t : TypeNode) : Prop where
  primary : t.isUnion = false → t.nesting ≤ depth → ReadsPrimary (nestedType depth) t.core
  any : t.nesting < depth → ReadsType (nestedType depth) t

/-- The innermost element of a regular type that is no union is read at a depth that has room for
its nesting, if its children are readable. -/
theorem readableType_primary {t : TypeNode} (here : t.Regular alphabet)
    (below : ∀ child ∈ t.children, ∀ depth, ReadableType depth child) {depth : Nat}
    (hunion : t.isUnion = false) (hnesting : t.nesting ≤ depth) :
    ReadsPrimary (nestedType depth) t.core := by
  obtain ⟨hfits, hprintable⟩ := here
  cases t with
  | word node word => exact word_readsPrimary
  | literal node constant value => exact literal_readsPrimary (by simpa [TypeNode.fits] using hfits)
  | reference node name =>
    exact reference_readsPrimary hprintable (by simpa [TypeNode.fits] using hfits)
  | array node element =>
    have helement : element.isUnion = false ∧ element.isFunction = false := by
      simpa [TypeNode.fits] using hfits
    rw [TypeNode.nesting] at hnesting
    exact (below element (by simp) depth).primary helement.1 hnesting
  | union node members => cases hunion
  | function node parameters result =>
    rw [TypeNode.nesting] at hnesting
    have hresult := below result (List.mem_append_right _ List.mem_cons_self) depth
    refine function_readsPrimary hprintable (fun t ht => ?_) hfits (hresult.any (by omega))
    have hlt := nesting_lt_of_parameter ht
    exact (below t (List.mem_append_left _ ht) depth).any (by omega)
  | object node members =>
    rw [TypeNode.nesting] at hnesting
    have hrest : ∀ member ∈ members, restOnlyLast member.parameters = true := by
      simpa [TypeNode.fits] using hfits
    refine object_readsPrimary (fun member hmem => (hprintable member hmem).2) (fun t ht => ?_) hrest
    have hlt := nesting_lt_of_element ht
    exact (below t ht depth).any (by omega)
  | parenthesized node inner =>
    rw [TypeNode.nesting] at hnesting
    have hinner := below inner (by simp) depth
    exact parenthesized_readsPrimary (hinner.any (by omega))

/-- Every regular type is readable at every depth, by induction on its children. -/
theorem readableType {t : TypeNode} (h : t.Throughout (TypeNode.Regular alphabet)) (depth : Nat) :
    ReadableType depth t := by
  induction h generalizing depth with
  | @intro t here below ih =>
    have hregular : t.Throughout (TypeNode.Regular alphabet) := ⟨here, below⟩
    refine ⟨readableType_primary here ih, fun hnesting s tokens next after hfaces hcontents hnext => ?_⟩
    obtain ⟨depth, rfl⟩ : ∃ room, depth = room + 1 :=
      Nat.exists_eq_add_one_of_ne_zero (Nat.ne_of_gt (Nat.zero_lt_of_lt hnesting))
    cases hunion : t.isUnion with
    | false =>
      have hmember : ReadsMember (nestedType depth) t :=
        readsMember_of_core (readableType_primary here ih hunion (Nat.le_of_lt_succ hnesting)) hregular
      exact @unionType_reads _ _ t [] (by simpa using hmember) (by simp) hregular _ _ _ _ hfaces
        (by simpa [furtherContents] using hcontents) hnext
    | true =>
      cases t with
      | union node members =>
        have hfits := here.1
        simp only [TypeNode.fits, Bool.and_eq_true, decide_eq_true_eq, List.all_eq_true,
          Bool.not_eq_true'] at hfits
        obtain ⟨⟨htwo, hunions⟩, hfunctions⟩ := hfits
        rw [TypeNode.nesting] at hnesting
        have hmembers : ∀ t ∈ members, ReadsMember (nestedType depth) t := fun t ht =>
          readsMember_of_core ((ih t ht depth).primary (hunions t ht)
            (Nat.le_trans (nesting_le_of_mem ht) (Nat.le_of_lt_succ hnesting))) (below t ht)
        cases members with
        | nil => simp at htwo
        | cons first others =>
          have hothers : others ≠ [] := by
            rintro rfl
            simp at htwo
          rw [TypeNode.contents] at hcontents
          have hread := unionType_reads hmembers hfunctions (below first List.mem_cons_self) hfaces
            hcontents hnext
          rw [if_neg hothers] at hread
          rw [TypeNode.bare]
          exact hread
      | word | literal | reference | array | function | object | parenthesized => cases hunion

/-! ## Whole texts -/

section File

variable {s : ParseState} {token second : Token} {tokens rest : List Token}

/-- Looking at the next token reads the kind of the second one and takes none. -/
theorem nextKind_reads (h : s.Faces (token :: second :: rest)) :
    Reads nextKind (· = second.kind) s (token :: second :: rest) := by
  have hupcoming : s.upcoming = second :: rest := (List.cons.inj h.ahead).2
  refine ⟨_, s, rfl, ?_, h, rfl⟩
  rw [hupcoming]
  rfl

/-- The end of a statement takes its semicolon. -/
theorem endStatement_reads (h : s.Faces (token :: rest))
    (hkind : token.kind = .punctuator .semicolon) (hrest : rest ≠ []) :
    Reads endStatement (fun _ => True) s rest := by
  refine (current_reads h).step fun s₁ h₁ => ?_
  rw [if_pos hkind]
  exact advance_reads h₁ hrest

/-- The declaration of an alias for a type, up to numbers and places. -/
def AliasOf (name : String) (t : TypeNode) (statement : Statement) : Prop :=
  ∃ declaration, statement = .typeAlias declaration ∧ declaration.name.text = name ∧
    declaration.type.bare = t.bare

/-- The declaration of an alias is read up to its semicolon. -/
theorem aliasDeclaration_reads {t : TypeNode} {name : Identifier}
    {word spelled equals semicolon : Token} (htype : ReadsType typeNode t)
    (hname : (TokenKind.ofWord name.text).isName = true)
    (hfaces : s.Faces (word :: spelled :: equals :: (tokens ++ semicolon :: rest)))
    (hspelled : spelled.content = name.content) (hequals : equals.kind = .punctuator .equals)
    (htokens : tokens.map Token.content = t.contents)
    (hsemicolon : semicolon.kind = .punctuator .semicolon) (hrest : rest ≠ []) (start : Nat) :
    Reads (aliasDeclaration start) (AliasOf name.text t) s rest := by
  refine (advance_reads hfaces (by simp)).bind fun _ s₁ _ h₁ => ?_
  refine (identifier_reads h₁ hspelled hname (by simp)).bind fun name' s₂ hname' h₂ => ?_
  refine (expectPunctuator_reads h₂ hequals (by simp)).bind fun _ s₃ _ h₃ => ?_
  refine (htype s₃ tokens semicolon rest h₃ htokens (by rw [hsemicolon]; rfl)).bind
    fun t' s₄ ht' h₄ => ?_
  refine (endStatement_reads h₄ hsemicolon hrest).bind fun _ s₅ _ h₅ => ?_
  refine (closeNode_reads start h₅).bind fun node s₆ _ h₆ => ?_
  have htext : name'.text = name.text := (Identifier.mk.inj hname').2
  exact .pure ⟨_, rfl, htext, ht'⟩ h₆

/-- The word `type` before a name starts the declaration of an alias. -/
theorem statement_reads {Q : Statement → Prop} (hfaces : s.Faces (token :: second :: rest))
    (hword : token.kind = .keyword .typeWord) (hname : second.kind.isName = true)
    (h : ∀ s' start, s'.Faces (token :: second :: rest) →
      Reads (aliasDeclaration start) Q s' tokens) (body : Parse (List Statement)) :
    Reads (statement body) Q s tokens := by
  refine (current_reads hfaces).step fun s₁ h₁ => ?_
  simp only [hword]
  refine (current_reads h₁).step fun s₂ h₂ => ?_
  simp only [hword]
  refine (nextKind_reads h₂).step fun s₃ h₃ => ?_
  rw [if_pos hname]
  exact h s₃ _ h₃

/-- At the end of the text no further statements are read. -/
theorem statementsTail_reads_nil (hfaces : s.Faces (token :: rest))
    (hkind : token.kind = .endOfText) (limit : Nat) :
    Reads (statementsTail limit) (· = []) s (token :: rest) := by
  cases limit with
  | zero => exact .pure rfl hfaces
  | succ limit =>
    refine (isAt_reads _ hfaces).step fun s₁ h₁ => ?_
    refine (isAt_reads _ h₁).step fun s₂ h₂ => ?_
    rw [decide_eq_true hkind]
    exact .pure rfl h₂

/-- One statement and the end of the text. -/
theorem statementsTail_reads_single {Q : Statement → Prop} {final : Token}
    (hfaces : s.Faces (token :: (tokens ++ [final]))) (hend : token.kind ≠ .endOfText)
    (hbrace : token.kind ≠ .punctuator .closeBrace) (hfinal : final.kind = .endOfText)
    (h : ∀ s' body, s'.Faces (token :: (tokens ++ [final])) → Reads (statement body) Q s' [final])
    (limit : Nat) :
    Reads (statementsTail (limit + 1)) (fun statements => ∃ value, statements = [value] ∧ Q value) s
      [final] := by
  have hmoved : final.span.start ≠ token.span.start :=
    Nat.ne_of_gt ((List.pairwise_cons.mp hfaces.onLine.ordered).1 final (by simp))
  refine (isAt_reads _ hfaces).step fun s₁ h₁ => ?_
  refine (isAt_reads _ h₁).step fun s₂ h₂ => ?_
  rw [decide_eq_false hend, decide_eq_false hbrace]
  refine (current_reads h₂).step fun s₃ h₃ => ?_
  refine (h s₃ _ h₃).bind fun value s₄ hvalue h₄ => ?_
  refine (current_reads h₄).step fun s₅ h₅ => ?_
  rw [if_neg (by simp [hmoved])]
  refine (statementsTail_reads_nil h₅ hfinal limit).step fun s₆ h₆ => ?_
  exact .pure ⟨value, rfl, hvalue⟩ h₆

/-- A file that is the declaration of an alias. -/
theorem wholeFile_reads {t : TypeNode} {label : Identifier}
    {word spelled equals semicolon final : Token} (htype : ReadsType typeNode t)
    (hlabel : (TokenKind.ofWord label.text).isName = true)
    (hfaces : s.Faces (word :: spelled :: equals :: (tokens ++ [semicolon, final])))
    (hword : word.kind = .keyword .typeWord) (hspelled : spelled.content = label.content)
    (hequals : equals.kind = .punctuator .equals)
    (htokens : tokens.map Token.content = t.contents)
    (hsemicolon : semicolon.kind = .punctuator .semicolon) (hfinal : final.kind = .endOfText)
    (name : String) (text : List Char) :
    Reads (wholeFile name text) (fun file => ∃ value, file.statements = [value] ∧
      AliasOf label.text t value) s [final] := by
  have hisName : spelled.kind.isName = true := by
    rw [Token.kind_of_content hspelled]
    exact hlabel
  have hstatements : Reads statements (fun content => ∃ value, content = [value] ∧
      AliasOf label.text t value) s [final] := by
    refine (remaining_reads hfaces).step fun s₁ h₁ => ?_
    have hsplit : spelled :: equals :: (tokens ++ [semicolon, final]) =
        (spelled :: equals :: (tokens ++ [semicolon])) ++ [final] := by simp
    rw [hsplit] at h₁
    refine statementsTail_reads_single h₁ (by simp [hword]) (by simp [hword]) hfinal
      (fun s₂ body h₂ => ?_) _
    rw [← hsplit] at h₂
    exact statement_reads h₂ hword hisName (fun s₃ start h₃ => aliasDeclaration_reads htype hlabel h₃
      hspelled hequals htokens hsemicolon (by simp) start) body
  refine hstatements.bind fun content s₁ hcontent h₁ => ?_
  refine (newNode_reads _ h₁).bind fun node s₂ _ h₂ => ?_
  exact .pure hcontent h₂

/-- A parse throughout tokens on one line that reads them reports nothing and has the result that
was read. -/
theorem throughout_reads {α : Type} {p : Parse α} {Q : α → Prop} {tokens after : List Token}
    (h : Reads p Q (initial tokens) after) (hfaults : ∀ token ∈ tokens, token.fault? = none) :
    (throughout p tokens).issues = [] ∧ Q (throughout p tokens).tree := by
  obtain ⟨a, s', hrun, ha, -, hissues⟩ := h
  rw [initial_issues] at hissues
  rw [throughout, hrun]
  simp only [hissues, tokenIssues_eq_nil hfaults, List.append_nil]
  exact ⟨List.mergeSort_nil, ha⟩

end File

end Parse

namespace TypeNode

/-- A type that is shaped as the grammar asks for, whose names and numbers can be written as tokens,
and whose nesting fits into the depth limit, is read back from the declaration of an alias for it:
nothing is reported, the file is that declaration, and the type is the same up to the numbers and the
places of its nodes. -/
theorem parse_printAlias {t : TypeNode} (hfits : t.Throughout fun node => node.fits = true)
    (hprintable : t.Throughout (Printable Alphabet.standard))
    (hnesting : t.nesting + 1 ≤ Parse.depthLimit) (name : String) :
    (SourceFile.parse name t.printAlias).issues = [] ∧ ∃ declaration,
      (SourceFile.parse name t.printAlias).tree.statements = [.typeAlias declaration] ∧
      declaration.name.text = "T" ∧ declaration.type.bare = t.bare := by
  have hregular : t.Throughout (Regular Alphabet.standard) := hfits.and hprintable
  have hmark := Punctuator.content_writable Alphabet.standard
  have hwritable : AllWritable Alphabet.standard ((TokenKind.keyword .typeWord).fixed ::
      (.identifier, "T") :: Punctuator.equals.content ::
        (t.contents ++ [Punctuator.semicolon.content])) := by
    rw [AllWritable, List.forall_mem_cons, List.forall_mem_cons, List.forall_mem_cons,
      List.forall_mem_append, List.forall_mem_singleton]
    refine ⟨TokenKind.fixed_writable _ rfl, ?_, hmark _, contents_writable hprintable, hmark _⟩
    show Token.Alone Alphabet.standard (.identifier, "T")
    decide +kernel
  obtain ⟨all, final, hall, hfinal, hcontents, hfaults⟩ := Token.read_written hwritable 0
    (Nat.lt_succ_self _)
  have honLine : Token.OnLine (all ++ [final]) := by
    rw [← hall]
    exact ⟨fun token => Token.afterLineBreak_of_mem_written hwritable,
      Token.ofText_ordered Alphabet.standard _⟩
  obtain ⟨word, more, rfl, hword, hmore⟩ := List.map_eq_cons_iff.mp hcontents
  obtain ⟨spelled, more, rfl, hspelled, hmore⟩ := List.map_eq_cons_iff.mp hmore
  obtain ⟨equals, more, rfl, hequals, hmore⟩ := List.map_eq_cons_iff.mp hmore
  obtain ⟨tokens, semicolon, rest, rfl, htokens, hsemicolon, hrest⟩ :=
    Token.exists_of_map_append_cons hmore
  obtain rfl := List.map_eq_nil_iff.mp hrest
  have hfaces : (Parse.initial (word :: spelled :: equals :: (tokens ++ [semicolon]) ++ [final])).Faces
      (word :: spelled :: equals :: (tokens ++ [semicolon, final])) :=
    ⟨by simp [Parse.initial_ahead], by simpa using honLine⟩
  have htype : Parse.ReadsType Parse.typeNode t := (Parse.readableType hregular _).any hnesting
  have hread := @Parse.wholeFile_reads _ _ t ⟨default, "T"⟩ _ _ _ _ _ htype rfl hfaces
    (Token.kind_of_content hword) hspelled (Token.kind_of_content hequals) htokens
    (Token.kind_of_content hsemicolon) hfinal name t.printAlias.toList
  obtain ⟨hissues, value, hstatements, declaration, rfl, hname, hbare⟩ :=
    Parse.throughout_reads hread hfaults
  have hparse : SourceFile.parse name t.printAlias =
      Parse.throughout (Parse.wholeFile name t.printAlias.toList)
        (word :: spelled :: equals :: (tokens ++ [semicolon]) ++ [final]) := by
    rw [SourceFile.parse, ← hall, printAlias, String.toList_ofList]
    rfl
  rw [hparse]
  exact ⟨hissues, declaration, hstatements, hname, hbare⟩

/-- A type of most forms: a union of an array and of a function type that takes the last bar. -/
def mixed : TypeNode :=
  union default
    [array default (parenthesized default
      (union default [word default .string, literal default default (.string "a")])),
    function default
      [.mk default (some default) ⟨default, "all"⟩ (some (reference default ⟨default, "T"⟩))]
      (union default
        [object default [.method default ⟨default, "in"⟩ [] (some (word default .void))],
        word default .null])]

/-- An alias for a union of an array and of a function type is read back. -/
theorem parse_printAlias_mixed :
    mixed.printAlias =
      "type T = ( string | \"a\" ) [ ] | ( ... all : T ) => \x7b in ( ) : void ; \x7d | null ;" ∧
    (SourceFile.parse "test.d.ts" mixed.printAlias).issues = [] ∧
    ∃ declaration,
      (SourceFile.parse "test.d.ts" mixed.printAlias).tree.statements = [.typeAlias declaration] ∧
      declaration.name.text = "T" ∧ declaration.type.bare = mixed.bare := by
  refine ⟨by decide +kernel, parse_printAlias ?_ ?_ (by decide +kernel) "test.d.ts"⟩
  · simp only [mixed, throughout_iff, children, TypeElement.types, TypeElement.parameters,
      TypeElement.type?, Parameter.type?, List.filterMap_cons, List.filterMap_nil, List.flatMap_cons,
      List.flatMap_nil, Option.toList, List.cons_append, List.nil_append, List.Forall]
    decide +kernel
  · simp only [mixed, throughout_iff, children, TypeElement.types, TypeElement.parameters,
      TypeElement.type?, Parameter.type?, List.filterMap_cons, List.filterMap_nil, List.flatMap_cons,
      List.flatMap_nil, Option.toList, List.cons_append, List.nil_append, List.Forall, Printable,
      Identifier.Usable]
    decide +kernel

end TypeNode

end ExpressionTyping
