import ExpressionTyping.Proofs.Syntax.Reading
import ExpressionTyping.Proofs.Token.Spelling

/-!
# Printing expressions

An expression is printed as its tokens from left to right with a space between them. Parentheses
are nodes of their own and are never put in, so only some trees can be printed so that they are
read back: those that have at each place what the grammar allows there (`fits`). What a tree is
apart from the numbers and the places of its nodes is its `bare` form.
-/

set_option autoImplicit false

namespace ExpressionTyping

/-- The kind and the value of the token that spells a name. -/
def Identifier.content (name : Identifier) : TokenKind × String :=
  (.ofWord name.text, name.text)

namespace Expr

/-! ## The tokens of a tree -/

mutual

/-- The kinds and values of the tokens of an expression, from left to right. -/
def contents : Expr → List (TokenKind × String)
  | .identifier name => [name.content]
  | .literal _ value => [value.content]
  | .parenthesized _ inner =>
    (TokenKind.punctuator .openParen).fixed ::
      (inner.contents ++ [(TokenKind.punctuator .closeParen).fixed])
  | .member _ object name =>
    object.contents ++ [(TokenKind.punctuator .dot).fixed, name.content]
  | .element _ object key =>
    object.contents ++ (TokenKind.punctuator .openBracket).fixed ::
      (key.contents ++ [(TokenKind.punctuator .closeBracket).fixed])
  | .call _ callee arguments =>
    callee.contents ++ (TokenKind.punctuator .openParen).fixed ::
      (argumentContents arguments ++ [(TokenKind.punctuator .closeParen).fixed])
  | .unary _ op operand => op.token.fixed :: operand.contents
  | .binary _ left op _ right => left.contents ++ op.token.fixed :: right.contents
  | .assign _ target _ value =>
    target.contents ++ (TokenKind.punctuator .equals).fixed :: value.contents
  | .conditional _ condition whenTrue whenFalse =>
    condition.contents ++ (TokenKind.punctuator .question).fixed ::
      (whenTrue.contents ++ (TokenKind.punctuator .colon).fixed :: whenFalse.contents)
  | .missing _ => []

/-- The kinds and values of the tokens of arguments, with commas between them. -/
def argumentContents : List Expr → List (TokenKind × String)
  | [] => []
  | [argument] => argument.contents
  | argument :: others =>
    argument.contents ++ (TokenKind.punctuator .comma).fixed :: argumentContents others

end

/-- An expression as text. -/
def print (e : Expr) : String :=
  String.ofList (Token.written e.contents)

/-! ## What is compared -/

mutual

/-- An expression without the numbers and the places of its nodes. -/
def bare : Expr → Expr
  | .identifier name => .identifier ⟨default, name.text⟩
  | .literal _ value => .literal default value
  | .parenthesized _ inner => .parenthesized default inner.bare
  | .member _ object name => .member default object.bare ⟨default, name.text⟩
  | .element _ object key => .element default object.bare key.bare
  | .call _ callee arguments => .call default callee.bare (bareAll arguments)
  | .unary _ op operand => .unary default op operand.bare
  | .binary _ left op _ right => .binary default left.bare op default right.bare
  | .assign _ target _ value => .assign default target.bare default value.bare
  | .conditional _ condition whenTrue whenFalse =>
    .conditional default condition.bare whenTrue.bare whenFalse.bare
  | .missing _ => .missing default

/-- Expressions without the numbers and the places of their nodes. -/
def bareAll : List Expr → List Expr
  | [] => []
  | e :: others => e.bare :: bareAll others

end

/-! ## What can be read back -/

/-- Whether an expression is a primary one, or a member, an element or a call. -/
def isAccess : Expr → Bool
  | identifier _ | literal _ _ | parenthesized _ _ | member _ _ _ | element _ _ _ | call _ _ _ =>
    true
  | _ => false

/-- Whether an expression may be the operand of an operator in front. -/
def isUnary : Expr → Bool
  | unary _ _ _ => true
  | e => e.isAccess

/-- Whether an expression may be a condition or the target of an assignment. -/
def isBinary : Expr → Bool
  | binary _ _ _ _ _ => true
  | e => e.isUnary

/-- Whether an expression may stand left of a binary operator: what binds as tightly groups to the
left, except for `**`. -/
def fitsLeft (op : BinaryOp) : Expr → Bool
  | binary _ _ inner _ _ =>
    if op = .power then decide (op.precedence.rank < inner.precedence.rank)
    else decide (op.precedence.rank ≤ inner.precedence.rank)
  | e => e.isUnary

/-- Whether an expression may stand right of a binary operator. -/
def fitsRight (op : BinaryOp) : Expr → Bool
  | binary _ _ inner _ _ =>
    if op = .power then decide (op.precedence.rank ≤ inner.precedence.rank)
    else decide (op.precedence.rank < inner.precedence.rank)
  | e => e.isUnary

/-- Whether an expression is there and its parts are of the levels that the grammar asks for. -/
def fits : Expr → Bool
  | identifier _ | literal _ _ | parenthesized _ _ => true
  | member _ object _ | element _ object _ | call _ object _ => object.isAccess
  | unary _ _ operand => operand.isUnary
  | binary _ left op _ right => left.fitsLeft op && right.fitsRight op
  | assign _ target _ _ => target.isBinary
  | conditional _ condition _ _ => condition.isBinary
  | missing _ => false

/-- The name or the number of a node, if it has one, can be written as one token, and a name that
stands alone is no reserved word. -/
def Printable (alphabet : Alphabet) : Expr → Prop
  | identifier name =>
    (TokenKind.ofWord name.text).isName = true ∧ Token.Alone alphabet name.content
  | member _ _ name => Token.Alone alphabet name.content
  | literal _ (.number text) => Token.Alone alphabet (.number, text)
  | _ => True

mutual

/-- How many frames an expression opens inside its own, at most at once: one for each expression that
is nested in brackets, in a branch or right of an assignment, and one for each operator in front. -/
def frames : Expr → Nat
  | .identifier _ | .literal _ _ | .missing _ => 0
  | .parenthesized _ inner => inner.frames + 1
  | .member _ object _ => object.frames
  | .element _ object key => max object.frames (key.frames + 1)
  | .call _ callee arguments => max callee.frames (argumentFrames arguments)
  | .unary _ _ operand => operand.frames + 1
  | .binary _ left _ _ right => max left.frames right.frames
  | .assign _ target _ value => max target.frames (value.frames + 1)
  | .conditional _ condition whenTrue whenFalse =>
    max condition.frames (max whenTrue.frames whenFalse.frames + 1)

/-- How many frames are open at once in arguments, their own included. -/
def argumentFrames : List Expr → Nat
  | [] => 0
  | argument :: others => max (argument.frames + 1) (argumentFrames others)

end

end Expr

/-! ## Every token of a printable tree can be written -/

/-- A token whose kind fixes its text can be written in any alphabet. -/
theorem TokenKind.fixed_writable (alphabet : Alphabet) {kind : TokenKind}
    (h : kind.text?.isSome = true) : Token.Writable alphabet kind.fixed := by
  cases kind with
  | punctuator | keyword => exact rfl
  | unknown | endOfText | number | string | template | identifier => cases h

/-- The token of a name that scans as one token when it stands alone can be written. -/
theorem Identifier.content_writable {alphabet : Alphabet} {name : Identifier}
    (h : Token.Alone alphabet name.content) : Token.Writable alphabet name.content := by
  obtain ⟨node, text⟩ := name
  unfold content at h ⊢
  simp only at h ⊢
  cases hkind : TokenKind.ofWord text with
  | keyword k =>
    rw [TokenKind.text_eq_of_ofWord hkind]
    exact rfl
  | identifier =>
    rw [hkind] at h
    exact h
  | unknown | endOfText | number | string | template | punctuator =>
    unfold TokenKind.ofWord at hkind
    split at hkind <;> cases hkind

namespace Expr

/-- Between an argument and the next one a comma is printed. -/
theorem argumentContents_cons_cons (argument next : Expr) (others : List Expr) :
    argumentContents (argument :: next :: others) =
      argument.contents ++ (TokenKind.punctuator .comma).fixed ::
        argumentContents (next :: others) := by
  rw [argumentContents]
  simp

/-- The tokens of arguments can be written when those of each argument can. -/
theorem argumentContents_writable {alphabet : Alphabet} {arguments : List Expr}
    (h : ∀ argument ∈ arguments, ∀ content ∈ argument.contents, Token.Writable alphabet content) :
    ∀ content ∈ argumentContents arguments, Token.Writable alphabet content := by
  induction arguments with
  | nil => simp [argumentContents]
  | cons argument others ih =>
    obtain ⟨hargument, hothers⟩ := List.forall_mem_cons.mp h
    cases others with
    | nil =>
      rw [argumentContents]
      exact hargument
    | cons next others =>
      rw [argumentContents_cons_cons, List.forall_mem_append, List.forall_mem_cons]
      exact ⟨hargument, TokenKind.fixed_writable alphabet rfl, ih hothers⟩

/-- Every token of an expression whose names and numbers can be written can itself be written. -/
theorem contents_writable {alphabet : Alphabet} {e : Expr} (h : e.Throughout (Printable alphabet)) :
    ∀ content ∈ e.contents, Token.Writable alphabet content := by
  have hmark {kind : TokenKind} (h : kind.text?.isSome = true) : Token.Writable alphabet kind.fixed :=
    TokenKind.fixed_writable alphabet h
  induction h with
  | @intro e here _ ih =>
    cases e with
    | identifier name =>
      rw [contents, List.forall_mem_singleton]
      exact Identifier.content_writable here.2
    | literal node value =>
      rw [contents, List.forall_mem_singleton]
      cases value with
      | string | template => trivial
      | number text => exact here
      | boolean value => cases value <;> exact hmark rfl
      | null => exact hmark rfl
    | parenthesized node inner =>
      have hinner := ih inner (by simp)
      rw [contents, List.forall_mem_cons, List.forall_mem_append, List.forall_mem_singleton]
      exact ⟨hmark rfl, hinner, hmark rfl⟩
    | member node object name =>
      have hobject := ih object (by simp)
      rw [contents, List.forall_mem_append, List.forall_mem_cons, List.forall_mem_singleton]
      exact ⟨hobject, hmark rfl, Identifier.content_writable here⟩
    | element node object key =>
      have hobject := ih object (by simp)
      have hkey := ih key (by simp)
      rw [contents, List.forall_mem_append, List.forall_mem_cons, List.forall_mem_append,
        List.forall_mem_singleton]
      exact ⟨hobject, hmark rfl, hkey, hmark rfl⟩
    | call node callee arguments =>
      have hcallee := ih callee (by simp)
      have harguments := argumentContents_writable fun argument hargument =>
        ih argument (List.mem_cons_of_mem callee hargument)
      rw [contents, List.forall_mem_append, List.forall_mem_cons, List.forall_mem_append,
        List.forall_mem_singleton]
      exact ⟨hcallee, hmark rfl, harguments, hmark rfl⟩
    | unary node op operand =>
      have hoperand := ih operand (by simp)
      rw [contents, List.forall_mem_cons]
      exact ⟨hmark op.token_text, hoperand⟩
    | binary node left op mark right =>
      have hleft := ih left (by simp)
      have hright := ih right (by simp)
      rw [contents, List.forall_mem_append, List.forall_mem_cons]
      exact ⟨hleft, hmark op.token_text, hright⟩
    | assign node target mark value =>
      have htarget := ih target (by simp)
      have hvalue := ih value (by simp)
      rw [contents, List.forall_mem_append, List.forall_mem_cons]
      exact ⟨htarget, hmark rfl, hvalue⟩
    | conditional node condition whenTrue whenFalse =>
      have hcondition := ih condition (by simp)
      have htrue := ih whenTrue (by simp)
      have hfalse := ih whenFalse (by simp)
      rw [contents, List.forall_mem_append, List.forall_mem_cons, List.forall_mem_append,
        List.forall_mem_cons]
      exact ⟨hcondition, hmark rfl, htrue, hmark rfl, hfalse⟩
    | missing node => simp [contents]

end Expr

/-! ## The first token of a tree -/

/-- Whether a token starts an expression that has no operator in front. -/
def TokenKind.startsAccess : TokenKind → Bool
  | identifier | number | string | template | punctuator .openParen => true
  | keyword .trueWord | keyword .falseWord | keyword .nullWord => true
  | kind => kind.isContextualKeyword

namespace TokenKind

/-- A name starts a primary expression. -/
theorem startsAccess_of_isName {kind : TokenKind} (h : kind.isName = true) :
    kind.startsAccess = true := by
  cases kind with
  | keyword k =>
    revert h
    cases k <;> decide
  | identifier => rfl
  | unknown | endOfText | number | string | template | punctuator => cases h

/-- A token that starts a primary expression is no operator in front, so the parser does not take it
for one. -/
theorem ofToken?_eq_none_of_startsAccess {kind : TokenKind} (h : kind.startsAccess = true) :
    UnaryOp.ofToken? kind = none := by
  cases kind with
  | keyword k =>
    revert h
    cases k <;> decide
  | punctuator p =>
    revert h
    cases p <;> decide
  | unknown | endOfText | number | string | template | identifier => rfl

/-- Whether a token starts an expression. -/
def startsExpression (kind : TokenKind) : Bool :=
  kind.startsAccess || (UnaryOp.ofToken? kind).isSome

end TokenKind

/-- The token of a literal starts a primary expression. -/
theorem Literal.startsAccess (value : Literal) : value.content.1.startsAccess = true := by
  cases value with
  | boolean value => cases value <;> rfl
  | string | template | number | null => rfl

namespace Expr

/-- An expression that is shaped as the grammar asks for and can be written. -/
def Regular (alphabet : Alphabet) (e : Expr) : Prop :=
  e.fits = true ∧ e.Printable alphabet

variable {alphabet : Alphabet}

/-- A printed primary expression, member, element or call begins with a token that starts a primary
one. -/
theorem head_of_isAccess {e : Expr} (h : e.Throughout (Regular alphabet))
    (haccess : e.isAccess = true) :
    ∃ first rest, e.contents = first :: rest ∧ first.1.startsAccess = true := by
  induction h with
  | @intro e here _ ih =>
    -- A receiver comes first, so its first token is the one of the whole.
    have hreceiver {object : Expr} (hobject : object ∈ e.children)
        (hfits : object.isAccess = true) (more : List (TokenKind × String)) :
        ∃ first rest, object.contents ++ more = first :: rest ∧ first.1.startsAccess = true := by
      obtain ⟨first, rest, hcontents, hfirst⟩ := ih object hobject hfits
      exact ⟨first, rest ++ more, by rw [hcontents, List.cons_append], hfirst⟩
    cases e with
    | identifier name =>
      exact ⟨name.content, [], by rw [contents], TokenKind.startsAccess_of_isName here.2.1⟩
    | literal node value => exact ⟨value.content, [], by rw [contents], value.startsAccess⟩
    | parenthesized node inner => exact ⟨_, _, by rw [contents], rfl⟩
    | member node object name =>
      rw [contents]
      exact hreceiver (by simp) here.1 _
    | element node object key =>
      rw [contents]
      exact hreceiver (by simp) here.1 _
    | call node callee arguments =>
      rw [contents]
      exact hreceiver (by simp) here.1 _
    | unary | binary | assign | conditional | missing => cases haccess

/-- A printed expression begins with a token that starts an expression. -/
theorem head_startsExpression {e : Expr} (h : e.Throughout (Regular alphabet)) :
    ∃ first rest, e.contents = first :: rest ∧ first.1.startsExpression = true := by
  have haccess {e : Expr} (h : e.Throughout (Regular alphabet)) (haccess : e.isAccess = true) :
      ∃ first rest, e.contents = first :: rest ∧ first.1.startsExpression = true := by
    obtain ⟨first, rest, hcontents, hfirst⟩ := head_of_isAccess h haccess
    exact ⟨first, rest, hcontents, by rw [TokenKind.startsExpression, hfirst, Bool.true_or]⟩
  induction h with
  | @intro e here below ih =>
    have hfirst {part : Expr} (hpart : part ∈ e.children) (more : List (TokenKind × String)) :
        ∃ first rest, part.contents ++ more = first :: rest ∧ first.1.startsExpression = true := by
      obtain ⟨first, rest, hcontents, hfirst⟩ := ih part hpart
      exact ⟨first, rest ++ more, by rw [hcontents, List.cons_append], hfirst⟩
    cases e with
    | identifier | literal | parenthesized | member | element | call =>
      exact haccess ⟨here, below⟩ rfl
    | unary node op operand =>
      refine ⟨_, _, by rw [contents], ?_⟩
      cases op <;> rfl
    | binary node left op mark right =>
      rw [contents]
      exact hfirst (by simp) _
    | assign node target mark value =>
      rw [contents]
      exact hfirst (by simp) _
    | conditional node condition whenTrue whenFalse =>
      rw [contents]
      exact hfirst (by simp) _
    | missing => cases here.1

end Expr

end ExpressionTyping
