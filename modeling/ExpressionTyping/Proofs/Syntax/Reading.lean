import ExpressionTyping.Proofs.Syntax.Children
import ExpressionTyping.Proofs.Token.Segmentation

/-!
# The tokens of a tree

`Expr.Reads e tokens` says that a tree, read from left to right with its operators, brackets, dots
and commas, is a list of tokens, and that every node covers exactly the characters from the start
of its first token to the end of its last. One comma may follow the last argument of a call, though
the tree does not show it.

From this alone the places of the nodes follow, as long as the tokens are in order: the parts of a
node lie inside it, one after the other (`Reads.framed`), no name is empty and no expression is
missing (`Reads.isComplete`), and this holds throughout the tree (`Reads.throughout`).
-/

set_option autoImplicit false

namespace ExpressionTyping

/-- The token is the one that a kind determines. -/
def Token.IsMark (token : Token) (kind : TokenKind) : Prop :=
  token.content = kind.fixed

/-- The token of a binary operator is spelled in one way only. -/
theorem BinaryOp.token_text (op : BinaryOp) : op.token.text?.isSome = true := by
  cases op <;> rfl

/-- The token of an operator in front is spelled in one way only. -/
theorem UnaryOp.token_text (op : UnaryOp) : op.token.text?.isSome = true := by
  cases op <;> rfl

/-- The kind and the value of the token that stands for a literal. -/
def Literal.content (value : Literal) : TokenKind × String :=
  match value.text? with
  | some text => (value.kind, text)
  | none => value.kind.fixed

/-- A name is spelled by a token, which it covers. -/
structure Identifier.Names (name : Identifier) (token : Token) : Prop where
  content : token.content = (.ofWord name.text, name.text)
  nonempty : name.text ≠ ""
  span : name.node.span = token.span

/-- A span goes from the start of the first token to the end of the last. -/
def Span.Covers (span : Span) (tokens : List Token) : Prop :=
  ∃ first last, tokens.head? = some first ∧ tokens.getLast? = some last ∧
    span = ⟨first.span.start, last.span.stop⟩

namespace Expr

/-- Arguments read as tokens with commas between them, and perhaps one after the last. -/
inductive ReadsArguments (reads : Expr → List Token → Prop) : List Expr → List Token → Prop where
  | none : ReadsArguments reads [] []
  | last {argument : Expr} {tokens : List Token} (h : reads argument tokens) :
      ReadsArguments reads [argument] tokens
  | more {argument : Expr} {others : List Expr} {tokens rest : List Token} {comma : Token}
      (h : reads argument tokens) (hcomma : comma.IsMark (.punctuator .comma))
      (hrest : ReadsArguments reads others rest) :
      ReadsArguments reads (argument :: others) (tokens ++ comma :: rest)

/-- An expression reads as tokens, and each of its nodes covers the tokens it reads as. -/
inductive Reads : Expr → List Token → Prop where
  | identifier {name : Identifier} {token : Token} (h : name.Names token) :
      Reads (.identifier name) [token]
  | literal {node : Node} {value : Literal} {token : Token} (h : token.content = value.content)
      (hspan : node.span = token.span) : Reads (.literal node value) [token]
  | parenthesized {node : Node} {inner : Expr} {tokens : List Token} {opening closing : Token}
      (hopening : opening.IsMark (.punctuator .openParen)) (h : Reads inner tokens)
      (hclosing : closing.IsMark (.punctuator .closeParen))
      (hspan : node.span.Covers (opening :: (tokens ++ [closing]))) :
      Reads (.parenthesized node inner) (opening :: (tokens ++ [closing]))
  | member {node : Node} {object : Expr} {name : Identifier} {tokens : List Token}
      {dot token : Token} (h : Reads object tokens) (hdot : dot.IsMark (.punctuator .dot))
      (hname : name.Names token) (hspan : node.span.Covers (tokens ++ [dot, token])) :
      Reads (.member node object name) (tokens ++ [dot, token])
  | element {node : Node} {object key : Expr} {tokens within : List Token}
      {opening closing : Token} (h : Reads object tokens)
      (hopening : opening.IsMark (.punctuator .openBracket)) (hkey : Reads key within)
      (hclosing : closing.IsMark (.punctuator .closeBracket))
      (hspan : node.span.Covers (tokens ++ opening :: (within ++ [closing]))) :
      Reads (.element node object key) (tokens ++ opening :: (within ++ [closing]))
  | call {node : Node} {callee : Expr} {arguments : List Expr} {tokens within : List Token}
      {opening closing : Token} (h : Reads callee tokens)
      (hopening : opening.IsMark (.punctuator .openParen))
      (harguments : ReadsArguments Reads arguments within)
      (hclosing : closing.IsMark (.punctuator .closeParen))
      (hspan : node.span.Covers (tokens ++ opening :: (within ++ [closing]))) :
      Reads (.call node callee arguments) (tokens ++ opening :: (within ++ [closing]))
  | unary {node : Node} {op : UnaryOp} {operand : Expr} {tokens : List Token} {token : Token}
      (hop : token.IsMark op.token) (h : Reads operand tokens)
      (hspan : node.span.Covers (token :: tokens)) : Reads (.unary node op operand) (token :: tokens)
  | binary {node : Node} {left right : Expr} {op : BinaryOp} {mark : Span}
      {tokens others : List Token} {token : Token} (hleft : Reads left tokens)
      (hop : token.IsMark op.token) (hmark : mark = token.span) (hright : Reads right others)
      (hspan : node.span.Covers (tokens ++ token :: others)) :
      Reads (.binary node left op mark right) (tokens ++ token :: others)
  | assign {node : Node} {target value : Expr} {mark : Span} {tokens others : List Token}
      {token : Token} (htarget : Reads target tokens) (hequals : token.IsMark (.punctuator .equals))
      (hmark : mark = token.span) (hvalue : Reads value others)
      (hspan : node.span.Covers (tokens ++ token :: others)) :
      Reads (.assign node target mark value) (tokens ++ token :: others)
  | conditional {node : Node} {condition whenTrue whenFalse : Expr}
      {tokens positive negative : List Token} {question colon : Token}
      (hcondition : Reads condition tokens) (hquestion : question.IsMark (.punctuator .question))
      (htrue : Reads whenTrue positive) (hcolon : colon.IsMark (.punctuator .colon))
      (hfalse : Reads whenFalse negative)
      (hspan : node.span.Covers (tokens ++ question :: (positive ++ colon :: negative))) :
      Reads (.conditional node condition whenTrue whenFalse)
        (tokens ++ question :: (positive ++ colon :: negative))

/-- An expression covers the tokens it reads as, from the first one's start to the last one's
end. -/
theorem Reads.covers {e : Expr} {tokens : List Token} (h : e.Reads tokens) :
    e.span.Covers tokens := by
  cases h with
  | identifier h => exact ⟨_, _, rfl, rfl, h.span⟩
  | literal _ hspan => exact ⟨_, _, rfl, rfl, hspan⟩
  | parenthesized _ _ _ hspan | member _ _ _ hspan | element _ _ _ _ hspan | call _ _ _ _ hspan
  | unary _ _ hspan | binary _ _ _ _ hspan | assign _ _ _ _ hspan
  | conditional _ _ _ _ _ hspan => exact hspan

end Expr

/-! ## Spans of tokens in order -/

/-- Tokens that are not empty, each ending before the next starts. -/
structure Token.InOrder (tokens : List Token) : Prop where
  nonempty : ∀ token ∈ tokens, token.span.start < token.span.stop
  ordered : tokens.Pairwise Token.Before

namespace Token.InOrder

variable {tokens own : List Token}

/-- A selection of tokens in order is in order. -/
theorem sublist (h : InOrder tokens) (hsub : own.Sublist tokens) : InOrder own :=
  ⟨fun token hmem => h.nonempty token (hsub.subset hmem), h.ordered.sublist hsub⟩

/-- In a row of tokens in order, none starts before the first. -/
theorem first_le (h : InOrder tokens) {first : Token} (hfirst : tokens.head? = some first) :
    ∀ token ∈ tokens, first.span.start ≤ token.span.start := by
  obtain ⟨rest, rfl⟩ := List.head?_eq_some_iff.mp hfirst
  intro token hmem
  rcases List.mem_cons.mp hmem with rfl | hmem
  · exact Nat.le_refl _
  · have hbefore := (List.pairwise_cons.mp h.ordered).1 token hmem
    have hnonempty := h.nonempty first List.mem_cons_self
    unfold Before at hbefore
    omega

/-- In a row of tokens in order, none ends after the last. -/
theorem le_last (h : InOrder tokens) {last : Token} (hlast : tokens.getLast? = some last) :
    ∀ token ∈ tokens, token.span.stop ≤ last.span.stop := by
  obtain ⟨front, rfl⟩ := List.getLast?_eq_some_iff.mp hlast
  intro token hmem
  rcases List.mem_append.mp hmem with hmem | hmem
  · have hbefore := (List.pairwise_append.mp h.ordered).2.2 token hmem last (by simp)
    have hnonempty := h.nonempty last (by simp)
    unfold Before at hbefore
    omega
  · exact Nat.le_of_eq (congrArg (·.span.stop) (List.mem_singleton.mp hmem))

end Token.InOrder

namespace Span.Covers

variable {part span : Span} {own tokens : List Token}

/-- A span that covers tokens in order is not empty. -/
theorem start_lt_stop (h : span.Covers tokens) (horder : Token.InOrder tokens) :
    span.start < span.stop := by
  obtain ⟨first, last, hfirst, hlast, rfl⟩ := h
  have hmem := List.mem_of_getLast? hlast
  have hstart := horder.first_le hfirst last hmem
  have hnonempty := horder.nonempty last hmem
  simp only
  omega

/-- What covers some of the tokens lies inside what covers them all. -/
theorem inside (h : part.Covers own) (hspan : span.Covers tokens) (horder : Token.InOrder tokens)
    (hsub : own.Sublist tokens) : span.start ≤ part.start ∧ part.stop ≤ span.stop := by
  obtain ⟨first, last, hfirst, hlast, rfl⟩ := h
  obtain ⟨first', last', hfirst', hlast', rfl⟩ := hspan
  constructor
  · exact horder.first_le hfirst' first (hsub.subset (List.mem_of_mem_head? hfirst))
  · exact horder.le_last hlast' last (hsub.subset (List.mem_of_getLast? hlast))

end Span.Covers

/-- Each part covers one of the groups of tokens that the parts cover one by one. -/
theorem Span.covers_of_mem {parts : List Span} {groups : List (List Token)} {part : Span}
    (h : List.Forall₂ Span.Covers parts groups) (hmem : part ∈ parts) :
    ∃ own ∈ groups, part.Covers own := by
  induction h with
  | nil => cases hmem
  | cons hhead _ ih =>
    rcases List.mem_cons.mp hmem with rfl | hmem
    · exact ⟨_, List.mem_cons_self, hhead⟩
    · obtain ⟨own, hown, hcovers⟩ := ih hmem
      exact ⟨own, List.mem_cons_of_mem _ hown, hcovers⟩

/-- Spans that cover tokens in order are in order themselves. -/
theorem Span.pairwise_of_covers {parts : List Span} {groups : List (List Token)}
    (h : List.Forall₂ Span.Covers parts groups) (horder : Token.InOrder groups.flatten) :
    parts.Pairwise fun first second => first.stop ≤ second.start := by
  induction h with
  | nil => exact .nil
  | @cons part group parts groups hpart hparts ih =>
    rw [List.flatten_cons] at horder
    refine .cons (fun other hother => ?_) (ih (horder.sublist (List.sublist_append_right _ _)))
    obtain ⟨own, hown, hcovers⟩ := Span.covers_of_mem hparts hother
    obtain ⟨-, last, -, hlast, rfl⟩ := hpart
    obtain ⟨first, -, hfirst, -, rfl⟩ := hcovers
    refine (List.pairwise_append.mp horder.ordered).2.2 last (List.mem_of_getLast? hlast) first ?_
    exact List.mem_flatten.mpr ⟨own, hown, List.mem_of_mem_head? hfirst⟩

/-! ## What follows for a tree -/

namespace Expr

/-- The spans of the parts of a node that the tree shows, from left to right. -/
def parts : Expr → List Span
  | identifier _ | literal _ _ | missing _ => []
  | parenthesized _ inner => [inner.span]
  | member _ object name => [object.span, name.node.span]
  | element _ object key => [object.span, key.span]
  | call _ callee arguments => callee.span :: arguments.map span
  | unary _ _ operand => [operand.span]
  | binary _ left _ mark right => [left.span, mark, right.span]
  | assign _ target mark value => [target.span, mark, value.span]
  | conditional _ condition whenTrue whenFalse => [condition.span, whenTrue.span, whenFalse.span]

/-- The parts of a node lie inside it and one after the other, and none is empty. -/
structure Framed (e : Expr) : Prop where
  ordered : e.parts.Pairwise fun first second => first.stop ≤ second.start
  inside : ∀ part ∈ e.parts, e.span.start ≤ part.start ∧ part.stop ≤ e.span.stop
  nonempty : ∀ part ∈ e.parts, part.start < part.stop

/-- Whether a node is there and has the name it should have. -/
def isComplete : Expr → Bool
  | missing _ => false
  | identifier name | member _ _ name => !name.isMissing
  | _ => true

/-- Arguments cover groups of tokens that stand among the tokens of the whole list, commas left
out. -/
theorem ReadsArguments.groups {arguments : List Expr} {tokens : List Token}
    (h : ReadsArguments Reads arguments tokens) :
    ∃ groups, List.Forall₂ Span.Covers (arguments.map span) groups ∧
      groups.flatten.Sublist tokens := by
  induction h with
  | none => exact ⟨[], .nil, by simp⟩
  | @last argument tokens h => exact ⟨[tokens], .cons h.covers .nil, by simp⟩
  | @more argument others tokens rest comma h _ _ ih =>
    obtain ⟨groups, hgroups, hsub⟩ := ih
    refine ⟨tokens :: groups, .cons h.covers hgroups, ?_⟩
    exact (List.Sublist.refl tokens).append (hsub.cons comma)

/-- The parts of a node cover groups of its tokens, in order. -/
theorem Reads.groups {e : Expr} {tokens : List Token} (h : e.Reads tokens) :
    ∃ groups, List.Forall₂ Span.Covers e.parts groups ∧ groups.flatten.Sublist tokens := by
  have hsingle (token : Token) {span : Span} (h : span = token.span) : span.Covers [token] :=
    ⟨token, token, rfl, rfl, h⟩
  cases h with
  | identifier | literal => exact ⟨[], .nil, by simp⟩
  | @parenthesized _ _ tokens opening closing _ h =>
    refine ⟨[tokens], .cons h.covers .nil, ?_⟩
    simp
  | @member _ _ _ tokens dot token h _ hname =>
    refine ⟨[tokens, [token]], .cons h.covers (.cons (hsingle token hname.span) .nil), ?_⟩
    simp
  | @element _ _ _ tokens within opening closing h _ hkey =>
    refine ⟨[tokens, within], .cons h.covers (.cons hkey.covers .nil), ?_⟩
    simp
  | @call _ _ _ tokens within opening closing h _ harguments =>
    obtain ⟨groups, hgroups, hsub⟩ := harguments.groups
    refine ⟨tokens :: groups, .cons h.covers hgroups, ?_⟩
    exact (List.Sublist.refl tokens).append ((hsub.trans (List.sublist_append_left _ _)).cons opening)
  | @unary _ _ _ tokens token _ h =>
    refine ⟨[tokens], .cons h.covers .nil, ?_⟩
    simp
  | @binary _ _ _ _ _ tokens others token hleft _ hmark hright =>
    refine ⟨[tokens, [token], others], .cons hleft.covers (.cons (hsingle token hmark)
      (.cons hright.covers .nil)), ?_⟩
    simp
  | @assign _ _ _ _ tokens others token htarget _ hmark hvalue =>
    refine ⟨[tokens, [token], others], .cons htarget.covers (.cons (hsingle token hmark)
      (.cons hvalue.covers .nil)), ?_⟩
    simp
  | @conditional _ _ _ _ tokens positive negative question colon hcondition _ htrue _ hfalse =>
    refine ⟨[tokens, positive, negative], .cons hcondition.covers (.cons htrue.covers
      (.cons hfalse.covers .nil)), ?_⟩
    simp

/-- The parts of an expression that reads as tokens in order lie inside it, one after the other. -/
theorem Reads.framed {e : Expr} {tokens : List Token} (h : e.Reads tokens)
    (horder : Token.InOrder tokens) : e.Framed := by
  obtain ⟨groups, hgroups, hsub⟩ := h.groups
  have hmem (part : Span) (hpart : part ∈ e.parts) : ∃ own, part.Covers own ∧ own.Sublist tokens := by
    obtain ⟨own, hown, hcovers⟩ := Span.covers_of_mem hgroups hpart
    exact ⟨own, hcovers, (List.sublist_flatten_of_mem hown).trans hsub⟩
  refine ⟨Span.pairwise_of_covers hgroups (horder.sublist hsub), fun part hpart => ?_,
    fun part hpart => ?_⟩
  · obtain ⟨own, hcovers, hown⟩ := hmem part hpart
    exact hcovers.inside h.covers horder hown
  · obtain ⟨own, hcovers, hown⟩ := hmem part hpart
    exact hcovers.start_lt_stop (horder.sublist hown)

/-- An expression that reads as tokens has no hole at its root and no missing name. -/
theorem Reads.isComplete {e : Expr} {tokens : List Token} (h : e.Reads tokens) :
    e.isComplete = true := by
  cases h with
  | identifier hname => simp [Expr.isComplete, Identifier.isMissing, hname.nonempty]
  | member _ _ hname => simp [Expr.isComplete, Identifier.isMissing, hname.nonempty]
  | literal | parenthesized | element | call | unary | binary | assign | conditional => rfl

/-- Each argument reads as a contiguous part of the tokens of the list. -/
theorem ReadsArguments.child {arguments : List Expr} {tokens : List Token} {child : Expr}
    (h : ReadsArguments Reads arguments tokens) (hchild : child ∈ arguments) :
    ∃ own, child.Reads own ∧ own <:+: tokens := by
  induction h with
  | none => cases hchild
  | @last argument tokens h =>
    obtain rfl := List.mem_singleton.mp hchild
    exact ⟨tokens, h, List.infix_rfl⟩
  | @more argument others tokens rest comma h _ _ ih =>
    rcases List.mem_cons.mp hchild with rfl | hchild
    · exact ⟨tokens, h, (List.prefix_append _ _).isInfix⟩
    · obtain ⟨own, hown, hpart⟩ := ih hchild
      exact ⟨own, hown, hpart.trans ⟨tokens ++ [comma], [], by simp⟩⟩

/-- A child reads as a stretch of the tokens of its parent. -/
theorem Reads.child {e child : Expr} {tokens : List Token} (h : e.Reads tokens)
    (hchild : child ∈ e.children) : ∃ own, child.Reads own ∧ own <:+: tokens := by
  cases h with
  | identifier | literal => cases hchild
  | @parenthesized _ _ tokens opening closing _ h =>
    obtain rfl := List.mem_singleton.mp hchild
    exact ⟨tokens, h, [opening], [closing], by simp⟩
  | @member _ _ _ tokens dot token h =>
    obtain rfl := List.mem_singleton.mp hchild
    exact ⟨tokens, h, [], [dot, token], by simp⟩
  | @element _ _ _ tokens within opening closing h _ hkey =>
    simp only [children, List.mem_cons, List.not_mem_nil, or_false] at hchild
    rcases hchild with rfl | rfl
    · exact ⟨tokens, h, [], _, rfl⟩
    · exact ⟨within, hkey, tokens ++ [opening], [closing], by simp⟩
  | @call _ _ _ tokens within opening closing h _ harguments =>
    rcases List.mem_cons.mp hchild with rfl | hchild
    · exact ⟨tokens, h, [], _, rfl⟩
    · obtain ⟨own, hown, hpart⟩ := harguments.child hchild
      exact ⟨own, hown, hpart.trans ⟨tokens ++ [opening], [closing], by simp⟩⟩
  | @unary _ _ _ tokens token _ h =>
    obtain rfl := List.mem_singleton.mp hchild
    exact ⟨tokens, h, [token], [], by simp⟩
  | @binary _ _ _ _ _ tokens others token hleft _ _ hright =>
    simp only [children, List.mem_cons, List.not_mem_nil, or_false] at hchild
    rcases hchild with rfl | rfl
    · exact ⟨tokens, hleft, [], _, rfl⟩
    · exact ⟨others, hright, tokens ++ [token], [], by simp⟩
  | @assign _ _ _ _ tokens others token htarget _ _ hvalue =>
    simp only [children, List.mem_cons, List.not_mem_nil, or_false] at hchild
    rcases hchild with rfl | rfl
    · exact ⟨tokens, htarget, [], _, rfl⟩
    · exact ⟨others, hvalue, tokens ++ [token], [], by simp⟩
  | @conditional _ _ _ _ tokens positive negative question colon hcondition _ htrue _ hfalse =>
    simp only [children, List.mem_cons, List.not_mem_nil, or_false] at hchild
    rcases hchild with rfl | rfl | rfl
    · exact ⟨tokens, hcondition, [], _, rfl⟩
    · exact ⟨positive, htrue, tokens ++ [question], colon :: negative, by simp⟩
    · exact ⟨negative, hfalse, tokens ++ question :: (positive ++ [colon]), [], by simp⟩

/-- What holds of every node that reads as a stretch of the tokens holds throughout the tree. -/
theorem Reads.throughout {P : Expr → Prop} {e : Expr} {tokens : List Token}
    (hnode : ∀ node own, node.Reads own → own <:+: tokens → P node) (h : e.Reads tokens) :
    e.Throughout P := by
  have key (own : List Token) (hown : e.Reads own) (hpart : own <:+: tokens) :
      e.Throughout P := by
    clear h
    induction e using Expr.induction_on_children generalizing own with
    | step e ih =>
      refine ⟨hnode e own hown hpart, fun child hchild => ?_⟩
      obtain ⟨stretch, hstretch, hinside⟩ := hown.child hchild
      exact ih child hchild stretch hstretch (hinside.trans hpart)
  exact key tokens h List.infix_rfl

end Expr

end ExpressionTyping
