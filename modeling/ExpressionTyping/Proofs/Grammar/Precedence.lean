import ExpressionTyping.Proofs.Grammar.Placement
import ExpressionTyping.Proofs.Grammar.RoundTrip

/-!
# How operators group

In every parsed tree, also where something was missing or reported, an operator has operands that
bind as tightly as its precedence asks (`Expr.Grouped`, `Expr.parse_grouped`).

The loop over binary operators compares an operator with the bound of the loop only, and not with the
operator of its left operand. That the left operand binds tightly enough is known from where the
loop for the right operand of that earlier operator has stopped: at a token that is no operator above
its own bound (`Parse.StopsAt`). A loop never stops early, since each round takes a token and the
limit is at least the number of tokens ahead.
-/

set_option autoImplicit false

namespace ExpressionTyping

namespace Expr

/-- Whether an expression may have a member, an element or a call after it: it is no operation, no
choice and no assignment. -/
def takesAccess : Expr → Bool
  | unary _ _ _ | binary _ _ _ _ _ | conditional _ _ _ _ | assign _ _ _ _ => false
  | _ => true

/-- Whether an expression may have an operator in front: it is no binary operation, no choice and no
assignment. -/
def takesUnary : Expr → Bool
  | binary _ _ _ _ _ | conditional _ _ _ _ | assign _ _ _ _ => false
  | _ => true

/-- Whether an expression may stand beside a binary operator: it is no choice and no assignment. -/
def takesBinary : Expr → Bool
  | conditional _ _ _ _ | assign _ _ _ _ => false
  | _ => true

/-- The operands of an operation and the objects of members, elements and calls are of the form that
the grammar asks for. Operators of equal precedence group to the left, and powers to the right. -/
def Grouped : Expr → Prop
  | member _ object _ => object.takesAccess = true
  | element _ object _ => object.takesAccess = true
  | call _ callee _ => callee.takesAccess = true
  | unary _ _ operand => operand.takesUnary = true
  | binary _ left op _ right =>
    (left.takesBinary = true ∧ ∀ inner, left.operator? = some inner →
      if op = .power then op.precedence.rank < inner.precedence.rank
      else op.precedence.rank ≤ inner.precedence.rank) ∧
    right.takesBinary = true ∧ ∀ inner, right.operator? = some inner →
      if op = .power then op.precedence.rank ≤ inner.precedence.rank
      else op.precedence.rank < inner.precedence.rank
  | _ => True

variable {e : Expr}

/-- What may have a member after it may have an operator in front. -/
theorem takesUnary_of_takesAccess (h : e.takesAccess = true) : e.takesUnary = true := by
  cases e <;> first | rfl | cases h

/-- What may have an operator in front may stand beside a binary operator. -/
theorem takesBinary_of_takesUnary (h : e.takesUnary = true) : e.takesBinary = true := by
  cases e <;> first | rfl | cases h

/-- What may have an operator in front is no binary operation. -/
theorem operator?_of_takesUnary (h : e.takesUnary = true) : e.operator? = none := by
  cases e <;> first | rfl | cases h

/-- An operation is grouped if the operator of its left operand does not take it for its own right
operand, and the operator of its right operand is above its floor. -/
theorem grouped_binary {node : Node} {left right : Expr} {op : BinaryOp} {mark : Span}
    (hleft : left.takesBinary = true) (hright : right.takesBinary = true)
    (hbefore : ∀ inner, left.operator? = some inner →
      op.precedence.rank ≤ inner.precedence.rightFloor.rank)
    (hafter : ∀ inner, right.operator? = some inner →
      op.precedence.rightFloor.rank < inner.precedence.rank) :
    (binary node left op mark right).Grouped := by
  refine ⟨⟨hleft, fun inner hinner => ?_⟩, hright, fun inner hinner => ?_⟩
  · have hrank := hbefore inner hinner
    rcases op.rightFloor_rank with ⟨rfl, hop, -⟩ | ⟨hop, hopRank, -⟩
    · rcases inner.rightFloor_rank with ⟨-, hinnerRank, hfloor⟩ | ⟨-, hinnerRank, hfloor⟩ <;> omega
    · rw [if_neg hop]
      rcases inner.rightFloor_rank with ⟨-, hinnerRank, hfloor⟩ | ⟨-, hinnerRank, hfloor⟩ <;> omega
  · have hrank := hafter inner hinner
    rcases op.rightFloor_rank with ⟨rfl, hop, hfloor⟩ | ⟨hop, -, hfloor⟩
    · rw [if_pos rfl]
      omega
    · rw [if_neg hop]
      omega

end Expr

/-- A binary operator is not the end of the text. -/
theorem BinaryOp.ne_endOfText {kind : TokenKind} {op : BinaryOp}
    (h : BinaryOp.ofToken? kind = some op) : kind ≠ .endOfText := by
  rintro rfl
  cases h

/-- An operator in front is not the end of the text. -/
theorem UnaryOp.ne_endOfText {kind : TokenKind} {op : UnaryOp}
    (h : UnaryOp.ofToken? kind = some op) : kind ≠ .endOfText := by
  rintro rfl
  cases h

/-- A parse stands at no operator above a precedence. -/
def ParseState.StopsAt (s : ParseState) (bound : Precedence) : Prop :=
  ∀ op, BinaryOp.ofToken? s.current.kind = some op → op.precedence.rank ≤ bound.rank

namespace Parse

open ParseState

variable {text : List Char}

/-- A parse that reads a grouped expression of a form. -/
def Groups (text : List Char) (form : Expr → Bool) (p : Parse Expr) : Prop :=
  ∀ s, Runs text p s fun e _ => e.Throughout Expr.Grouped ∧ form e = true

/-- A parse that reads a grouped expression. -/
abbrev GroupsAny (text : List Char) (p : Parse Expr) : Prop :=
  Groups text (fun _ => true) p

/-- An expression of a form is of every wider form. -/
theorem Groups.mono {form form' : Expr → Bool} {p : Parse Expr} (h : Groups text form p)
    (himp : ∀ e, form e = true → form' e = true) : Groups text form' p :=
  fun s => (h s).mono fun e _ _ _ he => ⟨he.1, himp e he.2⟩

/-- A missing expression may have a member after it. -/
theorem missing_groups : Groups text Expr.takesAccess missing := by
  intro s
  refine (report_runs _ s).bind fun _ s₁ _ _ _ => (current_runs s₁).bind fun token s₂ _ _ _ =>
    (newNode_runs _ s₂).bind fun node s₃ _ _ _ => .pure ?_
  exact ⟨⟨trivial, nofun⟩, rfl⟩

section Access

variable {assignment : Parse Expr} (h : GroupsAny text assignment)
include h

/-- A primary expression is grouped, whatever grouped expressions it contains. -/
theorem primary_groups : Groups text Expr.takesAccess (primary assignment) := by
  intro s
  refine (current_runs s).bind fun token s₁ _ _ _ => .ite (fun _ => ?_) fun _ => ?_
  · exact (identifier_runs s₁).bind fun name _ _ _ _ => .pure ⟨⟨trivial, nofun⟩, rfl⟩
  split
  · exact (advance_runs s₁).bind fun _ s₂ _ _ _ => (newNode_runs _ s₂).bind fun node _ _ _ _ =>
      .pure ⟨⟨trivial, nofun⟩, rfl⟩
  · refine (accept_runs _ s₁).bind fun _ s₂ _ _ _ => .ite (fun _ => ?_) fun _ => missing_groups s₂
    refine (h s₂).bind fun inner s₃ _ _ hinner => (expectPunctuator_runs _ s₃).bind
      fun _ s₄ _ _ _ => (closeNode_runs _ s₄).bind fun node _ _ _ _ => .pure ⟨⟨trivial, ?_⟩, rfl⟩
    simpa using hinner.1

/-- Further arguments are grouped. -/
theorem argumentsTail_groups (limit : Nat) (s : ParseState) :
    Runs text (argumentsTail assignment limit) s fun arguments _ =>
      ∀ argument ∈ arguments, argument.Throughout Expr.Grouped := by
  induction limit generalizing s with
  | zero => exact .pure nofun
  | succ limit ih =>
    refine (isAt_runs _ s).bind fun _ s₁ _ _ _ => (isAt_runs _ s₁).bind fun _ s₂ _ _ _ =>
      .ite (fun _ => .pure nofun) fun _ => (h s₂).bind fun argument s₃ _ _ hargument => ?_
    refine (accept_runs _ s₃).bind fun _ s₄ _ _ _ => .ite (fun _ => ?_) fun _ => ?_
    · exact (ih s₄).bind fun rest _ _ _ hrest => .pure (List.forall_mem_cons.mpr ⟨hargument.1, hrest⟩)
    · exact .pure (by simpa using hargument.1)

/-- Arguments are grouped. -/
theorem arguments_groups (s : ParseState) :
    Runs text (arguments assignment) s fun arguments _ =>
      ∀ argument ∈ arguments, argument.Throughout Expr.Grouped :=
  (expectPunctuator_runs _ s).bind fun _ s₁ _ _ _ => (remaining_runs s₁).bind
    fun limit s₂ _ _ _ => (argumentsTail_groups h limit s₂).bind
      fun _ s₃ _ _ harguments => (expectPunctuator_runs _ s₃).bind fun _ _ _ _ _ => .pure harguments

/-- Members, keys and calls after a grouped expression that may have them keep it grouped. -/
theorem accessTail_groups (limit : Nat) {e : Expr} (he : e.Throughout Expr.Grouped)
    (hform : e.takesAccess = true) :
    Groups text Expr.takesAccess (accessTail assignment limit e) := by
  induction limit generalizing e with
  | zero => exact fun _ => .pure ⟨he, hform⟩
  | succ limit ih =>
    intro s
    refine (accept_runs _ s).bind fun _ s₁ _ _ _ => .ite (fun _ => ?_) fun _ => ?_
    · refine (memberName_runs s₁).bind fun name s₂ _ _ _ => (closeNode_runs _ s₂).bind
        fun node s₃ _ _ _ => ih (e := .member node e name) ⟨hform, ?_⟩ rfl s₃
      simpa using he
    refine (accept_runs _ s₁).bind fun _ s₂ _ _ _ => .ite (fun _ => ?_) fun _ => ?_
    · refine (h s₂).bind fun key s₃ _ _ hkey => (expectPunctuator_runs _ s₃).bind
        fun _ s₄ _ _ _ => (closeNode_runs _ s₄).bind fun node s₅ _ _ _ =>
          ih (e := .element node e key) ⟨hform, ?_⟩ rfl s₅
      simpa using ⟨he, hkey.1⟩
    refine (isAt_runs _ s₂).bind fun _ s₃ _ _ _ => .ite (fun _ => ?_) fun _ => .pure ⟨he, hform⟩
    refine (arguments_groups h s₃).bind fun values s₄ _ _ hvalues => (closeNode_runs _ s₄).bind
      fun node s₅ _ _ _ => ih (e := .call node e values) ⟨hform, ?_⟩ rfl s₅
    exact List.forall_mem_cons.mpr ⟨he, hvalues⟩

/-- A primary expression with what follows it is grouped and may have more after it. -/
theorem access_groups : Groups text Expr.takesAccess (access assignment) := fun s =>
  (primary_groups h s).bind fun _ s₁ _ _ he => (remaining_runs s₁).bind
    fun limit s₂ _ _ _ => accessTail_groups h limit he.1 he.2 s₂

/-- An expression with operators in front is grouped. -/
theorem unary_groups {operand? : Option (Parse Expr)}
    (hoperand : ∀ operand, operand? = some operand → Groups text Expr.takesUnary operand) :
    Groups text Expr.takesUnary (unary assignment operand?) := by
  intro s
  refine (current_runs s).bind fun token s₁ _ _ _ => ?_
  split
  · exact (access_groups h).mono (fun _ => Expr.takesUnary_of_takesAccess) s₁
  · exact missing_groups.mono (fun _ => Expr.takesUnary_of_takesAccess) s₁
  · rename_i op operand _
    refine (advance_runs s₁).bind fun _ s₂ _ _ _ => (hoperand operand rfl s₂).bind
      fun e s₃ _ _ he => (closeNode_runs _ s₃).bind fun node _ _ _ _ => .pure ⟨⟨he.2, ?_⟩, rfl⟩
    simpa using he.1

end Access

section Binary

variable {operand : Parse Expr} (hoperand : Groups text Expr.takesUnary operand)
include hoperand

/-- Above a bound the loop takes every operator there is, as long as its limit allows a round for
each token. It keeps that the operator of what was read does not take the operator ahead for its own
right operand. -/
theorem binaryTail_groups (limit : Nat) {bound : Precedence} {left : Expr} {s : ParseState}
    (hlimit : s.ahead.length ≤ limit) (hleft : left.Throughout Expr.Grouped)
    (hform : left.takesBinary = true)
    (habove : ∀ op, left.operator? = some op → bound.rank < op.precedence.rank)
    (hstops : ∀ op, left.operator? = some op → s.StopsAt op.precedence.rightFloor) :
    Runs text (binaryTail operand limit bound left) s fun e s' =>
      e.Throughout Expr.Grouped ∧ e.takesBinary = true ∧
        (∀ op, e.operator? = some op → bound.rank < op.precedence.rank) ∧ s'.StopsAt bound := by
  induction limit generalizing bound left s with
  | zero => exact absurd hlimit (Nat.not_le.mpr (Nat.succ_pos _))
  | succ limit ih =>
    refine (current_runs s).bind fun token s₁ hplaced _ h₁ => ?_
    obtain ⟨rfl, rfl⟩ := h₁
    split
    · rename_i hnone
      exact .pure ⟨hleft, hform, habove, fun op hop => nomatch hnone.symm.trans hop⟩
    · rename_i op hop
      refine .ite (fun hrank => ?_) fun hrank => ?_
      · refine (advance_runs s₁).bind fun _ s₂ _ _ h₂ => ?_
        subst h₂
        -- the operator was taken, so there is a round left for each token after it
        have htaken : s₁.taken.ahead.length ≤ limit := by
          have hahead := (hplaced.ready.took_taken (BinaryOp.ne_endOfText hop)).ahead
          rw [hahead, List.length_append, List.length_singleton] at hlimit
          omega
        refine (hoperand _).bind fun first s₃ _ hleads₃ hfirst => ?_
        have hroom₃ := Nat.le_trans hleads₃.ahead.length_le htaken
        have hnone := Expr.operator?_of_takesUnary hfirst.2
        refine (ih hroom₃ hfirst.1 (Expr.takesBinary_of_takesUnary hfirst.2)
          (by simp [hnone]) (by simp [hnone])).bind fun right s₄ _ hleads₄ hright => ?_
        obtain ⟨hright, hrightForm, hrightAbove, hrightStops⟩ := hright
        refine (closeNode_runs _ s₄).bind fun node s₅ _ _ h₅ => ?_
        obtain ⟨-, rfl⟩ := h₅
        have hroom₄ := Nat.le_trans hleads₄.ahead.length_le hroom₃
        have hgrouped : (Expr.binary node left op s₁.current.span right).Grouped :=
          Expr.grouped_binary hform hrightForm
            (fun inner hinner => hstops inner hinner op hop) hrightAbove
        refine ih hroom₄ ⟨hgrouped, ?_⟩ rfl ?_ ?_
        · simpa using ⟨hleft, hright⟩
        · rintro _ ⟨⟩
          exact hrank
        · rintro _ ⟨⟩
          exact hrightStops
      · refine .pure ⟨hleft, hform, habove, fun other hother => ?_⟩
        cases hop.symm.trans hother
        exact Nat.not_lt.mp hrank

/-- Operands joined by operators are grouped by precedence. -/
theorem binary_groups : Groups text Expr.takesBinary (binary operand) := by
  intro s
  refine (hoperand s).bind fun left s₁ _ _ hleft => .bind (.of_run (remaining_run s₁) fun h =>
    ⟨h, .refl s₁, rfl, rfl⟩) fun limit s₂ _ _ (h₂ : limit = s₁.ahead.length ∧ s₂ = s₁) => ?_
  obtain ⟨rfl, rfl⟩ := h₂
  have hnone := Expr.operator?_of_takesUnary hleft.2
  exact (binaryTail_groups hoperand _ (Nat.le_refl _) hleft.1
    (Expr.takesBinary_of_takesUnary hleft.2) (by simp [hnone]) (by simp [hnone])).mono
      fun e _ _ _ he => ⟨he.1, he.2.1⟩

variable {assignment : Parse Expr} (h : GroupsAny text assignment)
include h

/-- A choice is grouped: its condition may stand beside a binary operator. -/
theorem conditional_groups : GroupsAny text (conditional assignment operand) := by
  intro s
  refine (binary_groups hoperand s).bind fun condition s₁ _ _ hcondition =>
    (accept_runs _ s₁).bind fun _ s₂ _ _ _ => .ite (fun _ => ?_) fun _ => .pure ⟨hcondition.1, rfl⟩
  refine (h s₂).bind fun whenTrue s₃ _ _ htrue => (expectPunctuator_runs _ s₃).bind
    fun _ s₄ _ _ _ => (h s₄).bind fun whenFalse s₅ _ _ hfalse => (closeNode_runs _ s₅).bind
      fun node _ _ _ _ => .pure ⟨⟨trivial, ?_⟩, rfl⟩
  simpa using ⟨hcondition.1, htrue.1, hfalse.1⟩

/-- An assignment is grouped: its target may stand beside a binary operator. -/
theorem assignment_groups : GroupsAny text (Parse.assignment assignment operand) := by
  intro s
  refine (conditional_groups hoperand h s).bind fun target s₁ _ _ htarget =>
    (accept?_runs _ s₁).bind fun mark s₂ _ _ _ => ?_
  split
  · refine (h s₂).bind fun value s₃ _ _ hvalue => (closeNode_runs _ s₃).bind
      fun node _ _ _ _ => .pure ⟨⟨trivial, ?_⟩, rfl⟩
    simpa using ⟨htarget.1, hvalue.1⟩
  · exact .pure ⟨htarget.1, rfl⟩

end Binary

/-- Nested expressions are grouped at every depth. -/
theorem nested_groups (depth : Nat) :
    GroupsAny text (nested depth).assignment ∧
      Groups text Expr.takesUnary (nested depth).unary := by
  induction depth with
  | zero =>
    have hmissing : GroupsAny text missing := missing_groups.mono fun _ _ => rfl
    exact ⟨hmissing, unary_groups hmissing nofun⟩
  | succ depth ih =>
    have houter := assignment_groups ih.2 ih.1
    refine ⟨houter, unary_groups houter ?_⟩
    rintro _ ⟨⟩
    exact ih.2

/-- Every node of a whole expression is grouped, whatever was reported. -/
theorem wholeExpression_groups : GroupsAny text wholeExpression := by
  intro s
  refine ((nested_groups depthLimit).1 s).bind fun e s₁ _ _ he => (current_runs s₁).bind
    fun token s₂ _ _ _ => .ite (fun _ => .pure he) fun _ => ?_
  exact (report_runs _ s₂).bind fun _ _ _ _ _ => .pure he

end Parse

/-- In every parsed expression each operation has operands that its operator may have, and members,
elements and calls follow no operation, choice or assignment. -/
theorem Expr.parse_grouped (text : String) : (Expr.parse text).tree.Throughout Expr.Grouped :=
  (Parse.wholeExpression_groups _ (ParseState.Placed.initial text.toList)).2.2.1

end ExpressionTyping
