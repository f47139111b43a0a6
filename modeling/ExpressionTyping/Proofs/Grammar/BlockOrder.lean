import ExpressionTyping.Proofs.Grammar.FilePlacement

/-!
# The order of blocks

The blocks of a file stand in order, and a block inside another one stands inside its bounds. This
holds of blocks that are never closed too: they end where the token taken last ended, so what comes
after them starts there or later.

The invariant is `nestsAll`: statements are parted by offsets that do not go down, and each block
lies between the two offsets around it. A loop over statements parts them by where the token taken
last stopped.
-/

set_option autoImplicit false

namespace ExpressionTyping

mutual

/-- The blocks of a statement stand between two offsets, in order and inside each other. -/
def Statement.Nests (low high : Nat) : Statement → Prop
  | .block node body =>
    low ≤ node.span.start ∧ nestsAll node.span.start node.span.stop body ∧ node.span.stop ≤ high
  | _ => low ≤ high

/-- The blocks of statements stand between two offsets, in order and inside each other. -/
def nestsAll (low high : Nat) : List Statement → Prop
  | [] => low ≤ high
  | first :: rest => ∃ middle, first.Nests low middle ∧ nestsAll middle high rest

end

/-- Statements whose blocks stand between two offsets have the offsets in order. -/
theorem nestsAll_le {low high : Nat} {list : List Statement} (h : nestsAll low high list) :
    low ≤ high := by
  match list with
  | [] => exact h
  | first :: rest =>
    obtain ⟨middle, hfirst, hrest⟩ := h
    have hmiddle := nestsAll_le hrest
    cases first with
    | block node body =>
      obtain ⟨hlow, hbody, hhigh⟩ := hfirst
      have hspan := nestsAll_le hbody
      omega
    | _ => exact Nat.le_trans hfirst hmiddle

/-- The blocks of a statement also stand between offsets further apart. -/
theorem Statement.Nests.mono {low low' high high' : Nat} {statement : Statement}
    (h : statement.Nests low high) (hlow : low' ≤ low) (hhigh : high ≤ high') :
    statement.Nests low' high' := by
  cases statement with
  | block node body => exact ⟨Nat.le_trans hlow h.1, h.2.1, Nat.le_trans h.2.2 hhigh⟩
  | _ => exact Nat.le_trans (Nat.le_trans hlow h) hhigh

/-- The blocks of statements also stand between offsets further apart. -/
theorem nestsAll.mono {low low' high high' : Nat} {list : List Statement}
    (h : nestsAll low high list) (hlow : low' ≤ low) (hhigh : high ≤ high') :
    nestsAll low' high' list := by
  induction list generalizing low low' with
  | nil => exact Nat.le_trans (Nat.le_trans hlow h) hhigh
  | cons first rest ih =>
    obtain ⟨middle, hfirst, hrest⟩ := h
    exact ⟨middle, hfirst.mono hlow (Nat.le_refl _), ih hrest (Nat.le_refl _)⟩

/-- Whether a statement is a block. -/
def Statement.isBlock : Statement → Bool
  | .block _ _ => true
  | _ => false

/-- A statement other than a block has no blocks to place. -/
theorem Statement.Nests.of_not_isBlock {low high : Nat} {statement : Statement}
    (h : statement.isBlock = false) (hle : low ≤ high) : statement.Nests low high := by
  cases statement with
  | block node body => cases h
  | _ => exact hle

namespace Parse

open ParseState

variable {text : List Char}

/-- A parse that reads a statement between where the tokens taken before and after it stopped. -/
def NestsStatement (text : List Char) (p : Parse Statement) : Prop :=
  ∀ s, Runs text p s fun statement s' => statement.Nests s.previousStop s'.previousStop

/-- A parse that reads statements between where the tokens taken before and after them stopped. -/
def NestsStatements (text : List Char) (p : Parse (List Statement)) : Prop :=
  ∀ s, Runs text p s fun statements s' => nestsAll s.previousStop s'.previousStop statements

/-- A parse that reads a statement other than a block. -/
def ReadsNoBlock (p : Parse Statement) : Prop :=
  ∀ s, (p.run s).1.isBlock = false

namespace ReadsNoBlock

/-- A parse that gives a statement other than a block reads no block. -/
theorem pure {statement : Statement} (h : statement.isBlock = false) :
    ReadsNoBlock (pure statement) :=
  fun _ => h

/-- What is read first does not matter to whether a block is given. -/
theorem bind {α : Type} {p : Parse α} {f : α → Parse Statement} (h : ∀ a, ReadsNoBlock (f a)) :
    ReadsNoBlock (p >>= f) :=
  fun s => h (p.run s).1 (p.run s).2

/-- A parse reads no block when neither of its branches does. -/
theorem ite {c : Prop} [Decidable c] {p q : Parse Statement} (hp : ReadsNoBlock p)
    (hq : ReadsNoBlock q) : ReadsNoBlock (if c then p else q) := by
  split
  · exact hp
  · exact hq

end ReadsNoBlock

/-- Variable declarations are no block. -/
theorem variableStatement_readsNoBlock (start : Nat) (ambient : Bool) (form : VariableForm) :
    ReadsNoBlock (variableStatement start ambient form) :=
  .bind fun _ => .bind fun _ => .bind fun _ => .bind fun _ => .bind fun _ => .bind fun _ =>
    .bind fun _ => .pure rfl

/-- A function declaration is no block. -/
theorem functionDeclaration_readsNoBlock (start : Nat) (ambient : Bool) :
    ReadsNoBlock (functionDeclaration start ambient) :=
  .bind fun _ => .bind fun _ => .bind fun _ => .bind fun _ => .bind fun _ => .bind fun _ =>
    .pure rfl

/-- An interface declaration is no block. -/
theorem interfaceDeclaration_readsNoBlock (start : Nat) :
    ReadsNoBlock (interfaceDeclaration start) :=
  .bind fun _ => .bind fun _ => .bind fun _ => .bind fun _ => .pure rfl

/-- An alias declaration is no block. -/
theorem aliasDeclaration_readsNoBlock (start : Nat) : ReadsNoBlock (aliasDeclaration start) :=
  .bind fun _ => .bind fun _ => .bind fun _ => .bind fun _ => .bind fun _ => .bind fun _ =>
    .pure rfl

/-- An expression statement is no block. -/
theorem expressionStatement_readsNoBlock : ReadsNoBlock expressionStatement :=
  .bind fun _ => .bind fun _ => .bind fun _ => .bind fun _ => .pure rfl

/-- Whatever a statement that does not start with a brace turns out to be, it is no block. -/
theorem declaration_readsNoBlock (start : Nat) (ambient : Bool) :
    ReadsNoBlock (declaration start ambient) := by
  refine .bind fun token => ?_
  split
  · exact variableStatement_readsNoBlock start ambient .hoisted
  · exact variableStatement_readsNoBlock start ambient .constant
  · exact .bind fun _ => .ite (variableStatement_readsNoBlock start ambient .block)
      expressionStatement_readsNoBlock
  · exact functionDeclaration_readsNoBlock start ambient
  · exact .bind fun _ => .ite (interfaceDeclaration_readsNoBlock start)
      expressionStatement_readsNoBlock
  · exact .bind fun _ => .ite (aliasDeclaration_readsNoBlock start)
      expressionStatement_readsNoBlock
  · exact expressionStatement_readsNoBlock

/-- A statement that does not start with a brace has no blocks, so they stand where it was read. -/
theorem declaration_nests (start : Nat) (ambient : Bool) :
    NestsStatement text (declaration start ambient) := by
  intro s hplaced
  obtain ⟨hplaced', hleads, -⟩ := declaration_places start ambient s hplaced
  exact ⟨hplaced', hleads,
    .of_not_isBlock (declaration_readsNoBlock start ambient s) hleads.previousStop⟩

/-- A statement has its blocks where it was read, if the statements in braces have theirs there. -/
theorem statement_nests {body : Parse (List Statement)} (h : NestsStatements text body) :
    NestsStatement text (statement body) := by
  intro s
  refine (current_runs s).bind fun token s₁ hplaced _ hs₁ => ?_
  obtain ⟨rfl, rfl⟩ := hs₁
  split
  · refine (advance_runs _).bind fun _ s₂ _ hleads₂ _ => (newNode_runs _ s₂).bind
      fun node s₃ _ hleads₃ _ => .pure ?_
    exact (hleads₂.trans hleads₃).previousStop
  · refine (advance_runs _).bind fun _ s₂ _ _ h₂ => ?_
    subst h₂
    refine (h _).bind fun statements s₃ _ hleads₃ hstatements => (expectPunctuator_runs _ s₃).bind
      fun _ s₄ _ hleads₄ _ => (closeNode_runs _ s₄).bind fun node s₅ _ hleads₅ hnode => .pure ?_
    obtain ⟨rfl, rfl⟩ := hnode
    -- the opening brace was taken, and the body comes after it
    exact ⟨hplaced.behind, hstatements.mono hplaced.start_le_taken hleads₄.previousStop,
      Nat.le_refl _⟩
  · refine (nextKind_runs _).bind fun kind s₂ _ _ hs₂ => ?_
    subst hs₂
    refine .ite (fun _ => ?_) fun _ => declaration_nests _ false _
    refine (advance_runs _).bind fun _ s₃ _ hleads₃ _ => ?_
    refine (declaration_nests _ true s₃).mono fun statement s₄ _ _ hstatement => ?_
    exact hstatement.mono hleads₃.previousStop (Nat.le_refl _)
  · exact declaration_nests _ false _

/-- Statements up to a closing brace have their blocks where they were read, one after the other. -/
theorem statementsTail_nests (limit : Nat) : NestsStatements text (statementsTail limit) := by
  induction limit with
  | zero => exact fun s => .pure (Nat.le_refl _)
  | succ limit ih =>
    intro s
    refine (isAt_runs _ s).bind fun ending s₁ _ hleads₁ _ => (isAt_runs _ s₁).bind
      fun closing s₂ _ hleads₂ _ => .ite (fun _ => .pure (hleads₁.trans hleads₂).previousStop)
      fun _ => (current_runs s₂).bind fun token s₃ _ hleads₃ _ => (statement_nests ih s₃).bind
      fun first s₄ _ _ hfirst => (current_runs s₄).bind fun next s₅ _ hleads₅ _ => ?_
    have hbefore := (hleads₁.trans hleads₂).trans hleads₃
    -- the loop goes on from where the statement ended, or from the token after it
    have hrest (s₆ : ParseState) (hleads : s₄.Leads s₆) :
        Runs text (do return first :: (← statementsTail limit)) s₆ fun statements s' =>
          nestsAll s.previousStop s'.previousStop statements := by
      refine (ih s₆).bind fun others s₇ _ _ hothers => .pure ⟨s₆.previousStop, ?_, hothers⟩
      exact hfirst.mono hbefore.previousStop hleads.previousStop
    refine .ite (fun _ => ?_) fun _ => hrest s₅ hleads₅
    exact (report_runs _ s₅).bind fun _ s₆ _ hleads₆ _ => (advance_runs s₆).bind
      fun _ s₇ _ hleads₇ _ => hrest s₇ ((hleads₅.trans hleads₆).trans hleads₇)

/-- The statements in a block, to any depth, have their blocks where they were read. -/
theorem statements_nests : NestsStatements text statements := by
  intro s
  refine (remaining_runs s).bind fun limit s₁ _ _ h₁ => ?_
  subst h₁
  exact statementsTail_nests limit _

end Parse

/-- In a parsed file the node of the file covers the whole text, and the blocks stand in it in order
and inside each other, whether or not they are closed. -/
theorem SourceFile.parse_nests (name text : String) :
    (SourceFile.parse name text).tree.node.span = ⟨0, text.length⟩ ∧
      nestsAll 0 text.length (SourceFile.parse name text).tree.statements := by
  rw [← String.length_toList]
  have hfile (s : ParseState) (hstart : s.previousStop = 0) :
      Parse.Runs text.toList (Parse.wholeFile name text.toList) s fun file _ =>
        file.node.span = ⟨0, text.toList.length⟩ ∧
          nestsAll 0 text.toList.length file.statements := by
    refine (Parse.statements_nests s).bind fun content s₁ hplaced₁ _ hcontent =>
      (Parse.newNode_runs _ s₁).bind fun node s₂ _ _ hnode => .pure ?_
    obtain ⟨rfl, -⟩ := hnode
    have hwithin := hplaced₁.within
    have hstop := Nat.le_trans hplaced₁.behind (Nat.le_trans hwithin.ordered hwithin.bounded)
    exact ⟨rfl, hcontent.mono (Nat.le_of_eq hstart.symm) hstop⟩
  have hplaced := ParseState.Placed.initial text.toList
  exact (hfile _ (by cases Token.ofText Alphabet.standard text.toList <;> rfl) hplaced).2.2

end ExpressionTyping
