import ExpressionTyping.Proofs.Grammar.FileCoverage
import ExpressionTyping.Proofs.Grammar.Placement

/-!
# Where the parts of a file stand

Not every node of a declaration file has its bounds in order: a parameter without a name, for
instance, is closed without a token of its own. What others rely on is in order all the same. Names
stand where a token stands, or have no width; a block has taken its opening brace. A type annotation
that is written as a keyword is the type of that word, since every other form of type has a
character in it that is no letter, or is a word of its own.

Nodes are numbered as they are closed, so what is declared later in a file has a higher number.
-/

set_option autoImplicit false

namespace ExpressionTyping

/-! ## Type annotations -/

mutual

/-- The names that a type annotation refers to lie in a text of a given length. -/
inductive TypeNode.NamesIn (length : Nat) : TypeNode → Prop where
  | word {node : Node} {word : TypeWord} : TypeNode.NamesIn length (.word node word)
  | literal {node constant : Node} {value : Literal} :
      TypeNode.NamesIn length (.literal node constant value)
  | reference {node : Node} {name : Identifier} (h : name.node.span.Within length) :
      TypeNode.NamesIn length (.reference node name)
  | array {node : Node} {element : TypeNode} (h : TypeNode.NamesIn length element) :
      TypeNode.NamesIn length (.array node element)
  | union {node : Node} {members : List TypeNode}
      (h : ∀ member ∈ members, TypeNode.NamesIn length member) :
      TypeNode.NamesIn length (.union node members)
  | function {node : Node} {parameters : List Parameter} {result : TypeNode}
      (hparameters : ∀ parameter ∈ parameters, Parameter.NamesIn length parameter)
      (hresult : TypeNode.NamesIn length result) :
      TypeNode.NamesIn length (.function node parameters result)
  | object {node : Node} {members : List TypeElement}
      (h : ∀ member ∈ members, TypeElement.NamesIn length member) :
      TypeNode.NamesIn length (.object node members)
  | parenthesized {node : Node} {inner : TypeNode} (h : TypeNode.NamesIn length inner) :
      TypeNode.NamesIn length (.parenthesized node inner)

/-- The names that the type of a parameter refers to lie in a text. -/
inductive Parameter.NamesIn (length : Nat) : Parameter → Prop where
  | mk {node : Node} {rest : Option Span} {name : Identifier} {type? : Option TypeNode}
      (h : ∀ type, type? = some type → TypeNode.NamesIn length type) :
      Parameter.NamesIn length (.mk node rest name type?)

/-- The names that the types of a member refer to lie in a text. -/
inductive TypeElement.NamesIn (length : Nat) : TypeElement → Prop where
  | property {node : Node} {name : Identifier} {type? : Option TypeNode}
      (h : ∀ type, type? = some type → TypeNode.NamesIn length type) :
      TypeElement.NamesIn length (.property node name type?)
  | method {node : Node} {name : Identifier} {parameters : List Parameter}
      {result : Option TypeNode}
      (hparameters : ∀ parameter ∈ parameters, Parameter.NamesIn length parameter)
      (hresult : ∀ type, result = some type → TypeNode.NamesIn length type) :
      TypeElement.NamesIn length (.method node name parameters result)

end

/-- A type annotation that is written as the keyword of a word is the type of that word. -/
def TypeNode.Keyworded (text : List Char) (type : TypeNode) : Prop :=
  ∀ word : TypeWord, type.node.span.cut text = word.keyword.spelling →
    ∃ node, type = .word node word

/-- The keyword of a word is read as the word. -/
theorem TypeWord.ofToken?_keyword (word : TypeWord) :
    ofToken? (.keyword word.keyword) = some word := by
  cases word <;> rfl

/-- A type annotation with a character that is no letter is not written as a keyword. -/
theorem TypeNode.keyworded_of_mark {text : List Char} {type : TypeNode} {c : Char}
    (hmem : c ∈ type.node.span.cut text) (hc : c.isAlpha = false) : type.Keyworded text := by
  intro word hcut
  rw [hcut] at hmem
  exact absurd (Keyword.isAlpha hmem) (by simp [hc])

/-- A type annotation that is one token, and no word of a type, is not written as a keyword. -/
theorem TypeNode.keyworded_of_token {text : List Char} {type : TypeNode} {token : Token}
    (hspan : type.node.span = token.span) (hlocated : token.Located Alphabet.standard text)
    (hkind : TypeWord.ofToken? token.kind = none) : type.Keyworded text := by
  intro word hcut
  rw [hspan] at hcut
  rw [hlocated.kind_of_cut hcut, word.ofToken?_keyword] at hkind
  cases hkind

/-- A node that is closed when one token was taken has the span of the token. -/
theorem ParseState.span_taken (s : ParseState) :
    (⟨s.current.span.start, s.taken.previousStop⟩ : Span) = s.current.span := by
  rw [s.taken_previousStop]

namespace Parse

open ParseState

variable {α : Type} {text : List Char}

/-- A punctuator that was taken inside a span has its characters there. -/
theorem mark_mem_cut {s : ParseState} {p : Punctuator} (span : Span) (hplaced : s.Placed text)
    (hkind : s.current.kind = .punctuator p) (hstart : span.start ≤ s.current.span.start)
    (hstop : s.taken.previousStop ≤ span.stop) : ∃ c ∈ span.cut text, c.isAlpha = false := by
  obtain ⟨c, tail, hspelling⟩ := List.exists_cons_of_ne_nil p.spelling_ne_nil
  have hcut := hplaced.current.cut_of_punctuator hkind
  have hmem : c ∈ p.spelling := by
    rw [hspelling]
    exact List.mem_cons_self
  rw [s.taken_previousStop] at hstop
  refine ⟨c, Span.mem_cut_of_mem hstart hstop ?_, Punctuator.not_isAlpha hmem⟩
  rw [hcut]
  exact hmem

/-- A parse that reads types whose names lie in the text and that are keywords where they are
written so. -/
def PlacesType (text : List Char) (p : Parse TypeNode) : Prop :=
  ∀ s, Runs text p s fun type _ => type.NamesIn text.length ∧ type.Keyworded text

/-- A missing type refers to no name and is written as no keyword. -/
theorem missingType_places : PlacesType text missingType := by
  intro s
  refine (report_runs _ s).bind fun _ s₁ _ _ _ => (current_runs s₁).bind fun token s₂ _ _ h₂ =>
    (newNode_runs _ s₂).bind fun node s₃ _ _ h₃ => ?_
  obtain ⟨rfl, rfl⟩ := h₂
  obtain ⟨rfl, -⟩ := h₃
  refine .pure ⟨.word, fun word hcut => ?_⟩
  have hlength : (⟨s₂.current.span.start, s₂.current.span.start⟩ : Span).length = 0 :=
    Nat.sub_self _
  rw [TypeNode.node, Span.cut, hlength, List.take_zero] at hcut
  cases word <;> cases hcut

/-- A type that is closed over a punctuator of its own is not written as a keyword. -/
theorem closeNode_keyworded {s s' : ParseState} {p : Punctuator} {start : Nat}
    (make : Node → TypeNode) (hmake : ∀ node, (make node).node = node) (hplaced : s.Placed text)
    (hkind : s.current.kind = .punctuator p) (hstart : start ≤ s.current.span.start)
    (hstop : s.taken.previousStop ≤ s'.previousStop)
    (hnames : ∀ node, (make node).NamesIn text.length) :
    Runs text (do return make (← closeNode start)) s' fun type _ =>
      type.NamesIn text.length ∧ type.Keyworded text := by
  refine (closeNode_runs start s').bind fun node _ _ _ hnode => .pure ⟨hnames node, ?_⟩
  obtain ⟨rfl, -⟩ := hnode
  obtain ⟨c, hmem, hc⟩ := mark_mem_cut ⟨start, s'.previousStop⟩ hplaced hkind hstart hstop
  refine TypeNode.keyworded_of_mark (c := c) ?_ hc
  rw [hmake]
  exact hmem

section Types

variable {type : Parse TypeNode} (h : PlacesType text type)
include h

/-- The names in an annotation lie in the text. -/
theorem optionalType_runs (s : ParseState) :
    Runs text (optionalType type) s fun written _ =>
      ∀ type, written = some type → type.NamesIn text.length ∧ type.Keyworded text := by
  refine (accept_runs _ s).bind fun colon s₁ _ _ _ => .ite (fun _ => ?_) fun _ => .pure nofun
  refine (h s₁).bind fun written s₂ _ _ hwritten => .pure ?_
  rintro _ ⟨⟩
  exact hwritten

/-- The names in a parameter lie in the text. -/
theorem parameter_runs (s : ParseState) :
    Runs text (parameter type) s fun parameter _ => parameter.NamesIn text.length := by
  refine (current_runs s).bind fun token s₁ _ _ _ => (accept?_runs _ s₁).bind fun rest s₂ _ _ _ =>
    (identifier_runs s₂).bind fun name s₃ _ _ _ => (accept_runs _ s₃).bind fun _ s₄ _ _ _ =>
    (optionalType_runs h s₄).bind fun written s₅ _ _ hwritten =>
    (closeNode_runs _ s₅).bind fun node s₆ _ _ _ => .pure ?_
  exact .mk fun type htype => (hwritten type htype).1

/-- The names in further parameters lie in the text. -/
theorem parametersTail_runs (limit : Nat) (afterRest : Bool) (s : ParseState) :
    Runs text (parametersTail type limit afterRest) s fun parameters _ =>
      ∀ parameter ∈ parameters, parameter.NamesIn text.length := by
  induction limit generalizing afterRest s with
  | zero => exact .pure nofun
  | succ limit ih =>
    -- the rest of a round is the same whether or not a report was made
    have hround (s : ParseState) :
        Runs text (do
          let first ← parameter type
          if ← accept .comma then
            return first :: (← parametersTail type limit first.isRest)
          else return [first]) s fun parameters _ =>
            ∀ parameter ∈ parameters, parameter.NamesIn text.length := by
      refine (parameter_runs h s).bind fun first s₁ _ _ hfirst => (accept_runs _ s₁).bind
        fun comma s₂ _ _ _ => .ite (fun _ => ?_) fun _ => .pure (by simpa using hfirst)
      refine (ih _ s₂).bind fun others s₃ _ _ hothers => .pure ?_
      exact List.forall_mem_cons.mpr ⟨hfirst, hothers⟩
    refine (isAt_runs _ s).bind fun closing s₁ _ _ _ => (isAt_runs _ s₁).bind fun ending s₂ _ _ _ =>
      .ite (fun _ => .pure nofun) fun _ => ?_
    cases afterRest with
    | true => exact (report_runs _ s₂).bind fun _ s₃ _ _ _ => hround s₃
    | false => exact hround s₂

/-- The names in parameters lie in the text, and parentheses make them stop behind the opening
one. -/
theorem parameters_runs (s : ParseState) :
    Runs text (parameters type) s fun parameters s' =>
      (∀ parameter ∈ parameters, parameter.NamesIn text.length) ∧
        (s.current.kind = .punctuator .openParen → s.taken.previousStop ≤ s'.previousStop) := by
  refine (expectPunctuator_runs _ s).bind fun _ s₁ _ _ h₁ => (remaining_runs s₁).bind
    fun limit s₂ _ hleads₂ _ => (parametersTail_runs h limit false s₂).bind
    fun values s₃ _ hleads₃ hvalues => (expectPunctuator_runs _ s₃).bind
    fun _ s₄ _ hleads₄ _ => .pure ⟨hvalues, fun hkind => ?_⟩
  rw [← h₁ hkind]
  exact ((hleads₂.trans hleads₃).trans hleads₄).previousStop

/-- The names in a member lie in the text. -/
theorem element_runs (s : ParseState) :
    Runs text (element type) s fun member _ => member.NamesIn text.length := by
  refine (current_runs s).bind fun token s₁ _ _ _ => (memberName_runs s₁).bind
    fun name s₂ _ _ _ => (accept_runs _ s₂).bind fun _ s₃ _ _ _ => (isAt_runs _ s₃).bind
    fun paren s₄ _ _ _ => .ite (fun _ => ?_) fun _ => ?_
  · refine (parameters_runs h s₄).bind fun values s₅ _ _ hvalues => (optionalType_runs h s₅).bind
      fun result s₆ _ _ hresult => (closeNode_runs _ s₆).bind fun node s₇ _ _ _ => .pure ?_
    exact .method hvalues.1 fun type htype => (hresult type htype).1
  · refine (optionalType_runs h s₄).bind fun written s₅ _ _ hwritten => (closeNode_runs _ s₅).bind
      fun node s₆ _ _ _ => .pure ?_
    exact .property fun type htype => (hwritten type htype).1

/-- The names in further members lie in the text. -/
theorem elementsTail_runs (limit : Nat) (s : ParseState) :
    Runs text (elementsTail type limit) s fun members _ =>
      ∀ member ∈ members, member.NamesIn text.length := by
  induction limit generalizing s with
  | zero => exact .pure nofun
  | succ limit ih =>
    refine (isAt_runs _ s).bind fun closing s₁ _ _ _ => (isAt_runs _ s₁).bind fun ending s₂ _ _ _ =>
      .ite (fun _ => .pure nofun) fun _ => (current_runs s₂).bind fun token s₃ _ _ _ =>
      (element_runs h s₃).bind fun first s₄ _ _ hfirst => ?_
    -- whatever follows a member, the loop goes on from there
    have hrest (s : ParseState) :
        Runs text (do return first :: (← elementsTail type limit)) s fun members _ =>
          ∀ member ∈ members, member.NamesIn text.length :=
      (ih s).bind fun others s₆ _ _ hothers => .pure (List.forall_mem_cons.mpr ⟨hfirst, hothers⟩)
    have hstuck (s : ParseState) :
        Runs text (do
          if (← current).span.start = token.span.start then advance
          return first :: (← elementsTail type limit)) s fun members _ =>
            ∀ member ∈ members, member.NamesIn text.length :=
      (current_runs s).bind fun _ s₅ _ _ _ => .ite
        (fun _ => (advance_runs s₅).bind fun _ s₆ _ _ _ => hrest s₆) fun _ => hrest s₅
    refine (accept_runs _ s₄).bind fun semicolon s₅ _ _ _ => ?_
    cases semicolon with
    | true => exact hstuck s₅
    | false => exact (accept_runs _ s₅).bind fun _ s₆ _ _ _ => hstuck s₆

/-- The names in members lie in the text, and braces make them stop behind the opening one. -/
theorem elements_runs (s : ParseState) :
    Runs text (elements type) s fun members s' =>
      (∀ member ∈ members, member.NamesIn text.length) ∧
        (s.current.kind = .punctuator .openBrace → s.taken.previousStop ≤ s'.previousStop) := by
  refine (expectPunctuator_runs _ s).bind fun _ s₁ _ _ h₁ => (remaining_runs s₁).bind
    fun limit s₂ _ hleads₂ _ => (elementsTail_runs h limit s₂).bind
    fun members s₃ _ hleads₃ hmembers => (expectPunctuator_runs _ s₃).bind
    fun _ s₄ _ hleads₄ _ => .pure ⟨hmembers, fun hkind => ?_⟩
  rw [← h₁ hkind]
  exact ((hleads₂.trans hleads₃).trans hleads₄).previousStop

/-- The names in a primary type lie in the text, and a keyword is the type of its word. -/
theorem primaryType_places : PlacesType text (primaryType type) := by
  intro s
  refine (current_runs s).bind fun token s₁ hplaced _ hs₁ => ?_
  obtain ⟨rfl, rfl⟩ := hs₁
  split
  · rename_i word _ hword
    refine (advance_runs _).bind fun _ s₂ _ _ _ => (newNode_runs _ s₂).bind fun node s₃ _ _ hnode =>
      .pure ⟨.word, fun word' hcut => ?_⟩
    obtain ⟨rfl, -⟩ := hnode
    have hkind := hplaced.current.kind_of_cut hcut
    rw [hkind, word'.ofToken?_keyword] at hword
    cases hword
    exact ⟨_, rfl⟩
  · rename_i value hword hvalue
    refine (advance_runs _).bind fun _ s₂ _ _ h₂ => (newNode_runs _ s₂).bind
      fun constant s₃ _ _ h₃ => (closeNode_runs _ s₃).bind fun node s₄ _ _ hnode =>
      .pure ⟨.literal, ?_⟩
    obtain ⟨rfl, -⟩ := hnode
    obtain ⟨-, rfl⟩ := h₃
    subst h₂
    exact TypeNode.keyworded_of_token s₁.span_taken hplaced.current hword
  · rename_i hword _
    refine .ite (fun hkind => ?_) fun _ => .ite (fun hkind => ?_) fun _ => .ite (fun hname => ?_)
      fun _ => missingType_places _
    · refine (elements_runs h _).bind fun members s₂ _ _ hmembers => ?_
      exact closeNode_keyworded (.object · members) (fun _ => rfl) hplaced hkind (Nat.le_refl _)
        (hmembers.2 hkind) fun _ => .object hmembers.1
    · refine .bind (.of_run (startsFunctionType_run s₁) fun h => ⟨h, .refl _, rfl⟩)
        (P := fun _ s' => s' = s₁) fun starts s₂ _ _ hs₂ => ?_
      subst hs₂
      refine .ite (fun _ => ?_) fun _ => ?_
      · refine (parameters_runs h _).bind fun values s₃ _ _ hvalues =>
          (expectPunctuator_runs _ s₃).bind fun _ s₄ _ hleads₄ _ =>
          (h s₄).bind fun result s₅ _ hleads₅ hresult => ?_
        have hstop := hvalues.2 hkind
        have hstop' := (hleads₄.trans hleads₅).previousStop
        exact closeNode_keyworded (.function · values result) (fun _ => rfl) hplaced hkind
          (Nat.le_refl _) (by omega) fun _ => .function hvalues.1 hresult.1
      · refine (advance_runs _).bind fun _ s₃ _ _ h₃ => ?_
        subst h₃
        refine (h _).bind fun inner s₄ _ hleads₄ hinner => (expectPunctuator_runs _ s₄).bind
          fun _ s₅ _ hleads₅ _ => ?_
        exact closeNode_keyworded (.parenthesized · inner) (fun _ => rfl) hplaced hkind
          (Nat.le_refl _) (hleads₄.trans hleads₅).previousStop fun _ => .parenthesized hinner.1
    · refine .bind (.of_run (identifier_run hname) fun h =>
        ⟨h.taken.numbered, h.leads_taken.trans (leads_numbered _), rfl⟩)
        (P := fun name s' => (name, s') =
          (⟨⟨s₁.taken.nextId, s₁.current.span⟩, s₁.current.value⟩, s₁.taken.numbered))
        fun name s₂ _ _ hname => ?_
      cases hname
      refine (closeNode_runs _ _).bind fun node s₃ _ _ hnode =>
        .pure ⟨.reference hplaced.within, ?_⟩
      obtain ⟨rfl, -⟩ := hnode
      exact TypeNode.keyworded_of_token s₁.span_taken hplaced.current hword

omit h in
/-- Brackets after a type add no name, and an array is not written as a keyword. -/
theorem arrayTail_runs (start limit : Nat) (s : ParseState) (hstart : start ≤ s.current.span.start)
    {element : TypeNode} (helement : element.NamesIn text.length ∧ element.Keyworded text) :
    Runs text (arrayTail start limit element) s fun type _ =>
      type.NamesIn text.length ∧ type.Keyworded text := by
  induction limit generalizing s element with
  | zero => exact .pure helement
  | succ limit ih =>
    refine (current_runs s).bind fun token s₁ hplaced _ hs₁ => ?_
    obtain ⟨rfl, rfl⟩ := hs₁
    refine .ite (fun hbracket => ?_) fun _ => .pure helement
    have hkind : s₁.current.kind = .punctuator .openBracket := by
      simp only [Bool.and_eq_true, decide_eq_true_eq] at hbracket
      exact hbracket.1
    refine (advance_runs _).bind fun _ s₂ _ hleads₂ h₂ => ?_
    subst h₂
    refine (expectPunctuator_runs _ _).bind fun _ s₃ _ hleads₃ _ => ?_
    have harray := closeNode_keyworded (.array · element) (fun _ => rfl) hplaced hkind hstart
      hleads₃.previousStop fun _ => .array helement.1
    have hforward := (hleads₂.trans hleads₃).start
    refine Runs.bind (P := fun node s₄ => ((TypeNode.array node element).NamesIn text.length ∧
        (TypeNode.array node element).Keyworded text) ∧ s₄ = s₃.numbered) ?_
      fun node s₄ _ _ hnode => ?_
    · intro hs₃
      obtain ⟨hplaced', hleads', hpost⟩ := harray hs₃
      exact ⟨hplaced', hleads', hpost, rfl⟩
    · obtain ⟨harray, rfl⟩ := hnode
      exact ih s₃.numbered (Nat.le_trans hstart hforward) harray

/-- The names in an array type lie in the text, and a keyword is the type of its word. -/
theorem arrayType_places : PlacesType text (arrayType type) := by
  intro s
  refine (current_runs s).bind fun token s₁ _ _ hs₁ => ?_
  obtain ⟨rfl, rfl⟩ := hs₁
  refine (primaryType_places h _).bind fun element s₂ _ hleads₂ helement => (remaining_runs s₂).bind
    fun limit s₃ _ hleads₃ _ => ?_
  exact arrayTail_runs _ limit s₃ (hleads₂.trans hleads₃).start helement

/-- The names in further members of a union lie in the text, and there are such members only after a
bar. -/
theorem unionTail_runs (limit : Nat) (s : ParseState) :
    Runs text (unionTail type limit) s fun members s' =>
      (∀ member ∈ members, member.NamesIn text.length) ∧
        (members ≠ [] → s.current.kind = .punctuator .bar ∧
          s.taken.previousStop ≤ s'.previousStop) := by
  induction limit generalizing s with
  | zero => exact .pure ⟨nofun, fun h => absurd rfl h⟩
  | succ limit ih =>
    refine (accept_runs _ s).bind fun bar s₁ _ _ h₁ => ?_
    rcases h₁ with ⟨hkind, rfl, rfl⟩ | ⟨rfl, rfl⟩
    · refine (arrayType_places h _).bind fun member s₂ _ hleads₂ hmember => (ih s₂).bind
        fun others s₃ _ hleads₃ hothers => .pure ⟨?_, fun _ => ⟨hkind, ?_⟩⟩
      · exact List.forall_mem_cons.mpr ⟨hmember.1, hothers.1⟩
      · exact (hleads₂.trans hleads₃).previousStop
    · exact .pure ⟨nofun, fun h => absurd rfl h⟩

/-- The names in a union lie in the text, and a keyword is the type of its word. -/
theorem unionType_places : PlacesType text (unionType type) := by
  intro s
  refine (current_runs s).bind fun token s₁ _ _ hs₁ => ?_
  obtain ⟨rfl, rfl⟩ := hs₁
  refine (accept_runs _ _).bind fun _ s₂ _ hleads₂ _ => (arrayType_places h s₂).bind
    fun first s₃ _ hleads₃ hfirst => (remaining_runs s₃).bind fun limit s₄ hplaced₄ hleads₄ _ =>
    (unionTail_runs h limit s₄).bind fun others s₅ _ _ hothers => ?_
  cases others with
  | nil => exact .pure hfirst
  | cons other others =>
    obtain ⟨hkind, hstop⟩ := hothers.2 (List.cons_ne_nil _ _)
    have hstart := ((hleads₂.trans hleads₃).trans hleads₄).start
    exact closeNode_keyworded (.union · (first :: other :: others)) (fun _ => rfl) hplaced₄ hkind
      hstart hstop fun _ => .union (List.forall_mem_cons.mpr ⟨hfirst.1, hothers.1⟩)

end Types

/-- The names in a type lie in the text, and a keyword is the type of its word. -/
theorem typeNode_places : PlacesType text typeNode := by
  have hnested (depth : Nat) : PlacesType text (nestedType depth) := by
    induction depth with
    | zero => exact missingType_places
    | succ depth ih => exact unionType_places ih
  exact hnested depthLimit

end Parse

/-! ## Statements -/

/-- The name, the type and the value of a declared variable lie in the text. -/
structure VariableDeclaration.Placed (text : List Char) (declaration : VariableDeclaration) :
    Prop where
  name : declaration.name.node.span.Within text.length
  type : ∀ type, declaration.type? = some type → type.NamesIn text.length ∧ type.Keyworded text
  initializer : ∀ e, declaration.initializer = some e → e.Throughout (Expr.InText text.length)

/-- The blocks of a statement and the names in it lie in the text. -/
inductive Statement.Placed (text : List Char) : Statement → Prop where
  | variableList {statement : VariableStatement}
      (h : ∀ declaration ∈ statement.declarations, declaration.Placed text) :
      Statement.Placed text (.variableList statement)
  | function {declaration : FunctionDeclaration}
      (hname : declaration.name.node.span.Within text.length)
      (hparameters : ∀ parameter ∈ declaration.parameters, parameter.NamesIn text.length)
      (hresult : ∀ type, declaration.result = some type → type.NamesIn text.length) :
      Statement.Placed text (.function declaration)
  | interface {declaration : InterfaceDeclaration}
      (hname : declaration.name.node.span.Within text.length)
      (hmembers : ∀ member ∈ declaration.members, member.NamesIn text.length) :
      Statement.Placed text (.interface declaration)
  | typeAlias {declaration : AliasDeclaration}
      (hname : declaration.name.node.span.Within text.length)
      (htype : declaration.type.NamesIn text.length) :
      Statement.Placed text (.typeAlias declaration)
  | block {node : Node} {statements : List Statement} (hspan : node.span.Within text.length)
      (h : ∀ statement ∈ statements, Statement.Placed text statement) :
      Statement.Placed text (.block node statements)
  | expression {node : Node} {value : Expr} (h : value.Throughout (Expr.InText text.length)) :
      Statement.Placed text (.expression node value)
  | empty {node : Node} : Statement.Placed text (.empty node)

/-- The number of the node of a declaration. -/
def Visit.number? : Visit → Option Nat
  | .variableDecl _ declaration => some declaration.node.id
  | .function declaration => some declaration.node.id
  | .interface declaration => some declaration.node.id
  | .typeAlias declaration => some declaration.node.id
  | .expression _ _ => none

/-- The numbers of the declarations met rise, from a first number on and below another. -/
structure Visit.Rises (first last : Nat) (visits : List Visit) : Prop where
  bounds : ∀ number ∈ visits.filterMap number?, first ≤ number ∧ number < last
  ordered : (visits.filterMap number?).Pairwise (· < ·)

namespace Visit.Rises

/-- Nothing is met, so no numbers have to rise. -/
theorem nil (first last : Nat) : Rises first last [] :=
  ⟨nofun, .nil⟩

/-- What is met alone rises between bounds on its number. -/
theorem single {first last : Nat} {visit : Visit}
    (h : ∀ number, visit.number? = some number → first ≤ number ∧ number < last) :
    Rises first last [visit] := by
  cases hnumber : visit.number? with
  | none => exact ⟨by simp [hnumber], by simp [hnumber]⟩
  | some number => exact ⟨by simpa [hnumber] using h number hnumber, by simp [hnumber]⟩

/-- Numbers that rise up to a bound and then from it on rise together. -/
theorem append {first middle last : Nat} {visits others : List Visit}
    (h : Rises first middle visits) (hothers : Rises middle last others) (hfirst : first ≤ middle)
    (hlast : middle ≤ last) : Rises first last (visits ++ others) := by
  constructor
  · intro number hnumber
    rw [List.filterMap_append] at hnumber
    rcases List.mem_append.mp hnumber with hmem | hmem
    · have := h.bounds number hmem
      omega
    · have := hothers.bounds number hmem
      omega
  · rw [List.filterMap_append, List.pairwise_append]
    refine ⟨h.ordered, hothers.ordered, fun a ha b hb => ?_⟩
    have hlow := h.bounds a ha
    have hhigh := hothers.bounds b hb
    omega

/-- Numbers also rise between bounds further apart. -/
theorem mono {first first' last last' : Nat} {visits : List Visit} (h : Rises first last visits)
    (hfirst : first' ≤ first) (hlast : last ≤ last') : Rises first' last' visits :=
  ⟨fun number hnumber => by have := h.bounds number hnumber; omega, h.ordered⟩

end Visit.Rises

namespace Parse

open ParseState

variable {text : List Char}

/-- A parse that reads a statement of which everything lies in its place. -/
def PlacesStatement (text : List Char) (p : Parse Statement) : Prop :=
  ∀ s, Runs text p s fun statement s' =>
    statement.Placed text ∧ Visit.Rises s.nextId s'.nextId statement.visits

/-- The end of a statement keeps the tokens in place. -/
theorem endStatement_runs (s : ParseState) : Runs text endStatement s fun _ _ => True := by
  refine (current_runs s).bind fun token s₁ _ _ _ => .ite (fun _ => ?_) fun _ => .ite (fun _ => ?_)
    fun _ => ?_
  · exact (advance_runs s₁).mono fun _ _ _ _ _ => trivial
  · exact .pure trivial
  · exact (report_runs _ s₁).mono fun _ _ _ _ _ => trivial

/-- Looking at the next token leaves the state. -/
theorem nextKind_runs (s : ParseState) : Runs text nextKind s fun _ s' => s' = s :=
  .of_run (nextKind_run s) fun h => ⟨h, .refl s, rfl⟩

/-- A variable declaration lies in the text, and its number is one of those given meanwhile. -/
theorem variableDeclaration_runs (s : ParseState) :
    Runs text variableDeclaration s fun declaration s' => declaration.Placed text ∧
      s.nextId ≤ declaration.node.id ∧ declaration.node.id < s'.nextId := by
  refine (current_runs s).bind fun token s₁ _ hleads₁ _ => (identifier_runs s₁).bind
    fun name s₂ _ hleads₂ hname => (optionalType_runs typeNode_places s₂).bind
    fun written s₃ _ hleads₃ hwritten => (accept_runs _ s₃).bind fun equals s₄ _ hleads₄ _ => ?_
  have hclose {s₅ : ParseState} {value : Option Expr} (hleads : s.Leads s₅)
      (hvalue : ∀ e, value = some e → e.Throughout (Expr.InText text.length)) :
      Runs text (do return (⟨← closeNode token.span.start, name, written, value⟩ :
        VariableDeclaration)) s₅ fun declaration s' => declaration.Placed text ∧
          s.nextId ≤ declaration.node.id ∧ declaration.node.id < s'.nextId := by
    refine (closeNode_runs _ s₅).bind fun node s₆ _ _ hnode => ?_
    obtain ⟨rfl, rfl⟩ := hnode
    exact .pure ⟨⟨hname.1, hwritten, hvalue⟩, hleads.nextId, Nat.lt_succ_self _⟩
  have hleads := ((hleads₁.trans hleads₂).trans hleads₃).trans hleads₄
  cases equals with
  | true =>
    refine (expression_places s₄).bind fun value s₅ _ hleads₅ hvalue => ?_
    refine hclose (hleads.trans hleads₅) ?_
    rintro _ ⟨⟩
    exact hvalue.1
  | false => exact hclose hleads nofun

/-- Further variable declarations lie in the text, and their numbers rise. -/
theorem variablesTail_runs (limit : Nat) (s : ParseState) :
    Runs text (variablesTail limit) s fun declarations s' =>
      (∀ declaration ∈ declarations, declaration.Placed text) ∧
        ∀ list : VariableStatement,
          Visit.Rises s.nextId s'.nextId (declarations.map (.variableDecl list)) := by
  induction limit generalizing s with
  | zero => exact .pure ⟨nofun, fun _ => .nil _ _⟩
  | succ limit ih =>
    refine (variableDeclaration_runs s).bind fun first s₁ _ hleads₁ hfirst =>
      (accept_runs _ s₁).bind fun comma s₂ _ hleads₂ _ => ?_
    have hsingle (list : VariableStatement) :
        Visit.Rises s.nextId s₁.nextId [.variableDecl list first] := by
      refine .single ?_
      rintro _ ⟨⟩
      exact hfirst.2
    refine .ite (fun _ => ?_) fun _ => .pure ⟨by simpa using hfirst.1, fun list => ?_⟩
    · refine (ih s₂).bind fun others s₃ _ hleads₃ hothers => .pure ⟨?_, fun list => ?_⟩
      · exact List.forall_mem_cons.mpr ⟨hfirst.1, hothers.1⟩
      · exact ((hsingle list).mono (Nat.le_refl _) hleads₂.nextId).append (hothers.2 list)
          (hleads₁.trans hleads₂).nextId hleads₃.nextId
    · exact (hsingle list).mono (Nat.le_refl _) hleads₂.nextId

/-- A statement that is closed last has the number of that node. -/
theorem closeNode_single {s s' : ParseState} {start : Nat} (make : Node → Statement)
    (hvisits : ∀ node, ∃ visit, (make node).visits = [visit] ∧
      ∀ number, visit.number? = some number → number = node.id)
    (hleads : s.Leads s') (hplaced : ∀ node, (make node).Placed text) :
    Runs text (do return make (← closeNode start)) s' fun statement s'' =>
      statement.Placed text ∧ Visit.Rises s.nextId s''.nextId statement.visits := by
  refine (closeNode_runs _ s').bind fun node s'' _ _ hnode => .pure ⟨hplaced node, ?_⟩
  obtain ⟨rfl, rfl⟩ := hnode
  obtain ⟨visit, hvisit, hnumber⟩ := hvisits ⟨s'.nextId, ⟨start, s'.previousStop⟩⟩
  rw [hvisit]
  refine .single fun number h => ?_
  rw [hnumber number h]
  exact ⟨hleads.nextId, Nat.lt_succ_self _⟩

/-- Everything in a variable statement lies in its place. -/
theorem variableStatement_places (start : Nat) (ambient : Bool) (form : VariableForm) :
    PlacesStatement text (variableStatement start ambient form) := by
  intro s
  refine (current_runs s).bind fun token s₁ _ hleads₁ _ => (advance_runs s₁).bind
    fun _ s₂ _ hleads₂ _ => (remaining_runs s₂).bind fun limit s₃ _ hleads₃ _ =>
    (variablesTail_runs limit s₃).bind fun declarations s₄ _ hleads₄ hdeclarations =>
    (closeNode_runs _ s₄).bind fun list s₅ _ hleads₅ _ => (endStatement_runs s₅).bind
    fun _ s₆ _ hleads₆ _ => (closeNode_runs _ s₆).bind fun node s₇ _ hleads₇ _ => .pure ⟨?_, ?_⟩
  · exact .variableList hdeclarations.1
  · have hbefore := (hleads₁.trans hleads₂).trans hleads₃
    have hafter := (hleads₅.trans hleads₆).trans hleads₇
    exact (hdeclarations.2 _).mono hbefore.nextId hafter.nextId

/-- Everything in a function declaration lies in its place. -/
theorem functionDeclaration_places (start : Nat) (ambient : Bool) :
    PlacesStatement text (functionDeclaration start ambient) := by
  intro s
  refine (advance_runs s).bind fun _ s₁ _ hleads₁ _ => (identifier_runs s₁).bind
    fun name s₂ _ hleads₂ hname => (parameters_runs typeNode_places s₂).bind
    fun values s₃ _ hleads₃ hvalues => (optionalType_runs typeNode_places s₃).bind
    fun result s₄ _ hleads₄ hresult => (endStatement_runs s₄).bind fun _ s₅ _ hleads₅ _ => ?_
  have hleads := (((hleads₁.trans hleads₂).trans hleads₃).trans hleads₄).trans hleads₅
  refine closeNode_single (fun node => .function ⟨node, ambient, name, values, result⟩)
    (fun node => ⟨_, rfl, fun number h => (Option.some.inj h).symm⟩) hleads fun node => ?_
  exact .function hname.1 hvalues.1 fun type htype => (hresult type htype).1

/-- Everything in an interface declaration lies in its place. -/
theorem interfaceDeclaration_places (start : Nat) :
    PlacesStatement text (interfaceDeclaration start) := by
  intro s
  refine (advance_runs s).bind fun _ s₁ _ hleads₁ _ => (identifier_runs s₁).bind
    fun name s₂ _ hleads₂ hname => (elements_runs typeNode_places s₂).bind
    fun members s₃ _ hleads₃ hmembers => ?_
  refine closeNode_single (fun node => .interface ⟨node, name, members⟩)
    (fun node => ⟨_, rfl, fun number h => (Option.some.inj h).symm⟩)
    ((hleads₁.trans hleads₂).trans hleads₃) fun node => ?_
  exact .interface hname.1 hmembers.1

/-- Everything in an alias declaration lies in its place. -/
theorem aliasDeclaration_places (start : Nat) : PlacesStatement text (aliasDeclaration start) := by
  intro s
  refine (advance_runs s).bind fun _ s₁ _ hleads₁ _ => (identifier_runs s₁).bind
    fun name s₂ _ hleads₂ hname => (expectPunctuator_runs _ s₂).bind fun _ s₃ _ hleads₃ _ =>
    (typeNode_places s₃).bind fun type s₄ _ hleads₄ htype => (endStatement_runs s₄).bind
    fun _ s₅ _ hleads₅ _ => ?_
  have hleads := (((hleads₁.trans hleads₂).trans hleads₃).trans hleads₄).trans hleads₅
  refine closeNode_single (fun node => .typeAlias ⟨node, name, type⟩)
    (fun node => ⟨_, rfl, fun number h => (Option.some.inj h).symm⟩) hleads fun node => ?_
  exact .typeAlias hname.1 htype.1

/-- An expression statement declares nothing, and it lies in its place. -/
theorem expressionStatement_places : PlacesStatement text expressionStatement := by
  intro s
  refine (current_runs s).bind fun token s₁ _ hleads₁ _ => (expression_places s₁).bind
    fun value s₂ _ hleads₂ hvalue => (endStatement_runs s₂).bind fun _ s₃ _ hleads₃ _ => ?_
  refine closeNode_single (fun node => .expression node value)
    (fun node => ⟨_, rfl, nofun⟩) ((hleads₁.trans hleads₂).trans hleads₃) fun node => ?_
  exact .expression hvalue.1

/-- Everything in a statement other than a block lies in its place. -/
theorem declaration_places (start : Nat) (ambient : Bool) :
    PlacesStatement text (declaration start ambient) := by
  intro s
  refine (current_runs s).bind fun token s₁ _ _ hs₁ => ?_
  obtain ⟨rfl, rfl⟩ := hs₁
  split
  · exact variableStatement_places start ambient .hoisted _
  · exact variableStatement_places start ambient .constant _
  · refine (nextKind_runs _).bind fun kind s₂ _ _ hs₂ => ?_
    subst hs₂
    exact .ite (fun _ => variableStatement_places start ambient .block _)
      fun _ => expressionStatement_places _
  · exact functionDeclaration_places start ambient _
  · refine (nextKind_runs _).bind fun kind s₂ _ _ hs₂ => ?_
    subst hs₂
    exact .ite (fun _ => interfaceDeclaration_places start _) fun _ => expressionStatement_places _
  · refine (nextKind_runs _).bind fun kind s₂ _ _ hs₂ => ?_
    subst hs₂
    exact .ite (fun _ => aliasDeclaration_places start _) fun _ => expressionStatement_places _
  · exact expressionStatement_places _

/-- A parse that reads statements of which everything lies in its place. -/
def PlacesStatements (text : List Char) (p : Parse (List Statement)) : Prop :=
  ∀ s, Runs text p s fun statements s' =>
    (∀ statement ∈ statements, statement.Placed text) ∧
      Visit.Rises s.nextId s'.nextId (visitAll statements)

/-- Everything in a statement lies in its place, if the statements of a block do. -/
theorem statement_places {body : Parse (List Statement)} (h : PlacesStatements text body) :
    PlacesStatement text (statement body) := by
  intro s
  refine (current_runs s).bind fun token s₁ hplaced _ hs₁ => ?_
  obtain ⟨rfl, rfl⟩ := hs₁
  split
  · refine (advance_runs _).bind fun _ s₂ _ _ _ => (newNode_runs _ s₂).bind
      fun node s₃ _ _ _ => .pure ⟨.empty, .nil _ _⟩
  · refine (advance_runs _).bind fun _ s₂ _ hleads₂ h₂ => ?_
    subst h₂
    refine (h _).bind fun statements s₃ _ hleads₃ hstatements => (expectPunctuator_runs _ s₃).bind
      fun _ s₄ _ hleads₄ _ => ?_
    -- the opening brace was taken
    have hstart := hplaced.start_le_taken
    have hstop := (hleads₃.trans hleads₄).previousStop
    refine (closeNode_within (by omega)).bind fun node s₅ _ hleads₅ hnode => .pure ⟨?_, ?_⟩
    · exact .block hnode.1 hstatements.1
    · exact hstatements.2.mono hleads₂.nextId (hleads₄.trans hleads₅).nextId
  · refine (nextKind_runs _).bind fun kind s₂ _ _ hs₂ => ?_
    subst hs₂
    refine .ite (fun _ => ?_) fun _ => declaration_places _ false _
    refine (advance_runs _).bind fun _ s₃ _ hleads₃ _ => ?_
    refine (declaration_places _ true s₃).mono fun statement s₄ _ _ hstatement => ?_
    exact ⟨hstatement.1, hstatement.2.mono hleads₃.nextId (Nat.le_refl _)⟩
  · exact declaration_places _ false _

/-- Everything in statements lies in its place, and the numbers of what they declare rise. -/
theorem statementsTail_places (limit : Nat) : PlacesStatements text (statementsTail limit) := by
  induction limit with
  | zero => exact fun s => .pure ⟨nofun, .nil _ _⟩
  | succ limit ih =>
    intro s
    refine (isAt_runs _ s).bind fun ending s₁ _ hleads₁ _ => (isAt_runs _ s₁).bind
      fun closing s₂ _ hleads₂ _ => .ite (fun _ => .pure ⟨nofun, .nil _ _⟩) fun _ =>
      (current_runs s₂).bind fun token s₃ _ hleads₃ _ => (statement_places ih s₃).bind
      fun first s₄ _ hleads₄ hfirst => (current_runs s₄).bind fun next s₅ _ hleads₅ _ => ?_
    have hbefore := (hleads₁.trans hleads₂).trans hleads₃
    -- the loop goes on from where the statement ended, or from the token after it
    have hrest (s₆ : ParseState) (hleads : s₄.Leads s₆) :
        Runs text (do return first :: (← statementsTail limit)) s₆ fun statements s' =>
          (∀ statement ∈ statements, statement.Placed text) ∧
            Visit.Rises s.nextId s'.nextId (visitAll statements) := by
      refine (ih s₆).bind fun others s₇ _ hleads₇ hothers => .pure ⟨?_, ?_⟩
      · exact List.forall_mem_cons.mpr ⟨hfirst.1, hothers.1⟩
      · exact (hfirst.2.mono hbefore.nextId hleads.nextId).append hothers.2
          ((hbefore.trans hleads₄).trans hleads).nextId hleads₇.nextId
    refine .ite (fun _ => ?_) fun _ => hrest s₅ hleads₅
    exact (report_runs _ s₅).bind fun _ s₆ _ hleads₆ _ => (advance_runs s₆).bind
      fun _ s₇ _ hleads₇ _ => hrest s₇ ((hleads₅.trans hleads₆).trans hleads₇)

/-- Everything in the statements of a file lies in its place. -/
theorem statements_places : PlacesStatements text statements := by
  intro s
  refine (remaining_runs s).bind fun limit s₁ _ hleads₁ _ => ?_
  refine (statementsTail_places limit s₁).mono fun content s₂ _ _ hcontent => ?_
  exact ⟨hcontent.1, hcontent.2.mono hleads₁.nextId (Nat.le_refl _)⟩

end Parse

/-- In a parsed file the blocks and the names lie in the text, and declarations have numbers that
rise. What was reported lies in the text too. -/
theorem SourceFile.parse_placed (name text : String) :
    (∀ statement ∈ (SourceFile.parse name text).tree.statements, statement.Placed text.toList) ∧
      ((SourceFile.parse name text).tree.visits.filterMap Visit.number?).Pairwise (· < ·) ∧
      (SourceFile.parse name text).tree.text = text.toList ∧
      ∀ issue ∈ (SourceFile.parse name text).issues, issue.span.Within text.toList.length := by
  have hfile : ∀ s, Parse.Runs text.toList (Parse.wholeFile name text.toList) s fun file _ =>
      (∀ statement ∈ file.statements, statement.Placed text.toList) ∧
        (file.visits.filterMap Visit.number?).Pairwise (· < ·) ∧ file.text = text.toList := by
    intro s
    refine (Parse.statements_places s).bind fun content s₁ _ _ hcontent => ?_
    refine (Parse.newNode_runs _ s₁).bind fun node s₂ _ _ _ => ?_
    exact .pure ⟨hcontent.1, hcontent.2.ordered, rfl⟩
  obtain ⟨⟨hplaced, hordered, htext⟩, hissues⟩ := Parse.throughout_within hfile
  exact ⟨hplaced, hordered, htext, hissues⟩

end ExpressionTyping
