import ExpressionTyping.Proofs.Grammar.TypeRoundTrip
import ExpressionTyping.Proofs.Token.Layout

/-!
# Reading the annotation of a variable

A text that is laid out for the tokens of a type is read as this type where it annotates a variable
(`TypeNode.parse_annotated`). It need not be the printed type: spaces may be left out where tokens
are cut off without them.
-/

set_option autoImplicit false

namespace ExpressionTyping

/-- The declaration of one variable with an annotation, up to numbers and places. -/
def Statement.Annotates (name : String) (t : TypeNode) (statement : Statement) : Prop :=
  ∃ list declaration type, statement = .variableList list ∧ list.form = .block ∧
    list.declarations = [declaration] ∧ declaration.name.text = name ∧
    declaration.type? = some type ∧ declaration.initializer = none ∧ type.bare = t.bare

namespace Parse

section Statements

variable {t : TypeNode} {label : Identifier} {s : ParseState}
  {word spelled colon semicolon final : Token} {tokens rest : List Token}

/-- A name with an annotation, up to what ends it. -/
theorem variableDeclaration_reads (type : ReadsType typeNode t)
    (isName : (TokenKind.ofWord label.text).isName = true)
    (faces : s.Faces (spelled :: colon :: (tokens ++ semicolon :: rest)))
    (label_eq : spelled.content = label.content) (colon_eq : colon.kind = .punctuator .colon)
    (tokens_eq : tokens.map Token.content = t.contents)
    (semicolon_eq : semicolon.kind = .punctuator .semicolon) :
    Reads variableDeclaration (fun declaration => declaration.name.text = label.text ∧
      (∃ t', declaration.type? = some t' ∧ t'.bare = t.bare) ∧ declaration.initializer = none) s
      (semicolon :: rest) := by
  refine (current_reads faces).bind fun _ s₁ _ h₁ => ?_
  refine (identifier_reads h₁ label_eq isName (by simp)).bind fun name s₂ same h₂ => ?_
  have written : Reads (optionalType typeNode) (fun written => ∃ t', written = some t' ∧
      t'.bare = t.bare) s₂ (semicolon :: rest) := by
    refine (accept_reads h₂ colon_eq (by simp)).step fun s₃ h₃ => ?_
    refine (type s₃ tokens semicolon rest h₃ tokens_eq (by rw [semicolon_eq]; rfl)).bind
      fun t' s₄ same h₄ => ?_
    exact .pure ⟨t', rfl, same⟩ h₄
  refine written.bind fun written s₃ type h₃ => ?_
  refine (accept_reads_none h₃ (by simp [semicolon_eq])).step fun s₄ h₄ => ?_
  refine (Reads.pure (Q := (· = none)) rfl h₄).step fun s₅ h₅ => ?_
  refine (closeNode_reads _ h₅).bind fun node s₆ _ h₆ => ?_
  exact .pure ⟨(Identifier.mk.inj same).2, type, rfl⟩ h₆

/-- The declaration of a variable is read up to its semicolon. -/
theorem variableStatement_reads (type : ReadsType typeNode t)
    (isName : (TokenKind.ofWord label.text).isName = true)
    (faces : s.Faces (word :: spelled :: colon :: (tokens ++ semicolon :: rest)))
    (label_eq : spelled.content = label.content) (colon_eq : colon.kind = .punctuator .colon)
    (tokens_eq : tokens.map Token.content = t.contents)
    (semicolon_eq : semicolon.kind = .punctuator .semicolon) (more : rest ≠ []) (start : Nat)
    (ambient : Bool) :
    Reads (variableStatement start ambient .block) (Statement.Annotates label.text t) s rest := by
  refine (current_reads faces).bind fun _ s₁ _ h₁ => ?_
  refine (advance_reads h₁ (by simp)).bind fun _ s₂ _ h₂ => ?_
  refine (remaining_reads h₂).step fun s₃ h₃ => ?_
  have declarations : Reads (variablesTail (spelled :: colon :: (tokens ++ semicolon :: rest)).length)
      (fun declarations => ∃ declaration, declarations = [declaration] ∧
        declaration.name.text = label.text ∧
        (∃ t', declaration.type? = some t' ∧ t'.bare = t.bare) ∧ declaration.initializer = none) s₃
      (semicolon :: rest) := by
    refine (variableDeclaration_reads type isName h₃ label_eq colon_eq tokens_eq semicolon_eq).bind
      fun declaration s₄ read h₄ => ?_
    refine (accept_reads_none h₄ (by simp [semicolon_eq])).step fun s₅ h₅ => ?_
    exact .pure ⟨declaration, rfl, read⟩ h₅
  refine declarations.bind fun declarations s₄ read h₄ => ?_
  refine (closeNode_reads _ h₄).bind fun list s₅ _ h₅ => ?_
  refine (endStatement_reads h₅ semicolon_eq more).bind fun _ s₆ _ h₆ => ?_
  refine (closeNode_reads start h₆).bind fun node s₇ _ h₇ => ?_
  obtain ⟨declaration, rfl, name, ⟨t', written, same⟩, none⟩ := read
  exact .pure ⟨_, declaration, t', rfl, rfl, rfl, name, written, none, same⟩ h₇

/-- The word `let` before a name starts the declaration of variables. -/
theorem letStatement_reads {Q : Statement → Prop} (faces : s.Faces (word :: spelled :: rest))
    (word_eq : word.kind = .keyword .letWord) (isName : spelled.kind.isName = true)
    (h : ∀ s' start, s'.Faces (word :: spelled :: rest) →
      Reads (variableStatement start false .block) Q s' tokens) (body : Parse (List Statement)) :
    Reads (statement body) Q s tokens := by
  refine (current_reads faces).step fun s₁ h₁ => ?_
  simp only [word_eq]
  refine (current_reads h₁).step fun s₂ h₂ => ?_
  simp only [word_eq]
  refine (nextKind_reads h₂).step fun s₃ h₃ => ?_
  rw [if_pos isName]
  exact h s₃ _ h₃

/-- A file that is the declaration of one variable. -/
theorem variableFile_reads (type : ReadsType typeNode t)
    (isName : (TokenKind.ofWord label.text).isName = true)
    (faces : s.Faces (word :: spelled :: colon :: (tokens ++ [semicolon, final])))
    (word_eq : word.kind = .keyword .letWord) (label_eq : spelled.content = label.content)
    (colon_eq : colon.kind = .punctuator .colon) (tokens_eq : tokens.map Token.content = t.contents)
    (semicolon_eq : semicolon.kind = .punctuator .semicolon) (final_eq : final.kind = .endOfText)
    (name : String) (text : List Char) :
    Reads (wholeFile name text) (fun file => ∃ value, file.statements = [value] ∧
      value.Annotates label.text t) s [final] := by
  have spelledName : spelled.kind.isName = true := by
    rw [Token.kind_of_content label_eq]
    exact isName
  have list : Reads statements (fun content => ∃ value, content = [value] ∧
      value.Annotates label.text t) s [final] := by
    refine (remaining_reads faces).step fun s₁ h₁ => ?_
    have split : spelled :: colon :: (tokens ++ [semicolon, final]) =
        (spelled :: colon :: (tokens ++ [semicolon])) ++ [final] := by simp
    rw [split] at h₁
    refine statementsTail_reads_single h₁ (by simp [word_eq]) (by simp [word_eq]) final_eq
      (fun s₂ body h₂ => ?_) _
    rw [← split] at h₂
    exact letStatement_reads h₂ word_eq spelledName (fun s₃ start h₃ =>
      variableStatement_reads type isName h₃ label_eq colon_eq tokens_eq semicolon_eq (by simp) start
        false) body
  refine list.bind fun content s₁ read h₁ => ?_
  refine (newNode_reads _ h₁).bind fun node s₂ _ h₂ => ?_
  exact .pure read h₂

end Statements

end Parse

namespace TypeNode

/-- A weaker condition also holds throughout a type. -/
theorem Throughout.imp {P Q : TypeNode → Prop} (h : ∀ t, P t → Q t) {t : TypeNode}
    (throughout : t.Throughout P) : t.Throughout Q := by
  induction throughout with
  | intro here _ ih => exact ⟨h _ here, ih⟩

/-- The kinds and values of the tokens of the declaration of a variable with an annotation. -/
def variableContents (label : Identifier) (t : TypeNode) : List (TokenKind × String) :=
  (TokenKind.keyword .letWord).fixed :: label.content :: Punctuator.colon.content ::
    (t.contents ++ [Punctuator.semicolon.content])

/-- The text of a variable with its type writes the tokens of the variable. -/
theorem writes_variable {alphabet : Alphabet} {t : TypeNode} {text : String}
    (writes : Token.Writes alphabet text t.contents) {label : Identifier}
    (usable : label.Usable alphabet) :
    Token.Writes alphabet ("let " ++ label.text ++ ": " ++ text ++ ";")
      (variableContents label t) := by
  have named : Token.Writes alphabet label.text [label.content] :=
    usable.2.writes (TokenKind.isWord_of_isName usable.1)
  have start := (Token.writes_keyword .letWord).around Token.marks_space named
  have whole := (start.around Token.marks_colon writes).marks Token.marks_semicolon
  have spelled : "let " = Keyword.letWord.text ++ " " := rfl
  rw [spelled, variableContents]
  simpa only [List.cons_append, List.nil_append] using whole

/-- A text that is laid out for a type, which is shaped as the grammar asks for and whose nesting fits
into the depth limit, is read as this type after a variable and a colon: nothing is reported, and
the file is the declaration of this variable. -/
theorem parse_annotated {t : TypeNode} {text : String}
    (regular : t.Throughout (Regular Alphabet.standard))
    (nesting : t.nesting + 1 ≤ Parse.depthLimit)
    (writes : Token.Writes Alphabet.standard text t.contents) {label : Identifier}
    (usable : label.Usable Alphabet.standard) (name : String) :
    let parsed := SourceFile.parse name ("let " ++ label.text ++ ": " ++ text ++ ";")
    parsed.issues = [] ∧ ∃ statement, parsed.tree.statements = [statement] ∧
      statement.Annotates label.text t := by
  intro parsed
  have writable : AllWritable Alphabet.standard (variableContents label t) := by
    have mark := Punctuator.content_writable Alphabet.standard
    rw [variableContents, AllWritable, List.forall_mem_cons, List.forall_mem_cons,
      List.forall_mem_cons, List.forall_mem_append, List.forall_mem_singleton]
    exact ⟨TokenKind.fixed_writable _ rfl, Identifier.content_writable usable.2, mark _,
      contents_writable (regular.imp fun _ => And.right), mark _⟩
  obtain ⟨all, final, read, final_eq, contents, plain⟩ := Token.read_laid
    (writes_variable writes usable).laid (fun content mem => (writable content mem).ne_endOfText) 0
    (Nat.lt_succ_self _)
  have onLine : Token.OnLine (all ++ [final]) := by
    refine ⟨fun token mem => (plain token mem).2, ?_⟩
    rw [← read]
    exact Token.ofText_ordered Alphabet.standard _
  obtain ⟨word, more, rfl, word_eq, contents⟩ := List.map_eq_cons_iff.mp contents
  obtain ⟨spelled, more, rfl, label_eq, contents⟩ := List.map_eq_cons_iff.mp contents
  obtain ⟨colon, more, rfl, colon_eq, contents⟩ := List.map_eq_cons_iff.mp contents
  obtain ⟨tokens, semicolon, rest, rfl, tokens_eq, semicolon_eq, none⟩ :=
    Token.exists_of_map_append_cons contents
  obtain rfl := List.map_eq_nil_iff.mp none
  have faces : (Parse.initial (word :: spelled :: colon :: (tokens ++ [semicolon]) ++ [final])).Faces
      (word :: spelled :: colon :: (tokens ++ [semicolon, final])) :=
    ⟨by simp [Parse.initial_ahead], by simpa using onLine⟩
  have type : Parse.ReadsType Parse.typeNode t := (Parse.readableType regular _).any nesting
  have reads := Parse.variableFile_reads type usable.1 faces (Token.kind_of_content word_eq) label_eq
    (Token.kind_of_content colon_eq) tokens_eq (Token.kind_of_content semicolon_eq) final_eq name
    ("let " ++ label.text ++ ": " ++ text ++ ";").toList
  have same : parsed = Parse.throughout
      (Parse.wholeFile name ("let " ++ label.text ++ ": " ++ text ++ ";").toList)
      (word :: spelled :: colon :: (tokens ++ [semicolon]) ++ [final]) := by
    rw [← read]
    rfl
  rw [same]
  exact Parse.throughout_reads reads fun token mem => (plain token mem).1

end TypeNode

end ExpressionTyping
