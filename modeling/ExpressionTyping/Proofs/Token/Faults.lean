import ExpressionTyping.Proofs.Token.Segmentation

/-!
# The faults of tokens

What is wrong with a token itself is one of three problems, and a parse reports other problems only.
When all that was reported is sorted by where it starts, the issues of one sort keep their order if
they were in order before (`Issue.filter_sortByStart`).
-/

set_option autoImplicit false

namespace ExpressionTyping

/-- Whether a problem is one that a token has by itself, by its code. -/
def Problem.isLexical (problem : Problem) : Bool :=
  problem.code ∈ [1002, 1127, 1160]

namespace Lexeme

/-- What starts with a character is only faulted for its characters. -/
theorem Front.isLexical {alphabet : Alphabet} {c : Char} {rest : List Char} {lexeme : Lexeme}
    (h : Front alphabet c rest lexeme) : ∀ problem ∈ lexeme.fault?, problem.isLexical = true := by
  have hunless (closed : Bool) {fault : Problem} (hfault : fault.isLexical = true) :
      ∀ problem ∈ if closed then none else some fault, problem.isLexical = true := by
    cases closed with
    | true => nofun
    | false =>
      rintro problem ⟨⟩
      exact hfault
  have hnone {lexeme : Lexeme} (hfault : lexeme.fault? = none) :
      ∀ problem ∈ lexeme.fault?, problem.isLexical = true := by
    rw [hfault]
    nofun
  cases h with
  | string => exact hunless _ rfl
  | template => exact hunless _ rfl
  | unknown => exact hunless false rfl
  | number => exact hnone rfl
  | punctuator => exact hnone rfl
  | word => exact hnone rfl

end Lexeme

namespace Token

/-- A token reports its fault where it stands. -/
theorem issue?_span {token : Token} {issue : Issue} (h : issue ∈ token.issue?) :
    issue.span = token.span := by
  obtain ⟨problem, -, rfl⟩ := Option.map_eq_some_iff.mp h
  rfl

/-- The issue of the next token, if it has one, is a lexical one. -/
theorem next_isLexical (alphabet : Alphabet) (offset : Nat) (text : List Char) :
    ∀ issue ∈ (next alphabet offset text).1.issue?, issue.problem.isLexical = true := by
  unfold next
  simp only
  cases (Trivia.skip text).rest with
  | nil => nofun
  | cons c rest =>
    have hfront := (Lexeme.front_cases alphabet c rest).isLexical
    simp only
    generalize Lexeme.front alphabet c rest = lexeme at hfront
    intro issue hissue
    obtain ⟨problem, hproblem, rfl⟩ := Option.map_eq_some_iff.mp hissue
    exact hfront problem hproblem

/-- The issues of all tokens that are read are lexical ones. -/
theorem read_isLexical (alphabet : Alphabet) (limit offset : Nat) (text : List Char) :
    ∀ token ∈ read alphabet limit offset text, ∀ issue ∈ token.issue?,
      issue.problem.isLexical = true := by
  induction limit generalizing offset text with
  | zero => exact fun token htoken => absurd htoken List.not_mem_nil
  | succ limit ih =>
    unfold read
    simp only
    split
    · rw [List.forall_mem_singleton]
      exact next_isLexical alphabet offset text
    · rw [List.forall_mem_cons]
      exact ⟨next_isLexical alphabet offset text, ih _ _⟩

/-- What a token of a text reports of itself is a lexical problem. -/
theorem ofText_isLexical (alphabet : Alphabet) (text : List Char) :
    ∀ token ∈ ofText alphabet text, ∀ issue ∈ token.issue?, issue.problem.isLexical = true :=
  read_isLexical alphabet (text.length + 1) 0 text

end Token

/-! ## Issues in order -/

namespace Issue

/-- Issues that stand in order of their starts keep it when they are sorted with others. -/
theorem filter_sortByStart {issues : List Issue} {p : Issue → Bool}
    (h : (issues.filter p).Pairwise fun first second => first.span.start ≤ second.span.start) :
    (sortByStart issues).filter p = issues.filter p := by
  have hsorted : (issues.filter p).Sublist (sortByStart issues) := by
    refine List.sublist_mergeSort ?_ ?_ ?_ List.filter_sublist
    · intro first second third hfirst hsecond
      simp only [decide_eq_true_eq] at *
      omega
    · intro first second
      simp only [Bool.or_eq_true, decide_eq_true_eq]
      omega
    · simpa using h
  have hsublist := hsorted.filter p
  rw [List.filter_filter] at hsublist
  simp only [Bool.and_self] at hsublist
  have hperm : ((sortByStart issues).filter p).Perm (issues.filter p) :=
    (List.mergeSort_perm issues _).filter p
  exact (hsublist.eq_of_length hperm.length_eq.symm).symm

end Issue

end ExpressionTyping
