import Mathlib.Data.List.TakeDrop
import Mathlib.Tactic.SplitIfs
import ExpressionTyping.Token.Lexeme

/-!
# The longest punctuator

A text is cut by its first characters alone (`Lexeme.front`), while the texts of punctuators and of
keywords stand in tables of their own. This module compares the two. A keyword is found by its text
and by no other (`Keyword.ofSpelling?_eq_some_iff`), and where a text is cut before a punctuator, it is
the longest one of the table that stands there (`Lexeme.front_eq_longest`).
-/

set_option autoImplicit false

namespace ExpressionTyping

/-! ## Looking ahead -/

/-- One character stands in front of a text. -/
theorem isPrefixOf_singleton (c : Char) (text : List Char) :
    [c].isPrefixOf text = decide (text[0]? = some c) := by
  cases text with
  | nil => rfl
  | cons d text => simp [List.isPrefixOf, eq_comm, Bool.beq_eq_decide_eq]

/-- Two characters stand in front of a text. -/
theorem isPrefixOf_pair (c d : Char) (text : List Char) :
    [c, d].isPrefixOf text = decide (text[0]? = some c ∧ text[1]? = some d) := by
  cases text with
  | nil => rfl
  | cons e text =>
    rw [List.isPrefixOf, isPrefixOf_singleton, Bool.beq_eq_decide_eq, ← Bool.decide_and]
    simp [eq_comm]

/-! ## Keywords -/

namespace Keyword

/-- The characters of a keyword. -/
def spelling (k : Keyword) : List Char :=
  k.text.toList

/-- A word is found to be a keyword exactly if its characters are those of the keyword. -/
theorem ofSpelling?_eq_some_iff {word : List Char} {k : Keyword} :
    ofSpelling? word = some k ↔ word = k.spelling := by
  constructor
  · intro h
    have htext : String.ofList word = k.text := by
      unfold ofSpelling? at h
      split at h <;> cases h <;> assumption
    rw [spelling, ← htext, String.toList_ofList]
  · rintro rfl
    cases k <;> rfl

end Keyword

/-! ## Punctuators -/

namespace Punctuator

/-- The characters of a punctuator. -/
def spelling (p : Punctuator) : List Char :=
  p.text.toList

/-- No punctuator is empty. -/
theorem spelling_ne_nil (p : Punctuator) : p.spelling ≠ [] := by
  cases p <;> simp [spelling, text]

/-- Every punctuator, longer spellings first. -/
def longestFirst : List Punctuator :=
  [.ellipsis, .equalsEqualsEquals, .bangEqualsEquals, .greaterGreaterGreater, .lessEquals,
    .greaterEquals, .equalsEquals, .bangEquals, .arrow, .starStar, .lessLess, .greaterGreater,
    .ampersandAmpersand, .barBar, .questionQuestion, .openBrace, .closeBrace, .openParen,
    .closeParen, .openBracket, .closeBracket, .dot, .semicolon, .comma, .less, .greater, .plus,
    .minus, .star, .slash, .percent, .ampersand, .bar, .caret, .bang, .tilde, .question, .colon,
    .equals]

/-- No punctuator is left out of the list. -/
theorem mem_longestFirst (p : Punctuator) : p ∈ longestFirst := by
  cases p <;> decide

/-- No punctuator of the list is longer than one before it. -/
theorem longestFirst_sorted :
    longestFirst.Pairwise fun p q => q.spelling.length ≤ p.spelling.length := by
  decide

/-- The longest punctuator that a text starts with. -/
def longestMatch? (text : List Char) : Option Punctuator :=
  longestFirst.find? fun p => p.spelling.isPrefixOf text

variable {text : List Char} {p : Punctuator}

/-- The punctuator that is found stands there. -/
theorem isPrefix_of_longestMatch? (h : longestMatch? text = some p) : p.spelling <+: text := by
  have hp := List.find?_some h
  exact List.isPrefixOf_iff_prefix.mp hp

/-- No punctuator that a text starts with is longer than the one that is found. -/
theorem length_le_of_longestMatch? {q : Punctuator} (hp : longestMatch? text = some p)
    (hq : q.spelling <+: text) : q.spelling.length ≤ p.spelling.length := by
  obtain ⟨-, before, after, hlist, hbefore⟩ := List.find?_eq_some_iff_append.mp hp
  have hmem := q.mem_longestFirst
  have hsorted := longestFirst_sorted
  rw [hlist] at hmem hsorted
  rw [List.mem_append, List.mem_cons] at hmem
  rcases hmem with hmem | rfl | hmem
  · have hnot := hbefore q hmem
    rw [List.isPrefixOf_iff_prefix.mpr hq] at hnot
    cases hnot
  · exact Nat.le_refl _
  · exact (List.pairwise_cons.mp (List.pairwise_append.mp hsorted).2.1).1 q hmem

/-- If none is found, none stands there. -/
theorem not_prefix_of_longestMatch? (h : longestMatch? text = none) (q : Punctuator) :
    ¬ q.spelling <+: text := by
  intro hq
  have hnot := List.find?_eq_none.mp h q q.mem_longestFirst
  exact hnot (List.isPrefixOf_iff_prefix.mpr hq)

/-- The punctuators that start with a character, longer spellings first. -/
def startingWith (c : Char) : List Punctuator :=
  longestFirst.filter fun p => p.spelling.head? == some c

/-- Only the punctuators that start with the first character have to be searched. -/
theorem longestMatch?_cons (c : Char) (rest : List Char) :
    longestMatch? (c :: rest) =
      (startingWith c).find? fun p => p.spelling.tail.isPrefixOf rest := by
  rw [startingWith, List.find?_filter, longestMatch?]
  congr 1
  funext p
  obtain ⟨d, tail, hspelling⟩ := List.exists_cons_of_ne_nil p.spelling_ne_nil
  rw [hspelling, List.isPrefixOf, List.head?_cons, List.tail_cons, Option.some_beq_some,
    Bool.decide_and, Bool.decide_eq_true, Bool.decide_eq_true]

/-- The punctuators that start with a point. -/
theorem startingWith_dot : startingWith '.' = [.ellipsis, .dot] := rfl

/-- The punctuators that start with a less-than sign. -/
theorem startingWith_less : startingWith '<' = [.lessEquals, .lessLess, .less] := rfl

/-- The punctuators that start with a greater-than sign. -/
theorem startingWith_greater : startingWith '>' =
    [.greaterGreaterGreater, .greaterEquals, .greaterGreater, .greater] := rfl

/-- The punctuators that start with an equals sign. -/
theorem startingWith_equals : startingWith '=' =
    [.equalsEqualsEquals, .equalsEquals, .arrow, .equals] := rfl

/-- The punctuators that start with an exclamation mark. -/
theorem startingWith_bang : startingWith '!' = [.bangEqualsEquals, .bangEquals, .bang] := rfl

/-- A character that starts no punctuator. -/
theorem longestMatch?_eq_none {c : Char} (h : ∀ p : Punctuator, p.spelling.head? ≠ some c)
    (rest : List Char) : longestMatch? (c :: rest) = none := by
  rw [longestMatch?_cons, startingWith,
    List.filter_eq_nil_iff.mpr fun p _ => by simpa using h p, List.find?_nil]

end Punctuator

/-! ## Lexemes -/

namespace Lexeme

/-- Whether a number starts here: a digit, or a point and a digit. -/
def startsNumber : List Char → Bool
  | '.' :: d :: _ => d.isDigit
  | d :: _ => d.isDigit
  | [] => false

/-- The lexeme at the front of a text, read off the table of punctuators: what is no string and no
number is the longest punctuator that stands there, or else a word or an unknown character. -/
def longest (alphabet : Alphabet) (c : Char) (rest : List Char) : Lexeme :=
  if c = '"' ∨ c = '\'' then string c rest
  else if c = '\x60' then template c rest
  else if startsNumber (c :: rest) then number (c :: rest)
  else match Punctuator.longestMatch? (c :: rest) with
    | some p =>
      ⟨.punctuator p, p.spelling, [], none, (c :: rest).drop p.spelling.length⟩
    | none =>
      if alphabet.startsIdentifier c then word alphabet c rest
      else ⟨.unknown, [c], [], some .invalidCharacter, rest⟩

variable {alphabet : Alphabet} {c d : Char} {rest : List Char}

/-- A punctuator is the lexeme if it is the first one of those that start with the first character
whose other characters follow. -/
theorem mark_eq_longest {p : Punctuator} {count : Nat} (hcount : p.spelling.length = count)
    (hquote : c ∉ ['"', '\'', '\x60']) (hnumber : startsNumber (c :: rest) = false)
    (hfound : (Punctuator.startingWith c).find? (fun p => p.spelling.tail.isPrefixOf rest) = some p) :
    mark p count (c :: rest) = longest alphabet c rest := by
  have hmatch : Punctuator.longestMatch? (c :: rest) = some p := by
    rw [Punctuator.longestMatch?_cons, hfound]
  have hprefix := Punctuator.isPrefix_of_longestMatch? hmatch
  simp only [List.mem_cons, List.not_mem_nil, or_false, not_or] at hquote
  rw [longest, if_neg (by simp [hquote]), if_neg hquote.2.2, hnumber, hmatch, ← hcount, mark,
    ← List.prefix_iff_eq_take.mp hprefix]
  rfl

/-- Where no punctuator starts with the first character, the lexeme is a number, a word or unknown. -/
theorem longest_of_no_match (hquote : c ∉ ['"', '\'', '\x60'])
    (h : ∀ p : Punctuator, p.spelling.head? ≠ some c) :
    longest alphabet c rest =
      if c.isDigit then number (c :: rest)
      else if alphabet.startsIdentifier c then word alphabet c rest
      else ⟨.unknown, [c], [], some .invalidCharacter, rest⟩ := by
  simp only [List.mem_cons, List.not_mem_nil, or_false, not_or] at hquote
  have hdot : c ≠ '.' := fun hdot => h .dot (congrArg some hdot.symm)
  have hnumber : startsNumber (c :: rest) = c.isDigit := by
    cases rest <;> simp [startsNumber, hdot]
  rw [longest, if_neg (by simp [hquote]), if_neg hquote.2.2, hnumber,
    Punctuator.longestMatch?_eq_none h]

/-- A point is cut as the table says. -/
theorem dot_eq_longest : dot rest = longest alphabet '.' rest := by
  unfold dot
  split
  case isTrue h =>
    refine mark_eq_longest rfl (by decide) ?_ ?_
    · cases rest <;> simp_all [startsNumber]
    · simp [Punctuator.startingWith_dot, Punctuator.spelling, Punctuator.text, isPrefixOf_pair, h]
  case isFalse hdots =>
    split
    case isTrue hdigit =>
      cases rest <;> simp_all [longest, startsNumber]
    case isFalse hdigit =>
      refine mark_eq_longest rfl (by decide) ?_ ?_
      · cases rest <;> simp_all [startsNumber]
      · simp [Punctuator.startingWith_dot, Punctuator.spelling, Punctuator.text, isPrefixOf_pair,
          hdots]

/-- A character that may be doubled is cut as the table says. -/
theorem doubled_eq_longest {single double : Punctuator} (hquote : c ∉ ['"', '\'', '\x60'])
    (hnumber : startsNumber (c :: rest) = false)
    (hshared : Punctuator.startingWith c = [double, single])
    (hsingle : single.spelling = [c]) (hdouble : double.spelling = [c, c]) :
    doubled c single double rest = longest alphabet c rest := by
  unfold doubled
  split
  case isTrue h =>
    refine mark_eq_longest (congrArg List.length hdouble) hquote hnumber ?_
    simp [hshared, hdouble, isPrefixOf_singleton, h]
  case isFalse h =>
    refine mark_eq_longest (congrArg List.length hsingle) hquote hnumber ?_
    simp [hshared, hdouble, hsingle, isPrefixOf_singleton, h]

/-- A less-than sign is cut as the table says. -/
theorem less_eq_longest : less rest = longest alphabet '<' rest := by
  unfold less
  split <;> refine mark_eq_longest rfl (by decide) rfl ?_ <;>
    simp_all [Punctuator.startingWith_less, Punctuator.spelling, Punctuator.text,
      isPrefixOf_singleton]

/-- A greater-than sign is cut as the table says. -/
theorem greater_eq_longest : greater rest = longest alphabet '>' rest := by
  unfold greater
  split <;> refine mark_eq_longest rfl (by decide) rfl ?_ <;>
    simp_all [Punctuator.startingWith_greater, Punctuator.spelling, Punctuator.text,
      isPrefixOf_singleton, isPrefixOf_pair]

/-- An equals sign is cut as the table says. -/
theorem equals_eq_longest : equals rest = longest alphabet '=' rest := by
  unfold equals
  split_ifs <;> refine mark_eq_longest rfl (by decide) rfl ?_ <;>
    simp_all [Punctuator.startingWith_equals, Punctuator.spelling, Punctuator.text,
      isPrefixOf_singleton, isPrefixOf_pair]

/-- An exclamation mark is cut as the table says. -/
theorem bang_eq_longest : bang rest = longest alphabet '!' rest := by
  unfold bang
  split_ifs <;> refine mark_eq_longest rfl (by decide) rfl ?_ <;>
    simp_all [Punctuator.startingWith_bang, Punctuator.spelling, Punctuator.text,
      isPrefixOf_singleton, isPrefixOf_pair]

/-- A text is cut by its first characters as the table of punctuators says. -/
theorem front_eq_longest (alphabet : Alphabet) (c : Char) (rest : List Char) :
    front alphabet c rest = longest alphabet c rest := by
  unfold front
  split
  case h_16 => exact dot_eq_longest
  case h_17 => exact doubled_eq_longest (by decide) rfl rfl rfl rfl
  case h_18 => exact less_eq_longest
  case h_19 => exact greater_eq_longest
  case h_20 => exact equals_eq_longest
  case h_21 => exact bang_eq_longest
  case h_22 | h_23 | h_24 => exact doubled_eq_longest (by decide) rfl rfl rfl rfl
  case h_28 =>
    refine (longest_of_no_match ?_ fun p => ?_).symm
    · simp only [List.mem_cons, List.not_mem_nil, or_false, not_or]
      refine ⟨?_, ?_, ?_⟩ <;> assumption
    · cases p <;> simp [Punctuator.spelling, Punctuator.text] <;> rintro rfl <;> contradiction
  all_goals rfl

end Lexeme

end ExpressionTyping
