import Mathlib.Data.List.Infix
import ExpressionTyping.Diagnostic.Problem

/-!
# Arguments put in one after the other and all at once

A template can be read once, from left to right, with every placeholder replaced where it stands:
`fillAtOnce`. Arguments are put in one after the other instead, each into the text that the earlier
ones left (`Substitution.fillFrom`), so a placeholder that an argument brings in is replaced as well
(`substitute_rewrites_argument`). Both ways give the same text if no argument but the last brings in
what could be taken for a later placeholder (`Substitution.isInert`), and no brace of the template
could become one together with an argument (`Substitution.isCrowded`).
-/

set_option autoImplicit false

namespace ExpressionTyping

namespace Substitution

/-! ## Reading a template once -/

/-- The number of the argument whose placeholder a text starts with, if it is below a count. -/
def holeAt? (count : Nat) (text : List Char) : Option Nat :=
  (List.range count).find? fun index => (placeholder index).isPrefixOf text

/-- Reads a text once and replaces every placeholder of an argument, after dropping `skip`
characters of a placeholder that was replaced. -/
def readFrom (arguments : List (List Char)) : (skip : Nat) → List Char → List Char
  | _, [] => []
  | skip + 1, _ :: rest => readFrom arguments skip rest
  | 0, c :: rest =>
    match holeAt? arguments.length (c :: rest) with
    | some index =>
      arguments.getD index [] ++ readFrom arguments ((placeholder index).length - 1) rest
    | none => c :: readFrom arguments 0 rest

/-- The text with every placeholder replaced where it stands. -/
def readOnce (arguments : List (List Char)) (text : List Char) : List Char :=
  readFrom arguments 0 text

/-- Whether a text is an opening brace before digits alone. -/
def isOpen : List Char → Bool
  | [] => false
  | c :: rest => c = '\x7b' && rest.all Char.isDigit

/-- Whether an argument brings in no placeholder of a later argument, nor the start of one. -/
def isInert (index count : Nat) (argument : List Char) : Bool :=
  argument.tails.all fun suffix => !isOpen suffix &&
    (List.range count).all fun later =>
      !(decide (index < later) && (placeholder later).isPrefixOf suffix)

/-- Whether a text starts with an opening brace, then digits alone, and then another brace. -/
def startsCrowded : List Char → Bool
  | [] => false
  | c :: rest => c = '\x7b' && (rest.dropWhile Char.isDigit).head? = some '\x7b'

/-- Whether some brace of a text has digits alone between it and another one, so that an argument
put in for a placeholder could complete it to a placeholder. -/
def isCrowded (text : List Char) : Bool :=
  text.tails.any startsCrowded

/-! ## Placeholders -/

/-- After its opening brace, a placeholder consists of the digits of its number and the closing
brace. -/
theorem placeholder_length (index : Nat) :
    (placeholder index).length - 1 = (Nat.toDigits 10 index ++ ['\x7d']).length :=
  rfl

/-- No placeholder is empty. -/
theorem placeholder_ne_nil {index : Nat} : placeholder index ≠ [] :=
  List.cons_ne_nil _ _

/-- A number is written with digits only. -/
theorem isDigit_of_mem_toDigits {index : Nat} {c : Char} (h : c ∈ Nat.toDigits 10 index) :
    c.isDigit = true :=
  Nat.isDigit_of_mem_toDigits (by decide) (by decide) h

/-- A brace is no digit. -/
theorem ne_brace_of_isDigit {c : Char} (h : c.isDigit = true) : c ≠ '\x7b' ∧ c ≠ '\x7d' := by
  constructor <;> rintro rfl <;> revert h <;> decide

/-- No placeholder starts like another. -/
theorem eq_of_placeholder_starts {index other : Nat} {text : List Char}
    (h : placeholder index <+: text) (h' : placeholder other <+: text) : index = other := by
  have hdigits {i j : Nat} (hstarts : placeholder i <+: placeholder j) :
      Nat.toDigits 10 i = Nat.toDigits 10 j := by
    have htail : Nat.toDigits 10 i ++ ['\x7d'] <+: Nat.toDigits 10 j ++ ['\x7d'] :=
      (List.prefix_cons_inj _).mp hstarts
    obtain ⟨rest, hrest⟩ := htail
    rw [List.append_assoc] at hrest
    -- the closing brace ends the digits on both sides
    have hspan := congrArg (List.takeWhile Char.isDigit) hrest
    rwa [List.takeWhile_append_of_pos fun c hc => isDigit_of_mem_toDigits hc,
      List.takeWhile_append_of_pos fun c hc => isDigit_of_mem_toDigits hc,
      List.singleton_append, List.takeWhile_cons_of_neg (by decide),
      List.takeWhile_cons_of_neg (by decide), List.append_nil, List.append_nil] at hspan
  have heq : Nat.toDigits 10 index = Nat.toDigits 10 other := by
    rcases List.prefix_or_prefix_of_prefix h h' with hstarts | hstarts
    · exact hdigits hstarts
    · exact (hdigits hstarts).symm
  rw [← Nat.ofDigitChars_ten_toDigits (n := index), heq, Nat.ofDigitChars_ten_toDigits]

/-- A hole is found exactly where the placeholder of an argument stands. -/
theorem holeAt?_eq_some_iff {count index : Nat} {text : List Char} :
    holeAt? count text = some index ↔ index < count ∧ placeholder index <+: text := by
  rw [holeAt?, List.find?_range_eq_some]
  simp only [List.isPrefixOf_iff_prefix, List.mem_range, Bool.not_eq_true']
  constructor
  · rintro ⟨hstarts, hlt, -⟩
    exact ⟨hlt, hstarts⟩
  · rintro ⟨hlt, hstarts⟩
    refine ⟨hstarts, hlt, fun other hother => ?_⟩
    rw [Bool.eq_false_iff, ne_eq, List.isPrefixOf_iff_prefix]
    exact fun h => Nat.ne_of_lt hother (eq_of_placeholder_starts h hstarts)

/-- No hole is found exactly where no placeholder of an argument stands. -/
theorem holeAt?_eq_none_iff {count : Nat} {text : List Char} :
    holeAt? count text = none ↔ ∀ index < count, ¬ placeholder index <+: text := by
  rw [Option.eq_none_iff_forall_ne_some]
  simp only [ne_eq, holeAt?_eq_some_iff, not_and]

/-! ## Reading once, step by step -/

/-- Reading with characters to skip is reading what is left after them. -/
theorem readFrom_eq_drop (arguments : List (List Char)) (skip : Nat) (text : List Char) :
    readFrom arguments skip text = readOnce arguments (text.drop skip) := by
  induction text generalizing skip with
  | nil => cases skip <;> rfl
  | cons c rest ih =>
    cases skip with
    | zero => rfl
    | succ skip => exact ih skip

/-- A placeholder of an argument is replaced. -/
theorem readOnce_placeholder {arguments : List (List Char)} {index : Nat}
    (h : index < arguments.length) (rest : List Char) :
    readOnce arguments (placeholder index ++ rest) =
      arguments[index] ++ readOnce arguments rest := by
  have hhole : holeAt? arguments.length ('\x7b' :: (Nat.toDigits 10 index ++ ['\x7d'] ++ rest)) =
      some index :=
    holeAt?_eq_some_iff.mpr ⟨h, List.prefix_append (placeholder index) rest⟩
  have hdrop : (Nat.toDigits 10 index ++ ['\x7d'] ++ rest).drop
      (Nat.toDigits 10 index ++ ['\x7d']).length = rest := List.drop_left
  change readFrom arguments 0 ('\x7b' :: (Nat.toDigits 10 index ++ ['\x7d'] ++ rest)) = _
  rw [readFrom, hhole]
  simp only [placeholder_length, readFrom_eq_drop, hdrop, List.getD_eq_getElem?_getD,
    List.getElem?_eq_getElem h, Option.getD_some]

/-- A character that starts no placeholder stays. -/
theorem readOnce_cons {arguments : List (List Char)} {c : Char} {rest : List Char}
    (h : ∀ index < arguments.length, ¬ placeholder index <+: c :: rest) :
    readOnce arguments (c :: rest) = c :: readOnce arguments rest := by
  rw [readOnce, readFrom, holeAt?_eq_none_iff.mpr h, readOnce]

/-- A character that is no opening brace is kept. -/
theorem readOnce_cons_of_ne {arguments : List (List Char)} {c : Char} (hc : c ≠ '\x7b')
    (rest : List Char) : readOnce arguments (c :: rest) = c :: readOnce arguments rest :=
  readOnce_cons fun _ _ h => hc (List.cons_prefix_cons.mp h).1.symm

/-- A placeholder beyond the arguments stays. -/
theorem readOnce_placeholder_of_le {arguments : List (List Char)} {index : Nat}
    (h : arguments.length ≤ index) (rest : List Char) :
    readOnce arguments (placeholder index ++ rest) =
      placeholder index ++ readOnce arguments rest := by
  have hinner (text : List Char) (htext : ∀ c ∈ text, c ≠ '\x7b') :
      readOnce arguments (text ++ rest) = text ++ readOnce arguments rest := by
    induction text with
    | nil => rfl
    | cons c text ih =>
      obtain ⟨hc, htext⟩ := List.forall_mem_cons.mp htext
      rw [List.cons_append, readOnce_cons_of_ne hc, ih htext, List.cons_append]
  have hdigits : ∀ c ∈ Nat.toDigits 10 index ++ ['\x7d'], c ≠ '\x7b' := by
    refine List.forall_mem_append.mpr ⟨fun c hc => ?_, List.forall_mem_singleton.mpr (by decide)⟩
    exact (ne_brace_of_isDigit (isDigit_of_mem_toDigits hc)).1
  have hstart : ∀ other < arguments.length,
      ¬ placeholder other <+: '\x7b' :: (Nat.toDigits 10 index ++ ['\x7d'] ++ rest) := by
    intro other hother hstarts
    have hsame := eq_of_placeholder_starts hstarts (List.prefix_append (placeholder index) rest)
    omega
  change readOnce arguments ('\x7b' :: (Nat.toDigits 10 index ++ ['\x7d'] ++ rest)) = _
  rw [readOnce_cons hstart, hinner _ hdigits]
  rfl

/-- Reading with no arguments changes nothing. -/
theorem readOnce_nil (text : List Char) : readOnce [] text = text := by
  induction text with
  | nil => rfl
  | cons c rest ih => rw [readOnce_cons fun _ h => absurd h (Nat.not_lt_zero _), ih]

/-! ## Replacing everywhere, step by step -/

/-- Replacing with characters to skip is replacing in what is left after them. -/
theorem replaceFrom_eq_drop (pattern replacement : List Char) (skip : Nat) (text : List Char) :
    replaceFrom pattern replacement skip text =
      replaceAll pattern replacement (text.drop skip) := by
  induction text generalizing skip with
  | nil => cases skip <;> rfl
  | cons c rest ih =>
    cases skip with
    | zero => rfl
    | succ skip => exact ih skip

/-- A character where the pattern does not stand is kept. -/
theorem replaceAll_cons {pattern replacement : List Char} {c : Char} {rest : List Char}
    (h : ¬ pattern <+: c :: rest) :
    replaceAll pattern replacement (c :: rest) = c :: replaceAll pattern replacement rest := by
  rw [replaceAll, replaceFrom, if_neg (by rwa [List.isPrefixOf_iff_prefix]), replaceAll]

/-- Where the pattern stands, its replacement stands instead, and replacing goes on after it. -/
theorem replaceAll_pattern {pattern : List Char} (h : pattern ≠ []) (replacement rest : List Char) :
    replaceAll pattern replacement (pattern ++ rest) =
      replacement ++ replaceAll pattern replacement rest := by
  obtain ⟨c, tail, rfl⟩ := List.exists_cons_of_ne_nil h
  have hstarts : (c :: tail).isPrefixOf (c :: (tail ++ rest)) = true :=
    List.isPrefixOf_iff_prefix.mpr (List.prefix_append (c :: tail) rest)
  rw [List.cons_append, replaceAll, replaceFrom, if_pos hstarts, replaceFrom_eq_drop,
    List.length_cons, Nat.add_sub_cancel, List.drop_left]

/-- Where no occurrence starts, nothing is replaced. -/
theorem replaceAll_append {pattern replacement : List Char} (first rest : List Char)
    (h : ∀ suffix, suffix <:+ first → suffix ≠ [] → ¬ pattern <+: suffix ++ rest) :
    replaceAll pattern replacement (first ++ rest) =
      first ++ replaceAll pattern replacement rest := by
  induction first with
  | nil => rfl
  | cons c first ih =>
    have hhead : ¬ pattern <+: c :: (first ++ rest) :=
      h (c :: first) (List.suffix_refl _) (List.cons_ne_nil _ _)
    rw [List.cons_append, replaceAll_cons hhead, List.cons_append,
      ih fun suffix hsuffix => h suffix (hsuffix.trans (List.suffix_cons c first))]

/-! ## One argument more -/

/-- Behind a brace that is not crowded, what reads like the end of a placeholder stood there
before. -/
theorem prefix_of_readOnce {arguments : List (List Char)} {digits rest : List Char}
    (hdigits : ∀ d ∈ digits, d.isDigit = true)
    (hrest : (rest.dropWhile Char.isDigit).head? ≠ some '\x7b')
    (h : digits ++ ['\x7d'] <+: readOnce arguments rest) : digits ++ ['\x7d'] <+: rest := by
  induction digits generalizing rest with
  | nil =>
    cases rest with
    | nil => exact h
    | cons c rest =>
      have hc : c ≠ '\x7b' := by
        rintro rfl
        exact hrest rfl
      rw [readOnce_cons_of_ne hc] at h
      obtain rfl := (List.cons_prefix_cons.mp h).1
      exact List.cons_prefix_cons.mpr ⟨rfl, List.nil_prefix⟩
  | cons d digits ih =>
    obtain ⟨hd, hdigits⟩ := List.forall_mem_cons.mp hdigits
    cases rest with
    | nil => exact h
    | cons c rest =>
      have hc : c ≠ '\x7b' := by
        rintro rfl
        exact hrest rfl
      rw [readOnce_cons_of_ne hc, List.cons_append, List.cons_prefix_cons] at h
      obtain ⟨rfl, htail⟩ := h
      rw [List.dropWhile_cons_of_pos hd] at hrest
      exact List.cons_prefix_cons.mpr ⟨rfl, ih hdigits hrest htail⟩

/-- Reading the text behind a character that is not crowded makes no placeholder start there. -/
theorem not_prefix_cons_readOnce {arguments : List (List Char)} {index : Nat} {c : Char}
    {rest : List Char} (hcrowded : startsCrowded (c :: rest) = false)
    (h : ¬ placeholder index <+: c :: rest) :
    ¬ placeholder index <+: c :: readOnce arguments rest := by
  intro hstarts
  obtain ⟨rfl, htail⟩ := List.cons_prefix_cons.mp hstarts
  have hopen : (rest.dropWhile Char.isDigit).head? ≠ some '\x7b' := by
    simpa [startsCrowded] using hcrowded
  have hbefore := prefix_of_readOnce (fun d => isDigit_of_mem_toDigits) hopen htail
  exact h (List.cons_prefix_cons.mpr ⟨rfl, hbefore⟩)

/-- In an argument that is inert no later placeholder starts, whatever follows it. -/
theorem not_prefix_of_isInert {index later count : Nat} {argument suffix : List Char}
    (h : isInert index count argument = true) (hindex : index < later) (hlater : later < count)
    (hsuffix : suffix <:+ argument) (hne : suffix ≠ []) (rest : List Char) :
    ¬ placeholder later <+: suffix ++ rest := by
  simp only [isInert, List.all_eq_true, List.mem_tails, Bool.and_eq_true, Bool.not_eq_true',
    Bool.and_eq_false_iff, decide_eq_false_iff_not, List.mem_range] at h
  obtain ⟨hopen, hwhole⟩ := h suffix hsuffix
  intro hstarts
  rcases List.prefix_or_prefix_of_prefix hstarts (List.prefix_append suffix rest) with hin | hin
  · rcases hwhole later hlater with hle | hnot
    · exact hle hindex
    · rw [← List.isPrefixOf_iff_prefix, hnot] at hin
      cases hin
  -- the suffix is the start of a placeholder: all of it, or a brace and digits
  · cases suffix with
    | nil => exact hne rfl
    | cons c tail =>
      obtain ⟨rfl, htail⟩ := List.cons_prefix_cons.mp hin
      have hdigits : tail.all Char.isDigit = false := by simpa [isOpen] using hopen
      rcases List.prefix_concat_iff.mp htail with rfl | hall
      · rcases hwhole later hlater with hle | hnot
        · exact hle hindex
        · rw [Bool.eq_false_iff, ne_eq, List.isPrefixOf_iff_prefix] at hnot
          exact hnot (List.prefix_refl _)
      · rw [List.all_eq_false] at hdigits
        obtain ⟨d, hd, hnot⟩ := hdigits
        exact hnot (isDigit_of_mem_toDigits (hall.subset hd))

/-- Putting in one argument more is replacing its placeholder in the text that the earlier ones
gave. -/
theorem replaceAll_readOnce {arguments : List (List Char)} {later : List Char} {count : Nat}
    (hcount : arguments.length < count)
    (hinert : ∀ index (h : index < arguments.length), isInert index count arguments[index] = true)
    {text : List Char} (htext : isCrowded text = false) :
    replaceAll (placeholder arguments.length) later (readOnce arguments text) =
      readOnce (arguments ++ [later]) text := by
  have hsuffix : ∀ suffix, suffix <:+ text → startsCrowded suffix = false := by
    simpa [isCrowded] using htext
  clear htext
  induction hlength : text.length using Nat.strong_induction_on generalizing text with
  | h length ih =>
  subst hlength
  have hnext {front rest : List Char} (heq : text = front ++ rest) (hfront : front ≠ []) :
      replaceAll (placeholder arguments.length) later (readOnce arguments rest) =
        readOnce (arguments ++ [later]) rest := by
    subst heq
    refine ih rest.length ?_ (fun suffix h => hsuffix suffix (h.trans (List.suffix_append _ _))) rfl
    have := List.length_pos_iff.mpr hfront
    rw [List.length_append]
    omega
  cases hhole : holeAt? (arguments.length + 1) text with
  | some index =>
    obtain ⟨hlt, rest, rfl⟩ := holeAt?_eq_some_iff.mp hhole
    have hrest := hnext rfl placeholder_ne_nil
    have hindex : index < (arguments ++ [later]).length := by simpa using hlt
    rw [readOnce_placeholder hindex]
    rcases Nat.lt_succ_iff_lt_or_eq.mp hlt with hlt | rfl
    · rw [readOnce_placeholder hlt, replaceAll_append _ _ fun suffix h hne =>
        not_prefix_of_isInert (hinert index hlt) hlt hcount h hne _, hrest,
        List.getElem_append_left hlt]
    · rw [readOnce_placeholder_of_le (Nat.le_refl _), replaceAll_pattern placeholder_ne_nil,
        hrest]
      simp
  | none =>
    have hnone := holeAt?_eq_none_iff.mp hhole
    cases text with
    | nil => rfl
    | cons c rest =>
      have hrest := @hnext [c] rest rfl (List.cons_ne_nil _ _)
      have hbehind : ¬ placeholder arguments.length <+: c :: readOnce arguments rest :=
        not_prefix_cons_readOnce (hsuffix _ (List.suffix_refl _)) (hnone _ (Nat.lt_succ_self _))
      rw [readOnce_cons fun index h => hnone index (Nat.lt_succ_of_lt h), replaceAll_cons hbehind,
        hrest, readOnce_cons fun index h => hnone index (by simpa using h)]

/-- Putting in arguments one after the other, when some were put in at once, puts in all at once. -/
theorem fillFrom_readOnce {first others : List (List Char)} {text : List Char}
    (htext : isCrowded text = false)
    (hinert : ∀ index (h : index + 1 < (first ++ others).length),
      isInert index (first ++ others).length (first ++ others)[index] = true) :
    fillFrom first.length others (readOnce first text) = readOnce (first ++ others) text := by
  induction others generalizing first with
  | nil => rw [List.append_nil, fillFrom]
  | cons later others ih =>
    have hlength : (first ++ later :: others).length = first.length + (others.length + 1) := by simp
    have hfirst : ∀ index (h : index < first.length),
        isInert index (first ++ later :: others).length first[index] = true := by
      intro index h
      have hindex := hinert index (by omega)
      rwa [List.getElem_append_left h] at hindex
    have hstep : replaceAll (placeholder first.length) later (readOnce first text) =
        readOnce (first ++ [later]) text :=
      replaceAll_readOnce (by omega) hfirst htext
    have hconcat : (first ++ [later]).length = first.length + 1 := by simp
    rw [fillFrom, hstep, ← hconcat, ih (by simpa using hinert)]
    simp

/-- Putting in arguments one after the other is putting them in at once, if none but the last brings
in what could be taken for a later placeholder. -/
theorem fillFrom_eq_readOnce {arguments : List (List Char)} {text : List Char}
    (htext : isCrowded text = false)
    (hinert : ∀ index (h : index + 1 < arguments.length),
      isInert index arguments.length arguments[index] = true) :
    fillFrom 0 arguments text = readOnce arguments text := by
  have hfill := @fillFrom_readOnce [] arguments text htext hinert
  rwa [readOnce_nil] at hfill

end Substitution

/-- The template with every placeholder of an argument replaced by it, all at once: what an argument
brings in is not looked at. -/
def fillAtOnce (template : String) (arguments : List String) : String :=
  String.ofList (Substitution.readOnce (arguments.map String.toList) template.toList)

/-- If no argument but the last brings in what could be taken for a later placeholder, and no brace
of the template could become one, then putting in the arguments one after the other is putting them
in at once. -/
theorem substitute_eq_fillAtOnce {template : String} {arguments : List String}
    (htemplate : Substitution.isCrowded template.toList = false)
    (harguments : ∀ index (h : index + 1 < arguments.length),
      Substitution.isInert index arguments.length arguments[index].toList = true) :
    substitute template arguments = fillAtOnce template arguments :=
  congrArg String.ofList (Substitution.fillFrom_eq_readOnce htemplate (by simpa using harguments))

/-- An argument may look like its own placeholder. -/
theorem substitute_eq_fillAtOnce_braces :
    substitute "'\x7b0\x7d' on '\x7b1\x7d'" ["\x7b0\x7d", "a"] =
        fillAtOnce "'\x7b0\x7d' on '\x7b1\x7d'" ["\x7b0\x7d", "a"] ∧
      fillAtOnce "'\x7b0\x7d' on '\x7b1\x7d'" ["\x7b0\x7d", "a"] = "'\x7b0\x7d' on 'a'" := by
  refine ⟨substitute_eq_fillAtOnce (by decide +kernel) fun index h => ?_, by decide +kernel⟩
  obtain rfl : index = 0 := by
    simp only [List.length_cons, List.length_nil] at h
    omega
  have hinert : Substitution.isInert 0 2 "\x7b0\x7d".toList = true := by decide +kernel
  exact hinert

/-- The name of a type that holds a literal is rewritten when it looks like a later placeholder. -/
theorem substitute_rewrites_argument :
    let problem := Problem.additionMismatch "\"\x7b2\x7d\"[]" "boolean"
    substitute problem.template problem.arguments =
        "The binary operator '+' cannot be applied to type '\"boolean\"[]' and 'boolean'" ∧
      fillAtOnce problem.template problem.arguments =
        "The binary operator '+' cannot be applied to type '\"\x7b2\x7d\"[]' and 'boolean'" := by
  decide +kernel

namespace Problem

/-- No wording has a brace that an argument could complete to a placeholder. -/
theorem isCrowded_template (problem : Problem) :
    Substitution.isCrowded problem.template.toList = false := by
  cases problem <;> dsimp only [template] <;> decide +kernel

/-- A problem is shown with its names as they are, if none but the last of them brings in what could
be taken for a later placeholder. -/
theorem message_eq_fillAtOnce {problem : Problem}
    (h : ∀ index (h : index + 1 < problem.arguments.length),
      Substitution.isInert index problem.arguments.length problem.arguments[index].toList = true) :
    problem.message = fillAtOnce problem.template problem.arguments :=
  congrArg String.ofList
    (Substitution.fillFrom_eq_readOnce problem.isCrowded_template (by simpa using h))

end Problem

end ExpressionTyping
