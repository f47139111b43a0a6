import Mathlib.Data.List.DropRight
import ExpressionTyping.Text.Position

/-!
# Lines and columns by counting

The line of an offset is the number of newlines before it, and its column the number of characters
since the last of them. The line starts are sorted, so they are cut in two by an offset, and what a
search for the cut finds is the number of starts that `LineMap.position` passes; the subtractions
and the look-up that follow the search cannot fail.
-/

set_option autoImplicit false

namespace ExpressionTyping

/-- Whether a position comes before another one in the text. -/
def Position.Before (first second : Position) : Prop :=
  first.line < second.line ∨ first.line = second.line ∧ first.column < second.column

instance (first second : Position) : Decidable (first.Before second) :=
  inferInstanceAs (Decidable (_ ∨ _))

namespace LineMap

/-! ## The line starts of a text -/

/-- The line starts in two texts in a row are those of the first, then those of the second, moved by
the length of the first. -/
theorem startsAfterNewlines_append (offset : Nat) (front back : List Char) :
    startsAfterNewlines offset (front ++ back) =
      startsAfterNewlines offset front ++ startsAfterNewlines (offset + front.length) back := by
  induction front generalizing offset with
  | nil => simp [startsAfterNewlines]
  | cons c front ih =>
    simp only [List.cons_append, startsAfterNewlines, ih, List.length_cons]
    split <;> simp [Nat.add_assoc, Nat.add_comm 1]

/-- A line starts after each line feed. -/
theorem length_startsAfterNewlines (offset : Nat) (chars : List Char) :
    (startsAfterNewlines offset chars).length = chars.count '\n' := by
  induction chars generalizing offset with
  | nil => rfl
  | cons c chars ih =>
    simp only [startsAfterNewlines, List.count_cons]
    split <;> simp_all

/-- A line that starts after a line feed starts behind the offset and not behind the end of the
text. -/
theorem bounds_of_mem_startsAfterNewlines {offset start : Nat} {chars : List Char}
    (mem : start ∈ startsAfterNewlines offset chars) :
    offset < start ∧ start ≤ offset + chars.length := by
  induction chars generalizing offset with
  | nil => simp [startsAfterNewlines] at mem
  | cons c chars ih =>
    have later : start ∈ startsAfterNewlines (offset + 1) chars →
        offset < start ∧ start ≤ offset + (chars.length + 1) := fun mem => by
      have := ih mem
      omega
    simp only [startsAfterNewlines] at mem
    split at mem
    · rcases List.mem_cons.mp mem with rfl | mem
      · simp
      · exact later mem
    · exact later mem

/-- Line starts after line feeds ascend. -/
theorem startsAfterNewlines_sorted (offset : Nat) (chars : List Char) :
    (startsAfterNewlines offset chars).Pairwise (· < ·) := by
  induction chars generalizing offset with
  | nil => exact List.Pairwise.nil
  | cons c chars ih =>
    simp only [startsAfterNewlines]
    split
    · exact List.pairwise_cons.mpr ⟨fun _ mem => (bounds_of_mem_startsAfterNewlines mem).1, ih _⟩
    · exact ih _

/-- Line starts ascend. -/
theorem starts_sorted (text : String) : (ofText text).starts.Pairwise (· < ·) :=
  List.pairwise_cons.mpr ⟨fun _ mem => (bounds_of_mem_startsAfterNewlines mem).1,
    startsAfterNewlines_sorted 0 _⟩

/-- The starts that an offset has passed are those of the text before it. -/
theorem takeWhile_starts (text : String) (offset : Nat) :
    (ofText text).starts.takeWhile (· ≤ offset) =
      0 :: startsAfterNewlines 0 (text.toList.take offset) := by
  have cut := startsAfterNewlines_append 0 (text.toList.take offset) (text.toList.drop offset)
  rw [List.take_append_drop, Nat.zero_add] at cut
  have passed : ∀ start ∈ startsAfterNewlines 0 (text.toList.take offset), start ≤ offset :=
    fun start mem => by
      have := (bounds_of_mem_startsAfterNewlines mem).2
      have := List.length_take_le offset text.toList
      omega
  have ahead : (startsAfterNewlines (text.toList.take offset).length
      (text.toList.drop offset)).takeWhile (· ≤ offset) = [] := by
    by_cases past : text.toList.length ≤ offset
    · simp [List.drop_eq_nil_of_le past, startsAfterNewlines]
    · refine List.takeWhile_eq_nil_iff.mpr fun nonempty => ?_
      have mem := List.get_mem _ (⟨0, nonempty⟩ : Fin _)
      have := (bounds_of_mem_startsAfterNewlines mem).1
      simp only [List.length_take] at this ⊢
      simp only [decide_eq_true_eq]
      omega
  rw [ofText, List.takeWhile_cons_of_pos (by simp), cut, List.takeWhile_append_of_pos (by simpa),
    ahead, List.append_nil]

/-- The last line start and the characters since then make up the text. -/
theorem getLast_starts (chars : List Char) :
    (0 :: startsAfterNewlines 0 chars).getLast?.getD 0 +
      (chars.rtakeWhile (· ≠ '\n')).length = chars.length := by
  induction chars using List.reverseRecOn with
  | nil => simp [startsAfterNewlines]
  | append_singleton chars c ih =>
    rw [startsAfterNewlines_append]
    by_cases newline : c = '\n'
    · subst newline
      rw [List.rtakeWhile_concat_neg _ _ _ (by simp)]
      simp [startsAfterNewlines, List.getLast?_cons]
    · rw [List.rtakeWhile_concat_pos _ _ _ (by simpa using newline)]
      simp only [startsAfterNewlines, newline, ↓reduceIte, List.append_nil, List.length_append,
        List.length_singleton]
      omega

/-! ## Positions -/

/-- The line of an offset is the number of line feeds before it. -/
theorem position_line (text : String) (offset : Nat) :
    ((ofText text).position offset).line = (text.toList.take offset).count '\n' := by
  simp [position, takeWhile_starts, length_startsAfterNewlines]

/-- An offset is the start of its line and its column together. -/
theorem start_add_column (text : String) (offset : Nat) :
    ∃ start, (ofText text).starts[((ofText text).position offset).line]? = some start ∧
      start + ((ofText text).position offset).column = offset := by
  have passed := takeWhile_starts text offset
  set reached := startsAfterNewlines 0 (text.toList.take offset) with at_reached
  have last : (0 :: reached)[reached.length]? = some ((0 :: reached).getLast?.getD 0) := by
    rw [List.getLast?_cons, Option.getD_some, ← List.getLast?_cons, List.getLast?_eq_getElem?]
    rfl
  have line : ((ofText text).position offset).line = reached.length := by
    rw [position_line, at_reached, length_startsAfterNewlines]
  have column : ((ofText text).position offset).column =
      offset - (0 :: reached).getLast?.getD 0 := by
    simp [position, passed]
  have before : (0 :: reached).getLast?.getD 0 ≤ offset := by
    have whole := getLast_starts (text.toList.take offset)
    rw [← at_reached] at whole
    have := List.length_take_le offset text.toList
    omega
  refine ⟨(0 :: reached).getLast?.getD 0, ?_, by rw [column]; omega⟩
  rw [line, ← last]
  obtain ⟨ahead, whole⟩ : (0 :: reached) <+: (ofText text).starts :=
    passed ▸ List.takeWhile_prefix _
  rw [← whole, List.getElem?_append_left (by simp)]

/-- The column of an offset in the text is the number of characters since the last line feed before
it. -/
theorem position_column (text : String) {offset : Nat} (within : offset ≤ text.length) :
    ((ofText text).position offset).column =
      ((text.toList.take offset).rtakeWhile (· ≠ '\n')).length := by
  have whole := getLast_starts (text.toList.take offset)
  rw [List.length_take_of_le (by rwa [String.length_toList])] at whole
  have column : ((ofText text).position offset).column =
      offset - (0 :: startsAfterNewlines 0 (text.toList.take offset)).getLast?.getD 0 := by
    simp [position, takeWhile_starts]
  omega

/-- A later offset has a later position: it is on a later line, or further along the same one. -/
theorem position_before (text : String) {first second : Nat} (lt : first < second) :
    ((ofText text).position first).Before ((ofText text).position second) := by
  obtain ⟨firstStart, firstFound, firstSum⟩ := start_add_column text first
  obtain ⟨secondStart, secondFound, secondSum⟩ := start_add_column text second
  have le : ((ofText text).position first).line ≤ ((ofText text).position second).line := by
    simp only [position_line]
    exact (List.take_sublist_take_left (by omega)).count_le _
  refine (Nat.lt_or_eq_of_le le).imp id fun same => ⟨same, ?_⟩
  rw [same, secondFound, Option.some_inj] at firstFound
  omega

/-! ## Searching the line starts -/

/-- Whether a number of line starts is where a search for an offset stops: the starts before it are
at most the offset, and the starts from it on are past it. -/
structure Splits (map : LineMap) (offset count : Nat) : Prop where
  /-- The search stops within the starts. -/
  within : count ≤ map.starts.length
  /-- The starts at most the offset are those before the place. -/
  split : ∀ index start, map.starts[index]? = some start → (start ≤ offset ↔ index < count)

/-- A difference, if it does not go below zero. -/
def minus? (whole part : Nat) : Option Nat :=
  if part ≤ whole then some (whole - part) else none

/-- The position of an offset from the place where a search stopped, if neither subtraction goes
below zero and the line exists. -/
def position? (map : LineMap) (offset count : Nat) : Option Position := do
  let line ← minus? count 1
  let start ← map.starts[line]?
  let column ← minus? offset start
  return ⟨line, column⟩

/-- Sorted starts are split at those that an offset has passed, and nowhere else. -/
theorem splits_iff {map : LineMap} (sorted : map.starts.Pairwise (· < ·)) (offset count : Nat) :
    map.Splits offset count ↔ count = (map.starts.takeWhile (· ≤ offset)).length := by
  have passed : (map.starts.takeWhile (· ≤ offset)).length =
      map.starts.findIdx (fun start => !decide (start ≤ offset)) := by
    rw [List.takeWhile_eq_take_findIdx_not, List.length_take_of_le List.findIdx_le_length]
  rw [passed]
  set cut := map.starts.findIdx (fun start => !decide (start ≤ offset))
  have first_ahead : ∀ lt : cut < map.starts.length, offset < map.starts[cut] := fun lt => by
    have ahead := List.findIdx_getElem (w := lt)
    exact Nat.lt_of_not_le (of_decide_eq_false (Bool.not_eq_true' _ ▸ ahead))
  have before : ∀ index start, map.starts[index]? = some start → index < cut → start ≤ offset := by
    intro index start found lt
    obtain ⟨_, rfl⟩ := List.getElem?_eq_some_iff.mp found
    simpa using List.not_of_lt_findIdx lt
  constructor
  · rintro ⟨within, split⟩
    refine Nat.le_antisymm (Nat.le_of_not_lt fun early => ?_) (Nat.le_of_not_lt fun late => ?_)
    · have := first_ahead (early.trans_le within)
      have := (split _ _ (List.getElem?_eq_getElem (early.trans_le within))).mpr early
      omega
    · have found := List.getElem?_eq_getElem (late.trans_le List.findIdx_le_length)
      exact Nat.lt_irrefl _ ((split _ _ found).mp (before _ _ found late))
  · rintro rfl
    refine ⟨List.findIdx_le_length, fun index start found => ?_⟩
    refine ⟨fun le => Nat.lt_of_not_le fun past => ?_, before index start found⟩
    obtain ⟨lt, rfl⟩ := List.getElem?_eq_some_iff.mp found
    have ahead := first_ahead (past.trans_lt lt)
    have sorted_at := List.pairwise_iff_getElem.mp sorted _ _ (past.trans_lt lt) lt
    rcases Nat.eq_or_lt_of_le past with same | further
    · simp only [same] at ahead
      omega
    · have := sorted_at further
      omega

/-- What follows the search cannot fail, and gives the position of the offset. -/
theorem position?_of_splits {text : String} {offset count : Nat}
    (splits : (ofText text).Splits offset count) :
    (ofText text).position? offset count = some ((ofText text).position offset) := by
  obtain ⟨start, found, sum⟩ := start_add_column text offset
  have at_count := (splits_iff (starts_sorted text) offset count).mp splits
  have line : ((ofText text).position offset).line = count - 1 := by rw [at_count]; rfl
  have positive : 1 ≤ count := by rw [at_count, takeWhile_starts]; simp
  have column : ((ofText text).position offset).column = offset - start := by omega
  simp only [position?, minus?, positive, ↓reduceIte, Option.bind_eq_bind, Option.bind_some,
    ← line, found, show start ≤ offset by omega, ← column]
  rfl

/-- Lines and columns count characters. Wherever a search for an offset among the line starts of a
text stops, and it can stop, the look-up and both subtractions after it go through and give the
position of the offset, also for an offset past the end. The line is on record and begins the
column before the offset, and is at most the offset, so a number type that holds the offset holds
both. For an offset of the text the line is the number of newlines before it, and the column the
number of characters after the last of them. A later offset has a later position. -/
theorem position_counts (text : String) (offset : Nat) :
    (∃ count, (ofText text).Splits offset count) ∧
    (∀ count, (ofText text).Splits offset count →
      (ofText text).position? offset count = some ((ofText text).position offset)) ∧
    (∃ start, (ofText text).starts[((ofText text).position offset).line]? = some start ∧
      start + ((ofText text).position offset).column = offset) ∧
    ((ofText text).position offset).line ≤ offset ∧
    (offset ≤ text.length →
      ((ofText text).position offset).line = (text.toList.take offset).count '\n' ∧
      ((ofText text).position offset).column =
        ((text.toList.take offset).rtakeWhile (· ≠ '\n')).length) ∧
    (∀ later, offset < later →
      ((ofText text).position offset).Before ((ofText text).position later)) := by
  refine ⟨⟨_, (splits_iff (starts_sorted text) offset _).mpr rfl⟩,
    fun _ => position?_of_splits, start_add_column text offset, ?_,
    fun within => ⟨position_line text offset, position_column text within⟩,
    fun _ => position_before text⟩
  rw [position_line]
  exact List.count_le_length.trans (List.length_take_le ..)

end LineMap

end ExpressionTyping
