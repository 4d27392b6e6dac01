import Mathlib.Algebra.GroupWithZero.Nat
import JsonGrammar.Text.Location

/-!
# Coordinates are exact

The coordinates of a location come from the characters before it, and the lines
of a text from all of its line feeds.  What ties them together is that the
characters before a place are some whole lines, each with its line feed, and
the beginning of one more (`lines_append`).  So the offset and the lengths of
the earlier lines add up to the position, and the coordinates go up with it.

The coordinates can also be counted on a walk along the text that keeps the
number of the line and the place where it starts (`walk`).  Each step of the
walk keeps `Counts`, and so the walk stops at the coordinates of the location,
with a start of the line that does not lie behind it
(`coordinates_eq_lineStart`).
-/

namespace JsonGrammar

/-! ## Pieces between separators -/

section

variable {separator : Char}

theorem length_splitOn (text : List Char) :
    (text.splitOn separator).length = text.count separator + 1 := by
  induction text with
  | nil => rfl
  | cons ch text ih =>
      rw [List.splitOn_cons_eq_if_modifyHead, List.count_cons]
      split
      · rw [List.length_cons, ih]
      · rw [List.length_modifyHead, ih, Nat.add_zero]

/-- The pieces, with one separator behind each of them, are one character
longer than the text. -/
theorem sum_length_splitOn (text : List Char) :
    ((text.splitOn separator).map fun piece => piece.length + 1).sum = text.length + 1 := by
  induction text with
  | nil => rfl
  | cons ch text ih =>
      rw [List.splitOn_cons_eq_if_modifyHead]
      split
      · rw [List.map_cons, List.sum_cons, ih, List.length_nil, List.length_cons]
        omega
      · obtain ⟨first, others, hpieces⟩ :=
          List.exists_cons_of_ne_nil (List.splitOn_ne_nil separator text)
        rw [hpieces, List.map_cons, List.sum_cons] at ih
        rw [hpieces, List.modifyHead_cons, List.map_cons, List.sum_cons, List.length_cons,
          List.length_cons]
        omega

/-- A text without separators goes in front of the first piece. -/
theorem splitOn_append_of_not_mem {xs : List Char} (hxs : separator ∉ xs) (ys : List Char) :
    (xs ++ ys).splitOn separator = (ys.splitOn separator).modifyHead (xs ++ ·) := by
  induction xs with
  | nil => exact (congrFun List.modifyHead_id (ys.splitOn separator)).symm
  | cons ch xs ih =>
      rw [List.mem_cons, not_or] at hxs
      rw [List.cons_append, List.splitOn_cons_eq_if_modifyHead,
        if_neg (by simpa using Ne.symm hxs.1), ih hxs.2, List.modifyHead_modifyHead]
      rfl

end

/-- On an earlier line, or at a smaller offset of the same line. -/
def Coordinates.Before (here there : Coordinates) : Prop :=
  here.line < there.line ∨ here.line = there.line ∧ here.charOffset < there.charOffset

theorem Coordinates.Before.asymm {here there : Coordinates} (h : here.Before there) :
    ¬ there.Before here := by
  unfold Before at *
  omega

namespace Location

/-! ## The lines before a place -/

/-- The end of a text behind its last line feed. -/
def lastLine (passed : List Char) : List Char :=
  (passed.reverse.takeWhile (· != '\n')).reverse

theorem lastLine_append {tail : List Char} (htail : '\n' ∉ tail) (before : List Char) :
    lastLine (before ++ tail) = lastLine before ++ tail := by
  have hall : ∀ ch ∈ tail.reverse, (ch != '\n') = true := by
    intro ch hch
    rw [bne_iff_ne]
    rintro rfl
    exact htail (List.mem_reverse.mp hch)
  rw [lastLine, List.reverse_append, List.takeWhile_append_of_pos hall, List.reverse_append,
    List.reverse_reverse, lastLine]

theorem lastLine_concat_lineFeed (before : List Char) : lastLine (before ++ ['\n']) = [] := by
  simp [lastLine]

theorem count_append_of_not_mem {tail : List Char} (htail : '\n' ∉ tail) (before : List Char) :
    (before ++ tail).count '\n' = before.count '\n' := by
  rw [List.count_append, List.count_eq_zero.mpr htail, Nat.add_zero]

/-- A text is a line, or it is some lines with their line feeds and one more
line behind them. -/
theorem exists_last_line (passed : List Char) :
    '\n' ∉ passed ∨ ∃ before tail, passed = before ++ '\n' :: tail ∧ '\n' ∉ tail := by
  by_cases hfeed : '\n' ∈ passed
  · obtain ⟨tail, before, hreverse, htail⟩ :=
      List.eq_append_cons_of_mem (List.mem_reverse.mpr hfeed)
    refine Or.inr ⟨before.reverse, tail.reverse, ?_, by rwa [List.mem_reverse]⟩
    rw [← List.reverse_reverse passed, hreverse, List.reverse_append, List.reverse_cons,
      List.append_assoc, List.singleton_append]
  · exact Or.inl hfeed

/-- What is passed is the lines before, each with its line feed, and the
beginning of one more line; the rest goes on with that line. -/
theorem lines_append (passed rest : List Char) :
    ∃ earlier, earlier.length = passed.count '\n' ∧
      (earlier.map fun line => line.length + 1).sum + (lastLine passed).length = passed.length ∧
      (passed ++ rest).splitOn '\n' =
        earlier ++ (rest.splitOn '\n').modifyHead (lastLine passed ++ ·) := by
  rcases exists_last_line passed with hfeed | ⟨before, tail, rfl, htail⟩
  · have hlast : lastLine passed = passed := lastLine_append hfeed []
    refine ⟨[], (List.count_eq_zero.mpr hfeed).symm, ?_, ?_⟩
    · rw [hlast, List.map_nil, List.sum_nil, Nat.zero_add]
    · rw [hlast, splitOn_append_of_not_mem hfeed, List.nil_append]
  · have hsplit : before ++ '\n' :: tail = before ++ ['\n'] ++ tail := by
      rw [List.append_assoc, List.singleton_append]
    have hlast : lastLine (before ++ '\n' :: tail) = tail := by
      rw [hsplit, lastLine_append htail, lastLine_concat_lineFeed, List.nil_append]
    refine ⟨before.splitOn '\n', ?_, ?_, ?_⟩
    · rw [length_splitOn, hsplit, count_append_of_not_mem htail, List.count_append,
        List.count_singleton_self]
    · rw [sum_length_splitOn, hlast, List.length_append, List.length_cons]
      omega
    · rw [hlast, List.append_assoc, List.cons_append, List.splitOn_append_cons_self,
        splitOn_append_of_not_mem htail]

variable (loc : Location)

/-- The text behind the location. -/
def behind : List Char :=
  loc.text.toList.drop loc.position

theorem passed_append_behind : loc.passed ++ loc.behind = loc.text.toList :=
  List.take_append_drop _ _

theorem line_eq : loc.coordinates.line = loc.passed.count '\n' + 1 := rfl

theorem charOffset_eq :
    loc.coordinates.charOffset =
      (lastLine loc.passed).length + (loc.position - loc.passed.length) := by
  rw [lastLine, List.length_reverse]
  rfl

theorem length_passed : loc.passed.length = min loc.position loc.text.length := by
  rw [passed, List.length_take, String.length_toList]

/-- The lines of the text are the earlier ones, the located one, and more. -/
theorem exists_lines :
    ∃ earlier first others,
      loc.lines = earlier ++ (lastLine loc.passed ++ first) :: others ∧
      loc.behind.splitOn '\n' = first :: others ∧
      earlier.length + 1 = loc.coordinates.line ∧
      (earlier.map fun line => line.length + 1).sum + loc.coordinates.charOffset =
        loc.position := by
  obtain ⟨earlier, hcount, hsum, hlines⟩ := lines_append loc.passed loc.behind
  obtain ⟨first, others, hbehind⟩ :=
    List.exists_cons_of_ne_nil (List.splitOn_ne_nil '\n' loc.behind)
  refine ⟨earlier, first, others, ?_, hbehind, ?_, ?_⟩
  · rw [lines, ← passed_append_behind, hlines, hbehind, List.modifyHead_cons]
  · rw [hcount, line_eq]
  · have hlength := loc.length_passed
    rw [charOffset_eq]
    omega

theorem line_le_length_lines : loc.coordinates.line ≤ loc.lines.length := by
  obtain ⟨earlier, first, others, hlines, -, hline, -⟩ := loc.exists_lines
  rw [hlines, List.length_append, List.length_cons, ← hline]
  omega

/-- The offset and the earlier lines, each with its line feed, make up the
position. -/
theorem charOffset_add_sum :
    loc.coordinates.charOffset +
      ((loc.lines.take (loc.coordinates.line - 1)).map fun line => line.length + 1).sum =
        loc.position := by
  obtain ⟨earlier, first, others, hlines, -, hline, hsum⟩ := loc.exists_lines
  have htake : loc.lines.take (loc.coordinates.line - 1) = earlier := by
    rw [hlines, ← hline, Nat.add_sub_cancel, List.take_left]
  rw [htake, Nat.add_comm]
  exact hsum

/-- In the text the offset does not lead behind the located line. -/
theorem exists_located_line (hposition : loc.position ≤ loc.text.length) :
    ∃ line, loc.lines[loc.coordinates.line - 1]? = some line ∧
      loc.coordinates.charOffset ≤ line.length := by
  obtain ⟨earlier, first, others, hlines, -, hline, -⟩ := loc.exists_lines
  refine ⟨lastLine loc.passed ++ first, ?_, ?_⟩
  · rw [hlines, ← hline, Nat.add_sub_cancel, List.getElem?_append_right (Nat.le_refl _),
      Nat.sub_self, List.getElem?_cons_zero]
  · rw [charOffset_eq, length_passed, Nat.min_eq_left hposition, Nat.sub_self, Nat.add_zero,
      List.length_append]
    exact Nat.le_add_right _ _

/-- From the end of the text on the located line is the last one. -/
theorem line_eq_length_lines (hposition : loc.text.length ≤ loc.position) :
    loc.coordinates.line = loc.lines.length := by
  obtain ⟨earlier, first, others, hlines, hbehind, hline, -⟩ := loc.exists_lines
  have hnone : loc.behind = [] := by
    rwa [behind, List.drop_eq_nil_iff, String.length_toList]
  rw [hnone, List.splitOn_nil, List.cons.injEq] at hbehind
  rw [hlines, ← hbehind.2, List.length_append, List.length_singleton, hline]

/-! ## The order of locations -/

theorem line_mono (text : String) {position further : Nat} (hle : position ≤ further) :
    (coordinates ⟨text, position⟩).line ≤ (coordinates ⟨text, further⟩).line := by
  have hsublist := (List.take_prefix_take_left (l := text.toList) hle).sublist
  exact Nat.succ_le_succ (hsublist.count_le '\n')

theorem before_of_lt (text : String) {position further : Nat} (hlt : position < further) :
    (coordinates ⟨text, position⟩).Before (coordinates ⟨text, further⟩) := by
  rcases Nat.lt_or_eq_of_le (line_mono text (Nat.le_of_lt hlt)) with hline | hline
  · exact Or.inl hline
  · -- Behind the same earlier lines the offsets differ as the positions do.
    have hhere := charOffset_add_sum ⟨text, position⟩
    have hthere := charOffset_add_sum ⟨text, further⟩
    have hlines : lines ⟨text, further⟩ = lines ⟨text, position⟩ := rfl
    rw [← hline, hlines] at hthere
    simp only at hhere hthere
    exact Or.inr ⟨hline, by omega⟩

theorem lt_iff_before (text : String) (position further : Nat) :
    position < further ↔
      (coordinates ⟨text, position⟩).Before (coordinates ⟨text, further⟩) := by
  constructor
  · exact before_of_lt text
  · intro h
    rcases Nat.lt_trichotomy position further with hlt | rfl | hgt
    · exact hlt
    · exact absurd h h.asymm
    · exact absurd (before_of_lt text hgt) h.asymm

/-! ## The walk along the text -/

/-- The number of a line and the place where it starts. -/
structure LineStart where
  line : Nat
  start : Nat
  deriving DecidableEq

/-- Behind a line feed at `index` the next line starts. -/
def LineStart.past (here : LineStart) (ch : Char) (index : Nat) : LineStart :=
  if ch = '\n' then { line := here.line + 1, start := index + 1 } else here

/-- Step over the characters from `index` on, up to a position or to the end. -/
def walk (position : Nat) : List Char → Nat → LineStart → LineStart
  | [], _, here => here
  | ch :: rest, index, here =>
      if position ≤ index then here else walk position rest (index + 1) (here.past ch index)

/-- The line that is reached behind some characters, and its start among them. -/
structure Counts (passed : List Char) (here : LineStart) : Prop where
  line_eq : here.line = passed.count '\n' + 1
  start_add : here.start + (lastLine passed).length = passed.length

theorem counts_nil : Counts [] { line := 1, start := 0 } :=
  ⟨rfl, rfl⟩

theorem Counts.past {passed : List Char} {here : LineStart} (h : Counts passed here) (ch : Char) :
    Counts (passed ++ [ch]) (here.past ch passed.length) := by
  obtain ⟨hline, hstart⟩ := h
  unfold LineStart.past
  split
  · rename_i hfeed
    subst hfeed
    constructor
    · rw [List.count_append, List.count_singleton_self, hline]
    · rw [lastLine_concat_lineFeed, List.length_append, List.length_singleton, List.length_nil]
  · rename_i hother
    have hnot : '\n' ∉ [ch] := by
      rw [List.mem_singleton]
      exact Ne.symm hother
    constructor
    · rw [count_append_of_not_mem hnot, hline]
    · rw [lastLine_append hnot, List.length_append, List.length_append, ← hstart, Nat.add_assoc]

theorem Counts.walk {passed : List Char} {here : LineStart} (h : Counts passed here)
    (rest : List Char) {position : Nat} (hposition : passed.length ≤ position) :
    Counts ((passed ++ rest).take position) (walk position rest passed.length here) := by
  induction rest generalizing passed here with
  | nil =>
      rw [List.append_nil, List.take_of_length_le hposition]
      exact h
  | cons ch rest ih =>
      unfold Location.walk
      split
      · rename_i hreached
        rw [List.take_left' (Nat.le_antisymm hposition hreached)]
        exact h
      · have hthen := ih (h.past ch) (by rw [List.length_append, List.length_singleton]; omega)
        rwa [List.append_assoc, List.singleton_append, List.length_append,
          List.length_singleton] at hthen

/-- The walk from the front of the text to the position. -/
def lineStart : LineStart :=
  walk loc.position loc.text.toList 0 { line := 1, start := 0 }

theorem counts_lineStart : Counts loc.passed loc.lineStart :=
  counts_nil.walk loc.text.toList (Nat.zero_le _)

/-- The line does not start behind the position, and the offset is the
difference. -/
theorem coordinates_eq_lineStart :
    loc.lineStart.start ≤ loc.position ∧
      loc.coordinates =
        { line := loc.lineStart.line, charOffset := loc.position - loc.lineStart.start } := by
  obtain ⟨hline, hstart⟩ := loc.counts_lineStart
  have hlength := loc.length_passed
  have hoffset := loc.charOffset_eq
  have hdifference : loc.position - loc.lineStart.start = loc.coordinates.charOffset := by
    omega
  refine ⟨by omega, ?_⟩
  rw [hline, ← line_eq, hdifference]

/-! ## The coordinates -/

/-- The located line is one of the lines of the text; it starts behind the
earlier lines with their line feeds, and the offset counts on from there.  In
the text the offset stays on the line, and from its end on the line is the last
one.  So later locations have later coordinates and different ones different
coordinates.  A walk along the text comes to the same line, and what it
subtracts for the start of that line is never more than the position. -/
theorem coordinates_exact :
    1 ≤ loc.coordinates.line ∧ loc.coordinates.line ≤ loc.lines.length ∧
    loc.coordinates.charOffset +
      ((loc.lines.take (loc.coordinates.line - 1)).map fun line => line.length + 1).sum =
        loc.position ∧
    (loc.position ≤ loc.text.length → ∃ line, loc.lines[loc.coordinates.line - 1]? = some line ∧
      loc.coordinates.charOffset ≤ line.length) ∧
    (loc.text.length ≤ loc.position → loc.coordinates.line = loc.lines.length) ∧
    (∀ further, loc.position < further ↔
      loc.coordinates.Before (coordinates ⟨loc.text, further⟩)) ∧
    (∀ other, coordinates ⟨loc.text, other⟩ = loc.coordinates → other = loc.position) ∧
    loc.lineStart.start ≤ loc.position ∧
    loc.coordinates =
      { line := loc.lineStart.line, charOffset := loc.position - loc.lineStart.start } := by
  refine ⟨Nat.succ_le_succ (Nat.zero_le _), loc.line_le_length_lines, loc.charOffset_add_sum,
    loc.exists_located_line, loc.line_eq_length_lines, lt_iff_before loc.text loc.position,
    fun other hsame => ?_, loc.coordinates_eq_lineStart⟩
  have hthere := charOffset_add_sum ⟨loc.text, other⟩
  rw [hsame] at hthere
  exact hthere.symm.trans loc.charOffset_add_sum

/-- On the first of two line feeds in a row, and behind the end of a last line
that is not empty. -/
theorem coordinates_exact_around_feeds :
    let loc : Location := { text := "é\r\n\nxy", position := 2 }
    let later : Location := { text := "é\r\n\nxy", position := 9 }
    loc.coordinates = { line := 1, charOffset := 2 } ∧
      later.coordinates = { line := 3, charOffset := 5 } ∧
      (∃ line, loc.lines[loc.coordinates.line - 1]? = some line ∧
        loc.coordinates.charOffset ≤ line.length) ∧
      later.coordinates.line = later.lines.length ∧
      loc.coordinates.Before later.coordinates := by
  intro loc later
  obtain ⟨-, -, -, hline, -, hbefore, -⟩ := loc.coordinates_exact
  obtain ⟨-, -, -, -, hlast, -⟩ := later.coordinates_exact
  have hhere : loc.coordinates = { line := 1, charOffset := 2 } := by decide
  have hthere : later.coordinates = { line := 3, charOffset := 5 } := by decide
  exact ⟨hhere, hthere, hline (by decide), hlast (by decide), (hbefore 9).mp (by decide)⟩

end Location

end JsonGrammar
