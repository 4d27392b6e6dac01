import Mathlib.Data.List.Forall2
import JsonGrammar.Proofs.Text.Coordinates

/-!
# The lines around a location

The context of a location is a window of its text: the located line and up to
two lines on each side, each under its own number and without the carriage
return that may close it (`contextLines?_eq`).  Behind the located line stands a
pointer, and no other line looks like one.  There is room for the pointer
unless the location lies behind nearly every text (`length_pointer_le`).

The pointer stands under the located character.  That character is on the
located line, behind as many characters as the offset says, and it is shown
unless it is a carriage return that closes the line (`getElem?_render`).
-/

namespace JsonGrammar

/-! ## Numbered pieces of a list -/

section

variable {α β : Type}

/-- The numbers from `start` on that lie in a window are in a row. -/
theorem filter_range' (start count low high : Nat) :
    (List.range' start count).filter (fun n => decide (low ≤ n ∧ n ≤ high)) =
      List.range' (max start low) (min (start + count) (high + 1) - max start low) := by
  induction count with
  | zero =>
      rw [show min (start + 0) (high + 1) - max start low = 0 by omega]
      rfl
  | succ count ih =>
      rw [List.range'_1_concat, List.filter_append, ih]
      by_cases hwindow : low ≤ start + count ∧ start + count ≤ high
      · rw [List.filter_singleton, decide_eq_true hwindow, cond_true,
          show min (start + (count + 1)) (high + 1) - max start low =
            min (start + count) (high + 1) - max start low + 1 by omega,
          List.range'_1_concat,
          show max start low + (min (start + count) (high + 1) - max start low) =
            start + count by omega]
      · rw [List.filter_singleton, decide_eq_false hwindow, cond_false, List.append_nil,
          show min (start + (count + 1)) (high + 1) - max start low =
            min (start + count) (high + 1) - max start low by omega]

theorem filterMap_ite (p : α → Prop) [DecidablePred p] (f : α → β) (xs : List α) :
    xs.filterMap (fun x => if p x then some (f x) else none) =
      (xs.filter fun x => decide (p x)).map f := by
  induction xs with
  | nil => rfl
  | cons x xs ih =>
      rw [List.filterMap_cons, List.filter_cons, ih]
      by_cases hx : p x <;> simp [hx]

theorem zipIdx_eq_map_range' (xs : List α) (start : Nat) (other : α) :
    xs.zipIdx start =
      (List.range' start xs.length).map fun n => (xs.getD (n - start) other, n) := by
  refine List.ext_getElem (by simp) fun i hi _ => ?_
  rw [List.length_zipIdx] at hi
  simp [List.getElem?_eq_getElem hi]

end

namespace Location

variable (loc : Location)

/-! ## The window -/

/-- A line of the text as it is shown. -/
def shownLine (number : Nat) : ContextLine where
  number := number
  content := String.ofList (withoutReturn (loc.lines.getD (number - 1) []))
  marked := number == loc.coordinates.line

theorem marked_located : (loc.shownLine loc.coordinates.line).marked = true :=
  beq_self_eq_true _

/-- The first line that is shown. -/
def firstShown : Nat :=
  max 1 (loc.coordinates.line - 2)

/-- The last line that is shown. -/
def lastShown : Nat :=
  min loc.lines.length (loc.coordinates.line + 2)

theorem line_shown : loc.firstShown ≤ loc.coordinates.line ∧
    loc.coordinates.line ≤ loc.lastShown := by
  have hpos : 1 ≤ loc.coordinates.line := Nat.succ_le_succ (Nat.zero_le _)
  have hle := loc.line_le_length_lines
  unfold firstShown lastShown
  omega

theorem context_eq :
    loc.context =
      (List.range' loc.firstShown (loc.lastShown + 1 - loc.firstShown)).map loc.shownLine := by
  have hcount : min (1 + loc.lines.length) (loc.coordinates.line + 2 + 1) - loc.firstShown =
      loc.lastShown + 1 - loc.firstShown := by
    unfold lastShown
    omega
  rw [context, zipIdx_eq_map_range' loc.lines 1 [], List.filterMap_map, ← hcount, firstShown,
    ← filter_range' 1 loc.lines.length, ← filterMap_ite]
  rfl

/-- In the window the line stands once, with the lines before it in front of it
and the lines behind it behind. -/
theorem window_eq :
    List.range' loc.firstShown (loc.lastShown + 1 - loc.firstShown) =
      List.range' loc.firstShown (loc.coordinates.line - loc.firstShown) ++
        loc.coordinates.line ::
          List.range' (loc.coordinates.line + 1) (loc.lastShown - loc.coordinates.line) := by
  obtain ⟨hfirst, hlast⟩ := loc.line_shown
  rw [show loc.lastShown + 1 - loc.firstShown = loc.coordinates.line - loc.firstShown +
    (loc.lastShown - loc.coordinates.line + 1) by omega, ← List.range'_append_1,
    show loc.firstShown + (loc.coordinates.line - loc.firstShown) = loc.coordinates.line by omega,
    List.range'_succ]

/-- The pointer under the located character. -/
def pointer : String :=
  pointerLine ((loc.shownLine loc.coordinates.line).gutter.length + loc.coordinates.charOffset)

theorem length_pointerLine (column : Nat) :
    (pointerLine column).length = column + "^--- here".length := by
  rw [pointerLine, String.length_append, String.length_ofList, List.length_replicate]

/-- The located line comes with a pointer if there is room for one. -/
theorem renderPointed?_located :
    loc.renderPointed? (loc.shownLine loc.coordinates.line) =
      if loc.pointer.length ≤ longestText then
        some [(loc.shownLine loc.coordinates.line).render, loc.pointer]
      else none := by
  rw [renderPointed?, if_pos loc.marked_located, pointerLine?, pointer, length_pointerLine]
  split <;> rfl

theorem mapM_renderPointed?_unmarked {numbers : List Nat}
    (hnumbers : loc.coordinates.line ∉ numbers) :
    (numbers.map loc.shownLine).mapM loc.renderPointed? =
      some (numbers.map fun number => [(loc.shownLine number).render]) := by
  induction numbers with
  | nil => rfl
  | cons number numbers ih =>
      rw [List.mem_cons, not_or] at hnumbers
      have hunmarked : ¬ (loc.shownLine number).marked = true :=
        fun h => hnumbers.1 (beq_iff_eq.mp h).symm
      rw [List.map_cons, List.mapM_cons, ih hnumbers.2, renderPointed?, if_neg hunmarked]
      rfl

/-- The lines of the window, and the pointer behind the located one. -/
theorem contextLines?_eq :
    loc.contextLines? =
      if loc.pointer.length ≤ longestText then
        some ((List.range' loc.firstShown (loc.coordinates.line - loc.firstShown)).map
            (fun number => (loc.shownLine number).render) ++
          (loc.shownLine loc.coordinates.line).render :: loc.pointer ::
            (List.range' (loc.coordinates.line + 1) (loc.lastShown - loc.coordinates.line)).map
              fun number => (loc.shownLine number).render)
      else none := by
  have hbefore : loc.coordinates.line ∉
      List.range' loc.firstShown (loc.coordinates.line - loc.firstShown) := by
    rw [List.mem_range'_1]
    omega
  have hafter : loc.coordinates.line ∉
      List.range' (loc.coordinates.line + 1) (loc.lastShown - loc.coordinates.line) := by
    rw [List.mem_range'_1]
    omega
  rw [contextLines?, context_eq, window_eq, List.map_append, List.map_cons, List.mapM_append,
    List.mapM_cons, loc.mapM_renderPointed?_unmarked hbefore,
    loc.mapM_renderPointed?_unmarked hafter, renderPointed?_located]
  split
  · simp only [Option.bind_eq_bind, Option.bind_some, Option.pure_def, Option.map_some,
      List.flatten_append, List.flatten_cons, ← List.flatMap_def, ← List.map_eq_flatMap]
    rfl
  · rfl

/-! ## Room for the pointer -/

theorem charOffset_le_position : loc.coordinates.charOffset ≤ loc.position :=
  Nat.le.intro loc.charOffset_add_sum

theorem line_le_position_succ : loc.coordinates.line ≤ loc.position + 1 := by
  have hcount : loc.passed.count '\n' ≤ loc.passed.length := List.count_le_length
  have hlength := loc.length_passed
  rw [line_eq]
  omega

/-- The pointer fits into a text where the position leaves room for the mark,
the number of the line, the rule, and the words behind the blanks. -/
theorem length_pointer_le (hposition : loc.position + 64 ≤ longestText) :
    loc.pointer.length ≤ longestText := by
  have hoffset := loc.charOffset_le_position
  have hline := loc.line_le_position_succ
  have hlongest : longestText < 10 ^ 19 := by
    decide
  have hdigits : (Nat.toDigits 10 loc.coordinates.line).length ≤ 19 :=
    (Nat.length_toDigits_le_iff (by decide) (by decide)).mpr (by omega)
  have hnumber : (toString loc.coordinates.line).length =
      (Nat.toDigits 10 loc.coordinates.line).length := by
    rw [Nat.toString_eq_repr, ← String.length_toList, Nat.toList_repr]
  have hgutter : (loc.shownLine loc.coordinates.line).gutter =
      "  > " ++ toString loc.coordinates.line ++ " | " := by
    rw [ContextLine.gutter, if_pos loc.marked_located]
    rfl
  rw [pointer, length_pointerLine, hgutter, String.length_append, String.length_append, hnumber]
  have hmark : "  > ".length = 4 := rfl
  have hrule : " | ".length = 3 := rfl
  have hwords : "^--- here".length = 9 := rfl
  omega

/-! ## What a line shows -/

/-- Line `number` of the text behind a mark and its number, without the carriage
return that may close it. -/
def Shows (mark : String) (number : Nat) (shown : String) : Prop :=
  ∃ line kept, loc.lines[number - 1]? = some line ∧
    (line = kept ++ ['\r'] ∨ line = kept ∧ line.getLast? ≠ some '\r') ∧
    shown = mark ++ toString number ++ " | " ++ String.ofList kept

theorem eq_withoutReturn (line : List Char) :
    line = withoutReturn line ++ ['\r'] ∨
      line = withoutReturn line ∧ line.getLast? ≠ some '\r' := by
  unfold withoutReturn
  split
  · rename_i hlast
    exact Or.inl (List.dropLast_append_getLast? '\r' hlast).symm
  · rename_i hlast
    exact Or.inr ⟨rfl, hlast⟩

theorem shows_render {number : Nat} (hfirst : 1 ≤ number) (hlast : number ≤ loc.lines.length) :
    loc.Shows (if number = loc.coordinates.line then "  > " else "    ") number
      (loc.shownLine number).render := by
  have hline : loc.lines[number - 1]? = some (loc.lines.getD (number - 1) []) := by
    rw [List.getD_eq_getElem?_getD, List.getElem?_eq_getElem (by omega), Option.getD_some]
  refine ⟨_, _, hline, eq_withoutReturn _, ?_⟩
  rw [ContextLine.render, ContextLine.gutter]
  simp [shownLine]

/-- Lines in a row of which none is the located one are shown without a mark. -/
theorem forall₂_shows_render {start count : Nat}
    (hline : loc.coordinates.line ∉ List.range' start count) (hstart : 1 ≤ start)
    (hcount : start + count ≤ loc.lines.length + 1) :
    List.Forall₂ (loc.Shows "    ") (List.range' start count)
      ((List.range' start count).map fun number => (loc.shownLine number).render) := by
  rw [List.forall₂_map_right_iff, List.forall₂_same]
  intro number hnumber
  obtain ⟨hge, hlt⟩ := List.mem_range'_1.mp hnumber
  have hother : number ≠ loc.coordinates.line := by
    rintro rfl
    exact hline hnumber
  have hshows := loc.shows_render (Nat.le_trans hstart hge) (by omega)
  rwa [if_neg hother] at hshows

/-! ## The pointer -/

theorem toList_pointerLine (column : Nat) :
    (pointerLine column).toList = List.replicate column ' ' ++ "^--- here".toList := by
  rw [pointerLine, String.toList_append, String.toList_ofList]

/-- The pointer points at its column. -/
theorem idxOf_pointerLine (column : Nat) : (pointerLine column).toList.idxOf '^' = column := by
  have hspace : '^' ∉ List.replicate column ' ' := by
    intro hmem
    exact absurd (List.eq_of_mem_replicate hmem) (by decide)
  rw [toList_pointerLine, List.idxOf_append_of_notMem hspace, List.length_replicate]
  rfl

/-- The first character of a text that is no space. -/
def firstMark (text : String) : Option Char :=
  (text.toList.dropWhile (· == ' ')).head?

theorem firstMark_pointerLine (column : Nat) : firstMark (pointerLine column) = some '^' := by
  have hspaces : ∀ ch ∈ List.replicate column ' ', (ch == ' ') = true := by
    intro ch hch
    rw [List.eq_of_mem_replicate hch]
    rfl
  rw [firstMark, toList_pointerLine, List.dropWhile_append_of_pos hspaces]
  rfl

/-- A line that begins with a mark and a number is no pointer. -/
theorem render_ne_pointerLine (shown : ContextLine) (column : Nat) :
    shown.render ≠ pointerLine column := by
  have hsome : Nat.toDigits 10 shown.number ≠ [] := List.length_pos_iff.mp Nat.length_toDigits_pos
  obtain ⟨digit, digits, hdigits⟩ := List.exists_cons_of_ne_nil hsome
  have hdigit : digit.isDigit = true := by
    refine Nat.isDigit_of_mem_toDigits (b := 10) (n := shown.number) (by decide) (by decide) ?_
    rw [hdigits]
    exact List.mem_cons_self
  have hspace : digit ≠ ' ' := by
    rintro rfl
    exact absurd hdigit (by decide)
  have hcaret : digit ≠ '^' := by
    rintro rfl
    exact absurd hdigit (by decide)
  intro heq
  have hmarks := congrArg firstMark heq
  rw [firstMark_pointerLine, ContextLine.render, ContextLine.gutter] at hmarks
  split at hmarks
  · simp [firstMark] at hmarks
  · simp [firstMark, hdigits, hspace, hcaret] at hmarks

/-! ## The located character -/

variable {loc}

theorem getElem?_withoutReturn {content : List Char} {index : Nat} {ch : Char}
    (hline : content[index]? = some ch) (hreturn : ch = '\r' → index + 1 < content.length) :
    (withoutReturn content)[index]? = some ch := by
  unfold withoutReturn
  split
  · rename_i hlast
    have hlt := (List.getElem?_eq_some_iff.mp hline).1
    have hbefore : index < content.length - 1 := by
      by_contra hnot
      have hindex : content.length - 1 = index := by omega
      rw [List.getLast?_eq_getElem?, hindex, hline] at hlast
      have hlonger := hreturn (Option.some.inj hlast)
      omega
    rw [List.getElem?_dropLast, if_pos hbefore, hline]
  · exact hline

/-- A character that is no line feed begins the first line of a text. -/
theorem exists_splitOn_cons {ch : Char} (hfeed : ch ≠ '\n') (more : List Char) :
    ∃ first others, more.splitOn '\n' = first :: others ∧
      (ch :: more).splitOn '\n' = (ch :: first) :: others := by
  obtain ⟨first, others, hmore⟩ := List.exists_cons_of_ne_nil (List.splitOn_ne_nil '\n' more)
  refine ⟨first, others, hmore, ?_⟩
  rw [List.splitOn_cons_eq_if_modifyHead, if_neg (by simpa using hfeed), hmore,
    List.modifyHead_cons]

/-- The located character stands on the located line as far behind its beginning
as the offset says.  The line goes on behind it if no line feed does. -/
theorem exists_line_of_char {ch : Char} (hch : loc.text.toList[loc.position]? = some ch)
    (hfeed : ch ≠ '\n') :
    ∃ content, loc.lines[loc.coordinates.line - 1]? = some content ∧
      content[loc.coordinates.charOffset]? = some ch ∧
      ∀ next, loc.text.toList[loc.position + 1]? = some next → next ≠ '\n' →
        loc.coordinates.charOffset + 1 < content.length := by
  obtain ⟨earlier, first, others, hlines, hbehind, hline, -⟩ := loc.exists_lines
  obtain ⟨hlt, hget⟩ := List.getElem?_eq_some_iff.mp hch
  have hdrop : loc.behind = ch :: loc.text.toList.drop (loc.position + 1) := by
    rw [behind, List.drop_eq_getElem_cons hlt, hget]
  obtain ⟨first', others', hmore, hsplit⟩ :=
    exists_splitOn_cons hfeed (loc.text.toList.drop (loc.position + 1))
  rw [hdrop, hsplit, List.cons.injEq] at hbehind
  obtain ⟨rfl, rfl⟩ := hbehind
  have hoffset : loc.coordinates.charOffset = (lastLine loc.passed).length := by
    rw [String.length_toList] at hlt
    rw [charOffset_eq, length_passed]
    omega
  refine ⟨lastLine loc.passed ++ ch :: first', ?_, ?_, fun next hnext hfeed' => ?_⟩
  · rw [hlines, ← hline, Nat.add_sub_cancel, List.getElem?_append_right (Nat.le_refl _),
      Nat.sub_self, List.getElem?_cons_zero]
  · rw [hoffset, List.getElem?_append_right (Nat.le_refl _), Nat.sub_self,
      List.getElem?_cons_zero]
  · obtain ⟨hlt', hget'⟩ := List.getElem?_eq_some_iff.mp hnext
    obtain ⟨first'', others'', -, hsplit'⟩ :=
      exists_splitOn_cons hfeed' (loc.text.toList.drop (loc.position + 1 + 1))
    rw [List.drop_eq_getElem_cons hlt', hget', hsplit', List.cons.injEq] at hmore
    rw [hoffset, ← hmore.1, List.length_append, List.length_cons, List.length_cons]
    omega

/-- The pointer stands under the located character. -/
theorem getElem?_render {ch : Char} (hch : loc.text.toList[loc.position]? = some ch)
    (hfeed : ch ≠ '\n')
    (hreturn : ch = '\r' → ∃ next, loc.text.toList[loc.position + 1]? = some next ∧ next ≠ '\n') :
    (loc.shownLine loc.coordinates.line).render.toList[loc.pointer.toList.idxOf '^']? =
      some ch := by
  obtain ⟨line, hline, hcolumn, hthen⟩ := exists_line_of_char hch hfeed
  have hkept : (withoutReturn line)[loc.coordinates.charOffset]? = some ch := by
    refine getElem?_withoutReturn hcolumn fun heq => ?_
    obtain ⟨next, hnext, hother⟩ := hreturn heq
    exact hthen next hnext hother
  have hcontent : (loc.shownLine loc.coordinates.line).content =
      String.ofList (withoutReturn line) := by
    rw [shownLine, List.getD_eq_getElem?_getD, hline, Option.getD_some]
  rw [pointer, idxOf_pointerLine, ContextLine.render, String.toList_append, hcontent,
    String.toList_ofList, ← String.length_toList, List.getElem?_append_right (Nat.le_add_right _ _),
    Nat.add_sub_cancel_left, hkept]

/-! ## The context -/

/-- Where there is room for the pointer, the context shows the lines from the
first to the last of the window, each once, in order and under its own number;
the located one alone is marked.  One line is a pointer, and it stands right
behind the located line.  Where the located character is shown, the pointer
stands under it. -/
theorem contextLines_window (loc : Location) (hroom : loc.pointer.length ≤ longestText) :
    let line := loc.coordinates.line
    let first := max 1 (line - 2)
    let last := min loc.lines.length (line + 2)
    first ≤ line ∧ line ≤ last ∧
    ∃ before located after,
      loc.contextLines? = some (before ++ located :: loc.pointer :: after) ∧
      List.Forall₂ (loc.Shows "    ") (List.range' first (line - first)) before ∧
      loc.Shows "  > " line located ∧
      List.Forall₂ (loc.Shows "    ") (List.range' (line + 1) (last - line)) after ∧
      (∀ shown ∈ before ++ located :: after, ∀ column, shown ≠ pointerLine column) ∧
      ∀ ch, loc.text.toList[loc.position]? = some ch → ch ≠ '\n' →
        (ch = '\r' →
          ∃ next, loc.text.toList[loc.position + 1]? = some next ∧ next ≠ '\n') →
        located.toList[loc.pointer.toList.idxOf '^']? = some ch := by
  intro line first last
  obtain ⟨hfirst, hlast⟩ := loc.line_shown
  have hpos : 1 ≤ loc.firstShown := Nat.le_max_left 1 _
  have hend : loc.lastShown ≤ loc.lines.length := Nat.min_le_left _ _
  have hlocated := loc.shows_render (Nat.le_trans hpos hfirst) (Nat.le_trans hlast hend)
  rw [if_pos rfl] at hlocated
  refine ⟨hfirst, hlast, _, _, _, loc.contextLines?_eq.trans (if_pos hroom),
    loc.forall₂_shows_render ?_ hpos ?_, hlocated,
    loc.forall₂_shows_render ?_ (Nat.succ_le_succ (Nat.zero_le _)) ?_, ?_, fun _ => getElem?_render⟩
  · rw [List.mem_range'_1]
    omega
  · omega
  · rw [List.mem_range'_1]
    omega
  · omega
  · intro shown hshown column
    obtain ⟨number, rfl⟩ : ∃ number, shown = (loc.shownLine number).render := by
      simp only [List.mem_append, List.mem_cons, List.mem_map] at hshown
      rcases hshown with ⟨number, -, rfl⟩ | rfl | ⟨number, -, rfl⟩ <;> exact ⟨_, rfl⟩
    exact render_ne_pointerLine _ column

/-- On a carriage return within a line: it is shown, the one at the end of the
line before is not, and the last line is empty. -/
theorem contextLines_window_inner_return :
    let loc : Location := { text := "a\r\nb\rc\n", position := 4 }
    loc.contextLines? =
        some ["    1 | a", "  > 2 | b\rc", "         ^--- here", "    3 | "] ∧
      loc.pointer.length ≤ longestText ∧
      ∃ before located after,
        loc.contextLines? = some (before ++ located :: loc.pointer :: after) ∧
        loc.Shows "  > " 2 located ∧
        located.toList[loc.pointer.toList.idxOf '^']? = some '\r' := by
  intro loc
  have hroom : loc.pointer.length ≤ longestText := loc.length_pointer_le (by decide)
  obtain ⟨-, -, before, located, after, hlines, -, hlocated, -, -, hpointed⟩ :=
    loc.contextLines_window hroom
  have hline : loc.coordinates.line = 2 := by
    decide
  have hnext : ∃ next, loc.text.toList[loc.position + 1]? = some next ∧ next ≠ '\n' :=
    ⟨'c', by decide, by decide⟩
  rw [hline] at hlocated
  exact ⟨by decide +kernel, hroom, before, located, after, hlines, hlocated,
    hpointed '\r' (by decide) (by decide) fun _ => hnext⟩

/-- As far behind an empty text as texts can reach, its only line is the
located one, but there is no room for the pointer, and so nothing is shown. -/
theorem contextLines_behind_every_text :
    let loc : Location := { text := "", position := longestText }
    loc.coordinates = { line := 1, charOffset := longestText } ∧ loc.lines = [[]] ∧
      loc.contextLines? = none := by
  decide

end Location

end JsonGrammar
