import JsonGrammar.Parser.Failure

/-!
# Cursors that read

`Cursor.Reads c passed n` says that `n` is the place behind `passed`, read
from `c`.  It is the one relation between two cursors that all later modules
speak of: a parser that succeeds reads a text, and a parser that fails points
at a place it has read up to.

The relation is a function of its first two arguments (`Reads.eq_advance`),
chains (`Reads.trans`), and keeps a cursor placed in its source
(`Reads.placed`).  The placed cursors are those read from the front of their
source (`placed_iff_reads_start`).
-/

namespace JsonGrammar

namespace Cursor

/-- The place behind `passed`, where `passed` stands behind the cursor. -/
def advance (c : Cursor) (passed : List Char) : Cursor where
  source := c.source
  position := c.position + passed.length
  byteOffset := c.byteOffset + byteLength passed
  rest := c.rest.drop passed.length

@[simp] theorem source_advance (c : Cursor) (passed : List Char) :
    (c.advance passed).source = c.source := rfl

@[simp] theorem position_advance (c : Cursor) (passed : List Char) :
    (c.advance passed).position = c.position + passed.length := rfl

@[simp] theorem byteOffset_advance (c : Cursor) (passed : List Char) :
    (c.advance passed).byteOffset = c.byteOffset + byteLength passed := rfl

@[simp] theorem rest_advance (c : Cursor) (passed : List Char) :
    (c.advance passed).rest = c.rest.drop passed.length := rfl

@[simp] theorem advance_nil (c : Cursor) : c.advance [] = c := by
  simp [advance]

theorem advance_append (c : Cursor) (xs ys : List Char) :
    c.advance (xs ++ ys) = (c.advance xs).advance ys := by
  simp [advance, Nat.add_assoc, List.drop_drop]

/-- Reading `passed` leads from `c` to `n`. -/
structure Reads (c : Cursor) (passed : List Char) (n : Cursor) : Prop where
  rest_eq : c.rest = passed ++ n.rest
  eq_advance : n = c.advance passed

/-- What stands behind a cursor can be read. -/
theorem reads_advance {c : Cursor} {passed rest : List Char} (hrest : c.rest = passed ++ rest) :
    c.Reads passed (c.advance passed) where
  rest_eq := by simp [hrest]
  eq_advance := rfl

theorem rest_advance_of_eq {c : Cursor} {passed rest : List Char}
    (hrest : c.rest = passed ++ rest) : (c.advance passed).rest = rest := by
  simp [hrest]

@[simp] theorem Reads.refl (c : Cursor) : c.Reads [] c where
  rest_eq := rfl
  eq_advance := c.advance_nil.symm

theorem Reads.trans {c m n : Cursor} {xs ys : List Char} (hxs : c.Reads xs m)
    (hys : m.Reads ys n) : c.Reads (xs ++ ys) n where
  rest_eq := by rw [hxs.rest_eq, hys.rest_eq, List.append_assoc]
  eq_advance := by rw [advance_append, ← hxs.eq_advance]; exact hys.eq_advance

/-- A text read in one go can be read in two. -/
theorem Reads.split {c n : Cursor} {xs ys : List Char} (h : c.Reads (xs ++ ys) n) :
    c.Reads xs (c.advance xs) ∧ (c.advance xs).Reads ys n := by
  have hrest : c.rest = xs ++ (ys ++ n.rest) := by
    rw [h.rest_eq, List.append_assoc]
  refine ⟨reads_advance hrest, ?_, ?_⟩
  · exact rest_advance_of_eq hrest
  · rw [h.eq_advance, advance_append]

theorem Reads.source_eq {c n : Cursor} {passed : List Char} (h : c.Reads passed n) :
    n.source = c.source := by
  rw [h.eq_advance]; rfl

theorem Reads.position_eq {c n : Cursor} {passed : List Char} (h : c.Reads passed n) :
    n.position = c.position + passed.length := by
  rw [h.eq_advance]; rfl

theorem Reads.byteOffset_eq {c n : Cursor} {passed : List Char} (h : c.Reads passed n) :
    n.byteOffset = c.byteOffset + byteLength passed := by
  rw [h.eq_advance]; rfl

/-- Two ways of reading from one cursor to one other passed the same text. -/
theorem Reads.passed_unique {c n : Cursor} {xs ys : List Char} (hxs : c.Reads xs n)
    (hys : c.Reads ys n) : xs = ys :=
  List.append_cancel_right (hxs.rest_eq.symm.trans hys.rest_eq)

/-- A cursor that has moved less than another, by reading, reads on to it. -/
theorem Reads.between {c m n : Cursor} {xs ys : List Char} (hxs : c.Reads xs m)
    (hys : c.Reads ys n) (hposition : m.position ≤ n.position) :
    ∃ zs, ys = xs ++ zs ∧ m.Reads zs n := by
  have hlength : xs.length ≤ ys.length := by
    have hm := hxs.position_eq
    have hn := hys.position_eq
    omega
  have hx : xs <+: c.rest := ⟨m.rest, hxs.rest_eq.symm⟩
  have hy : ys <+: c.rest := ⟨n.rest, hys.rest_eq.symm⟩
  obtain ⟨zs, rfl⟩ := List.prefix_of_prefix_length_le hx hy hlength
  refine ⟨zs, rfl, ?_, ?_⟩
  · have hrest := hxs.rest_eq.symm.trans hys.rest_eq
    rwa [List.append_assoc, List.append_cancel_left_eq] at hrest
  · rw [hys.eq_advance, advance_append, hxs.eq_advance]

/-! ## Single characters -/

theorem past_eq_advance {c : Cursor} {ch : Char} {rest : List Char} (hrest : c.rest = ch :: rest) :
    c.past ch rest = c.advance [ch] := by
  simp [past, advance, hrest]

theorem next?_eq_some_iff {c n : Cursor} {ch : Char} :
    c.next? = some (ch, n) ↔ c.Reads [ch] n := by
  unfold next?
  constructor
  · intro hnext
    split at hnext
    · simp at hnext
    · rename_i rest hrest
      simp only [Option.some.injEq, Prod.mk.injEq] at hnext
      obtain ⟨rfl, rfl⟩ := hnext
      exact ⟨hrest, past_eq_advance hrest⟩
  · intro hreads
    have hrest := hreads.rest_eq
    rw [List.singleton_append] at hrest
    rw [hrest]
    simp only [Option.some.injEq, Prod.mk.injEq, true_and]
    rw [past_eq_advance hrest, hreads.eq_advance]

theorem next?_eq_none_iff {c : Cursor} : c.next? = none ↔ c.rest = [] := by
  unfold next?
  split <;> simp_all

/-- The next character of a rest that is not empty. -/
theorem next?_of_rest {c : Cursor} {ch : Char} {rest : List Char} (hrest : c.rest = ch :: rest) :
    c.next? = some (ch, c.advance [ch]) :=
  next?_eq_some_iff.mpr (reads_advance hrest)

/-! ## Placed cursors -/

theorem Reads.placed {c n : Cursor} {passed : List Char} (h : c.Reads passed n)
    (hc : c.Placed) : n.Placed := by
  obtain ⟨before, hsource, hposition, hbytes⟩ := hc
  refine ⟨before ++ passed, ?_, ?_, ?_⟩
  · rw [h.source_eq, hsource, h.rest_eq, List.append_assoc]
  · rw [h.position_eq, hposition, List.length_append]
  · rw [h.byteOffset_eq, hbytes, byteLength_append]

theorem placed_advance {c : Cursor} {passed rest : List Char} (hc : c.Placed)
    (hrest : c.rest = passed ++ rest) : (c.advance passed).Placed :=
  (reads_advance hrest).placed hc

/-- A cursor is placed exactly when it is read from the front of its source. -/
theorem placed_iff_reads_start {c : Cursor} :
    c.Placed ↔ ∃ passed, (start c.source).Reads passed c := by
  constructor
  · intro h
    obtain ⟨passed, hsource, hposition, hbytes⟩ := h
    refine ⟨passed, hsource, ?_⟩
    rcases c with ⟨source, position, byteOffset, rest⟩
    simp_all [advance, start]
  · intro h
    obtain ⟨passed, hreads⟩ := h
    exact hreads.placed (placed_start c.source)

theorem Reads.bytesLeft_eq {c n : Cursor} {passed : List Char} (h : c.Reads passed n)
    (hc : c.Placed) : c.bytesLeft = byteLength passed + n.bytesLeft := by
  rw [hc.bytesLeft_eq, (h.placed hc).bytesLeft_eq, h.rest_eq, byteLength_append]

/-- Reading something comes closer to the end. -/
theorem Reads.bytesLeft_lt {c n : Cursor} {passed : List Char} (h : c.Reads passed n)
    (hc : c.Placed) (hpassed : passed ≠ []) : n.bytesLeft < c.bytesLeft := by
  obtain ⟨ch, cs, rfl⟩ := List.exists_cons_of_ne_nil hpassed
  have hpos := byteLength_pos_of_cons ch cs
  have heq := h.bytesLeft_eq hc
  omega

end Cursor

/-! ## The end of the source -/

namespace Cursor

/-- The place behind the last character. -/
def finish (source : String) : Cursor where
  source := source
  position := source.length
  byteOffset := source.utf8ByteSize
  rest := []

theorem advance_toList (source : String) :
    (start source).advance source.toList = finish source := by
  simp [advance, start, finish, byteLength_toList, String.length_toList]

/-- A cursor with nothing behind it that was read from the front of the source
has read all of it. -/
theorem Reads.eq_finish {source : String} {text : List Char} {n : Cursor}
    (h : (start source).Reads text n) (hrest : n.rest = []) :
    text = source.toList ∧ n = finish source := by
  have htext := h.rest_eq
  rw [hrest, List.append_nil] at htext
  have htext' : source.toList = text := htext
  refine ⟨htext'.symm, ?_⟩
  rw [h.eq_advance, ← htext', advance_toList]

end Cursor

/-! ## Failures at a cursor -/

/-- The failure is blamed on the place of the cursor. -/
def Failure.At (failure : Failure) (c : Cursor) : Prop :=
  failure.location = { text := c.source, position := c.position }

theorem Failure.raise_at (c : Cursor) (cause : Cause) : (raise c cause).At c := rfl

theorem Failure.At.eq_raise {failure : Failure} {c : Cursor} (h : failure.At c) :
    failure = raise c failure.cause := by
  rcases failure with ⟨cause, location⟩
  rw [raise, ← h]

theorem Failure.At.position_eq {failure : Failure} {c : Cursor} (h : failure.At c) :
    failure.position = c.position := by
  rw [Failure.position, h]

end JsonGrammar
