import JsonGrammar.Proofs.Cursor.Reading

/-!
# Reached cursors

A cursor is reached over a source by starting at its front and stepping over
characters.  `Cursor.StandsIn` spells out what its fields then say: the
counters count the characters and the bytes of the part before it, and the
rest is the other part.  The two are the same (`reached_iff_standsIn`), and a
reached cursor is known by its position alone (`Reached.eq_iff_position_eq`).
-/

namespace JsonGrammar

namespace Cursor

/-- The cursors that stepping over characters leads to. -/
inductive Reached (source : String) : Cursor → Prop where
  | start : Reached source (Cursor.start source)
  | next {c n : Cursor} {ch : Char} (hc : Reached source c) (hnext : c.next? = some (ch, n)) :
      Reached source n

/-- The fields of a cursor describe one place of a source. -/
structure StandsIn (c : Cursor) (source : String) : Prop where
  source_eq : c.source = source
  position_le : c.position ≤ source.length
  byteOffset_eq :
    c.byteOffset = (String.ofList (source.toList.take c.position)).utf8ByteSize
  restText_eq : c.restText = String.ofList (source.toList.drop c.position)
  isAtEnd_iff : c.isAtEnd = true ↔ c.position = source.length

theorem StandsIn.rest_eq {c : Cursor} {source : String} (h : c.StandsIn source) :
    c.rest = source.toList.drop c.position :=
  String.ofList_injective h.restText_eq

theorem standsIn_of_placed {c : Cursor} (hc : c.Placed) : c.StandsIn c.source := by
  have hc' := hc
  obtain ⟨passed, hsource, hposition, hbytes⟩ := hc
  have hlength : c.source.length = passed.length + c.rest.length := by
    rw [← String.length_toList, hsource, List.length_append]
  have htake : c.source.toList.take c.position = passed := by
    rw [hsource, hposition, List.take_left]
  have hdrop : c.source.toList.drop c.position = c.rest := by
    rw [hsource, hposition, List.drop_left]
  refine ⟨rfl, by omega, ?_, ?_, ?_⟩
  · rw [htake, hbytes, ← byteLength_toList, String.toList_ofList]
  · rw [hdrop, restText]
  · rw [hc'.isAtEnd_iff, ← List.length_eq_zero_iff]
    omega

theorem StandsIn.placed {c : Cursor} {source : String} (h : c.StandsIn source) : c.Placed := by
  refine ⟨source.toList.take c.position, ?_, ?_, ?_⟩
  · rw [h.source_eq, h.rest_eq, List.take_append_drop]
  · rw [List.length_take, String.length_toList, Nat.min_eq_left h.position_le]
  · rw [h.byteOffset_eq, ← byteLength_toList, String.toList_ofList]

theorem standsIn_iff {c : Cursor} {source : String} :
    c.StandsIn source ↔ c.Placed ∧ c.source = source := by
  constructor
  · intro h
    exact ⟨h.placed, h.source_eq⟩
  · intro h
    obtain ⟨hc, rfl⟩ := h
    exact standsIn_of_placed hc

theorem Reads.standsIn {c n : Cursor} {passed : List Char} {source : String}
    (h : c.Reads passed n) (hc : c.StandsIn source) : n.StandsIn source :=
  standsIn_iff.mpr ⟨h.placed hc.placed, h.source_eq.trans hc.source_eq⟩

theorem Reached.standsIn {c : Cursor} {source : String} (hc : Reached source c) :
    c.StandsIn source := by
  induction hc with
  | start => exact standsIn_of_placed (placed_start source)
  | next _ hnext ih => exact (next?_eq_some_iff.mp hnext).standsIn ih

theorem Reached.reads {c n : Cursor} {passed : List Char} {source : String}
    (hc : Reached source c) (h : c.Reads passed n) : Reached source n := by
  induction passed generalizing c with
  | nil =>
      obtain rfl : n = c := by rw [h.eq_advance, advance_nil]
      exact hc
  | cons ch passed ih =>
      rw [← List.singleton_append] at h
      obtain ⟨hfirst, hthen⟩ := h.split
      exact ih (hc.next (next?_eq_some_iff.mpr hfirst)) hthen

/-- Stepping leads to exactly the cursors whose fields describe a place of the
source. -/
theorem reached_iff_standsIn {c : Cursor} {source : String} :
    Reached source c ↔ c.StandsIn source := by
  constructor
  · exact Reached.standsIn
  · intro h
    obtain ⟨passed, hreads⟩ := placed_iff_reads_start.mp h.placed
    rw [h.source_eq] at hreads
    exact Reached.start.reads hreads

/-- The text before a reached cursor is the beginning of the source. -/
theorem Reached.reads_start {c : Cursor} {source : String} (hc : Reached source c) :
    (Cursor.start source).Reads (source.toList.take c.position) c := by
  obtain ⟨passed, hreads⟩ := placed_iff_reads_start.mp hc.standsIn.placed
  rw [hc.standsIn.source_eq] at hreads
  have hrest : source.toList = passed ++ c.rest := hreads.rest_eq
  have hposition : c.position = passed.length := by
    rw [hreads.position_eq, Cursor.start, Nat.zero_add]
  rwa [hrest, hposition, List.take_left]

/-- A cursor that stands in a source is read from every other one there that is
not behind it. -/
theorem StandsIn.reads_of_le {c n : Cursor} {source : String} (hc : c.StandsIn source)
    (hn : n.StandsIn source) (hle : c.position ≤ n.position) : ∃ text, c.Reads text n := by
  have hreadsC := (reached_iff_standsIn.mpr hc).reads_start
  have hreadsN := (reached_iff_standsIn.mpr hn).reads_start
  obtain ⟨text, -, hreads⟩ := hreadsC.between hreadsN hle
  exact ⟨text, hreads⟩

/-- Further on in a source less of it is left. -/
theorem Reached.bytesLeft_lt {c n : Cursor} {source : String} (hc : Reached source c)
    (hn : Reached source n) (hlt : c.position < n.position) : n.bytesLeft < c.bytesLeft := by
  obtain ⟨text, hreads⟩ := hc.standsIn.reads_of_le hn.standsIn (Nat.le_of_lt hlt)
  apply hreads.bytesLeft_lt hc.standsIn.placed
  intro htext
  have hposition := hreads.position_eq
  rw [htext, List.length_nil] at hposition
  omega

/-- Reached cursors over one source differ in their positions. -/
theorem StandsIn.eq_of_position_eq {c d : Cursor} {source : String} (hc : c.StandsIn source)
    (hd : d.StandsIn source) (hposition : c.position = d.position) : c = d := by
  have hsource := hc.source_eq.trans hd.source_eq.symm
  have hbytes : c.byteOffset = d.byteOffset := by
    rw [hc.byteOffset_eq, hd.byteOffset_eq, hposition]
  have hrest : c.rest = d.rest := by
    rw [hc.rest_eq, hd.rest_eq, hposition]
  rcases c with ⟨_, _, _, _⟩
  rcases d with ⟨_, _, _, _⟩
  simp_all

end Cursor

end JsonGrammar
