import Mathlib.Data.List.Infix
import JsonGrammar.Proofs.Parser.Inversion

/-!
# Literals

A literal is read one character after the other, and yet it succeeds and fails
as a whole: it takes exactly its own characters where they stand, and otherwise
fails at the place where it had to begin.  What its failure says of the text
comes from further on.  There the literal and the text part, at the end of the
longest beginning that they share (`literal_names_mismatch`).
-/

namespace JsonGrammar

namespace Parser

/-- The longest text that two texts both begin with. -/
structure LongestCommonPrefix (common xs ys : List Char) : Prop where
  left : common <+: xs
  right : common <+: ys
  longest : ∀ shared, shared <+: xs → shared <+: ys → shared.length ≤ common.length

/-- What two texts share ends in front of the first place where they differ. -/
theorem longestCommonPrefix_of_mismatch {common more rest : List Char} {wanted : Char}
    (hne : rest.head? ≠ some wanted) :
    LongestCommonPrefix common (common ++ wanted :: more) (common ++ rest) where
  left := List.prefix_append _ _
  right := List.prefix_append _ _
  longest := by
    intro shared hleft hright
    by_contra hlonger
    have hwanted : common ++ [wanted] <+: common ++ wanted :: more := ⟨more, by simp⟩
    have hshared : common ++ [wanted] <+: shared := by
      apply List.prefix_of_prefix_length_le hwanted hleft
      rw [List.length_append, List.length_singleton]
      omega
    have hrest : [wanted] <+: rest := (List.prefix_append_right_inj _).mp (hshared.trans hright)
    exact hne (List.head?_eq_some_iff.mpr ⟨_, hrest.choose_spec.symm⟩)

theorem LongestCommonPrefix.length_eq {common common' xs ys : List Char}
    (h : LongestCommonPrefix common xs ys) (h' : LongestCommonPrefix common' xs ys) :
    common'.length = common.length :=
  Nat.le_antisymm (h.longest common' h'.left h'.right) (h'.longest common h.left h.right)

/-! ## What a mismatch is called -/

theorem message_unexpected_character (wanted found : Char) :
    (Cause.unexpected (.character wanted) (some found)).message =
      "expected '" ++ String.singleton wanted ++ "', found '" ++ String.singleton found ++ "'" := by
  have hopening : "expected '" = "expected " ++ "'" := by rfl
  have hclosing : "', found '" = "'" ++ ", found '" := by rfl
  show "expected " ++ ("'" ++ String.singleton wanted ++ "'") ++ ", found '" ++
    String.singleton found ++ "'" = _
  rw [hopening, hclosing]
  simp only [String.append_assoc]

theorem message_unexpected_end (wanted : Char) :
    (Cause.unexpected (.character wanted) none).message =
      "expected '" ++ String.singleton wanted ++ "', but reached end of input" := by
  have hopening : "expected '" = "expected " ++ "'" := by rfl
  have hclosing : "', but reached end of input" = "'" ++ ", but reached end of input" := by rfl
  show "expected " ++ ("'" ++ String.singleton wanted ++ "'") ++ ", but reached end of input" = _
  rw [hopening, hclosing]
  simp only [String.append_assoc]

/-- A literal succeeds exactly where the text goes on with it, and then it has
read just that.  Otherwise it fails where it had to begin.  The failure quotes
the literal and the text; it names the character of the literal that stands
behind all that the two share, and the character of the text that stands there,
or the end of the input. -/
theorem literal_names_mismatch (text : String) (c : Cursor) :
    ((∃ value n, literal text c = .done value n) ↔ text.toList <+: c.rest) ∧
    (∀ value n, literal text c = .done value n → value = text ∧ c.Reads text.toList n) ∧
    (¬ text.toList <+: c.rest →
      ∃ failure common wanted detail, literal text c = .failed failure ∧ failure.At c ∧
        failure.message =
          "expected '" ++ text ++ "', but found '" ++ c.restText ++ "' (" ++ detail ++ ")" ∧
        LongestCommonPrefix common text.toList c.rest ∧
        text.toList[common.length]? = some wanted ∧
        (∀ found, c.rest[common.length]? = some found →
          detail = "expected '" ++ String.singleton wanted ++ "', found '" ++
            String.singleton found ++ "'") ∧
        (c.rest.length = common.length →
          detail = "expected '" ++ String.singleton wanted ++ "', but reached end of input")) := by
  simp only [literal_eq_done_iff]
  refine ⟨⟨?_, ?_⟩, ?_, ?_⟩
  · intro h
    obtain ⟨value, n, hreads, -⟩ := h
    exact ⟨n.rest, hreads.rest_eq.symm⟩
  · intro h
    obtain ⟨rest, hrest⟩ := h
    exact ⟨text, _, Cursor.reads_advance hrest.symm, rfl⟩
  · intro value n h
    exact ⟨h.2, h.1⟩
  · intro hmismatch
    obtain ⟨common, wanted, more, rest, htext, hrest, hne⟩ := exists_mismatch hmismatch
    have hfound : c.rest[common.length]? = rest.head? := by
      rw [hrest, List.getElem?_append_right (Nat.le_refl _), Nat.sub_self, List.head?_eq_getElem?]
    refine ⟨_, common, wanted, _, literal_of_mismatch htext hne hrest, Failure.raise_at c _, rfl,
      ?_, ?_, fun found hsome => ?_, fun hlength => ?_⟩
    · rw [htext, hrest]
      exact longestCommonPrefix_of_mismatch hne
    · rw [htext]
      simp
    · rw [← hfound, hsome]
      exact message_unexpected_character wanted found
    · have hnone : rest.head? = none := by
        rw [← hfound, ← hlength]
        exact List.getElem?_eq_none (Nat.le_refl _)
      rw [hnone]
      exact message_unexpected_end wanted

/-- Behind a bracket, a literal that parts from the text at an accented letter:
the failure names both letters, and is that of the place behind the bracket. -/
theorem literal_names_mismatch_behind_bracket :
    let c := (Cursor.start "[null").advance ['[']
    ¬ "nué".toList <+: c.rest ∧
      ∃ failure, literal "nué" c = .failed failure ∧ failure.position = 1 ∧
        failure.message = "expected 'nué', but found 'null' (expected 'é', found 'l')" := by
  intro c
  have hmismatch : ¬ "nué".toList <+: c.rest := by
    decide
  have hshared : LongestCommonPrefix ['n', 'u'] "nué".toList c.rest :=
    longestCommonPrefix_of_mismatch (show ['l', 'l'].head? ≠ some 'é' by decide)
  obtain ⟨failure, common, wanted, detail, hrun, hat, hmessage, hcommon, hwanted, hfound, -⟩ :=
    (literal_names_mismatch "nué" c).2.2 hmismatch
  rw [hshared.length_eq hcommon] at hwanted hfound
  obtain rfl : 'é' = wanted := Option.some.inj hwanted
  rw [hfound 'l' rfl] at hmessage
  exact ⟨hmismatch, failure, hrun, hat.position_eq, hmessage⟩

end Parser

end JsonGrammar
