import Mathlib.Tactic.SplitIfs
import JsonGrammar.Proofs.Parser.Placement
import JsonGrammar.Rule.Value

/-!
# The rules of the grammar keep their place

One lemma for each rule, from the smallest to the document.  The rules for
containers hand the property on from the values inside, and the recursion over
the levels is an induction (`keepsPlace_valueWithin`).
-/

namespace JsonGrammar

namespace Rule

open JsonGrammar.Parser

/-! ## Numbers -/

theorem keepsPlace_digit : digit.KeepsPlace :=
  keepsPlace_expecting _ _

theorem keepsPlace_numeral : numeral.KeepsPlace := by
  have hsign : (optional (char '-')).KeepsPlace := (keepsPlace_expecting _ _).optional
  have hwhole : wholePart.KeepsPlace :=
    (keepsPlace_expecting _ _).skip.orElse
      ((keepsPlace_expecting _ _).pair keepsPlace_digit.many).skip
  have hfraction : fraction.KeepsPlace :=
    ((keepsPlace_expecting _ _).pair keepsPlace_digit.many1).skip
  have hexponent : exponent.KeepsPlace :=
    (((keepsPlace_expecting _ _).pair (keepsPlace_expecting _ _).optional).pair
      keepsPlace_digit.many1).skip
  exact (((hsign.pair hwhole).pair hfraction.optional).pair hexponent.optional).skip

theorem keepsPlace_number : number.KeepsPlace := by
  intro source c hc
  refine (keepsPlace_numeral.withSpan hc).andThen ?_
  intro h n hn hle
  obtain ⟨-, span⟩ := h
  simp only
  split
  · exact Outcome.staysIn_raise hc _
  · split
    · exact ⟨hn, hle⟩
    · exact Outcome.staysIn_raise hc _

/-! ## Strings -/

theorem keepsPlace_hexQuad : hexQuad.KeepsPlace := by
  have hdigit : hexDigit.KeepsPlace := (keepsPlace_expecting _ _).map _
  refine KeepsPlace.map (keepsPlace_inTurn fun p hp => ?_) _
  obtain rfl := List.eq_of_mem_replicate hp
  exact hdigit

theorem staysIn_characterAt {source : String} {c n : Cursor} (hc : c.StandsIn source)
    (hn : n.StandsIn source) (hle : c.position ≤ n.position) (codePoint : Nat) :
    (characterAt c codePoint n).StaysIn source c := by
  by_cases hvalid : codePoint.isValidChar
  · rw [characterAt_of_valid c n hvalid]
    exact ⟨hn, hle⟩
  · rw [characterAt_of_not_valid c n hvalid]
    exact Outcome.staysIn_raise hc _

theorem keepsPlace_escapedUnit (unit : Nat) : (escapedUnit unit).KeepsPlace := by
  intro source c hc
  have hpair : ((literal "\\u").skipThen hexQuad).KeepsPlace :=
    (keepsPlace_literal _).skipThen keepsPlace_hexQuad
  unfold escapedUnit
  split
  · exact Outcome.staysIn_raise hc _
  · split
    · refine (hpair hc).andThen fun low n hn hle => ?_
      split
      · generalize joinSurrogates unit low = codePoint
        exact staysIn_characterAt hc hn hle codePoint
      · exact Outcome.staysIn_raise hc _
    · exact staysIn_characterAt hc hc (Nat.le_refl _) unit

theorem keepsPlace_letterEscape : letterEscape.KeepsPlace :=
  (keepsPlace_expecting _ _).map _

theorem keepsPlace_unicodeEscape : unicodeEscape.KeepsPlace :=
  keepsPlace_hexQuad.andThen keepsPlace_escapedUnit

theorem keepsPlace_escape : escape.KeepsPlace := by
  refine (keepsPlace_expecting _ _).andThen fun _ source c hc => ?_
  split
  · rename_i next hnext
    have hreads := Cursor.next?_eq_some_iff.mp hnext
    refine (keepsPlace_unicodeEscape (hreads.standsIn hc)).of_le ?_
    rw [hreads.position_eq]
    omega
  · exact keepsPlace_letterEscape hc

theorem keepsPlace_textBody : textBody.KeepsPlace := by
  have hplain : plainChar.KeepsPlace := keepsPlace_expecting _ _
  have hyields : RoundYields textRound fun _ _ => True := by
    intro c n ch hc hround
    rcases textRound_eq c with h | h | h
    · simp [h] at hround
    · exact keepsPlace_escape.yields hc (ofOutcome_eq_again_iff.mp (h ▸ hround))
    · exact hplain.yields hc (ofOutcome_eq_again_iff.mp (h ▸ hround))
  have hblames : RoundBlames textRound Failure.At fun _ _ => True := by
    intro c failure hc hround
    rcases textRound_eq c with h | h | h
    · simp [h] at hround
    · exact keepsPlace_escape.blames hc (ofOutcome_eq_failed_iff.mp (h ▸ hround))
    · exact hplain.blames hc (ofOutcome_eq_failed_iff.mp (h ▸ hround))
  exact (keepsPlace_rounds hyields hblames []).map _

theorem keepsPlace_stringLiteral : stringLiteral.KeepsPlace :=
  (keepsPlace_expecting _ _).between keepsPlace_textBody (keepsPlace_expecting _ _)

/-! ## Words -/

theorem keepsPlace_null : null.KeepsPlace :=
  (keepsPlace_literal _).map _

theorem keepsPlace_boolean : boolean.KeepsPlace :=
  ((keepsPlace_literal _).map _).orElse ((keepsPlace_literal _).map _)

/-! ## Containers and values -/

theorem keepsPlace_entries {α : Type} {entry : Parser α} (hentry : entry.KeepsPlace)
    (closing : Char) : (entries entry closing).KeepsPlace := by
  have hclosed : (closedAtOnce closing).KeepsPlace :=
    keepsPlace_whitespace.skipThen (keepsPlace_expecting _ _).skip
  exact (hclosed.map _).orElse
    ((hentry.separatedList (keepsPlace_expecting _ _)).thenSkip (keepsPlace_expecting _ _))

theorem keepsPlace_member {inner : Parser Json} (hinner : inner.KeepsPlace) :
    (member inner).KeepsPlace :=
  (keepsPlace_whitespace.skipThen (keepsPlace_stringLiteral.thenSkip
    (keepsPlace_whitespace.pair (keepsPlace_expecting _ _)))).pair hinner

theorem keepsPlace_bracketed (opening : Char) (limit : Nat) {content? : Option (Parser Json)}
    (hcontent : ∀ content ∈ content?, content.KeepsPlace) :
    (bracketed opening limit content?).KeepsPlace := by
  intro source c hc
  refine (keepsPlace_expecting _ _ hc).andThen fun _ n hn hle => ?_
  cases content? with
  | none => exact Outcome.staysIn_raise hc _
  | some content => exact (hcontent content rfl hn).of_le hle

theorem keepsPlace_arrayOf (limit : Nat) {inner? : Option (Parser Json)}
    (hinner : ∀ inner ∈ inner?, inner.KeepsPlace) : (arrayOf limit inner?).KeepsPlace := by
  refine keepsPlace_bracketed '[' limit fun content hcontent => ?_
  obtain ⟨inner, hmem, rfl⟩ := Option.map_eq_some_iff.mp hcontent
  exact (keepsPlace_entries (hinner inner hmem) ']').map _

theorem keepsPlace_objectOf (limit : Nat) {inner? : Option (Parser Json)}
    (hinner : ∀ inner ∈ inner?, inner.KeepsPlace) : (objectOf limit inner?).KeepsPlace := by
  refine keepsPlace_bracketed '{' limit fun content hcontent => ?_
  obtain ⟨inner, hmem, rfl⟩ := Option.map_eq_some_iff.mp hcontent
  exact (keepsPlace_entries (keepsPlace_member (hinner inner hmem)) '}').map _

theorem keepsPlace_tokenOf (limit : Nat) {inner? : Option (Parser Json)}
    (hinner : ∀ inner ∈ inner?, inner.KeepsPlace) : (tokenOf limit inner?).KeepsPlace := by
  intro source c hc
  unfold tokenOf
  split
  · exact keepsPlace_fail _ hc
  · split_ifs
    · exact keepsPlace_arrayOf limit hinner hc
    · exact keepsPlace_objectOf limit hinner hc
    · exact keepsPlace_stringLiteral.map _ hc
    · exact keepsPlace_number.map _ hc
    · exact keepsPlace_null hc
    · exact keepsPlace_boolean hc
    · exact keepsPlace_fail _ hc

theorem keepsPlace_valueOf (limit : Nat) {inner? : Option (Parser Json)}
    (hinner : ∀ inner ∈ inner?, inner.KeepsPlace) : (valueOf limit inner?).KeepsPlace :=
  keepsPlace_whitespace.skipThen ((keepsPlace_tokenOf limit hinner).thenSkip keepsPlace_whitespace)

theorem keepsPlace_valueWithin (limit levels : Nat) :
    Parser.KeepsPlace (valueWithin limit levels) := by
  induction levels with
  | zero => exact keepsPlace_valueOf limit (by simp)
  | succ levels ih =>
      refine keepsPlace_valueOf limit fun inner hinner => ?_
      obtain rfl := Option.some.inj hinner
      exact ih

theorem keepsPlace_innerWithin (limit levels : Nat) :
    ∀ inner ∈ innerWithin limit levels, inner.KeepsPlace := by
  intro inner hinner
  cases levels with
  | zero => simp [innerWithin] at hinner
  | succ levels =>
      obtain rfl := Option.some.inj hinner
      exact keepsPlace_valueWithin limit levels

theorem keepsPlace_array (limits : Limits) : (array limits).KeepsPlace :=
  keepsPlace_arrayOf _ (keepsPlace_innerWithin _ _)

theorem keepsPlace_object (limits : Limits) : (object limits).KeepsPlace :=
  keepsPlace_objectOf _ (keepsPlace_innerWithin _ _)

theorem keepsPlace_value (limits : Limits) : (value limits).KeepsPlace :=
  keepsPlace_valueWithin _ _

theorem keepsPlace_document (limits : Limits) : (document limits).KeepsPlace :=
  (keepsPlace_value limits).thenSkip keepsPlace_endOfInput

end Rule

end JsonGrammar
