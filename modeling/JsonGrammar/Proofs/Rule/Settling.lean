import JsonGrammar.Proofs.Grammar.Values
import JsonGrammar.Proofs.Parser.Settling
import JsonGrammar.Proofs.Rule.Placement

/-!
# The rules of the grammar settle

No rule is ever stuck where the cursor is placed in its source.  The rules for
containers hand this on from the values inside, and the levels are an
induction (`settles_valueWithin`).
-/

namespace JsonGrammar

namespace Rule

open JsonGrammar.Parser Grammar

/-! ## Numbers -/

theorem settles_digit : digit.Settles :=
  settles_expecting _ _

theorem settles_wholePart : wholePart.Settles :=
  (settles_expecting _ _).skip.orElse ((settles_expecting _ _).pair settles_digit.many).skip

theorem settles_fraction : fraction.Settles :=
  ((settles_expecting _ _).pair settles_digit.many1).skip

theorem settles_exponent : exponent.Settles :=
  (((settles_expecting _ _).pair (settles_expecting _ _).optional).pair settles_digit.many1).skip

theorem settles_numeral : numeral.Settles := by
  have hsign : (optional (char '-')).Settles := (settles_expecting _ _).optional
  exact (((hsign.pair settles_wholePart).pair settles_fraction.optional).pair
    settles_exponent.optional).skip

theorem settles_number : number.Settles where
  keepsPlace := keepsPlace_number
  ne_stuck := by
    intro c hc hrun
    rcases Outcome.andThen_eq_stuck_iff.mp hrun with hspan | ⟨⟨_, span⟩, n, _, hrun⟩
    · exact settles_numeral.withSpan.ne_stuck hc hspan
    · simp only at hrun
      split at hrun
      · simp at hrun
      · split_ifs at hrun

/-! ## Strings -/

theorem settles_hexQuad : hexQuad.Settles := by
  have hdigit : hexDigit.Settles := (settles_expecting _ _).map _
  refine Settles.map (settles_inTurn fun p hp => ?_) _
  obtain rfl := List.eq_of_mem_replicate hp
  exact hdigit

theorem characterAt_ne_stuck (c d : Cursor) (codePoint : Nat) :
    characterAt c codePoint d ≠ .stuck := by
  by_cases hvalid : codePoint.isValidChar
  · rw [characterAt_of_valid c d hvalid]
    exact nofun
  · rw [characterAt_of_not_valid c d hvalid]
    exact nofun

theorem settles_escapedUnit (unit : Nat) : (escapedUnit unit).Settles where
  keepsPlace := keepsPlace_escapedUnit unit
  ne_stuck := by
    intro c hc hrun
    have hpair : ((literal "\\u").skipThen hexQuad).Settles :=
      (settles_literal _).skipThen settles_hexQuad
    unfold escapedUnit at hrun
    split_ifs at hrun
    · rcases Outcome.andThen_eq_stuck_iff.mp hrun with hfirst | ⟨low, n, _, hrun⟩
      · exact hpair.ne_stuck hc hfirst
      · split_ifs at hrun
        generalize joinSurrogates unit low = codePoint at hrun
        exact characterAt_ne_stuck _ _ _ hrun
    · exact characterAt_ne_stuck _ _ _ hrun

theorem settles_unicodeEscape : unicodeEscape.Settles :=
  settles_hexQuad.andThen settles_escapedUnit

theorem settles_letterEscape : letterEscape.Settles :=
  (settles_expecting _ _).map _

theorem settles_escape : escape.Settles where
  keepsPlace := keepsPlace_escape
  ne_stuck := by
    intro c hc hrun
    rcases Outcome.andThen_eq_stuck_iff.mp hrun with hfirst | ⟨_, n, hfirst, hrun⟩
    · exact (settles_expecting _ _).ne_stuck hc hfirst
    · obtain ⟨_, hreads, -⟩ := yields_char '\\' hc hfirst
      split at hrun
      · rename_i next hnext
        have hu := Cursor.next?_eq_some_iff.mp hnext
        exact settles_unicodeEscape.ne_stuck (hu.placed (hreads.placed hc)) hrun
      · exact settles_letterEscape.ne_stuck (hreads.placed hc) hrun

theorem textRound_ne_stuck {c : Cursor} (hc : c.Placed) : textRound c ≠ .stuck := by
  rcases textRound_eq c with h | h | h
  · simp [h]
  · rw [h]
    exact ofOutcome_ne_stuck (settles_escape.ne_stuck hc)
  · rw [h]
    exact ofOutcome_ne_stuck ((settles_expecting _ _).ne_stuck hc)

theorem settles_textBody : textBody.Settles where
  keepsPlace := keepsPlace_textBody
  ne_stuck := by
    intro c hc hrun
    rcases Outcome.andThen_eq_stuck_iff.mp hrun with hloop | ⟨chars, n, _, hrun⟩
    · exact rounds_ne_stuck roundYields_textRound (fun _ _ => charText_ne_nil)
        (fun _ hd => textRound_ne_stuck hd) [] hc hloop
    · simp at hrun

theorem settles_stringLiteral : stringLiteral.Settles :=
  (settles_expecting _ _).between settles_textBody (settles_expecting _ _)

/-! ## Words -/

theorem settles_null : null.Settles :=
  (settles_literal _).map _

theorem settles_boolean : boolean.Settles :=
  ((settles_literal _).map _).orElse ((settles_literal _).map _)

/-! ## Containers and values -/

theorem settles_closedAtOnce (closing : Char) : (closedAtOnce closing).Settles :=
  settles_whitespace.skipThen (settles_expecting _ _).skip

theorem settles_entries {α : Type} {entry : Parser α} (hentry : entry.Settles) (closing : Char) :
    (entries entry closing).Settles := by
  have hcomma : ∀ text (b : Char), (.Only [','] : Reading Char) text b → text ≠ [] := by
    intro text b h
    rw [h]
    simp
  have hlist : (separatedList entry (char ',')).Settles :=
    hentry.separatedList (settles_expecting _ _) (yields_char ',') hcomma
  exact ((settles_closedAtOnce closing).map _).orElse (hlist.thenSkip (settles_expecting _ _))

theorem settles_member {inner : Parser Json} (hinner : inner.Settles) : (member inner).Settles :=
  (settles_whitespace.skipThen (settles_stringLiteral.thenSkip
    (settles_whitespace.pair (settles_expecting _ _)))).pair hinner

theorem settles_bracketed (opening : Char) (limit : Nat) {content? : Option (Parser Json)}
    (hcontent : ∀ content ∈ content?, content.Settles) :
    (bracketed opening limit content?).Settles where
  keepsPlace := keepsPlace_bracketed opening limit fun content h => (hcontent content h).keepsPlace
  ne_stuck := by
    intro c hc hrun
    rcases Outcome.andThen_eq_stuck_iff.mp hrun with hfirst | ⟨_, n, hfirst, hrun⟩
    · exact (settles_expecting _ _).ne_stuck hc hfirst
    · obtain ⟨_, hreads, -⟩ := yields_char opening hc hfirst
      cases content? with
      | none => simp at hrun
      | some content => exact (hcontent content rfl).ne_stuck (hreads.placed hc) hrun

section

variable {inner? : Option (Parser Json)} (hinner : ∀ inner ∈ inner?, inner.Settles) (limit : Nat)

include hinner

theorem settles_arrayOf : (arrayOf limit inner?).Settles := by
  refine settles_bracketed '[' limit fun content hcontent => ?_
  obtain ⟨inner, hmem, rfl⟩ := Option.map_eq_some_iff.mp hcontent
  exact (settles_entries (hinner inner hmem) ']').map _

theorem settles_objectOf : (objectOf limit inner?).Settles := by
  refine settles_bracketed '{' limit fun content hcontent => ?_
  obtain ⟨inner, hmem, rfl⟩ := Option.map_eq_some_iff.mp hcontent
  exact (settles_entries (settles_member (hinner inner hmem)) '}').map _

theorem settles_tokenOf : (tokenOf limit inner?).Settles where
  keepsPlace := keepsPlace_tokenOf limit fun inner h => (hinner inner h).keepsPlace
  ne_stuck := by
    intro c hc
    unfold tokenOf
    split
    · exact (settles_fail _).ne_stuck hc
    · split_ifs
      · exact (settles_arrayOf hinner limit).ne_stuck hc
      · exact (settles_objectOf hinner limit).ne_stuck hc
      · exact (settles_stringLiteral.map _).ne_stuck hc
      · exact (settles_number.map _).ne_stuck hc
      · exact settles_null.ne_stuck hc
      · exact settles_boolean.ne_stuck hc
      · exact (settles_fail _).ne_stuck hc

theorem settles_valueOf : (valueOf limit inner?).Settles :=
  settles_whitespace.skipThen ((settles_tokenOf hinner limit).thenSkip settles_whitespace)

end

theorem settles_valueWithin (limit levels : Nat) : Settles (valueWithin limit levels) := by
  refine valueWithin_induction (P := fun _ p => p.Settles) limit (fun levels ih => ?_) levels
  refine settles_valueOf (fun inner hinner => ?_) limit
  cases levels with
  | zero => simp [innerWithin] at hinner
  | succ l =>
      obtain rfl := Option.some.inj hinner
      exact ih l rfl

theorem settles_innerWithin (limit levels : Nat) :
    ∀ inner ∈ innerWithin limit levels, inner.Settles := by
  intro inner hinner
  cases levels with
  | zero => simp [innerWithin] at hinner
  | succ l =>
      obtain rfl := Option.some.inj hinner
      exact settles_valueWithin limit l

theorem settles_array (limits : Limits) : (array limits).Settles :=
  settles_arrayOf (settles_innerWithin _ _) _

theorem settles_object (limits : Limits) : (object limits).Settles :=
  settles_objectOf (settles_innerWithin _ _) _

theorem settles_value (limits : Limits) : (value limits).Settles :=
  settles_valueWithin _ _

theorem settles_document (limits : Limits) : (document limits).Settles :=
  (settles_value limits).thenSkip settles_endOfInput

end Rule

end JsonGrammar
