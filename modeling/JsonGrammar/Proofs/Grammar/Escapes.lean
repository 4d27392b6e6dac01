import JsonGrammar.Proofs.Grammar.Beginnings

/-!
# Failures in strings

Where an escape by number fails, the text from its backslash on is cut off in
one of two ways (`CutEscape`): within the first four digits or right behind
them, or within the second four, and then the first four write a high
surrogate.  So there are only two places in it at which another escape by
number could begin, and up to either of them the string can be completed.

All other failures of a string name a place up to which it can be completed
(`blames_stringLiteral`).
-/

namespace JsonGrammar

namespace Rule

open JsonGrammar.Parser Grammar

/-! ## Digits -/

theorem ne_of_digit? {ch other : Char} {digit : Nat} (h : Hexadecimal.digit? ch = some digit)
    (hother : Hexadecimal.digit? other = none) : other ≠ ch := by
  rintro rfl
  simp [hother] at h

theorem blames_hexDigit :
    hexDigit.Blames Failure.At fun text cause => text = [] ∧ cause.inUnicodeEscape = true := by
  refine ((blames_expecting fun c _ => Failure.raise_at c _).map _).mono ?_
  intro text cause h
  obtain ⟨rfl, found, rfl⟩ := h
  exact ⟨rfl, rfl⟩

/-- Digits are missing behind a text without a backslash. -/
theorem blames_hexDigits (count : Nat) :
    (inTurn (List.replicate count hexDigit)).Blames Failure.At fun text cause =>
      '\\' ∉ text ∧ cause.inUnicodeEscape = true := by
  induction count with
  | zero => exact blames_succeed [] _ _
  | succ count ih =>
      refine (Blames.andThen yields_hexDigit blames_hexDigit fun first =>
        ih.map (first :: ·)).mono ?_
      intro text cause h
      rcases h with ⟨rfl, hcause⟩ | ⟨_, n, second, rfl, ⟨ch, rfl, hch⟩, hsecond, hcause⟩
      · exact ⟨List.not_mem_nil, hcause⟩
      · refine ⟨?_, hcause⟩
        rw [List.singleton_append, List.mem_cons, not_or]
        exact ⟨ne_of_digit? hch (by decide), hsecond⟩

theorem blames_hexQuad :
    hexQuad.Blames Failure.At fun text cause =>
      '\\' ∉ text ∧ cause.inUnicodeEscape = true :=
  (blames_hexDigits 4).map _

/-- The four digits of an escape are nothing but digits. -/
theorem UnitText.not_mem {quad : List Char} {unit : Nat} (h : UnitText quad unit) {ch : Char}
    (hch : Hexadecimal.digit? ch = none) : ch ∉ quad := by
  cases h with
  | digits ha hb hc hd =>
      simp only [List.mem_cons, List.not_mem_nil, or_false, not_or]
      exact ⟨ne_of_digit? ha hch, ne_of_digit? hb hch, ne_of_digit? hc hch, ne_of_digit? hd hch⟩

/-! ## Escapes by number -/

/-- The text from the letter of an escape by number to a place where it
fails. -/
inductive CutEscape : List Char → Prop where
  | first {digits : List Char} (h : '\\' ∉ digits) : CutEscape digits
  | second {quad digits : List Char} {high : Nat} (hquad : UnitText quad high)
      (hhigh : 0xD800 ≤ high ∧ high ≤ 0xDBFF) (h : '\\' ∉ digits) :
      CutEscape (quad ++ '\\' :: 'u' :: digits)

theorem characterAt_eq_failed {c d : Cursor} {codePoint : Nat} {failure : Failure}
    (hrun : characterAt c codePoint d = .failed failure) :
    failure = Failure.raise c (.noSuchCharacter codePoint) := by
  by_cases hvalid : codePoint.isValidChar
  · rw [characterAt_of_valid c d hvalid] at hrun
    cases hrun
  · rw [characterAt_of_not_valid c d hvalid] at hrun
    exact (Outcome.failed.inj hrun).symm

/-- Behind the first four digits an escape fails there and then, or in the
digits of the second half. -/
theorem blames_escapedUnit {quad : List Char} {unit : Nat} (hquad : UnitText quad unit) :
    (escapedUnit unit).Blames Failure.At fun text cause =>
      CutEscape (quad ++ text) ∧ cause.inUnicodeEscape = true := by
  have hnone : CutEscape (quad ++ []) := by
    rw [List.append_nil]
    exact .first (UnitText.not_mem hquad (by decide))
  intro c failure hc hrun
  -- All failures but those of the second half are blamed on the first one's end.
  have hraise : ∀ cause : Cause, cause.inUnicodeEscape = true → failure = Failure.raise c cause →
      ∃ text d, c.Reads text d ∧ failure.At d ∧
        CutEscape (quad ++ text) ∧ failure.cause.inUnicodeEscape = true := by
    intro cause hcause heq
    subst heq
    exact ⟨[], c, .refl c, Failure.raise_at c _, hnone, hcause⟩
  unfold escapedUnit at hrun
  split_ifs at hrun with hlow hhigh
  · exact hraise _ rfl (Outcome.failed.inj hrun).symm
  · rcases Outcome.andThen_eq_failed_iff.mp hrun with hpair | ⟨low, m, _, hrun⟩
    · obtain ⟨text, d, hreads, hat, hcut⟩ := (Blames.andThen (yields_literal "\\u")
        (blames_literal fun c _ _ => Failure.raise_at c _) fun _ => blames_hexQuad) hc hpair
      rcases hcut with ⟨rfl, _, _, hcause⟩ | ⟨_, _, digits, rfl, ⟨rfl, -⟩, hdigits, hcause⟩
      · exact ⟨[], d, hreads, hat, hnone, by rw [hcause]; rfl⟩
      · exact ⟨_, d, hreads, hat, .second hquad (isHighSurrogate_iff.mp hhigh) hdigits, hcause⟩
    · split_ifs at hrun
      · generalize joinSurrogates unit low = codePoint at hrun
        exact hraise _ rfl (characterAt_eq_failed hrun)
      · exact hraise _ rfl (Outcome.failed.inj hrun).symm
  · exact hraise _ rfl (characterAt_eq_failed hrun)

theorem blames_unicodeEscape :
    unicodeEscape.Blames Failure.At fun text cause =>
      CutEscape text ∧ cause.inUnicodeEscape = true := by
  intro c failure hc hrun
  rcases andThen_eq_failed_iff.mp hrun with hquad | ⟨unit, m, hquad, hrun⟩
  · obtain ⟨text, d, hreads, hat, htext, hcause⟩ := blames_hexQuad hc hquad
    exact ⟨text, d, hreads, hat, .first htext, hcause⟩
  · obtain ⟨quad, hreads, hunit⟩ := yields_hexQuad hc hquad
    obtain ⟨text, d, hbehind, hat, hcut, hcause⟩ :=
      blames_escapedUnit hunit (hreads.placed hc) hrun
    exact ⟨quad ++ text, d, hreads.trans hbehind, hat, hcut, hcause⟩

/-- An escape by number that fails is cut off at the place the failure names. -/
theorem cut_of_failsInEscape {failure : Failure} {c : Cursor} (h : FailsInEscape failure c)
    (hc : c.Placed) :
    ∃ text d, c.Reads ('\\' :: 'u' :: text) d ∧ failure.At d ∧ CutEscape text ∧
      failure.cause.inUnicodeEscape = true := by
  obtain ⟨⟨behind, hrest⟩, hfails⟩ := h
  have hopen : c.Reads ['\\', 'u'] (c.advance ['\\', 'u']) := Cursor.reads_advance hrest
  rw [escape_of_unicode hrest] at hfails
  obtain ⟨text, d, hreads, hat, hcut⟩ := blames_unicodeEscape (hopen.placed hc) hfails
  exact ⟨text, d, hopen.trans hreads, hat, hcut⟩

/-- In a cut escape another one begins only behind a high surrogate. -/
theorem CutEscape.unit_of_append {text before behind : List Char} (h : CutEscape text)
    (heq : '\\' :: 'u' :: text = '\\' :: before ++ '\\' :: 'u' :: behind) :
    ∃ quad high, before = 'u' :: quad ∧ UnitText quad high ∧ 0xD800 ≤ high ∧ high ≤ 0xDBFF := by
  obtain ⟨quad, rfl, htext⟩ : ∃ quad, before = 'u' :: quad ∧
      text = quad ++ '\\' :: 'u' :: behind := by
    cases before with
    | nil => simp at heq
    | cons ch quad =>
        simp only [List.cons_append, List.cons.injEq, true_and] at heq
        obtain ⟨rfl, htext⟩ := heq
        exact ⟨quad, rfl, htext⟩
  cases h with
  | first h =>
      rw [htext] at h
      simp at h
  | @second first digits high hquad hhigh h =>
      have hquad' : quad = first := by
        rcases List.append_eq_append_iff.mp htext with ⟨more, hmore, hrest⟩ | ⟨more, hmore, hrest⟩
        · cases more with
          | nil => rw [hmore, List.append_nil]
          | cons ch more =>
              -- The backslash would stand behind the second half's letter.
              have hmem : '\\' ∈ 'u' :: digits := by
                rw [(List.cons.inj hrest).2]
                simp
              rcases List.mem_cons.mp hmem with hu | hdigits
              · exact absurd hu (by decide)
              · exact absurd hdigits h
        · cases more with
          | nil => rw [hmore, List.append_nil]
          | cons ch more =>
              have hbackslash : '\\' ∉ first := UnitText.not_mem hquad (by decide)
              refine absurd ?_ hbackslash
              rw [hmore, ← (List.cons.inj hrest).1]
              simp
      rw [hquad']
      exact ⟨first, high, rfl, hquad, hhigh⟩

/-! ## Characters -/

theorem blames_letterEscape {M : Mark}
    (hraise : ∀ c found, M (Failure.raise c
      (.unexpected (.member "escape character") found)) c) :
    letterEscape.Blames M fun text cause => text = [] ∧ cause.inUnicodeEscape = false := by
  refine ((blames_expecting hraise).map _).mono ?_
  intro text cause h
  obtain ⟨rfl, found, rfl⟩ := h
  exact ⟨rfl, rfl⟩

theorem anchored_unexpected {wanted : Expectation} (hwanted : wanted ≠ .member "hexadecimal digit")
    (c : Cursor) (found : Option Char) : Anchored (Failure.raise c (.unexpected wanted found)) c :=
  anchored_raise c (decide_eq_false hwanted)

/-- A single character that is missing leaves a text that has begun, if the
relation has any text. -/
theorem blames_expecting_stump {α : Type} {wanted : Expectation} {test : Char → Bool}
    (hwanted : wanted ≠ .member "hexadecimal digit") {A : Reading α} (hA : A.Begins []) :
    (expecting wanted test).Blames Anchored (Stump A) := by
  refine (blames_expecting (anchored_unexpected hwanted)).mono ?_
  intro text cause h
  obtain ⟨rfl, found, rfl⟩ := h
  exact stump_of_begins hA (decide_eq_false hwanted)

theorem begins_charText : Reading.Begins CharText [] :=
  ⟨['a'], 'a', .plain (by decide) (by decide) (by decide)⟩

/-- A high surrogate is the beginning of a pair. -/
theorem begins_charText_surrogate {quad : List Char} {high : Nat} (hquad : UnitText quad high)
    (hhigh : 0xD800 ≤ high ∧ high ≤ 0xDBFF) : Reading.Begins CharText ('\\' :: 'u' :: quad) := by
  have hlow : UnitText ['d', 'c', '0', '0'] (13 * 16 ^ 3 + 12 * 16 ^ 2 + 0 * 16 + 0) :=
    .digits (by decide) (by decide) (by decide) (by decide)
  exact ⟨_, _, .surrogates hquad hlow hhigh (by decide)⟩

theorem blames_escape : escape.Blames Anchored (Stump CharText) := by
  intro c failure hc hrun
  rcases andThen_eq_failed_iff.mp hrun with hbackslash | ⟨_, m, hbackslash, hrun'⟩
  · exact blames_expecting_stump (by decide) begins_charText hc hbackslash
  · obtain ⟨_, hfirst, rfl⟩ := yields_char '\\' hc hbackslash
    split at hrun'
    · rename_i next hnext
      have hu := Cursor.next?_eq_some_iff.mp hnext
      have hfails : FailsInEscape failure c :=
        ⟨⟨next.rest, (hfirst.trans hu).rest_eq⟩, hrun⟩
      obtain ⟨_, _, _, _, _, hcause⟩ := cut_of_failsInEscape hfails hc
      refine ⟨[], c, .refl c, ?_, begins_charText, fun _ quad high hquad hhigh => ?_⟩
      · rw [Anchored, if_pos hcause]
        exact hfails
      · exact begins_charText_surrogate hquad hhigh
    · obtain ⟨text, d, hreads, hat, rfl, hcause⟩ :=
        blames_letterEscape (anchored_unexpected (by decide)) (hfirst.placed hc) hrun'
      exact ⟨_, d, hfirst.trans hreads, hat,
        stump_of_begins ⟨['n'], '\n', .letter .lineFeed⟩ hcause⟩

/-! ## Strings -/

theorem roundBlames_textRound : RoundBlames textRound Anchored (Stump CharText) := by
  intro c failure hc hround
  rcases textRound_eq c with h | h | h
  · simp [h] at hround
  · exact blames_escape hc (ofOutcome_eq_failed_iff.mp (h ▸ hround))
  · exact blames_expecting_stump (by decide) begins_charText hc
      (ofOutcome_eq_failed_iff.mp (h ▸ hround))

theorem blames_textBody :
    textBody.Blames Anchored (Stump ((Reading.Repeated CharText).Map String.ofList)) := by
  refine Blames.stump_map ((roundBlames_textRound.stump_rounds roundYields_textRound []).stump_mono
    fun text chars h => ?_) String.ofList
  obtain ⟨further, hrepeated, rfl⟩ := h
  exact ⟨chars, hrepeated⟩

theorem blames_char (wanted : Char) :
    (char wanted).Blames Anchored (Stump (.Only [wanted] : Reading Char)) :=
  blames_expecting_stump (by simp) ⟨[wanted], wanted, rfl⟩

/-- Where a string fails it can be completed up to the anchor. -/
theorem blames_stringLiteral : stringLiteral.Blames Anchored (Stump StringText) := by
  have hclosing : ∃ text v, (.Only ['"'] : Reading Char) text v := ⟨['"'], '"', rfl⟩
  have hcontent := Blames.stump_thenSkip yields_textBody blames_textBody (blames_char '"') hclosing
  refine (Blames.stump_skipThen (yields_char '"') (blames_char '"') hcontent ?_).stump_mono
    fun text s h => ⟨s, stringText_of_parts text s h⟩
  exact ⟨['"'], "", [], ['"'], '"', rfl, ⟨[], .nil, rfl⟩, rfl⟩

end Rule

end JsonGrammar
