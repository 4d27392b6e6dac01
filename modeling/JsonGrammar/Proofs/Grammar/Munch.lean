import JsonGrammar.Proofs.Cursor.Reached
import JsonGrammar.Proofs.Grammar.Prefixes

/-!
# The longest number

The rule for numbers takes the longest text of a number that stands at the
cursor, and makes of it the double that the number denotes
(`number_of_longest`).  It does not look for a shorter text where the longest
one has no finite double.

Where no text of a number stands there is no digit behind the minus sign, if
there is one, and that place is blamed (`number_of_no_digit`).
-/

namespace JsonGrammar

namespace Rule

open JsonGrammar.Parser Grammar

/-- Of the texts of numbers that the characters begin with, that of `form` is
the longest. -/
structure LongestNumber (form : NumberForm) (rest : List Char) : Prop where
  wellFormed : form.WellFormed
  stands : form.text <+: rest
  longest : ∀ other : NumberForm, other.WellFormed → other.text <+: rest →
    other.text.length ≤ form.text.length

/-! ## A number stands at the cursor -/

/-- Where the text of a number stands there is a longest one. -/
theorem exists_longestNumber {form : NumberForm} (hform : form.WellFormed) {rest : List Char}
    (hstands : form.text <+: rest) : ∃ longest, LongestNumber longest rest := by
  have hrest : (Cursor.start (String.ofList rest)).rest = rest := String.toList_ofList
  rw [← hrest] at hstands
  obtain ⟨longest, hlongest, -, hreads, hle, -⟩ :=
    number_of_form (Cursor.placed_start _) hform hstands
  rw [hrest] at hle
  exact ⟨longest, hlongest, ⟨_, hreads.rest_eq.symm.trans hrest⟩, hle⟩

theorem numeral_of_longest {c : Cursor} (hc : c.Placed) {form : NumberForm}
    (h : LongestNumber form c.rest) :
    ∃ n, numeral c = .done () n ∧ c.Reads form.text n := by
  obtain ⟨_, ⟨⟩, n, ⟨longer, hlonger, rfl⟩, hle, hreads, hrun⟩ :=
    longest_numeral hc ⟨form, h.wellFormed, rfl⟩ h.stands
  have hlength := h.longest longer hlonger ⟨_, hreads.rest_eq.symm⟩
  rw [hle.eq_of_length_le hlength]
  exact ⟨n, hrun, hreads⟩

/-- Where a number ends no longer one stands. -/
theorem longestNumber_of_ends {form : NumberForm} (hform : form.WellFormed) {rest : List Char}
    (hends : NumberEnds rest) : LongestNumber form (form.text ++ rest) := by
  refine ⟨hform, List.prefix_append _ _, fun other hother hstands => ?_⟩
  have hrest : (Cursor.start (String.ofList (form.text ++ rest))).rest = form.text ++ rest :=
    String.toList_ofList
  rw [← hrest] at hstands
  exact longest_numeral.length_le (Cursor.placed_start _)
    (consumes_numeral hform hends (Cursor.placed_start _) hrest) (Cursor.reads_advance hrest)
    ⟨other, hother, rfl⟩ hstands

/-- The longest number becomes the double it denotes, or is out of range. -/
theorem number_of_longest {c : Cursor} (hc : c.Placed) {form : NumberForm}
    (h : LongestNumber form c.rest) :
    (form.value < Binary64.leastInfinite →
      ∃ x n, number c = .done x n ∧ c.Reads form.text n ∧ x.isFinite = true ∧
        x.negative = form.negative ∧ Binary64.Nearest form.value x.magnitude) ∧
    (Binary64.leastInfinite ≤ form.value →
      number c = .failed (Failure.raise c (.outOfRange (String.ofList form.text)))) := by
  obtain ⟨n, hrun, hreads⟩ := numeral_of_longest hc h
  obtain ⟨hfinite, hinfinite⟩ := number_of_numeral h.wellFormed hrun hreads
  refine ⟨fun hvalue => ?_, hinfinite⟩
  obtain ⟨x, hdone, hx⟩ := hfinite hvalue
  exact ⟨x, n, hdone, hreads, hx⟩

/-- The text of a number begins with a minus sign where the number is
negative. -/
theorem negative_iff_head? {form : NumberForm} (hform : form.WellFormed) :
    form.negative = true ↔ form.text.head? = some '-' := by
  obtain ⟨first, rest, hwhole, hfirst⟩ := hform.whole.exists_cons
  rw [NumberForm.text, NumberForm.signText, hwhole]
  cases form.negative with
  | true => simp
  | false => simpa using ne_of_isDigit hfirst (by decide)

/-! ## No number stands at the cursor -/

theorem char_of_head?_ne {wanted : Char} {c : Cursor} (hne : c.rest.head? ≠ some wanted) :
    char wanted c =
      .failed (Failure.raise c (.unexpected (.character wanted) c.rest.head?)) := by
  refine expecting_eq_failed_iff.mpr ⟨fun ch hch => beq_eq_false_iff_ne.mpr ?_, rfl⟩
  rintro rfl
  exact hne hch

/-- The place behind the minus sign, if there is one. -/
def behindSign (c : Cursor) : Cursor :=
  if c.rest.head? = some '-' then c.advance ['-'] else c

theorem optionalMinus_done (c : Cursor) :
    ∃ sign, optional (char '-') c = .done sign (behindSign c) ∧
      ∃ negative : Bool, c.Reads (if negative then ['-'] else []) (behindSign c) := by
  unfold behindSign
  split_ifs with hminus
  · obtain ⟨rest, hrest⟩ := List.head?_eq_some_iff.mp hminus
    have hchar : char '-' c = .done '-' (c.advance ['-']) := expecting_of_rest hrest (by decide)
    exact ⟨some '-', orElse_eq_done_iff.mpr (Or.inl (map_eq_done_iff.mpr ⟨_, hchar, rfl⟩)),
      true, Cursor.reads_advance hrest⟩
  · have hchar := char_of_head?_ne hminus
    exact ⟨none, orElse_eq_done_iff.mpr (Or.inr ⟨⟨_, map_eq_failed_iff.mpr hchar⟩, rfl⟩),
      false, .refl c⟩

/-- A digit is a whole part. -/
theorem wholeDigits_of_digit {ch : Char} (hdigit : ch.isDigit = true) :
    NumberForm.WholeDigits [ch] := by
  simp only [Char.isDigit, Bool.and_eq_true, decide_eq_true_eq] at hdigit
  by_cases hzero : ch = '0'
  · exact Or.inl (by rw [hzero])
  · refine Or.inr ⟨ch, [], rfl, ?_, hdigit.2, digits_nil⟩
    have hlow : 48 ≤ ch.val.toNat := hdigit.1
    have hne : ch.val.toNat ≠ 48 := fun h => hzero (Char.ext (UInt32.toNat_inj.mp h))
    exact UInt32.le_iff_toNat_le.mpr (show 49 ≤ ch.val.toNat by omega)

/-- A digit is a number, with or without a minus sign. -/
theorem exists_form_of_digit {ch : Char} (hdigit : ch.isDigit = true) (negative : Bool) :
    ∃ form : NumberForm, form.WellFormed ∧
      form.text = (if negative then ['-'] else []) ++ [ch] := by
  refine ⟨⟨negative, [ch], [], none⟩, ⟨wholeDigits_of_digit hdigit, digits_nil, by simp⟩, ?_⟩
  simp [NumberForm.text, NumberForm.signText, NumberForm.fractionText, NumberForm.exponentText]

theorem wholePart_of_no_digit {d : Cursor} (hdigit : ∀ ch ∈ d.rest.head?, ch.isDigit = false) :
    wholePart d = .failed (Failure.raise d (.unexpected (.member "digit") d.rest.head?)) := by
  have hzero := char_of_head?_ne fun hhead => absurd (hdigit '0' hhead) (by decide)
  have hnonzero : satisfy (fun ch => '1' ≤ ch && ch ≤ '9') "digit" d =
      .failed (Failure.raise d (.unexpected (.member "digit") d.rest.head?)) := by
    refine expecting_eq_failed_iff.mpr ⟨fun ch hch => ?_, rfl⟩
    by_contra hrange
    simp only [Bool.not_eq_false, Bool.and_eq_true, decide_eq_true_eq] at hrange
    exact absurd ((isDigit_of_nonzero hrange.1 hrange.2).symm.trans (hdigit ch hch)) (by decide)
  refine orElse_eq_failed_iff.mpr ⟨⟨_, map_eq_failed_iff.mpr hzero⟩, ?_⟩
  exact map_eq_failed_iff.mpr (andThen_eq_failed_iff.mpr (Or.inl hnonzero))

/-- Where no text of a number stands the rule fails for a digit behind the minus
sign. -/
theorem number_of_no_number {c : Cursor}
    (hnone : ∀ form : NumberForm, form.WellFormed → ¬ form.text <+: c.rest) :
    number c = .failed (Failure.raise (behindSign c)
      (.unexpected (.member "digit") (behindSign c).rest.head?)) := by
  obtain ⟨sign, hsign, negative, hreads⟩ := optionalMinus_done c
  have hdigit : ∀ ch ∈ (behindSign c).rest.head?, ch.isDigit = false := by
    intro ch hch
    by_contra hdigit
    obtain ⟨form, hform, htext⟩ :=
      exists_form_of_digit (Bool.eq_true_of_not_eq_false hdigit) negative
    obtain ⟨rest, hrest⟩ := List.head?_eq_some_iff.mp hch
    refine hnone form hform ⟨rest, ?_⟩
    rw [htext, hreads.rest_eq, hrest, List.append_assoc, List.singleton_append]
  have hwhole := wholePart_of_no_digit hdigit
  have hsigned : pair (optional (char '-')) wholePart c = .failed _ :=
    andThen_eq_failed_iff.mpr (Or.inr ⟨sign, _, hsign, map_eq_failed_iff.mpr hwhole⟩)
  have hnumeral : numeral c = .failed _ := map_eq_failed_iff.mpr
    (andThen_eq_failed_iff.mpr (Or.inl (andThen_eq_failed_iff.mpr (Or.inl hsigned))))
  unfold number
  rw [withSpan_eq_failed_iff.mpr hnumeral, Outcome.andThen_failed]

/-! ## The rule for numbers -/

/-- The rule takes the longest text of a number and gives the double nearest to
what it denotes.  It fails where that is out of range, at the first character,
and where there is no number, behind the minus sign; the text it has taken is
never malformed. -/
theorem number_longest {source : String} {c : Cursor} (hc : Cursor.Reached source c) :
    (∀ form, LongestNumber form c.rest →
      (form.value < 2 ^ 1024 - 2 ^ 970 →
        ∃ x n, number c = .done x n ∧ c.Reads form.text n ∧ x.isFinite = true ∧
          Binary64.Nearest form.value x.magnitude ∧
          (x.negative = true ↔ form.text.head? = some '-')) ∧
      (2 ^ 1024 - 2 ^ 970 ≤ form.value →
        ∃ failure, number c = .failed failure ∧ failure.At c ∧
          failure.message = "number '" ++ String.ofList form.text ++ "' is out of range")) ∧
    ((∀ form : NumberForm, form.WellFormed → ¬ form.text <+: c.rest) →
      ∃ failure, number c = .failed failure ∧ failure.At (behindSign c) ∧
        failure.message = match (behindSign c).rest.head? with
          | some found => "expected digit, found '" ++ String.singleton found ++ "'"
          | none => "expected digit, but reached end of input") ∧
    ((∃ form, LongestNumber form c.rest) ∨
      ∀ form : NumberForm, form.WellFormed → ¬ form.text <+: c.rest) ∧
    ∀ failure text, number c = .failed failure → failure.cause ≠ .malformedNumeral text := by
  have hexists : (∃ form, LongestNumber form c.rest) ∨
      ∀ form : NumberForm, form.WellFormed → ¬ form.text <+: c.rest := by
    by_cases hsome : ∃ form : NumberForm, form.WellFormed ∧ form.text <+: c.rest
    · obtain ⟨form, hform, hstands⟩ := hsome
      exact Or.inl (exists_longestNumber hform hstands)
    · exact Or.inr fun form hform hstands => hsome ⟨form, hform, hstands⟩
  refine ⟨fun form h => ?_, fun hnone => ?_, hexists, fun failure text hfailed => ?_⟩
  · obtain ⟨hfinite, hinfinite⟩ := number_of_longest hc.standsIn.placed h
    refine ⟨fun hvalue => ?_, fun hvalue => ?_⟩
    · obtain ⟨x, n, hrun, hreads, hx, hnegative, hnearest⟩ := hfinite hvalue
      refine ⟨x, n, hrun, hreads, hx, hnearest, ?_⟩
      rw [hnegative, negative_iff_head? h.wellFormed]
    · exact ⟨_, hinfinite hvalue, Failure.raise_at c _, rfl⟩
  · refine ⟨_, number_of_no_number hnone, Failure.raise_at _ _, ?_⟩
    cases (behindSign c).rest.head? <;> rfl
  · rcases hexists with ⟨form, h⟩ | hnone
    · obtain ⟨hfinite, hinfinite⟩ := number_of_longest hc.standsIn.placed h
      rcases lt_or_ge form.value Binary64.leastInfinite with hvalue | hvalue
      · obtain ⟨x, n, hrun, -⟩ := hfinite hvalue
        exact absurd (hrun.symm.trans hfailed) (by simp)
      · obtain rfl := Outcome.failed.inj ((hinfinite hvalue).symm.trans hfailed)
        simp [Failure.raise]
    · obtain rfl := Outcome.failed.inj ((number_of_no_number hnone).symm.trans hfailed)
      simp [Failure.raise]

/-- The number behind a letter of two bytes is out of range, though it is not
without its last digit. -/
theorem number_longest_out_of_range :
    let c := (Cursor.start "é1e400x").advance ['é']
    Cursor.Reached "é1e400x" c ∧ ∃ failure, number c = .failed failure ∧ failure.At c ∧
      failure.message = "number '1e400' is out of range" := by
  intro c
  have hsource : (Cursor.start "é1e400x").rest = ['é'] ++ ['1', 'e', '4', '0', '0', 'x'] := by
    decide
  have hc : Cursor.Reached "é1e400x" c := Cursor.Reached.start.reads (Cursor.reads_advance hsource)
  have hrest : c.rest = ['1', 'e', '4', '0', '0'] ++ ['x'] := Cursor.rest_advance_of_eq hsource
  let form : NumberForm := ⟨false, ['1'], [], some ⟨'e', none, ['4', '0', '0']⟩⟩
  have hform : form.WellFormed := by
    refine ⟨wholeDigits_of_digit (by decide), digits_nil, fun written hmem => ?_⟩
    obtain rfl := Option.some.inj hmem
    exact ⟨Or.inl rfl, by simp, by simp [Digits], by simp⟩
  have hlongest : LongestNumber form c.rest := by
    rw [hrest]
    exact longestNumber_of_ends hform (ends_cons.mpr (by decide))
  have hvalue : 2 ^ 1024 - 2 ^ 970 ≤ form.value := by
    have hpower : (2 : ℚ) ^ 1024 ≤ 10 ^ 400 := by
      exact_mod_cast (show 2 ^ 1024 ≤ 10 ^ 400 by decide +kernel)
    have hwritten : form.value = (10 : ℚ) ^ 400 := by
      rw [NumberForm.value, ← zpow_natCast]
      simp [form, Nat.ofDigitChars, ExponentForm.value]
    rw [hwritten]
    exact (sub_le_self _ (by positivity)).trans hpower
  exact ⟨hc, ((number_longest hc).1 _ hlongest).2 hvalue⟩

end Rule

end JsonGrammar
