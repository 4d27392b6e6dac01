import JsonGrammar.Proofs.Number.Order
import JsonGrammar.Proofs.Number.Reading
import JsonGrammar.Rule.Number

/-!
# The rule for numbers

The rule reads nothing but texts of numbers (`yields_number`), and it reads
such a text whole wherever the text is not followed by a character that could
belong to it (`consumes_number`).  The parts are taken one after the other: each
part is over where the next one begins.
-/

namespace JsonGrammar

namespace Rule

open JsonGrammar.Parser Grammar

/-! ## What is read -/

theorem yields_manyDigits : (many digit).Yields fun text _ => Digits text :=
  (yields_many_expecting _ _).mono fun _ _ h => h.2

theorem yields_many1Digits : (many1 digit).Yields fun text _ => Digits text ∧ text ≠ [] := by
  refine ((yields_expecting _ _).andThen fun first =>
    (yields_many_expecting _ _).map (first :: ·)).mono ?_
  intro text values h
  obtain ⟨first, ch, rest, rfl, ⟨rfl, hdigit⟩, _, ⟨-, hrest⟩, -⟩ := h
  exact ⟨Digits.cons hdigit hrest, List.cons_ne_nil _ _⟩

theorem yields_wholePart : wholePart.Yields fun text _ => NumberForm.WholeDigits text := by
  refine ((yields_char '0').skip.orElse
    ((yields_expecting _ _).pair yields_manyDigits).skip).mono ?_
  intro text _ h
  rcases h with ⟨_, rfl⟩ | ⟨⟨ch, _⟩, first, rest, rfl, ⟨rfl, hch⟩, hrest⟩
  · exact Or.inl rfl
  · simp only [Bool.and_eq_true, decide_eq_true_eq] at hch
    exact Or.inr ⟨ch, rest, rfl, hch.1, hch.2, hrest⟩

theorem yields_fraction :
    fraction.Yields fun text _ => ∃ digits, text = '.' :: digits ∧ Digits digits ∧ digits ≠ [] := by
  refine ((yields_char '.').pair yields_many1Digits).skip.mono ?_
  intro text _ h
  obtain ⟨_, _, digits, rfl, rfl, hdigits, hne⟩ := h
  exact ⟨digits, rfl, hdigits, hne⟩

theorem yields_exponent :
    exponent.Yields fun text _ => ∃ form : ExponentForm, form.WellFormed ∧ text = form.text := by
  refine (((yields_expecting _ _).pair (yields_expecting _ _).optional).pair
    yields_many1Digits).skip.mono ?_
  intro text _ h
  obtain ⟨⟨⟨letter, sign⟩, _⟩, first, digits, rfl,
    ⟨before, behind, rfl, ⟨rfl, hletter⟩, hsign⟩, hdigits, hne⟩ := h
  simp only [Bool.or_eq_true, beq_iff_eq] at hletter hsign
  refine ⟨⟨letter, sign, digits⟩, ⟨hletter, ?_, hdigits, hne⟩, ?_⟩
  · rcases hsign with ⟨ch, ⟨-, hch⟩, rfl⟩ | ⟨-, rfl⟩
    · intro s hs
      obtain rfl := Option.some.inj hs
      exact hch
    · simp
  · rcases hsign with ⟨ch, ⟨rfl, -⟩, rfl⟩ | ⟨rfl, rfl⟩ <;> rfl

theorem yields_optionalMinus :
    (optional (char '-')).Yields fun text _ =>
      ∃ negative : Bool, text = if negative then ['-'] else [] := by
  refine (yields_char '-').optional.mono ?_
  intro text _ h
  rcases h with ⟨_, rfl, -⟩ | ⟨rfl, -⟩
  · exact ⟨true, rfl⟩
  · exact ⟨false, rfl⟩

theorem yields_optionalFraction :
    (optional fraction).Yields fun text _ =>
      ∃ digits, Digits digits ∧ text = if digits = [] then [] else '.' :: digits := by
  refine yields_fraction.optional.mono ?_
  intro text _ h
  rcases h with ⟨_, ⟨digits, rfl, hdigits, hne⟩, -⟩ | ⟨rfl, -⟩
  · exact ⟨digits, hdigits, (if_neg hne).symm⟩
  · exact ⟨[], digits_nil, rfl⟩

theorem yields_optionalExponent :
    (optional exponent).Yields fun text _ =>
      ∃ exponent : Option ExponentForm, (∀ form ∈ exponent, form.WellFormed) ∧
        text = exponent.elim [] ExponentForm.text := by
  refine yields_exponent.optional.mono ?_
  intro text _ h
  rcases h with ⟨_, ⟨form, hform, rfl⟩, -⟩ | ⟨rfl, -⟩
  · refine ⟨some form, fun other hother => ?_, rfl⟩
    obtain rfl := Option.some.inj hother
    exact hform
  · exact ⟨none, by simp, rfl⟩

/-- The text that is read for a number has the form of a number. -/
theorem yields_numeral :
    numeral.Yields fun text _ => ∃ form : NumberForm, form.WellFormed ∧ text = form.text := by
  refine (((yields_optionalMinus.pair yields_wholePart).pair yields_optionalFraction).pair
    yields_optionalExponent).skip.mono ?_
  intro text _ h
  obtain ⟨_, _, _, rfl, ⟨_, _, rfl, ⟨_, whole, rfl, hsign, hwhole⟩, hfraction⟩, hexponent⟩ := h
  obtain ⟨negative, rfl⟩ := hsign
  obtain ⟨fraction, hdigits, rfl⟩ := hfraction
  obtain ⟨exponent, hform, rfl⟩ := hexponent
  exact ⟨⟨negative, whole, fraction, exponent⟩, ⟨hwhole, hdigits, hform⟩, rfl⟩

/-- A number is what the text under its span reads as, if that is finite. -/
theorem number_eq_done_iff {c n : Cursor} {x : Binary64} :
    number c = .done x n ↔
      ∃ span d, withSpan numeral c = .done ((), span) n ∧
        Decimal.read? span.text.toList = some d ∧ d.toBinary64 = x ∧ x.isFinite = true := by
  unfold number
  rw [Outcome.andThen_eq_done_iff]
  constructor
  · intro h
    obtain ⟨⟨_, span⟩, m, hspan, hrun⟩ := h
    simp only at hrun
    split at hrun
    · simp at hrun
    · rename_i d hread
      split_ifs at hrun with hfinite
      obtain ⟨rfl, rfl⟩ := Outcome.done.inj hrun
      exact ⟨span, d, hspan, hread, rfl, hfinite⟩
  · intro h
    obtain ⟨span, d, hspan, hread, rfl, hfinite⟩ := h
    exact ⟨((), span), n, hspan, by simp [hread, hfinite]⟩

/-- A number that is read has the form of a number, and its value is rounded
to a finite double. -/
theorem yields_number : number.Yields NumberText := by
  intro c n x hc hrun
  obtain ⟨span, d, hspan, hread, rfl, hfinite⟩ := number_eq_done_iff.mp hrun
  obtain ⟨text, hreads, ⟨form, hform, rfl⟩, htext⟩ := yields_numeral.withSpan hc hspan
  rw [htext, String.toList_ofList] at hread
  obtain ⟨hnegative, hnearest⟩ := NumberForm.nearest_read? hform hread
  exact ⟨form.text, hreads, .rounded hform hnegative hnearest hfinite⟩

/-! ## Where a number ends -/

/-- No character of a number follows. -/
def NumberEnds (rest : List Char) : Prop :=
  Ends (fun ch => ch.isDigit || ch == '.' || ch == 'e' || ch == 'E') rest

theorem NumberEnds.digit {rest : List Char} (h : NumberEnds rest) : Ends Char.isDigit rest := by
  intro ch hch
  have hends := h ch hch
  simp only [Bool.or_eq_false_iff] at hends
  exact hends.1.1.1

theorem NumberEnds.point {rest : List Char} (h : NumberEnds rest) : Ends (· == '.') rest := by
  intro ch hch
  have hends := h ch hch
  simp only [Bool.or_eq_false_iff] at hends
  exact hends.1.1.2

theorem NumberEnds.letter {rest : List Char} (h : NumberEnds rest) :
    Ends (fun ch => ch == 'e' || ch == 'E') rest := by
  intro ch hch
  have hends := h ch hch
  simp only [Bool.or_eq_false_iff] at hends ⊢
  exact ⟨hends.1.2, hends.2⟩

/-! ## What is taken -/

theorem consumes_optionalMinus {form : NumberForm} (hform : form.WellFormed) (rest : List Char) :
    ∃ v, (optional (char '-')).Consumes form.signText v (form.whole ++ rest) := by
  unfold NumberForm.signText
  cases form.negative with
  | true => exact ⟨_, (consumes_char '-' _).optional⟩
  | false =>
      obtain ⟨first, whole, hwhole, hfirst⟩ := hform.whole.exists_cons
      rw [hwhole]
      exact ⟨_, (refuses_char (ne_of_isDigit hfirst (by decide)) _).optional⟩

theorem consumes_wholePart {whole rest : List Char} (hwhole : NumberForm.WholeDigits whole)
    (hends : Ends Char.isDigit rest) : wholePart.Consumes whole () rest := by
  rcases hwhole with rfl | ⟨first, digits, rfl, hlow, hhigh, hdigits⟩
  · exact (consumes_char '0' rest).skip.orElse
  · have hne : first ≠ '0' := by
      intro heq
      subst heq
      exact absurd hlow (by decide)
    have hfirst : (satisfy (fun ch => '1' ≤ ch && ch ≤ '9') "digit").Consumes [first] first
        (digits ++ rest) :=
      consumes_expecting _ (by simp [hlow, hhigh]) _
    have hzero : (skip (char '0')).Refuses (first :: (digits ++ rest)) :=
      (refuses_char hne _).skip
    exact hzero.orElse (hfirst.pair (consumes_many _ hdigits hends)).skip

theorem consumes_fraction {digits rest : List Char} (hdigits : Digits digits) (hne : digits ≠ [])
    (hends : Ends Char.isDigit rest) : fraction.Consumes ('.' :: digits) () rest :=
  ((consumes_char '.' _).pair (consumes_many1 _ hdigits hne hends)).skip

theorem consumes_optionalFraction {form : NumberForm} (hform : form.WellFormed) {rest : List Char}
    (hdigit : Ends Char.isDigit rest) (hpoint : Ends (· == '.') rest) :
    ∃ v, (optional fraction).Consumes form.fractionText v rest := by
  unfold NumberForm.fractionText
  split_ifs with hfraction
  · have hrefused : fraction.Refuses rest := ((refuses_expecting _ hpoint).pair _).skip
    exact ⟨_, hrefused.optional⟩
  · exact ⟨_, (consumes_fraction hform.fraction hfraction hdigit).optional⟩

theorem consumes_exponent {form : ExponentForm} (hform : form.WellFormed) {rest : List Char}
    (hdigit : Ends Char.isDigit rest) : exponent.Consumes form.text () rest := by
  obtain ⟨letter, sign, digits⟩ := form
  obtain ⟨hletter, hsign, hdigits, hne⟩ := hform
  have hletterRun : (satisfy (fun ch => ch == 'e' || ch == 'E') "exponent").Consumes [letter]
      letter (sign.toList ++ (digits ++ rest)) :=
    consumes_expecting _ (by simpa using hletter) _
  have hsignRun : (optional (satisfy (fun ch => ch == '+' || ch == '-') "sign")).Consumes
      sign.toList sign (digits ++ rest) := by
    cases sign with
    | none =>
        obtain ⟨first, others, rfl⟩ := List.exists_cons_of_ne_nil hne
        have hfirst : first.isDigit = true := hdigits first List.mem_cons_self
        refine Refuses.optional (refuses_expecting _ (ends_cons.mpr (Bool.or_eq_false_iff.mpr ?_)))
        exact ⟨beq_eq_false_iff_ne.mpr (ne_of_isDigit hfirst (by decide)),
          beq_eq_false_iff_ne.mpr (ne_of_isDigit hfirst (by decide))⟩
    | some sign => exact (consumes_expecting _ (by simpa using hsign sign rfl) _).optional
  have hdigitsRun : (many1 digit).Consumes digits digits rest :=
    consumes_many1 _ hdigits hne hdigit
  have hbefore : (pair _ _).Consumes ([letter] ++ sign.toList) (letter, sign) (digits ++ rest) :=
    hletterRun.pair hsignRun
  exact (hbefore.pair hdigitsRun).skip

theorem consumes_optionalExponent {form : NumberForm} (hform : form.WellFormed) {rest : List Char}
    (hends : NumberEnds rest) :
    ∃ v, (optional exponent).Consumes form.exponentText v rest := by
  unfold NumberForm.exponentText
  cases hexponent : form.exponent with
  | none =>
      have hrefused : exponent.Refuses rest :=
        (((refuses_expecting _ hends.letter).pair _).pair _).skip
      exact ⟨_, hrefused.optional⟩
  | some exponent =>
      have hform' := hform.exponent exponent hexponent
      exact ⟨_, (consumes_exponent hform' hends.digit).optional⟩

/-- Behind the whole part comes no digit, and behind the fraction neither a
digit nor a point. -/
theorem ends_behind_whole {form : NumberForm} (hform : form.WellFormed) {rest : List Char}
    (hends : NumberEnds rest) :
    Ends Char.isDigit (form.exponentText ++ rest) ∧ Ends (· == '.') (form.exponentText ++ rest) ∧
      Ends Char.isDigit (form.fractionText ++ (form.exponentText ++ rest)) := by
  have hexponent : Ends Char.isDigit (form.exponentText ++ rest) ∧
      Ends (· == '.') (form.exponentText ++ rest) := by
    unfold NumberForm.exponentText
    cases hform' : form.exponent with
    | none => exact ⟨hends.digit, hends.point⟩
    | some exponent =>
        have hletter := (hform.exponent exponent hform').letter
        constructor <;> refine ends_cons.mpr ?_ <;> rcases hletter with h | h <;> rw [h] <;> rfl
  refine ⟨hexponent.1, hexponent.2, ?_⟩
  unfold NumberForm.fractionText
  split_ifs
  · exact hexponent.1
  · exact ends_cons.mpr (by decide)

/-- The text of a number is taken whole where it ends. -/
theorem consumes_numeral {form : NumberForm} (hform : form.WellFormed) {rest : List Char}
    (hends : NumberEnds rest) : numeral.Consumes form.text () rest := by
  obtain ⟨hdigit, hpoint, hbehind⟩ := ends_behind_whole hform hends
  obtain ⟨_, hsign⟩ :=
    consumes_optionalMinus hform (form.fractionText ++ (form.exponentText ++ rest))
  have hwhole := consumes_wholePart hform.whole hbehind
  obtain ⟨_, hfraction⟩ := consumes_optionalFraction hform hdigit hpoint
  obtain ⟨_, hexponent⟩ := consumes_optionalExponent hform hends
  exact (((hsign.pair hwhole).pair hfraction).pair hexponent).skip

/-! ## What is made of a text -/

/-- The text of a number that is read becomes the double it denotes, if its
value rounds to a finite one, and is out of range otherwise. -/
theorem number_of_numeral {c n : Cursor} {form : NumberForm} (hform : form.WellFormed)
    (hrun : numeral c = .done () n) (hreads : c.Reads form.text n) :
    (form.value < Binary64.leastInfinite →
      ∃ x, number c = .done x n ∧ x.isFinite = true ∧ x.negative = form.negative ∧
        Binary64.Nearest form.value x.magnitude) ∧
    (Binary64.leastInfinite ≤ form.value →
      number c = .failed (Failure.raise c (.outOfRange (String.ofList form.text)))) := by
  have hspan : withSpan numeral c = .done ((), _) n :=
    withSpan_eq_done_iff.mpr ⟨hrun, between?_of_reads hreads⟩
  obtain ⟨d, hread, -, -⟩ := NumberForm.read?_text hform
  obtain ⟨hnegative, hnearest⟩ := NumberForm.nearest_read? hform hread
  have hfinite : d.toBinary64.isFinite = true ↔ form.value < Binary64.leastInfinite := by
    rw [← hnearest.lt_infinity_iff]
    exact decide_eq_true_iff
  unfold number
  rw [hspan]
  simp only [Outcome.andThen_done, String.toList_ofList, hread]
  constructor
  · intro hvalue
    rw [if_pos (hfinite.mpr hvalue)]
    exact ⟨_, rfl, hfinite.mpr hvalue, hnegative, hnearest⟩
  · intro hvalue
    rw [if_neg fun h => absurd (hfinite.mp h) (not_lt_of_ge hvalue)]

/-- A number is taken whole where it ends. -/
theorem consumes_number {text : List Char} {x : Binary64} (h : NumberText text x)
    {rest : List Char} (hends : NumberEnds rest) : number.Consumes text x rest := by
  intro c hc hrest
  cases h with
  | @rounded form _ hform hnegative hnearest hfinite =>
      have hvalue : form.value < Binary64.leastInfinite :=
        hnearest.lt_infinity_iff.mp (of_decide_eq_true hfinite)
      obtain ⟨y, hrun, -, hnegative', hnearest'⟩ :=
        (number_of_numeral hform (consumes_numeral hform hends hc hrest)
          (Cursor.reads_advance hrest)).1 hvalue
      rw [hrun, Binary64.eq_of_nearest (hnegative.trans hnegative'.symm) hnearest hnearest']

end Rule

end JsonGrammar
