import JsonGrammar.Proofs.Grammar.Text
import JsonGrammar.Proofs.Number.Conversion
import JsonGrammar.Proofs.Parser.Runs

/-!
# Reading the text of a number

The text of a well-formed number is read as a decimal of its sign and its
value (`NumberForm.read?_text`).  So the double that is computed for the text
is the one that the number denotes.
-/

namespace JsonGrammar

namespace Grammar

open Decimal

theorem Digits.append {xs ys : List Char} (hxs : Digits xs) (hys : Digits ys) :
    Digits (xs ++ ys) := by
  intro ch hch
  rcases List.mem_append.mp hch with h | h
  · exact hxs ch h
  · exact hys ch h

theorem Digits.cons {ch : Char} {cs : List Char} (hch : ch.isDigit = true) (hcs : Digits cs) :
    Digits (ch :: cs) := by
  intro x hx
  rcases List.mem_cons.mp hx with rfl | h
  · exact hch
  · exact hcs x h

theorem isDigit_of_nonzero {ch : Char} (hlow : '1' ≤ ch) (hhigh : ch ≤ '9') :
    ch.isDigit = true := by
  have hzero : '0' ≤ ch := Char.le_trans (by decide) hlow
  simp only [Char.isDigit, ge_iff_le, Bool.and_eq_true, decide_eq_true_eq]
  exact ⟨hzero, hhigh⟩

theorem NumberForm.WholeDigits.digits {whole : List Char} (h : NumberForm.WholeDigits whole) :
    Digits whole := by
  rcases h with rfl | ⟨first, rest, rfl, hlow, hhigh, hrest⟩
  · intro ch hch
    obtain rfl := List.mem_singleton.mp hch
    rfl
  · exact hrest.cons (isDigit_of_nonzero hlow hhigh)

theorem NumberForm.WholeDigits.ne_nil {whole : List Char} (h : NumberForm.WholeDigits whole) :
    whole ≠ [] := by
  rcases h with rfl | ⟨first, rest, rfl, -⟩ <;> simp

theorem NumberForm.WholeDigits.exists_cons {whole : List Char}
    (h : NumberForm.WholeDigits whole) :
    ∃ first rest, whole = first :: rest ∧ first.isDigit = true := by
  obtain ⟨first, rest, rfl⟩ := List.exists_cons_of_ne_nil h.ne_nil
  exact ⟨first, rest, rfl, h.digits first List.mem_cons_self⟩

/-- The characters of a number are digits, signs, a point and the letters of an
exponent. -/
theorem NumberForm.mem_text {form : NumberForm} (hform : form.WellFormed) :
    ∀ ch ∈ form.text, ch.isDigit = true ∨ ch ∈ ['-', '+', '.', 'e', 'E'] := by
  intro ch hch
  simp only [text, List.mem_append] at hch
  rcases hch with ((hch | hch) | hch) | hch
  · unfold signText at hch
    split_ifs at hch <;> simp_all
  · exact Or.inl (hform.whole.digits ch hch)
  · unfold fractionText at hch
    split_ifs at hch
    · simp at hch
    · rcases List.mem_cons.mp hch with rfl | hch
      · exact Or.inr (by decide)
      · exact Or.inl (hform.fraction ch hch)
  · unfold exponentText at hch
    cases hexponent : form.exponent with
    | none => simp [hexponent] at hch
    | some exponent =>
        obtain ⟨hletter, hsign, hdigits, -⟩ := hform.exponent exponent hexponent
        simp only [hexponent, Option.elim_some, ExponentForm.text, List.cons_append,
          List.mem_cons, List.mem_append, Option.mem_toList] at hch
        rcases hch with rfl | hch | hch
        · exact Or.inr (by rcases hletter with h | h <;> rw [h] <;> decide)
        · exact Or.inr (by rcases hsign ch hch with rfl | rfl <;> decide)
        · exact Or.inl (hdigits ch hch)

/-! ## The parts of a number -/

theorem readDigits?_of_digits {cs : List Char} (hcs : Digits cs) (hne : cs ≠ []) :
    readDigits? cs = some (Nat.ofDigitChars 10 cs 0) :=
  if_pos ⟨hne, List.all_eq_true.mpr hcs⟩

theorem ne_of_isDigit {ch other : Char} (hch : ch.isDigit = true) (hother : other.isDigit = false) :
    ch ≠ other := by
  intro heq
  subst heq
  rw [hch] at hother
  exact absurd hother (by decide)

theorem ExponentForm.readExponent?_text {form : ExponentForm} (hform : form.WellFormed) :
    readExponent? form.text = some form.value := by
  obtain ⟨letter, sign, digits⟩ := form
  obtain ⟨hletter, hsign, hdigits, hne⟩ := hform
  have hread := readDigits?_of_digits hdigits hne
  rw [text, List.cons_append, readExponent?, if_pos hletter]
  cases sign with
  | none =>
      obtain ⟨first, rest, rfl⟩ := List.exists_cons_of_ne_nil hne
      have hfirst : first.isDigit = true := hdigits first List.mem_cons_self
      simp only [Option.toList_none, List.nil_append]
      rw [readSigned?]
      · simp [hread, value]
      · intro digits heq
        exact ne_of_isDigit hfirst (by decide) (List.cons.inj heq).1
      · intro digits heq
        exact ne_of_isDigit hfirst (by decide) (List.cons.inj heq).1
  | some sign =>
      rcases hsign sign rfl with rfl | rfl
      · simp [readSigned?, hread, value]
      · simp [readSigned?, hread, value]

theorem NumberForm.readExponent?_exponentText {form : NumberForm} (hform : form.WellFormed) :
    readExponent? form.exponentText = some (form.exponent.elim 0 ExponentForm.value) := by
  unfold exponentText
  cases hexponent : form.exponent with
  | none => rfl
  | some exponent => exact ExponentForm.readExponent?_text (hform.exponent exponent hexponent)

/-- Behind the digits of a number no digit follows. -/
theorem NumberForm.ends_exponentText {form : NumberForm} (hform : form.WellFormed) :
    Ends Char.isDigit form.exponentText := by
  unfold exponentText
  cases hexponent : form.exponent with
  | none => exact ends_nil _
  | some exponent =>
      refine ends_cons.mpr ?_
      rcases (hform.exponent exponent hexponent).letter with h | h <;> rw [h] <;> rfl

theorem NumberForm.readUnsigned?_text {form : NumberForm} (hform : form.WellFormed)
    (negative : Bool) :
    ∃ d, readUnsigned? negative (form.whole ++ form.fractionText ++ form.exponentText) = some d ∧
      d.negative = negative ∧ d.value = form.value := by
  have hwhole := hform.whole.digits
  have hne := hform.whole.ne_nil
  have hexponent := readExponent?_exponentText hform
  have hends := ends_exponentText hform
  unfold readUnsigned? fractionText
  split_ifs with hfraction
  · rw [List.append_nil, takeWhile_of_ends hwhole hends, dropWhile_of_ends hwhole hends]
    refine ⟨⟨negative, Nat.ofDigitChars 10 form.whole 0, form.exponent.elim 0 ExponentForm.value⟩,
      ?_, rfl, ?_⟩
    · simp only
      split
      · -- No exponent begins with a point.
        rename_i behind hpoint
        rw [hpoint, readExponent?] at hexponent
        simp at hexponent
      · rw [hexponent]
        simp [hne]
    · simp [Decimal.value, value, hfraction]
  · have hpoint : Ends Char.isDigit ('.' :: form.fraction ++ form.exponentText) :=
      ends_cons.mpr (by decide)
    rw [List.append_assoc, takeWhile_of_ends hwhole hpoint, dropWhile_of_ends hwhole hpoint]
    refine ⟨⟨negative, Nat.ofDigitChars 10 (form.whole ++ form.fraction) 0,
      form.exponent.elim 0 ExponentForm.value - form.fraction.length⟩, ?_, rfl, rfl⟩
    simp only [List.cons_append]
    rw [takeWhile_of_ends hform.fraction hends, dropWhile_of_ends hform.fraction hends, hexponent]
    simp [hne, hfraction]

/-- The text of a number is read as a decimal of its sign and value. -/
theorem NumberForm.read?_text {form : NumberForm} (hform : form.WellFormed) :
    ∃ d, Decimal.read? form.text = some d ∧ d.negative = form.negative ∧ d.value = form.value := by
  have htext : form.text =
      form.signText ++ (form.whole ++ form.fractionText ++ form.exponentText) := by
    simp [text]
  rw [htext, signText]
  cases hnegative : form.negative with
  | true => exact readUnsigned?_text hform true
  | false =>
      obtain ⟨first, rest, hwhole, hfirst⟩ := hform.whole.exists_cons
      simp only [Bool.false_eq_true, ↓reduceIte, List.nil_append]
      rw [Decimal.read?]
      · exact readUnsigned?_text hform false
      · intro cs heq
        rw [hwhole] at heq
        exact ne_of_isDigit hfirst (by decide) (List.cons.inj heq).1

/-- What is read for the text of a number is the double it denotes. -/
theorem NumberForm.nearest_read? {form : NumberForm} (hform : form.WellFormed) {d : Decimal}
    (hread : Decimal.read? form.text = some d) :
    d.toBinary64.negative = form.negative ∧
      Binary64.Nearest form.value d.toBinary64.magnitude := by
  obtain ⟨d', hread', hnegative, hvalue⟩ := read?_text hform
  obtain rfl := Option.some.inj (hread.symm.trans hread')
  rw [← hvalue]
  exact ⟨d.negative_toBinary64.trans hnegative, d.nearest_toBinary64⟩

end Grammar

end JsonGrammar
