import JsonGrammar.Proofs.Grammar.Printing

/-!
# Printed values

The grammar has texts for values with finite numbers only
(`isFinite_of_valueText`).  Each of them is known by what is printed for it
(`display_inj`): the printed text is one of the grammar's, and the grammar
reads at most one value from a text.

What is printed for a value, finite or not, holds no line feed
(`lineFeed_not_mem_display`).

A number is printed in one way, with as few digits as a decimal of it can have
(`display_number`).
-/

namespace JsonGrammar

namespace Json

open Grammar

/-! ## Finite values -/

mutual

/-- A value that the grammar has a text for has finite numbers only. -/
theorem isFinite_of_valueText : ∀ (v : Json) {text : List Char}, ValueText text v →
    v.isFinite = true
  | null, _, _ => rfl
  | bool _, _, _ => rfl
  | number _, _, .number (.rounded _ _ _ hfinite) => hfinite
  | string _, _, _ => rfl
  | array items, _, h => by
      obtain ⟨_, -, hentries⟩ := Rule.valueText_array_iff.mp h
      have hitems : ∀ item ∈ items, ∃ text, PaddedText text item :=
        (hentries.forall (B := PaddedText) fun text _ hitem => ⟨hitem, text, hitem⟩).2
      exact itemsFinite_of_paddedText items hitems
  | object members, _, h => by
      obtain ⟨_, -, hentries⟩ := Rule.valueText_object_iff.mp h
      have hmembers : ∀ m ∈ members, ∃ text, PaddedText text m.2 := by
        refine (hentries.forall (B := MemberText) fun text m hmember => ⟨hmember, ?_⟩).2
        cases hmember with
        | pair _ _ _ h => exact ⟨_, h⟩
      exact membersFinite_of_paddedText members hmembers

theorem itemsFinite_of_paddedText : ∀ items : List Json,
    (∀ item ∈ items, ∃ text, PaddedText text item) → itemsFinite items = true
  | [], _ => rfl
  | item :: items, h => by
      obtain ⟨⟨_, hitem⟩, hitems⟩ := List.forall_mem_cons.mp h
      cases hitem with
      | padded _ hitem _ =>
          rw [itemsFinite, isFinite_of_valueText item hitem, itemsFinite_of_paddedText items hitems]
          rfl

theorem membersFinite_of_paddedText : ∀ members : List (String × Json),
    (∀ m ∈ members, ∃ text, PaddedText text m.2) → membersFinite members = true
  | [], _ => rfl
  | (_, value) :: members, h => by
      obtain ⟨⟨_, hvalue⟩, hmembers⟩ := List.forall_mem_cons.mp h
      cases hvalue with
      | padded _ hvalue _ =>
          rw [membersFinite, isFinite_of_valueText value hvalue,
            membersFinite_of_paddedText members hmembers]
          rfl

end

theorem isFinite_of_paddedText {text : List Char} {v : Json} (h : PaddedText text v) :
    v.isFinite = true := by
  cases h with
  | padded _ h _ => exact isFinite_of_valueText v h

theorem paddedText_display {v : Json} (hfinite : v.isFinite = true) :
    PaddedText v.display.toList v := by
  rw [display, String.toList_ofList]
  exact paddedText_of_valueText (valueText_render v hfinite)

/-- Values with finite numbers are told apart by what is printed for them. -/
theorem display_inj {v w : Json} (hv : v.isFinite = true) (hw : w.isFinite = true) :
    v.display = w.display ↔ v = w := by
  constructor
  · intro h
    -- One limit admits both, and the rule for documents has one outcome.
    let limits : Limits := { maxDepth := max v.depth w.depth }
    have hreadV := (Rule.decides_document limits (paddedText_display hv)).1 (Nat.le_max_left _ _)
    have hreadW := (Rule.decides_document limits (paddedText_display hw)).1 (Nat.le_max_right _ _)
    rw [h, hreadW] at hreadV
    exact (Outcome.done.inj hreadV).1.symm
  · rintro rfl
    rfl

/-! ## No line feeds -/

theorem lineFeed_not_mem_renderChar (ch : Char) : '\n' ∉ renderChar ch := by
  unfold renderChar
  split
  · rename_i letter hletter
    have hne : letter ≠ '\n' := by
      cases letterFor_of_escapeLetter? hletter <;> decide
    simpa using hne.symm
  · rename_i hnone
    have hne : ch ≠ '\n' := by
      rintro rfl
      simp [escapeLetter?] at hnone
    split_ifs with hcontrol
    · have hlt : ch.toNat < 32 := hcontrol
      have hdigits : ∀ n < 16, n.digitChar ≠ '\n' := by decide
      rw [fourPlaces_lower ch.toNat hlt]
      simp [(hdigits (ch.toNat / 16) (by omega)).symm, (hdigits (ch.toNat % 16) (by omega)).symm]
    · simpa using hne.symm

theorem lineFeed_not_mem_renderString (text : String) : '\n' ∉ renderString text := by
  have hchars : '\n' ∉ text.toList.flatMap renderChar := by
    intro hmem
    obtain ⟨ch, -, hch⟩ := List.mem_flatMap.mp hmem
    exact lineFeed_not_mem_renderChar ch hch
  simpa [renderString] using hchars

theorem lineFeed_not_mem_numberText {text : List Char} {x : Binary64} (h : NumberText text x) :
    '\n' ∉ text := by
  cases h with
  | rounded hform _ _ _ =>
      intro hmem
      rcases NumberForm.mem_text hform '\n' hmem with hdigit | hmark
      · exact absurd hdigit (by decide)
      · exact absurd hmark (by decide)

theorem lineFeed_not_mem_renderNumber (x : Binary64) : '\n' ∉ x.render := by
  cases hfinite : x.isFinite with
  | true => exact lineFeed_not_mem_numberText (numberText_render hfinite)
  | false =>
      rw [Binary64.render, hfinite, if_neg Bool.false_ne_true]
      split_ifs <;> decide

mutual

theorem lineFeed_not_mem_render : ∀ v : Json, '\n' ∉ v.render
  | null => by decide
  | bool true => by decide
  | bool false => by decide
  | number x => lineFeed_not_mem_renderNumber x
  | string text => lineFeed_not_mem_renderString text
  | array [] => by decide
  | object [] => by decide
  | array (item :: items) => by
      simp [render, lineFeed_not_mem_render item, lineFeed_not_mem_renderItems items]
  | object ((key, value) :: members) => by
      simp [render, lineFeed_not_mem_renderString key, lineFeed_not_mem_render value,
        lineFeed_not_mem_renderMembers members]

theorem lineFeed_not_mem_renderItems : ∀ items : List Json, '\n' ∉ renderItems items
  | [] => by decide
  | item :: items => by
      simp [renderItems, lineFeed_not_mem_render item, lineFeed_not_mem_renderItems items]

theorem lineFeed_not_mem_renderMembers : ∀ members : List (String × Json),
    '\n' ∉ renderMembers members
  | [] => by decide
  | (key, value) :: members => by
      simp [renderMembers, lineFeed_not_mem_renderString key, lineFeed_not_mem_render value,
        lineFeed_not_mem_renderMembers members]

end

/-- Every value is printed on one line. -/
theorem lineFeed_not_mem_display (v : Json) : '\n' ∉ v.display.toList := by
  rw [display, String.toList_ofList]
  exact lineFeed_not_mem_render v

/-! ## Numbers -/

/-- What is printed for a finite double is a number that is read to its end as
that double.  It has an exponent where the double is not zero and lies outside
the range that is written out.  No fraction ends in a zero, the exponent stands
behind one digit but zero in front of the point, without a plus sign and a zero
in front of it, and no decimal of the double has fewer significant digits. -/
theorem display_number {x : Binary64} (hfinite : x.isFinite = true) :
    ∃ form : NumberForm, form.WellFormed ∧ (number x).display = String.ofList form.text ∧
      Parser.parse Rule.number (number x).display = .done x (Cursor.finish (number x).display) ∧
      (form.exponent.isSome = true ↔ x.magnitude ≠ 0 ∧
        ¬ ((Decimal.toBinary64 ⟨false, 1, -6⟩).magnitude ≤ x.magnitude ∧
          x.magnitude < (Decimal.toBinary64 ⟨false, 1, 21⟩).magnitude)) ∧
      form.fraction.getLast? ≠ some '0' ∧
      (∀ exponent, form.exponent = some exponent →
        (∃ first, form.whole = [first] ∧ '1' ≤ first ∧ first ≤ '9') ∧
          exponent.sign ≠ some '+' ∧ exponent.digits.head? ≠ some '0') ∧
      ∃ d, Decimal.read? form.text = some d ∧
        ∀ e : Decimal, e.toBinary64 = x → d.significant ≤ e.significant := by
  have hlt : x.magnitude < Binary64.infinity := of_decide_eq_true hfinite
  obtain ⟨q, hwrites, -⟩ := Numeral.exists_writes x.negative hlt
  obtain ⟨d, hd, -, -⟩ := NumberForm.read?_text hwrites.wellFormed
  have htext : NumberText (number x).display.toList x := by
    rw [display, String.toList_ofList]
    exact numberText_render hfinite
  have hread : Parser.parse Rule.number (number x).display =
      .done x (Cursor.finish (number x).display) := by
    rw [← Cursor.advance_toList]
    exact Rule.consumes_number htext (ends_nil _) (Cursor.placed_start _) (List.append_nil _).symm
  have hexponent := Numeral.isSome_exponent_formOf x.negative x.magnitude
  rw [Numeral.isPositional, decide_eq_false_iff_not] at hexponent
  refine ⟨Numeral.formOf x.negative x.magnitude, hwrites.wellFormed, ?_, hread, hexponent,
    Numeral.getLast?_fraction_formOf x.negative hlt,
    fun exponent hsome => Numeral.exponent_formOf hlt hsome,
    d, hd, fun e he => significant_formOf_le hfinite hd he⟩
  rw [text_formOf hfinite]
  rfl

/-- The least double but zero, with a minus sign. -/
theorem display_number_least :
    let x : Binary64 := ⟨true, 1, by decide⟩
    x.isFinite = true ∧ ∃ form : NumberForm, (number x).display = String.ofList form.text ∧
      form.exponent.isSome = true ∧
      Parser.parse Rule.number (number x).display = .done x (Cursor.finish (number x).display) := by
  intro x
  have hfinite : x.isFinite = true := rfl
  obtain ⟨form, -, htext, hread, hexponent, -⟩ := display_number hfinite
  have hleast : ¬ (Decimal.toBinary64 ⟨false, 1, -6⟩).magnitude ≤ x.magnitude := by
    decide +kernel
  exact ⟨hfinite, form, htext, hexponent.mpr ⟨Nat.one_ne_zero, fun h => hleast h.1⟩, hread⟩

end Json

end JsonGrammar
