import JsonGrammar.Number.Numeral
import JsonGrammar.Proofs.Number.Digits
import JsonGrammar.Proofs.Number.Reading

/-!
# The text a number is printed as

The printed text of a finite double has the parts `Numeral.formOf`: those of a
number that denotes the double, sign and all (`numberText_render`).  Both
notations write the number that the digits and the power of ten stand for
(`writes_positional`, `writes_scientific`), and the search has found digits that
round to the magnitude.

Since the digits of the shortest decimal do not end in a zero, neither does a
fraction (`getLast?_fraction_formOf`).  Whether there is an exponent is a matter
of the magnitude (`isSome_exponent_formOf`), and where there is one it is not
zero, since the numbers from one up to ten are written out
(`exponent_formOf`).  No decimal with fewer significant digits becomes the
double (`significant_formOf_le`).
-/

namespace JsonGrammar

open Grammar

/-! ## Digits -/

/-- Digits of which the first is not zero. -/
def LeadingDigits (digits : List Char) : Prop :=
  ∃ first rest, digits = first :: rest ∧ '1' ≤ first ∧ first ≤ '9' ∧ Digits rest

theorem digits_toDigits (n : Nat) : Digits (Nat.toDigits 10 n) :=
  fun _ hch => Nat.isDigit_of_mem_toDigits (by decide) (by decide) hch

theorem digitChar_between : ∀ n < 10, n ≠ 0 → '1' ≤ n.digitChar ∧ n.digitChar ≤ '9' := by
  decide

theorem leadingDigits_toDigits {n : Nat} (hn : n ≠ 0) : LeadingDigits (Nat.toDigits 10 n) := by
  induction n using Nat.strongRecOn with
  | ind n ih =>
      by_cases hlt : n < 10
      · obtain ⟨hlow, hhigh⟩ := digitChar_between n hlt hn
        rw [Nat.toDigits_of_lt_base hlt]
        exact ⟨n.digitChar, [], rfl, hlow, hhigh, digits_nil⟩
      · obtain ⟨first, rest, hdigits, hlow, hhigh, hrest⟩ := ih (n / 10) (by omega) (by omega)
        rw [Nat.toDigits_of_base_le (by decide) (by omega), hdigits]
        refine ⟨first, rest ++ [(n % 10).digitChar], rfl, hlow, hhigh, hrest.append ?_⟩
        rw [← Nat.toDigits_of_lt_base (Nat.mod_lt n (by decide))]
        exact digits_toDigits (n % 10)

theorem LeadingDigits.digits {digits : List Char} (h : LeadingDigits digits) : Digits digits :=
  NumberForm.WholeDigits.digits (Or.inr h)

/-- A part of the digits that is not empty begins with the same digit. -/
theorem LeadingDigits.take {digits : List Char} (h : LeadingDigits digits) {count : Nat}
    (hcount : 0 < count) : LeadingDigits (digits.take count) := by
  obtain ⟨first, rest, rfl, hlow, hhigh, hrest⟩ := h
  obtain ⟨count, rfl⟩ := Nat.exists_eq_succ_of_ne_zero (by omega : count ≠ 0)
  exact ⟨first, rest.take count, rfl, hlow, hhigh,
    fun ch hch => hrest ch (List.mem_of_mem_take hch)⟩

theorem LeadingDigits.append {xs ys : List Char} (hxs : LeadingDigits xs) (hys : Digits ys) :
    LeadingDigits (xs ++ ys) := by
  obtain ⟨first, rest, rfl, hlow, hhigh, hrest⟩ := hxs
  exact ⟨first, rest ++ ys, rfl, hlow, hhigh, hrest.append hys⟩

theorem digits_replicate_zero (count : Nat) : Digits (List.replicate count '0') := by
  intro ch hch
  obtain rfl := List.eq_of_mem_replicate hch
  rfl

/-! ## Notations -/

namespace Numeral

/-- The parts of digits times a power of ten, written out. -/
def positionalForm (negative : Bool) (digits : List Char) : Int → NumberForm
  | .ofNat e => ⟨negative, digits ++ List.replicate e '0', [], none⟩
  | .negSucc e =>
      if e + 1 < digits.length then
        ⟨negative, digits.take (digits.length - (e + 1)), digits.drop (digits.length - (e + 1)),
          none⟩
      else ⟨negative, ['0'], List.replicate (e + 1 - digits.length) '0' ++ digits, none⟩

/-- The parts of a whole number behind the exponent letter. -/
def exponentForm : Int → ExponentForm
  | .ofNat n => ⟨'e', none, Nat.toDigits 10 n⟩
  | .negSucc n => ⟨'e', some '-', Nat.toDigits 10 (n + 1)⟩

/-- The parts of digits times a power of ten, with one digit before the
point. -/
def scientificForm (negative : Bool) (digits : List Char) (exponent : Int) : NumberForm :=
  ⟨negative, digits.take 1, digits.drop 1,
    some (exponentForm (exponent + (digits.length - 1 : Nat)))⟩

/-- The parts of the text of a finite magnitude behind a sign. -/
def formOf (negative : Bool) (magnitude : Nat) : NumberForm :=
  if magnitude = 0 then ⟨negative, ['0'], [], none⟩
  else if isPositional magnitude then
    positionalForm negative (Nat.toDigits 10 (Decimal.shortest magnitude).1)
      (Decimal.shortest magnitude).2
  else
    scientificForm negative (Nat.toDigits 10 (Decimal.shortest magnitude).1)
      (Decimal.shortest magnitude).2

/-- The parts are those of a number with a sign, a text behind it, and a
value. -/
structure Writes (form : NumberForm) (negative : Bool) (text : List Char) (q : ℚ) : Prop where
  wellFormed : form.WellFormed
  negative_eq : form.negative = negative
  text_eq : form.text = form.signText ++ text
  value_eq : form.value = q

/-- Digits with the point where the fraction begins. -/
theorem writes_plain (negative : Bool) {whole fraction : List Char}
    (hwhole : NumberForm.WholeDigits whole) (hfraction : Digits fraction) :
    Writes ⟨negative, whole, fraction, none⟩ negative
      (whole ++ if fraction = [] then [] else '.' :: fraction)
      (Nat.ofDigitChars 10 (whole ++ fraction) 0 * 10 ^ (-(fraction.length : Int))) where
  wellFormed := ⟨hwhole, hfraction, by simp⟩
  negative_eq := rfl
  text_eq := by simp [NumberForm.text, NumberForm.fractionText, NumberForm.exponentText]
  value_eq := by simp [NumberForm.value]

theorem Writes.of_eq {form : NumberForm} {negative : Bool} {text text' : List Char} {q q' : ℚ}
    (h : Writes form negative text q) (htext : text = text') (hq : q = q') :
    Writes form negative text' q' := by
  rw [← htext, ← hq]
  exact h

/-- Digits times a power of ten, written out, are a number of that value. -/
theorem writes_positional (negative : Bool) {digits : List Char} (hdigits : LeadingDigits digits)
    (exponent : Int) :
    Writes (positionalForm negative digits exponent) negative (positional digits exponent)
      (Nat.ofDigitChars 10 digits 0 * 10 ^ exponent) := by
  cases exponent with
  | ofNat e =>
      have hwhole : NumberForm.WholeDigits (digits ++ List.replicate e '0') :=
        Or.inr (hdigits.append (digits_replicate_zero e))
      refine (writes_plain negative hwhole digits_nil).of_eq ?_ ?_
      · rw [if_pos rfl, List.append_nil, positional]
      · rw [List.append_nil, Nat.ofDigitChars_append, Nat.ofDigitChars_replicate_zero,
          List.length_nil, Nat.cast_zero, neg_zero, zpow_zero, mul_one, Int.ofNat_eq_natCast,
          zpow_natCast]
        push_cast
        ring
  | negSucc e =>
      have hexponent : (-((e + 1 : Nat) : Int)) = Int.negSucc e := rfl
      rw [positionalForm, positional]
      by_cases hplaces : e + 1 < digits.length
      · have hlength : (digits.drop (digits.length - (e + 1))).length = e + 1 := by
          rw [List.length_drop]
          omega
        have hne : digits.drop (digits.length - (e + 1)) ≠ [] := by
          rw [← List.length_pos_iff, hlength]
          omega
        have hwhole : NumberForm.WholeDigits (digits.take (digits.length - (e + 1))) :=
          Or.inr (hdigits.take (by omega))
        have hfraction : Digits (digits.drop (digits.length - (e + 1))) :=
          fun ch hch => hdigits.digits ch (List.mem_of_mem_drop hch)
        simp only [if_pos hplaces]
        refine (writes_plain negative hwhole hfraction).of_eq ?_ ?_
        · rw [if_neg hne]
        · rw [List.take_append_drop, hlength, hexponent]
      · have hfraction := (digits_replicate_zero (e + 1 - digits.length)).append hdigits.digits
        have hlength : (List.replicate (e + 1 - digits.length) '0' ++ digits).length = e + 1 := by
          rw [List.length_append, List.length_replicate]
          omega
        have hne : List.replicate (e + 1 - digits.length) '0' ++ digits ≠ [] := by
          rw [← List.length_pos_iff, hlength]
          omega
        simp only [if_neg hplaces]
        refine (writes_plain negative (Or.inl rfl) hfraction).of_eq ?_ ?_
        · rw [if_neg hne]
          rfl
        · rw [hlength, hexponent, ← List.append_assoc, Nat.ofDigitChars_append,
            show ['0'] = List.replicate 1 '0' from rfl, List.replicate_append_replicate,
            Nat.ofDigitChars_replicate_zero, Nat.mul_zero]

theorem wellFormed_exponentForm (n : Int) : (exponentForm n).WellFormed := by
  cases n with
  | ofNat k => exact ⟨Or.inl rfl, by simp [exponentForm], digits_toDigits k, Nat.toDigits_ne_nil⟩
  | negSucc k => exact ⟨Or.inl rfl, by simp [exponentForm], digits_toDigits _, Nat.toDigits_ne_nil⟩

theorem text_exponentForm (n : Int) : (exponentForm n).text = 'e' :: integer n := by
  cases n <;> rfl

theorem value_exponentForm (n : Int) : (exponentForm n).value = n := by
  cases n with
  | ofNat k => simp [exponentForm, ExponentForm.value]
  | negSucc k =>
      rw [exponentForm, ExponentForm.value, if_pos rfl, Nat.ofDigitChars_ten_toDigits]
      rfl

/-- Digits times a power of ten, with one digit before the point, are a number
of that value. -/
theorem writes_scientific (negative : Bool) {digits : List Char} (hdigits : LeadingDigits digits)
    (exponent : Int) :
    Writes (scientificForm negative digits exponent) negative (scientific digits exponent)
      (Nat.ofDigitChars 10 digits 0 * 10 ^ exponent) where
  wellFormed := by
    refine ⟨Or.inr (hdigits.take (by decide)), ?_, ?_⟩
    · exact fun ch hch => hdigits.digits ch (List.mem_of_mem_drop hch)
    · intro form hform
      obtain rfl := Option.some.inj hform
      exact wellFormed_exponentForm _
  negative_eq := rfl
  text_eq := by
    rw [NumberForm.text, NumberForm.fractionText, NumberForm.exponentText, scientificForm,
      Option.elim_some, text_exponentForm, scientific]
    cases digits.drop 1 <;> simp
  value_eq := by
    rw [NumberForm.value, scientificForm, Option.elim_some, value_exponentForm,
      List.take_append_drop, List.length_drop, Int.add_sub_cancel]

/-! ## The parts of a magnitude -/

variable {magnitude : Nat}

theorem writes_zero (negative : Bool) : Writes (formOf negative 0) negative (ofMagnitude 0) 0 := by
  refine (writes_plain negative (Or.inl rfl) digits_nil).of_eq rfl ?_
  rw [show Nat.ofDigitChars 10 (['0'] ++ []) 0 = 0 from rfl, Nat.cast_zero, zero_mul]

/-- A finite magnitude is printed as its shortest decimal. -/
theorem writes_ofMagnitude (negative : Bool) (hpos : 0 < magnitude)
    (hfinite : magnitude < Binary64.infinity) :
    Writes (formOf negative magnitude) negative (ofMagnitude magnitude)
      ((Decimal.shortest magnitude).1 * 10 ^ (Decimal.shortest magnitude).2) := by
  have hten := (Decimal.coarsest_shortest hpos hfinite).mod_ten_ne_zero
  have hdigits := leadingDigits_toDigits (n := (Decimal.shortest magnitude).1) (by omega)
  rw [formOf, ofMagnitude, if_neg hpos.ne', if_neg hpos.ne']
  simp only
  split_ifs
  · exact (writes_positional negative hdigits _).of_eq rfl (by rw [Nat.ofDigitChars_ten_toDigits])
  · exact (writes_scientific negative hdigits _).of_eq rfl (by rw [Nat.ofDigitChars_ten_toDigits])

/-- What is printed for a finite magnitude rounds to it. -/
theorem exists_writes (negative : Bool) (hfinite : magnitude < Binary64.infinity) :
    ∃ q, Writes (formOf negative magnitude) negative (ofMagnitude magnitude) q ∧
      Binary64.Nearest q magnitude := by
  rcases Nat.eq_zero_or_pos magnitude with rfl | hpos
  · exact ⟨0, writes_zero negative, Binary64.value_zero ▸ Binary64.nearest_value (Nat.zero_le _)⟩
  · exact ⟨_, writes_ofMagnitude negative hpos hfinite,
      (Decimal.coarsest_shortest hpos hfinite).nearest⟩

end Numeral

theorem text_formOf {x : Binary64} (hfinite : x.isFinite = true) :
    (Numeral.formOf x.negative x.magnitude).text = x.render := by
  have hlt : x.magnitude < Binary64.infinity := of_decide_eq_true hfinite
  have hnotNaN : x.isNaN = false := decide_eq_false (by omega)
  obtain ⟨q, hwrites, -⟩ := Numeral.exists_writes x.negative hlt
  rw [hwrites.text_eq, NumberForm.signText, hwrites.negative_eq, Binary64.render, hnotNaN, hfinite]
  simp

/-- A finite double is printed as a number that denotes it. -/
theorem numberText_render {x : Binary64} (hfinite : x.isFinite = true) :
    NumberText x.render x := by
  have hlt : x.magnitude < Binary64.infinity := of_decide_eq_true hfinite
  obtain ⟨q, hwrites, hnearest⟩ := Numeral.exists_writes x.negative hlt
  rw [← text_formOf hfinite]
  exact .rounded hwrites.wellFormed hwrites.negative_eq.symm (hwrites.value_eq ▸ hnearest) hfinite

/-! ## How the text looks -/

namespace Numeral

variable {magnitude : Nat}

theorem getLast?_toDigits {n : Nat} (hn : n % 10 ≠ 0) :
    (Nat.toDigits 10 n).getLast? ≠ some '0' := by
  obtain ⟨init, last, hdigits, hlast⟩ := Decimal.toDigits_eq_concat hn
  rw [hdigits, List.getLast?_concat]
  simpa using hlast

theorem getLast?_drop_ne {digits : List Char} {ch : Char} (h : digits.getLast? ≠ some ch)
    (count : Nat) : (digits.drop count).getLast? ≠ some ch := by
  rw [List.getLast?_drop]
  split_ifs
  · simp
  · exact h

/-- A fraction ends as the digits do that it is made from. -/
theorem getLast?_fraction_positionalForm (negative : Bool) {digits : List Char} (hne : digits ≠ [])
    (h : digits.getLast? ≠ some '0') (exponent : Int) :
    (positionalForm negative digits exponent).fraction.getLast? ≠ some '0' := by
  cases exponent with
  | ofNat e => simp [positionalForm]
  | negSucc e =>
      rw [positionalForm]
      split_ifs
      · exact getLast?_drop_ne h _
      · simp only
        rwa [List.getLast?_append_of_ne_nil _ hne]

/-- A fraction does not end in a zero. -/
theorem getLast?_fraction_formOf (negative : Bool) (hfinite : magnitude < Binary64.infinity) :
    (formOf negative magnitude).fraction.getLast? ≠ some '0' := by
  rcases Nat.eq_zero_or_pos magnitude with rfl | hpos
  · simp [formOf]
  · have hlast := getLast?_toDigits (Decimal.coarsest_shortest hpos hfinite).mod_ten_ne_zero
    rw [formOf, if_neg hpos.ne']
    split_ifs
    · exact getLast?_fraction_positionalForm negative Nat.toDigits_ne_nil hlast _
    · exact getLast?_drop_ne hlast 1

theorem exponent_positionalForm (negative : Bool) (digits : List Char) (exponent : Int) :
    (positionalForm negative digits exponent).exponent = none := by
  cases exponent with
  | ofNat e => rfl
  | negSucc e =>
      rw [positionalForm]
      split_ifs <;> rfl

/-- There is an exponent where the magnitude is not written out. -/
theorem isSome_exponent_formOf (negative : Bool) (magnitude : Nat) :
    (formOf negative magnitude).exponent.isSome = true ↔
      magnitude ≠ 0 ∧ isPositional magnitude = false := by
  unfold formOf
  split_ifs with hzero hpositional
  · simp [hzero]
  · simp [exponent_positionalForm, hpositional]
  · simp [scientificForm, hzero, hpositional]

/-- What rounds from a value from one up to ten is written out. -/
theorem isPositional_of_nearest {q : ℚ} (h : Binary64.Nearest q magnitude) (hlow : 1 ≤ q)
    (hhigh : q ≤ 10) : isPositional magnitude = true := by
  have hleast := Decimal.nearest_toBinary64 ⟨false, 1, -6⟩
  have hten := Decimal.nearest_toBinary64 ⟨false, 1, 1⟩
  have hle : leastPositional.magnitude ≤ magnitude := by
    refine hleast.mono h (le_trans ?_ hlow)
    norm_num [Decimal.value]
  have hlt : magnitude < leastLarge.magnitude := by
    have hbelow := h.mono hten (hhigh.trans (by norm_num [Decimal.value]))
    exact hbelow.trans_lt (by decide +kernel)
  exact decide_eq_true ⟨hle, hlt⟩

/-- Digits with a point behind the first one write a number from one up to
ten. -/
theorem mul_zpow_bounds {n : Nat} (hn : n ≠ 0) :
    (1 : ℚ) ≤ n * 10 ^ (-(((Nat.toDigits 10 n).length - 1 : Nat) : Int)) ∧
      n * 10 ^ (-(((Nat.toDigits 10 n).length - 1 : Nat) : Int)) ≤ (10 : ℚ) := by
  obtain ⟨places, hplaces⟩ : ∃ places, (Nat.toDigits 10 n).length = places + 1 :=
    Nat.exists_eq_succ_of_ne_zero (Nat.length_toDigits_pos).ne'
  have hbelow : n < 10 ^ (places + 1) :=
    (Nat.length_toDigits_le_iff (by decide) (Nat.succ_pos _)).mp hplaces.le
  have habove : 10 ^ places ≤ n := by
    rcases Nat.eq_zero_or_pos places with rfl | hpos
    · exact Nat.one_le_iff_ne_zero.mpr hn
    · by_contra hlt
      have hle := (Nat.length_toDigits_le_iff (by decide) hpos).mpr (Nat.lt_of_not_le hlt)
      omega
  rw [hplaces, Nat.add_sub_cancel, zpow_neg, zpow_natCast, ← div_eq_mul_inv,
    one_le_div (by positivity), div_le_iff₀ (by positivity), ← pow_succ']
  exact ⟨by exact_mod_cast habove, by exact_mod_cast hbelow.le⟩

/-- A whole number but zero has no plus sign and no zero in front. -/
theorem exponentForm_plain {n : Int} (hn : n ≠ 0) :
    (exponentForm n).sign ≠ some '+' ∧ (exponentForm n).digits.head? ≠ some '0' := by
  have hhead : ∀ {k : Nat}, k ≠ 0 → (Nat.toDigits 10 k).head? ≠ some '0' := by
    intro k hk
    obtain ⟨first, rest, hdigits, hlow, -⟩ := leadingDigits_toDigits hk
    rw [hdigits, List.head?_cons]
    rintro heq
    obtain rfl := Option.some.inj heq
    exact absurd hlow (by decide)
  cases n with
  | ofNat k => exact ⟨by simp [exponentForm], hhead (by simpa using hn)⟩
  | negSucc k => exact ⟨by simp [exponentForm], hhead (Nat.succ_ne_zero k)⟩

/-- Before an exponent one digit but zero stands in front of the point, and the
exponent is written without a plus sign and without a zero in front. -/
theorem exponent_formOf {negative : Bool} (hfinite : magnitude < Binary64.infinity)
    {exponent : ExponentForm} (h : (formOf negative magnitude).exponent = some exponent) :
    (∃ first, (formOf negative magnitude).whole = [first] ∧ '1' ≤ first ∧ first ≤ '9') ∧
      exponent.sign ≠ some '+' ∧ exponent.digits.head? ≠ some '0' := by
  obtain ⟨hzero, hpositional⟩ :=
    (isSome_exponent_formOf negative magnitude).mp (Option.isSome_iff_exists.mpr ⟨_, h⟩)
  have hcoarsest := Decimal.coarsest_shortest (Nat.pos_of_ne_zero hzero) hfinite
  have hten := hcoarsest.mod_ten_ne_zero
  have hnotPositional : ¬ isPositional magnitude = true := by
    rw [hpositional]
    decide
  rw [formOf, if_neg hzero, if_neg hnotPositional] at h ⊢
  generalize (Decimal.shortest magnitude).1 = multiple at h hcoarsest hten ⊢
  generalize (Decimal.shortest magnitude).2 = grid at h hcoarsest ⊢
  have hne : multiple ≠ 0 := by omega
  obtain ⟨first, rest, hdigits, hlow, hhigh, -⟩ := leadingDigits_toDigits hne
  refine ⟨⟨first, ?_, hlow, hhigh⟩, ?_⟩
  · rw [scientificForm, hdigits]
    rfl
  · obtain rfl := Option.some.inj h
    refine exponentForm_plain fun hexponent => hnotPositional ?_
    obtain ⟨hone, hbelow⟩ := mul_zpow_bounds hne
    have hnearest := hcoarsest.nearest
    rw [show grid = -(((Nat.toDigits 10 multiple).length - 1 : Nat) : Int) by omega] at hnearest
    exact isPositional_of_nearest hnearest hone hbelow

end Numeral

/-- No decimal of the double has fewer significant digits than its printed
text. -/
theorem significant_formOf_le {x : Binary64} (hfinite : x.isFinite = true) {d e : Decimal}
    (hd : Decimal.read? (Numeral.formOf x.negative x.magnitude).text = some d)
    (he : e.toBinary64 = x) : d.significant ≤ e.significant := by
  have hlt : x.magnitude < Binary64.infinity := of_decide_eq_true hfinite
  obtain ⟨q, hwrites, -⟩ := Numeral.exists_writes x.negative hlt
  obtain ⟨d', hd', -, hvalue⟩ := NumberForm.read?_text hwrites.wellFormed
  obtain rfl := Option.some.inj (hd.symm.trans hd')
  rcases Nat.eq_zero_or_pos x.magnitude with hzero | hpos
  · rw [hzero, (Numeral.writes_zero x.negative).value_eq] at hvalue
    rw [Decimal.significant_of_value_eq_zero hvalue]
    exact Nat.zero_le _
  · rw [(Numeral.writes_ofMagnitude x.negative hpos hlt).value_eq] at hvalue
    exact (Decimal.coarsest_shortest hpos hlt).significant_le hvalue (he ▸ e.nearest_toBinary64)

end JsonGrammar
