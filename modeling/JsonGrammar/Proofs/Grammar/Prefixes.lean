import JsonGrammar.Proofs.Parser.Longest
import JsonGrammar.Proofs.Rule.Settling

/-!
# The longest text of a value

The rule for values reads the longest beginning of the input that is a document
(`parse_value_longest`).  For all values but numbers nothing that follows
matters but white space, and of that the rule takes what there is.

Numbers have several texts at one place.  The rule takes the longest of them
(`longest_numeral`), since no part of a number goes on as the next part begins,
and it goes no further back: where the longest text has no finite double the
rule fails, also if a shorter one has.
-/

namespace JsonGrammar

namespace Rule

open JsonGrammar.Parser Grammar

/-! ## Numbers -/

/-- The minus sign of a number or nothing. -/
def SignPart (text : List Char) : Prop :=
  ∃ negative : Bool, text = if negative then ['-'] else []

/-- The fraction of a number or nothing. -/
def FractionPart (text : List Char) : Prop :=
  ∃ digits, Digits digits ∧ text = if digits = [] then [] else '.' :: digits

/-- The exponent of a number or nothing. -/
def ExponentPart (text : List Char) : Prop :=
  ∃ exponent : Option ExponentForm, (∀ form ∈ exponent, form.WellFormed) ∧
    text = exponent.elim [] ExponentForm.text

theorem longest_optionalMinus : (optional (char '-')).Longest SignPart := by
  have hyields : (char '-').Yields fun text _ => ∃ ch, text = [ch] ∧ (ch == '-') = true :=
    (yields_expecting _ _).mono fun _ ch h => ⟨ch, h⟩
  refine ((longest_expecting _ _).optional hyields (settles_expecting _ _)).congr fun text => ?_
  constructor
  · intro h
    rcases h with rfl | ⟨ch, rfl, hch⟩
    · exact ⟨false, rfl⟩
    · obtain rfl := beq_iff_eq.mp hch
      exact ⟨true, rfl⟩
  · intro h
    obtain ⟨negative, rfl⟩ := h
    cases negative with
    | false => exact Or.inl rfl
    | true => exact Or.inr ⟨'-', rfl, rfl⟩

theorem longest_wholePart : wholePart.Longest NumberForm.WholeDigits := by
  intro c text hc htext hstands
  rcases htext with rfl | ⟨first, digits, rfl, hlow, hhigh, hdigits⟩
  · obtain ⟨rest, hrest⟩ := hstands
    have hzero : (skip (char '0')).Consumes ['0'] () rest := (consumes_char '0' rest).skip
    exact ⟨['0'], (), _, Or.inl rfl, List.prefix_rfl, Cursor.reads_advance hrest.symm,
      hzero.orElse hc hrest.symm⟩
  · have hpair : (skip (pair (satisfy (fun ch => '1' ≤ ch && ch ≤ '9') "digit")
        (many digit))).Longest _ :=
      ((longest_expecting _ _).pair (longest_many_expecting _ _) (apart_single _ _)).skip
    have hfirst : ∃ ch, [first] = [ch] ∧ ('1' ≤ ch && ch ≤ '9') = true :=
      ⟨first, rfl, by simp [hlow, hhigh]⟩
    obtain ⟨longer, a, n, ⟨_, digits', rfl, ⟨ch, rfl, hch⟩, hdigits'⟩, hle, hreads, hrun⟩ :=
      hpair hc ⟨[first], digits, rfl, hfirst, hdigits⟩ hstands
    simp only [Bool.and_eq_true, decide_eq_true_eq] at hch
    refine ⟨_, a, n, Or.inr ⟨ch, digits', rfl, hch.1, hch.2, hdigits'⟩, hle, hreads, ?_⟩
    have hne : ch ≠ '0' := by
      intro heq
      subst heq
      exact absurd hch.1 (by decide)
    have hzero : (skip (char '0')).Refuses (ch :: (digits' ++ n.rest)) :=
      (refuses_char hne _).skip
    exact orElse_eq_done_iff.mpr (Or.inr ⟨hzero hc hreads.rest_eq, hrun⟩)

theorem longest_fraction :
    fraction.Longest fun text => ∃ digits, text = '.' :: digits ∧ Digits digits ∧ digits ≠ [] := by
  refine ((longest_expecting _ _).pair (longest_many1_expecting _ _)
    (apart_single _ _)).skip.congr fun text => ?_
  constructor
  · intro h
    obtain ⟨_, digits, rfl, ⟨ch, rfl, hch⟩, hdigits⟩ := h
    obtain rfl := beq_iff_eq.mp hch
    exact ⟨digits, rfl, hdigits⟩
  · intro h
    obtain ⟨digits, rfl, hdigits⟩ := h
    exact ⟨['.'], digits, rfl, ⟨'.', rfl, rfl⟩, hdigits⟩

theorem longest_optionalFraction : (optional fraction).Longest FractionPart := by
  refine (longest_fraction.optional yields_fraction settles_fraction).congr fun text => ?_
  constructor
  · intro h
    rcases h with rfl | ⟨digits, rfl, hdigits, hne⟩
    · exact ⟨[], digits_nil, rfl⟩
    · exact ⟨digits, hdigits, (if_neg hne).symm⟩
  · intro h
    obtain ⟨digits, hdigits, rfl⟩ := h
    split_ifs with hne
    · exact Or.inl rfl
    · exact Or.inr ⟨digits, rfl, hdigits, hne⟩

theorem longest_exponent :
    exponent.Longest fun text => ∃ form : ExponentForm, form.WellFormed ∧ text = form.text := by
  have hyieldsSign : (satisfy (fun ch => ch == '+' || ch == '-') "sign").Yields
      fun text _ => ∃ ch, text = [ch] ∧ (ch == '+' || ch == '-') = true :=
    (yields_expecting _ _).mono fun _ ch h => ⟨ch, h⟩
  have hsign := (longest_expecting (.member "sign") fun ch => ch == '+' || ch == '-').optional
    hyieldsSign (settles_expecting _ _)
  have hopening := (longest_expecting (.member "exponent") fun ch => ch == 'e' || ch == 'E').pair
    hsign (apart_single _ _)
  refine (hopening.pair (longest_many1_expecting _ _) ?_).skip.congr fun text => ?_
  · -- Behind the letter only a sign can be added, and that is no digit.
    intro first more second ch hfirst hmore hdigits
    obtain ⟨_, sign, rfl, ⟨letter, rfl, -⟩, -⟩ := hfirst
    obtain ⟨_, sign', hmore, ⟨letter', rfl, -⟩, hsign'⟩ := hmore
    rcases hsign' with rfl | ⟨ch', rfl, hch'⟩
    · simp at hmore
    · have hch : ch = ch' := by
        cases sign <;> simp_all
      have hdigit : ch.isDigit = true := hdigits.1 ch List.mem_cons_self
      rw [hch] at hdigit
      rcases Bool.or_eq_true _ _ ▸ hch' with h | h <;>
        exact ne_of_isDigit hdigit (by decide) (beq_iff_eq.mp h)
  · constructor
    · intro h
      obtain ⟨_, digits, rfl, ⟨_, sign, rfl, ⟨letter, rfl, hletter⟩, hsign⟩, hdigits, hne⟩ := h
      simp only [Bool.or_eq_true, beq_iff_eq] at hletter hsign
      rcases hsign with rfl | ⟨ch, rfl, hch⟩
      · exact ⟨⟨letter, none, digits⟩, ⟨hletter, by simp, hdigits, hne⟩, rfl⟩
      · exact ⟨⟨letter, some ch, digits⟩, ⟨hletter, by simpa using hch, hdigits, hne⟩, rfl⟩
    · intro h
      obtain ⟨⟨letter, sign, digits⟩, ⟨hletter, hsign, hdigits, hne⟩, rfl⟩ := h
      refine ⟨letter :: sign.toList, digits, rfl, ⟨[letter], sign.toList, rfl,
        ⟨letter, rfl, by simpa using hletter⟩, ?_⟩, hdigits, hne⟩
      cases sign with
      | none => exact Or.inl rfl
      | some ch => exact Or.inr ⟨ch, rfl, by simpa using hsign ch rfl⟩

theorem longest_optionalExponent : (optional exponent).Longest ExponentPart := by
  have hyields : exponent.Yields fun text _ =>
      ∃ form : ExponentForm, form.WellFormed ∧ text = form.text := yields_exponent
  refine (longest_exponent.optional hyields settles_exponent).congr fun text => ?_
  constructor
  · intro h
    rcases h with rfl | ⟨form, hform, rfl⟩
    · exact ⟨none, by simp, rfl⟩
    · refine ⟨some form, fun other hother => ?_, rfl⟩
      obtain rfl := Option.some.inj hother
      exact hform
  · intro h
    obtain ⟨exponent, hform, rfl⟩ := h
    cases exponent with
    | none => exact Or.inl rfl
    | some form => exact Or.inr ⟨form, hform form rfl, rfl⟩

/-- In front of the fraction stand digits, perhaps behind a minus sign. -/
theorem mem_signedWhole (text : List Char) (h : Behind SignPart NumberForm.WholeDigits text) :
    ∀ ch ∈ text, ch = '-' ∨ ch.isDigit = true := by
  obtain ⟨_, whole, rfl, ⟨negative, rfl⟩, hwhole⟩ := h
  intro ch hch
  rcases List.mem_append.mp hch with hsign | hmem
  · cases negative <;> simp_all
  · exact Or.inr (hwhole.digits ch hmem)

theorem fraction_head {ch : Char} {text : List Char} (h : FractionPart (ch :: text)) :
    ch = '.' := by
  obtain ⟨digits, -, hdigits⟩ := h
  split_ifs at hdigits
  exact (List.cons.inj hdigits).1

/-- In front of the exponent stands no letter. -/
theorem mem_fractional (text : List Char)
    (h : Behind (Behind SignPart NumberForm.WholeDigits) FractionPart text) :
    ∀ ch ∈ text, ch ≠ 'e' ∧ ch ≠ 'E' := by
  obtain ⟨first, _, rfl, hfirst, digits, hdigits, rfl⟩ := h
  have hdigit : ∀ ch : Char, ch.isDigit = true → ch ≠ 'e' ∧ ch ≠ 'E' :=
    fun ch hch => ⟨ne_of_isDigit hch (by decide), ne_of_isDigit hch (by decide)⟩
  intro ch hch
  rcases List.mem_append.mp hch with hmem | hmem
  · rcases mem_signedWhole first hfirst ch hmem with rfl | h
    · decide
    · exact hdigit ch h
  · split_ifs at hmem
    · simp at hmem
    · rcases List.mem_cons.mp hmem with rfl | hmem
      · decide
      · exact hdigit ch (hdigits ch hmem)

theorem exponent_head (ch : Char) (text : List Char) (h : ExponentPart (ch :: text)) :
    ¬ (ch ≠ 'e' ∧ ch ≠ 'E') := by
  obtain ⟨exponent, hexponent, htext⟩ := h
  cases exponent with
  | none => simp at htext
  | some form =>
      obtain rfl : ch = form.letter := (List.cons.inj htext).1
      intro hne
      exact (hexponent form rfl).letter.elim hne.1 hne.2

/-- Of the texts of numbers that stand at a place the longest is taken. -/
theorem longest_numeral :
    numeral.Longest fun text => ∃ form : NumberForm, form.WellFormed ∧ text = form.text := by
  have hsigned := longest_optionalMinus.pair longest_wholePart (by
    intro first more second ch hfirst hmore hwhole
    obtain ⟨negative, rfl⟩ := hfirst
    obtain ⟨negative', hmore⟩ := hmore
    obtain ⟨first, rest, heq, hdigit⟩ := hwhole.exists_cons
    obtain rfl := (List.cons.inj heq).1
    refine ne_of_isDigit hdigit (show ('-').isDigit = false by decide) ?_
    cases negative <;> cases negative' <;> simp_all)
  have hfractional := hsigned.pair longest_optionalFraction
    (apart_of_characters mem_signedWhole (by
      intro ch text hfraction
      rw [fraction_head hfraction]
      decide))
  have hapart := apart_of_characters mem_fractional exponent_head
  refine (hfractional.pair longest_optionalExponent hapart).skip.congr fun text => ?_
  constructor
  · intro h
    obtain ⟨_, _, rfl, ⟨_, _, rfl, ⟨_, whole, rfl, hsign, hwhole⟩, hfraction⟩, hexponent⟩ := h
    obtain ⟨negative, rfl⟩ := hsign
    obtain ⟨fraction, hdigits, rfl⟩ := hfraction
    obtain ⟨exponent, hform, rfl⟩ := hexponent
    exact ⟨⟨negative, whole, fraction, exponent⟩, ⟨hwhole, hdigits, hform⟩, rfl⟩
  · intro h
    obtain ⟨form, hform, rfl⟩ := h
    exact ⟨_, form.exponentText, rfl, ⟨_, form.fractionText, rfl,
      ⟨form.signText, form.whole, rfl, ⟨form.negative, rfl⟩, hform.whole⟩,
      ⟨form.fraction, hform.fraction, rfl⟩⟩, ⟨form.exponent, hform.exponent, rfl⟩⟩

/-- Where the text of a number stands the rule for numbers reads the longest
one, or fails because that one has no finite double. -/
theorem number_of_form {c : Cursor} (hc : c.Placed) {form : NumberForm} (hform : form.WellFormed)
    (hstands : form.text <+: c.rest) :
    ∃ longest : NumberForm, longest.WellFormed ∧ form.text <+: longest.text ∧
      c.Reads longest.text (c.advance longest.text) ∧
      (∀ other : NumberForm, other.WellFormed → other.text <+: c.rest →
        other.text.length ≤ longest.text.length) ∧
      ((∃ x, number c = .done x (c.advance longest.text)) ∨
        number c = .failed (Failure.raise c (.outOfRange (String.ofList longest.text)))) := by
  obtain ⟨_, _, n, ⟨longest, hlongest, rfl⟩, hle, hreads, hrun⟩ :=
    longest_numeral hc ⟨form, hform, rfl⟩ hstands
  obtain rfl := hreads.eq_advance
  refine ⟨longest, hlongest, hle, hreads, fun other hother hstands' => ?_, ?_⟩
  · exact longest_numeral.length_le hc hrun hreads ⟨other, hother, rfl⟩ hstands'
  · obtain ⟨hfinite, hinfinite⟩ := number_of_numeral hlongest hrun hreads
    rcases lt_or_ge longest.value Binary64.leastInfinite with hvalue | hvalue
    · obtain ⟨x, hdone, -⟩ := hfinite hvalue
      exact Or.inl ⟨x, hdone⟩
    · exact Or.inr (hinfinite hvalue)

theorem not_blank_of_mem_number {form : NumberForm} (hform : form.WellFormed) :
    ∀ ch ∈ form.text, isBlank ch = false := by
  have hmarks : ∀ ch ∈ ['-', '+', '.', 'e', 'E'], isBlank ch = false := by
    simp [isBlank]
  intro ch hch
  rcases NumberForm.mem_text hform ch hch with hdigit | hmem
  · exact isBlank_of_isDigit hdigit
  · exact hmarks ch hmem

/-! ## Values -/

theorem longest_whitespace : whitespace.Longest Blank :=
  (longest_many_expecting _ _).skip.congr fun _ => blank_iff.symm

/-- A token is read behind a text that stands at its place, and what it is
longer by has no white space in it; or it is the longest number there and has
no finite double. -/
theorem token_of_text (limit : Nat) {levels : Nat} {c : Cursor} (hc : c.Placed) {text : List Char}
    {v : Json} (h : ValueText text v) (hdepth : v.depth ≤ levels) (hstands : text <+: c.rest) :
    (∃ w more, tokenOf limit (innerWithin limit levels) c = .done w (c.advance (text ++ more)) ∧
      c.Reads (text ++ more) (c.advance (text ++ more)) ∧ ∀ ch ∈ more, isBlank ch = false) ∨
    ∃ longest : NumberForm, longest.WellFormed ∧ longest.text <+: c.rest ∧
      (∀ other : NumberForm, other.WellFormed → other.text <+: c.rest →
        other.text.length ≤ longest.text.length) ∧
      tokenOf limit (innerWithin limit levels) c =
        .failed (Failure.raise c (.outOfRange (String.ofList longest.text))) := by
  obtain ⟨rest, hrest⟩ := hstands
  by_cases hnumber : ∃ x, v = .number x
  · obtain ⟨x, rfl⟩ := hnumber
    cases h with
    | number h =>
        obtain ⟨ch, more, htext, hch⟩ := numberText_head h
        rw [tokenOf_of_numeral (by rw [← hrest, htext]; rfl) hch]
        cases h with
        | @rounded form _ hform _ _ _ =>
            obtain ⟨longest, hlongest, ⟨more, hmore⟩, hreads, hle, ⟨y, hrun⟩ | hrun⟩ :=
              number_of_form hc hform ⟨rest, hrest⟩
            · rw [← hmore] at hreads hrun
              refine Or.inl ⟨_, more, map_eq_done_iff.mpr ⟨y, hrun, rfl⟩, hreads, fun ch hch => ?_⟩
              exact not_blank_of_mem_number hlongest ch (by rw [← hmore]; simp [hch])
            · exact Or.inr ⟨longest, hlongest, ⟨_, hreads.rest_eq.symm⟩, hle,
                map_eq_failed_iff.mpr hrun⟩
  · have htoken : (tokenOf limit (innerWithin limit levels)).ConsumesIf (v.depth ≤ levels) text v
        rest (.nestedTooDeep limit) :=
      consumesIf_tokenWithin (fun l _ => takes_valueWithin limit l) h
        fun x hx => absurd ⟨x, hx⟩ hnumber
    have hrun := htoken hc hrest.symm
    refine Or.inl ⟨v, [], ?_, ?_, by simp⟩
    · rw [List.append_nil]
      exact hrun.1 hdepth
    · rw [List.append_nil]
      exact Cursor.reads_advance hrest.symm

/-- Behind a token the white space is taken that follows, at least as much as
was asked for. -/
theorem longest_behind_token {p : Parser Json} {c : Cursor} (hc : c.Placed)
    {text more after rest : List Char} {w : Json} (hrest : c.rest = text ++ (after ++ rest))
    (hrun : p c = .done w (c.advance (text ++ more)))
    (hreads : c.Reads (text ++ more) (c.advance (text ++ more)))
    (hmore : ∀ ch ∈ more, isBlank ch = false) (hafter : Blank after) :
    ∃ longest n, p.thenSkip whitespace c = .done w n ∧ c.Reads longest n ∧
      (text ++ after).length ≤ longest.length := by
  have hplaced := hreads.placed hc
  have hbehind : after ++ rest = more ++ (c.advance (text ++ more)).rest := by
    have hboth := hrest.symm.trans hreads.rest_eq
    rwa [List.append_assoc, List.append_cancel_left_eq] at hboth
  have hwhitespace : ∃ blank a n, after.length ≤ more.length + blank.length ∧
      (c.advance (text ++ more)).Reads blank n ∧
        whitespace (c.advance (text ++ more)) = .done a n := by
    cases more with
    | nil =>
        obtain ⟨blank, a, n, -, hle, hblank, hdone⟩ :=
          longest_whitespace hplaced hafter ⟨rest, hbehind⟩
        exact ⟨blank, a, n, by simpa using hle.length_le, hblank, hdone⟩
    | cons ch more =>
        -- What the token is longer by begins with no white space.
        obtain rfl : after = [] := by
          cases after with
          | nil => rfl
          | cons ch' after =>
              obtain rfl : ch' = ch := (List.cons.inj hbehind).1
              have hblank := blank_iff.mp hafter ch' List.mem_cons_self
              rw [hmore ch' List.mem_cons_self] at hblank
              exact absurd hblank (by decide)
        obtain ⟨blank, a, n, -, -, hblank, hdone⟩ :=
          longest_whitespace hplaced blank_nil List.nil_prefix
        exact ⟨blank, a, n, by simp, hblank, hdone⟩
  obtain ⟨blank, a, n, hle, hblank, hdone⟩ := hwhitespace
  refine ⟨_, n, ?_, hreads.trans hblank, ?_⟩
  · exact andThen_eq_done_iff.mpr ⟨w, _, hrun, map_eq_done_iff.mpr ⟨a, hdone, rfl⟩⟩
  · simp only [List.length_append] at hle ⊢
    omega

/-- Where the text of a value stands at the front of what is left, one at least
as long is read, unless it is a number and the longest one there has no finite
double. -/
theorem valueWithin_of_text (limit : Nat) {levels : Nat} {c : Cursor} (hc : c.Placed)
    {text : List Char}
    {v : Json} (h : PaddedText text v) (hdepth : v.depth ≤ levels) (hstands : text <+: c.rest) :
    (∃ w longest n, valueWithin limit levels c = .done w n ∧ c.Reads longest n ∧
      text.length ≤ longest.length) ∨
    ∃ (blank : List Char) (longest : NumberForm) (rest : List Char),
      c.rest = blank ++ (longest.text ++ rest) ∧ Blank blank ∧ longest.WellFormed ∧
      (∀ other : NumberForm, other.WellFormed → other.text <+: longest.text ++ rest →
        other.text.length ≤ longest.text.length) ∧
      valueWithin limit levels c =
        .failed (Failure.raise (c.advance blank) (.outOfRange (String.ofList longest.text))) := by
  obtain ⟨rest, hrest⟩ := hstands
  cases h with
  | @padded before token after _ hbefore h hafter =>
      simp only [List.append_assoc] at hrest
      have hreads : c.Reads before (c.advance before) := Cursor.reads_advance hrest.symm
      have hbehind : (c.advance before).rest = token ++ (after ++ rest) :=
        Cursor.rest_advance_of_eq hrest.symm
      have hends : Ends isBlank (token ++ (after ++ rest)) := by
        obtain ⟨ch, more, rfl, hblank, -⟩ := valueText_head h
        exact ends_cons.mpr hblank
      have hrun : valueWithin limit levels c =
          ((tokenOf limit (innerWithin limit levels)).thenSkip whitespace) (c.advance before) := by
        rw [valueWithin_eq, valueOf, skipThen, andThen,
          consumes_whitespace hbefore hends hc hrest.symm, Outcome.andThen_done]
      rcases token_of_text limit (hreads.placed hc) h hdepth ⟨_, hbehind.symm⟩ with
        ⟨w, more, htoken, hreads', hmore⟩ | ⟨longest, hlongest, ⟨rest', hrest'⟩, hle, hfailed⟩
      · obtain ⟨longest, n, hdone, hreads'', hle⟩ :=
          longest_behind_token (hreads.placed hc) hbehind htoken hreads' hmore hafter
        refine Or.inl ⟨w, _, n, hrun.trans hdone, hreads.trans hreads'', ?_⟩
        simp only [List.length_append] at hle ⊢
        omega
      · refine Or.inr ⟨before, longest, rest', ?_, hbefore, hlongest, ?_, ?_⟩
        · rw [hrest', hreads.rest_eq]
        · rw [hrest']
          exact hle
        · rw [hrun]
          exact andThen_eq_failed_iff.mpr (Or.inl hfailed)

/-! ## Documents at the front of the input -/

/-- The text is a document. -/
def AcceptsDocument (limits : Limits) (text : List Char) : Prop :=
  ∃ v n, parse (document limits) (String.ofList text) = .done v n

theorem acceptsDocument_iff {limits : Limits} {text : List Char} :
    AcceptsDocument limits text ↔ ∃ v, PaddedWithin limits.maxDepth text v := by
  simp only [AcceptsDocument, parse_document_eq_done_iff, String.toList_ofList, PaddedWithin]
  constructor
  · intro h
    obtain ⟨v, _, htext, hdepth, -⟩ := h
    exact ⟨v, htext, hdepth⟩
  · intro h
    obtain ⟨v, htext, hdepth⟩ := h
    exact ⟨v, _, htext, hdepth, rfl⟩

/-- A value is read from the longest beginning of the input that is a document,
and it is the value of that document.  No value is read where no beginning of
the input is a document, or where the longest number at the front of the input
has no finite double. -/
theorem parse_value_longest (limits : Limits) (source : String) :
    (∀ v n, parse (value limits) source = .done v n →
      ∃ text, (Cursor.start source).Reads text n ∧
        parse (document limits) (String.ofList text) =
          .done v (Cursor.finish (String.ofList text)) ∧
        ∀ other, other <+: source.toList → AcceptsDocument limits other →
          other.length ≤ text.length) ∧
    (∀ failure, parse (value limits) source = .failed failure →
      (∀ text, text <+: source.toList → ¬ AcceptsDocument limits text) ∨
      ∃ (blank : List Char) (longest : NumberForm) (rest : List Char),
        source.toList = blank ++ (longest.text ++ rest) ∧ Blank blank ∧ longest.WellFormed ∧
        (∀ other : NumberForm, other.WellFormed → other.text <+: longest.text ++ rest →
          other.text.length ≤ longest.text.length) ∧
        failure = Failure.raise ((Cursor.start source).advance blank)
          (.outOfRange (String.ofList longest.text))) ∧
    parse (value limits) source ≠ .stuck := by
  have hc := Cursor.placed_start source
  refine ⟨fun v n hrun => ?_, fun failure hrun => ?_, (settles_value limits).ne_stuck hc⟩
  · obtain ⟨text, hreads, htext, hdepth⟩ := yields_valueWithin _ _ hc hrun
    refine ⟨text, hreads, ?_, fun other hstands hother => ?_⟩
    · rw [← String.toList_ofList (l := text)] at htext
      exact (decides_document limits htext).1 hdepth
    · obtain ⟨w, hw, hdepth'⟩ := acceptsDocument_iff.mp hother
      rcases valueWithin_of_text limits.maxDepth hc hw hdepth' hstands with
        ⟨_, longest, _, hrun', hreads', hle⟩ | ⟨_, _, _, _, _, _, _, hfailed⟩
      · obtain ⟨rfl, rfl⟩ := Outcome.done.inj (hrun.symm.trans hrun')
        rwa [hreads.passed_unique hreads']
      · exact absurd (hrun.symm.trans hfailed) (by simp)
  · by_cases haccepts : ∃ text, text <+: source.toList ∧ AcceptsDocument limits text
    · obtain ⟨text, hstands, htext⟩ := haccepts
      obtain ⟨w, hw, hdepth⟩ := acceptsDocument_iff.mp htext
      rcases valueWithin_of_text limits.maxDepth hc hw hdepth hstands with
        ⟨_, _, _, hdone, _, _⟩ | ⟨blank, longest, rest, hrest, hblank, hlongest, hle, hfailed⟩
      · exact absurd (hrun.symm.trans hdone) (by simp)
      · exact Or.inr ⟨blank, longest, rest, hrest, hblank, hlongest, hle,
          Outcome.failed.inj (hrun.symm.trans hfailed)⟩
    · exact Or.inl fun text hstands htext => haccepts ⟨text, hstands, htext⟩

end Rule

end JsonGrammar
