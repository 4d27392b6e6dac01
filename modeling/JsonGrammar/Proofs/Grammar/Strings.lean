import JsonGrammar.Proofs.Grammar.Text
import JsonGrammar.Proofs.Parser.Runs
import JsonGrammar.Rule.Text

/-!
# The rule for strings

The rule reads nothing but texts of strings (`yields_stringLiteral`) and reads
such a text whole, whatever follows it (`consumes_stringLiteral`): each round of
the loop takes the text of one character, and a quote that is no such text
ends it.
-/

namespace JsonGrammar

namespace Rule

open JsonGrammar.Parser Grammar

/-! ## Single characters -/

theorem escapedBy?_eq_some_iff {letter ch : Char} :
    escapedBy? letter = some ch ↔ LetterFor letter ch := by
  constructor
  · intro h
    unfold escapedBy? at h
    split at h
    all_goals first
      | (obtain rfl := Option.some.inj h; constructor)
      | simp at h
  · intro h
    cases h <;> rfl

theorem isPlain_iff {ch : Char} :
    isPlain ch = true ↔ ch ≠ '"' ∧ ch ≠ '\\' ∧ 0x20 ≤ ch.toNat := by
  simp only [isPlain, Bool.and_eq_true, bne_iff_ne, decide_eq_true_eq, and_assoc, Char.le_def,
    UInt32.le_iff_toNat_le]
  rfl

theorem UnitText.lt {quad : List Char} {unit : Nat} (h : UnitText quad unit) : unit < 0x10000 := by
  cases h with
  | digits ha hb hc hd =>
      have hi := Hexadecimal.digit?_lt ha
      have hj := Hexadecimal.digit?_lt hb
      have hk := Hexadecimal.digit?_lt hc
      have hl := Hexadecimal.digit?_lt hd
      omega

/-- The text of a unit is four digits in a row. -/
theorem unitText_iff {quad : List Char} {unit : Nat} :
    UnitText quad unit ↔
      ∃ digits, digits.length = 4 ∧ quad.map Hexadecimal.digit? = digits.map some ∧
        Hexadecimal.ofDigits digits = unit := by
  have hvalue : ∀ i j k l : Nat,
      Hexadecimal.ofDigits [i, j, k, l] = i * 16 ^ 3 + j * 16 ^ 2 + k * 16 + l := by
    intro i j k l
    simp only [Hexadecimal.ofDigits, List.foldl_cons, List.foldl_nil]
    omega
  constructor
  · intro h
    cases h with
    | digits ha hb hc hd => exact ⟨[_, _, _, _], rfl, by simp [ha, hb, hc, hd], hvalue _ _ _ _⟩
  · intro h
    obtain ⟨digits, hlength, hdigits, rfl⟩ := h
    obtain ⟨i, j, k, l, rfl⟩ := List.length_eq_four.mp hlength
    obtain ⟨a, b, c, d, rfl⟩ : ∃ a b c d, quad = [a, b, c, d] := by
      refine List.length_eq_four.mp ?_
      rw [← List.length_map (f := Hexadecimal.digit?), hdigits]
      rfl
    simp only [List.map_cons, List.map_nil, List.cons.injEq, and_true] at hdigits
    obtain ⟨ha, hb, hc, hd⟩ := hdigits
    rw [hvalue]
    exact .digits ha hb hc hd

theorem isHighSurrogate_iff {unit : Nat} :
    isHighSurrogate unit = true ↔ 0xD800 ≤ unit ∧ unit ≤ 0xDBFF :=
  decide_eq_true_iff

theorem isLowSurrogate_iff {unit : Nat} :
    isLowSurrogate unit = true ↔ 0xDC00 ≤ unit ∧ unit ≤ 0xDFFF :=
  decide_eq_true_iff

theorem characterAt_eq_done_iff {c d n : Cursor} {codePoint : Nat} {ch : Char} :
    characterAt c codePoint d = .done ch n ↔
      codePoint.isValidChar ∧ ch = Char.ofNat codePoint ∧ n = d := by
  by_cases hvalid : codePoint.isValidChar
  · rw [characterAt_of_valid c d hvalid, Outcome.done.injEq]
    constructor
    · intro h
      obtain ⟨rfl, rfl⟩ := h
      exact ⟨hvalid, rfl, rfl⟩
    · intro h
      obtain ⟨-, rfl, rfl⟩ := h
      exact ⟨rfl, rfl⟩
  · simp [characterAt_of_not_valid c d hvalid, hvalid]

/-! ## What is read -/

theorem yields_hexDigit :
    hexDigit.Yields fun text n => ∃ ch, text = [ch] ∧ Hexadecimal.digit? ch = some n := by
  refine ((yields_expecting _ _).map _).mono ?_
  intro text n h
  obtain ⟨ch, ⟨rfl, hch⟩, rfl⟩ := h
  obtain ⟨n, hn⟩ := Option.isSome_iff_exists.mp hch
  refine ⟨ch, rfl, ?_⟩
  show Hexadecimal.digit? ch = some ((Hexadecimal.digit? ch).getD 0)
  rw [hn, Option.getD_some]

/-- Digits in turn are read as their values. -/
theorem yields_hexDigits (count : Nat) :
    (inTurn (List.replicate count hexDigit)).Yields fun text digits =>
      digits.length = count ∧ text.map Hexadecimal.digit? = digits.map some := by
  induction count with
  | zero =>
      refine (yields_succeed []).mono ?_
      intro text digits h
      obtain ⟨rfl, rfl⟩ := h
      exact ⟨rfl, rfl⟩
  | succ count ih =>
      refine (yields_hexDigit.andThen fun first => ih.map (first :: ·)).mono ?_
      intro text digits h
      obtain ⟨_, n, second, rfl, ⟨ch, rfl, hch⟩, further, ⟨hlength, hsecond⟩, rfl⟩ := h
      refine ⟨congrArg Nat.succ hlength, ?_⟩
      rw [List.singleton_append, List.map_cons, List.map_cons, hch, hsecond]

theorem yields_hexQuad : hexQuad.Yields UnitText := by
  refine ((yields_hexDigits 4).map Hexadecimal.ofDigits).mono ?_
  intro text unit h
  obtain ⟨digits, ⟨hlength, hdigits⟩, rfl⟩ := h
  exact unitText_iff.mpr ⟨digits, hlength, hdigits, rfl⟩

theorem yields_escapedUnit {quad : List Char} {unit : Nat} (hquad : UnitText quad unit) :
    (escapedUnit unit).Yields fun text ch => CharText ('\\' :: 'u' :: quad ++ text) ch := by
  intro c n ch hc hrun
  unfold escapedUnit at hrun
  split_ifs at hrun with hlow hhigh
  · obtain ⟨low, m, hpair, hrun⟩ := Outcome.andThen_eq_done_iff.mp hrun
    split_ifs at hrun with hpartner
    obtain ⟨text, hreads, first, _, quad', rfl, ⟨rfl, -⟩, hquad'⟩ :=
      ((yields_literal "\\u").skipThen yields_hexQuad) hc hpair
    have hchar := CharText.surrogates hquad hquad' (isHighSurrogate_iff.mp hhigh)
      (isLowSurrogate_iff.mp hpartner)
    change CharText _ (Char.ofNat (joinSurrogates unit low)) at hchar
    generalize joinSurrogates unit low = codePoint at hrun hchar
    obtain ⟨-, rfl, rfl⟩ := characterAt_eq_done_iff.mp hrun
    exact ⟨_, hreads, hchar⟩
  · obtain ⟨hvalid, rfl, rfl⟩ := characterAt_eq_done_iff.mp hrun
    refine ⟨[], .refl n, ?_⟩
    show CharText ('\\' :: 'u' :: quad ++ []) _
    rw [List.append_nil]
    refine .unit hquad ?_
    rw [isHighSurrogate_iff] at hhigh
    rw [isLowSurrogate_iff] at hlow
    omega

/-- Behind a backslash one character is read. -/
theorem yields_escape : escape.Yields CharText := by
  intro c n ch hc hrun
  obtain ⟨_, m, hbackslash, hrun⟩ := andThen_eq_done_iff.mp hrun
  obtain ⟨_, hfirst, rfl⟩ := yields_char '\\' hc hbackslash
  have hm := hfirst.placed hc
  split at hrun
  · rename_i next hnext
    have hu := Cursor.next?_eq_some_iff.mp hnext
    obtain ⟨unit, d, hquad, hrun⟩ := andThen_eq_done_iff.mp hrun
    obtain ⟨quad, hreads, hunit⟩ := yields_hexQuad (hu.placed hm) hquad
    obtain ⟨text, hthen, hchar⟩ :=
      yields_escapedUnit hunit (hreads.placed (hu.placed hm)) hrun
    exact ⟨_, ((hfirst.trans hu).trans hreads).trans hthen, hchar⟩
  · obtain ⟨letter, hletter, hvalue⟩ := map_eq_done_iff.mp hrun
    obtain ⟨_, hreads, rfl, hsome⟩ := yields_expecting _ _ hm hletter
    obtain ⟨ch', hch'⟩ := Option.isSome_iff_exists.mp hsome
    rw [hch', Option.getD_some] at hvalue
    subst hvalue
    exact ⟨_, hfirst.trans hreads, .letter (escapedBy?_eq_some_iff.mp hch')⟩

theorem yields_plainChar : plainChar.Yields CharText := by
  refine (yields_expecting _ _).mono ?_
  intro text ch h
  obtain ⟨rfl, hplain⟩ := h
  obtain ⟨hquote, hbackslash, hcontrol⟩ := isPlain_iff.mp hplain
  exact .plain hquote hbackslash hcontrol

theorem roundYields_textRound : RoundYields textRound CharText := by
  intro c n ch hc hround
  rcases textRound_eq c with h | h | h
  · simp [h] at hround
  · exact yields_escape hc (ofOutcome_eq_again_iff.mp (h ▸ hround))
  · exact yields_plainChar hc (ofOutcome_eq_again_iff.mp (h ▸ hround))

theorem yields_textBody : textBody.Yields ((Reading.Repeated CharText).Map String.ofList) := by
  refine Yields.map ((roundYields_textRound.rounds []).mono ?_) String.ofList
  intro text chars h
  obtain ⟨further, hrepeated, rfl⟩ := h
  exact hrepeated

/-- A quote, the texts of characters and a quote are the text of a string. -/
theorem stringText_of_parts (text : List Char) (s : String)
    (h : Reading.SkipThen (.Only ['"'] : Reading Char)
      (((Reading.Repeated CharText).Map String.ofList).ThenSkip (.Only ['"'] : Reading Char))
      text s) : StringText text s := by
  obtain ⟨_, _, _, rfl, rfl, body, _, _, rfl, ⟨chars, hchars, rfl⟩, rfl⟩ := h
  exact .quoted hchars

/-- What is read for a string is the text of a string. -/
theorem yields_stringLiteral : stringLiteral.Yields StringText :=
  ((yields_char '"').skipThen (yields_textBody.thenSkip (yields_char '"'))).mono
    stringText_of_parts

/-! ## What is taken -/

theorem consumes_hexDigit {ch : Char} {n : Nat} (hch : Hexadecimal.digit? ch = some n)
    (rest : List Char) : hexDigit.Consumes [ch] n rest := by
  have hsome : (Hexadecimal.digit? ch).isSome = true := by rw [hch, Option.isSome_some]
  have hone : (satisfy (fun ch => (Hexadecimal.digit? ch).isSome) "hexadecimal digit").Consumes
      [ch] ch rest := consumes_expecting _ hsome rest
  have hrun := hone.map fun ch => (Hexadecimal.digit? ch).getD 0
  rwa [hch, Option.getD_some] at hrun

theorem consumes_hexDigits {text : List Char} {digits : List Nat}
    (h : text.map Hexadecimal.digit? = digits.map some) (rest : List Char) :
    (inTurn (List.replicate digits.length hexDigit)).Consumes text digits rest := by
  induction digits generalizing text with
  | nil =>
      rw [List.map_nil, List.map_eq_nil_iff] at h
      rw [h]
      exact consumes_succeed [] rest
  | cons n digits ih =>
      obtain ⟨ch, text', rfl, hch, htext'⟩ := List.map_eq_cons_iff.mp h
      exact (consumes_hexDigit hch (text' ++ rest)).andThen ((ih htext').map (n :: ·))

theorem consumes_hexQuad {quad : List Char} {unit : Nat} (h : UnitText quad unit)
    (rest : List Char) : hexQuad.Consumes quad unit rest := by
  obtain ⟨digits, hlength, hdigits, rfl⟩ := unitText_iff.mp h
  have hrun := consumes_hexDigits hdigits rest
  rw [hlength] at hrun
  exact hrun.map Hexadecimal.ofDigits

/-- A pair of surrogates writes a code point beyond the first plane. -/
theorem isValidChar_joinSurrogates {high low : Nat} (hhigh : 0xD800 ≤ high ∧ high ≤ 0xDBFF)
    (hlow : 0xDC00 ≤ low ∧ low ≤ 0xDFFF) : (joinSurrogates high low).isValidChar := by
  right
  unfold joinSurrogates
  constructor <;> omega

theorem isValidChar_of_unit {unit : Nat} (hunit : unit < 0xD800 ∨ 0xDFFF < unit)
    (hlt : unit < 0x10000) : unit.isValidChar := by
  rcases hunit with h | h
  · exact Or.inl h
  · exact Or.inr ⟨h, by omega⟩

theorem consumes_escapedUnit_nil {unit : Nat} (hunit : unit < 0xD800 ∨ 0xDFFF < unit)
    (hlt : unit < 0x10000) (rest : List Char) :
    (escapedUnit unit).Consumes [] (Char.ofNat unit) rest := by
  intro c _ _
  have hvalid := isValidChar_of_unit hunit hlt
  have hlow : ¬ isLowSurrogate unit = true := by
    rw [isLowSurrogate_iff]
    omega
  have hhigh : ¬ isHighSurrogate unit = true := by
    rw [isHighSurrogate_iff]
    omega
  rw [escapedUnit, if_neg hlow, if_neg hhigh, Cursor.advance_nil]
  exact characterAt_eq_done_iff.mpr ⟨hvalid, rfl, rfl⟩

/-- A high surrogate with a low one behind it is the character they write
together. -/
theorem escapedUnit_of_pair {c n : Cursor} {high low : Nat} (hhigh : isHighSurrogate high = true)
    (hpair : (literal "\\u").skipThen hexQuad c = .done low n)
    (hlow : isLowSurrogate low = true) :
    escapedUnit high c = .done (Char.ofNat (joinSurrogates high low)) n := by
  have hvalid := isValidChar_joinSurrogates (isHighSurrogate_iff.mp hhigh)
    (isLowSurrogate_iff.mp hlow)
  have hnotLow : ¬ isLowSurrogate high = true := by
    rw [isHighSurrogate_iff] at hhigh
    rw [isLowSurrogate_iff]
    omega
  rw [escapedUnit, if_neg hnotLow, if_pos hhigh, hpair, Outcome.andThen_done, if_pos hlow]
  generalize joinSurrogates high low = codePoint at hvalid ⊢
  exact characterAt_eq_done_iff.mpr ⟨hvalid, rfl, rfl⟩

theorem consumes_escapedUnit_surrogate {quad : List Char} {high low : Nat}
    (hquad : UnitText quad low) (hhigh : 0xD800 ≤ high ∧ high ≤ 0xDBFF)
    (hlow : 0xDC00 ≤ low ∧ low ≤ 0xDFFF) (rest : List Char) :
    (escapedUnit high).Consumes ('\\' :: 'u' :: quad) (Char.ofNat (joinSurrogates high low))
      rest := by
  intro c hc hrest
  have hpair : ((literal "\\u").skipThen hexQuad).Consumes ('\\' :: 'u' :: quad) low rest :=
    (consumes_literal "\\u" (quad ++ rest)).skipThen (consumes_hexQuad hquad rest)
  exact escapedUnit_of_pair (isHighSurrogate_iff.mpr hhigh) (hpair hc hrest)
    (isLowSurrogate_iff.mpr hlow)

theorem consumes_letterEscape {letter ch : Char} (h : LetterFor letter ch) (rest : List Char) :
    letterEscape.Consumes [letter] ch rest := by
  have hletter := escapedBy?_eq_some_iff.mpr h
  have hsome : (escapedBy? letter).isSome = true := by rw [hletter, Option.isSome_some]
  have hone : (satisfy (fun ch => (escapedBy? ch).isSome) "escape character").Consumes
      [letter] letter rest := consumes_expecting _ hsome rest
  have hrun := hone.map fun ch => (escapedBy? ch).getD ch
  rwa [hletter, Option.getD_some] at hrun

/-- Behind a backslash and the letter u the digits of an escape are read. -/
theorem escape_of_unicode {rest : List Char} {c : Cursor} (hrest : c.rest = '\\' :: 'u' :: rest) :
    escape c = unicodeEscape (c.advance ['\\', 'u']) := by
  have hthen : (c.advance ['\\']).rest = 'u' :: rest := Cursor.rest_advance_of_eq hrest
  have hbackslash : char '\\' c = .done '\\' (c.advance ['\\']) :=
    expecting_of_rest hrest (by decide)
  rw [escape, andThen, hbackslash, Outcome.andThen_done, Cursor.next?_of_rest hthen]
  simp only
  rw [← Cursor.advance_append]
  rfl

theorem consumes_escape_unicode {text rest : List Char} {ch : Char}
    (h : unicodeEscape.Consumes text ch rest) :
    escape.Consumes ('\\' :: 'u' :: text) ch rest := by
  intro c hc hrest
  have hopen : c.rest = ['\\', 'u'] ++ (text ++ rest) := hrest
  rw [escape_of_unicode hrest, show '\\' :: 'u' :: text = ['\\', 'u'] ++ text from rfl,
    Cursor.advance_append]
  exact h (Cursor.placed_advance hc hopen) (Cursor.rest_advance_of_eq hopen)

theorem consumes_escape_letter {letter ch : Char} (h : LetterFor letter ch) (rest : List Char) :
    escape.Consumes ['\\', letter] ch rest := by
  show ((char '\\').andThen _).Consumes (['\\'] ++ [letter]) ch rest
  refine (consumes_char '\\' ([letter] ++ rest)).andThen ?_
  intro c hc hrest
  have hnext : c.next? = some (letter, c.advance [letter]) := Cursor.next?_of_rest hrest
  simp only
  split
  · -- The letter u stands for no character.
    rename_i next hu
    rw [hnext] at hu
    obtain ⟨rfl, -⟩ := Prod.mk.inj (Option.some.inj hu)
    cases h
  · exact consumes_letterEscape h rest hc hrest

theorem textRound_of_backslash {rest : List Char} {c : Cursor} (hrest : c.rest = '\\' :: rest) :
    textRound c = .ofOutcome (escape c) := by
  rw [textRound, Cursor.peek?, hrest]
  rfl

theorem textRound_of_plain {ch : Char} (hplain : isPlain ch = true) {rest : List Char} {c : Cursor}
    (hrest : c.rest = ch :: rest) : textRound c = .ofOutcome (plainChar c) := by
  obtain ⟨hquote, hbackslash, -⟩ := isPlain_iff.mp hplain
  rw [textRound, Cursor.peek?, hrest]
  split
  · rename_i heq
    simp at heq
  · rename_i heq
    exact absurd (Option.some.inj heq) hquote
  · rename_i heq
    exact absurd (Option.some.inj heq) hbackslash
  · rfl

/-- The text of one character is taken by one round of the loop. -/
theorem textRound_of_rest {text : List Char} {ch : Char} (h : CharText text ch)
    {rest : List Char} {c : Cursor} (hc : c.Placed) (hrest : c.rest = text ++ rest) :
    textRound c = .again ch (c.advance text) := by
  cases h with
  | plain hquote hbackslash hcontrol =>
      have hplain := isPlain_iff.mpr ⟨hquote, hbackslash, hcontrol⟩
      rw [textRound_of_plain hplain hrest]
      exact ofOutcome_eq_again_iff.mpr (expecting_of_rest hrest hplain)
  | letter h =>
      rw [textRound_of_backslash hrest]
      exact ofOutcome_eq_again_iff.mpr (consumes_escape_letter h rest hc hrest)
  | @unit quad n hquad hrange =>
      have hbehind := consumes_escapedUnit_nil hrange (UnitText.lt hquad) rest
      have hrun : unicodeEscape.Consumes (quad ++ []) (Char.ofNat n) rest :=
        (consumes_hexQuad hquad _).andThen hbehind
      rw [List.append_nil] at hrun
      rw [textRound_of_backslash hrest]
      exact ofOutcome_eq_again_iff.mpr (consumes_escape_unicode hrun hc hrest)
  | @surrogates quad quad' high low hhigh hlow hhighRange hlowRange =>
      have hbehind := consumes_escapedUnit_surrogate hlow hhighRange hlowRange rest
      have hrun : unicodeEscape.Consumes (quad ++ '\\' :: 'u' :: quad')
          (Char.ofNat (joinSurrogates high low)) rest :=
        (consumes_hexQuad hhigh _).andThen hbehind
      rw [textRound_of_backslash hrest]
      exact ofOutcome_eq_again_iff.mpr (consumes_escape_unicode hrun hc hrest)

theorem charText_ne_nil {text : List Char} {ch : Char} (h : CharText text ch) : text ≠ [] := by
  cases h <;> simp

theorem chain_of_chars {body chars : List Char} (h : Reading.Repeated CharText body chars)
    {rest : List Char} {c : Cursor} (hc : c.Placed) (hrest : c.rest = body ++ rest) :
    Chain textRound c chars (c.advance body) := by
  induction h generalizing c with
  | nil =>
      rw [Cursor.advance_nil]
      exact .nil c
  | @cons first others ch chars hfirst _ ih =>
      rw [List.append_assoc] at hrest
      have hreads := Cursor.reads_advance hrest
      rw [Cursor.advance_append]
      exact .cons (textRound_of_rest hfirst hc hrest)
        (hreads.bytesLeft_lt hc (charText_ne_nil hfirst))
        (ih (hreads.placed hc) (Cursor.rest_advance_of_eq hrest))

/-- The texts of characters are taken up to the quote. -/
theorem consumes_textBody {body chars : List Char} (h : Reading.Repeated CharText body chars)
    (rest : List Char) : textBody.Consumes body (String.ofList chars) ('"' :: rest) := by
  refine Consumes.map ?_ String.ofList
  intro c hc hrest
  refine rounds_eq_done_iff.mpr ⟨chars, chain_of_chars h hc hrest, ?_, by simp⟩
  rw [textRound, Cursor.peek?, Cursor.rest_advance_of_eq hrest]
  rfl

/-- A string is taken whole, whatever follows it. -/
theorem consumes_stringLiteral {text : List Char} {s : String} (h : StringText text s)
    (rest : List Char) : stringLiteral.Consumes text s rest := by
  cases h with
  | @quoted body chars hbody =>
      have hclosed : (textBody.thenSkip (char '"')).Consumes (body ++ ['"']) (String.ofList chars)
          rest :=
        (consumes_textBody hbody rest).thenSkip (consumes_char '"' rest)
      exact (consumes_char '"' (body ++ ['"'] ++ rest)).skipThen hclosed

end Rule

end JsonGrammar
