import JsonGrammar.Proofs.Cursor.Reached
import JsonGrammar.Proofs.Grammar.Escapes
import JsonGrammar.Proofs.Rule.Causes

/-!
# The spellings of a string

The grammar says what a text between quotes stands for.  Here it is the other
way round: `Spelling ch` are the ways to write one character, told by its code
point, and `Spells body s` says that `body` writes the characters of `s` one
behind the other, each in any of its ways.  Code points beyond the first plane
are split into two surrogates, and the sum that joins them again gives the code
point back (`charText_iff_spelling`).

So the rule for strings never looks for a character that does not exist: four
digits that are no surrogate write a character, and so do the two halves of a
pair (`characterAt_ne_failed`).
-/

namespace JsonGrammar

namespace Grammar

/-- The ways to write a character in a string: itself, a letter behind a
backslash, the number of its code point, or its two surrogates. -/
inductive Spelling (ch : Char) : List Char → Prop where
  | plain (hquote : ch ≠ '"') (hbackslash : ch ≠ '\\') (hcontrol : 0x20 ≤ ch.toNat) :
      Spelling ch [ch]
  | letter {letter : Char} (h : LetterFor letter ch) : Spelling ch ['\\', letter]
  | number {quad : List Char} (h : UnitText quad ch.toNat) : Spelling ch ('\\' :: 'u' :: quad)
  | surrogates {quad quad' : List Char} (hbeyond : 0x10000 ≤ ch.toNat)
      (hhigh : UnitText quad (0xD800 + (ch.toNat - 0x10000) / 0x400))
      (hlow : UnitText quad' (0xDC00 + (ch.toNat - 0x10000) % 0x400)) :
      Spelling ch ('\\' :: 'u' :: quad ++ '\\' :: 'u' :: quad')

/-- The text writes the characters of the string, each in one of its ways. -/
def Spells (body : List Char) (s : String) : Prop :=
  Reading.Repeated (fun text ch => Spelling ch text) body s.toList

theorem toNat_ofNat_of_valid {n : Nat} (hvalid : n.isValidChar) : (Char.ofNat n).toNat = n := by
  rw [Char.ofNat, dif_pos hvalid]
  rfl

/-- The grammar reads a text as a character exactly where it is one of the ways
to write it. -/
theorem charText_iff_spelling {text : List Char} {ch : Char} :
    CharText text ch ↔ Spelling ch text := by
  constructor
  · intro h
    cases h with
    | plain hquote hbackslash hcontrol => exact .plain hquote hbackslash hcontrol
    | letter h => exact .letter h
    | @unit quad unit h hunit =>
        have hnat := toNat_ofNat_of_valid (Rule.isValidChar_of_unit hunit (Rule.UnitText.lt h))
        exact .number (hnat.symm ▸ h)
    | @surrogates quad quad' high low hhigh hlow hhighRange hlowRange =>
        have hnat := toNat_ofNat_of_valid (Rule.isValidChar_joinSurrogates hhighRange hlowRange)
        unfold Rule.joinSurrogates at hnat
        refine .surrogates ?_ ?_ ?_
        · omega
        · rwa [hnat, show 0xD800 + (0x10000 + (high - 0xD800) * 0x400 + (low - 0xDC00) - 0x10000) /
            0x400 = high by omega]
        · rwa [hnat, show 0xDC00 + (0x10000 + (high - 0xD800) * 0x400 + (low - 0xDC00) - 0x10000) %
            0x400 = low by omega]
  · intro h
    cases h with
    | plain hquote hbackslash hcontrol => exact .plain hquote hbackslash hcontrol
    | letter h => exact .letter h
    | number h =>
        rw [← Char.ofNat_toNat ch]
        refine .unit h ?_
        rcases ch.valid with hlow | hhigh
        · exact Or.inl hlow
        · exact Or.inr hhigh.1
    | surrogates hbeyond hhigh hlow =>
        have hlast : ch.toNat < 0x110000 := by
          rcases ch.valid with hlow | hhigh
          · exact hlow.trans (by decide)
          · exact hhigh.2
        have hjoin := CharText.surrogates hhigh hlow ⟨by omega, by omega⟩ ⟨by omega, by omega⟩
        rwa [show 0x10000 + (0xD800 + (ch.toNat - 0x10000) / 0x400 - 0xD800) * 0x400 +
          (0xDC00 + (ch.toNat - 0x10000) % 0x400 - 0xDC00) = ch.toNat by omega,
          Char.ofNat_toNat] at hjoin

/-- The text of a string is a text between quotes that spells it. -/
theorem stringText_iff_spells {text : List Char} {s : String} :
    StringText text s ↔ ∃ body, Spells body s ∧ text = '"' :: body ++ ['"'] := by
  constructor
  · intro h
    cases h with
    | @quoted body chars hbody =>
        refine ⟨body, ?_, rfl⟩
        rw [Spells, String.toList_ofList]
        exact hbody.mono fun h => charText_iff_spelling.mp h
  · intro h
    obtain ⟨body, hbody, rfl⟩ := h
    have hquoted := StringText.quoted (hbody.mono fun h => charText_iff_spelling.mpr h)
    rwa [String.ofList_toList] at hquoted

end Grammar

namespace Rule

open JsonGrammar.Parser Grammar

/-! ## The characters that escapes ask for exist -/

theorem characterAt_ne_failed {c d : Cursor} {codePoint : Nat} (hvalid : codePoint.isValidChar)
    {failure : Failure} : characterAt c codePoint d ≠ .failed failure := by
  rw [characterAt_eq_done_iff.mpr ⟨hvalid, rfl, rfl⟩]
  simp

/-- The parser does not complain of a number that is no character. -/
abbrev FindsCharacters {α : Type} (p : Parser α) : Prop :=
  p.Raises fun cause => ∀ codePoint, cause ≠ .noSuchCharacter codePoint

theorem findsCharacters_hexQuad : FindsCharacters hexQuad :=
  raises_hexQuad fun _ _ => by simp

/-- Four digits that are no surrogate, and two halves that fit, are a
character. -/
theorem findsCharacters_escapedUnit {unit : Nat} (hunit : unit < 0x10000) :
    FindsCharacters (escapedUnit unit) := by
  have hpair : FindsCharacters ((literal "\\u").skipThen hexQuad) :=
    (raises_literal fun _ _ _ => by simp).skipThen findsCharacters_hexQuad
  intro c failure hrun
  unfold escapedUnit at hrun
  split_ifs at hrun with hlow hhigh
  · obtain rfl := Outcome.failed.inj hrun
    simp [Failure.raise]
  · rcases Outcome.andThen_eq_failed_iff.mp hrun with hfirst | ⟨low, m, -, hrun⟩
    · exact hpair hfirst
    · split_ifs at hrun with hpartner
      · have hvalid := isValidChar_joinSurrogates (isHighSurrogate_iff.mp hhigh)
          (isLowSurrogate_iff.mp hpartner)
        exact absurd hrun (characterAt_ne_failed hvalid)
      · obtain rfl := Outcome.failed.inj hrun
        simp [Failure.raise]
  · rw [isLowSurrogate_iff] at hlow
    rw [isHighSurrogate_iff] at hhigh
    have hvalid := isValidChar_of_unit (show unit < 0xD800 ∨ 0xDFFF < unit by omega) hunit
    exact absurd hrun (characterAt_ne_failed hvalid)

theorem unicodeEscape_finds {c : Cursor} {failure : Failure} (hc : c.Placed)
    (hrun : unicodeEscape c = .failed failure) (codePoint : Nat) :
    failure.cause ≠ .noSuchCharacter codePoint := by
  rcases andThen_eq_failed_iff.mp hrun with hquad | ⟨unit, m, hquad, hrun⟩
  · exact findsCharacters_hexQuad hquad codePoint
  · obtain ⟨quad, -, hunit⟩ := yields_hexQuad hc hquad
    exact findsCharacters_escapedUnit (UnitText.lt hunit) hrun codePoint

/-- A string that complained of such a number would do so in one of its
escapes. -/
theorem stringLiteral_finds {c : Cursor} {failure : Failure} (hc : c.Placed)
    (hrun : stringLiteral c = .failed failure) (codePoint : Nat) :
    failure.cause ≠ .noSuchCharacter codePoint := by
  intro hcause
  obtain ⟨text, d, hreads, hanchored, -⟩ := blames_stringLiteral hc hrun
  rw [Anchored, if_pos (by rw [hcause]; rfl)] at hanchored
  obtain ⟨⟨behind, hrest⟩, hfails⟩ := hanchored
  rw [escape_of_unicode hrest] at hfails
  have hopen : d.Reads ['\\', 'u'] (d.advance ['\\', 'u']) := Cursor.reads_advance hrest
  exact unicodeEscape_finds (hopen.placed (hreads.placed hc)) hfails codePoint hcause

/-! ## The two halves of a pair -/

/-- The sum that joins two surrogates stays among the code points beyond the
first plane, and its differences are not cut off at zero. -/
theorem joinSurrogates_range {high low : Nat} (hhigh : isHighSurrogate high = true)
    (hlow : isLowSurrogate low = true) :
    0xD800 ≤ high ∧ 0xDC00 ≤ low ∧ 0x10000 ≤ joinSurrogates high low ∧
      joinSurrogates high low ≤ 0x10FFFF := by
  rw [isHighSurrogate_iff] at hhigh
  rw [isLowSurrogate_iff] at hlow
  unfold joinSurrogates
  omega

/-! ## The rule for strings -/

/-- The rule takes exactly the spellings between quotes and gives what they
spell, whatever stands behind them.  It finds every character that an escape
asks for, and wherever it joins two surrogates the sum stays in its range. -/
theorem stringLiteral_spellings {source : String} {c : Cursor} (hc : Cursor.Reached source c) :
    (∀ s n, stringLiteral c = .done s n ↔
      ∃ body, Spells body s ∧ c.Reads ('"' :: body ++ ['"']) n) ∧
    (∀ failure codePoint, stringLiteral c = .failed failure ∨ unicodeEscape c = .failed failure →
      failure.cause ≠ .noSuchCharacter codePoint) ∧
    ∀ high low m n, hexQuad c = .done high m → isHighSurrogate high = true →
      (literal "\\u").skipThen hexQuad m = .done low n → isLowSurrogate low = true →
        0xD800 ≤ high ∧ 0xDC00 ≤ low ∧ 0x10000 ≤ joinSurrogates high low ∧
          joinSurrogates high low ≤ 0x10FFFF ∧
          unicodeEscape c = .done (Char.ofNat (joinSurrogates high low)) n := by
  have hplaced := hc.standsIn.placed
  refine ⟨fun s n => ?_, ?_, ?_⟩
  · constructor
    · intro hrun
      obtain ⟨text, hreads, htext⟩ := yields_stringLiteral hplaced hrun
      obtain ⟨body, hbody, rfl⟩ := stringText_iff_spells.mp htext
      exact ⟨body, hbody, hreads⟩
    · intro h
      obtain ⟨body, hbody, hreads⟩ := h
      have htext := stringText_iff_spells.mpr ⟨body, hbody, rfl⟩
      rw [hreads.eq_advance]
      exact consumes_stringLiteral htext n.rest hplaced hreads.rest_eq
  · rintro failure codePoint (hrun | hrun)
    · exact stringLiteral_finds hplaced hrun codePoint
    · exact unicodeEscape_finds hplaced hrun codePoint
  · intro high low m n hquad hhigh hpair hlow
    obtain ⟨hle, hle', hrange⟩ := joinSurrogates_range hhigh hlow
    have hrun := escapedUnit_of_pair hhigh hpair hlow
    exact ⟨hle, hle', hrange.1, hrange.2, andThen_eq_done_iff.mpr ⟨high, m, hquad, hrun⟩⟩

/-- One character of each spelling, and a quote and more behind the string. -/
theorem stringLiteral_spellings_mixed :
    let c := Cursor.start "\"a\\/\\u00E9\\uD83d\\uDe00\"\"!"
    ∃ n, stringLiteral c = .done "a/é😀" n ∧ n.rest = ['"', '!'] := by
  intro c
  have hbody : Spells "a\\/\\u00E9\\uD83d\\uDe00".toList "a/é😀" := by
    show Reading.Repeated (fun text ch => Spelling ch text)
      (['a'] ++ (['\\', '/'] ++ ('\\' :: 'u' :: ['0', '0', 'E', '9'] ++
        (('\\' :: 'u' :: ['D', '8', '3', 'd'] ++ '\\' :: 'u' :: ['D', 'e', '0', '0']) ++ []))))
      ['a', '/', 'é', '😀']
    have hnumber : UnitText ['0', '0', 'E', '9'] (0 * 16 ^ 3 + 0 * 16 ^ 2 + 14 * 16 + 9) :=
      .digits (by decide) (by decide) (by decide) (by decide)
    have hhigh : UnitText ['D', '8', '3', 'd'] (13 * 16 ^ 3 + 8 * 16 ^ 2 + 3 * 16 + 13) :=
      .digits (by decide) (by decide) (by decide) (by decide)
    have hlow : UnitText ['D', 'e', '0', '0'] (13 * 16 ^ 3 + 14 * 16 ^ 2 + 0 * 16 + 0) :=
      .digits (by decide) (by decide) (by decide) (by decide)
    exact .cons (.plain (by decide) (by decide) (by decide)) (.cons (.letter .slash)
      (.cons (.number hnumber) (.cons (.surrogates (by decide) hhigh hlow) .nil)))
  have hrest : c.rest = ('"' :: "a\\/\\u00E9\\uD83d\\uDe00".toList ++ ['"']) ++ ['"', '!'] := by
    decide
  have hrun := ((stringLiteral_spellings .start).1 _ _).mpr ⟨_, hbody, Cursor.reads_advance hrest⟩
  exact ⟨_, hrun, Cursor.rest_advance_of_eq hrest⟩

end Rule

end JsonGrammar
