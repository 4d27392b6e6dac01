import Mathlib.Data.List.Basic
import JsonGrammar.Text.Quoted

/-!
# Quoted text can be decoded

A character is encoded in one of three ways, and the first two characters tell
which (`CharCode`).  No code begins another one, and none begins with the
closing quote, so that a quoted text ends where its own quote stands, whatever
follows (`encode_append_inj`).  No code holds a line feed either, so that a
quoted text stays on one line (`lineFeed_not_mem_encode`).
-/

namespace JsonGrammar

/-- Two texts that are equal are equal up to the first separator and behind
it. -/
theorem append_cons_inj {separator : Char} {xs ys zs ws : List Char} (hxs : separator ∉ xs)
    (hys : separator ∉ ys) (h : xs ++ separator :: zs = ys ++ separator :: ws) :
    xs = ys ∧ zs = ws := by
  have hsplit : ∀ {text : List Char}, separator ∉ text → ∀ more,
      (text ++ separator :: more).takeWhile (· != separator) = text := by
    intro text htext more
    have hother : ∀ ch ∈ text, (ch != separator) = true := by
      intro ch hch
      rw [bne_iff_ne]
      rintro rfl
      exact htext hch
    rw [List.takeWhile_append_of_pos hother]
    simp
  have hfirst : xs = ys := by
    rw [← hsplit hxs zs, h, hsplit hys ws]
  rw [hfirst] at h
  exact ⟨hfirst, (List.cons.inj (List.append_cancel_left h)).2⟩

/-! ## Hexadecimal digits -/

namespace Hexadecimal

theorem exists_digitChar_of_mem_lower {n : Nat} {ch : Char} (hch : ch ∈ lower n) :
    ∃ digit < 16, ch = digit.digitChar := by
  induction n using Nat.strongRecOn with
  | ind n ih =>
      rw [lower] at hch
      by_cases hlt : n < 16
      · rw [Nat.toDigits_of_lt_base hlt] at hch
        exact ⟨n, hlt, List.mem_singleton.mp hch⟩
      · rw [Nat.toDigits_of_base_le (by decide) (by omega)] at hch
        rcases List.mem_append.mp hch with hch | hch
        · exact ih (n / 16) (by omega) hch
        · exact ⟨n % 16, Nat.mod_lt n (by decide), List.mem_singleton.mp hch⟩

/-- The digits of a number write that number. -/
theorem ofDigits_lower (n : Nat) : ofDigits ((lower n).filterMap digit?) = n := by
  induction n using Nat.strongRecOn with
  | ind n ih =>
      rw [lower]
      by_cases hlt : n < 16
      · rw [Nat.toDigits_of_lt_base hlt]
        simp [ofDigits, digit?_digitChar n hlt]
      · have hleading := ih (n / 16) (by omega)
        have hlast := digit?_digitChar (n % 16) (Nat.mod_lt n (by decide))
        rw [lower, ofDigits] at hleading
        rw [Nat.toDigits_of_base_le (by decide) (by omega), List.filterMap_append, ofDigits,
          List.foldl_append, hleading]
        simp only [List.filterMap_cons, hlast, List.filterMap_nil, List.foldl_cons, List.foldl_nil]
        omega

theorem lower_injective {m n : Nat} (h : lower m = lower n) : m = n := by
  rw [← ofDigits_lower m, h, ofDigits_lower]

end Hexadecimal

namespace Quoted

/-! ## Single characters -/

/-- The characters that a letter stands for, with their letters. -/
def letters : List (Char × Char) :=
  [('"', '"'), ('\\', '\\'), ('\n', 'n'), ('\r', 'r'), ('\t', 't'), ('\x00', '0')]

theorem mem_letters_of_letter? {ch letter : Char} (h : letter? ch = some letter) :
    (ch, letter) ∈ letters := by
  unfold letter? at h
  split at h
  all_goals first
    | (obtain rfl := Option.some.inj h; decide)
    | simp at h

theorem letter?_injective {a b letter : Char} (ha : letter? a = some letter)
    (hb : letter? b = some letter) : a = b := by
  have hdistinct : ∀ p ∈ letters, ∀ q ∈ letters, p.2 = q.2 → p.1 = q.1 := by decide
  exact hdistinct _ (mem_letters_of_letter? ha) _ (mem_letters_of_letter? hb) rfl

/-- The codes of a character. -/
inductive CharCode (ch : Char) : List Char → Prop where
  | letter {letter : Char} (h : letter? ch = some letter) : CharCode ch ['\\', letter]
  | plain (h : letter? ch = none) : CharCode ch [ch]
  | codePoint : CharCode ch ('\\' :: 'u' :: '{' :: (Hexadecimal.lower ch.toNat ++ ['}']))

theorem charCode_encodeChar (ch : Char) : CharCode ch (encodeChar ch) := by
  unfold encodeChar
  split
  · rename_i letter hletter
    exact .letter hletter
  · rename_i hnone
    split
    · exact .plain hnone
    · exact .codePoint

/-- A character that stands for itself is none of those with a letter. -/
theorem ne_of_letter?_eq_none {ch : Char} (h : letter? ch = none) :
    ch ≠ '"' ∧ ch ≠ '\\' ∧ ch ≠ '\n' := by
  refine ⟨?_, ?_, ?_⟩ <;> (rintro rfl; simp [letter?] at h)

theorem letter_ne {ch letter : Char} (h : letter? ch = some letter) :
    letter ≠ 'u' ∧ letter ≠ '\n' := by
  have hall : ∀ p ∈ letters, p.2 ≠ 'u' ∧ p.2 ≠ '\n' := by decide
  exact hall _ (mem_letters_of_letter? h)

theorem not_mem_lower {n : Nat} {ch : Char} (hch : ∀ digit < 16, ch ≠ digit.digitChar) :
    ch ∉ Hexadecimal.lower n := by
  intro hmem
  obtain ⟨digit, hlt, rfl⟩ := Hexadecimal.exists_digitChar_of_mem_lower hmem
  exact hch digit hlt rfl

/-- No code is the beginning of another character's. -/
theorem CharCode.append_inj {a b : Char} {first second xs ys : List Char}
    (ha : CharCode a first) (hb : CharCode b second) (h : first ++ xs = second ++ ys) :
    a = b ∧ xs = ys := by
  cases ha with
  | letter ha =>
      cases hb with
      | letter hb =>
          simp only [List.cons_append, List.nil_append, List.cons.injEq, true_and] at h
          obtain ⟨rfl, rfl⟩ := h
          exact ⟨letter?_injective ha hb, rfl⟩
      | plain hb =>
          exact absurd (List.cons.inj h).1.symm (ne_of_letter?_eq_none hb).2.1
      | codePoint =>
          exact absurd (List.cons.inj (List.cons.inj h).2).1 (letter_ne ha).1
  | plain ha =>
      cases hb with
      | letter hb => exact absurd (List.cons.inj h).1 (ne_of_letter?_eq_none ha).2.1
      | plain hb =>
          obtain ⟨hab, hxs⟩ := List.cons.inj h
          exact ⟨hab, hxs⟩
      | codePoint => exact absurd (List.cons.inj h).1 (ne_of_letter?_eq_none ha).2.1
  | codePoint =>
      cases hb with
      | letter hb =>
          exact absurd (List.cons.inj (List.cons.inj h).2).1.symm (letter_ne hb).1
      | plain hb =>
          exact absurd (List.cons.inj h).1.symm (ne_of_letter?_eq_none hb).2.1
      | codePoint =>
          have hbrace : ∀ n, '}' ∉ Hexadecimal.lower n := fun n => not_mem_lower (by decide)
          simp only [List.cons_append, List.append_assoc, List.nil_append, List.cons.injEq,
            true_and] at h
          obtain ⟨hdigits, hxs⟩ := append_cons_inj (hbrace _) (hbrace _) h
          exact ⟨Char.toNat_inj.mp (Hexadecimal.lower_injective hdigits), hxs⟩

theorem CharCode.exists_cons {ch : Char} {code : List Char} (h : CharCode ch code) :
    ∃ first more, code = first :: more ∧ first ≠ '"' := by
  cases h with
  | letter _ => exact ⟨_, _, rfl, by decide⟩
  | plain h => exact ⟨_, _, rfl, (ne_of_letter?_eq_none h).1⟩
  | codePoint => exact ⟨_, _, rfl, by decide⟩

theorem CharCode.lineFeed_not_mem {ch : Char} {code : List Char} (h : CharCode ch code) :
    '\n' ∉ code := by
  cases h with
  | letter h => simp [(letter_ne h).2.symm]
  | plain h => simpa using (ne_of_letter?_eq_none h).2.2.symm
  | codePoint =>
      have hdigits : '\n' ∉ Hexadecimal.lower ch.toNat := not_mem_lower (by decide)
      simpa using hdigits

/-! ## Texts -/

/-- A quoted text ends at its own closing quote, whatever follows. -/
theorem flatMap_encodeChar_inj {first second xs ys : List Char}
    (h : first.flatMap encodeChar ++ '"' :: xs = second.flatMap encodeChar ++ '"' :: ys) :
    first = second ∧ xs = ys := by
  induction first generalizing second with
  | nil =>
      cases second with
      | nil => exact ⟨rfl, (List.cons.inj h).2⟩
      | cons ch second =>
          obtain ⟨_, _, hcode, hne⟩ := (charCode_encodeChar ch).exists_cons
          rw [List.flatMap_cons, hcode] at h
          exact absurd (List.cons.inj h).1.symm hne
  | cons ch first ih =>
      cases second with
      | nil =>
          obtain ⟨_, _, hcode, hne⟩ := (charCode_encodeChar ch).exists_cons
          rw [List.flatMap_cons, hcode] at h
          exact absurd (List.cons.inj h).1 hne
      | cons ch' second =>
          rw [List.flatMap_cons, List.flatMap_cons, List.append_assoc, List.append_assoc] at h
          obtain ⟨rfl, hmore⟩ :=
            (charCode_encodeChar ch).append_inj (charCode_encodeChar ch') h
          obtain ⟨rfl, hxs⟩ := ih hmore
          exact ⟨rfl, hxs⟩

theorem encode_append_inj {first second xs ys : List Char}
    (h : encode first ++ xs = encode second ++ ys) : first = second ∧ xs = ys := by
  simp only [encode, List.cons_append, List.append_assoc, List.nil_append] at h
  exact flatMap_encodeChar_inj (List.cons.inj h).2

theorem lineFeed_not_mem_encode (text : List Char) : '\n' ∉ encode text := by
  have hcodes : '\n' ∉ text.flatMap encodeChar := by
    intro hmem
    obtain ⟨ch, -, hch⟩ := List.mem_flatMap.mp hmem
    exact (charCode_encodeChar ch).lineFeed_not_mem hch
  simpa [encode] using hcodes

end Quoted

end JsonGrammar
