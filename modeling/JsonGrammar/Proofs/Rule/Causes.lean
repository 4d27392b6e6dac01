import JsonGrammar.Proofs.Parser.Contract
import JsonGrammar.Rule.Value

/-!
# What the rules for scalars complain of

`Parser.Raises p P` says that every failure of `p`, wherever it runs, has a
cause with `P`.  Numbers, strings and words only raise causes that lie in the
characters of the input (`Cause.isLexical`).  What is left for the rules for
containers is the limit on nesting, whose message none of the others has.
-/

namespace JsonGrammar

/-- The cause lies in the characters of the input, not in a limit or in a
message of the caller's own. -/
def Cause.isLexical : Cause → Bool
  | .nestedTooDeep _ => false
  | .note _ => false
  | _ => true

theorem firstChar_append {text rest : String} {ch : Char} (h : text.toList.head? = some ch) :
    (text ++ rest).toList.head? = some ch := by
  rw [String.toList_append, List.head?_append, h]
  rfl

theorem Cause.head?_message_of_isLexical {cause : Cause} (h : cause.isLexical = true) :
    ∃ ch, cause.message.toList.head? = some ch ∧ ch ≠ 'm' := by
  cases cause with
  | unexpected wanted found =>
      cases found with
      | none => exact ⟨'e', firstChar_append (firstChar_append (by decide)), by decide⟩
      | some found =>
          exact ⟨'e', firstChar_append (firstChar_append (firstChar_append
            (firstChar_append (by decide)))), by decide⟩
  | leftover rest => exact ⟨'e', firstChar_append (firstChar_append (by decide)), by decide⟩
  | literalMismatch literal rest inner =>
      exact ⟨'e', firstChar_append (firstChar_append (firstChar_append (firstChar_append
        (firstChar_append (firstChar_append (by decide)))))), by decide⟩
  | outOfRange numeral => exact ⟨'n', firstChar_append (firstChar_append (by decide)), by decide⟩
  | malformedNumeral text => exact ⟨'i', firstChar_append (firstChar_append (by decide)), by decide⟩
  | loneLowSurrogate unit => exact ⟨'u', firstChar_append (by decide), by decide⟩
  | missingLowSurrogate high => exact ⟨'e', firstChar_append (by decide), by decide⟩
  | noSuchCharacter codePoint => exact ⟨'i', firstChar_append (by decide), by decide⟩
  | nestedTooDeep _ => simp [isLexical] at h
  | note _ => simp [isLexical] at h

/-- The message of a lexical cause is not one about nesting. -/
theorem Cause.message_ne_of_isLexical {cause : Cause} (h : cause.isLexical = true) (limit : Nat) :
    cause.message ≠ (Cause.nestedTooDeep limit).message := by
  have hdeep : (Cause.nestedTooDeep limit).message.toList.head? = some 'm' :=
    firstChar_append (firstChar_append (by decide))
  obtain ⟨ch, hch, hne⟩ := head?_message_of_isLexical h
  intro hmessage
  rw [hmessage, hdeep] at hch
  exact hne (Option.some.inj hch).symm

namespace Parser

variable {α β : Type} {P : Cause → Prop}

/-- All failures of the parser have such a cause. -/
def Raises (p : Parser α) (P : Cause → Prop) : Prop :=
  ∀ ⦃c : Cursor⦄ ⦃failure : Failure⦄, p c = .failed failure → P failure.cause

theorem raises_succeed (value : α) : (succeed value).Raises P := by
  intro c failure hrun
  simp at hrun

theorem Raises.andThen {p : Parser α} {continuation : α → Parser β} (hp : p.Raises P)
    (hcontinuation : ∀ a, (continuation a).Raises P) : (p.andThen continuation).Raises P := by
  intro c failure hrun
  rcases andThen_eq_failed_iff.mp hrun with hfirst | ⟨a, m, -, hsecond⟩
  · exact hp hfirst
  · exact hcontinuation a hsecond

theorem Raises.map {p : Parser α} (hp : p.Raises P) (f : α → β) : (p.map f).Raises P :=
  hp.andThen fun a => raises_succeed (f a)

theorem Raises.pair {p : Parser α} {q : Parser β} (hp : p.Raises P) (hq : q.Raises P) :
    (p.pair q).Raises P :=
  hp.andThen fun a => hq.map fun b => (a, b)

theorem Raises.thenSkip {p : Parser α} {q : Parser β} (hp : p.Raises P) (hq : q.Raises P) :
    (p.thenSkip q).Raises P :=
  hp.andThen fun a => hq.map fun _ => a

theorem Raises.skipThen {p : Parser α} {q : Parser β} (hp : p.Raises P) (hq : q.Raises P) :
    (p.skipThen q).Raises P :=
  hp.andThen fun _ => hq

/-- A choice fails for what its second branch complains of. -/
theorem Raises.orElse {q : Parser α} (hq : q.Raises P) (p : Parser α) : (p.orElse q).Raises P := by
  intro c failure hrun
  exact hq (orElse_eq_failed_iff.mp hrun).2

theorem raises_optional (p : Parser α) : p.optional.Raises P :=
  fun _ _ hrun => absurd hrun optional_ne_failed

theorem raises_many (p : Parser α) : p.many.Raises P :=
  fun _ _ hrun => absurd hrun many_ne_failed

theorem raises_inTurn {ps : List (Parser α)} (hps : ∀ p ∈ ps, p.Raises P) :
    (inTurn ps).Raises P := by
  induction ps with
  | nil => exact raises_succeed []
  | cons p ps ih =>
      have hthen : (inTurn ps).Raises P := ih fun q hq => hps q (List.mem_cons_of_mem p hq)
      exact (hps p List.mem_cons_self).andThen fun first => hthen.map (first :: ·)

theorem raises_expecting {wanted : Expectation} (test : Char → Bool)
    (hP : ∀ found, P (.unexpected wanted found)) : (expecting wanted test).Raises P := by
  intro c failure hrun
  obtain ⟨-, rfl⟩ := expecting_eq_failed_iff.mp hrun
  exact hP _

theorem raises_literal {text : String} (hP : ∀ rest inner, P (.literalMismatch text rest inner)) :
    (literal text).Raises P := by
  intro c failure hrun
  obtain ⟨inner, -, rfl⟩ := mapFailure_eq_failed_iff.mp hrun
  exact hP _ _

end Parser

namespace Rule

open JsonGrammar.Parser

/-- The parser complains of characters alone. -/
abbrev Lexical {α : Type} (p : Parser α) : Prop :=
  p.Raises fun cause => cause.isLexical = true

theorem lexical_expecting (wanted : Expectation) (test : Char → Bool) :
    Lexical (expecting wanted test) :=
  raises_expecting test fun _ => rfl

theorem lexical_literal (text : String) : Lexical (literal text) :=
  raises_literal fun _ _ => rfl

theorem lexical_whitespace : Lexical whitespace :=
  (raises_many _).map _

theorem lexical_number : Lexical number := by
  have hwhole : Lexical wholePart :=
    Raises.orElse (((lexical_expecting _ _).pair (raises_many digit)).map _) _
  have hnumeral : Lexical numeral :=
    ((((raises_optional _).pair hwhole).pair (raises_optional _)).pair (raises_optional _)).map _
  intro c failure hrun
  rcases Outcome.andThen_eq_failed_iff.mp hrun with hspan | ⟨⟨_, span⟩, n, -, hrun⟩
  · exact hnumeral (withSpan_eq_failed_iff.mp hspan)
  · simp only at hrun
    split at hrun
    · obtain rfl := Outcome.failed.inj hrun
      rfl
    · split at hrun
      · simp at hrun
      · obtain rfl := Outcome.failed.inj hrun
        rfl

theorem lexical_characterAt (c : Cursor) (codePoint : Nat) : Lexical (characterAt c codePoint) := by
  intro n failure hrun
  by_cases hvalid : codePoint.isValidChar
  · rw [characterAt_of_valid c n hvalid] at hrun
    cases hrun
  · rw [characterAt_of_not_valid c n hvalid] at hrun
    obtain rfl := Outcome.failed.inj hrun
    rfl

theorem raises_hexQuad {P : Cause → Prop}
    (hP : ∀ found, P (.unexpected (.member "hexadecimal digit") found)) : hexQuad.Raises P := by
  have hdigit : hexDigit.Raises P := (raises_expecting _ hP).map _
  refine Raises.map (raises_inTurn fun p hp => ?_) _
  obtain rfl := List.eq_of_mem_replicate hp
  exact hdigit

theorem lexical_hexQuad : Lexical hexQuad :=
  raises_hexQuad fun _ => rfl

theorem lexical_escapedUnit (unit : Nat) : Lexical (escapedUnit unit) := by
  have hpair : Lexical ((literal "\\u").skipThen hexQuad) :=
    (lexical_literal _).skipThen lexical_hexQuad
  intro c failure hrun
  unfold escapedUnit at hrun
  split at hrun
  · obtain rfl := Outcome.failed.inj hrun
    rfl
  · split at hrun
    · rcases Outcome.andThen_eq_failed_iff.mp hrun with hfirst | ⟨low, n, -, hrun⟩
      · exact hpair hfirst
      · split at hrun
        · generalize joinSurrogates unit low = codePoint at hrun
          exact lexical_characterAt _ _ hrun
        · obtain rfl := Outcome.failed.inj hrun
          rfl
    · exact lexical_characterAt _ _ hrun

theorem lexical_escape : Lexical escape := by
  refine (lexical_expecting _ _).andThen fun _ c failure hrun => ?_
  split at hrun
  · exact (lexical_hexQuad.andThen lexical_escapedUnit) hrun
  · exact (lexical_expecting _ _).map _ hrun

theorem lexical_textBody : Lexical textBody := by
  refine Raises.map (fun c failure hrun => ?_) _
  obtain ⟨chars, n, -, hfailed⟩ := rounds_eq_failed_iff.mp hrun
  rcases textRound_eq n with h | h | h
  · simp [h] at hfailed
  · exact lexical_escape (ofOutcome_eq_failed_iff.mp (h ▸ hfailed))
  · exact lexical_expecting _ _ (ofOutcome_eq_failed_iff.mp (h ▸ hfailed))

theorem lexical_stringLiteral : Lexical stringLiteral :=
  (lexical_expecting _ _).skipThen (lexical_textBody.thenSkip (lexical_expecting _ _))

theorem lexical_null : Lexical null :=
  (lexical_literal _).map _

theorem lexical_boolean : Lexical boolean :=
  ((lexical_literal _).map _).orElse _

end Rule

end JsonGrammar
