import JsonGrammar.Proofs.Grammar.Strings

/-!
# Texts that can be completed

`A.Begins text` says that `text` can be completed to a text of the relation
`A`.  The rules of the grammar fail behind such texts, with one exception: an
escape by number can fail at a place that nothing leads on from, as behind a
low surrogate that stands alone.  The place to go back to is then the backslash
of the escape.

So failures are put down to an anchor (`Anchored`): the place they name, or
that backslash.  `Stump A` holds of the text before an anchor if it can be
completed to a text of `A`, and for the failure of an escape also if a high
surrogate is written behind it, since the second half of a pair has a backslash
of its own.  Each combinator has a rule for stumps.
-/

namespace JsonGrammar

variable {α β γ : Type}

namespace Reading

/-- The text can be completed to one of the relation. -/
def Begins (A : Reading α) (text : List Char) : Prop :=
  ∃ rest a, A (text ++ rest) a

theorem Begins.of_append {A : Reading α} (xs ys : List Char) (h : A.Begins (xs ++ ys)) :
    A.Begins xs := by
  obtain ⟨rest, a, h⟩ := h
  exact ⟨ys ++ rest, a, by rwa [List.append_assoc] at h⟩

/-- What is completed to a text of one relation is completed to one of another,
if each text of the first stands in one of the second behind the same text. -/
theorem Begins.extend {A : Reading α} {B : Reading β} {first text : List Char} (h : A.Begins text)
    (hextend : ∀ text a, A text a → ∃ rest b, B (first ++ text ++ rest) b) :
    B.Begins (first ++ text) := by
  obtain ⟨rest, a, h⟩ := h
  obtain ⟨rest', b, h⟩ := hextend _ a h
  exact ⟨rest ++ rest', b, by simpa using h⟩

end Reading

/-! ## Where a failure is anchored -/

/-- The cause is one of an escape by number: a digit or a second half is
missing, or a surrogate has no partner. -/
def Cause.inUnicodeEscape : Cause → Bool
  | unexpected wanted _ => decide (wanted = .member "hexadecimal digit")
  | literalMismatch text _ _ => text == "\\u"
  | loneLowSurrogate _ => true
  | missingLowSurrogate _ => true
  | noSuchCharacter _ => true
  | _ => false

/-- Reading the escape by number that stands at the cursor ends in the
failure. -/
structure FailsInEscape (failure : Failure) (c : Cursor) : Prop where
  opens : ∃ behind, c.rest = '\\' :: 'u' :: behind
  fails : Rule.escape c = .failed failure

/-- The failure is put down to the cursor: to the backslash of the escape that
it arose in, or to the place it names. -/
def Anchored (failure : Failure) (c : Cursor) : Prop :=
  if failure.cause.inUnicodeEscape then FailsInEscape failure c else failure.At c

theorem anchored_raise (c : Cursor) {cause : Cause} (hcause : cause.inUnicodeEscape = false) :
    Anchored (Failure.raise c cause) c := by
  rw [Anchored, if_neg]
  · exact Failure.raise_at c cause
  · rw [Failure.raise, hcause]
    decide

/-! ## Stumps -/

open Grammar

/-- The text before an anchor can be completed, and so can a high surrogate
behind it where the failure is one of an escape. -/
def Stump (A : Reading α) : Blame := fun text cause =>
  A.Begins text ∧
    (cause.inUnicodeEscape = true → ∀ quad high, UnitText quad high →
      0xD800 ≤ high ∧ high ≤ 0xDBFF → A.Begins (text ++ '\\' :: 'u' :: quad))

theorem Stump.extend {A : Reading α} {B : Reading β} {text : List Char} {cause : Cause}
    (h : Stump A text cause) (first : List Char)
    (hextend : ∀ text a, A text a → ∃ rest b, B (first ++ text ++ rest) b) :
    Stump B (first ++ text) cause := by
  refine ⟨h.1.extend hextend, fun hcause quad high hquad hhigh => ?_⟩
  rw [List.append_assoc]
  exact (h.2 hcause quad high hquad hhigh).extend hextend

theorem Stump.mono {A : Reading α} {B : Reading β} {text : List Char} {cause : Cause}
    (h : Stump A text cause) (hsub : ∀ text a, A text a → ∃ b, B text b) : Stump B text cause := by
  refine h.extend [] fun text a hA => ?_
  obtain ⟨b, hB⟩ := hsub text a hA
  exact ⟨[], b, by simpa using hB⟩

theorem stump_of_begins {A : Reading α} {text : List Char} {cause : Cause} (h : A.Begins text)
    (hcause : cause.inUnicodeEscape = false) : Stump A text cause :=
  ⟨h, fun hescape => absurd (hescape.symm.trans hcause) (by decide)⟩

namespace Parser

section

variable {p : Parser α} {q : Parser β} {A : Reading α} {B : Reading β} {M : Mark}

theorem Blames.stump_mono {A : Reading β} {B : Reading γ} (hp : p.Blames M (Stump A))
    (hsub : ∀ text a, A text a → ∃ b, B text b) : p.Blames M (Stump B) :=
  hp.mono fun _ _ h => h.mono hsub

theorem Blames.stump_map (hp : p.Blames M (Stump A)) (f : α → β) :
    (p.map f).Blames M (Stump (A.Map f)) :=
  (hp.map f).stump_mono fun _ a h => ⟨f a, a, h, rfl⟩

/-- What is begun by the first parser is completed by any text of the second,
and what is begun by the second stands behind a text of the first. -/
theorem Blames.stump_andThen {continuation : α → Parser β} {B : α → Reading β}
    (hyields : p.Yields A) (hp : p.Blames M (Stump A))
    (hcontinuation : ∀ a, (continuation a).Blames M (Stump (B a)))
    (hfinish : ∀ a, ∃ text b, B a text b) :
    (p.andThen continuation).Blames M (Stump (A.Then B)) := by
  refine (Blames.andThen hyields hp hcontinuation).mono ?_
  intro text cause h
  rcases h with hstump | ⟨first, a, second, rfl, hA, hstump⟩
  · refine hstump.extend [] fun text a hA => ?_
    obtain ⟨second, b, hB⟩ := hfinish a
    exact ⟨second, b, text, a, second, rfl, hA, hB⟩
  · refine hstump.extend first fun second b hB => ?_
    exact ⟨[], b, first, a, second, List.append_nil _, hA, hB⟩

theorem Blames.stump_skipThen (hyields : p.Yields A) (hp : p.Blames M (Stump A))
    (hq : q.Blames M (Stump B)) (hfinish : ∃ text b, B text b) :
    (p.skipThen q).Blames M (Stump (A.SkipThen B)) :=
  Blames.stump_andThen hyields hp (fun _ => hq) fun _ => hfinish

theorem Blames.stump_thenSkip (hyields : p.Yields A) (hp : p.Blames M (Stump A))
    (hq : q.Blames M (Stump B)) (hfinish : ∃ text b, B text b) :
    (p.thenSkip q).Blames M (Stump (A.ThenSkip B)) := by
  obtain ⟨second, b, hB⟩ := hfinish
  refine (Blames.stump_andThen hyields hp (fun a => hq.stump_map fun _ => a)
    fun a => ⟨second, a, b, hB, rfl⟩).stump_mono ?_
  intro text v h
  obtain ⟨first, a, second, htext, hA, b, hB, rfl⟩ := h
  exact ⟨a, first, second, b, htext, hA, hB⟩

theorem Blames.stump_pair (hyields : p.Yields A) (hp : p.Blames M (Stump A))
    (hq : q.Blames M (Stump B)) (hfinish : ∃ text b, B text b) :
    (p.pair q).Blames M (Stump (A.Pair B)) := by
  obtain ⟨second, b, hB⟩ := hfinish
  refine (Blames.stump_andThen hyields hp (fun a => hq.stump_map fun b => (a, b))
    fun a => ⟨second, (a, b), b, hB, rfl⟩).stump_mono ?_
  intro text v h
  obtain ⟨first, a, second, htext, hA, b, hB, rfl⟩ := h
  exact ⟨(a, b), first, second, htext, hA, hB⟩

/-- What a round begins stands behind the texts of the rounds before it. -/
theorem RoundBlames.stump_rounds {round : Cursor → Round α}
    (hblames : RoundBlames round M (Stump A)) (hyields : RoundYields round A) (taken : List α) :
    Blames (Parser.rounds round taken) M (Stump fun text (values : List α) =>
      ∃ further, Reading.Repeated A text further ∧ values = taken.reverse ++ further) := by
  refine (RoundBlames.rounds hyields hblames taken).mono ?_
  intro text cause h
  obtain ⟨first, values, second, rfl, hrepeated, hstump⟩ := h
  refine hstump.extend first fun text a hA => ?_
  have hlast : Reading.Repeated A text [a] := by
    rw [← List.append_nil text]
    exact .cons hA .nil
  refine ⟨[], taken.reverse ++ (values ++ [a]), values ++ [a], ?_, rfl⟩
  rw [List.append_nil]
  exact hrepeated.append hlast

end

end Parser

end JsonGrammar
