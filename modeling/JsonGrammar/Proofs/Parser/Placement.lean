import JsonGrammar.Proofs.Cursor.Reached
import JsonGrammar.Proofs.Parser.Contract

/-!
# Parsers keep their place

A run that begins at a cursor standing in a source ends at such a cursor, not
before the first one, or fails at a place between the first cursor and the end
of the source.  `Parser.KeepsPlace` says this of one parser and
`Outcome.StaysIn` of one run.

It is the weakest thing the two judgments on parsers can say
(`keepsPlace_iff`), and so every combinator hands it on from its parts.
-/

namespace JsonGrammar

/-- The run ends in `source`, not before `c`, or does not end. -/
def Outcome.StaysIn {α : Type} (source : String) (c : Cursor) : Outcome α → Prop
  | .done _ n => n.StandsIn source ∧ c.position ≤ n.position
  | .failed failure =>
      failure.location.text = source ∧
        c.position ≤ failure.position ∧ failure.position ≤ source.length
  | .stuck => True

theorem Outcome.StaysIn.andThen {α β : Type} {source : String} {c : Cursor} {outcome : Outcome α}
    {continuation : α → Cursor → Outcome β} (h : outcome.StaysIn source c)
    (hcontinuation : ∀ value n, n.StandsIn source → c.position ≤ n.position →
      (continuation value n).StaysIn source c) :
    (outcome.andThen continuation).StaysIn source c := by
  cases outcome with
  | done value n => exact hcontinuation value n h.1 h.2
  | failed failure => exact h
  | stuck => trivial

/-- A run from further on stays in the source all the more. -/
theorem Outcome.StaysIn.of_le {α : Type} {source : String} {c d : Cursor} {outcome : Outcome α}
    (h : outcome.StaysIn source d) (hle : c.position ≤ d.position) :
    outcome.StaysIn source c := by
  cases outcome with
  | done value n => exact ⟨h.1, Nat.le_trans hle h.2⟩
  | failed failure => exact ⟨h.1, Nat.le_trans hle h.2.1, h.2.2⟩
  | stuck => trivial

theorem Outcome.staysIn_raise {α : Type} {source : String} {c : Cursor} (hc : c.StandsIn source)
    (cause : Cause) : (Outcome.failed (Failure.raise c cause) : Outcome α).StaysIn source c :=
  ⟨hc.source_eq, Nat.le_refl _, hc.position_le⟩

namespace Parser

variable {α β γ : Type}

/-- Every run from a cursor that stands in a source stays there. -/
def KeepsPlace (p : Parser α) : Prop :=
  ∀ ⦃source : String⦄ ⦃c : Cursor⦄, c.StandsIn source → (p c).StaysIn source c

/-- To keep the place is to read what one succeeds on and to have read up to
where one fails. -/
theorem keepsPlace_iff {p : Parser α} :
    p.KeepsPlace ↔ (p.Yields fun _ _ => True) ∧ p.Blames Failure.At fun _ _ => True := by
  constructor
  · intro hp
    refine ⟨fun c n value hc hrun => ?_, fun c failure hc hrun => ?_⟩
    · have hplace := hp (Cursor.standsIn_of_placed hc)
      rw [hrun] at hplace
      obtain ⟨hn, hle⟩ := hplace
      obtain ⟨text, hreads⟩ := (Cursor.standsIn_of_placed hc).reads_of_le hn hle
      exact ⟨text, hreads, trivial⟩
    · have hplace := hp (Cursor.standsIn_of_placed hc)
      rw [hrun] at hplace
      obtain ⟨htext, hle, hlength⟩ := hplace
      obtain ⟨before, hsource, hposition, -⟩ := hc
      have hrest : c.rest = c.rest.take (failure.position - c.position) ++
          c.rest.drop (failure.position - c.position) := (List.take_append_drop _ _).symm
      refine ⟨_, _, Cursor.reads_advance hrest, ?_, trivial⟩
      have hlist : c.source.length = before.length + c.rest.length := by
        rw [← String.length_toList, hsource, List.length_append]
      rcases hlocation : failure.location with ⟨text, position⟩
      rw [Failure.position, hlocation] at hle hlength ⊢
      rw [hlocation] at htext
      simp only at hle hlength htext
      rw [Failure.At, hlocation, htext]
      simp only [Cursor.source_advance, Cursor.position_advance, Location.mk.injEq, true_and,
        List.length_take]
      omega
  · intro h source c hc
    obtain ⟨hyields, hblames⟩ := h
    cases hrun : p c with
    | done value n =>
        obtain ⟨text, hreads, -⟩ := hyields hc.placed hrun
        exact ⟨hreads.standsIn hc, by rw [hreads.position_eq]; omega⟩
    | failed failure =>
        obtain ⟨text, d, hreads, hat, -⟩ := hblames hc.placed hrun
        have hd := hreads.standsIn hc
        refine ⟨?_, ?_, ?_⟩
        · rw [hat, hd.source_eq]
        · rw [hat.position_eq, hreads.position_eq]
          omega
        · rw [hat.position_eq]
          exact hd.position_le
    | stuck => trivial

theorem Yields.keepsPlace {p : Parser α} {A : Reading α} {F : Blame} (hyields : p.Yields A)
    (hblames : p.Blames Failure.At F) : p.KeepsPlace :=
  keepsPlace_iff.mpr
    ⟨hyields.mono fun _ _ _ => trivial, hblames.mono fun _ _ _ => trivial⟩

theorem KeepsPlace.yields {p : Parser α} (hp : p.KeepsPlace) : p.Yields fun _ _ => True :=
  (keepsPlace_iff.mp hp).1

theorem KeepsPlace.blames {p : Parser α} (hp : p.KeepsPlace) :
    p.Blames Failure.At fun _ _ => True :=
  (keepsPlace_iff.mp hp).2

/-! ## Combinators -/

theorem keepsPlace_succeed (value : α) : (succeed value).KeepsPlace :=
  (yields_succeed value).keepsPlace (blames_succeed value _ fun _ _ => True)

theorem keepsPlace_fail (cause : Cause) : (fail cause : Parser α).KeepsPlace := by
  intro source c hc
  exact Outcome.staysIn_raise hc cause

theorem keepsPlace_expecting (wanted : Expectation) (test : Char → Bool) :
    (expecting wanted test).KeepsPlace :=
  (yields_expecting wanted test).keepsPlace (blames_expecting fun c _ => Failure.raise_at c _)

theorem keepsPlace_endOfInput : endOfInput.KeepsPlace :=
  yields_endOfInput.keepsPlace (blames_endOfInput fun c _ => Failure.raise_at c _)

theorem KeepsPlace.andThen {p : Parser α} {continuation : α → Parser β} (hp : p.KeepsPlace)
    (hcontinuation : ∀ a, (continuation a).KeepsPlace) : (p.andThen continuation).KeepsPlace :=
  (hp.yields.andThen fun a => (hcontinuation a).yields).keepsPlace
    (Blames.andThen hp.yields hp.blames fun a => (hcontinuation a).blames)

theorem KeepsPlace.map {p : Parser α} (hp : p.KeepsPlace) (f : α → β) : (p.map f).KeepsPlace :=
  (hp.yields.map f).keepsPlace (hp.blames.map f)

theorem KeepsPlace.skip {p : Parser α} (hp : p.KeepsPlace) : p.skip.KeepsPlace :=
  hp.map _

theorem KeepsPlace.pair {p : Parser α} {q : Parser β} (hp : p.KeepsPlace) (hq : q.KeepsPlace) :
    (p.pair q).KeepsPlace :=
  hp.andThen fun _ => hq.map _

theorem KeepsPlace.thenSkip {p : Parser α} {q : Parser β} (hp : p.KeepsPlace)
    (hq : q.KeepsPlace) : (p.thenSkip q).KeepsPlace :=
  hp.andThen fun _ => hq.map _

theorem KeepsPlace.skipThen {p : Parser α} {q : Parser β} (hp : p.KeepsPlace)
    (hq : q.KeepsPlace) : (p.skipThen q).KeepsPlace :=
  hp.andThen fun _ => hq

theorem KeepsPlace.between {opening : Parser α} {content : Parser β} {closing : Parser γ}
    (hopening : opening.KeepsPlace) (hcontent : content.KeepsPlace)
    (hclosing : closing.KeepsPlace) : (between opening content closing).KeepsPlace :=
  hopening.skipThen (hcontent.thenSkip hclosing)

theorem KeepsPlace.orElse {p q : Parser α} (hp : p.KeepsPlace) (hq : q.KeepsPlace) :
    (p.orElse q).KeepsPlace :=
  (hp.yields.orElse hq.yields).keepsPlace hq.blames.orElse

theorem KeepsPlace.optional {p : Parser α} (hp : p.KeepsPlace) : p.optional.KeepsPlace :=
  (hp.map some).orElse (keepsPlace_succeed none)

theorem keepsPlace_inTurn {ps : List (Parser α)} (hps : ∀ p ∈ ps, p.KeepsPlace) :
    (inTurn ps).KeepsPlace := by
  induction ps with
  | nil => exact keepsPlace_succeed []
  | cons p ps ih =>
      have hthen : (inTurn ps).KeepsPlace := ih fun q hq => hps q (List.mem_cons_of_mem p hq)
      exact (hps p List.mem_cons_self).andThen fun first => hthen.map (first :: ·)

/-- A parser keeps its place when its failures are moved to where it began. -/
theorem KeepsPlace.mapFailure {p : Parser α} (hp : p.KeepsPlace) {f : Cursor → Failure → Failure}
    (hf : ∀ c failure, (f c failure).At c) :
    KeepsPlace fun c => p.mapFailure (f c) c :=
  (hp.yields.mapFailure f).keepsPlace
    (blames_mapFailure (F := fun _ _ => True) hf fun _ _ => trivial)

theorem KeepsPlace.withSpan {p : Parser α} (hp : p.KeepsPlace) : p.withSpan.KeepsPlace :=
  hp.yields.withSpan.keepsPlace hp.blames.withSpan

theorem KeepsPlace.many {p : Parser α} (hp : p.KeepsPlace) : p.many.KeepsPlace :=
  hp.yields.many.keepsPlace (blames_many p _ fun _ _ => True)

theorem KeepsPlace.many1 {p : Parser α} (hp : p.KeepsPlace) : p.many1.KeepsPlace :=
  hp.yields.many1.keepsPlace hp.blames.many1

theorem KeepsPlace.separatedList {p : Parser α} {separator : Parser β} (hp : p.KeepsPlace)
    (hseparator : separator.KeepsPlace) : (p.separatedList separator).KeepsPlace :=
  (hp.yields.separatedList hseparator.yields).keepsPlace
    (Blames.separatedList hp.yields hp.blames hseparator.yields)

/-- A loop keeps its place when each of its rounds does. -/
theorem keepsPlace_rounds {round : Cursor → Round α} {A : Reading α} {F : Blame}
    (hyields : RoundYields round A) (hblames : RoundBlames round Failure.At F) (taken : List α) :
    KeepsPlace (rounds round taken) :=
  (hyields.rounds taken).keepsPlace (RoundBlames.rounds hyields hblames taken)

theorem keepsPlace_literal (text : String) : (literal text).KeepsPlace := by
  have hchars : (inTurn (text.toList.map char)).KeepsPlace := by
    refine keepsPlace_inTurn fun p hp => ?_
    obtain ⟨ch, -, rfl⟩ := List.mem_map.mp hp
    exact keepsPlace_expecting _ _
  exact (hchars.map String.ofList).mapFailure
    (f := fun c inner => Failure.raise c (.literalMismatch text c.rest inner.cause))
    fun c inner => Failure.raise_at c _

theorem keepsPlace_whitespace : whitespace.KeepsPlace :=
  (keepsPlace_expecting _ _).many.skip

end Parser

end JsonGrammar
