import JsonGrammar.Proofs.Parser.Halting
import JsonGrammar.Proofs.Parser.Placement

/-!
# Runs that have an outcome

`Parser.Settles` says that a parser keeps its place and is never stuck where
the cursor is placed in its source, so that there each of its runs succeeds or
fails, and a failure is put down to a place that has been read up to.

It is made of two halves, that the parser keeps its place and that its runs end
(`KeepsPlace.settles`), and each combinator hands it on because it hands on
both.
-/

namespace JsonGrammar

namespace Parser

variable {α β γ : Type}

/-- From every placed cursor the parser succeeds or fails, and keeps its
place. -/
structure Settles (p : Parser α) : Prop where
  keepsPlace : p.KeepsPlace
  ne_stuck : ∀ ⦃c : Cursor⦄, c.Placed → p c ≠ .stuck

theorem Settles.halts {p : Parser α} (hp : p.Settles) : p.Halts where
  yields := hp.keepsPlace.yields
  ne_stuck := hp.ne_stuck

theorem KeepsPlace.settles {p : Parser α} (hp : p.KeepsPlace) (hhalts : p.Halts) : p.Settles where
  keepsPlace := hp
  ne_stuck := hhalts.ne_stuck

/-! ## Sequence and choice -/

theorem settles_succeed (value : α) : (succeed value).Settles :=
  (keepsPlace_succeed value).settles (halts_succeed value)

theorem settles_fail (cause : Cause) : (fail cause : Parser α).Settles where
  keepsPlace := keepsPlace_fail cause
  ne_stuck := by simp [fail]

section

variable {p q : Parser α}

theorem Settles.andThen {continuation : α → Parser β} (hp : p.Settles)
    (hcontinuation : ∀ a, (continuation a).Settles) : (p.andThen continuation).Settles :=
  (hp.keepsPlace.andThen fun a => (hcontinuation a).keepsPlace).settles
    (hp.halts.andThen fun a => (hcontinuation a).halts)

theorem Settles.map (hp : p.Settles) (f : α → β) : (p.map f).Settles :=
  hp.andThen fun a => settles_succeed (f a)

theorem Settles.skip (hp : p.Settles) : p.skip.Settles :=
  hp.map fun _ => ()

theorem Settles.pair {q : Parser β} (hp : p.Settles) (hq : q.Settles) : (p.pair q).Settles :=
  hp.andThen fun a => hq.map fun b => (a, b)

theorem Settles.thenSkip {q : Parser β} (hp : p.Settles) (hq : q.Settles) :
    (p.thenSkip q).Settles :=
  hp.andThen fun a => hq.map fun _ => a

theorem Settles.skipThen {q : Parser β} (hp : p.Settles) (hq : q.Settles) :
    (p.skipThen q).Settles :=
  hp.andThen fun _ => hq

theorem Settles.between {opening : Parser α} {content : Parser β} {closing : Parser γ}
    (hopening : opening.Settles) (hcontent : content.Settles) (hclosing : closing.Settles) :
    (between opening content closing).Settles :=
  hopening.skipThen (hcontent.thenSkip hclosing)

theorem Settles.orElse (hp : p.Settles) (hq : q.Settles) : (p.orElse q).Settles :=
  (hp.keepsPlace.orElse hq.keepsPlace).settles (hp.halts.orElse hq.halts)

theorem Settles.optional (hp : p.Settles) : p.optional.Settles :=
  (hp.map some).orElse (settles_succeed none)

theorem settles_inTurn {ps : List (Parser α)} (hps : ∀ p ∈ ps, p.Settles) :
    (inTurn ps).Settles := by
  induction ps with
  | nil => exact settles_succeed []
  | cons p ps ih =>
      have hthen : (inTurn ps).Settles := ih fun q hq => hps q (List.mem_cons_of_mem p hq)
      exact (hps p List.mem_cons_self).andThen fun first => hthen.map (first :: ·)

theorem Settles.withSpan (hp : p.Settles) : p.withSpan.Settles :=
  hp.keepsPlace.withSpan.settles hp.halts.withSpan

/-! ## Repetition -/

theorem Settles.many (hp : p.Settles) : p.many.Settles :=
  hp.keepsPlace.many.settles hp.halts.many

theorem Settles.many1 (hp : p.Settles) : p.many1.Settles :=
  hp.andThen fun first => hp.many.map (first :: ·)

/-- A list with separators comes to its end where separators are not empty. -/
theorem Settles.separatedList {separator : Parser β} {B : Reading β} (hp : p.Settles)
    (hseparator : separator.Settles) (hyields : separator.Yields B)
    (hne : ∀ text b, B text b → text ≠ []) : (p.separatedList separator).Settles :=
  (hp.keepsPlace.separatedList hseparator.keepsPlace).settles
    (hp.halts.separatedList hseparator.halts (Or.inr (hyields.mono hne)))

end

/-! ## Characters -/

theorem settles_expecting (wanted : Expectation) (test : Char → Bool) :
    (expecting wanted test).Settles :=
  (keepsPlace_expecting wanted test).settles (halts_expecting wanted test)

theorem settles_endOfInput : endOfInput.Settles :=
  keepsPlace_endOfInput.settles halts_endOfInput

theorem settles_literal (text : String) : (literal text).Settles :=
  (keepsPlace_literal text).settles (halts_literal text)

theorem settles_whitespace : whitespace.Settles :=
  (settles_expecting _ _).many.skip

end Parser

end JsonGrammar
