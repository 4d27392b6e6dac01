import JsonGrammar.Proofs.Parser.Looping

/-!
# Parsers whose runs end

A run is stuck when a loop in it goes round without coming closer to the end,
or when a span is asked for that runs backwards.  `Parser.Halts` says that from
every placed cursor the parser reads on or fails, and is never stuck.

All combinators hand this on from their parts, whatever place their failures
are put down to.  Loops need something to show for each of their rounds: `many`
looks at the position itself, and a list with separators ends where the items
or the separators are never empty (`Consuming`).
-/

namespace JsonGrammar

theorem Outcome.andThen_eq_stuck_iff {α β : Type} {outcome : Outcome α}
    {continuation : α → Cursor → Outcome β} :
    outcome.andThen continuation = stuck ↔
      outcome = stuck ∨
        ∃ value next, outcome = done value next ∧ continuation value next = stuck := by
  cases outcome <;> simp [and_assoc]

namespace Parser

variable {α β γ : Type}

/-- From every placed cursor the run ends, and a run that succeeds has moved
on, if at all. -/
structure Halts (p : Parser α) : Prop where
  yields : p.Yields fun _ _ => True
  ne_stuck : ∀ ⦃c : Cursor⦄, c.Placed → p c ≠ .stuck

/-- The parser never succeeds without having read something. -/
def Consuming (p : Parser α) : Prop :=
  p.Yields fun text _ => text ≠ []

/-! ## Loops -/

/-- A loop whose rounds read something comes to its end. -/
theorem rounds_ne_stuck {round : Cursor → Round α} {A : Reading α}
    (hyields : RoundYields round A) (hne : ∀ text a, A text a → text ≠ [])
    (hround : ∀ ⦃c : Cursor⦄, c.Placed → round c ≠ .stuck) (taken : List α) {c : Cursor}
    (hc : c.Placed) : rounds round taken c ≠ .stuck := by
  obtain ⟨completed, -, hrun⟩ := exists_loopRun hyields hne hround taken hc
  exact hrun.ne_stuck

theorem ofOutcome_ne_stuck {outcome : Outcome α} (h : outcome ≠ .stuck) :
    Round.ofOutcome outcome ≠ .stuck := by
  cases outcome with
  | done value next => simp [Round.ofOutcome]
  | failed failure => simp [Round.ofOutcome]
  | stuck => exact absurd rfl h

theorem Halts.manyRound_ne_stuck {p : Parser α} (hp : p.Halts) {c : Cursor} (hc : c.Placed) :
    manyRound p c ≠ .stuck := by
  have hrun := hp.ne_stuck hc
  unfold manyRound
  split
  · split <;> simp
  · simp
  · contradiction

theorem Halts.separatedRound_ne_stuck {p : Parser α} {separator : Parser β} (hp : p.Halts)
    (hseparator : separator.Halts) {c : Cursor} (hc : c.Placed) :
    separatedRound p separator c ≠ .stuck := by
  unfold separatedRound
  cases hrun : separator c with
  | done b behind =>
      obtain ⟨text, hreads, -⟩ := hseparator.yields hc hrun
      exact ofOutcome_ne_stuck (hp.ne_stuck (hreads.placed hc))
  | failed failure => simp
  | stuck => exact absurd hrun (hseparator.ne_stuck hc)

/-- A separator and an item read something if either of them always does. -/
theorem Halts.separatedRound_consumes {p : Parser α} {separator : Parser β} (hp : p.Halts)
    (hseparator : separator.Halts) (hconsuming : p.Consuming ∨ separator.Consuming) :
    RoundYields (separatedRound p separator) fun text _ => text ≠ [] := by
  intro c n value hc hround
  obtain ⟨b, m, hb, hvalue⟩ := separatedRound_eq_again_iff.mp hround
  obtain ⟨first, hfirst, -⟩ := hseparator.yields hc hb
  rcases hconsuming with hitem | hitem
  · obtain ⟨second, hsecond, hne⟩ := hitem (hfirst.placed hc) hvalue
    exact ⟨first ++ second, hfirst.trans hsecond, by simp [hne]⟩
  · obtain ⟨first', hfirst', hne⟩ := hitem hc hb
    obtain ⟨second, hsecond, -⟩ := hp.yields (hfirst'.placed hc) hvalue
    exact ⟨first' ++ second, hfirst'.trans hsecond, by simp [hne]⟩

section

variable {p : Parser α} {c : Cursor}

/-- `many` goes round as often as the parser moves, which is at most once for
each character that is left. -/
theorem Halts.many_loopRun (hp : p.Halts) (hc : c.Placed) :
    ∃ completed, completed ≤ c.rest.length ∧ ∀ attempts outcome,
      LoopRun (manyRound p) [] c attempts outcome ↔
        attempts = completed + 1 ∧ outcome = p.many c :=
  exists_loopRun_iff hp.yields.manyRound (fun _ _ h => h.2) (fun _ hd => hp.manyRound_ne_stuck hd)
    [] hc

/-- Behind the first item a list goes round at most once for each character
that is left. -/
theorem Halts.separatedList_loopRun {separator : Parser β} (hp : p.Halts)
    (hseparator : separator.Halts) (hconsuming : p.Consuming ∨ separator.Consuming)
    (hc : c.Placed) {first : α} {n : Cursor} (hfirst : p c = .done first n) :
    ∃ completed, completed ≤ n.rest.length ∧ ∀ attempts outcome,
      LoopRun (separatedRound p separator) [first] n attempts outcome ↔
        attempts = completed + 1 ∧ outcome = p.separatedList separator c := by
  obtain ⟨text, hreads, -⟩ := hp.yields hc hfirst
  have hlist : p.separatedList separator c = rounds (separatedRound p separator) [first] n := by
    rw [separatedList, andThen, hfirst, Outcome.andThen_done]
  rw [hlist]
  exact exists_loopRun_iff (hp.separatedRound_consumes hseparator hconsuming) (fun _ _ h => h)
    (fun _ hd => hp.separatedRound_ne_stuck hseparator hd) [first] (hreads.placed hc)

end

/-! ## Sequence and choice -/

theorem halts_succeed (value : α) : (succeed value).Halts where
  yields := (yields_succeed value).mono fun _ _ _ => trivial
  ne_stuck := by simp

section

variable {p q : Parser α}

theorem Halts.andThen {continuation : α → Parser β} (hp : p.Halts)
    (hcontinuation : ∀ a, (continuation a).Halts) : (p.andThen continuation).Halts where
  yields := (hp.yields.andThen fun a => (hcontinuation a).yields).mono fun _ _ _ => trivial
  ne_stuck := by
    intro c hc hrun
    rcases Outcome.andThen_eq_stuck_iff.mp hrun with hfirst | ⟨a, n, hfirst, hsecond⟩
    · exact hp.ne_stuck hc hfirst
    · obtain ⟨text, hreads, -⟩ := hp.yields hc hfirst
      exact (hcontinuation a).ne_stuck (hreads.placed hc) hsecond

theorem Halts.map (hp : p.Halts) (f : α → β) : (p.map f).Halts :=
  hp.andThen fun a => halts_succeed (f a)

theorem Halts.skip (hp : p.Halts) : p.skip.Halts :=
  hp.map fun _ => ()

theorem Halts.pair {r : Parser β} (hp : p.Halts) (hr : r.Halts) : (p.pair r).Halts :=
  hp.andThen fun a => hr.map fun b => (a, b)

theorem Halts.between {opening : Parser β} {closing : Parser γ} (hopening : opening.Halts)
    (hp : p.Halts) (hclosing : closing.Halts) : (between opening p closing).Halts :=
  hopening.andThen fun _ => hp.andThen fun a => hclosing.map fun _ => a

theorem Halts.orElse (hp : p.Halts) (hq : q.Halts) : (p.orElse q).Halts where
  yields := (hp.yields.orElse hq.yields).mono fun _ _ _ => trivial
  ne_stuck := by
    intro c hc
    unfold Parser.orElse
    cases hrun : p c with
    | done value next => simp
    | failed failure => exact hq.ne_stuck hc
    | stuck => exact absurd hrun (hp.ne_stuck hc)

theorem Halts.optional (hp : p.Halts) : p.optional.Halts :=
  (hp.map some).orElse (halts_succeed none)

theorem halts_inTurn {ps : List (Parser α)} (hps : ∀ p ∈ ps, p.Halts) : (inTurn ps).Halts := by
  induction ps with
  | nil => exact halts_succeed []
  | cons p ps ih =>
      have hthen : (inTurn ps).Halts := ih fun q hq => hps q (List.mem_cons_of_mem p hq)
      exact (hps p List.mem_cons_self).andThen fun first => hthen.map (first :: ·)

/-- A changed failure changes nothing about whether a run ends. -/
theorem Halts.mapFailure (hp : p.Halts) (f : Cursor → Failure → Failure) :
    Halts fun c => p.mapFailure (f c) c where
  yields := hp.yields.mapFailure f
  ne_stuck := by
    intro c hc
    unfold Parser.mapFailure
    cases hrun : p c with
    | done value next => simp
    | failed failure => simp
    | stuck => exact absurd hrun (hp.ne_stuck hc)

theorem Halts.withSpan (hp : p.Halts) : p.withSpan.Halts where
  yields := hp.yields.withSpan.mono fun _ _ _ => trivial
  ne_stuck := by
    intro c hc hrun
    rcases Outcome.andThen_eq_stuck_iff.mp hrun with hfirst | ⟨a, n, hfirst, hspan⟩
    · exact hp.ne_stuck hc hfirst
    · obtain ⟨text, hreads, -⟩ := hp.yields hc hfirst
      simp [between?_of_reads hreads] at hspan

/-! ## Repetition -/

theorem Halts.many (hp : p.Halts) : p.many.Halts where
  yields := hp.yields.many.mono fun _ _ _ => trivial
  ne_stuck := fun _ hc => rounds_ne_stuck hp.yields.manyRound (fun _ _ h => h.2)
    (fun _ hd => hp.manyRound_ne_stuck hd) [] hc

theorem Halts.many1 (hp : p.Halts) : p.many1.Halts :=
  hp.andThen fun first => hp.many.map (first :: ·)

theorem Halts.separatedList {separator : Parser β} (hp : p.Halts) (hseparator : separator.Halts)
    (hconsuming : p.Consuming ∨ separator.Consuming) : (p.separatedList separator).Halts where
  yields := (hp.yields.separatedList hseparator.yields).mono fun _ _ _ => trivial
  ne_stuck := by
    intro c hc hrun
    rcases Outcome.andThen_eq_stuck_iff.mp hrun with hfirst | ⟨a, n, hfirst, hrest⟩
    · exact hp.ne_stuck hc hfirst
    · obtain ⟨text, hreads, -⟩ := hp.yields hc hfirst
      exact rounds_ne_stuck (hp.separatedRound_consumes hseparator hconsuming) (fun _ _ h => h)
        (fun _ hd => hp.separatedRound_ne_stuck hseparator hd) [a] (hreads.placed hc) hrest

end

/-! ## Characters -/

theorem halts_expecting (wanted : Expectation) (test : Char → Bool) :
    (expecting wanted test).Halts where
  yields := (yields_expecting wanted test).mono fun _ _ _ => trivial
  ne_stuck := by
    intro c _
    unfold expecting
    split
    · simp
    · split <;> simp

theorem halts_endOfInput : endOfInput.Halts where
  yields := yields_endOfInput.mono fun _ _ _ => trivial
  ne_stuck := by
    intro c _
    unfold endOfInput
    split <;> simp

theorem halts_literal (text : String) : (literal text).Halts := by
  have hchars : (inTurn (text.toList.map char)).Halts := by
    refine halts_inTurn fun p hp => ?_
    obtain ⟨ch, -, rfl⟩ := List.mem_map.mp hp
    exact halts_expecting _ _
  exact (hchars.map String.ofList).mapFailure
    fun c inner => Failure.raise c (.literalMismatch text c.rest inner.cause)

theorem halts_whitespace : whitespace.Halts :=
  (halts_expecting _ _).many.skip

end Parser

end JsonGrammar
