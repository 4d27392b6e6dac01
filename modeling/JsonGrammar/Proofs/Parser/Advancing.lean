import JsonGrammar.Proofs.Parser.Backtracking

/-!
# Repetition goes as far as it can

`Advances p c steps n` says that `p`, run again and again from `c`, has
succeeded at every step and has come further on in the text with each.  The
steps hold the values with the places behind them, and `n` is the last of these
places.  `Rests p n` says that no further step begins at `n`: there `p` fails,
or it succeeds and stays where it is.

A way to a place at which the parser rests has every other way as a beginning
(`Advances.exists_append`), and so there is at most one.  `many` goes that way,
for parsers that never go back, and comes to no end only where the parser itself
comes to none (`many_goes_furthest`).
-/

namespace JsonGrammar

namespace Parser

variable {α : Type}

/-- The parser succeeds time after time, each time further on in the text. -/
inductive Advances (p : Parser α) : Cursor → List (α × Cursor) → Cursor → Prop where
  | nil (c : Cursor) : Advances p c [] c
  | cons {c m n : Cursor} {value : α} {steps : List (α × Cursor)} (hrun : p c = .done value m)
      (hfurther : c.position < m.position) (hthen : Advances p m steps n) :
      Advances p c ((value, m) :: steps) n

/-- The parser fails, or succeeds without moving. -/
def Rests (p : Parser α) (c : Cursor) : Prop :=
  (∃ failure, p c = .failed failure) ∨ ∃ value, p c = .done value c

section

variable {p : Parser α} {c m n : Cursor} {value : α} {steps : List (α × Cursor)}

/-! ## Ways through a text -/

theorem Rests.ne_stuck (h : p.Rests c) : p c ≠ .stuck := by
  rcases h with ⟨failure, hfailed⟩ | ⟨value, hdone⟩
  · simp [hfailed]
  · simp [hdone]

/-- Where the parser rests no step begins. -/
theorem Rests.not_further (h : p.Rests c) (hrun : p c = .done value m) :
    ¬ c.position < m.position := by
  rcases h with ⟨failure, hfailed⟩ | ⟨stays, hdone⟩
  · rw [hfailed] at hrun
    cases hrun
  · rw [hdone] at hrun
    cases hrun
    exact Nat.lt_irrefl c.position

/-- Every way is a beginning of a way to a place at which the parser rests. -/
theorem Advances.exists_append (h : p.Advances c steps n) (hn : p.Rests n)
    {first : List (α × Cursor)} (hfirst : p.Advances c first m) :
    ∃ more, steps = first ++ more ∧ p.Advances m more n := by
  induction hfirst generalizing steps with
  | nil c => exact ⟨steps, rfl, h⟩
  | cons hrun hfurther _ ih =>
      cases h with
      | nil => exact absurd hfurther (hn.not_further hrun)
      | cons hrun' _ hthen =>
          rw [hrun] at hrun'
          cases hrun'
          obtain ⟨more, rfl, hmore⟩ := ih hthen
          exact ⟨more, rfl, hmore⟩

/-- Where the parser rests the only way is the empty one. -/
theorem Advances.of_rests (h : p.Advances c steps n) (hc : p.Rests c) : steps = [] ∧ n = c := by
  cases h with
  | nil => exact ⟨rfl, rfl⟩
  | cons hrun hfurther _ => exact absurd hfurther (hc.not_further hrun)

theorem Advances.unique (h : p.Advances c steps n) (hn : p.Rests n)
    {steps' : List (α × Cursor)} {n' : Cursor} (h' : p.Advances c steps' n') (hn' : p.Rests n') :
    steps' = steps ∧ n' = n := by
  obtain ⟨more, rfl, hmore⟩ := h.exists_append hn h'
  obtain ⟨rfl, rfl⟩ := hmore.of_rests hn'
  exact ⟨(List.append_nil steps').symm, rfl⟩

/-- On the way to a place at which it rests the parser comes to an end
everywhere. -/
theorem Advances.ne_stuck (h : p.Advances c steps n) (hn : p.Rests n)
    {first : List (α × Cursor)} (hfirst : p.Advances c first m) : p m ≠ .stuck := by
  obtain ⟨more, -, hmore⟩ := h.exists_append hn hfirst
  cases hmore with
  | nil => exact hn.ne_stuck
  | cons hrun _ _ => simp [hrun]

/-! ## The rounds of `many` -/

variable {source : String}

/-- In a source a round goes on where the parser takes a step. -/
theorem MovesOn.manyRound_eq_again_iff (hp : p.MovesOn) (hc : Cursor.Reached source c) :
    manyRound p c = .again value n ↔ p c = .done value n ∧ c.position < n.position := by
  rw [Parser.manyRound_eq_again_iff]
  apply and_congr_right
  intro hrun
  have hle := (hp hc hrun).2
  omega

/-- In a source a round stops where the parser rests. -/
theorem MovesOn.manyRound_eq_stop_iff (hp : p.MovesOn) (hc : Cursor.Reached source c) :
    manyRound p c = .stop ↔ p.Rests c := by
  rw [Parser.manyRound_eq_stop_iff]
  apply or_congr_right
  constructor
  · intro h
    obtain ⟨value, n, hrun, hposition⟩ := h
    obtain rfl := (hp hc hrun).1.standsIn.eq_of_position_eq hc.standsIn hposition
    exact ⟨value, hrun⟩
  · intro h
    obtain ⟨value, hrun⟩ := h
    exact ⟨value, c, hrun, rfl⟩

/-- The rounds that go on are the steps of a way. -/
theorem MovesOn.chain_manyRound_iff (hp : p.MovesOn) (hc : Cursor.Reached source c)
    {values : List α} :
    Chain (manyRound p) c values n ↔
      ∃ steps, p.Advances c steps n ∧ values = steps.map Prod.fst := by
  constructor
  · intro h
    induction h with
    | nil c => exact ⟨[], .nil c, rfl⟩
    | @cons c m n value values hround _ _ ih =>
        obtain ⟨hrun, hfurther⟩ := (hp.manyRound_eq_again_iff hc).mp hround
        obtain ⟨steps, hsteps, rfl⟩ := ih (hp hc hrun).1
        exact ⟨(value, m) :: steps, .cons hrun hfurther hsteps, rfl⟩
  · intro h
    obtain ⟨steps, hsteps, rfl⟩ := h
    induction hsteps with
    | nil c => exact .nil c
    | cons hrun hfurther _ ih =>
        have hm := (hp hc hrun).1
        have hround := (hp.manyRound_eq_again_iff hc).mpr ⟨hrun, hfurther⟩
        exact .cons hround (hc.bytesLeft_lt hm hfurther) (ih hm)

theorem Advances.reached (h : p.Advances c steps n) (hp : p.MovesOn)
    (hc : Cursor.Reached source c) : Cursor.Reached source n := by
  induction h with
  | nil c => exact hc
  | cons hrun _ _ ih => exact ih (hp hc hrun).1

/-! ## The whole loop -/

theorem MovesOn.many_eq_done_iff (hp : p.MovesOn) (hc : Cursor.Reached source c)
    {values : List α} :
    p.many c = .done values n ↔
      ∃ steps, p.Advances c steps n ∧ p.Rests n ∧ values = steps.map Prod.fst := by
  rw [many, rounds_eq_done_iff]
  constructor
  · intro h
    obtain ⟨further, hchain, hstop, rfl⟩ := h
    obtain ⟨steps, hsteps, rfl⟩ := (hp.chain_manyRound_iff hc).mp hchain
    have hn := (hp.manyRound_eq_stop_iff (hsteps.reached hp hc)).mp hstop
    exact ⟨steps, hsteps, hn, rfl⟩
  · intro h
    obtain ⟨steps, hsteps, hn, rfl⟩ := h
    refine ⟨steps.map Prod.fst, (hp.chain_manyRound_iff hc).mpr ⟨steps, hsteps, rfl⟩, ?_, rfl⟩
    exact (hp.manyRound_eq_stop_iff (hsteps.reached hp hc)).mpr hn

/-- The loop comes to no end only by way of a place where its parser comes to
none. -/
theorem MovesOn.many_eq_stuck_iff (hp : p.MovesOn) (hc : Cursor.Reached source c) :
    p.many c = .stuck ↔ ∃ steps n, p.Advances c steps n ∧ p n = .stuck := by
  rw [many, rounds_eq_stuck_iff]
  constructor
  · intro h
    obtain ⟨values, n, hchain, hends⟩ := h
    obtain ⟨steps, hsteps, -⟩ := (hp.chain_manyRound_iff hc).mp hchain
    refine ⟨steps, n, hsteps, ?_⟩
    rcases hends with hstuck | ⟨value, m, hround, hfar⟩
    · exact manyRound_eq_stuck_iff.mp hstuck
    · have hn := hsteps.reached hp hc
      obtain ⟨hrun, hfurther⟩ := (hp.manyRound_eq_again_iff hn).mp hround
      have hcloser := hn.bytesLeft_lt (hp hn hrun).1 hfurther
      omega
  · intro h
    obtain ⟨steps, n, hsteps, hstuck⟩ := h
    refine ⟨_, n, (hp.chain_manyRound_iff hc).mpr ⟨steps, hsteps, rfl⟩, Or.inl ?_⟩
    exact manyRound_eq_stuck_iff.mpr hstuck

/-- The loop succeeds unless it comes to a place where its parser comes to no
end. -/
theorem MovesOn.exists_many_done_iff (hp : p.MovesOn) (hc : Cursor.Reached source c) :
    (∃ values n, p.many c = .done values n) ↔
      ∀ steps n, p.Advances c steps n → p n ≠ .stuck := by
  constructor
  · intro h
    obtain ⟨values, n, hmany⟩ := h
    obtain ⟨steps, hsteps, hn, -⟩ := (hp.many_eq_done_iff hc).mp hmany
    intro first m hfirst
    exact hsteps.ne_stuck hn hfirst
  · intro h
    cases hmany : p.many c with
    | done values n => exact ⟨values, n, rfl⟩
    | failed failure => exact absurd hmany many_ne_failed
    | stuck =>
        obtain ⟨steps, n, hsteps, hstuck⟩ := (hp.many_eq_stuck_iff hc).mp hmany
        exact absurd hstuck (h steps n hsteps)

/-- `many` never fails, and it succeeds unless its parser comes to no end
somewhere on the way.  Its values and its place are those of the one way that
leads to a place at which the parser rests; from there `many` goes no further.
`many1` fails as its parser does, and otherwise has the first value, whether or
not anything was read for it, in front of what `many` gives behind it. -/
theorem many_goes_furthest (hp : p.MovesOn) (hc : Cursor.Reached source c) :
    (∀ failure, p.many c ≠ .failed failure) ∧
    ((∃ values n, p.many c = .done values n) ↔
      ∀ steps n, p.Advances c steps n → p n ≠ .stuck) ∧
    (∀ values n, p.many c = .done values n ↔
      ∃ steps, p.Advances c steps n ∧ p.Rests n ∧ values = steps.map Prod.fst) ∧
    (∀ steps n steps' n', p.Advances c steps n → p.Rests n →
      p.Advances c steps' n' → p.Rests n' → steps' = steps ∧ n' = n) ∧
    (∀ values n, p.many c = .done values n → p.many n = .done [] n) ∧
    (∀ failure, p.many1 c = .failed failure ↔ p c = .failed failure) ∧
    ∀ values n, p.many1 c = .done values n ↔
      ∃ first m further, p c = .done first m ∧ p.many m = .done further n ∧
        values = first :: further := by
  refine ⟨fun failure => many_ne_failed, hp.exists_many_done_iff hc,
    fun values n => hp.many_eq_done_iff hc, fun steps n steps' n' h hn h' hn' => h.unique hn h' hn',
    fun values n hmany => ?_, fun failure => many1_eq_failed_iff, fun values n => many1_eq_done_iff⟩
  obtain ⟨steps, hsteps, hn, -⟩ := (hp.many_eq_done_iff hc).mp hmany
  exact (hp.many_eq_done_iff (hsteps.reached hp hc)).mpr ⟨[], .nil n, hn, rfl⟩

end

/-- An optional letter, in front of two of them and behind: `many` takes the two
and leaves out the success that reads nothing, which `many1` keeps where it is
the first. -/
theorem many_goes_furthest_optional :
    let p := (char 'a').optional
    let c := Cursor.start "aab"
    let n : Cursor := { source := "aab", position := 2, byteOffset := 2, rest := ['b'] }
    p.many c = .done [some 'a', some 'a'] n ∧ p n = .done none n ∧
      (∃ steps, p.Advances c steps n ∧ p.Rests n ∧
        [some 'a', some 'a'] = steps.map Prod.fst) ∧
      p.many n = .done [] n ∧ p.many1 n = .done [none] n := by
  intro p c n
  have hp : p.MovesOn := (yields_char 'a').optional.movesOn
  have hc : Cursor.Reached "aab" c := .start
  have hmany : p.many c = .done [some 'a', some 'a'] n := by
    decide +kernel
  have hnone : p n = .done none n := by
    decide +kernel
  obtain ⟨-, -, hdone, -, hagain, -⟩ := many_goes_furthest hp hc
  obtain ⟨steps, hsteps, hn, hvalues⟩ := (hdone _ _).mp hmany
  have hempty := hagain _ _ hmany
  obtain ⟨-, -, -, -, -, -, hmany1⟩ := many_goes_furthest hp (hsteps.reached hp hc)
  exact ⟨hmany, hnone, ⟨steps, hsteps, hn, hvalues⟩, hempty,
    (hmany1 _ _).mpr ⟨none, n, [], hnone, hempty, rfl⟩⟩

end Parser

end JsonGrammar
