import JsonGrammar.Parser.Characters
import JsonGrammar.Proofs.Cursor.Reading

/-!
# What a run must have done

For each combinator, when it succeeds and when it fails, said once as an
equivalence.  Later modules take runs apart with these and do not unfold the
combinators again.

A loop is taken apart by `Chain`: the rounds that went on, one after the
other, each of them closer to the end.  A loop that succeeds is a chain up to
a round that stops, a loop that fails is a chain up to a round that fails, and
a loop that is stuck is a chain up to a round that does not come closer
(`rounds_eq_done_iff`, `rounds_eq_failed_iff`, `rounds_eq_stuck_iff`).
-/

namespace JsonGrammar

namespace Parser

variable {α β γ : Type}

/-! ## Sequence and choice -/

@[simp] theorem succeed_apply (value : α) (c : Cursor) : succeed value c = .done value c := rfl

theorem andThen_eq_done_iff {p : Parser α} {continuation : α → Parser β} {c n : Cursor} {b : β} :
    p.andThen continuation c = .done b n ↔
      ∃ a m, p c = .done a m ∧ continuation a m = .done b n :=
  Outcome.andThen_eq_done_iff

theorem andThen_eq_failed_iff {p : Parser α} {continuation : α → Parser β} {c : Cursor}
    {failure : Failure} :
    p.andThen continuation c = .failed failure ↔
      p c = .failed failure ∨ ∃ a m, p c = .done a m ∧ continuation a m = .failed failure :=
  Outcome.andThen_eq_failed_iff

theorem map_eq_done_iff {p : Parser α} {f : α → β} {c n : Cursor} {b : β} :
    p.map f c = .done b n ↔ ∃ a, p c = .done a n ∧ f a = b := by
  rw [map, andThen_eq_done_iff]
  constructor
  · intro h
    obtain ⟨a, m, ha, hm⟩ := h
    simp only [succeed_apply, Outcome.done.injEq] at hm
    obtain ⟨hvalue, rfl⟩ := hm
    exact ⟨a, ha, hvalue⟩
  · intro h
    obtain ⟨a, ha, rfl⟩ := h
    exact ⟨a, n, ha, rfl⟩

theorem map_eq_failed_iff {p : Parser α} {f : α → β} {c : Cursor} {failure : Failure} :
    p.map f c = .failed failure ↔ p c = .failed failure := by
  rw [map, andThen_eq_failed_iff]
  simp

theorem pair_eq_done_iff {p : Parser α} {q : Parser β} {c n : Cursor} {a : α} {b : β} :
    p.pair q c = .done (a, b) n ↔ ∃ m, p c = .done a m ∧ q m = .done b n := by
  rw [pair, andThen_eq_done_iff]
  constructor
  · intro h
    obtain ⟨first, m, hfirst, hmapped⟩ := h
    obtain ⟨second, hsecond, heq⟩ := map_eq_done_iff.mp hmapped
    obtain ⟨rfl, rfl⟩ := Prod.mk.inj heq
    exact ⟨m, hfirst, hsecond⟩
  · intro h
    obtain ⟨m, hfirst, hsecond⟩ := h
    exact ⟨a, m, hfirst, map_eq_done_iff.mpr ⟨b, hsecond, rfl⟩⟩

theorem pair_eq_failed_iff {p : Parser α} {q : Parser β} {c : Cursor} {failure : Failure} :
    p.pair q c = .failed failure ↔
      p c = .failed failure ∨ ∃ a m, p c = .done a m ∧ q m = .failed failure := by
  rw [pair, andThen_eq_failed_iff]
  simp only [map_eq_failed_iff]

theorem orElse_eq_done_iff {p q : Parser α} {c n : Cursor} {a : α} :
    p.orElse q c = .done a n ↔
      p c = .done a n ∨ (∃ failure, p c = .failed failure) ∧ q c = .done a n := by
  unfold orElse
  cases p c <;> simp

theorem orElse_eq_failed_iff {p q : Parser α} {c : Cursor} {failure : Failure} :
    p.orElse q c = .failed failure ↔
      (∃ first, p c = .failed first) ∧ q c = .failed failure := by
  unfold orElse
  cases p c <;> simp

theorem optional_ne_failed {p : Parser α} {c : Cursor} {failure : Failure} :
    p.optional c ≠ .failed failure := by
  intro hrun
  exact absurd (orElse_eq_failed_iff.mp hrun).2 (by simp)

theorem mapFailure_eq_done_iff {p : Parser α} {f : Failure → Failure} {c n : Cursor} {a : α} :
    p.mapFailure f c = .done a n ↔ p c = .done a n := by
  unfold mapFailure
  cases p c <;> simp

theorem mapFailure_eq_failed_iff {p : Parser α} {f : Failure → Failure} {c : Cursor}
    {failure : Failure} :
    p.mapFailure f c = .failed failure ↔ ∃ inner, p c = .failed inner ∧ f inner = failure := by
  unfold mapFailure
  cases p c <;> simp

theorem withSpan_eq_done_iff {p : Parser α} {c n : Cursor} {a : α} {span : Span} :
    p.withSpan c = .done (a, span) n ↔ p c = .done a n ∧ Span.between? c n = some span := by
  unfold withSpan
  rw [Outcome.andThen_eq_done_iff]
  constructor
  · intro h
    obtain ⟨value, next, hp, hspan⟩ := h
    split at hspan
    · rename_i found hfound
      simp only [Outcome.done.injEq, Prod.mk.injEq] at hspan
      obtain ⟨⟨rfl, rfl⟩, rfl⟩ := hspan
      exact ⟨hp, hfound⟩
    · simp at hspan
  · intro h
    obtain ⟨hp, hspan⟩ := h
    exact ⟨a, n, hp, by simp [hspan]⟩

theorem withSpan_eq_failed_iff {p : Parser α} {c : Cursor} {failure : Failure} :
    p.withSpan c = .failed failure ↔ p c = .failed failure := by
  unfold withSpan
  rw [Outcome.andThen_eq_failed_iff]
  constructor
  · intro h
    rcases h with hp | ⟨value, next, _, hspan⟩
    · exact hp
    · split at hspan <;> simp at hspan
  · exact Or.inl

/-! ## Single characters -/

theorem expecting_eq_done_iff {wanted : Expectation} {test : Char → Bool} {c n : Cursor}
    {ch : Char} :
    expecting wanted test c = .done ch n ↔ test ch = true ∧ c.Reads [ch] n := by
  unfold expecting
  rw [← Cursor.next?_eq_some_iff]
  split
  · rename_i hnext
    simp [hnext]
  · rename_i found next hnext
    rw [hnext]
    cases htest : test found with
    | false =>
        simp only [Bool.false_eq_true, ↓reduceIte, reduceCtorEq, Option.some.injEq,
          Prod.mk.injEq, false_iff, not_and]
        intro hch heq
        subst heq
        simp [hch] at htest
    | true =>
        simp only [↓reduceIte, Outcome.done.injEq, Option.some.injEq, Prod.mk.injEq]
        constructor
        · intro h
          obtain ⟨rfl, rfl⟩ := h
          exact ⟨htest, rfl, rfl⟩
        · exact And.right

/-- A parser for one character fails where it stands, on a character that
fails the test or at the end. -/
theorem expecting_eq_failed_iff {wanted : Expectation} {test : Char → Bool} {c : Cursor}
    {failure : Failure} :
    expecting wanted test c = .failed failure ↔
      (∀ ch ∈ c.rest.head?, test ch = false) ∧
        failure = Failure.raise c (.unexpected wanted c.rest.head?) := by
  unfold expecting
  rw [eq_comm (a := failure)]
  cases hrest : c.rest with
  | nil =>
      rw [Cursor.next?_eq_none_iff.mpr hrest]
      simp
  | cons ch rest =>
      rw [Cursor.next?_of_rest hrest]
      cases htest : test ch <;> simp [htest]

theorem expecting_of_rest {wanted : Expectation} {test : Char → Bool} {c : Cursor} {ch : Char}
    {rest : List Char} (hrest : c.rest = ch :: rest) (htest : test ch = true) :
    expecting wanted test c = .done ch (c.advance [ch]) :=
  expecting_eq_done_iff.mpr ⟨htest, Cursor.reads_advance hrest⟩

/-! ## Literals -/

theorem inTurn_chars_eq_done_iff {cs values : List Char} {c n : Cursor} :
    inTurn (cs.map char) c = .done values n ↔ c.Reads cs n ∧ values = cs := by
  induction cs generalizing c values with
  | nil =>
      show Outcome.done [] c = .done values n ↔ _
      rw [Outcome.done.injEq]
      constructor
      · intro h
        obtain ⟨rfl, rfl⟩ := h
        exact ⟨.refl c, rfl⟩
      · intro h
        obtain ⟨hreads, rfl⟩ := h
        exact ⟨rfl, by rw [hreads.eq_advance, Cursor.advance_nil]⟩
  | cons ch cs ih =>
      constructor
      · intro hrun
        obtain ⟨first, m, hfirst, hmapped⟩ := andThen_eq_done_iff.mp hrun
        obtain ⟨tail, htail, rfl⟩ := map_eq_done_iff.mp hmapped
        obtain ⟨hch, hreads⟩ := expecting_eq_done_iff.mp hfirst
        obtain rfl := beq_iff_eq.mp hch
        obtain ⟨hthen, rfl⟩ := ih.mp htail
        exact ⟨hreads.trans hthen, rfl⟩
      · intro h
        obtain ⟨hreads, rfl⟩ := h
        rw [← List.singleton_append] at hreads
        obtain ⟨hfirst, hthen⟩ := hreads.split
        exact andThen_eq_done_iff.mpr
          ⟨ch, _, expecting_eq_done_iff.mpr ⟨beq_self_eq_true ch, hfirst⟩,
          map_eq_done_iff.mpr ⟨cs, ih.mpr ⟨hthen, rfl⟩, rfl⟩⟩

/-- A literal succeeds where it is read, whatever comes behind. -/
theorem literal_eq_done_iff {text value : String} {c n : Cursor} :
    literal text c = .done value n ↔ c.Reads text.toList n ∧ value = text := by
  unfold literal
  rw [mapFailure_eq_done_iff, map_eq_done_iff]
  simp only [inTurn_chars_eq_done_iff]
  constructor
  · intro h
    obtain ⟨chars, ⟨hreads, rfl⟩, rfl⟩ := h
    exact ⟨hreads, String.ofList_toList⟩
  · intro h
    obtain ⟨hreads, rfl⟩ := h
    exact ⟨_, ⟨hreads, rfl⟩, String.ofList_toList⟩

/-- Texts of which the one is no beginning of the other part at a character of
the first. -/
theorem exists_mismatch {xs ys : List Char} (hmismatch : ¬ xs <+: ys) :
    ∃ common wanted more rest, xs = common ++ wanted :: more ∧ ys = common ++ rest ∧
      rest.head? ≠ some wanted := by
  induction xs generalizing ys with
  | nil => exact absurd List.nil_prefix hmismatch
  | cons ch xs ih =>
      by_cases hfirst : ys.head? = some ch
      · obtain ⟨ys, rfl⟩ := List.head?_eq_some_iff.mp hfirst
        rw [List.cons_prefix_cons] at hmismatch
        obtain ⟨common, wanted, more, rest, rfl, rfl, hne⟩ := ih fun h => hmismatch ⟨rfl, h⟩
        exact ⟨ch :: common, wanted, more, rest, rfl, rfl, hne⟩
      · exact ⟨[], ch, xs, ys, rfl, rfl, hfirst⟩

/-- Characters in turn fail at the first one that does not stand there. -/
theorem inTurn_chars_of_mismatch {common rest : List Char} {wanted : Char} (more : List Char)
    (hne : rest.head? ≠ some wanted) {c : Cursor} (hrest : c.rest = common ++ rest) :
    inTurn ((common ++ wanted :: more).map char) c =
      .failed (Failure.raise (c.advance common) (.unexpected (.character wanted) rest.head?)) := by
  induction common generalizing c with
  | nil =>
      have hends : ∀ ch ∈ c.rest.head?, (ch == wanted) = false := by
        intro ch hch
        rw [hrest] at hch
        apply beq_eq_false_iff_ne.mpr
        rintro rfl
        exact hne hch
      apply andThen_eq_failed_iff.mpr
      refine Or.inl (expecting_eq_failed_iff.mpr ⟨hends, ?_⟩)
      rw [Cursor.advance_nil, hrest, List.nil_append]
  | cons ch common ih =>
      have hfirst : char ch c = .done ch (c.advance [ch]) := expecting_of_rest hrest (by simp)
      have hbehind : (c.advance [ch]).rest = common ++ rest := Cursor.rest_advance_of_eq hrest
      have hthen := ih hbehind
      rw [← Cursor.advance_append] at hthen
      exact andThen_eq_failed_iff.mpr
        (Or.inr ⟨ch, _, hfirst, map_eq_failed_iff.mpr hthen⟩)

/-- A literal with a mismatch in it fails where it had to begin, for what was
found at the mismatch. -/
theorem literal_of_mismatch {text : String} {common more rest : List Char} {wanted : Char}
    (htext : text.toList = common ++ wanted :: more) (hne : rest.head? ≠ some wanted) {c : Cursor}
    (hrest : c.rest = common ++ rest) :
    literal text c = .failed (Failure.raise c
      (.literalMismatch text c.rest (.unexpected (.character wanted) rest.head?))) := by
  have hchars := inTurn_chars_of_mismatch more hne hrest
  rw [← htext] at hchars
  exact mapFailure_eq_failed_iff.mpr ⟨_, map_eq_failed_iff.mpr hchars, rfl⟩

/-! ## Loops -/

/-- The rounds that go on from one cursor to another, with their values. -/
inductive Chain (round : Cursor → Round α) : Cursor → List α → Cursor → Prop where
  | nil (c : Cursor) : Chain round c [] c
  | cons {c m n : Cursor} {value : α} {values : List α} (hround : round c = .again value m)
      (hcloser : m.bytesLeft < c.bytesLeft) (hthen : Chain round m values n) :
      Chain round c (value :: values) n

theorem rounds_of_chain {round : Cursor → Round α} {taken values : List α} {c n : Cursor}
    (h : Chain round c values n) :
    rounds round taken c = rounds round (values.reverse ++ taken) n := by
  induction h generalizing taken with
  | nil c => rfl
  | cons hround hcloser _ ih =>
      rw [rounds, hround]
      simp only [hcloser, ↓reduceIte]
      rw [ih, List.reverse_cons, List.append_assoc, List.singleton_append]

theorem rounds_eq_done_iff {round : Cursor → Round α} {taken values : List α} {c n : Cursor} :
    rounds round taken c = .done values n ↔
      ∃ further, Chain round c further n ∧ round n = .stop ∧
        values = taken.reverse ++ further := by
  constructor
  · intro hrun
    fun_induction rounds round taken c with
    | case1 taken c hstop =>
        simp only [Outcome.done.injEq] at hrun
        obtain ⟨rfl, rfl⟩ := hrun
        exact ⟨[], .nil c, hstop, by simp⟩
    | case2 => simp at hrun
    | case3 => simp at hrun
    | case4 taken c value next hround hcloser ih =>
        obtain ⟨further, hchain, hstop, rfl⟩ := ih hrun
        exact ⟨value :: further, .cons hround hcloser hchain, hstop, by simp⟩
    | case5 => simp at hrun
  · intro h
    obtain ⟨further, hchain, hstop, rfl⟩ := h
    rw [rounds_of_chain hchain, rounds, hstop]
    simp

theorem rounds_eq_failed_iff {round : Cursor → Round α} {taken : List α} {c : Cursor}
    {failure : Failure} :
    rounds round taken c = .failed failure ↔
      ∃ values n, Chain round c values n ∧ round n = .failed failure := by
  constructor
  · intro hrun
    fun_induction rounds round taken c with
    | case1 => simp at hrun
    | case2 taken c first hfailed =>
        simp only [Outcome.failed.injEq] at hrun
        subst hrun
        exact ⟨[], c, .nil c, hfailed⟩
    | case3 => simp at hrun
    | case4 taken c value next hround hcloser ih =>
        obtain ⟨values, n, hchain, hfailed⟩ := ih hrun
        exact ⟨value :: values, n, .cons hround hcloser hchain, hfailed⟩
    | case5 => simp at hrun
  · intro h
    obtain ⟨values, n, hchain, hfailed⟩ := h
    rw [rounds_of_chain hchain, rounds, hfailed]

/-- A loop is stuck when its rounds come to one that is stuck, or to one that
goes on without coming closer to the end. -/
theorem rounds_eq_stuck_iff {round : Cursor → Round α} {taken : List α} {c : Cursor} :
    rounds round taken c = .stuck ↔
      ∃ values n, Chain round c values n ∧
        (round n = .stuck ∨
          ∃ value m, round n = .again value m ∧ n.bytesLeft ≤ m.bytesLeft) := by
  constructor
  · intro hrun
    fun_induction rounds round taken c with
    | case1 => simp at hrun
    | case2 => simp at hrun
    | case3 taken c hstuck => exact ⟨[], c, .nil c, Or.inl hstuck⟩
    | case4 taken c value next hround hcloser ih =>
        obtain ⟨values, n, hchain, hends⟩ := ih hrun
        exact ⟨value :: values, n, .cons hround hcloser hchain, hends⟩
    | case5 taken c value next hround hfar =>
        exact ⟨[], c, .nil c, Or.inr ⟨value, next, hround, Nat.le_of_not_lt hfar⟩⟩
  · intro h
    obtain ⟨values, n, hchain, hends⟩ := h
    rw [rounds_of_chain hchain, rounds]
    rcases hends with hstuck | ⟨value, m, hround, hfar⟩
    · rw [hstuck]
    · rw [hround]
      exact if_neg (Nat.not_lt_of_le hfar)

theorem ofOutcome_eq_again_iff {outcome : Outcome α} {value : α} {next : Cursor} :
    Round.ofOutcome outcome = .again value next ↔ outcome = .done value next := by
  cases outcome <;> simp [Round.ofOutcome]

theorem ofOutcome_eq_failed_iff {outcome : Outcome α} {failure : Failure} :
    Round.ofOutcome outcome = .failed failure ↔ outcome = .failed failure := by
  cases outcome <;> simp [Round.ofOutcome]

theorem manyRound_eq_again_iff {p : Parser α} {c n : Cursor} {value : α} :
    manyRound p c = .again value n ↔ p c = .done value n ∧ n.position ≠ c.position := by
  unfold manyRound
  cases p c with
  | done found next =>
      by_cases hposition : next.position = c.position
      · simp only [hposition, ↓reduceIte, reduceCtorEq, Outcome.done.injEq, false_iff, not_and]
        intro h
        obtain ⟨-, rfl⟩ := h
        simpa using hposition
      · simp only [hposition, ↓reduceIte, Round.again.injEq, Outcome.done.injEq]
        constructor
        · intro h
          obtain ⟨rfl, rfl⟩ := h
          exact ⟨⟨rfl, rfl⟩, hposition⟩
        · exact And.left
  | failed => simp
  | stuck => simp

theorem manyRound_ne_failed {p : Parser α} {c : Cursor} {failure : Failure} :
    manyRound p c ≠ .failed failure := by
  unfold manyRound
  split
  · split <;> simp
  · simp
  · simp

theorem manyRound_eq_stop_iff {p : Parser α} {c : Cursor} :
    manyRound p c = .stop ↔
      (∃ failure, p c = .failed failure) ∨
        ∃ value n, p c = .done value n ∧ n.position = c.position := by
  unfold manyRound
  cases p c with
  | done value n =>
      by_cases hposition : n.position = c.position
      · simp only [hposition, ↓reduceIte, true_iff]
        exact Or.inr ⟨value, n, rfl, hposition⟩
      · simp [hposition]
  | failed failure => simp
  | stuck => simp

theorem manyRound_eq_stuck_iff {p : Parser α} {c : Cursor} :
    manyRound p c = .stuck ↔ p c = .stuck := by
  unfold manyRound
  cases p c with
  | done value n => by_cases hposition : n.position = c.position <;> simp [hposition]
  | failed failure => simp
  | stuck => simp

theorem separatedRound_eq_again_iff {p : Parser α} {separator : Parser β} {c n : Cursor}
    {value : α} :
    separatedRound p separator c = .again value n ↔
      ∃ b m, separator c = .done b m ∧ p m = .done value n := by
  unfold separatedRound
  cases separator c <;> simp [ofOutcome_eq_again_iff, and_assoc]

theorem separatedRound_eq_failed_iff {p : Parser α} {separator : Parser β} {c : Cursor}
    {failure : Failure} :
    separatedRound p separator c = .failed failure ↔
      ∃ b m, separator c = .done b m ∧ p m = .failed failure := by
  unfold separatedRound
  cases separator c <;> simp [ofOutcome_eq_failed_iff, and_assoc]

theorem separatedRound_eq_stop_iff {p : Parser α} {separator : Parser β} {c : Cursor} :
    separatedRound p separator c = .stop ↔ ∃ failure, separator c = .failed failure := by
  unfold separatedRound
  cases separator c with
  | done b m => cases hp : p m <;> simp [Round.ofOutcome, hp]
  | failed => simp
  | stuck => simp

theorem many_ne_failed {p : Parser α} {c : Cursor} {failure : Failure} :
    p.many c ≠ .failed failure := by
  intro hrun
  obtain ⟨values, n, _, hfailed⟩ := rounds_eq_failed_iff.mp hrun
  exact absurd hfailed manyRound_ne_failed

theorem many1_eq_failed_iff {p : Parser α} {c : Cursor} {failure : Failure} :
    p.many1 c = .failed failure ↔ p c = .failed failure := by
  rw [many1, andThen_eq_failed_iff]
  apply or_iff_left
  intro h
  obtain ⟨first, m, -, hmany⟩ := h
  exact many_ne_failed (map_eq_failed_iff.mp hmany)

theorem many1_eq_done_iff {p : Parser α} {c n : Cursor} {values : List α} :
    p.many1 c = .done values n ↔
      ∃ first m further, p c = .done first m ∧ p.many m = .done further n ∧
        values = first :: further := by
  rw [many1, andThen_eq_done_iff]
  constructor
  · intro h
    obtain ⟨first, m, hfirst, hmapped⟩ := h
    obtain ⟨further, hmany, rfl⟩ := map_eq_done_iff.mp hmapped
    exact ⟨first, m, further, hfirst, hmany, rfl⟩
  · intro h
    obtain ⟨first, m, further, hfirst, hmany, rfl⟩ := h
    exact ⟨first, m, hfirst, map_eq_done_iff.mpr ⟨further, hmany, rfl⟩⟩

end Parser

end JsonGrammar
