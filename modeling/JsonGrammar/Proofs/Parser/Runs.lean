import JsonGrammar.Proofs.Parser.Contract

/-!
# Parsers in front of a known text

What a parser does where the text behind the cursor is known, in three
judgments.

* `p.Consumes text v rest`: in front of `rest` the parser takes `text` whole
  and gives `v`.
* `p.Refuses rest`: in front of `rest` the parser fails.
* `p.ConsumesIf fits text v rest cause`: in front of `rest` the parser takes
  `text` whole and gives `v` if `fits` holds, and otherwise fails for `cause`.

Each combinator has rules for them, so that the rules of the grammar get by
without following a cursor from one parser to the next.

`Ends test rest` is the condition under which a run of a class is over: `rest`
does not go on with a character of the class.
-/

namespace JsonGrammar

/-- The text is over or goes on with a character that fails the test. -/
def Ends (test : Char → Bool) (rest : List Char) : Prop :=
  ∀ ch ∈ rest.head?, test ch = false

theorem ends_nil (test : Char → Bool) : Ends test [] := by
  intro ch hch
  simp at hch

theorem ends_cons {test : Char → Bool} {ch : Char} {rest : List Char} :
    Ends test (ch :: rest) ↔ test ch = false := by
  simp [Ends]

/-- A run of a class that is over is cut off by `takeWhile`. -/
theorem takeWhile_of_ends {test : Char → Bool} {run rest : List Char}
    (hrun : ∀ ch ∈ run, test ch = true) (hrest : Ends test rest) :
    (run ++ rest).takeWhile test = run := by
  rw [List.takeWhile_append_of_pos hrun]
  cases rest with
  | nil => simp
  | cons ch rest => simp [ends_cons.mp hrest]

theorem dropWhile_of_ends {test : Char → Bool} {run rest : List Char}
    (hrun : ∀ ch ∈ run, test ch = true) (hrest : Ends test rest) :
    (run ++ rest).dropWhile test = rest := by
  rw [List.dropWhile_append_of_pos hrun]
  cases rest with
  | nil => simp
  | cons ch rest => simp [ends_cons.mp hrest]

namespace Parser

variable {α β γ : Type}

/-- Where the text stands in front of `rest` the parser takes it whole and
gives the value. -/
def Consumes (p : Parser α) (text : List Char) (value : α) (rest : List Char) : Prop :=
  ∀ ⦃c : Cursor⦄, c.Placed → c.rest = text ++ rest → p c = .done value (c.advance text)

/-- Where `rest` is what is left the parser fails. -/
def Refuses (p : Parser α) (rest : List Char) : Prop :=
  ∀ ⦃c : Cursor⦄, c.Placed → c.rest = rest → ∃ failure, p c = .failed failure

/-- The run gives the value and goes on to `next` where the condition holds,
and fails for the cause where it does not. -/
def Decides (outcome : Outcome α) (fits : Prop) (value : α) (next : Cursor) (cause : Cause) :
    Prop :=
  (fits → outcome = .done value next) ∧
    (¬ fits → ∃ failure, outcome = .failed failure ∧ failure.cause = cause)

/-- Where the text stands in front of `rest` the condition decides the run. -/
def ConsumesIf (p : Parser α) (fits : Prop) (text : List Char) (value : α) (rest : List Char)
    (cause : Cause) : Prop :=
  ∀ ⦃c : Cursor⦄, c.Placed → c.rest = text ++ rest →
    Decides (p c) fits value (c.advance text) cause

section

variable {p : Parser α} {q : Parser β} {continuation : α → Parser β} {xs ys rest : List Char}
  {a : α} {b : β}

/-! ## Sequence -/

theorem consumes_succeed (a : α) (rest : List Char) : (succeed a).Consumes [] a rest := by
  intro c _ _
  rw [succeed_apply, Cursor.advance_nil]

theorem Consumes.andThen (hp : p.Consumes xs a (ys ++ rest))
    (hcontinuation : (continuation a).Consumes ys b rest) :
    (p.andThen continuation).Consumes (xs ++ ys) b rest := by
  intro c hc hrest
  rw [List.append_assoc] at hrest
  rw [Parser.andThen, hp hc hrest, Outcome.andThen_done, Cursor.advance_append]
  exact hcontinuation (Cursor.placed_advance hc hrest) (Cursor.rest_advance_of_eq hrest)

theorem Consumes.map (hp : p.Consumes xs a rest) (f : α → β) :
    (p.map f).Consumes xs (f a) rest := by
  intro c hc hrest
  exact map_eq_done_iff.mpr ⟨a, hp hc hrest, rfl⟩

theorem Consumes.skip (hp : p.Consumes xs a rest) : p.skip.Consumes xs () rest :=
  hp.map fun _ => ()

theorem Consumes.pair (hp : p.Consumes xs a (ys ++ rest)) (hq : q.Consumes ys b rest) :
    (p.pair q).Consumes (xs ++ ys) (a, b) rest :=
  hp.andThen (hq.map fun b => (a, b))

theorem Consumes.thenSkip (hp : p.Consumes xs a (ys ++ rest)) (hq : q.Consumes ys b rest) :
    (p.thenSkip q).Consumes (xs ++ ys) a rest :=
  hp.andThen (hq.map fun _ => a)

theorem Consumes.skipThen (hp : p.Consumes xs a (ys ++ rest)) (hq : q.Consumes ys b rest) :
    (p.skipThen q).Consumes (xs ++ ys) b rest :=
  hp.andThen hq

/-- The first parser takes its text, and the second one fails behind it. -/
theorem Consumes.andThen_refuses (hp : p.Consumes xs a rest)
    (hcontinuation : (continuation a).Refuses rest) :
    (p.andThen continuation).Refuses (xs ++ rest) := by
  intro c hc hrest
  obtain ⟨failure, hfailed⟩ :=
    hcontinuation (Cursor.placed_advance hc hrest) (Cursor.rest_advance_of_eq hrest)
  exact ⟨failure, andThen_eq_failed_iff.mpr (Or.inr ⟨a, _, hp hc hrest, hfailed⟩)⟩

theorem Refuses.andThen (hp : p.Refuses rest) (continuation : α → Parser β) :
    (p.andThen continuation).Refuses rest := by
  intro c hc hrest
  obtain ⟨failure, hfailed⟩ := hp hc hrest
  exact ⟨failure, andThen_eq_failed_iff.mpr (Or.inl hfailed)⟩

theorem Refuses.map (hp : p.Refuses rest) (f : α → β) : (p.map f).Refuses rest :=
  hp.andThen fun a => succeed (f a)

theorem Refuses.skip (hp : p.Refuses rest) : p.skip.Refuses rest :=
  hp.map fun _ => ()

theorem Refuses.pair (hp : p.Refuses rest) (q : Parser β) : (p.pair q).Refuses rest :=
  hp.andThen fun a => q.map fun b => (a, b)

/-! ## Choice -/

theorem Consumes.orElse {p q : Parser α} (hp : p.Consumes xs a rest) :
    (p.orElse q).Consumes xs a rest := by
  intro c hc hrest
  exact orElse_eq_done_iff.mpr (Or.inl (hp hc hrest))

theorem Refuses.orElse {p q : Parser α} (hp : p.Refuses (xs ++ rest)) (hq : q.Consumes xs a rest) :
    (p.orElse q).Consumes xs a rest := by
  intro c hc hrest
  exact orElse_eq_done_iff.mpr (Or.inr ⟨hp hc hrest, hq hc hrest⟩)

theorem Consumes.optional (hp : p.Consumes xs a rest) : p.optional.Consumes xs (some a) rest :=
  (hp.map some).orElse

theorem Refuses.optional (hp : p.Refuses rest) : p.optional.Consumes [] none rest :=
  Refuses.orElse (hp.map some) (consumes_succeed none rest)

/-! ## Runs that a condition decides -/

variable {fits fits' : Prop} {cause : Cause}

theorem Consumes.decided (hp : p.Consumes xs a rest) (hfits : fits) (cause : Cause) :
    p.ConsumesIf fits xs a rest cause := by
  intro c hc hrest
  exact ⟨fun _ => hp hc hrest, fun hnot => absurd hfits hnot⟩

theorem ConsumesIf.consumes (hp : p.ConsumesIf fits xs a rest cause) (hfits : fits) :
    p.Consumes xs a rest :=
  fun _ hc hrest => (hp hc hrest).1 hfits

theorem ConsumesIf.congr (hp : p.ConsumesIf fits xs a rest cause) (hiff : fits ↔ fits') :
    p.ConsumesIf fits' xs a rest cause := by
  intro c hc hrest
  obtain ⟨hdone, hfailed⟩ := hp hc hrest
  exact ⟨fun hfits => hdone (hiff.mpr hfits), fun hnot => hfailed (hnot ∘ hiff.mp)⟩

/-- Two parsers one after the other are decided by both conditions. -/
theorem ConsumesIf.andThen (hp : p.ConsumesIf fits xs a (ys ++ rest) cause)
    (hcontinuation : (continuation a).ConsumesIf fits' ys b rest cause) :
    (p.andThen continuation).ConsumesIf (fits ∧ fits') (xs ++ ys) b rest cause := by
  intro c hc hrest
  rw [List.append_assoc] at hrest
  obtain ⟨hdone, hfailed⟩ := hp hc hrest
  by_cases hfits : fits
  · obtain ⟨hdone', hfailed'⟩ :=
      hcontinuation (Cursor.placed_advance hc hrest) (Cursor.rest_advance_of_eq hrest)
    rw [Parser.andThen, hdone hfits, Outcome.andThen_done, Cursor.advance_append]
    exact ⟨fun h => hdone' h.2, fun hnot => hfailed' fun hfits' => hnot ⟨hfits, hfits'⟩⟩
  · refine ⟨fun h => absurd h.1 hfits, fun _ => ?_⟩
    obtain ⟨failure, hrun, hcause⟩ := hfailed hfits
    exact ⟨failure, andThen_eq_failed_iff.mpr (Or.inl hrun), hcause⟩

/-- Behind a text that is taken the second parser alone decides. -/
theorem Consumes.andThen_decided (hp : p.Consumes xs a (ys ++ rest))
    (hcontinuation : (continuation a).ConsumesIf fits ys b rest cause) :
    (p.andThen continuation).ConsumesIf fits (xs ++ ys) b rest cause :=
  ((hp.decided trivial cause).andThen hcontinuation).congr (and_iff_right trivial)

/-- In front of a text that is taken the first parser alone decides. -/
theorem ConsumesIf.andThen_consumes (hp : p.ConsumesIf fits xs a (ys ++ rest) cause)
    (hcontinuation : (continuation a).Consumes ys b rest) :
    (p.andThen continuation).ConsumesIf fits (xs ++ ys) b rest cause :=
  (hp.andThen (hcontinuation.decided trivial cause)).congr (and_iff_left trivial)

theorem ConsumesIf.map (hp : p.ConsumesIf fits xs a rest cause) (f : α → β) :
    (p.map f).ConsumesIf fits xs (f a) rest cause := by
  rw [← List.append_nil xs]
  exact ConsumesIf.andThen_consumes hp (consumes_succeed (f a) rest)

theorem ConsumesIf.thenSkip (hp : p.ConsumesIf fits xs a (ys ++ rest) cause)
    (hq : q.Consumes ys b rest) : (p.thenSkip q).ConsumesIf fits (xs ++ ys) a rest cause :=
  hp.andThen_consumes (hq.map fun _ => a)

theorem Consumes.skipThen_decided (hp : p.Consumes xs a (ys ++ rest))
    (hq : q.ConsumesIf fits ys b rest cause) :
    (p.skipThen q).ConsumesIf fits (xs ++ ys) b rest cause :=
  hp.andThen_decided hq

theorem Consumes.pair_decided (hp : p.Consumes xs a (ys ++ rest))
    (hq : q.ConsumesIf fits ys b rest cause) :
    (p.pair q).ConsumesIf fits (xs ++ ys) (a, b) rest cause :=
  hp.andThen_decided (hq.map fun b => (a, b))

theorem Refuses.orElse_decided {p q : Parser α} (hp : p.Refuses (xs ++ rest))
    (hq : q.ConsumesIf fits xs a rest cause) : (p.orElse q).ConsumesIf fits xs a rest cause := by
  intro c hc hrest
  obtain ⟨failure, hfailed⟩ := hp hc hrest
  rw [Parser.orElse, hfailed]
  exact hq hc hrest

/-! ## Separated items -/

/-- Where no separator stands the loop behind an item is over. -/
theorem consumes_rounds_nil {separator : Parser β} (hseparator : separator.Refuses rest)
    (taken : List α) :
    Consumes (rounds (separatedRound p separator) taken) [] taken.reverse rest := by
  intro c hc hrest
  rw [Cursor.advance_nil]
  refine rounds_eq_done_iff.mpr ⟨[], .nil c, ?_, by simp⟩
  exact separatedRound_eq_stop_iff.mpr (hseparator hc hrest)

/-- Where a separator stands the loop goes on as one that begins with the next
item. -/
theorem consumesIf_rounds_cons {separator : Parser β} {A : Reading α} {values : List α}
    (hp : p.Yields A) (hseparator : separator.Consumes xs b (ys ++ rest)) (hne : xs ≠ [])
    {taken : List α}
    (hnext : (p.andThen fun a => rounds (separatedRound p separator) (a :: taken)).ConsumesIf
      fits ys values rest cause) :
    ConsumesIf (rounds (separatedRound p separator) taken) fits (xs ++ ys) values rest cause := by
  intro c hc hrest
  rw [List.append_assoc] at hrest
  have hreads := Cursor.reads_advance hrest
  have hplaced := hreads.placed hc
  have hloop := hnext hplaced (Cursor.rest_advance_of_eq hrest)
  rw [Cursor.advance_append, rounds, separatedRound, hseparator hc hrest]
  rw [Parser.andThen] at hloop
  simp only
  cases hrun : p (c.advance xs) with
  | done a n =>
      -- The separator alone brings the next round closer to the end.
      obtain ⟨item, hitem, -⟩ := hp hplaced hrun
      have hcloser := hreads.bytesLeft_lt hc hne
      have hle := hitem.bytesLeft_eq hplaced
      rw [hrun, Outcome.andThen_done] at hloop
      simp only [Round.ofOutcome]
      rwa [if_pos (by omega)]
  | failed failure =>
      rw [hrun] at hloop
      exact hloop
  | stuck =>
      rw [hrun] at hloop
      exact hloop

end

/-! ## Characters of a class -/

theorem consumes_expecting (wanted : Expectation) {test : Char → Bool} {ch : Char}
    (htest : test ch = true) (rest : List Char) :
    (expecting wanted test).Consumes [ch] ch rest := by
  intro c _ hrest
  exact expecting_of_rest hrest htest

theorem consumes_char (ch : Char) (rest : List Char) : (char ch).Consumes [ch] ch rest := by
  intro c _ hrest
  exact expecting_of_rest hrest (by simp)

theorem refuses_expecting (wanted : Expectation) {test : Char → Bool} {rest : List Char}
    (hends : Ends test rest) : (expecting wanted test).Refuses rest := by
  intro c _ hrest
  rw [← hrest] at hends
  exact ⟨_, expecting_eq_failed_iff.mpr ⟨hends, rfl⟩⟩

theorem refuses_char {wanted ch : Char} (hne : ch ≠ wanted) (rest : List Char) :
    (char wanted).Refuses (ch :: rest) :=
  refuses_expecting _ (ends_cons.mpr (beq_eq_false_iff_ne.mpr hne))

theorem chain_of_run {wanted : Expectation} {test : Char → Bool} {run rest : List Char}
    (hrun : ∀ ch ∈ run, test ch = true) {c : Cursor} (hc : c.Placed)
    (hrest : c.rest = run ++ rest) :
    Chain (manyRound (expecting wanted test)) c run (c.advance run) := by
  induction run generalizing c with
  | nil =>
      rw [Cursor.advance_nil]
      exact .nil c
  | cons ch run ih =>
      have hfirst : c.Reads [ch] (c.advance [ch]) := Cursor.reads_advance hrest
      have hround : manyRound (expecting wanted test) c = .again ch (c.advance [ch]) := by
        apply manyRound_eq_again_iff.mpr
        refine ⟨expecting_of_rest hrest (hrun ch List.mem_cons_self), ?_⟩
        rw [Cursor.position_advance, List.length_singleton]
        omega
      have hthen : (c.advance [ch]).rest = run ++ rest := Cursor.rest_advance_of_eq hrest
      rw [show ch :: run = [ch] ++ run from rfl, Cursor.advance_append]
      exact .cons hround (hfirst.bytesLeft_lt hc (List.cons_ne_nil _ _))
        (ih (fun x hx => hrun x (List.mem_cons_of_mem ch hx)) (hfirst.placed hc) hthen)

/-- A loop over a class of characters takes a run of them that is over. -/
theorem consumes_many (wanted : Expectation) {test : Char → Bool} {run rest : List Char}
    (hrun : ∀ ch ∈ run, test ch = true) (hends : Ends test rest) :
    (many (expecting wanted test)).Consumes run run rest := by
  intro c hc hrest
  have hstop := refuses_expecting wanted hends (Cursor.placed_advance hc hrest)
    (Cursor.rest_advance_of_eq hrest)
  obtain ⟨failure, hfailed⟩ := hstop
  refine rounds_eq_done_iff.mpr ⟨run, chain_of_run hrun hc hrest, ?_, by simp⟩
  rw [manyRound, hfailed]

theorem consumes_many1 (wanted : Expectation) {test : Char → Bool} {run rest : List Char}
    (hrun : ∀ ch ∈ run, test ch = true) (hne : run ≠ []) (hends : Ends test rest) :
    (many1 (expecting wanted test)).Consumes run run rest := by
  obtain ⟨ch, run, rfl⟩ := List.exists_cons_of_ne_nil hne
  have hmany := consumes_many wanted (fun x hx => hrun x (List.mem_cons_of_mem ch hx)) hends
  exact (consumes_expecting wanted (hrun ch List.mem_cons_self) (run ++ rest)).andThen
    (hmany.map (ch :: ·))

theorem consumes_endOfInput : endOfInput.Consumes [] () [] := by
  intro c hc hrest
  rw [Cursor.advance_nil]
  exact (endOfInput_eq_done_iff hc).mpr ⟨hrest, rfl⟩

/-! ## Literals -/

/-- A literal is taken where it stands. -/
theorem consumes_literal (text : String) (rest : List Char) :
    (literal text).Consumes text.toList text rest := by
  intro c _ hrest
  exact literal_eq_done_iff.mpr ⟨Cursor.reads_advance hrest, rfl⟩

theorem yields_literal (text : String) :
    (literal text).Yields fun read value => read = text.toList ∧ value = text := by
  intro c n value _ hrun
  obtain ⟨hreads, rfl⟩ := literal_eq_done_iff.mp hrun
  exact ⟨_, hreads, rfl, rfl⟩

/-- A literal fails where it had to begin. -/
theorem blames_literal {M : Mark} {text : String}
    (hraise : ∀ c rest inner, M (Failure.raise c (.literalMismatch text rest inner)) c) :
    (literal text).Blames M fun read cause =>
      read = [] ∧ ∃ rest inner, cause = .literalMismatch text rest inner :=
  blames_mapFailure (f := fun c inner => Failure.raise c (.literalMismatch text c.rest inner.cause))
    (fun c _ => hraise c _ _) fun _ _ => ⟨rfl, _, _, rfl⟩

/-- A literal that does not stand behind the cursor fails. -/
theorem refuses_literal {text : String} {rest : List Char} (hmismatch : ¬ text.toList <+: rest) :
    (literal text).Refuses rest := by
  intro c _ hrest
  obtain ⟨common, wanted, more, found, htext, rfl, hne⟩ := exists_mismatch hmismatch
  exact ⟨_, literal_of_mismatch htext hne hrest⟩

end Parser

end JsonGrammar
