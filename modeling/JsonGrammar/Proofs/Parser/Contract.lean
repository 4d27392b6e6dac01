import JsonGrammar.Proofs.Parser.Inversion

/-!
# What parsers read and blame

Two judgments on parsers, both about every cursor that is placed in its
source.

* `p.Yields A`: where `p` succeeds with a value, it has read a text that `A`
  relates to the value.
* `p.Blames M F`: where `p` fails, the failure is put down by `M` to a place
  that has been read up to, and `F` relates the text before that place to the
  cause.  The mark `M` is usually `Failure.At`, the place that the failure
  names itself.

Each combinator has one rule for each judgment, so that a rule of the grammar
gets both from its parts.  Relations between texts and values are put together
in the same way as the parsers: `Then`, and `Repeated` for loops.
-/

namespace JsonGrammar

/-- A relation between the texts a parser reads and the values it gives. -/
abbrev Reading (α : Type) := List Char → α → Prop

/-- A relation between the texts before a failure and its cause. -/
abbrev Blame := List Char → Cause → Prop

/-- A relation between failures and the places they are put down to. -/
abbrev Mark := Failure → Cursor → Prop

namespace Reading

variable {α β : Type}

/-- A text of the first relation with a text of the second behind it, which
may depend on the first value. -/
def Then (A : Reading α) (B : α → Reading β) : Reading β := fun text b =>
  ∃ first a second, text = first ++ second ∧ A first a ∧ B a second b

/-- One text and no other, whatever the value. -/
def Only (wanted : List Char) : Reading α := fun text _ =>
  text = wanted

/-- The texts of a relation, with changed values. -/
def Map (A : Reading α) (f : α → β) : Reading β := fun text b =>
  ∃ a, A text a ∧ f a = b

/-- Texts of two relations one behind the other, with both values. -/
def Pair (A : Reading α) (B : Reading β) : Reading (α × β) := fun text v =>
  ∃ first second, text = first ++ second ∧ A first v.1 ∧ B second v.2

/-- Texts of two relations one behind the other, with the first value. -/
def ThenSkip (A : Reading α) (B : Reading β) : Reading α := fun text a =>
  ∃ first second b, text = first ++ second ∧ A first a ∧ B second b

/-- Texts of two relations one behind the other, with the second value. -/
def SkipThen (A : Reading α) (B : Reading β) : Reading β :=
  A.Then fun _ => B

/-- Any number of texts one behind the other. -/
inductive Repeated (A : Reading α) : Reading (List α) where
  | nil : Repeated A [] []
  | cons {first rest : List Char} {a : α} {values : List α} (hfirst : A first a)
      (hrest : Repeated A rest values) : Repeated A (first ++ rest) (a :: values)

theorem Repeated.append {A : Reading α} {xs ys : List Char} {vs ws : List α}
    (hxs : Repeated A xs vs) (hys : Repeated A ys ws) : Repeated A (xs ++ ys) (vs ++ ws) := by
  induction hxs with
  | nil => exact hys
  | cons hfirst _ ih =>
      rw [List.append_assoc]
      exact .cons hfirst ih

theorem Repeated.mono {A B : Reading α} (hsub : ∀ {u v}, A u v → B u v) {xs : List Char}
    {vs : List α} (h : Repeated A xs vs) : Repeated B xs vs := by
  induction h with
  | nil => exact .nil
  | cons hfirst _ ih => exact .cons (hsub hfirst) ih

end Reading

/-- A text of the relation, and behind it one that is blamed. -/
def Blame.after {α : Type} (A : Reading α) (G : α → Blame) : Blame := fun text cause =>
  ∃ first a second, text = first ++ second ∧ A first a ∧ G a second cause

namespace Parser

variable {α β γ : Type} {M : Mark}

/-- Where the parser succeeds it has read a text related to its value. -/
def Yields (p : Parser α) (A : Reading α) : Prop :=
  ∀ ⦃c n : Cursor⦄ ⦃value : α⦄, c.Placed → p c = .done value n →
    ∃ text, c.Reads text n ∧ A text value

/-- Where the parser fails, the failure is put down to a place that has been
read up to. -/
def Blames (p : Parser α) (M : Mark) (F : Blame) : Prop :=
  ∀ ⦃c : Cursor⦄ ⦃failure : Failure⦄, c.Placed → p c = .failed failure →
    ∃ text d, c.Reads text d ∧ M failure d ∧ F text failure.cause

theorem Yields.mono {p : Parser α} {A B : Reading α} (hp : p.Yields A)
    (hsub : ∀ text value, A text value → B text value) : p.Yields B := by
  intro c n value hc hrun
  obtain ⟨text, hreads, htext⟩ := hp hc hrun
  exact ⟨text, hreads, hsub _ _ htext⟩

theorem Blames.mono {p : Parser α} {F G : Blame} (hp : p.Blames M F)
    (hsub : ∀ text cause, F text cause → G text cause) : p.Blames M G := by
  intro c failure hc hrun
  obtain ⟨text, d, hreads, hat, htext⟩ := hp hc hrun
  exact ⟨text, d, hreads, hat, hsub _ _ htext⟩

/-! ## Sequence -/

theorem yields_succeed (value : α) :
    (succeed value).Yields fun text v => text = [] ∧ v = value := by
  intro c n v hc hrun
  simp only [succeed_apply, Outcome.done.injEq] at hrun
  obtain ⟨rfl, rfl⟩ := hrun
  exact ⟨[], .refl c, rfl, rfl⟩

theorem blames_succeed (value : α) (M : Mark) (F : Blame) : (succeed value).Blames M F := by
  intro c failure hc hrun
  simp at hrun

theorem Yields.andThen {p : Parser α} {continuation : α → Parser β} {A : Reading α}
    {B : α → Reading β} (hp : p.Yields A) (hcontinuation : ∀ a, (continuation a).Yields (B a)) :
    (p.andThen continuation).Yields (A.Then B) := by
  intro c n value hc hrun
  obtain ⟨a, m, ha, hb⟩ := andThen_eq_done_iff.mp hrun
  obtain ⟨first, hfirst, hA⟩ := hp hc ha
  obtain ⟨second, hsecond, hB⟩ := hcontinuation a (hfirst.placed hc) hb
  exact ⟨first ++ second, hfirst.trans hsecond, first, a, second, rfl, hA, hB⟩

theorem Blames.andThen {p : Parser α} {continuation : α → Parser β} {A : Reading α} {F : Blame}
    {G : α → Blame} (hyields : p.Yields A) (hblames : p.Blames M F)
    (hcontinuation : ∀ a, (continuation a).Blames M (G a)) :
    (p.andThen continuation).Blames M fun text cause =>
      F text cause ∨ Blame.after A G text cause := by
  intro c failure hc hrun
  rcases andThen_eq_failed_iff.mp hrun with hfirst | ⟨a, m, ha, hb⟩
  · obtain ⟨text, d, hreads, hat, hF⟩ := hblames hc hfirst
    exact ⟨text, d, hreads, hat, Or.inl hF⟩
  · obtain ⟨first, hfirst, hA⟩ := hyields hc ha
    obtain ⟨second, d, hsecond, hat, hG⟩ := hcontinuation a (hfirst.placed hc) hb
    exact ⟨first ++ second, d, hfirst.trans hsecond, hat,
      Or.inr ⟨first, a, second, rfl, hA, hG⟩⟩

theorem Yields.map {p : Parser α} {A : Reading α} (hp : p.Yields A) (f : α → β) :
    (p.map f).Yields (A.Map f) := by
  intro c n value hc hrun
  obtain ⟨a, ha, hvalue⟩ := map_eq_done_iff.mp hrun
  obtain ⟨text, hreads, hA⟩ := hp hc ha
  exact ⟨text, hreads, a, hA, hvalue⟩

theorem Blames.map {p : Parser α} {F : Blame} (hp : p.Blames M F) (f : α → β) :
    (p.map f).Blames M F := by
  intro c failure hc hrun
  exact hp hc (map_eq_failed_iff.mp hrun)

theorem Yields.skip {p : Parser α} {A : Reading α} (hp : p.Yields A) :
    p.skip.Yields fun text _ => ∃ a, A text a :=
  (hp.map _).mono fun _ _ ⟨a, ha, _⟩ => ⟨a, ha⟩

theorem Yields.pair {p : Parser α} {q : Parser β} {A : Reading α} {B : Reading β}
    (hp : p.Yields A) (hq : q.Yields B) :
    (p.pair q).Yields (A.Pair B) := by
  refine (hp.andThen fun a => hq.map fun b => (a, b)).mono ?_
  intro text v h
  obtain ⟨first, a, second, htext, hA, b, hB, rfl⟩ := h
  exact ⟨first, second, htext, hA, hB⟩

/-- With a second parser that always succeeds, only the first one fails. -/
theorem Blames.pair_left {p : Parser α} {q : Parser β} {F : Blame} (hp : p.Blames M F)
    (hq : ∀ c failure, q c ≠ .failed failure) : (p.pair q).Blames M F := by
  intro c failure hc hrun
  rcases pair_eq_failed_iff.mp hrun with hfirst | ⟨a, m, _, hsecond⟩
  · exact hp hc hfirst
  · exact absurd hsecond (hq m failure)

theorem Yields.thenSkip {p : Parser α} {q : Parser β} {A : Reading α} {B : Reading β}
    (hp : p.Yields A) (hq : q.Yields B) :
    (p.thenSkip q).Yields (A.ThenSkip B) := by
  refine (hp.andThen fun a => hq.map fun _ => a).mono ?_
  intro text v h
  obtain ⟨first, a, second, htext, hA, b, hB, rfl⟩ := h
  exact ⟨first, second, b, htext, hA, hB⟩

theorem Yields.skipThen {p : Parser α} {q : Parser β} {A : Reading α} {B : Reading β}
    (hp : p.Yields A) (hq : q.Yields B) :
    (p.skipThen q).Yields (A.SkipThen B) :=
  hp.andThen fun _ => hq

/-! ## Choice -/

theorem Yields.orElse {p q : Parser α} {A B : Reading α} (hp : p.Yields A) (hq : q.Yields B) :
    (p.orElse q).Yields fun text v => A text v ∨ B text v := by
  intro c n value hc hrun
  rcases orElse_eq_done_iff.mp hrun with hdone | ⟨_, hdone⟩
  · obtain ⟨text, hreads, hA⟩ := hp hc hdone
    exact ⟨text, hreads, Or.inl hA⟩
  · obtain ⟨text, hreads, hB⟩ := hq hc hdone
    exact ⟨text, hreads, Or.inr hB⟩

/-- A choice fails as its second branch does. -/
theorem Blames.orElse {p q : Parser α} {F : Blame} (hq : q.Blames M F) :
    (p.orElse q).Blames M F := by
  intro c failure hc hrun
  exact hq hc (orElse_eq_failed_iff.mp hrun).2

theorem Yields.optional {p : Parser α} {A : Reading α} (hp : p.Yields A) :
    p.optional.Yields fun text v => (∃ a, A text a ∧ some a = v) ∨ text = [] ∧ v = none :=
  (hp.map some).orElse (yields_succeed none)

theorem blames_optional (p : Parser α) (M : Mark) (F : Blame) : p.optional.Blames M F :=
  fun _ _ _ hrun => absurd hrun optional_ne_failed

/-! ## Failures and spans -/

theorem Yields.mapFailure {p : Parser α} {A : Reading α} (hp : p.Yields A)
    (f : Cursor → Failure → Failure) :
    Yields (fun c => p.mapFailure (f c) c) A := by
  intro c n value hc hrun
  exact hp hc (mapFailure_eq_done_iff.mp hrun)

/-- A failure that is moved to where the parser began has nothing before
it. -/
theorem blames_mapFailure {p : Parser α} {f : Cursor → Failure → Failure} {F : Blame}
    (hat : ∀ c failure, M (f c failure) c) (hcause : ∀ c failure, F [] (f c failure).cause) :
    Blames (fun c => p.mapFailure (f c) c) M F := by
  intro c failure hc hrun
  obtain ⟨inner, _, rfl⟩ := mapFailure_eq_failed_iff.mp hrun
  exact ⟨[], c, .refl c, hat c inner, hcause c inner⟩

/-- The span of what was read holds just that. -/
theorem between?_of_reads {c n : Cursor} {text : List Char} (h : c.Reads text n) :
    Span.between? c n =
      some { start := c.position, stop := n.position, text := String.ofList text } := by
  unfold Span.between?
  rw [h.byteOffset_eq, if_neg (by omega), Nat.add_sub_cancel_left, h.rest_eq, takeBytes?_append]
  rfl

theorem Yields.withSpan {p : Parser α} {A : Reading α} (hp : p.Yields A) :
    p.withSpan.Yields fun text v => A text v.1 ∧ v.2.text = String.ofList text := by
  intro c n h hc hrun
  obtain ⟨value, span⟩ := h
  obtain ⟨hdone, hspan⟩ := withSpan_eq_done_iff.mp hrun
  obtain ⟨text, hreads, hA⟩ := hp hc hdone
  rw [between?_of_reads hreads, Option.some.injEq] at hspan
  exact ⟨text, hreads, hA, by rw [← hspan]⟩

theorem Blames.withSpan {p : Parser α} {F : Blame} (hp : p.Blames M F) : p.withSpan.Blames M F := by
  intro c failure hc hrun
  exact hp hc (withSpan_eq_failed_iff.mp hrun)

/-! ## Characters -/

theorem yields_expecting (wanted : Expectation) (test : Char → Bool) :
    (expecting wanted test).Yields fun text ch => text = [ch] ∧ test ch = true := by
  intro c n ch hc hrun
  obtain ⟨htest, hreads⟩ := expecting_eq_done_iff.mp hrun
  exact ⟨[ch], hreads, rfl, htest⟩

theorem yields_char (wanted : Char) : (char wanted).Yields (.Only [wanted]) := by
  refine (yields_expecting _ _).mono ?_
  intro text ch h
  obtain ⟨rfl, hch⟩ := h
  rw [beq_iff_eq.mp hch]
  rfl

theorem blames_expecting {wanted : Expectation} {test : Char → Bool}
    (hraise : ∀ c found, M (Failure.raise c (.unexpected wanted found)) c) :
    (expecting wanted test).Blames M fun text cause =>
      text = [] ∧ ∃ found, cause = .unexpected wanted found := by
  intro c failure hc hrun
  obtain ⟨_, rfl⟩ := expecting_eq_failed_iff.mp hrun
  exact ⟨[], c, .refl c, hraise c _, rfl, _, rfl⟩

theorem yields_endOfInput : endOfInput.Yields fun text _ => text = [] := by
  intro c n value hc hrun
  unfold endOfInput at hrun
  split at hrun
  · simp only [Outcome.done.injEq, true_and] at hrun
    subst hrun
    exact ⟨[], .refl c, rfl⟩
  · simp at hrun

/-- The end of the input is found where nothing is left. -/
theorem endOfInput_eq_done_iff {c n : Cursor} (hc : c.Placed) :
    endOfInput c = .done () n ↔ c.rest = [] ∧ n = c := by
  unfold endOfInput
  rw [← hc.isAtEnd_iff]
  split <;> rename_i hend <;> simp [hend, eq_comm]

theorem blames_endOfInput (hraise : ∀ c rest, M (Failure.raise c (.leftover rest)) c) :
    endOfInput.Blames M fun text cause => text = [] ∧ ∃ rest, cause = .leftover rest := by
  intro c failure hc hrun
  unfold endOfInput at hrun
  split at hrun
  · simp at hrun
  · simp only [Outcome.failed.injEq] at hrun
    subst hrun
    exact ⟨[], c, .refl c, hraise c _, rfl, _, rfl⟩

/-! ## Loops -/

/-- Where a round goes on it has read a text related to its value. -/
def RoundYields (round : Cursor → Round α) (A : Reading α) : Prop :=
  ∀ ⦃c n : Cursor⦄ ⦃value : α⦄, c.Placed → round c = .again value n →
    ∃ text, c.Reads text n ∧ A text value

/-- Where a round fails, the failure is put down to a place that has been read
up to. -/
def RoundBlames (round : Cursor → Round α) (M : Mark) (F : Blame) : Prop :=
  ∀ ⦃c : Cursor⦄ ⦃failure : Failure⦄, c.Placed → round c = .failed failure →
    ∃ text d, c.Reads text d ∧ M failure d ∧ F text failure.cause

theorem Chain.reads {round : Cursor → Round α} {A : Reading α} (hround : RoundYields round A)
    {c n : Cursor} {values : List α} (h : Chain round c values n) (hc : c.Placed) :
    ∃ text, c.Reads text n ∧ Reading.Repeated A text values := by
  induction h with
  | nil c => exact ⟨[], .refl c, .nil⟩
  | cons hagain _ _ ih =>
      obtain ⟨first, hfirst, hA⟩ := hround hc hagain
      obtain ⟨rest, hrest, hrepeated⟩ := ih (hfirst.placed hc)
      exact ⟨first ++ rest, hfirst.trans hrest, .cons hA hrepeated⟩

theorem RoundYields.rounds {round : Cursor → Round α} {A : Reading α}
    (hround : RoundYields round A) (taken : List α) :
    Yields (Parser.rounds round taken) fun text values =>
      ∃ further, Reading.Repeated A text further ∧ values = taken.reverse ++ further := by
  intro c n values hc hrun
  obtain ⟨further, hchain, _, hvalues⟩ := rounds_eq_done_iff.mp hrun
  obtain ⟨text, hreads, hrepeated⟩ := hchain.reads hround hc
  exact ⟨text, hreads, further, hrepeated, hvalues⟩

theorem RoundBlames.mono {round : Cursor → Round α} {F G : Blame} (h : RoundBlames round M F)
    (hsub : ∀ text cause, F text cause → G text cause) : RoundBlames round M G := by
  intro c failure hc hrun
  obtain ⟨text, d, hreads, hmark, htext⟩ := h hc hrun
  exact ⟨text, d, hreads, hmark, hsub _ _ htext⟩

theorem RoundBlames.rounds {round : Cursor → Round α} {A : Reading α} {F : Blame}
    (hyields : RoundYields round A) (hblames : RoundBlames round M F) (taken : List α) :
    Blames (Parser.rounds round taken) M (Blame.after (Reading.Repeated A) fun _ => F) := by
  intro c failure hc hrun
  obtain ⟨values, n, hchain, hfailed⟩ := rounds_eq_failed_iff.mp hrun
  obtain ⟨first, hfirst, hrepeated⟩ := hchain.reads hyields hc
  obtain ⟨second, d, hsecond, hat, hF⟩ := hblames (hfirst.placed hc) hfailed
  exact ⟨first ++ second, d, hfirst.trans hsecond, hat, first, values, second, rfl, hrepeated, hF⟩

theorem Yields.manyRound {p : Parser α} {A : Reading α} (hp : p.Yields A) :
    RoundYields (manyRound p) fun text v => A text v ∧ text ≠ [] := by
  intro c n value hc hrun
  obtain ⟨hdone, hposition⟩ := manyRound_eq_again_iff.mp hrun
  obtain ⟨text, hreads, hA⟩ := hp hc hdone
  refine ⟨text, hreads, hA, ?_⟩
  intro heq
  subst heq
  exact hposition (by rw [hreads.position_eq]; simp)

theorem Yields.many {p : Parser α} {A : Reading α} (hp : p.Yields A) :
    p.many.Yields (Reading.Repeated A) := by
  refine (hp.manyRound.rounds []).mono ?_
  intro text values h
  obtain ⟨further, hrepeated, rfl⟩ := h
  exact hrepeated.mono And.left

/-- A loop over a class of characters gives the characters it has read. -/
theorem yields_many_expecting (wanted : Expectation) (test : Char → Bool) :
    (many (expecting wanted test)).Yields fun text values =>
      values = text ∧ ∀ ch ∈ text, test ch = true := by
  refine (yields_expecting wanted test).many.mono ?_
  intro text values hrepeated
  induction hrepeated with
  | nil => exact ⟨rfl, fun ch hch => absurd hch List.not_mem_nil⟩
  | cons hfirst _ ih =>
      obtain ⟨rfl, htest⟩ := hfirst
      obtain ⟨rfl, hrest⟩ := ih
      exact ⟨rfl, List.forall_mem_cons.mpr ⟨htest, hrest⟩⟩

theorem blames_many (p : Parser α) (M : Mark) (F : Blame) : p.many.Blames M F :=
  fun _ _ _ hrun => absurd hrun many_ne_failed

theorem Yields.many1 {p : Parser α} {A : Reading α} (hp : p.Yields A) :
    p.many1.Yields fun text values =>
      Reading.Repeated A text values ∧ values ≠ [] := by
  refine (hp.andThen fun first => hp.many.map (first :: ·)).mono ?_
  intro text values h
  obtain ⟨first, a, second, rfl, hA, further, hrepeated, rfl⟩ := h
  exact ⟨.cons hA hrepeated, List.cons_ne_nil _ _⟩

/-- One value or more fail as the first one does. -/
theorem Blames.many1 {p : Parser α} {F : Blame} (hp : p.Blames M F) : p.many1.Blames M F := by
  intro c failure hc hrun
  exact hp hc (many1_eq_failed_iff.mp hrun)

theorem Yields.separatedRound {p : Parser α} {separator : Parser β} {A : Reading α}
    {B : Reading β} (hp : p.Yields A) (hseparator : separator.Yields B) :
    RoundYields (separatedRound p separator) (B.SkipThen A) := by
  intro c n value hc hrun
  obtain ⟨b, m, hb, ha⟩ := separatedRound_eq_again_iff.mp hrun
  obtain ⟨first, hfirst, hB⟩ := hseparator hc hb
  obtain ⟨second, hsecond, hA⟩ := hp (hfirst.placed hc) ha
  exact ⟨first ++ second, hfirst.trans hsecond, first, b, second, rfl, hB, hA⟩

theorem Blames.separatedRound {p : Parser α} {separator : Parser β} {F : Blame} {B : Reading β}
    (hp : p.Blames M F) (hseparator : separator.Yields B) :
    RoundBlames (separatedRound p separator) M (Blame.after B fun _ => F) := by
  intro c failure hc hrun
  obtain ⟨b, m, hb, hfailed⟩ := separatedRound_eq_failed_iff.mp hrun
  obtain ⟨first, hfirst, hB⟩ := hseparator hc hb
  obtain ⟨second, d, hsecond, hat, hF⟩ := hp (hfirst.placed hc) hfailed
  exact ⟨first ++ second, d, hfirst.trans hsecond, hat, first, b, second, rfl, hB, hF⟩

theorem Yields.separatedList {p : Parser α} {separator : Parser β} {A : Reading α}
    {B : Reading β} (hp : p.Yields A) (hseparator : separator.Yields B) :
    (p.separatedList separator).Yields
      (A.Then fun a text values =>
        ∃ further, Reading.Repeated (B.SkipThen A) text further ∧ values = a :: further) :=
  hp.andThen fun a => (hp.separatedRound hseparator).rounds [a]

theorem Blames.separatedList {p : Parser α} {separator : Parser β} {A : Reading α}
    {B : Reading β} {F : Blame} (hyields : p.Yields A) (hblames : p.Blames M F)
    (hseparator : separator.Yields B) :
    (p.separatedList separator).Blames M fun text cause =>
      F text cause ∨
        Blame.after A (fun _ => Blame.after (Reading.Repeated (B.SkipThen A)) fun _ =>
          Blame.after B fun _ => F) text cause :=
  Blames.andThen hyields hblames fun a =>
    RoundBlames.rounds (hyields.separatedRound hseparator) (hblames.separatedRound hseparator) [a]

end Parser

end JsonGrammar
