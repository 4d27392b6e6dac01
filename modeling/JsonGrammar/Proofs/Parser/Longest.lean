import Mathlib.Data.List.TakeWhile
import JsonGrammar.Proofs.Parser.Runs
import JsonGrammar.Proofs.Parser.Settling

/-!
# Parsers that take the longest text

`p.Longest A` says that `p` succeeds wherever a text of the class `A` stands,
and reads a text of the class that begins with it.  Since a run has but one
outcome, what it reads is the longest such text (`Longest.length_le`).

A pair takes the longest text if its halves do and no text of the first class
goes on as a text of the second begins: a longer first half then leaves nothing
of the second half behind (`Longest.pair`).
-/

namespace JsonGrammar

/-- Texts of two classes one behind the other. -/
def Behind (A B : List Char → Prop) : List Char → Prop := fun text =>
  ∃ first second, text = first ++ second ∧ A first ∧ B second

/-- No text of the first class can be made longer by a character that a text of
the second class begins with. -/
def Apart (A B : List Char → Prop) : Prop :=
  ∀ ⦃first more second : List Char⦄ ⦃ch : Char⦄, A first → A (first ++ ch :: more) →
    ¬ B (ch :: second)

/-- A single character is not made longer. -/
theorem apart_single (test : Char → Bool) (B : List Char → Prop) :
    Apart (fun text => ∃ ch, text = [ch] ∧ test ch = true) B := by
  intro first more second ch hfirst hmore _
  obtain ⟨_, rfl, -⟩ := hfirst
  obtain ⟨_, hmore, -⟩ := hmore
  simp at hmore

/-- Classes are apart where no character of the first can begin the second. -/
theorem apart_of_characters {A B : List Char → Prop} {P : Char → Prop}
    (hA : ∀ text, A text → ∀ ch ∈ text, P ch) (hB : ∀ ch text, B (ch :: text) → ¬ P ch) :
    Apart A B := by
  intro first more second ch _ hmore hsecond
  exact hB ch second hsecond (hA _ hmore ch (by simp))

/-- A text begins with a run of a class that is over. -/
theorem exists_run (test : Char → Bool) (text : List Char) :
    ∃ run rest, text = run ++ rest ∧ (∀ ch ∈ run, test ch = true) ∧ Ends test rest := by
  refine ⟨_, _, List.takeWhile_append_dropWhile.symm, fun ch hch => List.mem_takeWhile_imp hch, ?_⟩
  intro ch hch
  have hnot := List.head?_dropWhile_not test text
  rw [Option.mem_def.mp hch] at hnot
  simpa using hnot

namespace Parser

variable {α β : Type}

/-- Where a text of the class stands the parser reads one of the class that
begins with it. -/
def Longest (p : Parser α) (A : List Char → Prop) : Prop :=
  ∀ ⦃c : Cursor⦄ ⦃text : List Char⦄, c.Placed → A text → text <+: c.rest →
    ∃ longer a n, A longer ∧ text <+: longer ∧ c.Reads longer n ∧ p c = .done a n

section

variable {p : Parser α} {q : Parser β} {A B : List Char → Prop}

/-- No text of the class is longer than what is read. -/
theorem Longest.length_le (hp : p.Longest A) {c n : Cursor} {a : α} {longest text : List Char}
    (hc : c.Placed) (hrun : p c = .done a n) (hreads : c.Reads longest n) (htext : A text)
    (hstands : text <+: c.rest) : text.length ≤ longest.length := by
  obtain ⟨longer, a', n', -, hle, hreads', hrun'⟩ := hp hc htext hstands
  obtain ⟨rfl, rfl⟩ := Outcome.done.inj (hrun.symm.trans hrun')
  rw [hreads.passed_unique hreads']
  exact hle.length_le

theorem Longest.congr (hp : p.Longest A) (hiff : ∀ text, A text ↔ B text) : p.Longest B := by
  intro c text hc htext hstands
  obtain ⟨longer, a, n, hlonger, hrun⟩ := hp hc ((hiff text).mpr htext) hstands
  exact ⟨longer, a, n, (hiff longer).mp hlonger, hrun⟩

theorem Longest.map (hp : p.Longest A) (f : α → β) : (p.map f).Longest A := by
  intro c text hc htext hstands
  obtain ⟨longer, a, n, hlonger, hle, hreads, hrun⟩ := hp hc htext hstands
  exact ⟨longer, f a, n, hlonger, hle, hreads, map_eq_done_iff.mpr ⟨a, hrun, rfl⟩⟩

theorem Longest.skip (hp : p.Longest A) : p.skip.Longest A :=
  hp.map fun _ => ()

/-- Two parsers take the longest text together where the longest first half is
as good as any. -/
theorem Longest.pair (hp : p.Longest A) (hq : q.Longest B) (hapart : Apart A B) :
    (p.pair q).Longest (Behind A B) := by
  intro c text hc htext hstands
  obtain ⟨first, second, rfl, hfirst, hsecond⟩ := htext
  obtain ⟨rest, hrest⟩ := hstands
  rw [List.append_assoc] at hrest
  obtain ⟨longer, a, m, hlonger, ⟨more, rfl⟩, hreads, hrun⟩ := hp hc hfirst ⟨_, hrest⟩
  have hbehind : second ++ rest = more ++ m.rest := by
    have hboth := hrest.trans hreads.rest_eq
    rwa [List.append_assoc, List.append_cancel_left_eq] at hboth
  have hpair : ∀ {second' b n}, B second' → m.Reads second' n → q m = .done b n →
      first ++ second <+: first ++ more ++ second' →
        ∃ longer v n, Behind A B longer ∧ first ++ second <+: longer ∧ c.Reads longer n ∧
          p.pair q c = .done v n := by
    intro second' b n hsecond' hreads' hrun' hle
    refine ⟨_, (a, b), n, ⟨_, second', rfl, hlonger, hsecond'⟩, hle, hreads.trans hreads', ?_⟩
    exact andThen_eq_done_iff.mpr ⟨a, m, hrun, map_eq_done_iff.mpr ⟨b, hrun', rfl⟩⟩
  cases more with
  | nil =>
      -- The first half is as it was, and the second stands behind it.
      obtain ⟨second', b, n, hsecond', hle, hreads', hrun'⟩ :=
        hq (hreads.placed hc) hsecond ⟨rest, hbehind⟩
      refine hpair hsecond' hreads' hrun' ?_
      rw [List.append_nil]
      exact (List.prefix_append_right_inj first).mpr hle
  | cons ch more =>
      cases second with
      | nil =>
          obtain ⟨second', b, n, hsecond', -, hreads', hrun'⟩ :=
            hq (hreads.placed hc) hsecond List.nil_prefix
          refine hpair hsecond' hreads' hrun' ?_
          rw [List.append_nil, List.append_assoc]
          exact List.prefix_append _ _
      | cons ch' second =>
          obtain rfl : ch' = ch := (List.cons.inj hbehind).1
          exact absurd hsecond (hapart hfirst hlonger)

/-- An option takes the longest text or nothing. -/
theorem Longest.optional (hp : p.Longest A) (hyields : p.Yields fun text _ => A text)
    (hsettles : p.Settles) : p.optional.Longest fun text => text = [] ∨ A text := by
  intro c text hc htext hstands
  rcases htext with rfl | htext
  · cases hrun : p c with
    | done a n =>
        obtain ⟨longer, hreads, hlonger⟩ := hyields hc hrun
        exact ⟨longer, some a, n, Or.inr hlonger, List.nil_prefix, hreads,
          orElse_eq_done_iff.mpr (Or.inl (map_eq_done_iff.mpr ⟨a, hrun, rfl⟩))⟩
    | failed failure =>
        refine ⟨[], none, c, Or.inl rfl, List.nil_prefix, .refl c, ?_⟩
        exact orElse_eq_done_iff.mpr (Or.inr ⟨⟨failure, map_eq_failed_iff.mpr hrun⟩, rfl⟩)
    | stuck => exact absurd hrun (hsettles.ne_stuck hc)
  · obtain ⟨longer, a, n, hlonger, hle, hreads, hrun⟩ := hp hc htext hstands
    exact ⟨longer, some a, n, Or.inr hlonger, hle, hreads,
      orElse_eq_done_iff.mpr (Or.inl (map_eq_done_iff.mpr ⟨a, hrun, rfl⟩))⟩

end

/-! ## Characters -/

theorem longest_expecting (wanted : Expectation) (test : Char → Bool) :
    (expecting wanted test).Longest fun text => ∃ ch, text = [ch] ∧ test ch = true := by
  intro c text hc htext hstands
  obtain ⟨ch, rfl, htest⟩ := htext
  obtain ⟨rest, hrest⟩ := hstands
  exact ⟨[ch], ch, _, ⟨ch, rfl, htest⟩, List.prefix_rfl, Cursor.reads_advance hrest.symm,
    expecting_of_rest hrest.symm htest⟩

/-- A loop over a class of characters takes the longest run of them. -/
theorem longest_many_expecting (wanted : Expectation) (test : Char → Bool) :
    (many (expecting wanted test)).Longest fun text => ∀ ch ∈ text, test ch = true := by
  intro c text hc htext hstands
  obtain ⟨rest, hrest⟩ := hstands
  obtain ⟨run, behind, hrun, hall, hends⟩ := exists_run test rest
  have hlonger : ∀ ch ∈ text ++ run, test ch = true := by
    intro ch hch
    exact (List.mem_append.mp hch).elim (htext ch) (hall ch)
  have hsplit : c.rest = text ++ run ++ behind := by
    rw [← hrest, hrun, List.append_assoc]
  exact ⟨text ++ run, _, _, hlonger, List.prefix_append _ _, Cursor.reads_advance hsplit,
    consumes_many wanted hlonger hends hc hsplit⟩

theorem longest_many1_expecting (wanted : Expectation) (test : Char → Bool) :
    (many1 (expecting wanted test)).Longest fun text =>
      (∀ ch ∈ text, test ch = true) ∧ text ≠ [] := by
  intro c text hc htext hstands
  obtain ⟨hrun, hne⟩ := htext
  obtain ⟨ch, text, rfl⟩ := List.exists_cons_of_ne_nil hne
  obtain ⟨hch, htext⟩ := List.forall_mem_cons.mp hrun
  obtain ⟨rest, hrest⟩ := hstands
  have hfirst : c.Reads [ch] (c.advance [ch]) := Cursor.reads_advance hrest.symm
  have hthen : text <+: (c.advance [ch]).rest :=
    ⟨rest, (Cursor.rest_advance_of_eq (show c.rest = [ch] ++ (text ++ rest) from hrest.symm)).symm⟩
  obtain ⟨longer, values, n, hlonger, hle, hreads, hmany⟩ :=
    longest_many_expecting wanted test (hfirst.placed hc) htext hthen
  refine ⟨[ch] ++ longer, ch :: values, n,
    ⟨List.forall_mem_cons.mpr ⟨hch, hlonger⟩, List.cons_ne_nil _ _⟩,
    (List.prefix_append_right_inj [ch]).mpr hle, hfirst.trans hreads, ?_⟩
  exact andThen_eq_done_iff.mpr
    ⟨ch, _, expecting_of_rest hrest.symm hch, map_eq_done_iff.mpr ⟨values, hmany, rfl⟩⟩

end Parser

end JsonGrammar
