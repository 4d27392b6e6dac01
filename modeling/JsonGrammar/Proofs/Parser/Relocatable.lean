import JsonGrammar.Proofs.Cursor.Reached
import JsonGrammar.Proofs.Rule.Coupling

/-!
# Parsers that do not depend on where they start

`Relocatable p` says that `p` is put together, to any nesting, from the parsers
for characters, the combinators, the rules of the grammar and closures that
look at nothing but the rest.  Spans and changed failures are left out, since
both may hold absolute positions.

Every relocatable parser relocates (`Relocatable.relocates`).  What that means
for a run behind the front of a source is that the rest alone, as a source of
its own, gives the same run (`Relocatable.parse_restText`).
-/

namespace JsonGrammar

open JsonGrammar.Parser

/-- The parsers that are built from the library's own and from closures on the
rest, without spans and changed failures. -/
inductive Relocatable : {α : Type} → Parser α → Prop where
  | closure {α : Type} (decide : List Char → Verdict α) : Relocatable (byRest decide)
  -- Parsers for characters
  | anyChar : Relocatable anyChar
  | char (wanted : Char) : Relocatable (char wanted)
  | satisfy (test : Char → Bool) (description : String) : Relocatable (satisfy test description)
  | endOfInput : Relocatable endOfInput
  | literal (text : String) : Relocatable (literal text)
  | whitespace : Relocatable whitespace
  -- Combinators
  | map {α β : Type} {p : Parser α} (hp : Relocatable p) (f : α → β) : Relocatable (p.map f)
  | andThen {α β : Type} {p : Parser α} {continuation : α → Parser β} (hp : Relocatable p)
      (hcontinuation : ∀ a, Relocatable (continuation a)) : Relocatable (p.andThen continuation)
  | orElse {α : Type} {p q : Parser α} (hp : Relocatable p) (hq : Relocatable q) :
      Relocatable (p.orElse q)
  | pair {α β : Type} {p : Parser α} {q : Parser β} (hp : Relocatable p) (hq : Relocatable q) :
      Relocatable (p.pair q)
  | inTurn {α : Type} {ps : List (Parser α)} (hps : ∀ p ∈ ps, Relocatable p) :
      Relocatable (inTurn ps)
  | many {α : Type} {p : Parser α} (hp : Relocatable p) : Relocatable p.many
  | many1 {α : Type} {p : Parser α} (hp : Relocatable p) : Relocatable p.many1
  | optional {α : Type} {p : Parser α} (hp : Relocatable p) : Relocatable p.optional
  | separatedList {α β : Type} {p : Parser α} {separator : Parser β} (hp : Relocatable p)
      (hseparator : Relocatable separator) : Relocatable (p.separatedList separator)
  | between {α β γ : Type} {opening : Parser α} {content : Parser β} {closing : Parser γ}
      (hopening : Relocatable opening) (hcontent : Relocatable content)
      (hclosing : Relocatable closing) : Relocatable (between opening content closing)
  -- Rules of the grammar
  | null : Relocatable Rule.null
  | boolean : Relocatable Rule.boolean
  | number : Relocatable Rule.number
  | stringLiteral : Relocatable Rule.stringLiteral
  | array (limits : Limits) : Relocatable (Rule.array limits)
  | object (limits : Limits) : Relocatable (Rule.object limits)
  | value (limits : Limits) : Relocatable (Rule.value limits)
  | document (limits : Limits) : Relocatable (Rule.document limits)

theorem Relocatable.relocates {α : Type} {p : Parser α} (hp : Relocatable p) : p.Relocates := by
  induction hp with
  | closure decide => exact relocates_byRest decide
  | anyChar => exact relocates_expecting _ _
  | char wanted => exact relocates_expecting _ _
  | satisfy test description => exact relocates_expecting _ _
  | endOfInput => exact relocates_endOfInput
  | literal text => exact relocates_literal text
  | whitespace => exact relocates_whitespace
  | map _ f ih => exact ih.map f
  | andThen _ _ ih ihcontinuation => exact ih.andThen ihcontinuation
  | orElse _ _ ihp ihq => exact ihp.orElse ihq
  | pair _ _ ihp ihq => exact ihp.pair ihq
  | inTurn _ ih => exact relocates_inTurn ih
  | many _ ih => exact ih.many
  | many1 _ ih => exact ih.many1
  | optional _ ih => exact ih.optional
  | separatedList _ _ ih ihseparator => exact ih.separatedList ihseparator
  | between _ _ _ ihopening ihcontent ihclosing => exact ihopening.between ihcontent ihclosing
  | null => exact Rule.relocates_null
  | boolean => exact Rule.relocates_boolean
  | number => exact Rule.relocates_number
  | stringLiteral => exact Rule.relocates_stringLiteral
  | array limits => exact Rule.relocates_array limits
  | object limits => exact Rule.relocates_object limits
  | value limits => exact Rule.relocates_valueWithin _ _
  | document limits => exact Rule.relocates_document limits

/-- A run from a reached cursor and a run on the rest of it alone succeed with
the same value and the same rest, or fail with the same message.  The counters
of the first are larger by those of the cursor. -/
theorem Relocatable.parse_restText {α : Type} {p : Parser α} (hp : Relocatable p)
    {source : String} {c : Cursor} (hc : Cursor.Reached source c) :
    (∀ value n, p c = .done value n →
      ∃ m, parse p c.restText = .done value m ∧ n.restText = m.restText ∧
        n.position = m.position + c.position ∧ n.byteOffset = m.byteOffset + c.byteOffset) ∧
    (∀ failure, p c = .failed failure →
      ∃ alone, parse p c.restText = .failed alone ∧ failure.message = alone.message ∧
        failure.position = alone.position + c.position) ∧
    (p c = .stuck ↔ parse p c.restText = .stuck) := by
  have hrest : c.rest = (Cursor.start c.restText).rest := by
    rw [Cursor.start, Cursor.restText, String.toList_ofList]
  have hrun := hp.relocates.run hc.standsIn.placed (Cursor.placed_start _) hrest
  unfold parse
  generalize p c = first at hrun
  generalize p (Cursor.start c.restText) = second at hrun
  cases hrun with
  | @done a n m hnext =>
      have hcounters := hnext.counters
      refine ⟨fun value n' hdone => ?_, fun _ hfailed => absurd hfailed (by simp), by simp⟩
      obtain ⟨rfl, rfl⟩ := Outcome.done.inj hdone
      refine ⟨m, rfl, ?_, by simpa [Cursor.start] using hcounters.1,
        by simpa [Cursor.start] using hcounters.2⟩
      rw [Cursor.restText, Cursor.restText, hnext.rest_eq_next]
  | @failed failure alone hfailures =>
      obtain ⟨hcause, n, m, hnext, hn, hm⟩ := hfailures
      refine ⟨fun _ _ hdone => absurd hdone (by simp), fun failure' hfailed => ?_, by simp⟩
      obtain rfl := Outcome.failed.inj hfailed
      refine ⟨alone, rfl, by rw [Failure.message, hcause, Failure.message], ?_⟩
      rw [hn.position_eq, hm.position_eq]
      simpa [Cursor.start] using hnext.counters.1
  | outrun hfalse => exact hfalse.elim
  | stuck => simp

/-- Behind a letter of two bytes an array is read as at the front of a text, and
a number behind the array fails there with the same message. -/
theorem parse_restText_accents :
    let c := (Cursor.start "é[\"ü\"]-x").advance ['é']
    (∃ value n m, Rule.array { maxDepth := 1 } c = .done value n ∧
      parse (Rule.array { maxDepth := 1 }) "[\"ü\"]-x" = .done value m ∧
        n.position = m.position + 1 ∧ n.byteOffset = m.byteOffset + 2) ∧
    ∃ failure alone, pair (Rule.array { maxDepth := 1 }) Rule.number c = .failed failure ∧
      parse (pair (Rule.array { maxDepth := 1 }) Rule.number) "[\"ü\"]-x" = .failed alone ∧
        failure.message = alone.message ∧ failure.position = 7 ∧ alone.position = 6 := by
  intro c
  have hsource : (Cursor.start "é[\"ü\"]-x").rest = ['é'] ++ "[\"ü\"]-x".toList := by
    decide
  have hc : Cursor.Reached "é[\"ü\"]-x" c :=
    Cursor.Reached.start.reads (Cursor.reads_advance hsource)
  have hrest : c.restText = "[\"ü\"]-x" := by
    rw [Cursor.restText, Cursor.rest_advance_of_eq hsource, String.ofList_toList]
  have harray := (Relocatable.array { maxDepth := 1 }).parse_restText hc
  have hpair := ((Relocatable.array { maxDepth := 1 }).pair .number).parse_restText hc
  rw [hrest] at harray hpair
  constructor
  · have hrun : Rule.array { maxDepth := 1 } ((Cursor.start "é[\"ü\"]-x").advance ['é']) =
        .done (.array [.string "ü"])
          { source := "é[\"ü\"]-x", position := 6, byteOffset := 8, rest := ['-', 'x'] } := by
      decide +kernel
    obtain ⟨m, hdone, -, hposition, hbytes⟩ := harray.1 _ _ hrun
    exact ⟨_, _, m, hrun, hdone, hposition, hbytes⟩
  · have hrun : pair (Rule.array { maxDepth := 1 }) Rule.number
        ((Cursor.start "é[\"ü\"]-x").advance ['é']) =
        .failed
          { cause := .unexpected (.member "digit") (some 'x')
            location := { text := "é[\"ü\"]-x", position := 7 } } := by
      decide +kernel
    obtain ⟨alone, hfailed, hmessage, hposition⟩ := hpair.2.1 _ hrun
    exact ⟨_, alone, hrun, hfailed, hmessage, rfl, Nat.succ.inj hposition.symm⟩

end JsonGrammar
