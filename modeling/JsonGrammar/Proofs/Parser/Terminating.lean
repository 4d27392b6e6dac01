import JsonGrammar.Proofs.Cursor.Reached
import JsonGrammar.Proofs.Rule.Settling

/-!
# Parsers that terminate

`Terminating p` says that `p` is put together, to any nesting, from the parsers
for characters, the combinators, the rules of the grammar and closures.  Of a
closure it is asked that its runs end and never go back, of a list with
separators that its items or its separators are never empty.  Failures may be
changed in any way.

Every run of such a parser ends (`Terminating.halts`).  What that takes is
counted in `Terminating.run_ends`: a loop tries its parser at most once more
than characters are left.
-/

namespace JsonGrammar

open JsonGrammar.Parser

/-- The parsers built from the library's own and from closures, where no list
can go round without reading. -/
inductive Terminating : {α : Type} → Parser α → Prop where
  | closure {α : Type} {p : Parser α} (hp : p.Halts) : Terminating p
  -- Parsers for characters
  | anyChar : Terminating anyChar
  | char (wanted : Char) : Terminating (char wanted)
  | satisfy (test : Char → Bool) (description : String) : Terminating (satisfy test description)
  | endOfInput : Terminating endOfInput
  | literal (text : String) : Terminating (literal text)
  | whitespace : Terminating whitespace
  -- Combinators
  | map {α β : Type} {p : Parser α} (hp : Terminating p) (f : α → β) : Terminating (p.map f)
  | andThen {α β : Type} {p : Parser α} {continuation : α → Parser β} (hp : Terminating p)
      (hcontinuation : ∀ a, Terminating (continuation a)) : Terminating (p.andThen continuation)
  | orElse {α : Type} {p q : Parser α} (hp : Terminating p) (hq : Terminating q) :
      Terminating (p.orElse q)
  | pair {α β : Type} {p : Parser α} {q : Parser β} (hp : Terminating p) (hq : Terminating q) :
      Terminating (p.pair q)
  | inTurn {α : Type} {ps : List (Parser α)} (hps : ∀ p ∈ ps, Terminating p) :
      Terminating (inTurn ps)
  | many {α : Type} {p : Parser α} (hp : Terminating p) : Terminating p.many
  | many1 {α : Type} {p : Parser α} (hp : Terminating p) : Terminating p.many1
  | optional {α : Type} {p : Parser α} (hp : Terminating p) : Terminating p.optional
  | separatedList {α β : Type} {p : Parser α} {separator : Parser β} (hp : Terminating p)
      (hseparator : Terminating separator) (hconsuming : p.Consuming ∨ separator.Consuming) :
      Terminating (p.separatedList separator)
  | between {α β γ : Type} {opening : Parser α} {content : Parser β} {closing : Parser γ}
      (hopening : Terminating opening) (hcontent : Terminating content)
      (hclosing : Terminating closing) : Terminating (between opening content closing)
  | mapFailure {α : Type} {p : Parser α} (hp : Terminating p) (f : Cursor → Failure → Failure) :
      Terminating fun c => p.mapFailure (f c) c
  | withSpan {α : Type} {p : Parser α} (hp : Terminating p) : Terminating p.withSpan
  -- Rules of the grammar
  | null : Terminating Rule.null
  | boolean : Terminating Rule.boolean
  | number : Terminating Rule.number
  | stringLiteral : Terminating Rule.stringLiteral
  | array (limits : Limits) : Terminating (Rule.array limits)
  | object (limits : Limits) : Terminating (Rule.object limits)
  | value (limits : Limits) : Terminating (Rule.value limits)
  | document (limits : Limits) : Terminating (Rule.document limits)

theorem Terminating.halts {α : Type} {p : Parser α} (hp : Terminating p) : p.Halts := by
  induction hp with
  | closure hp => exact hp
  | anyChar => exact halts_expecting _ _
  | char wanted => exact halts_expecting _ _
  | satisfy test description => exact halts_expecting _ _
  | endOfInput => exact halts_endOfInput
  | literal text => exact halts_literal text
  | whitespace => exact halts_whitespace
  | map _ f ih => exact ih.map f
  | andThen _ _ ih ihcontinuation => exact ih.andThen ihcontinuation
  | orElse _ _ ihp ihq => exact ihp.orElse ihq
  | pair _ _ ihp ihq => exact ihp.pair ihq
  | inTurn _ ih => exact halts_inTurn ih
  | many _ ih => exact ih.many
  | many1 _ ih => exact ih.many1
  | optional _ ih => exact ih.optional
  | separatedList _ _ hconsuming ih ihseparator => exact ih.separatedList ihseparator hconsuming
  | between _ _ _ ihopening ihcontent ihclosing => exact ihopening.between ihcontent ihclosing
  | mapFailure _ f ih => exact ih.mapFailure f
  | withSpan _ ih => exact ih.withSpan
  | null => exact Rule.settles_null.halts
  | boolean => exact Rule.settles_boolean.halts
  | number => exact Rule.settles_number.halts
  | stringLiteral => exact Rule.settles_stringLiteral.halts
  | array limits => exact (Rule.settles_array limits).halts
  | object limits => exact (Rule.settles_object limits).halts
  | value limits => exact (Rule.settles_value limits).halts
  | document limits => exact (Rule.settles_document limits).halts

/-- Wherever a source has been read up to, the run of a terminating parser ends.
Where `many` of it has so many characters left, it tries the parser at most once
more than that, and a list completes at most so many rounds of a separator and
an item.  The loops that are counted ask nothing of their rounds and have the
outcomes of the parsers. -/
theorem Terminating.run_ends {α : Type} {p : Parser α} (hp : Terminating p) {source : String}
    {c : Cursor} (hc : Cursor.Reached source c) :
    p c ≠ .stuck ∧
    (∃ attempts, attempts ≤ c.rest.length + 1 ∧ ∀ count outcome,
      LoopRun (manyRound p) [] c count outcome ↔ count = attempts ∧ outcome = p.many c) ∧
    (∀ {β : Type} {separator : Parser β}, Terminating separator →
      p.Consuming ∨ separator.Consuming → ∀ first n, p c = .done first n →
        ∃ completed, completed ≤ c.rest.length ∧ ∀ count outcome,
          LoopRun (separatedRound p separator) [first] n count outcome ↔
            count = completed + 1 ∧ outcome = p.separatedList separator c) ∧
    ∀ limits : Limits,
      Rule.number c ≠ .stuck ∧ Rule.stringLiteral c ≠ .stuck ∧ Rule.array limits c ≠ .stuck ∧
        Rule.object limits c ≠ .stuck ∧ Rule.value limits c ≠ .stuck ∧
        Rule.document limits c ≠ .stuck := by
  have hplaced := hc.standsIn.placed
  have hends : ∀ {β : Type} {q : Parser β}, Terminating q → q c ≠ .stuck :=
    fun hq => hq.halts.ne_stuck hplaced
  refine ⟨hends hp, ?_, fun hseparator hconsuming first n hfirst => ?_, fun limits => ?_⟩
  · obtain ⟨completed, hle, hrun⟩ := hp.halts.many_loopRun hplaced
    exact ⟨completed + 1, Nat.succ_le_succ hle, hrun⟩
  · obtain ⟨text, hreads, -⟩ := hp.halts.yields hplaced hfirst
    obtain ⟨completed, hle, hrun⟩ :=
      hp.halts.separatedList_loopRun hseparator.halts hconsuming hplaced hfirst
    refine ⟨completed, Nat.le_trans hle ?_, hrun⟩
    rw [hreads.rest_eq, List.length_append]
    exact Nat.le_add_left _ _
  · exact ⟨hends .number, hends .stringLiteral, hends (.array limits), hends (.object limits),
      hends (.value limits), hends (.document limits)⟩

/-- Behind an accented letter, runs of digits between commas, one of them empty:
two rounds go on, the third one stops, and six characters were left. -/
theorem run_ends_empty_item :
    let c := (Cursor.start "é1,,23x").advance ['é']
    let n : Cursor := { source := "é1,,23x", position := 6, byteOffset := 7, rest := ['x'] }
    separatedList Rule.digit.many (char ',') c = .done [['1'], [], ['2', '3']] n ∧
      ∃ completed, completed ≤ 6 ∧ completed = 2 ∧ ∀ count outcome,
        LoopRun (separatedRound Rule.digit.many (char ',')) [['1']] (c.advance ['1']) count
          outcome ↔
          count = completed + 1 ∧ outcome = separatedList Rule.digit.many (char ',') c := by
  intro c n
  have hsource : (Cursor.start "é1,,23x").rest = ['é'] ++ "1,,23x".toList := by
    decide
  have hc : Cursor.Reached "é1,,23x" c := Cursor.Reached.start.reads (Cursor.reads_advance hsource)
  have hitem : Terminating Rule.digit.many := .many (.satisfy Char.isDigit "digit")
  have hcomma : (char ',').Consuming := by
    refine (yields_char ',').mono fun text ch h => ?_
    rw [h]
    exact List.cons_ne_nil _ _
  have hfirst : Rule.digit.many c = .done ['1'] (c.advance ['1']) := by
    decide +kernel
  have hempty : separatedRound Rule.digit.many (char ',') (c.advance ['1']) =
      .again [] (c.advance ['1', ',']) := by
    decide +kernel
  have hdigits : separatedRound Rule.digit.many (char ',') (c.advance ['1', ',']) =
      .again ['2', '3'] n := by
    decide +kernel
  have hstop : separatedRound Rule.digit.many (char ',') n = .stop := by
    decide +kernel
  have hloop : LoopRun (separatedRound Rule.digit.many (char ',')) [['1']] (c.advance ['1']) 3
      (.done [['1'], [], ['2', '3']] n) :=
    .again hempty (.again hdigits (.stop hstop))
  obtain ⟨completed, hle, hrun⟩ :=
    (hitem.run_ends hc).2.2.1 (.char ',') (Or.inr hcomma) ['1'] (c.advance ['1']) hfirst
  obtain ⟨hcount, houtcome⟩ := (hrun 3 _).mp hloop
  exact ⟨houtcome.symm, completed, hle, by omega, hrun⟩

end JsonGrammar
