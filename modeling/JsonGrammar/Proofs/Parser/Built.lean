import JsonGrammar.Proofs.Rule.Placement

/-!
# Parsers that can be built

`Built p` says that `p` is put together, to any nesting, from the parsers for
characters, the combinators, the rules of the grammar and closures.  Of a
closure it is asked that it keeps its place, of a changed failure that it is
blamed on the cursor where the changed parser began.

Every built parser keeps its place (`Built.keepsPlace`), by one case for each
way to build one.  `Built.run_reached` spells out what that means for the
fields of the cursors and failures that its runs end with.
-/

namespace JsonGrammar

open JsonGrammar.Parser

/-- The parsers that can be built from the library's own and from closures. -/
inductive Built : {α : Type} → Parser α → Prop where
  | closure {α : Type} {p : Parser α} (hp : p.KeepsPlace) : Built p
  -- Parsers for characters
  | anyChar : Built anyChar
  | char (wanted : Char) : Built (char wanted)
  | satisfy (test : Char → Bool) (description : String) : Built (satisfy test description)
  | endOfInput : Built endOfInput
  | literal (text : String) : Built (literal text)
  | whitespace : Built whitespace
  -- Combinators
  | map {α β : Type} {p : Parser α} (hp : Built p) (f : α → β) : Built (p.map f)
  | andThen {α β : Type} {p : Parser α} {continuation : α → Parser β} (hp : Built p)
      (hcontinuation : ∀ a, Built (continuation a)) : Built (p.andThen continuation)
  | orElse {α : Type} {p q : Parser α} (hp : Built p) (hq : Built q) : Built (p.orElse q)
  | pair {α β : Type} {p : Parser α} {q : Parser β} (hp : Built p) (hq : Built q) :
      Built (p.pair q)
  | inTurn {α : Type} {ps : List (Parser α)} (hps : ∀ p ∈ ps, Built p) : Built (inTurn ps)
  | many {α : Type} {p : Parser α} (hp : Built p) : Built p.many
  | many1 {α : Type} {p : Parser α} (hp : Built p) : Built p.many1
  | optional {α : Type} {p : Parser α} (hp : Built p) : Built p.optional
  | separatedList {α β : Type} {p : Parser α} {separator : Parser β} (hp : Built p)
      (hseparator : Built separator) : Built (p.separatedList separator)
  | between {α β γ : Type} {opening : Parser α} {content : Parser β} {closing : Parser γ}
      (hopening : Built opening) (hcontent : Built content) (hclosing : Built closing) :
      Built (between opening content closing)
  | mapFailure {α : Type} {p : Parser α} {f : Cursor → Failure → Failure} (hp : Built p)
      (hf : ∀ c failure, (f c failure).At c) : Built fun c => p.mapFailure (f c) c
  | withSpan {α : Type} {p : Parser α} (hp : Built p) : Built p.withSpan
  -- Rules of the grammar
  | null : Built Rule.null
  | boolean : Built Rule.boolean
  | number : Built Rule.number
  | stringLiteral : Built Rule.stringLiteral
  | array (limits : Limits) : Built (Rule.array limits)
  | object (limits : Limits) : Built (Rule.object limits)
  | value (limits : Limits) : Built (Rule.value limits)
  | document (limits : Limits) : Built (Rule.document limits)

theorem Built.keepsPlace {α : Type} {p : Parser α} (hp : Built p) : p.KeepsPlace := by
  induction hp with
  | closure hp => exact hp
  | anyChar => exact keepsPlace_expecting _ _
  | char wanted => exact keepsPlace_expecting _ _
  | satisfy test description => exact keepsPlace_expecting _ _
  | endOfInput => exact keepsPlace_endOfInput
  | literal text => exact keepsPlace_literal text
  | whitespace => exact keepsPlace_whitespace
  | map _ f ih => exact ih.map f
  | andThen _ _ ih ihcontinuation => exact ih.andThen ihcontinuation
  | orElse _ _ ihp ihq => exact ihp.orElse ihq
  | pair _ _ ihp ihq => exact ihp.pair ihq
  | inTurn _ ih => exact keepsPlace_inTurn ih
  | many _ ih => exact ih.many
  | many1 _ ih => exact ih.many1
  | optional _ ih => exact ih.optional
  | separatedList _ _ ih ihseparator => exact ih.separatedList ihseparator
  | between _ _ _ ihopening ihcontent ihclosing => exact ihopening.between ihcontent ihclosing
  | mapFailure _ hf ih => exact ih.mapFailure hf
  | withSpan _ ih => exact ih.withSpan
  | null => exact Rule.keepsPlace_null
  | boolean => exact Rule.keepsPlace_boolean
  | number => exact Rule.keepsPlace_number
  | stringLiteral => exact Rule.keepsPlace_stringLiteral
  | array limits => exact Rule.keepsPlace_array limits
  | object limits => exact Rule.keepsPlace_object limits
  | value limits => exact Rule.keepsPlace_value limits
  | document limits => exact Rule.keepsPlace_document limits

/-- A run of a built parser from a reached cursor ends at a reached cursor that
is not before it, or fails between it and the end.  Reached cursors are known
by their positions. -/
theorem Built.run_reached {α : Type} {p : Parser α} (hp : Built p) {source : String} {c : Cursor}
    (hc : Cursor.Reached source c) :
    (∀ value n, p c = .done value n →
      Cursor.Reached source n ∧ n.source = source ∧
        c.position ≤ n.position ∧ n.position ≤ source.length ∧
        n.byteOffset = (String.ofList (source.toList.take n.position)).utf8ByteSize ∧
        n.restText = String.ofList (source.toList.drop n.position) ∧
        (n.isAtEnd = true ↔ n.position = source.length)) ∧
    (∀ failure, p c = .failed failure →
      failure.location.text = source ∧
        c.position ≤ failure.position ∧ failure.position ≤ source.length) ∧
    ∀ d, Cursor.Reached source d → (c = d ↔ c.position = d.position) := by
  have hstays := hp.keepsPlace hc.standsIn
  refine ⟨fun value n hrun => ?_, fun failure hrun => ?_, fun d hd => ⟨?_, ?_⟩⟩
  · rw [hrun] at hstays
    obtain ⟨hn, hle⟩ := hstays
    exact ⟨Cursor.reached_iff_standsIn.mpr hn, hn.source_eq, hle, hn.position_le,
      hn.byteOffset_eq, hn.restText_eq, hn.isAtEnd_iff⟩
  · rw [hrun] at hstays
    exact hstays
  · intro heq
    subst heq
    rfl
  · exact hc.standsIn.eq_of_position_eq hd.standsIn

/-- Behind one accented letter, a span over the letters that are left ends with
both counters at the end of the text. -/
theorem run_reached_accents :
    ∃ value n,
      withSpan (many (char 'é')) ((Cursor.start "éé").advance ['é']) = .done value n ∧
        n.position = 2 ∧ n.byteOffset = 4 ∧ (n.isAtEnd = true ↔ n.position = "éé".length) := by
  have hfirst : (Cursor.start "éé").next? = some ('é', (Cursor.start "éé").advance ['é']) :=
    Cursor.next?_eq_some_iff.mpr
      (Cursor.reads_advance (show (Cursor.start "éé").rest = ['é'] ++ ['é'] by decide))
  have hc : Cursor.Reached "éé" ((Cursor.start "éé").advance ['é']) := .next .start hfirst
  have hrun : withSpan (many (char 'é')) ((Cursor.start "éé").advance ['é']) =
      .done (['é'], { start := 1, stop := 2, text := "é" })
        { source := "éé", position := 2, byteOffset := 4, rest := [] } := by
    decide +kernel
  have hp : Built (withSpan (many (char 'é'))) := .withSpan (.many (.char 'é'))
  obtain ⟨-, -, -, -, -, -, hend⟩ := (hp.run_reached hc).1 _ _ hrun
  exact ⟨_, _, hrun, rfl, rfl, hend⟩

end JsonGrammar
