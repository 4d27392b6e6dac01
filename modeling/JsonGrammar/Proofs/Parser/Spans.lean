import JsonGrammar.Proofs.Grammar.Numbers
import JsonGrammar.Proofs.Parser.Backtracking
import JsonGrammar.Proofs.Parser.Built

/-!
# Spans

A span is cut out by bytes and measured in characters.  Between two cursors
reached over one source, the first not behind the second, the two agree: the
span exists, and its text is what stands between the cursors
(`Cursor.Reached.exists_covers`).

A parser that never goes back reaches such a cursor whenever it succeeds, and so
`withSpan` never fails where the parser succeeds.  `Assembled` collects the
parsers of which this is known because of how they are put together.  Nothing is
asked of the failures of these, and nothing of their lists.
-/

namespace JsonGrammar

open JsonGrammar.Parser

/-! ## Spans between reached cursors -/

/-- The span measures and holds what stands between two cursors: the slice of
the source between their byte offsets, and the part of the first rest that the
second one lacks. -/
structure Span.Covers (span : Span) (a b : Cursor) : Prop where
  slice_eq : ∃ before behind : String, a.source = before ++ span.text ++ behind ∧
    before.utf8ByteSize = a.byteOffset ∧ (before ++ span.text).utf8ByteSize = b.byteOffset
  start_le_stop : span.start ≤ span.stop
  length_eq : span.length = b.position - a.position
  length_text : span.text.length = span.length
  isEmpty_iff : span.isEmpty = true ↔ span.text = ""
  restText_eq : a.restText = span.text ++ b.restText

theorem Span.covers_of_reads {a b : Cursor} {text : List Char} (ha : a.Placed)
    (h : a.Reads text b) :
    Covers { start := a.position, stop := b.position, text := String.ofList text } a b where
  slice_eq := by
    obtain ⟨passed, hsource, -, hbytes⟩ := ha
    refine ⟨String.ofList passed, b.restText, ?_, ?_, ?_⟩
    · apply String.toList_inj.mp
      simp [Cursor.restText, hsource, h.rest_eq]
    · rw [← byteLength_toList, String.toList_ofList, hbytes]
    · rw [← byteLength_toList, ← String.ofList_append, String.toList_ofList, byteLength_append,
        h.byteOffset_eq, hbytes]
  start_le_stop := by
    rw [h.position_eq]
    exact Nat.le_add_right _ _
  length_eq := rfl
  length_text := by
    rw [String.length_ofList, length, h.position_eq, Nat.add_sub_cancel_left]
  isEmpty_iff := by
    rw [isEmpty, beq_iff_eq, String.ofList_eq_empty_iff, ← List.length_eq_zero_iff]
    show a.position = b.position ↔ text.length = 0
    have hposition := h.position_eq
    omega
  restText_eq := by
    rw [Cursor.restText, h.rest_eq, String.ofList_append]
    rfl

namespace Cursor

variable {source : String} {a b c : Cursor}

/-- Between reached cursors there is a span, which covers what was read from the
one to the other. -/
theorem Reached.exists_covers (ha : Reached source a) (hb : Reached source b)
    (hle : a.position ≤ b.position) :
    ∃ span, Span.between? a b = some span ∧ span.Covers a b := by
  obtain ⟨text, hreads⟩ := ha.standsIn.reads_of_le hb.standsIn hle
  exact ⟨_, between?_of_reads hreads, Span.covers_of_reads ha.standsIn.placed hreads⟩

end Cursor

/-- Spans one behind the other hold what the span over both of them holds. -/
theorem Span.Covers.text_append {ab bc ac : Span} {a b c : Cursor} (hab : ab.Covers a b)
    (hbc : bc.Covers b c) (hac : ac.Covers a c) : ac.text = ab.text ++ bc.text := by
  have htext : ac.text ++ c.restText = ab.text ++ bc.text ++ c.restText := by
    rw [← hac.restText_eq, hab.restText_eq, hbc.restText_eq, String.append_assoc]
  exact (String.append_left_inj c.restText).mp htext

/-! ## Parsers that never go back -/

/-- The parsers put together from those of the library and from closures that
never go back, with failures changed in any way. -/
inductive Assembled : {α : Type} → Parser α → Prop where
  /-- The parsers for characters and the rules of the grammar, among others. -/
  | built {α : Type} {p : Parser α} (hp : Built p) : Assembled p
  | closure {α : Type} {p : Parser α} (hp : p.MovesOn) : Assembled p
  | map {α β : Type} {p : Parser α} (hp : Assembled p) (f : α → β) : Assembled (p.map f)
  | andThen {α β : Type} {p : Parser α} {continuation : α → Parser β} (hp : Assembled p)
      (hcontinuation : ∀ a, Assembled (continuation a)) : Assembled (p.andThen continuation)
  | orElse {α : Type} {p q : Parser α} (hp : Assembled p) (hq : Assembled q) :
      Assembled (p.orElse q)
  | pair {α β : Type} {p : Parser α} {q : Parser β} (hp : Assembled p) (hq : Assembled q) :
      Assembled (p.pair q)
  | inTurn {α : Type} {ps : List (Parser α)} (hps : ∀ p ∈ ps, Assembled p) :
      Assembled (inTurn ps)
  | many {α : Type} {p : Parser α} (hp : Assembled p) : Assembled p.many
  | many1 {α : Type} {p : Parser α} (hp : Assembled p) : Assembled p.many1
  | optional {α : Type} {p : Parser α} (hp : Assembled p) : Assembled p.optional
  | separatedList {α β : Type} {p : Parser α} {separator : Parser β} (hp : Assembled p)
      (hseparator : Assembled separator) : Assembled (p.separatedList separator)
  | between {α β γ : Type} {opening : Parser α} {content : Parser β} {closing : Parser γ}
      (hopening : Assembled opening) (hcontent : Assembled content)
      (hclosing : Assembled closing) : Assembled (between opening content closing)
  | mapFailure {α : Type} {p : Parser α} (hp : Assembled p) (f : Cursor → Failure → Failure) :
      Assembled fun c => p.mapFailure (f c) c
  | withSpan {α : Type} {p : Parser α} (hp : Assembled p) : Assembled p.withSpan

theorem Parser.movesOn_inTurn {α : Type} {ps : List (Parser α)} (hps : ∀ p ∈ ps, p.MovesOn) :
    (inTurn ps).MovesOn := by
  induction ps with
  | nil => exact (yields_succeed []).movesOn
  | cons p ps ih =>
      have hfirst : p.MovesOn := hps p List.mem_cons_self
      have hthen : (inTurn ps).MovesOn := ih fun q hq => hps q (List.mem_cons_of_mem p hq)
      exact (hfirst.yields.andThen fun first => hthen.yields.map (first :: ·)).movesOn

theorem Assembled.movesOn {α : Type} {p : Parser α} (hp : Assembled p) : p.MovesOn := by
  induction hp with
  | built hp => exact hp.keepsPlace.yields.movesOn
  | closure hp => exact hp
  | map _ f ih => exact (ih.yields.map f).movesOn
  | andThen _ _ ih ihcontinuation =>
      exact (ih.yields.andThen fun a => (ihcontinuation a).yields).movesOn
  | orElse _ _ ihp ihq => exact (ihp.yields.orElse ihq.yields).movesOn
  | pair _ _ ihp ihq => exact (ihp.yields.pair ihq.yields).movesOn
  | inTurn _ ih => exact movesOn_inTurn ih
  | many _ ih => exact ih.yields.many.movesOn
  | many1 _ ih => exact ih.yields.many1.movesOn
  | optional _ ih => exact ih.yields.optional.movesOn
  | separatedList _ _ ih ihseparator =>
      exact (ih.yields.separatedList ihseparator.yields).movesOn
  | between _ _ _ ihopening ihcontent ihclosing =>
      exact (ihopening.yields.skipThen (ihcontent.yields.thenSkip ihclosing.yields)).movesOn
  | mapFailure _ f ih => exact (ih.yields.mapFailure f).movesOn
  | withSpan _ ih => exact ih.yields.withSpan.movesOn

/-! ## Parsers with spans -/

section

variable {α : Type} {p : Parser α} {source : String} {a n : Cursor}

/-- Where a parser that never goes back succeeds it does so with its span. -/
theorem Parser.MovesOn.withSpan_eq_done_iff (hp : p.MovesOn) (ha : Cursor.Reached source a)
    {value : α} {span : Span} :
    p.withSpan a = .done (value, span) n ↔
      p a = .done value n ∧ Span.between? a n = some span ∧ span.Covers a n := by
  rw [Parser.withSpan_eq_done_iff]
  apply and_congr_right
  intro hrun
  obtain ⟨hn, hle⟩ := hp ha hrun
  obtain ⟨found, hfound, hcovers⟩ := ha.exists_covers hn hle
  constructor
  · intro hspan
    obtain rfl := Option.some.inj (hfound.symm.trans hspan)
    exact ⟨hfound, hcovers⟩
  · exact And.left

theorem Parser.MovesOn.exists_withSpan (hp : p.MovesOn) (ha : Cursor.Reached source a)
    {value : α} (hrun : p a = .done value n) : ∃ span, p.withSpan a = .done (value, span) n := by
  obtain ⟨hn, hle⟩ := hp ha hrun
  obtain ⟨span, hspan, -⟩ := ha.exists_covers hn hle
  exact ⟨span, Parser.withSpan_eq_done_iff.mpr ⟨hrun, hspan⟩⟩

end

/-- From a reached cursor to a later one there is a span that holds, and counts,
the characters between them, and two spans one behind the other hold what one
over both of them holds.  An assembled parser succeeds with its span wherever it
succeeds, and what the span holds is what was read; so a number is what its
characters read as. -/
theorem Cursor.Reached.spans_compose {source : String} {a : Cursor} (ha : Reached source a) :
    (∀ b c, Reached source b → Reached source c → a.position ≤ b.position →
      b.position ≤ c.position →
        ∃ ab bc ac, Span.between? a b = some ab ∧ Span.between? b c = some bc ∧
          Span.between? a c = some ac ∧ ab.Covers a b ∧ ac.text = ab.text ++ bc.text) ∧
    (∀ {α : Type} {p : Parser α}, Assembled p →
      (∀ value n, p a = .done value n ↔ ∃ span, p.withSpan a = .done (value, span) n) ∧
      ∀ value span n, p.withSpan a = .done (value, span) n → span.Covers a n) ∧
    ∀ x n, Rule.number a = .done x n →
      ∃ consumed d, a.restText = consumed ++ n.restText ∧
        Decimal.read? consumed.toList = some d ∧ d.toBinary64 = x := by
  refine ⟨fun b c hb hc hab hbc => ?_, fun hp => ⟨fun value n => ⟨?_, ?_⟩, ?_⟩, ?_⟩
  · obtain ⟨ab, hspanAB, hcoversAB⟩ := ha.exists_covers hb hab
    obtain ⟨bc, hspanBC, hcoversBC⟩ := hb.exists_covers hc hbc
    obtain ⟨ac, hspanAC, hcoversAC⟩ := ha.exists_covers hc (Nat.le_trans hab hbc)
    exact ⟨ab, bc, ac, hspanAB, hspanBC, hspanAC, hcoversAB,
      hcoversAB.text_append hcoversBC hcoversAC⟩
  · exact hp.movesOn.exists_withSpan ha
  · intro h
    obtain ⟨span, hspan⟩ := h
    exact ((hp.movesOn.withSpan_eq_done_iff ha).mp hspan).1
  · intro value span n hspan
    exact ((hp.movesOn.withSpan_eq_done_iff ha).mp hspan).2.2
  · intro x n hrun
    obtain ⟨span, d, hspan, hread, hvalue, -⟩ := Rule.number_eq_done_iff.mp hrun
    have hnumeral : Rule.numeral.MovesOn := Rule.keepsPlace_numeral.yields.movesOn
    obtain ⟨-, -, hcovers⟩ := (hnumeral.withSpan_eq_done_iff ha).mp hspan
    exact ⟨span.text, d, hcovers.restText_eq, hread, hvalue⟩

/-- Behind a letter of one byte, two letters of two bytes and a sign of three:
spans that end between the letters, and the span of both letters. -/
theorem Cursor.Reached.spans_compose_accents :
    let a := (Cursor.start "xéé€").advance ['x']
    let b := a.advance ['é']
    let c := b.advance ['é', '€']
    (∃ ab bc ac, Span.between? a b = some ab ∧ Span.between? b c = some bc ∧
      Span.between? a c = some ac ∧ ab.Covers a b ∧ ac.text = ab.text ++ bc.text) ∧
    ∃ span, (many (char 'é')).withSpan a = .done (['é', 'é'], span) (b.advance ['é']) ∧
      span.Covers a (b.advance ['é']) := by
  intro a b c
  have hsource : (Cursor.start "xéé€").rest = ['x'] ++ ['é', 'é', '€'] := by
    decide
  have hbehind : a.rest = ['é'] ++ ['é', '€'] := by
    decide
  have hrest : b.rest = ['é', '€'] ++ [] := by
    decide
  have ha : Reached "xéé€" a := Reached.start.reads (reads_advance hsource)
  have hb : Reached "xéé€" b := ha.reads (reads_advance hbehind)
  have hc : Reached "xéé€" c := hb.reads (reads_advance hrest)
  have hrun : many (char 'é') a = .done ['é', 'é'] (b.advance ['é']) := by
    decide +kernel
  obtain ⟨hspans, hparsers, -⟩ := ha.spans_compose
  obtain ⟨hdone, hcovers⟩ := hparsers (Assembled.many (.built (.char 'é')))
  obtain ⟨span, hspan⟩ := (hdone _ _).mp hrun
  exact ⟨hspans b c hb hc (by decide) (by decide), span, hspan, hcovers _ _ _ hspan⟩

end JsonGrammar
