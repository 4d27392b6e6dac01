import JsonGrammar.Proofs.Parser.Coupling

/-!
# Runs from two places with the same rest

`Cursor.Abreast c₀ d₀ c d` says that `c₀` and `d₀` have the same rest and that
the same text leads from them to `c` and to `d`.  A parser relocates if, from
any two such places, its two runs stay abreast: they succeed with one value, or
fail for one cause, after the same text.

A parser that relocates and settles belongs to itself in every coupling
(`Relocates.coupled`), and so the parsers for characters need to be looked at
only here.
-/

namespace JsonGrammar

/-- The same text leads from two places with the same rest to the two
cursors. -/
structure Cursor.Abreast (c₀ d₀ c d : Cursor) : Prop where
  left : c₀.Placed
  right : d₀.Placed
  rest_eq : c₀.rest = d₀.rest
  reads : ∃ text, c₀.Reads text c ∧ d₀.Reads text d

namespace Cursor.Abreast

variable {c₀ d₀ c d n m : Cursor}

theorem refl (hc : c.Placed) (hd : d.Placed) (hrest : c.rest = d.rest) : Abreast c d c d :=
  ⟨hc, hd, hrest, [], .refl c, .refl d⟩

theorem trans (h : Abreast c₀ d₀ c d) (hnext : Abreast c d n m) : Abreast c₀ d₀ n m := by
  obtain ⟨xs, hc, hd⟩ := h.reads
  obtain ⟨ys, hn, hm⟩ := hnext.reads
  exact ⟨h.left, h.right, h.rest_eq, xs ++ ys, hc.trans hn, hd.trans hm⟩

theorem placed (h : Abreast c₀ d₀ c d) : c.Placed ∧ d.Placed := by
  obtain ⟨text, hc, hd⟩ := h.reads
  exact ⟨hc.placed h.left, hd.placed h.right⟩

theorem rest_eq_next (h : Abreast c₀ d₀ c d) : c.rest = d.rest := by
  obtain ⟨text, hc, hd⟩ := h.reads
  have hboth := hc.rest_eq.symm.trans (h.rest_eq.trans hd.rest_eq)
  rwa [List.append_cancel_left_eq] at hboth

theorem advance {text rest : List Char} (h : Abreast c₀ d₀ c d) (hrest : c.rest = text ++ rest) :
    Abreast c₀ d₀ (c.advance text) (d.advance text) := by
  have hplaced := h.placed
  refine h.trans ⟨hplaced.1, hplaced.2, h.rest_eq_next, text, reads_advance hrest, ?_⟩
  exact reads_advance (h.rest_eq_next ▸ hrest)

/-- The counters of both cursors have grown by the same amounts. -/
theorem counters (h : Abreast c₀ d₀ c d) :
    c.position + d₀.position = d.position + c₀.position ∧
      c.byteOffset + d₀.byteOffset = d.byteOffset + c₀.byteOffset := by
  obtain ⟨text, hc, hd⟩ := h.reads
  have hposition := hc.position_eq
  have hposition' := hd.position_eq
  have hbytes := hc.byteOffset_eq
  have hbytes' := hd.byteOffset_eq
  omega

end Cursor.Abreast

/-- Two runs from places with the same rest. -/
def Coupling.abreast (c₀ d₀ : Cursor) : Coupling where
  cursors := Cursor.Abreast c₀ d₀
  failures := fun failure later => failure.cause = later.cause ∧
    ∃ c d, Cursor.Abreast c₀ d₀ c d ∧ failure.At c ∧ later.At d
  outrun := fun _ _ => False
  placed := Cursor.Abreast.placed
  rest_eq := Cursor.Abreast.rest_eq_next
  position_eq_iff := by
    intro c d n m h hnext
    have hcounters := h.counters.1
    have hcounters' := hnext.counters.1
    omega
  advance := Cursor.Abreast.advance
  raise := fun _ h => ⟨rfl, _, _, h, Failure.raise_at _ _, Failure.raise_at _ _⟩
  outrun_placed := False.elim
  outrun_reads := fun h _ => h
  outrun_at := fun h _ => h.elim

theorem Coupling.strict_abreast (c₀ d₀ : Cursor) : (abreast c₀ d₀).Strict :=
  fun _ _ h => h

/-- Outcomes that stay abreast of two places do so of places further back. -/
theorem Outcome.Coupled.abreast_trans {α : Type} {first second : Outcome α} {c₀ d₀ c d : Cursor}
    (h : first.Coupled (.abreast c d) second) (hcursors : Cursor.Abreast c₀ d₀ c d) :
    first.Coupled (.abreast c₀ d₀) second := by
  cases h with
  | done hnext => exact .done (hcursors.trans hnext)
  | failed hfailures =>
      obtain ⟨hcause, n, m, hnext, hn, hm⟩ := hfailures
      exact .failed ⟨hcause, n, m, hcursors.trans hnext, hn, hm⟩
  | outrun h => exact h.elim
  | stuck => exact .stuck

namespace Parser

variable {α β γ : Type}

/-- From places with the same rest the runs of the parser stay abreast. -/
def Relocates (p : Parser α) : Prop :=
  ∀ c₀ d₀, Coupled (.abreast c₀ d₀) p p

theorem relocates_of_run {p : Parser α}
    (h : ∀ ⦃c d : Cursor⦄, c.Placed → d.Placed → c.rest = d.rest →
      (p c).Coupled (.abreast c d) (p d)) : p.Relocates := by
  intro c₀ d₀
  refine ⟨fun c d hcursors => ?_, fun _ _ houtrun => False.elim houtrun⟩
  obtain ⟨hc, hd⟩ := hcursors.placed
  exact (h hc hd hcursors.rest_eq_next).abreast_trans hcursors

theorem Relocates.run {p : Parser α} (hp : p.Relocates) {c d : Cursor} (hc : c.Placed)
    (hd : d.Placed) (hrest : c.rest = d.rest) : (p c).Coupled (.abreast c d) (p d) :=
  (hp c d).run (.refl hc hd hrest)

/-! ## In other couplings -/

section

variable {K : Coupling} {p : Parser α}

theorem Relocates.coupled (hp : p.Relocates) (hsettles : p.Settles) : Coupled K p p where
  follow := fun _ _ h => hsettles.follow h
  run := by
    intro c d h
    obtain ⟨hc, hd⟩ := K.placed h
    have hrun := hp.run hc hd (K.rest_eq h)
    generalize p c = first at hrun
    generalize p d = second at hrun
    cases hrun with
    | done hnext =>
        obtain ⟨text, hn, hm⟩ := hnext.reads
        rw [hn.eq_advance, hm.eq_advance]
        exact .done (K.advance h hn.rest_eq)
    | @failed failure later hfailures =>
        obtain ⟨hcause, n, m, hnext, hn, hm⟩ := hfailures
        obtain ⟨text, hreads, hreads'⟩ := hnext.reads
        rw [hn.eq_raise, hm.eq_raise, hcause, hreads.eq_advance, hreads'.eq_advance]
        exact .failed (K.raise _ (K.advance h hreads.rest_eq))
    | outrun hfalse => exact hfalse.elim
    | stuck => exact .stuck

theorem Relocates.lockstep (hp : p.Relocates) : Lockstep K p p := by
  intro c d m failure b h hfirst hsecond
  obtain ⟨hc, hd⟩ := K.placed h
  have hrun := hp.run hc hd (K.rest_eq h)
  rw [hfirst, hsecond] at hrun
  cases hrun with
  | outrun hfalse => exact hfalse

end

/-! ## Combinators -/

section

variable {p q : Parser α}

theorem relocates_succeed (value : α) : (succeed value).Relocates :=
  fun _ _ => coupled_succeed value

theorem Relocates.andThen {continuation : α → Parser β} (hp : p.Relocates)
    (hcontinuation : ∀ a, (continuation a).Relocates) : (p.andThen continuation).Relocates :=
  fun c₀ d₀ => (hp c₀ d₀).andThen fun a => hcontinuation a c₀ d₀

theorem Relocates.map (hp : p.Relocates) (f : α → β) : (p.map f).Relocates :=
  fun c₀ d₀ => (hp c₀ d₀).map f

theorem Relocates.skip (hp : p.Relocates) : p.skip.Relocates :=
  hp.map fun _ => ()

theorem Relocates.pair {r : Parser β} (hp : p.Relocates) (hr : r.Relocates) :
    (p.pair r).Relocates :=
  fun c₀ d₀ => (hp c₀ d₀).pair (hr c₀ d₀)

theorem Relocates.thenSkip {r : Parser β} (hp : p.Relocates) (hr : r.Relocates) :
    (p.thenSkip r).Relocates :=
  fun c₀ d₀ => (hp c₀ d₀).thenSkip (hr c₀ d₀)

theorem Relocates.skipThen {r : Parser β} (hp : p.Relocates) (hr : r.Relocates) :
    (p.skipThen r).Relocates :=
  fun c₀ d₀ => (hp c₀ d₀).skipThen (hr c₀ d₀)

theorem Relocates.between {opening : Parser β} {closing : Parser γ} (hopening : opening.Relocates)
    (hp : p.Relocates) (hclosing : closing.Relocates) : (between opening p closing).Relocates :=
  fun c₀ d₀ => (hopening c₀ d₀).between (hp c₀ d₀) (hclosing c₀ d₀)

theorem Relocates.orElse (hp : p.Relocates) (hq : q.Relocates) : (p.orElse q).Relocates :=
  fun c₀ d₀ => (hp c₀ d₀).orElse hp.lockstep (hq c₀ d₀)

theorem Relocates.optional (hp : p.Relocates) : p.optional.Relocates :=
  (hp.map some).orElse (relocates_succeed none)

theorem relocates_inTurn {ps : List (Parser α)} (hps : ∀ p ∈ ps, p.Relocates) :
    (inTurn ps).Relocates :=
  fun c₀ d₀ => coupled_inTurn fun p hp => hps p hp c₀ d₀

theorem Relocates.many (hp : p.Relocates) : p.many.Relocates :=
  fun c₀ d₀ => (hp c₀ d₀).many (Coupling.strict_abreast c₀ d₀)

theorem Relocates.many1 (hp : p.Relocates) : p.many1.Relocates :=
  hp.andThen fun first => hp.many.map (first :: ·)

theorem Relocates.separatedList {separator : Parser β} (hp : p.Relocates)
    (hseparator : separator.Relocates) : (p.separatedList separator).Relocates :=
  fun c₀ d₀ => (hp c₀ d₀).separatedList (hseparator c₀ d₀) hseparator.lockstep
    fun _ _ _ _ _ _ _ houtrun => False.elim houtrun

end

/-! ## Characters -/

theorem coupled_raise {c₀ d₀ c d : Cursor} (h : Cursor.Abreast c₀ d₀ c d) (cause : Cause) :
    (Outcome.failed (Failure.raise c cause) : Outcome α).Coupled (.abreast c₀ d₀)
      (.failed (Failure.raise d cause)) :=
  .failed ((Coupling.abreast c₀ d₀).raise cause h)

theorem relocates_fail (cause : Cause) : (fail cause : Parser α).Relocates :=
  relocates_of_run fun _ _ hc hd hrest => coupled_raise (.refl hc hd hrest) cause

theorem relocates_expecting (wanted : Expectation) (test : Char → Bool) :
    (expecting wanted test).Relocates := by
  refine relocates_of_run fun c d hc hd hrest => ?_
  have hcursors := Cursor.Abreast.refl hc hd hrest
  unfold expecting
  cases hnext : c.rest with
  | nil =>
      rw [Cursor.next?_eq_none_iff.mpr hnext, Cursor.next?_eq_none_iff.mpr (hrest ▸ hnext)]
      exact coupled_raise hcursors _
  | cons ch rest =>
      rw [Cursor.next?_of_rest hnext, Cursor.next?_of_rest (hrest ▸ hnext)]
      have hbehind : Cursor.Abreast c d (c.advance [ch]) (d.advance [ch]) :=
        hcursors.advance hnext
      simp only
      split
      · exact .done hbehind
      · exact coupled_raise hcursors _

theorem relocates_endOfInput : endOfInput.Relocates := by
  refine relocates_of_run fun c d hc hd hrest => ?_
  have hcursors := Cursor.Abreast.refl hc hd hrest
  have hend : c.isAtEnd = d.isAtEnd := by
    rw [Bool.eq_iff_iff, hc.isAtEnd_iff, hd.isAtEnd_iff, hrest]
  unfold endOfInput
  rw [hend, hrest]
  split
  · exact .done hcursors
  · exact coupled_raise hcursors _

theorem relocates_literal (text : String) : (literal text).Relocates := by
  have hchars : (inTurn (text.toList.map char)).Relocates := by
    refine relocates_inTurn fun p hp => ?_
    obtain ⟨ch, -, rfl⟩ := List.mem_map.mp hp
    exact relocates_expecting _ _
  refine relocates_of_run fun c d hc hd hrest => ?_
  have hrun := (hchars.map String.ofList).run hc hd hrest
  unfold literal mapFailure
  generalize (inTurn (text.toList.map char)).map String.ofList c = first at hrun
  generalize (inTurn (text.toList.map char)).map String.ofList d = second at hrun
  cases hrun with
  | done hnext => exact .done hnext
  | failed hfailures =>
      simp only [hfailures.1, hrest]
      exact coupled_raise (.refl hc hd hrest) _
  | outrun hfalse => exact hfalse.elim
  | stuck => exact .stuck

theorem relocates_whitespace : whitespace.Relocates :=
  (relocates_expecting _ _).many.skip

/-! ## Parsers that look at the rest alone -/

/-- What can be said of a cursor from its rest: a value and how many characters
stand for it, or a cause and how many characters stand before it. -/
inductive Verdict (α : Type) where
  | taken (value : α) (count : Nat)
  | refused (cause : Cause) (ahead : Nat)
  | stuck

/-- The verdict at a cursor. -/
def Verdict.at (c : Cursor) : Verdict α → Outcome α
  | taken value count => .done value (c.advance (c.rest.take count))
  | refused cause ahead => .failed (Failure.raise (c.advance (c.rest.take ahead)) cause)
  | stuck => .stuck

/-- The parser that follows a verdict on the rest. -/
def byRest (decide : List Char → Verdict α) : Parser α :=
  fun c => (decide c.rest).at c

theorem relocates_byRest (decide : List Char → Verdict α) : (byRest decide).Relocates := by
  refine relocates_of_run fun c d hc hd hrest => ?_
  have hcursors := Cursor.Abreast.refl hc hd hrest
  have hadvance : ∀ count, Cursor.Abreast c d (c.advance (c.rest.take count))
      (d.advance (d.rest.take count)) := by
    intro count
    rw [← hrest]
    exact hcursors.advance (List.take_append_drop count c.rest).symm
  unfold byRest
  rw [← hrest]
  cases decide c.rest with
  | taken value count => exact .done (hadvance count)
  | refused cause ahead => exact coupled_raise (hadvance ahead) cause
  | stuck => exact .stuck

end Parser

end JsonGrammar
