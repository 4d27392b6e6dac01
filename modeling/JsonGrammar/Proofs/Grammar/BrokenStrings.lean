import JsonGrammar.Proofs.Cursor.Reached
import JsonGrammar.Proofs.Grammar.Spelling

/-!
# Where a string breaks

A string that fails has a body all the same: the longest run of complete
characters behind its opening quote (`LongestBody`).  `Broken rest offset cause`
lists what can stand behind it where no quote does: nothing, a control character
or an escape that is cut short or does not fit.  It also says how far behind the
body the failure lies, and why it failed.

Each round of the loop over the body that fails does so at one of these
(`breaksAt_of_textRound`), and the rounds before it have read the longest body,
since a chain of rounds that has come to its end begins with every other chain
from the same cursor (`Chain.exists_rest`).
-/

namespace JsonGrammar

namespace Grammar

/-- The longest run of complete characters that `after` begins with, and what
stands behind it. -/
structure LongestBody (after body rest : List Char) : Prop where
  after_eq : after = body ++ rest
  complete : ∃ chars, Reading.Repeated CharText body chars
  longest : ∀ other chars, Reading.Repeated CharText other chars → other <+: after → other <+: body

/-- Fewer than four hexadecimal digits, with something else or nothing behind
them. -/
structure CutDigits (digits rest : List Char) : Prop where
  length_lt : digits.length < 4
  isDigit : ∀ ch ∈ digits, (Hexadecimal.digit? ch).isSome = true
  ends : ∀ ch ∈ rest.head?, Hexadecimal.digit? ch = none

/-- A text behind the body of a string that does not begin with a quote, the
number of its characters before the place where the string fails, and the
cause. -/
inductive Broken : List Char → Nat → Cause → Prop where
  | ended : Broken [] 0 (.unexpected (.character '"') none)
  | control {ch : Char} {rest : List Char} (hcontrol : ch.toNat < 0x20) :
      Broken (ch :: rest) 0 (.unexpected (.member "string character") (some ch))
  | letter {rest : List Char}
      (hletter : ∀ ch ∈ rest.head?, ch ≠ 'u' ∧ ∀ meant, ¬ LetterFor ch meant) :
      Broken ('\\' :: rest) 1 (.unexpected (.member "escape character") rest.head?)
  | firstDigits {digits rest : List Char} (hcut : CutDigits digits rest) :
      Broken ('\\' :: 'u' :: digits ++ rest) (2 + digits.length)
        (.unexpected (.member "hexadecimal digit") rest.head?)
  | loneLow {quad rest : List Char} {low : Nat} (hquad : UnitText quad low)
      (hlow : 0xDC00 ≤ low ∧ low ≤ 0xDFFF) :
      Broken ('\\' :: 'u' :: quad ++ rest) 6 (.loneLowSurrogate low)
  | loneHigh {quad rest : List Char} {high : Nat} {inner : Cause} (hquad : UnitText quad high)
      (hhigh : 0xD800 ≤ high ∧ high ≤ 0xDBFF) (hnone : ¬ ['\\', 'u'] <+: rest) :
      Broken ('\\' :: 'u' :: quad ++ rest) 6 (.literalMismatch "\\u" rest inner)
  | partner {quad quad' rest : List Char} {high other : Nat} (hquad : UnitText quad high)
      (hquad' : UnitText quad' other) (hhigh : 0xD800 ≤ high ∧ high ≤ 0xDBFF)
      (hother : ¬ (0xDC00 ≤ other ∧ other ≤ 0xDFFF)) :
      Broken ('\\' :: 'u' :: quad ++ '\\' :: 'u' :: quad' ++ rest) 6 (.missingLowSurrogate high)
  | secondDigits {quad digits rest : List Char} {high : Nat} (hquad : UnitText quad high)
      (hhigh : 0xD800 ≤ high ∧ high ≤ 0xDBFF) (hcut : CutDigits digits rest) :
      Broken ('\\' :: 'u' :: quad ++ '\\' :: 'u' :: digits ++ rest) (8 + digits.length)
        (.unexpected (.member "hexadecimal digit") rest.head?)

/-- The opening of an escape and its four digits are six characters. -/
theorem UnitText.length_opening {quad : List Char} {unit : Nat} (h : UnitText quad unit) :
    ('\\' :: 'u' :: quad).length = 6 := by
  cases h
  rfl

theorem Broken.cause_of_nil {offset : Nat} {cause : Cause} (h : Broken [] offset cause) :
    cause = .unexpected (.character '"') none := by
  cases h
  rfl

theorem getElem?_append_of_eq_some {text rest : String} {index : Nat} {ch : Char}
    (h : text.toList[index]? = some ch) : (text ++ rest).toList[index]? = some ch := by
  rw [String.toList_append,
    List.getElem?_append_left (List.getElem?_eq_some_iff.mp h).1, h]

theorem getElem?_message_unexpected {wanted : Expectation} {index : Nat} {ch : Char}
    (h : ("expected " ++ wanted.describe).toList[index]? = some ch) (found : Option Char) :
    (Cause.unexpected wanted found).message.toList[index]? = some ch := by
  cases found with
  | none => exact getElem?_append_of_eq_some h
  | some found =>
      exact getElem?_append_of_eq_some (getElem?_append_of_eq_some (getElem?_append_of_eq_some h))

/-- A string that breaks never asks for a quote where some other character
stands. -/
theorem Broken.not_prefix_message {rest : List Char} {offset : Nat} {cause : Cause}
    (h : Broken rest offset cause) :
    ¬ "expected '\"', found".toList <+: cause.message.toList := by
  intro hprefix
  have hsame := List.prefix_iff_getElem?.mp hprefix
  have hquote : cause.message.toList[9]? = some '\'' := hsame 9 (by decide)
  have hother : ∀ ch, ch ≠ '\'' → cause.message.toList[9]? ≠ some ch := by
    intro ch hch heq
    exact hch (Option.some.inj (heq.symm.trans hquote))
  cases h with
  | ended =>
      have hfound := hsame 14 (by decide)
      exact absurd hfound (by decide)
  | control _ => exact hother 's' (by decide) (getElem?_message_unexpected (by decide) _)
  | letter _ => exact hother 'e' (by decide) (getElem?_message_unexpected (by decide) _)
  | firstDigits _ => exact hother 'h' (by decide) (getElem?_message_unexpected (by decide) _)
  | loneLow _ _ =>
      refine hother 'l' (by decide) ?_
      unfold Cause.message
      exact getElem?_append_of_eq_some (by decide)
  | loneHigh _ _ _ =>
      -- This one names a literal in quotes too, but one that begins with a backslash.
      have hdouble := hsame 10 (by decide)
      unfold Cause.message at hdouble
      rw [getElem?_append_of_eq_some (getElem?_append_of_eq_some (getElem?_append_of_eq_some
        (getElem?_append_of_eq_some (getElem?_append_of_eq_some
          (show ("expected '" ++ "\\u").toList[10]? = some '\\' by decide)))))] at hdouble
      exact absurd hdouble (by decide)
  | partner _ _ _ _ =>
      refine hother 'l' (by decide) ?_
      unfold Cause.message
      exact getElem?_append_of_eq_some (by decide)
  | secondDigits _ _ _ => exact hother 'h' (by decide) (getElem?_message_unexpected (by decide) _)

end Grammar

namespace Parser

variable {α : Type}

/-- A chain that has come to a round that does not go on begins with every other
chain from the same cursor. -/
theorem Chain.exists_rest {round : Cursor → Round α} {c m n : Cursor} {values others : List α}
    (h : Chain round c values n) (hother : Chain round c others m)
    (hends : ∀ value next, round n ≠ .again value next) : ∃ more, Chain round m more n := by
  induction hother generalizing values with
  | nil c => exact ⟨values, h⟩
  | cons hround _ _ ih =>
      cases h with
      | nil => exact absurd hround (hends _ _)
      | cons hround' _ hthen =>
          obtain ⟨rfl, rfl⟩ := Round.again.inj (hround.symm.trans hround')
          exact ih hthen

theorem ofOutcome_ne_stop {outcome : Outcome α} : Round.ofOutcome outcome ≠ .stop := by
  cases outcome <;> simp [Round.ofOutcome]

end Parser

namespace Rule

open JsonGrammar.Parser Grammar

/-! ## Digits -/

/-- Digits in turn fail at the first character that is none. -/
theorem hexDigits_failed {count : Nat} {c : Cursor} {failure : Failure} (hc : c.Placed)
    (hrun : inTurn (List.replicate count hexDigit) c = .failed failure) :
    ∃ digits d, c.Reads digits d ∧ digits.length < count ∧
      (∀ ch ∈ digits, (Hexadecimal.digit? ch).isSome = true) ∧
      (∀ ch ∈ d.rest.head?, Hexadecimal.digit? ch = none) ∧
      failure = Failure.raise d (.unexpected (.member "hexadecimal digit") d.rest.head?) := by
  induction count generalizing c with
  | zero => simp [inTurn] at hrun
  | succ count ih =>
      rcases andThen_eq_failed_iff.mp hrun with hfirst | ⟨n, m, hfirst, hthen⟩
      · obtain ⟨hnone, rfl⟩ := expecting_eq_failed_iff.mp (map_eq_failed_iff.mp hfirst)
        refine ⟨[], c, .refl c, Nat.succ_pos count, fun ch hch => absurd hch List.not_mem_nil,
          fun ch hch => ?_, rfl⟩
        exact Option.not_isSome_iff_eq_none.mp (Bool.eq_false_iff.mp (hnone ch hch))
      · obtain ⟨_, hreads, ch, rfl, hch⟩ := yields_hexDigit hc hfirst
        obtain ⟨digits, d, hreads', hlength, hdigits, hends, hraise⟩ :=
          ih (hreads.placed hc) (map_eq_failed_iff.mp hthen)
        refine ⟨ch :: digits, d, hreads.trans hreads', Nat.succ_lt_succ hlength, ?_, hends, hraise⟩
        rw [List.forall_mem_cons]
        exact ⟨by rw [hch, Option.isSome_some], hdigits⟩

theorem hexQuad_failed {c : Cursor} {failure : Failure} (hc : c.Placed)
    (hrun : hexQuad c = .failed failure) :
    ∃ digits d, c.Reads digits d ∧ CutDigits digits d.rest ∧
      failure = Failure.raise d (.unexpected (.member "hexadecimal digit") d.rest.head?) := by
  obtain ⟨digits, d, hreads, hlength, hdigits, hends, hraise⟩ :=
    hexDigits_failed hc (map_eq_failed_iff.mp hrun)
  exact ⟨digits, d, hreads, ⟨hlength, hdigits, hends⟩, hraise⟩

/-! ## Escapes -/

/-- What stands at the cursor breaks a string, and the failure is the one for
it. -/
def BreaksAt (failure : Failure) (c : Cursor) : Prop :=
  ∃ passed d, c.Reads passed d ∧ failure.At d ∧ Broken c.rest passed.length failure.cause

/-- Behind the first half of a pair the second one is missing, cut short or no
second half. -/
theorem breaksAt_of_secondHalf {c d : Cursor} {quad : List Char} {high : Nat} {failure : Failure}
    (hc : c.Placed) (hopen : c.Reads ('\\' :: 'u' :: quad) d) (hquad : UnitText quad high)
    (hhigh : 0xD800 ≤ high ∧ high ≤ 0xDBFF)
    (hrun : (literal "\\u").skipThen hexQuad d = .failed failure) : BreaksAt failure c := by
  have hd := hopen.placed hc
  rcases andThen_eq_failed_iff.mp hrun with hliteral | ⟨_, m, hliteral, hdigits⟩
  · have hnone : ¬ ['\\', 'u'] <+: d.rest := by
      intro hprefix
      obtain ⟨rest, hrest⟩ := hprefix
      rw [consumes_literal "\\u" rest hd hrest.symm] at hliteral
      simp at hliteral
    obtain ⟨inner, -, rfl⟩ := mapFailure_eq_failed_iff.mp hliteral
    refine ⟨_, d, hopen, Failure.raise_at d _, ?_⟩
    rw [hquad.length_opening, hopen.rest_eq]
    exact .loneHigh hquad hhigh hnone
  · obtain ⟨_, hreads, rfl, -⟩ := yields_literal "\\u" hd hliteral
    obtain ⟨digits, e, hreads', hcut, rfl⟩ := hexQuad_failed (hreads.placed hd) hdigits
    have hall := (hopen.trans hreads).trans hreads'
    refine ⟨_, e, hall, Failure.raise_at e _, ?_⟩
    have hlength : ('\\' :: 'u' :: quad ++ "\\u".toList ++ digits).length = 8 + digits.length := by
      rw [List.length_append, List.length_append, hquad.length_opening]
      rfl
    rw [hlength, hall.rest_eq, List.append_assoc _ _ digits]
    exact .secondDigits hquad hhigh hcut

theorem breaksAt_of_escapedUnit {c d : Cursor} {quad : List Char} {unit : Nat} {failure : Failure}
    (hc : c.Placed) (hopen : c.Reads ('\\' :: 'u' :: quad) d) (hquad : UnitText quad unit)
    (hrun : escapedUnit unit d = .failed failure) : BreaksAt failure c := by
  unfold escapedUnit at hrun
  split_ifs at hrun with hlow hhigh
  · obtain rfl := Outcome.failed.inj hrun
    refine ⟨_, d, hopen, Failure.raise_at d _, ?_⟩
    rw [hquad.length_opening, hopen.rest_eq]
    exact .loneLow hquad (isLowSurrogate_iff.mp hlow)
  · have hrange := isHighSurrogate_iff.mp hhigh
    rcases Outcome.andThen_eq_failed_iff.mp hrun with hpair | ⟨other, m, hpair, hrun⟩
    · exact breaksAt_of_secondHalf hc hopen hquad hrange hpair
    · split_ifs at hrun with hpartner
      · have hvalid := isValidChar_joinSurrogates hrange (isLowSurrogate_iff.mp hpartner)
        exact absurd hrun (characterAt_ne_failed hvalid)
      · obtain ⟨text, hreads, first, _, quad', rfl, ⟨rfl, -⟩, hquad'⟩ :=
          ((yields_literal "\\u").skipThen yields_hexQuad) (hopen.placed hc) hpair
        obtain rfl := Outcome.failed.inj hrun
        refine ⟨_, d, hopen, Failure.raise_at d _, ?_⟩
        rw [hquad.length_opening, (hopen.trans hreads).rest_eq]
        exact .partner hquad hquad' hrange (mt isLowSurrogate_iff.mpr hpartner)
  · rw [isLowSurrogate_iff] at hlow
    rw [isHighSurrogate_iff] at hhigh
    have hvalid := isValidChar_of_unit (show unit < 0xD800 ∨ 0xDFFF < unit by omega)
      (UnitText.lt hquad)
    exact absurd hrun (characterAt_ne_failed hvalid)

theorem breaksAt_of_escape {c : Cursor} {tail : List Char} {failure : Failure} (hc : c.Placed)
    (hrest : c.rest = '\\' :: tail) (hrun : escape c = .failed failure) : BreaksAt failure c := by
  have hbackslash : char '\\' c = .done '\\' (c.advance ['\\']) :=
    expecting_of_rest hrest (by decide)
  have hreads : c.Reads ['\\'] (c.advance ['\\']) := Cursor.reads_advance hrest
  have hplaced := hreads.placed hc
  rw [escape, andThen, hbackslash, Outcome.andThen_done] at hrun
  split at hrun
  · rename_i next hnext
    have hu := hreads.trans (Cursor.next?_eq_some_iff.mp hnext)
    rcases andThen_eq_failed_iff.mp hrun with hdigits | ⟨unit, d, hdigits, hrun⟩
    · obtain ⟨digits, d, hreads', hcut, rfl⟩ := hexQuad_failed (hu.placed hc) hdigits
      have hall := hu.trans hreads'
      refine ⟨_, d, hall, Failure.raise_at d _, ?_⟩
      have hlength : (['\\'] ++ ['u'] ++ digits).length = 2 + digits.length := by
        rw [List.length_append]
        rfl
      rw [hlength, hall.rest_eq]
      exact .firstDigits hcut
    · obtain ⟨quad, hreads', hquad⟩ := yields_hexQuad (hu.placed hc) hdigits
      exact breaksAt_of_escapedUnit hc (hu.trans hreads') hquad hrun
  · rename_i hother
    obtain ⟨hnone, rfl⟩ := expecting_eq_failed_iff.mp (map_eq_failed_iff.mp hrun)
    refine ⟨_, _, hreads, Failure.raise_at _ _, ?_⟩
    rw [hreads.rest_eq]
    refine .letter fun ch hch => ⟨?_, fun meant hmeant => ?_⟩
    · rintro rfl
      obtain ⟨rest, hthen⟩ := List.head?_eq_some_iff.mp hch
      exact hother _ (Cursor.next?_of_rest hthen)
    · have hsome := hnone ch hch
      rw [escapedBy?_eq_some_iff.mpr hmeant, Option.isSome_some] at hsome
      exact Bool.noConfusion hsome

/-! ## The body -/

theorem breaksAt_of_textRound {c : Cursor} {failure : Failure} (hc : c.Placed)
    (hround : textRound c = .failed failure) : BreaksAt failure c := by
  unfold textRound Cursor.peek? at hround
  split at hround
  · simp at hround
  · simp at hround
  · rename_i hhead
    obtain ⟨tail, hrest⟩ := List.head?_eq_some_iff.mp hhead
    exact breaksAt_of_escape hc hrest (ofOutcome_eq_failed_iff.mp hround)
  · rename_i ch hquote hbackslash hhead
    obtain ⟨tail, hrest⟩ := List.head?_eq_some_iff.mp hhead
    obtain ⟨hplain, rfl⟩ := expecting_eq_failed_iff.mp (ofOutcome_eq_failed_iff.mp hround)
    have hcontrol : ch.toNat < 0x20 := by
      by_contra hge
      have hbad := isPlain_iff.mpr ⟨hquote, hbackslash, Nat.not_lt.mp hge⟩
      rw [hplain ch hhead] at hbad
      exact absurd hbad (by decide)
    refine ⟨[], c, .refl c, Failure.raise_at c _, ?_⟩
    show Broken c.rest 0 (.unexpected (.member "string character") c.rest.head?)
    rw [hrest]
    exact .control hcontrol

/-- The loop over the body stops at a quote and where the input ends. -/
theorem eq_quote_of_textRound_stop {c : Cursor} (hstop : textRound c = .stop) :
    ∀ ch ∈ c.rest.head?, ch = '"' := by
  intro ch hch
  unfold textRound Cursor.peek? at hstop
  split at hstop
  · rename_i hhead
    exact absurd (hhead.symm.trans hch) (by simp)
  · rename_i hhead
    exact (Option.some.inj (hhead.symm.trans hch)).symm
  · exact absurd hstop ofOutcome_ne_stop
  · exact absurd hstop ofOutcome_ne_stop

/-- Where the loop over the body has come to a round that does not go on, it
has read the longest body. -/
theorem longestBody_of_chain {c n : Cursor} {values : List Char} (hc : c.Placed)
    (hchain : Chain textRound c values n) (hends : ∀ value next, textRound n ≠ .again value next) :
    ∃ body, c.Reads body n ∧ LongestBody c.rest body n.rest := by
  obtain ⟨body, hreads, hbody⟩ := hchain.reads roundYields_textRound hc
  refine ⟨body, hreads, hreads.rest_eq, ⟨values, hbody⟩, ?_⟩
  intro other chars hother hprefix
  obtain ⟨rest, hrest⟩ := hprefix
  have hfirst := Cursor.reads_advance hrest.symm
  obtain ⟨more, hmore⟩ := hchain.exists_rest (chain_of_chars hother hc hrest.symm) hends
  obtain ⟨behind, hthen, -⟩ := hmore.reads roundYields_textRound (hfirst.placed hc)
  exact ⟨behind, (hfirst.trans hthen).passed_unique hreads⟩

/-- Behind the opening quote a string fails where its longest body is over. -/
theorem breaksAt_of_body {c : Cursor} {failure : Failure} (hc : c.Placed)
    (hrun : textBody.thenSkip (char '"') c = .failed failure) :
    ∃ body n, c.Reads body n ∧ LongestBody c.rest body n.rest ∧ BreaksAt failure n := by
  rcases andThen_eq_failed_iff.mp hrun with hbody | ⟨_, n, hbody, hclosing⟩
  · obtain ⟨values, n, hchain, hround⟩ := rounds_eq_failed_iff.mp (map_eq_failed_iff.mp hbody)
    obtain ⟨body, hreads, hlongest⟩ := longestBody_of_chain hc hchain (by simp [hround])
    exact ⟨body, n, hreads, hlongest, breaksAt_of_textRound (hreads.placed hc) hround⟩
  · obtain ⟨chars, hrounds, -⟩ := map_eq_done_iff.mp hbody
    obtain ⟨values, hchain, hstop, -⟩ := rounds_eq_done_iff.mp hrounds
    obtain ⟨body, hreads, hlongest⟩ := longestBody_of_chain hc hchain (by simp [hstop])
    obtain ⟨hnone, rfl⟩ := expecting_eq_failed_iff.mp (map_eq_failed_iff.mp hclosing)
    -- The loop stops at a quote, which the closing parser takes, or at the end.
    have hrest : n.rest = [] := by
      rw [← List.head?_eq_none_iff, Option.eq_none_iff_forall_not_mem]
      intro ch hch
      have hother := hnone ch hch
      rw [eq_quote_of_textRound_stop hstop ch hch] at hother
      exact absurd hother (by decide)
    refine ⟨body, n, hreads, hlongest, [], n, .refl n, Failure.raise_at n _, ?_⟩
    show Broken n.rest 0 (.unexpected (.character '"') n.rest.head?)
    rw [hrest]
    exact .ended

/-! ## The rule for strings -/

/-- A string that fails has read the longest body behind its quote and fails at
what stands behind it: where the input ends, for want of a quote; at a control
character; in an escape, at the place where it breaks.  It never asks for a
quote where some other character stands. -/
theorem stringLiteral_failed {source : String} {c : Cursor} {after : List Char} {failure : Failure}
    (hc : Cursor.Reached source c) (hquote : c.rest = '"' :: after)
    (hrun : stringLiteral c = .failed failure) :
    ∃ body rest offset, LongestBody after body rest ∧ Broken rest offset failure.cause ∧
      failure.location = { text := source, position := c.position + 1 + body.length + offset } ∧
      (rest = [] → failure.message = "expected '\"', but reached end of input" ∧
        failure.position = source.length) ∧
      ¬ "expected '\"', found".toList <+: failure.message.toList := by
  have hopen : c.Reads ['"'] (c.advance ['"']) := Cursor.reads_advance hquote
  have hfirst : char '"' c = .done '"' (c.advance ['"']) := expecting_of_rest hquote (by decide)
  have hbody : textBody.thenSkip (char '"') (c.advance ['"']) = .failed failure := by
    rwa [stringLiteral, between, skipThen, andThen, hfirst, Outcome.andThen_done] at hrun
  obtain ⟨body, n, hreads, hlongest, passed, d, hreads', hat, hbroken⟩ :=
    breaksAt_of_body (hopen.placed hc.standsIn.placed) hbody
  rw [Cursor.rest_advance_of_eq hquote] at hlongest
  have hall := (hopen.trans hreads).trans hreads'
  have hd := hall.standsIn hc.standsIn
  refine ⟨body, n.rest, passed.length, hlongest, hbroken, ?_, fun hrest => ⟨?_, ?_⟩,
    hbroken.not_prefix_message⟩
  · rw [hat, hd.source_eq, hall.position_eq]
    simp only [List.length_append, List.length_singleton, Nat.add_assoc]
  · rw [hrest] at hbroken
    rw [Failure.message, hbroken.cause_of_nil]
    rfl
  · have hend : d.rest = [] := (List.append_eq_nil_iff.mp (hreads'.rest_eq.symm.trans hrest)).2
    rw [hat.position_eq]
    exact hd.isAtEnd_iff.mp (hd.placed.isAtEnd_iff.mpr hend)

/-- Behind a letter and a number the second half of a pair is cut short by the
quote. -/
theorem stringLiteral_failed_in_second_half :
    let source := "[\"é\\u00e9\\uD83D\\u12\"]"
    let c := (Cursor.start source).advance ['[']
    let after := source.toList.drop 2
    let failure : Failure :=
      { cause := .unexpected (.member "hexadecimal digit") (some '"')
        location := { text := source, position := 19 } }
    Cursor.Reached source c ∧ c.rest = '"' :: after ∧ stringLiteral c = .failed failure ∧
      ∃ body rest offset, LongestBody after body rest ∧ Broken rest offset failure.cause ∧
        failure.location = { text := source, position := c.position + 1 + body.length + offset } ∧
        (rest = [] → failure.message = "expected '\"', but reached end of input" ∧
          failure.position = source.length) ∧
        ¬ "expected '\"', found".toList <+: failure.message.toList := by
  intro source c after failure
  have hsource : (Cursor.start source).rest = ['['] ++ '"' :: after := by decide
  have hc : Cursor.Reached source c := Cursor.Reached.start.reads (Cursor.reads_advance hsource)
  have hquote : c.rest = '"' :: after := Cursor.rest_advance_of_eq hsource
  have hrun : stringLiteral c = .failed failure := by
    decide +kernel
  exact ⟨hc, hquote, hrun, stringLiteral_failed hc hquote hrun⟩

end Rule

end JsonGrammar
