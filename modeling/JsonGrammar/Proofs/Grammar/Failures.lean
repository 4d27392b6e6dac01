import JsonGrammar.Proofs.Cursor.Reached
import JsonGrammar.Proofs.Grammar.Escapes
import JsonGrammar.Proofs.Grammar.Values
import JsonGrammar.Proofs.Number.Printing

/-!
# Where documents fail

Each rule of the grammar fails behind the beginning of a text that it would
have taken: `blames_*` says that the text before the anchor of a failure is a
stump of the rule's relation.  The rules for containers hand this on from the
values inside, and the levels are an induction (`blames_valueWithin`).

For a document that makes the text before the anchor the beginning of a
document that is accepted with the same limit.
-/

namespace JsonGrammar

namespace Rule

open JsonGrammar.Parser Grammar

variable {α : Type}

/-! ## Numbers -/

theorem blames_wholePart {M : Mark}
    (hraise : ∀ c found, M (Failure.raise c (.unexpected (.member "digit") found)) c) :
    wholePart.Blames M fun text cause => text = [] ∧ cause.inUnicodeEscape = false := by
  have hnonzero : (satisfy (fun ch => '1' ≤ ch && ch ≤ '9') "digit").Blames M fun text cause =>
      text = [] ∧ ∃ found, cause = .unexpected (.member "digit") found :=
    blames_expecting hraise
  refine (Blames.orElse ((hnonzero.pair_left fun _ _ => many_ne_failed).map _)).mono ?_
  intro text cause h
  obtain ⟨rfl, found, rfl⟩ := h
  exact ⟨rfl, rfl⟩

/-- A number breaks off before its first digit or not at all. -/
theorem blames_numeral {M : Mark}
    (hraise : ∀ c found, M (Failure.raise c (.unexpected (.member "digit") found)) c) :
    numeral.Blames M fun text cause =>
      (text = [] ∨ text = ['-']) ∧ cause.inUnicodeEscape = false := by
  have hsigned : (pair (optional (char '-')) wholePart).Blames M fun text cause =>
      (text = [] ∨ text = ['-']) ∧ cause.inUnicodeEscape = false := by
    refine (Blames.andThen (yields_char '-').optional
      (blames_optional (char '-') M fun _ _ => False)
      fun _ => (blames_wholePart hraise).map _).mono ?_
    intro text cause h
    rcases h with hfalse | ⟨sign, _, _, rfl, hsign, rfl, hcause⟩
    · exact hfalse.elim
    · rw [List.append_nil]
      rcases hsign with ⟨_, rfl, -⟩ | ⟨rfl, -⟩
      · exact ⟨Or.inr rfl, hcause⟩
      · exact ⟨Or.inl rfl, hcause⟩
  exact ((hsigned.pair_left fun _ _ => optional_ne_failed).pair_left
    fun _ _ => optional_ne_failed).map _

theorem begins_numberText_minus : Reading.Begins NumberText ['-'] := by
  have hzero : NumberText (Binary64.zero true).render (Binary64.zero true) :=
    numberText_render rfl
  exact ⟨['0'], Binary64.zero true, hzero⟩

theorem begins_numberText : Reading.Begins NumberText [] :=
  Reading.Begins.of_append [] ['-'] begins_numberText_minus

theorem blames_number : number.Blames Anchored (Stump NumberText) := by
  intro c failure hc hrun
  rcases Outcome.andThen_eq_failed_iff.mp hrun with hspan | ⟨⟨_, span⟩, m, _, hrun⟩
  · obtain ⟨text, d, hreads, hanchored, htext, hcause⟩ :=
      (blames_numeral (anchored_unexpected (by decide))).withSpan hc hspan
    refine ⟨text, d, hreads, hanchored, stump_of_begins ?_ hcause⟩
    rcases htext with rfl | rfl
    · exact begins_numberText
    · exact begins_numberText_minus
  · simp only at hrun
    split at hrun
    · obtain rfl := Outcome.failed.inj hrun
      exact ⟨[], c, .refl c, anchored_raise c rfl, stump_of_begins begins_numberText rfl⟩
    · split_ifs at hrun
      obtain rfl := Outcome.failed.inj hrun
      exact ⟨[], c, .refl c, anchored_raise c rfl, stump_of_begins begins_numberText rfl⟩

/-! ## Containers -/

theorem blames_whitespace (M : Mark) (F : Blame) : whitespace.Blames M F :=
  (blames_many _ M F).map _

theorem blames_separatedList {entry : Parser α} {A : Reading α} (hyields : entry.Yields A)
    (hentry : entry.Blames Anchored (Stump A)) :
    (separatedList entry (char ',')).Blames Anchored (Stump (Reading.Separated A)) := by
  have hround : RoundBlames (separatedRound entry (char ',')) Anchored
      (Stump (Reading.SkipThen (.Only [','] : Reading Char) A)) := by
    refine (hentry.separatedRound (yields_char ',')).mono ?_
    intro text cause h
    obtain ⟨_, ch, second, rfl, rfl, hstump⟩ := h
    exact hstump.extend [','] fun text a hA => ⟨[], a, [','], ch, text, List.append_nil _, rfl, hA⟩
  refine (Blames.stump_andThen hyields hentry
    (fun a => hround.stump_rounds (hyields.separatedRound (yields_char ',')) [a])
    fun a => ⟨[], [a], [], .nil, rfl⟩).stump_mono ?_
  exact fun text values h => ⟨values, separated_of_parts A text values h⟩

theorem blames_entries {entry : Parser α} {A : Reading α} (hyields : entry.Yields A)
    (hentry : entry.Blames Anchored (Stump A)) (closing : Char) :
    (entries entry closing).Blames Anchored (Stump (EntriesText A closing)) := by
  refine (Blames.orElse (Blames.stump_thenSkip (yields_separatedList hyields)
    (blames_separatedList hyields hentry) (blames_char closing)
    ⟨[closing], closing, rfl⟩)).stump_mono ?_
  exact fun text values h => ⟨values, entriesText_of_parts A closing text values h⟩

/-- A bracket that is missing or may not be opened fails where it had to
stand. -/
theorem blames_bracketed_none {A : Reading Json} (hbegins : A.Begins []) (opening : Char)
    (limit : Nat) : (bracketed opening limit none).Blames Anchored (Stump A) := by
  intro c failure hc hrun
  rcases Outcome.andThen_eq_failed_iff.mp hrun with hopen | ⟨_, m, _, hrun⟩
  · exact blames_expecting_stump (by simp) hbegins hc hopen
  · obtain rfl := Outcome.failed.inj hrun
    exact ⟨[], c, .refl c, anchored_raise c rfl, stump_of_begins hbegins rfl⟩

/-- What is begun behind an opening bracket is begun by the container. -/
theorem blames_bracketed {content : Parser Json} {A B : Reading Json} {opening : Char} {limit : Nat}
    (hcontent : content.Blames Anchored (Stump A)) (hfinish : ∃ body v, A body v)
    (hsub : ∀ body v, A body v → B (opening :: body) v) :
    (bracketed opening limit (some content)).Blames Anchored (Stump B) := by
  rw [bracketed_some]
  refine (Blames.stump_skipThen (yields_char opening) (blames_char opening) hcontent
    hfinish).stump_mono ?_
  intro text v h
  obtain ⟨_, _, body, rfl, rfl, hA⟩ := h
  exact ⟨v, hsub body v hA⟩

theorem blames_member {inner : Parser Json} {A : Reading Json}
    (hinner : inner.Blames Anchored (Stump A)) (hA : ∃ text v, A text v) :
    (member inner).Blames Anchored (Stump (MemberOf A)) := by
  have hcolon : (pair whitespace (char ':')).Blames Anchored
      (Stump (BlankText.Pair (.Only [':'] : Reading Char))) :=
    Blames.stump_pair yields_whitespace (blames_whitespace _ _) (blames_char ':')
      ⟨[':'], ':', rfl⟩
  have hcolonText : ∃ text v, BlankText.Pair (.Only [':'] : Reading Char) text v :=
    ⟨[':'], ((), ':'), [], [':'], rfl, blank_nil, rfl⟩
  have hkey := Blames.stump_thenSkip yields_stringLiteral blames_stringLiteral hcolon hcolonText
  have hkeyText : ∃ text key,
      StringText.ThenSkip (BlankText.Pair (.Only [':'] : Reading Char)) text key := by
    obtain ⟨text, v, hcolonText⟩ := hcolonText
    exact ⟨['"', '"'] ++ text, "", _, text, v, rfl, .quoted .nil, hcolonText⟩
  have hbefore := Blames.stump_skipThen yields_whitespace (blames_whitespace _ _) hkey hkeyText
  have hyieldsKey := yields_whitespace.skipThen (yields_stringLiteral.thenSkip
    (yields_whitespace.pair (yields_char ':')))
  refine (Blames.stump_pair hyieldsKey hbefore hinner hA).stump_mono ?_
  exact fun text m h => ⟨m, memberOf_of_parts A text m h⟩

/-! ## Values -/

theorem begins_valueWithin (levels : Nat) : Reading.Begins (ValueWithin levels) [] :=
  ⟨_, .null, .null, Nat.zero_le _⟩

theorem exists_paddedWithin (levels : Nat) : ∃ text v, PaddedWithin levels text v :=
  ⟨_, .null, .padded blank_nil .null blank_nil, Nat.zero_le _⟩

section

variable {limit levels : Nat}
  (hinner : ∀ l, levels = l + 1 → Blames (valueWithin limit l) Anchored (Stump (PaddedWithin l)))

include hinner

theorem blames_arrayWithin :
    (arrayOf limit (innerWithin limit levels)).Blames Anchored (Stump (ValueWithin levels)) := by
  cases levels with
  | zero => exact blames_bracketed_none (begins_valueWithin 0) '[' limit
  | succ l =>
      have hentries := blames_entries (yields_valueWithin limit l) (hinner l rfl) ']'
      exact blames_bracketed (hentries.stump_map Json.array)
        ⟨[']'], _, [], .none blank_nil, rfl⟩ fun _ _ h => (valueWithin_array h).2

theorem blames_objectWithin :
    (objectOf limit (innerWithin limit levels)).Blames Anchored (Stump (ValueWithin levels)) := by
  cases levels with
  | zero => exact blames_bracketed_none (begins_valueWithin 0) '{' limit
  | succ l =>
      have hmember := blames_member (hinner l rfl) (exists_paddedWithin l)
      have hentries := blames_entries (yields_member (yields_valueWithin limit l)) hmember '}'
      exact blames_bracketed (hentries.stump_map Json.object)
        ⟨['}'], _, [], .none blank_nil, rfl⟩ fun _ _ h => (valueWithin_object h).2

theorem blames_tokenWithin :
    (tokenOf limit (innerWithin limit levels)).Blames Anchored (Stump (ValueWithin levels)) := by
  have hmissing : ∀ found, (fail (.unexpected (.member "a JSON value") found) : Parser Json).Blames
      Anchored (Stump (ValueWithin levels)) := by
    intro found c failure _ hrun
    obtain rfl := Outcome.failed.inj hrun
    exact ⟨[], c, .refl c, anchored_raise c rfl, stump_of_begins (begins_valueWithin levels) rfl⟩
  have hliteral : ∀ text (v : Json), text ≠ "\\u" → ((literal text).map fun _ => v).Blames Anchored
      (Stump (ValueWithin levels)) := by
    intro text v htext
    have hcause : ∀ rest inner, (Cause.literalMismatch text rest inner).inUnicodeEscape = false :=
      fun _ _ => beq_eq_false_iff_ne.mpr htext
    refine ((blames_literal fun c rest inner => anchored_raise c (hcause rest inner)).map _).mono ?_
    intro read cause h
    obtain ⟨rfl, rest, inner, rfl⟩ := h
    exact stump_of_begins (begins_valueWithin levels) (hcause rest inner)
  intro c failure hc hrun
  unfold tokenOf at hrun
  split at hrun
  · exact hmissing _ hc hrun
  · split_ifs at hrun
    · exact blames_arrayWithin hinner hc hrun
    · exact blames_objectWithin hinner hc hrun
    · refine (blames_stringLiteral.map _).stump_mono ?_ hc hrun
      exact fun text s h => ⟨.string s, .string h, Nat.zero_le _⟩
    · refine (blames_number.map _).stump_mono ?_ hc hrun
      exact fun text x h => ⟨.number x, .number h, Nat.zero_le _⟩
    · exact hliteral "null" _ (by decide) hc hrun
    · exact Blames.orElse (hliteral "false" _ (by decide)) hc hrun
    · exact hmissing _ hc hrun

theorem blames_valueOf :
    (valueOf limit (innerWithin limit levels)).Blames Anchored (Stump (PaddedWithin levels)) := by
  have hblank : ∃ text v, BlankText text v := ⟨[], (), blank_nil⟩
  have htoken := Blames.stump_thenSkip
    (yields_tokenWithin fun l _ => yields_valueWithin limit l) (blames_tokenWithin hinner)
    (blames_whitespace _ (Stump BlankText)) hblank
  refine (Blames.stump_skipThen yields_whitespace (blames_whitespace _ _) htoken
    ⟨_, .null, _, [], (), rfl, ⟨.null, Nat.zero_le _⟩, blank_nil⟩).stump_mono ?_
  exact fun text v h => ⟨v, paddedWithin_of_parts levels text v h⟩

end

theorem blames_valueWithin (limit levels : Nat) :
    Blames (valueWithin limit levels) Anchored (Stump (PaddedWithin levels)) :=
  valueWithin_induction (P := fun levels p => p.Blames Anchored (Stump (PaddedWithin levels))) limit
    (fun _ => blames_valueOf) levels

/-- Where a document fails, the text before the anchor is begun by a value that
nests no deeper than the limit. -/
theorem blames_document (limits : Limits) :
    (document limits).Blames Anchored (Stump (PaddedWithin limits.maxDepth)) := by
  have hend : endOfInput.Blames Anchored (Stump (.Only [] : Reading Unit)) := by
    refine (blames_endOfInput fun c rest => anchored_raise c rfl).mono ?_
    intro text cause h
    obtain ⟨rfl, rest, rfl⟩ := h
    exact stump_of_begins ⟨[], (), rfl⟩ rfl
  refine (Blames.stump_thenSkip (yields_valueWithin _ _) (blames_valueWithin _ _) hend
    ⟨[], (), rfl⟩).stump_mono ?_
  intro text v h
  obtain ⟨value, _, _, rfl, hvalue, rfl⟩ := h
  rw [List.append_nil]
  exact ⟨v, hvalue⟩

/-! ## Documents -/

/-- Some document that is accepted begins with the text. -/
def BeginsDocument (limits : Limits) (text : List Char) : Prop :=
  ∃ rest v n, parse (document limits) (String.ofList (text ++ rest)) = .done v n

theorem beginsDocument_of_begins {limits : Limits} {text : List Char}
    (h : (PaddedWithin limits.maxDepth).Begins text) : BeginsDocument limits text := by
  obtain ⟨rest, v, htext, hdepth⟩ := h
  rw [← String.toList_ofList (l := text ++ rest)] at htext
  exact ⟨rest, v, _, (decides_document limits htext).1 hdepth⟩

/-- Two escapes by number that fail alike are one and the same, or the later
one stands behind a high surrogate of the earlier. -/
theorem surrogate_between {source : String} {failure : Failure} {c e : Cursor}
    (hc : Cursor.Reached source c) (he : Cursor.Reached source e) (hcut : FailsInEscape failure c)
    (hcut' : FailsInEscape failure e) (hlt : c.position < e.position) :
    ∃ quad high, source.toList.take e.position =
        source.toList.take c.position ++ '\\' :: 'u' :: quad ∧
      UnitText quad high ∧ 0xD800 ≤ high ∧ high ≤ 0xDBFF := by
  obtain ⟨text, d, hreads, hat, hcut, -⟩ := cut_of_failsInEscape hcut hc.standsIn.placed
  obtain ⟨text', d', hreads', hat', -, -⟩ := cut_of_failsInEscape hcut' he.standsIn.placed
  obtain rfl : d = d' := by
    refine (hreads.standsIn hc.standsIn).eq_of_position_eq (hreads'.standsIn he.standsIn) ?_
    rw [← hat.position_eq, hat'.position_eq]
  obtain ⟨between, htake, hbetween⟩ := hc.reads_start.between he.reads_start hlt.le
  have heq := hreads.passed_unique (hbetween.trans hreads')
  cases between with
  | nil =>
      rw [hbetween.position_eq] at hlt
      simp at hlt
  | cons ch before =>
      obtain rfl : '\\' = ch := (List.cons.inj heq).1
      obtain ⟨quad, high, rfl, hquad⟩ := hcut.unit_of_append heq
      exact ⟨quad, high, htake, hquad⟩

/-- A document that fails can be completed up to the place that the failure
names, except that a failure inside an escape by number goes back to the
backslash that this escape begins with. -/
theorem parse_document_failed {limits : Limits} {source : String} {failure : Failure}
    (hfailed : parse (document limits) source = .failed failure) :
    (failure.cause.inUnicodeEscape = false →
      BeginsDocument limits (source.toList.take failure.position)) ∧
    (failure.cause.inUnicodeEscape = true →
      ∃ e, Cursor.Reached source e ∧ FailsInEscape failure e) ∧
    ∀ e, Cursor.Reached source e → FailsInEscape failure e →
      e.position ≤ failure.position ∧ BeginsDocument limits (source.toList.take e.position) := by
  obtain ⟨text, c, hreads, hanchored, hbegins, hsurrogate⟩ :=
    blames_document limits (Cursor.placed_start source) hfailed
  have hc : Cursor.Reached source c := Cursor.Reached.start.reads hreads
  obtain rfl := hreads.passed_unique hc.reads_start
  refine ⟨fun hcause => ?_, fun hcause => ?_, fun e he hfails => ?_⟩
  · rw [Anchored, if_neg (by simp [hcause])] at hanchored
    rw [hanchored.position_eq]
    exact beginsDocument_of_begins hbegins
  · rw [Anchored, if_pos hcause] at hanchored
    exact ⟨c, hc, hanchored⟩
  · obtain ⟨cut, d, hreadsCut, hat, -, hcause⟩ := cut_of_failsInEscape hfails he.standsIn.placed
    rw [Anchored, if_pos hcause] at hanchored
    refine ⟨?_, beginsDocument_of_begins ?_⟩
    · rw [hat.position_eq, hreadsCut.position_eq]
      exact Nat.le_add_right _ _
    · by_cases hle : e.position ≤ c.position
      · obtain ⟨between, htake, -⟩ := he.reads_start.between hc.reads_start hle
        rw [htake] at hbegins
        exact Reading.Begins.of_append _ _ hbegins
      · obtain ⟨quad, high, htake, hquad, hhigh⟩ :=
          surrogate_between hc he hanchored hfails (Nat.lt_of_not_le hle)
        rw [htake]
        exact hsurrogate hcause quad high hquad hhigh

/-- In the second half of a pair a digit is missing at position 12, and what can
be completed are the two characters before the first half. -/
theorem parse_document_failed_in_pair :
    let source := "[\"\\ud800\\u00X"
    let failure : Failure :=
      { cause := .unexpected (.member "hexadecimal digit") (some 'X')
        location := { text := source, position := 12 } }
    let e := (Cursor.start source).advance ['[', '"']
    parse (document { maxDepth := 1 }) source = .failed failure ∧ Cursor.Reached source e ∧
      FailsInEscape failure e ∧ e.position ≤ failure.position ∧
        BeginsDocument { maxDepth := 1 } (source.toList.take e.position) := by
  intro source failure e
  have hfailed : parse (document { maxDepth := 1 }) source = .failed failure := by
    decide +kernel
  have hrest : (Cursor.start source).rest = ['[', '"'] ++ "\\ud800\\u00X".toList := by
    decide
  have he : Cursor.Reached source e := Cursor.Reached.start.reads (Cursor.reads_advance hrest)
  have hfails : FailsInEscape failure e :=
    ⟨⟨"d800\\u00X".toList, (Cursor.rest_advance_of_eq hrest).trans (by decide)⟩, by decide +kernel⟩
  exact ⟨hfailed, he, hfails, (parse_document_failed hfailed).2.2 e he hfails⟩

end Rule

end JsonGrammar
