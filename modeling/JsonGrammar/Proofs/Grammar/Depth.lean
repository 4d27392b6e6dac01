import JsonGrammar.Proofs.Grammar.Brackets
import JsonGrammar.Proofs.Grammar.Prefixes
import JsonGrammar.Proofs.Rule.Causes
import JsonGrammar.Proofs.Rule.Coupling

/-!
# The limit on nesting

A limit changes nothing but where runs fail for their nesting.  Two runs with
different limits go side by side until the smaller limit is exceeded, and from
there on the other one is further on (`deepens_valueWithin`).

The levels that the rules count are the brackets that the scanner counts: where
the limit is exceeded stands the first bracket with that many unclosed brackets
before it (`blames_tooDeep_valueWithin`).
-/

namespace JsonGrammar

/-! ## Two limits -/

/-- Two runs over one source.  Where the first fails because it is nested too
deep, the second fails later or goes on. -/
def Coupling.deepening (limit : Nat) : Coupling :=
  together
    (fun failure later => later = failure ∨
      failure.cause = .nestedTooDeep limit ∧ failure.position < later.position)
    (fun failure d => failure.cause = .nestedTooDeep limit ∧ failure.position < d.position)
    (fun _ => Or.inl rfl)
    (by
      intro failure d text n h hreads
      refine ⟨h.1, ?_⟩
      rw [hreads.position_eq]
      omega)
    (by
      intro failure d later h hat
      rw [← hat.position_eq] at h
      exact Or.inr h)

namespace Rule

open JsonGrammar.Parser Grammar

/-- Where the first run may open no level, the second one is behind the
bracket. -/
theorem deepens_bracketed_none (opening : Char) (limit limit' : Nat) {content : Parser Json}
    (hcontent : content.Settles) :
    Coupled (.deepening limit) (bracketed opening limit none)
      (bracketed opening limit' (some content)) where
  follow := by
    intro failure d h
    refine (settles_bracketed opening limit' fun other hother => ?_).follow h
    obtain rfl := Option.some.inj hother
    exact hcontent
  run := by
    intro c d h
    obtain ⟨hc, hd⟩ := h
    subst hd
    unfold bracketed
    cases hopen : char opening d with
    | done ch behind =>
        obtain ⟨_, hreads, rfl⟩ := yields_char opening hc hopen
        have hlt : d.position < behind.position := by
          rw [hreads.position_eq]
          exact Nat.lt_succ_self _
        exact hcontent.follow ⟨hreads.placed hc, rfl, hlt⟩
    | failed failure => exact .failed (Or.inl rfl)
    | stuck => exact .stuck

/-- With more levels to open, a run is the same or goes further before it
fails. -/
theorem deepens_valueWithin (limit limit' : Nat) {levels levels' : Nat} (hlt : levels < levels') :
    Coupled (.deepening limit) (valueWithin limit levels) (valueWithin limit' levels') := by
  induction levels generalizing levels' with
  | zero =>
      obtain ⟨more, rfl⟩ := Nat.exists_eq_succ_of_ne_zero (Nat.ne_of_gt hlt)
      have hsettles := (settles_valueWithin limit' more)
      exact coupled_valueOf (coupled_tokenOf
        (deepens_bracketed_none '[' limit limit' ((settles_entries hsettles ']').map _))
        (deepens_bracketed_none '{' limit limit'
          ((settles_entries (settles_member hsettles) '}').map _))
        (settles_innerWithin limit' (more + 1)))
  | succ levels ih =>
      obtain ⟨more, rfl⟩ := Nat.exists_eq_succ_of_ne_zero (Nat.ne_of_gt (Nat.zero_lt_of_lt hlt))
      have hinner := ih (Nat.lt_of_succ_lt_succ hlt)
      have hplace := fun (failure : Failure) (d : Cursor)
        (_ : (Coupling.deepening limit).outrun failure d) => keepsPlace_valueWithin limit' more
      exact coupled_valueOf (coupled_tokenOf (coupled_arrayOf hinner hplace limit limit')
        (coupled_objectOf hinner hplace limit limit') (settles_innerWithin limit' (more + 1)))

/-! ## Where the limit is exceeded -/

/-- A failure is put down to the place it names, and one for nesting to a place
where a bracket opens. -/
def AtBracket (limit : Nat) : Mark := fun failure d =>
  failure.At d ∧ (failure.cause = .nestedTooDeep limit →
    ∃ ch more, d.rest = ch :: more ∧ isOpening ch = true)

/-- A failure for nesting has a text before it that opens all the levels. -/
def TooDeep (limit levels : Nat) : Blame := fun text cause =>
  cause.isLexical = true ∨ cause = .nestedTooDeep limit ∧ Climbs levels text

theorem TooDeep.prepend {limit levels : Nat} {xs ys : List Char} {cause : Cause}
    (h : TooDeep limit levels ys cause) (hxs : Levelled levels xs) :
    TooDeep limit levels (xs ++ ys) cause :=
  h.imp_right fun hdeep => ⟨hdeep.1, .prepend hxs hdeep.2⟩

section

variable {α β : Type} {limit levels : Nat}

theorem blames_tooDeep_of_lexical {p : Parser α} (hplace : p.KeepsPlace) (hp : Lexical p)
    (limit levels : Nat) : p.Blames (AtBracket limit) (TooDeep limit levels) := by
  intro c failure hc hrun
  obtain ⟨text, d, hreads, hat, -⟩ := hplace.blames hc hrun
  have hcause := hp hrun
  refine ⟨text, d, hreads, ⟨hat, fun hdeep => ?_⟩, Or.inl hcause⟩
  rw [hdeep] at hcause
  simp [Cause.isLexical] at hcause

theorem blames_tooDeep_andThen {p : Parser α} {continuation : α → Parser β} {A : Reading α}
    (hyields : p.Yields A) (hA : ∀ text a, A text a → Levelled levels text)
    (hp : p.Blames (AtBracket limit) (TooDeep limit levels))
    (hcontinuation : ∀ a, (continuation a).Blames (AtBracket limit) (TooDeep limit levels)) :
    (p.andThen continuation).Blames (AtBracket limit) (TooDeep limit levels) := by
  refine (Blames.andThen hyields hp hcontinuation).mono ?_
  intro text cause h
  rcases h with hfirst | ⟨first, a, second, rfl, hfirst, hsecond⟩
  · exact hfirst
  · exact hsecond.prepend (hA first a hfirst)

theorem blames_tooDeep_entries {entry : Parser α} {A : Reading α} (hyields : entry.Yields A)
    (hA : ∀ text a, A text a → Levelled levels text)
    (hentry : entry.Blames (AtBracket limit) (TooDeep limit levels)) (closing : Char) :
    (entries entry closing).Blames (AtBracket limit) (TooDeep limit levels) := by
  have hcomma : Levelled levels [','] :=
    levelled_of_plain levels (by simp [isOpening, isClosing])
  have hlist :
      (separatedList entry (char ',')).Blames (AtBracket limit) (TooDeep limit levels) := by
    refine (Blames.separatedList hyields hentry (yields_char ',')).mono ?_
    intro text cause h
    rcases h with hfirst | ⟨first, a, _, rfl, hfirst, items, values, _, rfl, hitems, _, ch, last,
      rfl, rfl, hlast⟩
    · exact hfirst
    · have hlevelled : Levelled levels items := by
        clear hlast
        induction hitems with
        | nil => exact levelled_nil levels
        | cons hitem _ ih =>
            obtain ⟨_, _, item, rfl, rfl, hitem⟩ := hitem
            exact (hcomma.append (hA item _ hitem)).append ih
      exact ((hlast.prepend hcomma).prepend hlevelled).prepend (hA first a hfirst)
  have hclosing : (char closing).Blames (AtBracket limit) (TooDeep limit levels) :=
    blames_tooDeep_of_lexical (keepsPlace_expecting _ _) (lexical_expecting _ _) limit levels
  exact Blames.orElse (blames_tooDeep_andThen (yields_separatedList hyields)
    (fun text values h => levelled_of_separated h fun text a _ => hA text a) hlist
    fun _ => hclosing.map _)

theorem blames_tooDeep_member {inner : Parser Json}
    (hinner : inner.Blames (AtBracket limit) (TooDeep limit levels)) :
    (member inner).Blames (AtBracket limit) (TooDeep limit levels) := by
  have hcolon : Levelled levels [':'] :=
    levelled_of_plain levels (by simp [isOpening, isClosing])
  have hplace := keepsPlace_whitespace.skipThen (keepsPlace_stringLiteral.thenSkip
    (keepsPlace_whitespace.pair (keepsPlace_expecting (.character ':') (· == ':'))))
  have hlexical := lexical_whitespace.skipThen (lexical_stringLiteral.thenSkip
    (lexical_whitespace.pair (lexical_expecting (.character ':') (· == ':'))))
  refine blames_tooDeep_andThen (yields_whitespace.skipThen (yields_stringLiteral.thenSkip
    (yields_whitespace.pair (yields_char ':')))) ?_
    (blames_tooDeep_of_lexical hplace hlexical limit levels) fun _ => hinner.map _
  intro text key h
  obtain ⟨before, _, _, rfl, hbefore, keyText, _, _, rfl, hkey, after, _, rfl, hafter, rfl⟩ := h
  exact (levelled_of_blank levels hbefore).append ((levelled_of_stringText levels hkey).append
    ((levelled_of_blank levels hafter).append hcolon))

/-- Where no level may be opened the bracket itself is blamed. -/
theorem blames_tooDeep_bracketed_none {opening : Char} (hopening : isOpening opening = true)
    (limit : Nat) :
    (bracketed opening limit none).Blames (AtBracket limit) (TooDeep limit 0) := by
  intro c failure hc hrun
  rcases Outcome.andThen_eq_failed_iff.mp hrun with hfirst | ⟨ch, n, hopen, hrun⟩
  · exact blames_tooDeep_of_lexical (keepsPlace_expecting _ _) (lexical_expecting _ _) limit 0 hc
      hfirst
  · obtain rfl := Outcome.failed.inj hrun
    obtain ⟨_, hreads, rfl⟩ := yields_char opening hc hopen
    exact ⟨[], c, .refl c,
      ⟨Failure.raise_at c _, fun _ => ⟨opening, n.rest, hreads.rest_eq, hopening⟩⟩,
      Or.inr ⟨rfl, climbs_nil⟩⟩

/-- The bracket in front of the content opens one of the levels. -/
theorem blames_tooDeep_bracketed {opening : Char} (hopening : isOpening opening = true)
    {content : Parser Json} (hcontent : content.Blames (AtBracket limit) (TooDeep limit levels)) :
    (bracketed opening limit (some content)).Blames (AtBracket limit)
      (TooDeep limit (levels + 1)) := by
  rw [bracketed_some]
  have hopen := blames_tooDeep_of_lexical (keepsPlace_expecting (.character opening) (· == opening))
    (lexical_expecting _ _) limit (levels + 1)
  refine (Blames.andThen (yields_char opening) hopen fun _ => hcontent).mono ?_
  intro text cause h
  rcases h with hfirst | ⟨_, _, body, rfl, rfl, hbody⟩
  · exact hfirst
  · exact hbody.imp_right fun hdeep => ⟨hdeep.1, hdeep.2.opened hopening⟩

end

section

variable {limit levels : Nat}
  (hinner : ∀ l, levels = l + 1 →
    Blames (valueWithin limit l) (AtBracket limit) (TooDeep limit l))

include hinner

theorem blames_tooDeep_arrayWithin :
    (arrayOf limit (innerWithin limit levels)).Blames (AtBracket limit) (TooDeep limit levels) := by
  cases levels with
  | zero => exact blames_tooDeep_bracketed_none rfl limit
  | succ l =>
      exact blames_tooDeep_bracketed rfl ((blames_tooDeep_entries (yields_valueWithin limit l)
        (fun text v h => levelled_of_paddedText l text v h.1 h.2) (hinner l rfl) ']').map _)

theorem blames_tooDeep_objectWithin :
    (objectOf limit (innerWithin limit levels)).Blames (AtBracket limit)
      (TooDeep limit levels) := by
  cases levels with
  | zero => exact blames_tooDeep_bracketed_none rfl limit
  | succ l =>
      refine blames_tooDeep_bracketed rfl ((blames_tooDeep_entries
        (yields_member (yields_valueWithin limit l)) (fun text m h => ?_)
        (blames_tooDeep_member (hinner l rfl)) '}').map _)
      obtain ⟨hmember, hdepth⟩ := memberText_of_within l text m h
      exact levelled_of_memberText hmember fun text h => levelled_of_paddedText l text m.2 h hdepth

theorem blames_tooDeep_tokenWithin :
    (tokenOf limit (innerWithin limit levels)).Blames (AtBracket limit) (TooDeep limit levels) := by
  have hfail : ∀ found, (fail (.unexpected (.member "a JSON value") found) : Parser Json).Blames
      (AtBracket limit) (TooDeep limit levels) := by
    intro found
    refine blames_tooDeep_of_lexical (keepsPlace_fail _) (fun c failure hrun => ?_) limit levels
    obtain rfl := Outcome.failed.inj hrun
    rfl
  intro c failure hc hrun
  unfold tokenOf at hrun
  split at hrun
  · exact hfail _ hc hrun
  · split_ifs at hrun
    · exact blames_tooDeep_arrayWithin hinner hc hrun
    · exact blames_tooDeep_objectWithin hinner hc hrun
    · exact blames_tooDeep_of_lexical (keepsPlace_stringLiteral.map _)
        (lexical_stringLiteral.map _) limit levels hc hrun
    · exact blames_tooDeep_of_lexical (keepsPlace_number.map _)
        (lexical_number.map _) limit levels hc hrun
    · exact blames_tooDeep_of_lexical keepsPlace_null lexical_null limit levels hc hrun
    · exact blames_tooDeep_of_lexical keepsPlace_boolean lexical_boolean limit levels hc hrun
    · exact hfail _ hc hrun

theorem blames_tooDeep_valueOf :
    (valueOf limit (innerWithin limit levels)).Blames (AtBracket limit) (TooDeep limit levels) := by
  have hblank := blames_tooDeep_of_lexical keepsPlace_whitespace lexical_whitespace limit levels
  refine blames_tooDeep_andThen yields_whitespace (fun _ _ h => levelled_of_blank levels h) hblank
    fun _ => blames_tooDeep_andThen (yields_tokenWithin fun l _ => yields_valueWithin limit l)
      (fun text v h => ?_) (blames_tooDeep_tokenWithin hinner) fun _ => hblank.map _
  have hpadded : PaddedText ([] ++ text ++ []) v := .padded blank_nil h.1 blank_nil
  rw [List.nil_append, List.append_nil] at hpadded
  exact levelled_of_paddedText levels text v hpadded h.2

end

/-- A value that is nested too deep fails where the scanner finds the first
bracket with all levels opened before it. -/
theorem blames_tooDeep_valueWithin (limit levels : Nat) :
    Blames (valueWithin limit levels) (AtBracket limit) (TooDeep limit levels) :=
  valueWithin_induction (P := fun levels p => p.Blames (AtBracket limit) (TooDeep limit levels))
    limit (fun _ => blames_tooDeep_valueOf) levels

/-! ## A counter that goes up -/

/-- A value inside `depth` brackets, with a counter that cannot count beyond
`top`.  There is no outcome where a value is asked for beyond the limit, or
where the depth of the values inside it cannot be counted. -/
def valueCounting (top limit depth : Nat) : Parser Json :=
  if limit < depth then fun _ => .stuck
  else if h : depth < limit then
    if depth < top then valueOf limit (some (valueCounting top limit (depth + 1)))
    else fun _ => .stuck
  else valueOf limit none
termination_by limit - depth

/-- Where the limit itself can be counted, so can every depth that is asked
for. -/
theorem valueCounting_eq {top limit : Nat} (hlimit : limit ≤ top) {levels depth : Nat}
    (hlevels : depth + levels = limit) :
    valueCounting top limit depth = valueWithin limit levels := by
  induction levels generalizing depth with
  | zero =>
      rw [valueCounting, if_neg (by omega), dif_neg (by omega), valueWithin_eq]
      rfl
  | succ levels ih =>
      rw [valueCounting, if_neg (by omega), dif_pos (by omega), if_pos (by omega), valueWithin_eq,
        ih (by omega)]
      rfl

/-! ## Values with two limits -/

theorem nestedTooDeep_of_message {limit levels : Nat} {text : List Char} {cause : Cause}
    (h : TooDeep limit levels text cause)
    (hmessage : cause.message = (Cause.nestedTooDeep limit).message) :
    cause = .nestedTooDeep limit ∧ Climbs levels text := by
  rcases h with hlexical | hdeep
  · exact absurd hmessage (Cause.message_ne_of_isLexical hlexical limit)
  · exact hdeep

/-- A value that is read with a larger limit, although the smaller one is
exceeded, is nested deeper than that. -/
theorem lt_depth_of_done {limit limit' : Nat} {source : String} {failure : Failure}
    (hfailed : parse (value { maxDepth := limit }) source = .failed failure)
    (hcause : failure.cause = .nestedTooDeep limit) {v : Json} {n : Cursor}
    (hdone : parse (value { maxDepth := limit' }) source = .done v n) : limit < v.depth := by
  have hc := Cursor.placed_start source
  obtain ⟨text, hreads, htext, -⟩ := yields_valueWithin _ _ hc hdone
  refine Nat.lt_of_not_le fun hdepth => ?_
  have hstands : text <+: (Cursor.start source).rest := ⟨n.rest, hreads.rest_eq.symm⟩
  rcases valueWithin_of_text limit hc htext hdepth hstands with
    ⟨w, _, m, hdone', -⟩ | ⟨blank, longest, _, _, _, _, _, hfailed'⟩
  · exact absurd (hfailed.symm.trans hdone') (by simp)
  · obtain rfl := Outcome.failed.inj (hfailed.symm.trans hfailed')
    exact absurd hcause (by simp [Failure.raise])

/-- A larger limit changes nothing, unless the smaller one is exceeded.  That is
where the first bracket opens with as many unclosed brackets before it, and
with the larger limit the value is nested deeper or fails further on.  The
depths that are counted never exceed the limit. -/
theorem parse_value_of_limit_lt {limit limit' : Nat} (hlt : limit < limit') (source : String) :
    ((∀ failure, parse (value { maxDepth := limit }) source = .failed failure →
        failure.message ≠ "maximum nesting depth of " ++ toString limit ++ " exceeded") →
      parse (value { maxDepth := limit' }) source = parse (value { maxDepth := limit }) source) ∧
    (∀ failure, parse (value { maxDepth := limit }) source = .failed failure →
      failure.message = "maximum nesting depth of " ++ toString limit ++ " exceeded" →
      failure.location.text = source ∧ FirstOpensAt limit source.toList failure.position ∧
        ((∃ v n, parse (value { maxDepth := limit' }) source = .done v n ∧ limit < v.depth) ∨
          ∃ later, parse (value { maxDepth := limit' }) source = .failed later ∧
            failure.position < later.position)) ∧
    parse (value { maxDepth := limit }) source ≠ .stuck ∧
    ∀ top anyLimit, anyLimit ≤ top →
      valueCounting top anyLimit 0 = value { maxDepth := anyLimit } := by
  have hc := Cursor.placed_start source
  have hboth : (parse (value { maxDepth := limit }) source).Coupled (.deepening limit)
      (parse (value { maxDepth := limit' }) source) :=
    (deepens_valueWithin limit limit' hlt).run ⟨hc, rfl⟩
  refine ⟨fun hother => ?_, fun failure hfailed hmessage => ?_,
    (settles_value { maxDepth := limit }).ne_stuck hc,
    fun top anyLimit hle => valueCounting_eq hle (Nat.zero_add anyLimit)⟩
  · generalize parse (value { maxDepth := limit }) source = first at hboth hother ⊢
    generalize parse (value { maxDepth := limit' }) source = second at hboth ⊢
    cases hboth with
    | done hnext => rw [hnext.2]
    | failed hfailures =>
        rcases hfailures with rfl | ⟨hcause, -⟩
        · rfl
        · exact absurd (by rw [Failure.message, hcause]; rfl) (hother _ rfl)
    | outrun houtrun => exact absurd (by rw [Failure.message, houtrun.2.1]; rfl) (hother _ rfl)
    | stuck => rfl
  · obtain ⟨text, d, hreads, ⟨hat, hbracket⟩, hdeep⟩ :=
      blames_tooDeep_valueWithin limit limit hc hfailed
    obtain ⟨hcause, hclimbs⟩ := nestedTooDeep_of_message hdeep hmessage
    obtain ⟨ch, more, hrest, hopening⟩ := hbracket hcause
    refine ⟨by rw [hat, hreads.source_eq]; rfl, ?_, ?_⟩
    · have hsource : source.toList = text ++ ch :: more := by
        rw [← hrest]
        exact hreads.rest_eq
      have hposition : failure.position = text.length := by
        rw [hat.position_eq, hreads.position_eq]
        exact Nat.zero_add _
      have hpasses := hclimbs 0
      rw [Nat.zero_add] at hpasses
      rw [hsource, hposition]
      exact firstOpensAt_of_passes hpasses hopening
    · rw [hfailed] at hboth
      generalize hsecond : parse (value { maxDepth := limit' }) source = second at hboth
      cases hboth with
      | outrun houtrun =>
          exact Or.inl ⟨_, _, rfl, lt_depth_of_done hfailed hcause hsecond⟩
      | @failed _ later hfailures =>
          refine Or.inr ⟨later, rfl, ?_⟩
          rcases hfailures with rfl | ⟨-, hlater⟩
          · -- With the larger limit nothing is blamed on the smaller one.
            obtain ⟨_, _, -, -, hlexical | ⟨hother, -⟩⟩ :=
              blames_tooDeep_valueWithin limit' limit' hc hsecond
            · simp [hcause, Cause.isLexical] at hlexical
            · rw [hcause, Cause.nestedTooDeep.injEq] at hother
              exact absurd hother (Nat.ne_of_lt hlt)
          · exact hlater

/-- The second bracket exceeds a limit of one, the bracket in the string does
not count, and with a limit of two the array is read. -/
theorem parse_value_of_limit_lt_two :
    let source := "[\"[\", [7]]"
    let failure : Failure :=
      { cause := .nestedTooDeep 1, location := { text := source, position := 6 } }
    parse (value { maxDepth := 1 }) source = .failed failure ∧
      FirstOpensAt 1 source.toList failure.position ∧
        ((∃ v n, parse (value { maxDepth := 2 }) source = .done v n ∧ 1 < v.depth) ∨
          ∃ later, parse (value { maxDepth := 2 }) source = .failed later ∧
            failure.position < later.position) := by
  intro source failure
  have hfailed : parse (value { maxDepth := 1 }) source = .failed failure := by
    decide +kernel
  have hlimits := (parse_value_of_limit_lt (show 1 < 2 by decide) source).2.1 failure hfailed rfl
  exact ⟨hfailed, hlimits.2⟩

end Rule

end JsonGrammar
