import JsonGrammar.Proofs.Parser.Relocation
import JsonGrammar.Proofs.Rule.Settling

/-!
# The rules of the grammar in two runs

Numbers, strings and words relocate.  They use the place where they begin only
to cut out what they have read and to blame it.

The rules for containers belong together in a coupling where the values inside
do (`coupled_entries`, `coupled_tokenOf`), whatever the two runs take for them.
With the same values inside, they relocate as well.
-/

namespace JsonGrammar

namespace Rule

open JsonGrammar.Parser

variable {α : Type}

/-! ## Numbers -/

theorem relocates_digit : digit.Relocates :=
  relocates_expecting _ _

theorem relocates_numeral : numeral.Relocates := by
  have hsign : (optional (char '-')).Relocates := (relocates_expecting _ _).optional
  have hwhole : wholePart.Relocates :=
    (relocates_expecting _ _).skip.orElse
      ((relocates_expecting _ _).pair relocates_digit.many).skip
  have hfraction : fraction.Relocates :=
    ((relocates_expecting _ _).pair relocates_digit.many1).skip
  have hexponent : exponent.Relocates :=
    (((relocates_expecting _ _).pair (relocates_expecting _ _).optional).pair
      relocates_digit.many1).skip
  exact (((hsign.pair hwhole).pair hfraction.optional).pair hexponent.optional).skip

/-- The span of a number is cut out by byte offsets, but it holds the text that
was read, and that is the same in both runs. -/
theorem relocates_number : number.Relocates := by
  refine relocates_of_run fun c d hc hd hrest => ?_
  have hcursors := Cursor.Abreast.refl hc hd hrest
  have hrun := relocates_numeral.run hc hd hrest
  unfold number withSpan
  generalize numeral c = first at hrun
  generalize numeral d = second at hrun
  cases hrun with
  | done hnext =>
      obtain ⟨text, hn, hm⟩ := hnext.reads
      simp only [Outcome.andThen_done, between?_of_reads hn, between?_of_reads hm]
      split
      · exact coupled_raise hcursors _
      · split_ifs
        · exact .done hnext
        · exact coupled_raise hcursors _
  | failed hfailures => exact .failed hfailures
  | outrun hfalse => exact hfalse.elim
  | stuck => exact .stuck

/-! ## Strings -/

theorem relocates_hexQuad : hexQuad.Relocates := by
  have hdigit : hexDigit.Relocates := (relocates_expecting _ _).map _
  refine Relocates.map (relocates_inTurn fun p hp => ?_) _
  obtain rfl := List.eq_of_mem_replicate hp
  exact hdigit

theorem coupled_characterAt {c₀ d₀ c d n m : Cursor} (h : Cursor.Abreast c₀ d₀ c d)
    (hnext : Cursor.Abreast c₀ d₀ n m) (codePoint : Nat) :
    (characterAt c codePoint n).Coupled (.abreast c₀ d₀) (characterAt d codePoint m) := by
  by_cases hvalid : codePoint.isValidChar
  · rw [characterAt_of_valid c n hvalid, characterAt_of_valid d m hvalid]
    exact .done hnext
  · rw [characterAt_of_not_valid c n hvalid, characterAt_of_not_valid d m hvalid]
    exact coupled_raise h _

theorem relocates_escapedUnit (unit : Nat) : (escapedUnit unit).Relocates := by
  refine relocates_of_run fun c d hc hd hrest => ?_
  have hcursors := Cursor.Abreast.refl hc hd hrest
  have hpair : ((literal "\\u").skipThen hexQuad).Relocates :=
    (relocates_literal _).skipThen relocates_hexQuad
  unfold escapedUnit
  split_ifs
  · exact coupled_raise hcursors _
  · refine (hpair.run hc hd hrest).andThen (fun low n m hnext => ?_)
      fun _ _ _ hfalse => False.elim hfalse
    split_ifs
    · exact coupled_characterAt hcursors hnext _
    · exact coupled_raise hcursors _
  · exact coupled_characterAt hcursors hcursors unit

theorem relocates_unicodeEscape : unicodeEscape.Relocates :=
  relocates_hexQuad.andThen relocates_escapedUnit

theorem relocates_letterEscape : letterEscape.Relocates :=
  (relocates_expecting _ _).map _

theorem relocates_escape : escape.Relocates := by
  refine (relocates_expecting _ _).andThen fun _ => relocates_of_run fun c d hc hd hrest => ?_
  have hnext : ∀ {c d n : Cursor}, c.rest = d.rest → c.next? = some ('u', n) →
      d.next? = some ('u', d.advance ['u']) := by
    intro c d n hrest hu
    have hreads := Cursor.next?_eq_some_iff.mp hu
    exact Cursor.next?_of_rest (hrest ▸ hreads.rest_eq)
  split
  · rename_i n hu
    obtain ⟨-, rfl⟩ := Prod.mk.inj (Option.some.inj (hu.symm.trans (hnext rfl hu)))
    rw [hnext hrest hu]
    exact (relocates_unicodeEscape c d).run
      ((Cursor.Abreast.refl hc hd hrest).advance (Cursor.next?_eq_some_iff.mp hu).rest_eq)
  · rename_i hother
    split
    · rename_i m hu
      exact absurd (hnext hrest.symm hu) (hother _)
    · exact relocates_letterEscape.run hc hd hrest

theorem relocates_textBody : textBody.Relocates := by
  have hplain : plainChar.Relocates := relocates_expecting _ _
  intro c₀ d₀
  refine (RoundCoupled.rounds ⟨fun c d h => ?_, fun _ _ hfalse => False.elim hfalse⟩ []).map _
  have hcloser : ∀ {p : Parser Char}, p.Relocates →
      (Round.ofOutcome (p c)).Coupled (.abreast c₀ d₀) d (.ofOutcome (p d)) :=
    fun hp => Round.coupled_ofOutcome ((hp c₀ d₀).run h) fun _ _ _ hfalse => False.elim hfalse
  have hpeek : c.peek? = d.peek? := by
    rw [Cursor.peek?, Cursor.peek?, h.rest_eq_next]
  unfold textRound
  rw [hpeek]
  split
  · exact .stop
  · exact .stop
  · exact hcloser relocates_escape
  · exact hcloser hplain

theorem relocates_stringLiteral : stringLiteral.Relocates :=
  (relocates_expecting _ _).between relocates_textBody (relocates_expecting _ _)

/-! ## Words -/

theorem relocates_null : null.Relocates :=
  (relocates_literal _).map _

theorem relocates_boolean : boolean.Relocates :=
  ((relocates_literal _).map _).orElse ((relocates_literal _).map _)

/-! ## Containers in a coupling -/

section

variable {K : Coupling}

theorem coupled_char (ch : Char) : Coupled K (char ch) (char ch) :=
  (relocates_expecting _ _).coupled (settles_expecting _ _)

theorem coupled_whitespace : Coupled K whitespace whitespace :=
  relocates_whitespace.coupled settles_whitespace

theorem relocates_closedAtOnce (closing : Char) : (closedAtOnce closing).Relocates :=
  relocates_whitespace.skipThen (relocates_expecting _ _).skip

/-- Entries belong together.  Only where the second run may go on alone do its
entries have to keep their place. -/
theorem coupled_entries {entry entry' : Parser α} (hentry : Coupled K entry entry')
    (hplace : ∀ failure d, K.outrun failure d → entry'.KeepsPlace) (closing : Char) :
    Coupled K (entries entry closing) (entries entry' closing) := by
  have hclosed : Relocates ((closedAtOnce closing).map fun _ => ([] : List α)) :=
    (relocates_closedAtOnce closing).map _
  have hsettles : Settles ((closedAtOnce closing).map fun _ => ([] : List α)) :=
    (settles_closedAtOnce closing).map _
  have hcomma : Lockstep K (char ',') (char ',') := (relocates_expecting _ _).lockstep
  refine (hclosed.coupled hsettles).orElse hclosed.lockstep
    ((hentry.separatedList (coupled_char ',') hcomma ?_).thenSkip (coupled_char closing))
  -- The comma alone brings the second run closer to the end.
  intro failure b a d n m hd houtrun hsep hitem
  obtain ⟨comma, hreads, rfl⟩ := yields_char ',' hd hsep
  obtain ⟨item, hreads', -⟩ := (hplace failure m houtrun).yields (hreads.placed hd) hitem
  exact (hreads.trans hreads').bytesLeft_lt hd (by simp)

theorem coupled_member {inner inner' : Parser Json} (hinner : Coupled K inner inner') :
    Coupled K (member inner) (member inner') :=
  (coupled_whitespace.skipThen ((relocates_stringLiteral.coupled settles_stringLiteral).thenSkip
    (coupled_whitespace.pair (coupled_char ':')))).pair hinner

theorem coupled_arrayOf {inner inner' : Parser Json} (hinner : Coupled K inner inner')
    (hplace : ∀ failure d, K.outrun failure d → inner'.KeepsPlace) (limit limit' : Nat) :
    Coupled K (arrayOf limit (some inner)) (arrayOf limit' (some inner')) :=
  (coupled_char '[').skipThen ((coupled_entries hinner hplace ']').map _)

theorem coupled_objectOf {inner inner' : Parser Json} (hinner : Coupled K inner inner')
    (hplace : ∀ failure d, K.outrun failure d → inner'.KeepsPlace) (limit limit' : Nat) :
    Coupled K (objectOf limit (some inner)) (objectOf limit' (some inner')) :=
  (coupled_char '{').skipThen
    ((coupled_entries (coupled_member hinner)
      (fun failure d h => keepsPlace_member (hplace failure d h)) '}').map _)

/-- Two tokens belong together where their arrays and their objects do. -/
theorem coupled_tokenOf {limit limit' : Nat} {inner? inner?' : Option (Parser Json)}
    (harray : Coupled K (arrayOf limit inner?) (arrayOf limit' inner?'))
    (hobject : Coupled K (objectOf limit inner?) (objectOf limit' inner?'))
    (hsettles : ∀ inner ∈ inner?', inner.Settles) :
    Coupled K (tokenOf limit inner?) (tokenOf limit' inner?') where
  follow := fun _ _ h => (settles_tokenOf hsettles limit').follow h
  run := by
    intro c d h
    have hpeek : c.peek? = d.peek? := by
      rw [Cursor.peek?, Cursor.peek?, K.rest_eq h]
    have hfail : ∀ cause, Coupled K (fail cause : Parser Json) (fail cause) := fun cause =>
      (relocates_fail cause).coupled (settles_fail cause)
    unfold tokenOf
    rw [hpeek]
    split
    · exact (hfail _).run h
    · split_ifs
      · exact harray.run h
      · exact hobject.run h
      · exact ((relocates_stringLiteral.map _).coupled (settles_stringLiteral.map _)).run h
      · exact ((relocates_number.map _).coupled (settles_number.map _)).run h
      · exact (relocates_null.coupled settles_null).run h
      · exact (relocates_boolean.coupled settles_boolean).run h
      · exact (hfail _).run h

theorem coupled_valueOf {limit limit' : Nat} {inner? inner?' : Option (Parser Json)}
    (htoken : Coupled K (tokenOf limit inner?) (tokenOf limit' inner?')) :
    Coupled K (valueOf limit inner?) (valueOf limit' inner?') :=
  coupled_whitespace.skipThen (htoken.thenSkip coupled_whitespace)

end

/-! ## Containers and values in another place -/

theorem relocates_bracketed_none (opening : Char) (limit : Nat) :
    (bracketed opening limit none).Relocates := by
  refine relocates_of_run fun c d hc hd hrest => ?_
  refine ((relocates_expecting _ _).run hc hd hrest).andThen (fun _ _ _ _ => ?_)
    fun _ _ _ hfalse => False.elim hfalse
  exact coupled_raise (.refl hc hd hrest) _

theorem relocates_arrayWithin (limit levels : Nat)
    (hinner : ∀ l, levels = l + 1 → Relocates (valueWithin limit l)) :
    (arrayOf limit (innerWithin limit levels)).Relocates := by
  cases levels with
  | zero => exact relocates_bracketed_none '[' limit
  | succ l =>
      exact fun c₀ d₀ =>
        coupled_arrayOf (hinner l rfl c₀ d₀) (fun _ _ hfalse => False.elim hfalse) limit limit

theorem relocates_objectWithin (limit levels : Nat)
    (hinner : ∀ l, levels = l + 1 → Relocates (valueWithin limit l)) :
    (objectOf limit (innerWithin limit levels)).Relocates := by
  cases levels with
  | zero => exact relocates_bracketed_none '{' limit
  | succ l =>
      exact fun c₀ d₀ =>
        coupled_objectOf (hinner l rfl c₀ d₀) (fun _ _ hfalse => False.elim hfalse) limit limit

theorem relocates_valueWithin (limit levels : Nat) : Relocates (valueWithin limit levels) := by
  refine valueWithin_induction (P := fun _ p => p.Relocates) limit
    (fun levels ih c₀ d₀ => ?_) levels
  exact coupled_valueOf (coupled_tokenOf (relocates_arrayWithin limit levels ih c₀ d₀)
    (relocates_objectWithin limit levels ih c₀ d₀) (settles_innerWithin limit levels))

theorem relocates_array (limits : Limits) : (array limits).Relocates :=
  relocates_arrayWithin _ _ fun l _ => relocates_valueWithin _ l

theorem relocates_object (limits : Limits) : (object limits).Relocates :=
  relocates_objectWithin _ _ fun l _ => relocates_valueWithin _ l

theorem relocates_document (limits : Limits) : (document limits).Relocates :=
  (relocates_valueWithin _ _).thenSkip relocates_endOfInput

end Rule

end JsonGrammar
