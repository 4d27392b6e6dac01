import JsonGrammar.Proofs.Grammar.Containers

/-!
# The rules for values and documents

The rules read the texts of the grammar and no others.  Both directions are an
induction on the levels that may still be opened:

* `yields_valueWithin`: what is read for a value is a text of it, and the value
  nests no deeper than allowed;
* `takes_valueWithin`: a text of a value is taken whole if the value nests no
  deeper than allowed, and otherwise fails for its nesting.

For a document the two make an equivalence (`parse_document_eq_done_iff`).
-/

namespace JsonGrammar

/-! ## Nesting -/

namespace Json

theorem itemsDepth_le_iff {items : List Json} {n : Nat} :
    itemsDepth items ≤ n ↔ ∀ v ∈ items, v.depth ≤ n := by
  induction items with
  | nil => simp [itemsDepth]
  | cons v items ih => simp [itemsDepth, ih]

theorem membersDepth_le_iff {members : List (String × Json)} {n : Nat} :
    membersDepth members ≤ n ↔ ∀ m ∈ members, m.2.depth ≤ n := by
  induction members with
  | nil => simp [membersDepth]
  | cons m members ih => simp [membersDepth, ih]

theorem depth_array_le_iff {items : List Json} {n : Nat} :
    (array items).depth ≤ n + 1 ↔ ∀ v ∈ items, v.depth ≤ n := by
  rw [depth, Nat.add_le_add_iff_right, itemsDepth_le_iff]

theorem depth_object_le_iff {members : List (String × Json)} {n : Nat} :
    (object members).depth ≤ n + 1 ↔ ∀ m ∈ members, m.2.depth ≤ n := by
  rw [depth, Nat.add_le_add_iff_right, membersDepth_le_iff]

end Json

namespace Rule

open JsonGrammar.Parser Grammar

/-! ## The texts of containers -/

theorem valueText_array_iff {text : List Char} {items : List Json} :
    ValueText text (.array items) ↔
      ∃ body, text = '[' :: body ∧ EntriesText PaddedText ']' body items := by
  constructor
  · intro h
    cases h with
    | emptyArray h => exact ⟨_, rfl, .none h⟩
    | array h => exact ⟨_, rfl, .some h⟩
  · intro h'
    obtain ⟨body, rfl, h⟩ := h'
    cases h with
    | none h => exact .emptyArray h
    | some h => exact .array h

theorem valueText_object_iff {text : List Char} {members : List (String × Json)} :
    ValueText text (.object members) ↔
      ∃ body, text = '{' :: body ∧ EntriesText MemberText '}' body members := by
  constructor
  · intro h
    cases h with
    | emptyObject h => exact ⟨_, rfl, .none h⟩
    | object h => exact ⟨_, rfl, .some h⟩
  · intro h'
    obtain ⟨body, rfl, h⟩ := h'
    cases h with
    | none h => exact .emptyObject h
    | some h => exact .object h

/-! ## Words -/

theorem yields_null : null.Yields fun text v => v = .null ∧ ValueText text v := by
  refine ((yields_literal "null").map _).mono ?_
  intro text v h
  obtain ⟨_, ⟨rfl, -⟩, rfl⟩ := h
  exact ⟨rfl, .null⟩

theorem yields_boolean : boolean.Yields fun text v => (∃ b, v = .bool b) ∧ ValueText text v := by
  refine (((yields_literal "true").map _).orElse ((yields_literal "false").map _)).mono ?_
  intro text v h
  rcases h with ⟨_, ⟨rfl, -⟩, rfl⟩ | ⟨_, ⟨rfl, -⟩, rfl⟩
  · exact ⟨⟨true, rfl⟩, .truth⟩
  · exact ⟨⟨false, rfl⟩, .falsehood⟩

theorem consumes_null {text : List Char} (h : ValueText text .null) (rest : List Char) :
    null.Consumes text .null rest := by
  cases h
  exact (consumes_literal "null" rest).map _

theorem consumes_boolean {text : List Char} {b : Bool} (h : ValueText text (.bool b))
    (rest : List Char) : boolean.Consumes text (.bool b) rest := by
  cases h with
  | truth => exact ((consumes_literal "true" rest).map _).orElse
  | falsehood =>
      have hmismatch : ¬ "true".toList <+: "false".toList ++ rest := by
        intro hprefix'
        obtain ⟨more, hmore⟩ := hprefix'
        exact absurd (List.cons.inj hmore).1 (by decide)
      have hrefused : ((literal "true").map fun _ => Json.bool true).Refuses
          ("false".toList ++ rest) :=
        (refuses_literal hmismatch).map _
      exact hrefused.orElse ((consumes_literal "false" rest).map _)

/-! ## What is read -/

/-- The texts and values of `PaddedText` that nest no deeper than `levels`. -/
def PaddedWithin (levels : Nat) : Reading Json := fun text v =>
  PaddedText text v ∧ v.depth ≤ levels

/-- The texts and values of `ValueText` that nest no deeper than `levels`. -/
def ValueWithin (levels : Nat) : Reading Json := fun text v =>
  ValueText text v ∧ v.depth ≤ levels

/-- Blanks, a value and blanks. -/
theorem paddedWithin_of_parts (levels : Nat) (text : List Char) (v : Json)
    (h : BlankText.SkipThen ((ValueWithin levels).ThenSkip BlankText) text v) :
    PaddedWithin levels text v := by
  obtain ⟨before, _, _, rfl, hbefore, token, after, _, rfl, ⟨htoken, hdepth⟩, hafter⟩ := h
  rw [← List.append_assoc]
  exact ⟨.padded hbefore htoken hafter, hdepth⟩

theorem memberText_of_within (levels : Nat) (text : List Char) (m : String × Json)
    (h : MemberOf (PaddedWithin levels) text m) : MemberText text m ∧ m.2.depth ≤ levels := by
  obtain ⟨before, keyText, after, valueText, htext, hbefore, hkey, hafter, hvalue, hdepth⟩ := h
  rw [htext]
  exact ⟨.pair hbefore hkey hafter hvalue, hdepth⟩

/-- Behind a bracket the items make an array one level deeper. -/
theorem valueWithin_array {levels : Nat} {body : List Char} {v : Json}
    (h : (EntriesText (PaddedWithin levels) ']').Map Json.array body v) :
    (∃ items, v = .array items) ∧ ValueWithin (levels + 1) ('[' :: body) v := by
  obtain ⟨items, hitems, rfl⟩ := h
  obtain ⟨hitems, hdepth⟩ := hitems.forall fun _ _ h => h
  exact ⟨⟨items, rfl⟩, valueText_array_iff.mpr ⟨body, rfl, hitems⟩,
    Json.depth_array_le_iff.mpr hdepth⟩

/-- Behind a brace the members make an object one level deeper. -/
theorem valueWithin_object {levels : Nat} {body : List Char} {v : Json}
    (h : (EntriesText (MemberOf (PaddedWithin levels)) '}').Map Json.object body v) :
    (∃ members, v = .object members) ∧ ValueWithin (levels + 1) ('{' :: body) v := by
  obtain ⟨members, hmembers, rfl⟩ := h
  obtain ⟨hmembers, hdepth⟩ := hmembers.forall (memberText_of_within levels)
  exact ⟨⟨members, rfl⟩, valueText_object_iff.mpr ⟨body, rfl, hmembers⟩,
    Json.depth_object_le_iff.mpr hdepth⟩

section

variable {limit levels : Nat}
  (hinner : ∀ l, levels = l + 1 → Yields (valueWithin limit l) (PaddedWithin l))

include hinner

theorem yields_arrayWithin :
    (arrayOf limit (innerWithin limit levels)).Yields fun text v =>
      (∃ items, v = .array items) ∧ ValueWithin levels text v := by
  cases levels with
  | zero => exact (yields_bracketed_none '[' limit).mono fun _ _ => False.elim
  | succ l =>
      refine
        (yields_bracketed ((yields_entries (hinner l rfl) ']').map Json.array) '[' limit).mono ?_
      intro text v h
      obtain ⟨body, rfl, hbody⟩ := h
      exact valueWithin_array hbody

theorem yields_objectWithin :
    (objectOf limit (innerWithin limit levels)).Yields fun text v =>
      (∃ members, v = .object members) ∧ ValueWithin levels text v := by
  cases levels with
  | zero => exact (yields_bracketed_none '{' limit).mono fun _ _ => False.elim
  | succ l =>
      refine (yields_bracketed
        ((yields_entries (yields_member (hinner l rfl)) '}').map Json.object) '{' limit).mono ?_
      intro text v h
      obtain ⟨body, rfl, hbody⟩ := h
      exact valueWithin_object hbody

theorem yields_tokenWithin :
    (tokenOf limit (innerWithin limit levels)).Yields (ValueWithin levels) := by
  intro c n v hc hrun
  unfold tokenOf at hrun
  split at hrun
  · simp [fail] at hrun
  · split_ifs at hrun
    · obtain ⟨text, hreads, -, htext⟩ := yields_arrayWithin hinner hc hrun
      exact ⟨text, hreads, htext⟩
    · obtain ⟨text, hreads, -, htext⟩ := yields_objectWithin hinner hc hrun
      exact ⟨text, hreads, htext⟩
    · obtain ⟨text, hreads, s, htext, rfl⟩ := yields_stringLiteral.map _ hc hrun
      exact ⟨text, hreads, .string htext, Nat.zero_le _⟩
    · obtain ⟨text, hreads, x, htext, rfl⟩ := yields_number.map _ hc hrun
      exact ⟨text, hreads, .number htext, Nat.zero_le _⟩
    · obtain ⟨text, hreads, rfl, htext⟩ := yields_null hc hrun
      exact ⟨text, hreads, htext, Nat.zero_le _⟩
    · obtain ⟨text, hreads, ⟨b, rfl⟩, htext⟩ := yields_boolean hc hrun
      exact ⟨text, hreads, htext, Nat.zero_le _⟩
    · simp [fail] at hrun

theorem yields_valueOf :
    (valueOf limit (innerWithin limit levels)).Yields (PaddedWithin levels) :=
  (yields_whitespace.skipThen ((yields_tokenWithin hinner).thenSkip yields_whitespace)).mono
    (paddedWithin_of_parts levels)

end

/-- What is read for a value is a text of it, and it nests no deeper than the
levels that may be opened. -/
theorem yields_valueWithin (limit levels : Nat) :
    Yields (valueWithin limit levels) (PaddedWithin levels) :=
  valueWithin_induction (P := fun levels p => p.Yields (PaddedWithin levels)) limit
    (fun _ => yields_valueOf) levels

/-! ## Where the texts begin -/

theorem numberText_head {text : List Char} {x : Binary64} (h : NumberText text x) :
    ∃ ch more, text = ch :: more ∧ (ch = '-' ∨ ch.isDigit = true) := by
  cases h with
  | @rounded form _ hform _ _ _ =>
      obtain ⟨first, rest, hwhole, hfirst⟩ := hform.whole.exists_cons
      rw [NumberForm.text, NumberForm.signText, hwhole]
      cases form.negative with
      | true => exact ⟨'-', _, rfl, Or.inl rfl⟩
      | false => exact ⟨first, _, rfl, Or.inr hfirst⟩

theorem isBlank_of_isDigit {ch : Char} (hdigit : ch.isDigit = true) : isBlank ch = false := by
  simp only [isBlank, Bool.or_eq_false_iff, beq_eq_false_iff_ne]
  exact ⟨⟨⟨ne_of_isDigit hdigit (by decide), ne_of_isDigit hdigit (by decide)⟩,
    ne_of_isDigit hdigit (by decide)⟩, ne_of_isDigit hdigit (by decide)⟩

/-- The text of a value begins with neither white space nor a closing
bracket. -/
theorem valueText_head {text : List Char} {v : Json} (h : ValueText text v) :
    ∃ ch more, text = ch :: more ∧ isBlank ch = false ∧ ch ≠ ']' := by
  cases h with
  | number h =>
      obtain ⟨ch, more, rfl, rfl | hdigit⟩ := numberText_head h
      · exact ⟨_, more, rfl, by decide, by decide⟩
      · exact ⟨ch, more, rfl, isBlank_of_isDigit hdigit, ne_of_isDigit hdigit (by decide)⟩
  | string h =>
      cases h
      exact ⟨_, _, rfl, by decide, by decide⟩
  | null => exact ⟨_, _, rfl, by decide, by decide⟩
  | truth => exact ⟨_, _, rfl, by decide, by decide⟩
  | falsehood => exact ⟨_, _, rfl, by decide, by decide⟩
  | emptyArray => exact ⟨_, _, rfl, by decide, by decide⟩
  | array => exact ⟨_, _, rfl, by decide, by decide⟩
  | emptyObject => exact ⟨_, _, rfl, by decide, by decide⟩
  | object => exact ⟨_, _, rfl, by decide, by decide⟩

theorem paddedText_opens (text : List Char) (v : Json) (h : PaddedText text v) :
    OpensBefore ']' text := by
  cases h with
  | @padded before token after _ hbefore h _ =>
      obtain ⟨ch, more, rfl, hblank, hne⟩ := valueText_head h
      exact ⟨before, ch, more ++ after, by simp, hbefore, hblank, hne⟩

theorem memberText_opens (text : List Char) (m : String × Json) (h : MemberText text m) :
    OpensBefore '}' text := by
  cases h with
  | @pair before keyText after valueText key v hbefore hkey _ _ =>
      cases hkey with
      | @quoted body chars _ =>
          exact ⟨before, '"', body ++ '"' :: (after ++ ':' :: valueText), by simp, hbefore,
            by decide, by decide⟩

theorem numberEnds_blank {blank rest : List Char} (hblank : Blank blank) (hrest : NumberEnds rest) :
    NumberEnds (blank ++ rest) := by
  cases blank with
  | nil => exact hrest
  | cons ch blank =>
      refine ends_cons.mpr ?_
      rcases hblank ch List.mem_cons_self with rfl | rfl | rfl | rfl <;> decide

/-! ## The first character of a value -/

section

variable {limit : Nat} {inner? : Option (Parser Json)} {c : Cursor} {ch : Char}

theorem tokenOf_of_bracket (hch : c.rest.head? = some '[') :
    tokenOf limit inner? c = arrayOf limit inner? c := by
  simp [tokenOf, Cursor.peek?, hch]

theorem tokenOf_of_brace (hch : c.rest.head? = some '{') :
    tokenOf limit inner? c = objectOf limit inner? c := by
  simp [tokenOf, Cursor.peek?, hch]

theorem tokenOf_of_quote (hch : c.rest.head? = some '"') :
    tokenOf limit inner? c = stringLiteral.map Json.string c := by
  simp [tokenOf, Cursor.peek?, hch]

theorem tokenOf_of_numeral (hch : c.rest.head? = some ch)
    (hnumeral : ch = '-' ∨ ch.isDigit = true) :
    tokenOf limit inner? c = number.map Json.number c := by
  have hne : ∀ other : Char, other.isDigit = false → other ≠ '-' → ch ≠ other := by
    intro other hother hminus heq
    subst heq
    rcases hnumeral with h | h
    · exact hminus h
    · exact ne_of_isDigit h hother rfl
  rw [tokenOf, Cursor.peek?, hch]
  simp only
  rw [if_neg (hne '[' (by decide) (by decide)), if_neg (hne '{' (by decide) (by decide)),
    if_neg (hne '"' (by decide) (by decide)), if_pos hnumeral]

theorem tokenOf_of_null (hch : c.rest.head? = some 'n') : tokenOf limit inner? c = null c := by
  simp [tokenOf, Cursor.peek?, hch, show ¬ Char.isDigit 'n' = true by decide]

theorem tokenOf_of_boolean (hch : c.rest.head? = some ch) (hletter : ch = 't' ∨ ch = 'f') :
    tokenOf limit inner? c = boolean c := by
  rcases hletter with rfl | rfl
  · simp [tokenOf, Cursor.peek?, hch, show ¬ Char.isDigit 't' = true by decide]
  · simp [tokenOf, Cursor.peek?, hch, show ¬ Char.isDigit 'f' = true by decide]

end

/-! ## What is taken -/

/-- A member is taken whole where its value fits. -/
theorem takes_member {inner : Parser Json} {fits : Json → Prop} {cause : Cause}
    (hinner : Takes inner PaddedText fits cause) :
    Takes (member inner) MemberText (fun m => fits m.2) cause := by
  intro text rest m h hends
  cases h with
  | @pair before keyText after valueText key v hbefore hkey hafter hvalue =>
      have hquote : Ends isBlank (keyText ++ (after ++ [':']) ++ (valueText ++ rest)) := by
        cases hkey
        exact ends_cons.mpr (by decide)
      have hcolon : (pair whitespace (char ':')).Consumes (after ++ [':']) ((), ':')
          (valueText ++ rest) :=
        (consumes_whitespace hafter (ends_cons.mpr (by decide))).pair (consumes_char ':' _)
      have hkeyPart := (consumes_whitespace hbefore hquote).skipThen
        ((consumes_stringLiteral hkey _).thenSkip hcolon)
      have htext : before ++ keyText ++ after ++ ':' :: valueText =
          before ++ (keyText ++ (after ++ [':'])) ++ valueText := by
        simp
      rw [htext]
      exact hkeyPart.pair_decided (hinner hvalue hends)

section

variable {limit levels : Nat}
  (hinner : ∀ l, levels = l + 1 →
    Takes (valueWithin limit l) PaddedText (fun v => v.depth ≤ l) (.nestedTooDeep limit))

include hinner

theorem consumesIf_arrayWithin {text : List Char} {items : List Json}
    (h : ValueText text (.array items)) (rest : List Char) :
    (arrayOf limit (innerWithin limit levels)).ConsumesIf ((Json.array items).depth ≤ levels) text
      (.array items) rest (.nestedTooDeep limit) := by
  obtain ⟨body, rfl, hbody⟩ := valueText_array_iff.mp h
  cases levels with
  | zero =>
      have hdeep : ¬ (Json.array items).depth ≤ 0 := by
        rw [Json.depth]
        omega
      exact consumesIf_bracketed_none hdeep '[' limit body (.array items) rest
  | succ l =>
      have hentries := consumesIf_bracketed (hinner l rfl) (yields_valueWithin limit l)
        paddedText_opens closing_bracket hbody Json.array '[' rest
      exact hentries.congr Json.depth_array_le_iff.symm

theorem consumesIf_objectWithin {text : List Char} {members : List (String × Json)}
    (h : ValueText text (.object members)) (rest : List Char) :
    (objectOf limit (innerWithin limit levels)).ConsumesIf ((Json.object members).depth ≤ levels)
      text (.object members) rest (.nestedTooDeep limit) := by
  obtain ⟨body, rfl, hbody⟩ := valueText_object_iff.mp h
  cases levels with
  | zero =>
      have hdeep : ¬ (Json.object members).depth ≤ 0 := by
        rw [Json.depth]
        omega
      exact consumesIf_bracketed_none hdeep '{' limit body (.object members) rest
  | succ l =>
      have hentries := consumesIf_bracketed (takes_member (hinner l rfl))
        (yields_member (yields_valueWithin limit l)) memberText_opens closing_brace hbody
        Json.object '{' rest
      exact hentries.congr Json.depth_object_le_iff.symm

/-- What follows a value matters to it only where it is a number. -/
theorem consumesIf_tokenWithin {text rest : List Char} {v : Json} (h : ValueText text v)
    (hends : ∀ x, v = .number x → NumberEnds rest) :
    (tokenOf limit (innerWithin limit levels)).ConsumesIf (v.depth ≤ levels) text v rest
      (.nestedTooDeep limit) := by
  intro c hc hrest
  cases v with
  | array items =>
      obtain ⟨body, htext, -⟩ := valueText_array_iff.mp h
      rw [tokenOf_of_bracket (by rw [hrest, htext]; rfl)]
      exact consumesIf_arrayWithin hinner h rest hc hrest
  | object members =>
      obtain ⟨body, htext, -⟩ := valueText_object_iff.mp h
      rw [tokenOf_of_brace (by rw [hrest, htext]; rfl)]
      exact consumesIf_objectWithin hinner h rest hc hrest
  | string s =>
      cases h with
      | string h =>
          have hquote : c.rest.head? = some '"' := by
            rw [hrest]
            cases h
            rfl
          rw [tokenOf_of_quote hquote]
          exact ((consumes_stringLiteral h rest).map _).decided (Nat.zero_le _) _ hc hrest
  | number x =>
      cases h with
      | number h =>
          obtain ⟨ch, more, htext, hch⟩ := numberText_head h
          rw [tokenOf_of_numeral (by rw [hrest, htext]; rfl) hch]
          exact ((consumes_number h (hends x rfl)).map _).decided (Nat.zero_le _) _ hc hrest
  | null =>
      have hletter : c.rest.head? = some 'n' := by
        rw [hrest]
        cases h
        rfl
      rw [tokenOf_of_null hletter]
      exact (consumes_null h rest).decided (Nat.zero_le _) _ hc hrest
  | bool value =>
      obtain ⟨ch, hch, hletter⟩ : ∃ ch, c.rest.head? = some ch ∧ (ch = 't' ∨ ch = 'f') := by
        rw [hrest]
        cases h with
        | truth => exact ⟨_, rfl, Or.inl rfl⟩
        | falsehood => exact ⟨_, rfl, Or.inr rfl⟩
      rw [tokenOf_of_boolean hch hletter]
      exact (consumes_boolean h rest).decided (Nat.zero_le _) _ hc hrest

theorem takes_valueOf :
    Takes (valueOf limit (innerWithin limit levels)) PaddedText (fun v => v.depth ≤ levels)
      (.nestedTooDeep limit) := by
  intro text rest v h hends
  cases h with
  | @padded before token after _ hbefore h hafter =>
      have hfirst : Ends isBlank (token ++ after ++ rest) := by
        obtain ⟨ch, more, rfl, hblank, -⟩ := valueText_head h
        exact ends_cons.mpr hblank
      have hnumber : NumberEnds (after ++ rest) := numberEnds_blank hafter hends.2
      have htoken := (consumesIf_tokenWithin hinner h fun _ _ => hnumber).thenSkip
        (consumes_whitespace hafter hends.1)
      rw [List.append_assoc]
      exact (consumes_whitespace hbefore hfirst).skipThen_decided htoken

end

/-- A text of a value is taken whole where the value nests no deeper than the
levels that may be opened, and otherwise fails for its nesting. -/
theorem takes_valueWithin (limit levels : Nat) :
    Takes (valueWithin limit levels) PaddedText (fun v => v.depth ≤ levels)
      (.nestedTooDeep limit) :=
  valueWithin_induction (P := fun levels p => Takes p PaddedText (fun v => v.depth ≤ levels)
    (.nestedTooDeep limit)) limit (fun _ => takes_valueOf) levels

/-! ## Documents -/

/-- A text of a value is a document where the value nests no deeper than the
limit. -/
theorem decides_document (limits : Limits) {source : String} {v : Json}
    (h : PaddedText source.toList v) :
    Decides (parse (document limits) source) (v.depth ≤ limits.maxDepth) v (Cursor.finish source)
      (.nestedTooDeep limits.maxDepth) := by
  have hvalue := takes_valueWithin limits.maxDepth limits.maxDepth h ⟨ends_nil _, ends_nil _⟩
  have hdocument : (document limits).ConsumesIf (v.depth ≤ limits.maxDepth)
      (source.toList ++ []) v [] (.nestedTooDeep limits.maxDepth) :=
    hvalue.thenSkip consumes_endOfInput
  have hrun := hdocument (Cursor.placed_start source) (by simp [Cursor.start])
  rwa [List.append_nil, Cursor.advance_toList] at hrun

/-- A document is read exactly from the texts of its value, if the value nests
no deeper than the limit, and it is read to the end. -/
theorem parse_document_eq_done_iff (limits : Limits) (source : String) (v : Json) (n : Cursor) :
    parse (document limits) source = .done v n ↔
      PaddedText source.toList v ∧ v.depth ≤ limits.maxDepth ∧ n = Cursor.finish source := by
  constructor
  · intro hrun
    obtain ⟨a, m, hvalue, hend⟩ := andThen_eq_done_iff.mp hrun
    obtain ⟨text, hreads, htext, hdepth⟩ :=
      yields_valueWithin _ _ (Cursor.placed_start source) hvalue
    obtain ⟨_, hfinish, rfl⟩ := map_eq_done_iff.mp hend
    obtain ⟨hrest, rfl⟩ :=
      (endOfInput_eq_done_iff (hreads.placed (Cursor.placed_start source))).mp hfinish
    obtain ⟨rfl, rfl⟩ := hreads.eq_finish hrest
    exact ⟨htext, hdepth, rfl⟩
  · intro h
    obtain ⟨htext, hdepth, rfl⟩ := h
    exact (decides_document limits htext).1 hdepth

end Rule

end JsonGrammar
