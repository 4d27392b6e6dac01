import JsonGrammar.Proofs.Grammar.Values

/-!
# Where the rules stop

A rule is delimited by what may follow (`Parser.Delimited`): a text it has taken
somewhere it takes again, with the same value, wherever it stands in front of
such a text.  Since every rule reads texts of the grammar, and takes those texts
whole, nothing that a rule looks at behind its text makes a difference
(`Delimited.of_yields`).

Words, strings and containers show their own end.  The first character of a text
picks the rule, so that two of their texts of which one begins the other are
taken at one place by one rule, and are the same
(`ValueText.eq_of_prefix`).
-/

namespace JsonGrammar

namespace Parser

variable {α : Type} {p : Parser α} {A : Reading α} {follow : List Char → Prop}

/-- What the parser has taken somewhere it takes, with the same value, in front
of every text that may follow. -/
def Delimited (p : Parser α) (follow : List Char → Prop) : Prop :=
  ∀ ⦃c n : Cursor⦄ ⦃v : α⦄ ⦃text : List Char⦄, c.Placed → p c = .done v n → c.Reads text n →
    ∀ rest, follow rest → p.Consumes text v rest

/-- The parser takes the text somewhere. -/
def CanTake (p : Parser α) (text : List Char) : Prop :=
  ∃ c n v, c.Placed ∧ p c = .done v n ∧ c.Reads text n

/-- A parser that reads texts of a relation, and takes them whole, is
delimited. -/
theorem Delimited.of_yields (hyields : p.Yields A)
    (hconsumes : ∀ ⦃text rest v⦄, A text v → follow rest → p.Consumes text v rest) :
    p.Delimited follow := by
  intro c n v text hc hrun hreads rest hrest
  obtain ⟨text', hreads', htext⟩ := hyields hc hrun
  obtain rfl := hreads.passed_unique hreads'
  exact hconsumes htext hrest

theorem Yields.of_canTake (hyields : p.Yields A) {text : List Char} (h : p.CanTake text) :
    ∃ v, A text v := by
  obtain ⟨c, n, v, hc, hrun, hreads⟩ := h
  obtain ⟨text', hreads', htext⟩ := hyields hc hrun
  obtain rfl := hreads.passed_unique hreads'
  exact ⟨v, htext⟩

end Parser

namespace Rule

open JsonGrammar.Parser Grammar

/-! ## Each rule -/

theorem delimited_null : null.Delimited fun _ => True := by
  refine .of_yields yields_null fun text rest v h _ => ?_
  obtain ⟨rfl, htext⟩ := h
  exact consumes_null htext rest

theorem delimited_boolean : boolean.Delimited fun _ => True := by
  refine .of_yields yields_boolean fun text rest v h _ => ?_
  obtain ⟨⟨b, rfl⟩, htext⟩ := h
  exact consumes_boolean htext rest

theorem delimited_stringLiteral : stringLiteral.Delimited fun _ => True :=
  .of_yields yields_stringLiteral fun _ rest _ h _ => consumes_stringLiteral h rest

theorem delimited_number : number.Delimited NumberEnds :=
  .of_yields yields_number fun _ _ _ h hends => consumes_number h hends

theorem delimited_value (limits : Limits) : (value limits).Delimited ValueEnds :=
  .of_yields (yields_valueWithin _ _) fun _ _ _ h hends =>
    (takes_valueWithin _ _ h.1 hends).consumes h.2

theorem delimited_array (limits : Limits) : (array limits).Delimited fun _ => True := by
  refine .of_yields (yields_arrayWithin fun l _ => yields_valueWithin _ l)
    fun text rest v h _ => ?_
  obtain ⟨⟨items, rfl⟩, htext, hdepth⟩ := h
  exact (consumesIf_arrayWithin (fun l _ => takes_valueWithin _ l) htext rest).consumes hdepth

theorem delimited_object (limits : Limits) : (object limits).Delimited fun _ => True := by
  refine .of_yields (yields_objectWithin fun l _ => yields_valueWithin _ l)
    fun text rest v h _ => ?_
  obtain ⟨⟨members, rfl⟩, htext, hdepth⟩ := h
  exact (consumesIf_objectWithin (fun l _ => takes_valueWithin _ l) htext rest).consumes hdepth

/-! ## Texts that begin one another -/

/-- The text of a value that is no number does not go on to that of another
value. -/
theorem ValueText.eq_of_prefix {text text' : List Char} {v v' : Json} (h : ValueText text v)
    (h' : ValueText text' v') (hv : ∀ x, v ≠ .number x) (hbegins : text <+: text') :
    text = text' := by
  obtain ⟨more, rfl⟩ := hbegins
  obtain ⟨levels, hle, hle'⟩ : ∃ levels, v.depth ≤ levels ∧ v'.depth ≤ levels :=
    ⟨_, le_max_left _ _, le_max_right _ _⟩
  let c := Cursor.start (String.ofList (text ++ more))
  have hc : c.Placed := Cursor.placed_start _
  have hrest : c.rest = text ++ more := String.toList_ofList
  have hinner : ∀ l, levels = l + 1 →
      Takes (valueWithin levels l) PaddedText (fun v => v.depth ≤ l) (.nestedTooDeep levels) :=
    fun l _ => takes_valueWithin levels l
  have hrun := (consumesIf_tokenWithin hinner h fun x hx => absurd hx (hv x)).consumes hle hc hrest
  have hrun' := (consumesIf_tokenWithin hinner h' fun _ _ => ends_nil _).consumes hle' hc
    (hrest.trans (List.append_nil _).symm)
  have hsame : c.advance text = c.advance (text ++ more) :=
    (Outcome.done.inj (hrun.symm.trans hrun')).2
  have hlength := congrArg Cursor.position hsame
  rw [Cursor.position_advance, Cursor.position_advance, List.length_append] at hlength
  rw [List.eq_nil_of_length_eq_zero (show more.length = 0 by omega), List.append_nil]

/-- The texts that the rules for words, strings and containers can take. -/
def ClosedText (text : List Char) : Prop :=
  null.CanTake text ∨ boolean.CanTake text ∨ stringLiteral.CanTake text ∨
    ∃ limits, (array limits).CanTake text ∨ (object limits).CanTake text

theorem ClosedText.valueText {text : List Char} (h : ClosedText text) :
    ∃ v, ValueText text v ∧ ∀ x, v ≠ .number x := by
  rcases h with h | h | h | ⟨limits, h | h⟩
  · obtain ⟨v, rfl, htext⟩ := yields_null.of_canTake h
    exact ⟨_, htext, by simp⟩
  · obtain ⟨v, ⟨b, rfl⟩, htext⟩ := yields_boolean.of_canTake h
    exact ⟨_, htext, by simp⟩
  · obtain ⟨s, htext⟩ := yields_stringLiteral.of_canTake h
    exact ⟨.string s, .string htext, by simp⟩
  · obtain ⟨v, ⟨items, rfl⟩, htext, -⟩ :=
      (yields_arrayWithin fun l _ => yields_valueWithin limits.maxDepth l).of_canTake h
    exact ⟨_, htext, by simp⟩
  · obtain ⟨v, ⟨members, rfl⟩, htext, -⟩ :=
      (yields_objectWithin fun l _ => yields_valueWithin limits.maxDepth l).of_canTake h
    exact ⟨_, htext, by simp⟩

/-! ## All rules -/

/-- What follows a word, a string or a container makes no difference to it, and
so none of their texts begins another.  A number is the same in front of
everything that cannot belong to it, and a value in front of everything that
is no white space either. -/
theorem rules_delimited :
    null.Delimited (fun _ => True) ∧ boolean.Delimited (fun _ => True) ∧
      stringLiteral.Delimited (fun _ => True) ∧
      (∀ limits, (array limits).Delimited fun _ => True) ∧
      (∀ limits, (object limits).Delimited fun _ => True) ∧
      (∀ text text', ClosedText text → ClosedText text' → text <+: text' → text = text') ∧
      number.Delimited NumberEnds ∧ ∀ limits, (value limits).Delimited ValueEnds := by
  refine ⟨delimited_null, delimited_boolean, delimited_stringLiteral, delimited_array,
    delimited_object, fun text text' h h' hbegins => ?_, delimited_number, delimited_value⟩
  obtain ⟨v, htext, hv⟩ := h.valueText
  obtain ⟨v', htext', -⟩ := h'.valueText
  exact ValueText.eq_of_prefix htext htext' hv hbegins

end Rule

end JsonGrammar
