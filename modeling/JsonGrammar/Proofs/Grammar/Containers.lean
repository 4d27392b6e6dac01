import JsonGrammar.Proofs.Grammar.Numbers
import JsonGrammar.Proofs.Grammar.Strings
import JsonGrammar.Rule.Value

/-!
# White space and containers

The rules that take the parser for the entries of a container as an argument.
Whatever relation the entries are read by, a container reads entries between
commas, or blanks alone (`yields_entries`).

The other way round two things can happen to a text of entries: all of them
fit and it is taken whole, or one of them does not and the cause is that one's
(`consumesIf_entries`).  The loop never goes too far, since no entry begins
where a comma or a closing bracket stands.
-/

namespace JsonGrammar

/-- Entries between commas, or blanks alone, and the closing bracket. -/
inductive Grammar.EntriesText {α : Type} (A : Reading α) (closing : Char) : Reading (List α) where
  | none {blank : List Char} (h : Blank blank) : EntriesText A closing (blank ++ [closing]) []
  | some {body : List Char} {values : List α} (h : Reading.Separated A body values) :
      EntriesText A closing (body ++ [closing]) values

/-- What holds of every entry holds of all of them together. -/
theorem Grammar.EntriesText.forall {α : Type} {A B : Reading α} {P : α → Prop} {closing : Char}
    (hsub : ∀ text a, A text a → B text a ∧ P a) {text : List Char} {values : List α}
    (h : EntriesText A closing text values) :
    EntriesText B closing text values ∧ ∀ a ∈ values, P a := by
  cases h with
  | none h => exact ⟨.none h, by simp⟩
  | some h =>
      obtain ⟨hbody, hvalues⟩ := h.forall hsub
      exact ⟨.some hbody, hvalues⟩

namespace Rule

open JsonGrammar.Parser Grammar

variable {α β : Type}

/-! ## White space -/

theorem blank_iff {text : List Char} : Blank text ↔ ∀ ch ∈ text, isBlank ch = true := by
  simp [Blank, isBlank, or_assoc]

/-- White space, which has no value. -/
def BlankText : Reading Unit := fun text _ =>
  Blank text

theorem yields_whitespace : whitespace.Yields BlankText :=
  (yields_many_expecting _ _).skip.mono fun _ _ ⟨_, _, h⟩ => blank_iff.mpr h

theorem consumes_whitespace {blank rest : List Char} (hblank : Blank blank)
    (hends : Ends isBlank rest) : whitespace.Consumes blank () rest :=
  (consumes_many _ (blank_iff.mp hblank) hends).skip

/-! ## What is read -/

/-- An item and further ones behind commas are a list with commas. -/
theorem separated_of_repeated {A : Reading α} {first rest : List Char} {a : α}
    {further : List α} (hfirst : A first a)
    (hrest : Reading.Repeated (Reading.SkipThen (.Only [','] : Reading Char) A) rest further) :
    Reading.Separated A (first ++ rest) (a :: further) := by
  induction hrest generalizing first a with
  | nil =>
      rw [List.append_nil]
      exact .one hfirst
  | cons hitem _ ih =>
      obtain ⟨_, _, item, rfl, rfl, hA⟩ := hitem
      exact .more hfirst (ih hA)

theorem separated_of_parts (A : Reading α) (text : List Char) (values : List α)
    (h : A.Then (fun a text values => ∃ further,
      Reading.Repeated (Reading.SkipThen (.Only [','] : Reading Char) A) text further ∧
        values = a :: further) text values) : Reading.Separated A text values := by
  obtain ⟨first, a, rest, rfl, hfirst, further, hrest, rfl⟩ := h
  exact separated_of_repeated hfirst hrest

theorem yields_separatedList {entry : Parser α} {A : Reading α} (hentry : entry.Yields A) :
    (separatedList entry (char ',')).Yields (Reading.Separated A) :=
  (hentry.separatedList (yields_char ',')).mono (separated_of_parts A)

theorem entriesText_of_parts (A : Reading α) (closing : Char) (text : List Char) (values : List α)
    (h : (Reading.Separated A).ThenSkip (.Only [closing] : Reading Char) text values) :
    EntriesText A closing text values := by
  obtain ⟨body, _, _, rfl, hbody, rfl⟩ := h
  exact .some hbody

/-- A container reads entries up to the closing bracket. -/
theorem yields_entries {entry : Parser α} {A : Reading α} (hentry : entry.Yields A)
    (closing : Char) : (entries entry closing).Yields (EntriesText A closing) := by
  have hclosed := (yields_whitespace.skipThen (yields_char closing).skip).map
    fun _ => ([] : List α)
  refine (hclosed.orElse ((yields_separatedList hentry).thenSkip (yields_char closing))).mono ?_
  intro text values h'
  rcases h' with ⟨_, ⟨blank, _, _, rfl, hblank, _, rfl⟩, rfl⟩ | h
  · exact .none hblank
  · exact entriesText_of_parts A closing text values h

/-- Where levels are left a container is a bracket and its content. -/
theorem bracketed_some (opening : Char) (limit : Nat) (content : Parser Json) :
    bracketed opening limit (some content) = (char opening).skipThen content := rfl

theorem yields_bracketed_none (opening : Char) (limit : Nat) :
    (bracketed opening limit none).Yields fun _ _ => False := by
  intro c n v hc hrun
  obtain ⟨_, m, -, hrun⟩ := Outcome.andThen_eq_done_iff.mp hrun
  simp at hrun

theorem yields_bracketed {content : Parser Json} {A : Reading Json} (hcontent : content.Yields A)
    (opening : Char) (limit : Nat) :
    (bracketed opening limit (some content)).Yields fun text v =>
      ∃ body, text = opening :: body ∧ A body v := by
  rw [bracketed_some]
  refine ((yields_char opening).skipThen hcontent).mono ?_
  intro text v h
  obtain ⟨_, _, body, rfl, rfl, hA⟩ := h
  exact ⟨body, rfl, hA⟩

/-- A key, a colon and a text of the relation for values. -/
def MemberOf (A : Reading Json) : Reading (String × Json) := fun text m =>
  ∃ before keyText after valueText, text = before ++ keyText ++ after ++ ':' :: valueText ∧
    Blank before ∧ StringText keyText m.1 ∧ Blank after ∧ A valueText m.2

theorem memberOf_of_parts (A : Reading Json) (text : List Char) (m : String × Json)
    (h : ((Reading.SkipThen BlankText (StringText.ThenSkip
      (BlankText.Pair (.Only [':'] : Reading Char)))).Pair A) text m) : MemberOf A text m := by
  obtain ⟨_, valueText, rfl, ⟨before, _, _, rfl, hbefore, keyText, _, _, rfl, hkey, after, _, rfl,
    hafter, rfl⟩, hvalue⟩ := h
  exact ⟨before, keyText, after, valueText, by simp, hbefore, hkey, hafter, hvalue⟩

theorem yields_member {inner : Parser Json} {A : Reading Json} (hinner : inner.Yields A) :
    (member inner).Yields (MemberOf A) :=
  ((yields_whitespace.skipThen (yields_stringLiteral.thenSkip
    (yields_whitespace.pair (yields_char ':')))).pair hinner).mono (memberOf_of_parts A)

/-! ## What is taken -/

/-- The text goes on with nothing that could belong to a value before it. -/
def ValueEnds (rest : List Char) : Prop :=
  Ends isBlank rest ∧ NumberEnds rest

theorem valueEnds_comma (rest : List Char) : ValueEnds (',' :: rest) :=
  ⟨ends_cons.mpr (by decide), ends_cons.mpr (by decide)⟩

/-- The parser takes a text of the relation whole where the value fits, and
fails for the cause where it does not. -/
def Takes (p : Parser α) (A : Reading α) (fits : α → Prop) (cause : Cause) : Prop :=
  ∀ ⦃text rest : List Char⦄ ⦃a : α⦄, A text a → ValueEnds rest →
    p.ConsumesIf (fits a) text a rest cause

/-- A bracket that closes a container. -/
structure Closing (closing : Char) : Prop where
  ends : ∀ rest, ValueEnds (closing :: rest)
  ne_comma : closing ≠ ','
  not_blank : isBlank closing = false

theorem closing_bracket : Closing ']' where
  ends := fun _ => ⟨ends_cons.mpr (by decide), ends_cons.mpr (by decide)⟩
  ne_comma := by decide
  not_blank := by decide

theorem closing_brace : Closing '}' where
  ends := fun _ => ⟨ends_cons.mpr (by decide), ends_cons.mpr (by decide)⟩
  ne_comma := by decide
  not_blank := by decide

/-- Behind its blanks the text begins with something else than a closing
bracket. -/
def OpensBefore (closing : Char) (text : List Char) : Prop :=
  ∃ blank ch more, text = blank ++ ch :: more ∧ Blank blank ∧ isBlank ch = false ∧ ch ≠ closing

theorem OpensBefore.append {closing : Char} {text : List Char} (h : OpensBefore closing text)
    (rest : List Char) : OpensBefore closing (text ++ rest) := by
  obtain ⟨blank, ch, more, rfl, hblank, hch, hne⟩ := h
  exact ⟨blank, ch, more ++ rest, by simp, hblank, hch, hne⟩

/-- Where something else than a closing bracket comes, the container is not
closed at once. -/
theorem closedAtOnce_refuses {closing : Char} {text : List Char}
    (hopens : OpensBefore closing text) : (closedAtOnce closing).Refuses text := by
  obtain ⟨blank, ch, more, rfl, hblank, hch, hne⟩ := hopens
  exact (consumes_whitespace hblank (ends_cons.mpr hch)).andThen_refuses (refuses_char hne _).skip

section

variable {entry : Parser α} {A B : Reading α} {fits : α → Prop} {cause : Cause} {closing : Char}

/-- A list with commas is decided by its items, whatever was taken before. -/
theorem consumesIf_separated (hentry : Takes entry A fits cause) (hyields : entry.Yields B)
    (hclosing : Closing closing) {text rest : List Char} {values : List α}
    (h : Reading.Separated A text values) (taken : List α) :
    (entry.andThen fun a => rounds (separatedRound entry (char ',')) (a :: taken)).ConsumesIf
      (∀ a ∈ values, fits a) text (taken.reverse ++ values) (closing :: rest) cause := by
  induction h generalizing taken with
  | @one text a h =>
      have hstop : Consumes (rounds (separatedRound entry (char ',')) (a :: taken)) []
          (taken.reverse ++ [a]) (closing :: rest) := by
        rw [← List.reverse_cons]
        exact consumes_rounds_nil (refuses_char hclosing.ne_comma rest) (a :: taken)
      have hitem : entry.ConsumesIf (fits a) text a ([] ++ closing :: rest) cause :=
        hentry h (hclosing.ends rest)
      rw [← List.append_nil text]
      refine (hitem.andThen_consumes hstop).congr ?_
      simp
  | @more text behind a values h _ ih =>
      have hloop := consumesIf_rounds_cons hyields (consumes_char ',' (behind ++ closing :: rest))
        (List.cons_ne_nil _ _) (ih (a :: taken))
      rw [List.reverse_cons, List.append_assoc] at hloop
      have hitem : entry.ConsumesIf (fits a) text a ([','] ++ behind ++ closing :: rest) cause :=
        hentry h (valueEnds_comma _)
      refine (hitem.andThen hloop).congr ?_
      simp

/-- A text of entries is taken whole where all of them fit. -/
theorem consumesIf_entries (hentry : Takes entry A fits cause) (hyields : entry.Yields B)
    (hopens : ∀ text a, A text a → OpensBefore closing text) (hclosing : Closing closing)
    {text : List Char} {values : List α} (h : EntriesText A closing text values)
    (rest : List Char) :
    (entries entry closing).ConsumesIf (∀ a ∈ values, fits a) text values rest cause := by
  cases h with
  | @none blank hblank =>
      have hwhitespace : whitespace.Consumes blank () ([closing] ++ rest) :=
        consumes_whitespace hblank (ends_cons.mpr hclosing.not_blank)
      have hclosed : (closedAtOnce closing).Consumes (blank ++ [closing]) () rest :=
        hwhitespace.skipThen (consumes_char closing rest).skip
      exact ((hclosed.map _).orElse).decided (by simp) cause
  | @some body _ hbody =>
      have hopen : OpensBefore closing body := by
        cases hbody with
        | one h => exact hopens _ _ h
        | more h _ => exact (hopens _ _ h).append _
      have hrefused : (closedAtOnce closing).Refuses (body ++ [closing] ++ rest) := by
        rw [List.append_assoc]
        exact closedAtOnce_refuses (hopen.append _)
      have hitems : (separatedList entry (char ',')).ConsumesIf (∀ a ∈ values, fits a) body values
          ([closing] ++ rest) cause :=
        consumesIf_separated hentry hyields hclosing hbody []
      exact (hrefused.map _).orElse_decided (hitems.thenSkip (consumes_char closing rest))

/-- A container that may be opened is decided by its entries. -/
theorem consumesIf_bracketed {limit : Nat} (hentry : Takes entry A fits (.nestedTooDeep limit))
    (hyields : entry.Yields B) (hopens : ∀ text a, A text a → OpensBefore closing text)
    (hclosing : Closing closing) {body : List Char} {values : List α}
    (h : EntriesText A closing body values) (construct : List α → Json) (opening : Char)
    (rest : List Char) :
    (bracketed opening limit (some ((entries entry closing).map construct))).ConsumesIf
      (∀ a ∈ values, fits a) (opening :: body) (construct values) rest (.nestedTooDeep limit) := by
  have hentries := consumesIf_entries hentry hyields hopens hclosing h rest
  exact (consumes_char opening (body ++ rest)).skipThen_decided (hentries.map construct)

end

/-- A bracket where no level is left fails for its nesting. -/
theorem consumesIf_bracketed_none {fits : Prop} (hfits : ¬ fits) (opening : Char) (limit : Nat)
    (body : List Char) (v : Json) (rest : List Char) :
    (bracketed opening limit none).ConsumesIf fits (opening :: body) v rest
      (.nestedTooDeep limit) := by
  intro c _ hrest
  have hopen : char opening c = .done opening (c.advance [opening]) :=
    expecting_of_rest hrest (by simp)
  refine ⟨fun h => absurd h hfits, fun _ => ⟨Failure.raise c (.nestedTooDeep limit), ?_, rfl⟩⟩
  rw [bracketed, hopen, Outcome.andThen_done]

end Rule

end JsonGrammar
