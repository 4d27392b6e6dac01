import JsonGrammar.Proofs.Grammar.Values
import JsonGrammar.Proofs.Rule.Coupling

/-!
# Ordered choice

The rule for values looks at one character and commits to a grammar.  Here is
the plain rule beside it: all six grammars in turn at the same cursor, at every
level of nesting (`orderedValue`).

Each grammar fails where the next character is not one of its own (`FirstIn`),
and the six classes have no character in common.  So what is tried before or
behind the right grammar fails, and both rules read the same values
(`parse_value_iff_ordered`).
-/

namespace JsonGrammar

/-- Two runs over one source that succeed alike; their failures may differ. -/
def Coupling.agreement : Coupling :=
  together (fun _ _ => True) (fun _ _ => False) (fun _ => trivial) (fun h _ => h) fun _ _ => trivial

theorem Coupling.strict_agreement : agreement.Strict :=
  fun _ _ h => h.2

/-- Runs that agree succeed with the same value at the same cursor. -/
theorem Outcome.Coupled.done_iff {α : Type} {first second : Outcome α}
    (h : first.Coupled .agreement second) (a : α) (n : Cursor) :
    first = .done a n ↔ second = .done a n := by
  cases h with
  | done hnext => rw [hnext.2]
  | failed _ => simp
  | outrun h => exact absurd h (Coupling.strict_agreement _ _)
  | stuck => simp

section

variable {α : Type} {first : Outcome α} {p q : Parser α} {c : Cursor}

/-- A choice agrees with its first branch where the second one fails. -/
theorem Outcome.Coupled.orElse_left (h : first.Coupled .agreement (p c))
    (hq : ∃ failure, q c = .failed failure) : first.Coupled .agreement (p.orElse q c) := by
  obtain ⟨failure, hfailed⟩ := hq
  unfold Parser.orElse
  generalize p c = second at h
  cases h with
  | done hnext => exact .done hnext
  | failed _ =>
      rw [hfailed]
      exact .failed trivial
  | outrun h => exact absurd h (Coupling.strict_agreement _ _)
  | stuck => exact .stuck

/-- A choice agrees with its second branch where the first one fails. -/
theorem Outcome.Coupled.orElse_right (h : first.Coupled .agreement (q c))
    (hp : ∃ failure, p c = .failed failure) : first.Coupled .agreement (p.orElse q c) := by
  obtain ⟨failure, hfailed⟩ := hp
  unfold Parser.orElse
  rwa [hfailed]

end

/-! ## First characters -/

namespace Parser

variable {α β : Type} {p : Parser α} {test : Char → Bool}

/-- The parser fails where the next character is not of the class. -/
def FirstIn (p : Parser α) (test : Char → Bool) : Prop :=
  ∀ ⦃rest : List Char⦄, Ends test rest → p.Refuses rest

theorem firstIn_expecting (wanted : Expectation) (test : Char → Bool) :
    (expecting wanted test).FirstIn test :=
  fun _ hends => refuses_expecting wanted hends

theorem FirstIn.andThen (hp : p.FirstIn test) (continuation : α → Parser β) :
    (p.andThen continuation).FirstIn test :=
  fun _ hends => (hp hends).andThen continuation

theorem FirstIn.map (hp : p.FirstIn test) (f : α → β) : (p.map f).FirstIn test :=
  hp.andThen fun a => succeed (f a)

theorem FirstIn.orElse {q : Parser α} {other : Char → Bool} (hp : p.FirstIn test)
    (hq : q.FirstIn other) : (p.orElse q).FirstIn fun ch => test ch || other ch := by
  intro rest hends c hc hrest
  have hboth : Ends test rest ∧ Ends other rest := by
    simpa [Ends, forall_and] using hends
  obtain ⟨failure, hfailed⟩ := hq hboth.2 hc hrest
  exact ⟨failure, orElse_eq_failed_iff.mpr ⟨hp hboth.1 hc hrest, hfailed⟩⟩

theorem firstIn_literal {text : String} {ch : Char} (htext : text.toList.head? = some ch) :
    (literal text).FirstIn (· == ch) := by
  intro rest hends
  refine refuses_literal fun hprefix' => ?_
  obtain ⟨more, rfl⟩ := hprefix'
  have hfirst := hends ch (by rw [List.head?_append, htext]; rfl)
  simp at hfirst

end Parser

namespace Rule

open JsonGrammar.Parser Grammar

theorem firstIn_null : null.FirstIn (· == 'n') :=
  (firstIn_literal (by decide)).map _

theorem firstIn_boolean : boolean.FirstIn fun ch => ch == 't' || ch == 'f' :=
  ((firstIn_literal (by decide)).map _).orElse ((firstIn_literal (by decide)).map _)

/-- A number begins with a minus sign or a digit. -/
theorem firstIn_number : number.FirstIn fun ch => ch == '-' || ch.isDigit := by
  intro rest hends
  have hboth : Ends (· == '-') rest ∧ Ends Char.isDigit rest := by
    simpa [Ends, forall_and] using hends
  have hzero : Ends (· == '0') rest := by
    intro ch hch
    have hdigit := hboth.2 ch hch
    refine beq_eq_false_iff_ne.mpr fun heq => ?_
    rw [heq] at hdigit
    exact absurd hdigit (by decide)
  have hnonzero : Ends (fun ch => '1' ≤ ch && ch ≤ '9') rest := by
    intro ch hch
    refine Bool.eq_false_iff.mpr fun hrange => ?_
    obtain ⟨hlow, hhigh⟩ := by simpa using hrange
    have hdigit := hboth.2 ch hch
    rw [isDigit_of_nonzero hlow hhigh] at hdigit
    exact absurd hdigit (by decide)
  have hsign : (optional (char '-')).Consumes [] none rest :=
    (refuses_expecting _ hboth.1).optional
  have hwhole : wholePart.Refuses rest := by
    intro c hc hrest
    obtain ⟨failure, hfailed⟩ := ((refuses_expecting _ hnonzero).pair (many digit)).skip hc hrest
    exact ⟨failure, orElse_eq_failed_iff.mpr
      ⟨(refuses_expecting _ hzero).skip hc hrest, hfailed⟩⟩
  have hsigned : (pair (optional (char '-')) wholePart).Refuses rest :=
    hsign.andThen_refuses (hwhole.map _)
  have hnumeral : numeral.Refuses rest :=
    ((hsigned.pair (optional fraction)).pair (optional exponent)).skip
  intro c hc hrest
  obtain ⟨failure, hfailed⟩ := hnumeral hc hrest
  exact ⟨failure, Outcome.andThen_eq_failed_iff.mpr
    (Or.inl (withSpan_eq_failed_iff.mpr hfailed))⟩

theorem firstIn_stringLiteral : stringLiteral.FirstIn (· == '"') :=
  (firstIn_expecting _ _).andThen _

theorem firstIn_bracketed (opening : Char) (limit : Nat) (content? : Option (Parser Json)) :
    (bracketed opening limit content?).FirstIn (· == opening) := by
  intro rest hends c hc hrest
  obtain ⟨failure, hfailed⟩ := refuses_expecting (.character opening) hends hc hrest
  exact ⟨failure, Outcome.andThen_eq_failed_iff.mpr (Or.inl hfailed)⟩

/-! ## The grammar that a character picks -/

/-- The grammar that the rule for values commits to at a character. -/
inductive Commits (limit : Nat) (inner? : Option (Parser Json)) : Char → Parser Json → Prop where
  | null : Commits limit inner? 'n' null
  | truth : Commits limit inner? 't' boolean
  | falsehood : Commits limit inner? 'f' boolean
  | number {ch : Char} (h : ch = '-' ∨ ch.isDigit = true) :
      Commits limit inner? ch (number.map Json.number)
  | string : Commits limit inner? '"' (stringLiteral.map Json.string)
  | array : Commits limit inner? '[' (arrayOf limit inner?)
  | object : Commits limit inner? '{' (objectOf limit inner?)

theorem Commits.tokenOf_eq {limit : Nat} {inner? : Option (Parser Json)} {ch : Char}
    {p : Parser Json} (h : Commits limit inner? ch p) {c : Cursor}
    (hch : c.rest.head? = some ch) : tokenOf limit inner? c = p c := by
  cases h with
  | null => exact tokenOf_of_null hch
  | truth => exact tokenOf_of_boolean hch (Or.inl rfl)
  | falsehood => exact tokenOf_of_boolean hch (Or.inr rfl)
  | number hnumeral => exact tokenOf_of_numeral hch hnumeral
  | string => exact tokenOf_of_quote hch
  | array => exact tokenOf_of_bracket hch
  | object => exact tokenOf_of_brace hch

/-! ## All grammars in turn -/

/-- A value without blanks around it, its rule found by trying all of them. -/
def orderedTokenOf (limit : Nat) (inner? : Option (Parser Json)) : Parser Json :=
  ((((null.orElse boolean).orElse (number.map Json.number)).orElse
    (stringLiteral.map Json.string)).orElse (arrayOf limit inner?)).orElse (objectOf limit inner?)

/-- A value with blanks around it, its rule found by trying all of them. -/
def orderedValueOf (limit : Nat) (inner? : Option (Parser Json)) : Parser Json :=
  whitespace.skipThen ((orderedTokenOf limit inner?).thenSkip whitespace)

/-- A value that may open `levels` more levels out of `limit`, with ordered
choice at each of them. -/
def orderedWithin (limit : Nat) : Nat → Cursor → Outcome Json
  | 0, c => orderedValueOf limit none c
  | levels + 1, c => orderedValueOf limit (some (orderedWithin limit levels)) c

/-- Any value, with ordered choice at every level. -/
def orderedValue (limits : Limits) : Parser Json :=
  orderedWithin limits.maxDepth limits.maxDepth

/-- Trying all grammars agrees with the one that the next character picks, since
the others fail. -/
theorem Commits.agrees_ordered {limit : Nat} {inner? : Option (Parser Json)} {ch : Char}
    {p : Parser Json} (hcommits : Commits limit inner? ch p) {c : Cursor} (hc : c.Placed)
    (hch : c.rest.head? = some ch) {first : Outcome Json} (h : first.Coupled .agreement (p c)) :
    first.Coupled .agreement (orderedTokenOf limit inner? c) := by
  have hrefused : ∀ {q : Parser Json} {test : Char → Bool}, q.FirstIn test → test ch = false →
      ∃ failure, q c = .failed failure := by
    intro q test hq htest
    refine hq (fun ch' hch' => ?_) hc rfl
    obtain rfl := Option.some.inj (hch.symm.trans hch')
    exact htest
  have hnumber := firstIn_number.map Json.number
  have hstring := firstIn_stringLiteral.map Json.string
  have harray : (arrayOf limit inner?).FirstIn (· == '[') := firstIn_bracketed _ _ _
  have hobject : (objectOf limit inner?).FirstIn (· == '{') := firstIn_bracketed _ _ _
  have hwords := firstIn_null.orElse firstIn_boolean
  have hscalars := (hwords.orElse hnumber).orElse hstring
  cases hcommits with
  | null =>
      exact ((((h.orElse_left (hrefused firstIn_boolean (by decide))).orElse_left
        (hrefused hnumber (by decide))).orElse_left (hrefused hstring (by decide))).orElse_left
        (hrefused harray (by decide))).orElse_left (hrefused hobject (by decide))
  | truth =>
      exact ((((h.orElse_right (hrefused firstIn_null (by decide))).orElse_left
        (hrefused hnumber (by decide))).orElse_left (hrefused hstring (by decide))).orElse_left
        (hrefused harray (by decide))).orElse_left (hrefused hobject (by decide))
  | falsehood =>
      exact ((((h.orElse_right (hrefused firstIn_null (by decide))).orElse_left
        (hrefused hnumber (by decide))).orElse_left (hrefused hstring (by decide))).orElse_left
        (hrefused harray (by decide))).orElse_left (hrefused hobject (by decide))
  | number hnumeral =>
      have hne : ∀ other : Char, other.isDigit = false → other ≠ '-' → (ch == other) = false := by
        intro other hother hminus
        refine beq_eq_false_iff_ne.mpr fun heq => ?_
        rcases hnumeral with hminus' | hdigit
        · exact hminus (heq.symm.trans hminus')
        · exact ne_of_isDigit hdigit hother heq
      have hword : ((ch == 'n') || (ch == 't' || ch == 'f')) = false := by
        rw [hne 'n' (by decide) (by decide), hne 't' (by decide) (by decide),
          hne 'f' (by decide) (by decide)]
        rfl
      exact (((h.orElse_right (hrefused hwords hword)).orElse_left
        (hrefused hstring (hne '"' (by decide) (by decide)))).orElse_left
        (hrefused harray (hne '[' (by decide) (by decide)))).orElse_left
        (hrefused hobject (hne '{' (by decide) (by decide)))
  | string =>
      exact ((h.orElse_right (hrefused (hwords.orElse hnumber) (by decide))).orElse_left
        (hrefused harray (by decide))).orElse_left (hrefused hobject (by decide))
  | array =>
      exact (h.orElse_right (hrefused hscalars (by decide))).orElse_left
        (hrefused hobject (by decide))
  | object =>
      exact h.orElse_right (hrefused (hscalars.orElse harray) (by decide))

/-! ## Dispatch and ordered choice -/

/-- The character picks a grammar. -/
def picks (ch : Char) : Bool :=
  (((((ch == 'n' || (ch == 't' || ch == 'f')) || (ch == '-' || ch.isDigit)) || ch == '"') ||
    ch == '[') || ch == '{')

theorem exists_commits (limit : Nat) (inner? : Option (Parser Json)) {ch : Char}
    (hpicks : picks ch = true) : ∃ p, Commits limit inner? ch p := by
  simp only [picks, Bool.or_eq_true, beq_iff_eq] at hpicks
  rcases hpicks with ((((rfl | rfl | rfl) | hnumeral) | rfl) | rfl) | rfl
  · exact ⟨_, .null⟩
  · exact ⟨_, .truth⟩
  · exact ⟨_, .falsehood⟩
  · exact ⟨_, .number hnumeral⟩
  · exact ⟨_, .string⟩
  · exact ⟨_, .array⟩
  · exact ⟨_, .object⟩

theorem firstIn_orderedTokenOf (limit : Nat) (inner? : Option (Parser Json)) :
    (orderedTokenOf limit inner?).FirstIn picks :=
  ((((firstIn_null.orElse firstIn_boolean).orElse (firstIn_number.map _)).orElse
    (firstIn_stringLiteral.map _)).orElse (firstIn_bracketed _ _ _)).orElse
      (firstIn_bracketed _ _ _)

theorem firstIn_tokenOf (limit : Nat) (inner? : Option (Parser Json)) :
    (tokenOf limit inner?).FirstIn picks := by
  intro rest hends c _ hrest
  unfold tokenOf
  rw [Cursor.peek?, hrest]
  cases rest with
  | nil => exact ⟨_, rfl⟩
  | cons ch rest =>
      have hpicks := ends_cons.mp hends
      simp only [picks, Bool.or_eq_false_iff, beq_eq_false_iff_ne] at hpicks
      obtain ⟨⟨⟨⟨⟨hn, ht, hf⟩, hminus, hdigit⟩, hquote⟩, hbracket⟩, hbrace⟩ := hpicks
      simp only [List.head?_cons, if_neg hbracket, if_neg hbrace, if_neg hquote, hminus, hdigit,
        if_neg hn, ht, hf, Bool.false_eq_true, or_self, if_false]
      exact ⟨_, rfl⟩

/-- The same grammar is picked whatever is read inside, and it agrees with
itself where that agrees. -/
theorem Commits.coupled {limit : Nat} {inner? inner?' : Option (Parser Json)} {ch : Char}
    {p : Parser Json} (h : Commits limit inner? ch p)
    (harray : Coupled .agreement (arrayOf limit inner?) (arrayOf limit inner?'))
    (hobject : Coupled .agreement (objectOf limit inner?) (objectOf limit inner?')) :
    ∃ q, Commits limit inner?' ch q ∧ Coupled .agreement p q := by
  cases h with
  | null => exact ⟨_, .null, relocates_null.coupled settles_null⟩
  | truth => exact ⟨_, .truth, relocates_boolean.coupled settles_boolean⟩
  | falsehood => exact ⟨_, .falsehood, relocates_boolean.coupled settles_boolean⟩
  | number hnumeral =>
      exact ⟨_, .number hnumeral, (relocates_number.map _).coupled (settles_number.map _)⟩
  | string =>
      exact ⟨_, .string, (relocates_stringLiteral.map _).coupled (settles_stringLiteral.map _)⟩
  | array => exact ⟨_, .array, harray⟩
  | object => exact ⟨_, .object, hobject⟩

theorem agrees_tokenOf {limit : Nat} {inner? inner?' : Option (Parser Json)}
    (harray : Coupled .agreement (arrayOf limit inner?) (arrayOf limit inner?'))
    (hobject : Coupled .agreement (objectOf limit inner?) (objectOf limit inner?')) :
    Coupled .agreement (tokenOf limit inner?) (orderedTokenOf limit inner?') where
  follow := fun _ _ h => absurd h (Coupling.strict_agreement _ _)
  run := by
    intro c d h
    obtain ⟨hc, hd⟩ := h
    subst hd
    by_cases hends : Ends picks d.rest
    · obtain ⟨failure, hfailed⟩ := firstIn_tokenOf limit inner? hends hc rfl
      obtain ⟨other, hfailed'⟩ := firstIn_orderedTokenOf limit inner?' hends hc rfl
      rw [hfailed, hfailed']
      exact .failed trivial
    · obtain ⟨ch, hch, hpicks⟩ : ∃ ch, d.rest.head? = some ch ∧ picks ch = true := by
        simpa [Ends] using hends
      obtain ⟨p, hcommits⟩ := exists_commits limit inner? hpicks
      obtain ⟨q, hcommits', hcoupled⟩ := hcommits.coupled harray hobject
      rw [hcommits.tokenOf_eq hch]
      exact hcommits'.agrees_ordered hc hch (hcoupled.run ⟨hc, rfl⟩)

theorem agrees_valueOf {limit : Nat} {inner? inner?' : Option (Parser Json)}
    (harray : Coupled .agreement (arrayOf limit inner?) (arrayOf limit inner?'))
    (hobject : Coupled .agreement (objectOf limit inner?) (objectOf limit inner?')) :
    Coupled .agreement (valueOf limit inner?) (orderedValueOf limit inner?') :=
  coupled_whitespace.skipThen ((agrees_tokenOf harray hobject).thenSkip coupled_whitespace)

/-- At every level of nesting the two rules succeed alike. -/
theorem agrees_valueWithin (limit levels : Nat) :
    Coupled .agreement (valueWithin limit levels) (orderedWithin limit levels) := by
  induction levels with
  | zero =>
      have hnone : ∀ opening, Coupled .agreement (bracketed opening limit none)
          (bracketed opening limit none) := fun opening =>
        (relocates_bracketed_none opening limit).coupled
          (settles_bracketed opening limit fun _ h => absurd h (by simp))
      exact agrees_valueOf (hnone '[') (hnone '{')
  | succ levels ih =>
      have hplace := fun failure d (h : Coupling.agreement.outrun failure d) =>
        show KeepsPlace (orderedWithin limit levels) from
          absurd h (Coupling.strict_agreement failure d)
      exact agrees_valueOf (coupled_arrayOf ih hplace limit limit)
        (coupled_objectOf ih hplace limit limit)

/-- Where the first character behind the white space commits the rule for values
to a grammar, it fails exactly as that grammar does at this character. -/
theorem valueWithin_eq_failed_iff {limit levels : Nat} {c : Cursor} (hc : c.Placed)
    {blank rest : List Char} {ch : Char} (hrest : c.rest = blank ++ ch :: rest)
    (hblank : Blank blank) (hch : isBlank ch = false) {p : Parser Json}
    (hcommits : Commits limit (innerWithin limit levels) ch p) (failure : Failure) :
    valueWithin limit levels c = .failed failure ↔ p (c.advance blank) = .failed failure := by
  have hbehind : (c.advance blank).rest = ch :: rest := Cursor.rest_advance_of_eq hrest
  have htoken : tokenOf limit (innerWithin limit levels) (c.advance blank) = p (c.advance blank) :=
    hcommits.tokenOf_eq (by rw [hbehind]; rfl)
  rw [valueWithin_eq, valueOf, skipThen, andThen,
    consumes_whitespace hblank (ends_cons.mpr hch) hc hrest, Outcome.andThen_done, thenSkip,
    andThen_eq_failed_iff, htoken]
  constructor
  · intro h
    rcases h with hfailed | ⟨v, n, -, hfailed⟩
    · exact hfailed
    · exact absurd (map_eq_failed_iff.mp (map_eq_failed_iff.mp hfailed)) many_ne_failed
  · exact Or.inl

/-- The first character picks the grammar that trying all of them finds: the
same values are read, up to the same cursor.  A failure behind a character that
picks a grammar is that grammar's own. -/
theorem parse_value_iff_ordered (limits : Limits) (source : String) :
    (∀ v n, parse (value limits) source = .done v n ↔
      parse (orderedValue limits) source = .done v n) ∧
    (∀ (blank rest : List Char) (ch : Char) (p : Parser Json),
      source.toList = blank ++ ch :: rest → Blank blank → isBlank ch = false →
      Commits limits.maxDepth (innerWithin limits.maxDepth limits.maxDepth) ch p →
      ∀ failure, parse (value limits) source = .failed failure ↔
        p ((Cursor.start source).advance blank) = .failed failure) ∧
    parse (value limits) source ≠ .stuck ∧ parse (orderedValue limits) source ≠ .stuck := by
  have hc := Cursor.placed_start source
  have hagrees := (agrees_valueWithin limits.maxDepth limits.maxDepth).run ⟨hc, rfl⟩
  have hsettled : parse (value limits) source ≠ .stuck := (settles_value limits).ne_stuck hc
  refine ⟨hagrees.done_iff, ?_, hsettled, fun hstuck => ?_⟩
  · intro blank rest ch p hsource hblank hch hcommits failure
    exact valueWithin_eq_failed_iff hc hsource hblank hch hcommits failure
  · have hordered : orderedWithin limits.maxDepth limits.maxDepth (Cursor.start source) = .stuck :=
      hstuck
    rw [hordered] at hagrees
    generalize hrun : valueWithin limits.maxDepth limits.maxDepth (Cursor.start source) = first
      at hagrees
    cases hagrees with
    | stuck => exact hsettled hrun

end Rule

end JsonGrammar
