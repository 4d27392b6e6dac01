import JsonGrammar.Command.Reply
import JsonGrammar.Proofs.Json.Display
import JsonGrammar.Proofs.Rule.Settling

/-!
# Runs of the command

A run of the command is settled by a rule, a limit, whether leftovers are
forbidden, and a text; where the text came from and how the arguments were read
makes no difference (`Asks.respond_eq`).

The five rules have one account of what they read (`RuleName.yields_parser`)
and one of what they take (`RuleName.consumes_parser`).  On every text a rule
succeeds or fails (`Request.rule_cases`), and a request that forbids leftovers
goes on from there (`Request.parse_eq_done_iff`, `Request.parse_of_leftover`).
-/

namespace JsonGrammar

namespace Command

open Grammar JsonGrammar.Parser

/-! ## The rules by their names -/

/-- The values that a rule gives. -/
def RuleName.Gives : RuleName → Json → Prop
  | null, v => v = .null
  | boolean, v => ∃ b, v = .bool b
  | number, v => ∃ x, v = .number x
  | string, v => ∃ s, v = .string s
  | value, _ => True

theorem RuleName.settles_parser (limits : Limits) (rule : RuleName) :
    (rule.parser limits).Settles := by
  cases rule with
  | null => exact Rule.settles_null
  | boolean => exact Rule.settles_boolean
  | number => exact Rule.settles_number.map _
  | string => exact Rule.settles_stringLiteral.map _
  | value => exact Rule.settles_value limits

/-- All rules but the one for values read a text without blanks around it. -/
theorem yields_padded {p : Parser Json} {gives : Json → Prop} {levels : Nat}
    (hp : p.Yields fun text v => gives v ∧ Rule.ValueWithin levels text v) :
    p.Yields fun text v => gives v ∧ Rule.PaddedWithin levels text v :=
  hp.mono fun _ _ h => ⟨h.1, Json.paddedText_of_valueText h.2.1, h.2.2⟩

/-- Every rule reads texts of the values it gives, within the limit. -/
theorem RuleName.yields_parser (limits : Limits) (rule : RuleName) :
    (rule.parser limits).Yields fun text v =>
      rule.Gives v ∧ Rule.PaddedWithin limits.maxDepth text v := by
  cases rule with
  | null =>
      refine yields_padded (Rule.yields_null.mono fun text v h => ?_)
      obtain ⟨rfl, htext⟩ := h
      exact ⟨rfl, htext, Nat.zero_le _⟩
  | boolean =>
      refine yields_padded (Rule.yields_boolean.mono fun text v h => ?_)
      obtain ⟨⟨b, rfl⟩, htext⟩ := h
      exact ⟨⟨b, rfl⟩, htext, Nat.zero_le _⟩
  | number =>
      refine yields_padded ((Rule.yields_number.map _).mono fun text v h => ?_)
      obtain ⟨x, htext, rfl⟩ := h
      exact ⟨⟨x, rfl⟩, .number htext, Nat.zero_le _⟩
  | string =>
      refine yields_padded ((Rule.yields_stringLiteral.map _).mono fun text v h => ?_)
      obtain ⟨s, htext, rfl⟩ := h
      exact ⟨⟨s, rfl⟩, .string htext, Nat.zero_le _⟩
  | value => exact (Rule.yields_valueWithin _ _).mono fun _ _ h => ⟨trivial, h⟩

/-- Every rule takes the printed text of a value it gives, to the end, where
the value is within the limit. -/
theorem RuleName.consumes_parser (limits : Limits) {rule : RuleName} {v : Json}
    (hgives : rule.Gives v) (hfinite : v.isFinite = true) (hdepth : v.depth ≤ limits.maxDepth) :
    (rule.parser limits).Consumes v.display.toList v [] := by
  rw [Json.display, String.toList_ofList]
  cases rule with
  | null =>
      obtain rfl := hgives
      exact Rule.consumes_null (Json.valueText_render .null rfl) []
  | boolean =>
      obtain ⟨b, rfl⟩ := hgives
      exact Rule.consumes_boolean (Json.valueText_render (.bool b) rfl) []
  | number =>
      obtain ⟨x, rfl⟩ := hgives
      exact (Rule.consumes_number (numberText_render hfinite) (ends_nil _)).map _
  | string =>
      obtain ⟨s, rfl⟩ := hgives
      exact (Rule.consumes_stringLiteral (Json.stringText_renderString s) []).map _
  | value =>
      have htext := Json.paddedText_of_valueText (Json.valueText_render v hfinite)
      exact (Rule.takes_valueWithin _ _ htext ⟨ends_nil _, ends_nil _⟩).consumes hdepth

/-! ## Requests -/

section

variable {request : Request} {text : String} {v : Json} {n : Cursor}

theorem Request.settles_parser (request : Request) : request.parser.Settles := by
  rw [Request.parser]
  split
  · exact (request.rule.settles_parser request.limits).thenSkip settles_endOfInput
  · exact request.rule.settles_parser request.limits

theorem placed_of_parse {p : Parser Json} (hp : p.Settles) (hrun : p.parse text = .done v n) :
    n.Placed ∧ n.source = text := by
  obtain ⟨_, hreads, -⟩ := hp.halts.yields (Cursor.placed_start text) hrun
  exact ⟨hreads.placed (Cursor.placed_start text), hreads.source_eq⟩

/-- A request that forbids leftovers asks for a run of the rule that leaves
none. -/
theorem Request.parse_eq_done_iff : request.parser.parse text = .done v n ↔
    (request.rule.parser request.limits).parse text = .done v n ∧
      (request.strict = true → n.rest = []) := by
  rw [Request.parser]
  split
  · rename_i hstrict
    constructor
    · intro hrun
      obtain ⟨a, m, hrule, hend⟩ := andThen_eq_done_iff.mp hrun
      obtain ⟨_, hfinish, rfl⟩ := map_eq_done_iff.mp hend
      obtain ⟨hplaced, -⟩ := placed_of_parse (request.rule.settles_parser request.limits) hrule
      obtain ⟨hrest, rfl⟩ := (endOfInput_eq_done_iff hplaced).mp hfinish
      exact ⟨hrule, fun _ => hrest⟩
    · intro h
      obtain ⟨hplaced, -⟩ := placed_of_parse (request.rule.settles_parser request.limits) h.1
      have hfinish := (endOfInput_eq_done_iff hplaced).mpr ⟨h.2 hstrict, rfl⟩
      exact andThen_eq_done_iff.mpr ⟨v, n, h.1, map_eq_done_iff.mpr ⟨(), hfinish, rfl⟩⟩
  · rename_i hlenient
    exact ⟨fun hrun => ⟨hrun, fun hstrict => absurd hstrict hlenient⟩, And.left⟩

/-- Where the rule fails the request fails the same way, leftovers or not. -/
theorem Request.parse_of_failed {failure : Failure}
    (hrule : (request.rule.parser request.limits).parse text = .failed failure) :
    request.parser.parse text = .failed failure := by
  rw [Request.parser]
  split
  · exact andThen_eq_failed_iff.mpr (Or.inl hrule)
  · exact hrule

/-- Where leftovers are forbidden and the rule leaves some, the failure is that
of the end of input behind the value. -/
theorem Request.parse_of_leftover (hstrict : request.strict = true)
    (hrule : (request.rule.parser request.limits).parse text = .done v n) (hrest : n.rest ≠ []) :
    request.parser.parse text = .failed (Failure.raise n (.leftover n.rest)) := by
  obtain ⟨hplaced, -⟩ := placed_of_parse (request.rule.settles_parser request.limits) hrule
  have hnotEnd : n.isAtEnd = false := by
    rw [← Bool.not_eq_true, hplaced.isAtEnd_iff]
    exact hrest
  have hend : endOfInput n = .failed (Failure.raise n (.leftover n.rest)) := by
    simp [endOfInput, hnotEnd]
  rw [Request.parser, if_pos hstrict]
  exact andThen_eq_failed_iff.mpr (Or.inr ⟨v, n, hrule, map_eq_failed_iff.mpr hend⟩)

/-- The rule of a request succeeds or fails. -/
theorem Request.rule_cases (request : Request) (text : String) :
    (∃ failure, (request.rule.parser request.limits).parse text = .failed failure) ∨
      ∃ v n, (request.rule.parser request.limits).parse text = .done v n ∧ n.Placed ∧
        n.source = text := by
  have hsettles := request.rule.settles_parser request.limits
  cases hrun : (request.rule.parser request.limits).parse text with
  | done v n => exact Or.inr ⟨v, n, rfl, placed_of_parse hsettles hrun⟩
  | failed failure => exact Or.inl ⟨failure, rfl⟩
  | stuck => exact absurd hrun (hsettles.ne_stuck (Cursor.placed_start text))

end

/-! ## Replies -/

theorem leftoverLine_of_nil {n : Cursor} (hn : n.Placed) (hrest : n.rest = []) :
    leftoverLine n = "" := by
  rw [leftoverLine, if_pos (hn.isAtEnd_iff.mpr hrest)]

/-- A run that leaves nothing prints the value alone. -/
theorem reply_of_nil {v : Json} {n : Cursor} (hn : n.Placed) (hrest : n.rest = []) :
    Reply.ofOutcome (.done v n) = { exitCode := 0, stdout := v.display ++ "\n", stderr := "" } := by
  rw [Reply.ofOutcome, leftoverLine_of_nil hn hrest, String.append_empty]

/-! ## Sources -/

/-- The source has the text: it is the text itself, or a file with the bytes of
the text. -/
def Source.Gives (readFile : String → Except ReadProblem ByteArray) : Source → String → Prop
  | .text given, content => given = content
  | .file path, content => readFile path = .ok content.toUTF8

/-- The bytes that hold a text are its UTF-8 encoding. -/
theorem textOf_eq_ok_iff {bytes : ByteArray} {text : String} :
    textOf bytes = .ok text ↔ bytes = text.toUTF8 := by
  unfold textOf String.fromUTF8?
  split
  · rename_i found hfound
    split at hfound
    · obtain rfl := Option.some.inj hfound
      rw [Except.ok.injEq, ← String.toByteArray_inj]
      rfl
    · simp at hfound
  · rename_i hnone
    split at hnone
    · simp at hnone
    · rename_i hinvalid
      simp only [reduceCtorEq, false_iff]
      rintro rfl
      exact hinvalid text.isValidUTF8

/-- The arguments are read as a request for a run, and its source has the
text. -/
structure Asks (readArguments : List String → Invocation)
    (readFile : String → Except ReadProblem ByteArray) (arguments : List String)
    (request : Request) (text : String) : Prop where
  asked : readArguments arguments = .run request
  given : request.source.Gives readFile text

section

variable {readArguments : List String → Invocation}
  {readFile : String → Except ReadProblem ByteArray} {arguments : List String} {request : Request}
  {text : String}

/-- Wherever the text comes from, the reply is that to the request's parser on
it. -/
theorem Asks.respond_eq (h : Asks readArguments readFile arguments request text) :
    respond readArguments readFile arguments = .ofOutcome (request.parser.parse text) := by
  obtain ⟨hasked, hgiven⟩ := h
  rw [respond, hasked]
  simp only [Request.answer]
  cases hsource : request.source with
  | text given =>
      rw [hsource, Source.Gives] at hgiven
      rw [hgiven]
      rfl
  | file path =>
      rw [hsource, Source.Gives] at hgiven
      have hread : (readFile path >>= textOf) = .ok text := by
        rw [hgiven]
        exact textOf_eq_ok_iff.mpr rfl
      simp only [hread]
      rfl

/-- A run that succeeds had a text. -/
theorem exists_asks_of_exitCode (hasked : readArguments arguments = .run request)
    (hzero : (respond readArguments readFile arguments).exitCode = 0) :
    ∃ text, Asks readArguments readFile arguments request text := by
  rw [respond, hasked] at hzero
  simp only [Request.answer] at hzero
  cases hsource : request.source with
  | text given =>
      refine ⟨given, hasked, ?_⟩
      rw [hsource, Source.Gives]
  | file path =>
      cases hread : readFile path >>= textOf with
      | error problem =>
          simp only [hsource, hread] at hzero
          exact absurd hzero (Nat.succ_ne_zero 1)
      | ok text =>
          cases hbytes : readFile path with
          | error problem =>
              rw [hbytes] at hread
              cases hread
          | ok bytes =>
              rw [hbytes] at hread
              refine ⟨text, hasked, ?_⟩
              rw [hsource, Source.Gives, hbytes, textOf_eq_ok_iff.mp hread]

end

end Command

end JsonGrammar
