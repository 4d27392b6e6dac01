import JsonGrammar.Proofs.Command.Runs

/-!
# Runs that forbid leftovers

Leftovers are forbidden by one switch in front of the arguments, which changes
nothing else of what they ask for.  That is a law of the reader of the arguments
(`KnowsStrict`), and the one of this library keeps it
(`knowsStrict_ofArguments`).  A strict run and a plain one of the same rule on
the same text differ only where the rule succeeds and leaves something
(`respond_strict`).
-/

namespace JsonGrammar

namespace Command

open JsonGrammar.Parser

/-! ## The switch -/

namespace Settings

/-- The same settings, with leftovers forbidden. -/
def strictly (settings : Settings) : Settings :=
  { settings with strict := true }

/-- The step gives settings that allow leftovers only from such settings, and
then it does the same where leftovers are forbidden. -/
def IgnoresStrict (step : Settings → Except Verdict Settings) : Prop :=
  ∀ ⦃s t : Settings⦄, step s = .ok t → t.strict = false →
    s.strict = false ∧ step s.strictly = .ok t.strictly

theorem IgnoresStrict.bind {step next : Settings → Except Verdict Settings}
    (hstep : IgnoresStrict step) (hnext : IgnoresStrict next) :
    IgnoresStrict fun s => step s >>= next := by
  intro s t hrun hlenient
  change step s >>= next = .ok t at hrun
  cases hmiddle : step s with
  | error verdict =>
      rw [hmiddle] at hrun
      cases hrun
  | ok middle =>
      rw [hmiddle] at hrun
      obtain ⟨hlenient', hnext'⟩ := hnext hrun hlenient
      obtain ⟨hstart, hstep'⟩ := hstep hmiddle hlenient'
      refine ⟨hstart, ?_⟩
      change step s.strictly >>= next = _
      rw [hstep']
      exact hnext'

theorem ignoresStrict_addText (text : String) : IgnoresStrict (addText · text) := by
  intro s t hrun hlenient
  simp only [addText] at hrun ⊢
  split_ifs at hrun with hsome
  obtain rfl := Except.ok.inj hrun
  exact ⟨hlenient, if_neg hsome⟩

theorem ignoresStrict_setOption (name : OptionName) (value : String) :
    IgnoresStrict (setOption · name value) := by
  intro s t hrun hlenient
  cases name with
  | rule =>
      simp only [setOption] at hrun ⊢
      split at hrun
      · rename_i rule hnone hrule
        obtain rfl := Except.ok.inj hrun
        refine ⟨hlenient, ?_⟩
        simp only [strictly, hnone, hrule]
      · cases hrun
  | file =>
      simp only [setOption] at hrun ⊢
      split_ifs at hrun with hbad
      obtain rfl := Except.ok.inj hrun
      exact ⟨hlenient, if_neg hbad⟩
  | maxDepth =>
      simp only [setOption] at hrun ⊢
      split at hrun
      · rename_i depth hnone hdepth
        obtain rfl := Except.ok.inj hrun
        refine ⟨hlenient, ?_⟩
        simp only [strictly, hnone, hdepth]
      · cases hrun

theorem ignoresStrict_setSwitch (argument name : String) (value? : Option String) :
    IgnoresStrict (setSwitch · argument name value?) := by
  intro s t hrun hlenient
  simp only [setSwitch] at hrun ⊢
  by_cases hknown : isKnownName name = true
  · rw [if_pos hknown] at hrun
    split at hrun
    · -- The switch itself leaves no settings that allow leftovers.
      split_ifs at hrun
      obtain rfl := Except.ok.inj hrun
      cases hlenient
    all_goals cases hrun
  · rw [if_neg hknown] at hrun ⊢
    exact ignoresStrict_addText argument hrun hlenient

theorem ignoresStrict_setLetters (argument : String) (letters : List Char) :
    IgnoresStrict (setLetters · argument letters) := by
  intro s t hrun hlenient
  simp only [setLetters] at hrun ⊢
  split_ifs at hrun with htext
  · obtain ⟨hstart, hstep⟩ := ignoresStrict_addText argument hrun hlenient
    exact ⟨hstart, (if_pos htext).trans hstep⟩
  · split at hrun <;> cases hrun

theorem ignoresStrict_foldlM (texts : List String) : IgnoresStrict (texts.foldlM addText ·) := by
  induction texts with
  | nil =>
      intro s t hrun hlenient
      obtain rfl := Except.ok.inj hrun
      exact ⟨hlenient, rfl⟩
  | cons text texts ih => exact (ignoresStrict_addText text).bind ih

/-- Reading goes from argument to argument, and each of them is one of the
steps above. -/
theorem ignoresStrict_read (arguments : List String) :
    ∀ waiting?, IgnoresStrict (read · waiting? arguments) := by
  induction arguments with
  | nil =>
      intro waiting? s t hrun hlenient
      unfold read at hrun ⊢
      split_ifs at hrun with hwaiting
      obtain rfl := Except.ok.inj hrun
      exact ⟨hlenient, if_neg hwaiting⟩
  | cons argument arguments ih =>
      intro waiting? s t hrun hlenient
      cases waiting? with
      | some name =>
          unfold read at hrun ⊢
          simp only at hrun ⊢
          split_ifs at hrun with hcan
          · obtain ⟨hstart, hstep⟩ :=
              ((ignoresStrict_setOption name argument).bind (ih none)) hrun hlenient
            exact ⟨hstart, (if_pos hcan).trans hstep⟩
      | none =>
          simp only [read] at hrun ⊢
          split at hrun
          · exact ignoresStrict_foldlM arguments hrun hlenient
          · exact ((ignoresStrict_addText argument).bind (ih none)) hrun hlenient
          · exact ((ignoresStrict_setLetters argument _).bind (ih none)) hrun hlenient
          · split at hrun
            · exact ih _ hrun hlenient
            · exact ((ignoresStrict_setOption _ _).bind (ih none)) hrun hlenient
            · exact ((ignoresStrict_setSwitch argument _ _).bind (ih none)) hrun hlenient

theorem request?_strictly {s : Settings} {request : Request} (h : s.request? = some request) :
    request.strict = s.strict ∧ s.strictly.request? = some { request with strict := true } := by
  simp only [request?, strictly] at h ⊢
  split at h
  · rename_i text htext hfile
    obtain rfl := Option.some.inj h
    exact ⟨rfl, rfl⟩
  · rename_i path htext hfile
    obtain rfl := Option.some.inj h
    exact ⟨rfl, rfl⟩
  · cases h

end Settings

/-- Arguments that are read as a request for a run are read, behind the switch,
as one for the same run with leftovers forbidden. -/
def KnowsStrict (readArguments : List String → Invocation) : Prop :=
  ∀ ⦃arguments : List String⦄ ⦃request : Request⦄, readArguments arguments = .run request →
    request.strict = false →
      readArguments ("--strict" :: arguments) = .run { request with strict := true }

theorem knowsStrict_ofArguments : KnowsStrict Invocation.ofArguments := by
  intro arguments request hasked hlenient
  unfold Invocation.ofArguments at hasked
  split at hasked
  · cases hasked
  · cases hasked
  · cases hasked
  · rename_i settings hread
    split at hasked
    · rename_i found hfound
      obtain rfl := Invocation.run.inj hasked
      obtain ⟨hstrict, hrequest⟩ := Settings.request?_strictly hfound
      have hrest := (Settings.ignoresStrict_read arguments none hread (hstrict ▸ hlenient)).2
      -- Reading the switch turns the settings to begin with into their strict ones.
      have hswitch : ({} : Settings).read none ("--strict" :: arguments) = .ok settings.strictly :=
        hrest
      rw [Invocation.ofArguments, hswitch]
      simp only [hrequest]
    · cases hasked

theorem Asks.strict {readArguments : List String → Invocation}
    {readFile : String → Except ReadProblem ByteArray} {arguments : List String}
    {request : Request} {text : String} (h : Asks readArguments readFile arguments request text)
    (hknows : KnowsStrict readArguments) (hlenient : request.strict = false) :
    Asks readArguments readFile ("--strict" :: arguments) { request with strict := true } text where
  asked := hknows h.asked hlenient
  given := h.given

/-! ## The two runs -/

/-- The parser of a request does not depend on the source, and on the limits it
depends only where the rule does. -/
theorem parser_eq_of_same {request request' : Request} (hrule : request'.rule = request.rule)
    (hlimits : request.rule = .value → request'.limits = request.limits)
    (hstrict : request'.strict = request.strict) : request'.parser = request.parser := by
  have hparser : request'.rule.parser request'.limits = request.rule.parser request.limits := by
    rw [hrule]
    cases hname : request.rule with
    | value => rw [hlimits hname]
    | _ => rfl
  rw [Request.parser, Request.parser, hparser, hstrict]

/-- What a plain and a strict run reply, by what the rule makes of the text. -/
inductive Counterparts (text : String) : Outcome Json → Reply → Reply → Prop where
  /-- The rule fails: both report its failure. -/
  | failed (failure : Failure) :
      Counterparts text (.failed failure)
        { exitCode := 1, stdout := "", stderr := failure.report }
        { exitCode := 1, stdout := "", stderr := failure.report }
  /-- The rule leaves nothing: both print its value. -/
  | complete (v : Json) {n : Cursor} (hrest : n.rest = []) :
      Counterparts text (.done v n)
        { exitCode := 0, stdout := v.display ++ "\n", stderr := "" }
        { exitCode := 0, stdout := v.display ++ "\n", stderr := "" }
  /-- The rule leaves something: the plain run tells of it, the strict one
  fails in front of it. -/
  | leftover (v : Json) {n : Cursor} {failure : Failure} (hrest : n.rest ≠ [])
      (hmessage : failure.message = "expected end of input, found '" ++ n.restText ++ "'")
      (hlocation : failure.location = { text := text, position := n.position }) :
      Counterparts text (.done v n)
        { exitCode := 0, stdout := v.display ++ "\n" ++ leftoverLine n, stderr := "" }
        { exitCode := 1, stdout := "", stderr := failure.report }

theorem Counterparts.strict_of_leftover {text : String} {v : Json} {n : Cursor}
    {plain strict : Reply} (h : Counterparts text (.done v n) plain strict) (hrest : n.rest ≠ []) :
    strict.exitCode = 1 ∧ strict.stdout = "" := by
  cases h with
  | complete _ hnil => exact absurd hnil hrest
  | leftover => exact ⟨rfl, rfl⟩

theorem counterparts_of_requests {plain strict : Request} (text : String)
    (hrule : strict.rule = plain.rule) (hlimits : strict.limits = plain.limits)
    (hplain : plain.strict = false) (hstrict : strict.strict = true) :
    Counterparts text ((plain.rule.parser plain.limits).parse text)
      (.ofOutcome (plain.parser.parse text)) (.ofOutcome (strict.parser.parse text)) := by
  have hsame : strict.rule.parser strict.limits = plain.rule.parser plain.limits := by
    rw [hrule, hlimits]
  rcases plain.rule_cases text with ⟨failure, hfailed⟩ | ⟨v, n, hdone, hplaced, rfl⟩
  · rw [hfailed, Request.parse_of_failed hfailed, Request.parse_of_failed (hsame ▸ hfailed)]
    exact .failed failure
  · have hplainRun : plain.parser.parse n.source = .done v n :=
      Request.parse_eq_done_iff.mpr
        ⟨hdone, fun h => absurd (hplain.symm.trans h) Bool.false_ne_true⟩
    by_cases hrest : n.rest = []
    · have hstrictRun : strict.parser.parse n.source = .done v n :=
        Request.parse_eq_done_iff.mpr ⟨hsame ▸ hdone, fun _ => hrest⟩
      rw [hdone, hplainRun, hstrictRun, reply_of_nil hplaced hrest]
      exact .complete v hrest
    · rw [hdone, hplainRun, Request.parse_of_leftover hstrict (hsame ▸ hdone) hrest]
      exact .leftover v hrest rfl rfl

/-- A plain run and a strict one fail alike where the rule fails, print alike
where it leaves nothing, and where it leaves something the strict one fails
behind the value.  With the rule for values the strict run does what the rule
for documents does.  Every other way to ask for the same rule on the same text
has the same two replies, however the arguments are read, wherever the text
comes from, and whatever the limit where the rule is not that for values. -/
theorem respond_strict {readArguments : List String → Invocation}
    (hknows : KnowsStrict readArguments) {readFile : String → Except ReadProblem ByteArray}
    {arguments : List String} {request : Request} {text : String}
    (hasks : Asks readArguments readFile arguments request text)
    (hlenient : request.strict = false) :
    let plain := respond readArguments readFile arguments
    let strict := respond readArguments readFile ("--strict" :: arguments)
    let document := (Rule.document request.limits).parse text
    Counterparts text ((request.rule.parser request.limits).parse text) plain strict ∧
    (request.rule = .value → document ≠ .stuck ∧ strict = .ofOutcome document) ∧
    ∀ readArguments' readFile' arguments' request',
      Asks readArguments' readFile' arguments' request' text →
      request'.rule = request.rule →
      (request.rule = .value → request'.limits = request.limits) →
      respond readArguments' readFile' arguments' = if request'.strict then strict else plain := by
  intro plain strict document
  let request' : Request := { request with strict := true }
  have hplain : plain = .ofOutcome (request.parser.parse text) := hasks.respond_eq
  have hstrict : strict = .ofOutcome (request'.parser.parse text) :=
    (hasks.strict hknows hlenient).respond_eq
  refine ⟨?_, fun hvalue => ?_, fun _ _ _ request'' hasks' hrule hlimits => ?_⟩
  · rw [hplain, hstrict]
    exact counterparts_of_requests text rfl rfl hlenient rfl
  · have hdocument : request'.parser.parse text = document := by
      rw [Request.parser, if_pos rfl, show request'.rule = .value from hvalue]
      rfl
    rw [hstrict, ← hdocument]
    exact ⟨request'.settles_parser.ne_stuck (Cursor.placed_start text), rfl⟩
  · rw [hasks'.respond_eq, hplain, hstrict]
    split
    · rename_i h
      have hparser : request''.parser = request'.parser := parser_eq_of_same hrule hlimits h
      rw [hparser]
    · rename_i h
      rw [Bool.not_eq_true] at h
      rw [parser_eq_of_same hrule hlimits (h.trans hlenient.symm)]

/-- A bracket is left behind a truth value in a file: the strict run fails at
it, and so does one that has the text as an argument and another limit. -/
theorem respond_strict_bracket :
    let readFile : String → Except ReadProblem ByteArray := fun _ => .ok "true]".toUTF8
    let run := respond Invocation.ofArguments readFile
    let strict := run ["--strict", "--file=input.json", "--rule=boolean"]
    (strict.exitCode = 1 ∧ strict.stdout = "") ∧
      run ["--max-depth", "7", "true]", "--strict", "--rule", "boolean"] = strict := by
  intro readFile run strict
  let plain : Request :=
    { source := .file "input.json", rule := .boolean, strict := false, limits := {} }
  let other : Request :=
    { source := .text "true]", rule := .boolean, strict := true, limits := { maxDepth := 7 } }
  have hplain : Asks Invocation.ofArguments readFile ["--file=input.json", "--rule=boolean"] plain
      "true]" := by
    refine ⟨?_, rfl⟩
    decide +kernel
  have hother : Asks Invocation.ofArguments readFile
      ["--max-depth", "7", "true]", "--strict", "--rule", "boolean"] other "true]" := by
    refine ⟨?_, rfl⟩
    decide +kernel
  have hrun : (plain.rule.parser plain.limits).parse "true]" =
      .done (.bool true) { source := "true]", position := 4, byteOffset := 4, rest := [']'] } := by
    decide +kernel
  obtain ⟨hpair, -, hsame⟩ := respond_strict knowsStrict_ofArguments hplain rfl
  rw [hrun] at hpair
  exact ⟨hpair.strict_of_leftover (List.cons_ne_nil _ _),
    hsame Invocation.ofArguments readFile _ other hother rfl fun h => RuleName.noConfusion h⟩

end Command

end JsonGrammar
