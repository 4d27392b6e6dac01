import JsonGrammar.Proofs.Command.Runs

/-!
# The command as a normalizer

Whatever spelling of a value a run is given, it prints one spelling, and on
that one it runs the same: the value comes back, nothing is left, and the line
is printed again.
-/

namespace JsonGrammar

namespace Command

open JsonGrammar.Parser

/-- A value that a request reads has finite numbers and nests within the
limit. -/
theorem Request.bounds_of_parse {request : Request} {text : String} {v : Json} {n : Cursor}
    (hrun : request.parser.parse text = .done v n) :
    request.rule.Gives v ∧ v.isFinite = true ∧ v.depth ≤ request.limits.maxDepth := by
  have hrule := (Request.parse_eq_done_iff.mp hrun).1
  obtain ⟨_, -, hgives, hpadded, hdepth⟩ :=
    request.rule.yields_parser request.limits (Cursor.placed_start text) hrule
  exact ⟨hgives, Json.isFinite_of_paddedText hpadded, hdepth⟩

/-- A request reads the printed text of a value that its rule gives, to the
end. -/
theorem Request.parse_printed {request : Request} {v : Json} (hgives : request.rule.Gives v)
    (hfinite : v.isFinite = true) (hdepth : v.depth ≤ request.limits.maxDepth) :
    request.parser.parse v.display = .done v (Cursor.finish v.display) := by
  have hconsumes := RuleName.consumes_parser request.limits hgives hfinite hdepth
  have hrule := hconsumes (Cursor.placed_start v.display) (List.append_nil _).symm
  rw [Cursor.advance_toList] at hrule
  exact Request.parse_eq_done_iff.mpr ⟨hrule, fun _ => rfl⟩

/-- A run that succeeds prints a value with finite numbers that nests within
the limit.  On what was printed for it every run of the same rule under the
same limit, strict or not, reads that value, leaves nothing and prints the same
line. -/
theorem Request.run_display {request : Request} {text : String} {v : Json} {n : Cursor}
    (hrun : request.parser.parse text = .done v n) :
    v.isFinite = true ∧ v.depth ≤ request.limits.maxDepth ∧
    request.run text =
      { exitCode := 0, stdout := v.display ++ "\n" ++ leftoverLine n, stderr := "" } ∧
    ∀ again : Request, again.rule = request.rule → again.limits = request.limits →
      again.parser.parse v.display = .done v (Cursor.finish v.display) ∧
        again.run v.display = { exitCode := 0, stdout := v.display ++ "\n", stderr := "" } := by
  obtain ⟨hgives, hfinite, hdepth⟩ := Request.bounds_of_parse hrun
  refine ⟨hfinite, hdepth, ?_, fun again hrule hlimits => ?_⟩
  · rw [Request.run, hrun, Reply.ofOutcome]
  · rw [← hrule] at hgives
    rw [← hlimits] at hdepth
    have hagain := Request.parse_printed hgives hfinite hdepth
    obtain ⟨hplaced, -⟩ := placed_of_parse again.settles_parser hagain
    refine ⟨hagain, ?_⟩
    rw [Request.run, hagain, reply_of_nil hplaced rfl]

/-- Blanks and an escape in the text, and a second value behind it: the strict
run on the printed value prints it again. -/
theorem Request.run_display_spelled_out :
    let text := "[ true,\"\\u0041\" ] 2"
    let request : Request :=
      { source := .text text, rule := .value, strict := false, limits := { maxDepth := 1 } }
    let v := Json.array [.bool true, .string "A"]
    let n : Cursor := { source := text, position := 18, byteOffset := 18, rest := ['2'] }
    request.parser.parse text = .done v n ∧ v.display = "[true,\"A\"]" ∧ v.depth ≤ 1 ∧
      { request with strict := true }.run v.display =
        { exitCode := 0, stdout := v.display ++ "\n", stderr := "" } := by
  intro text request v n
  have hdisplay : v.display = "[true,\"A\"]" := by
    decide +kernel
  have hrun : request.parser.parse text = .done v n := by
    decide +kernel
  obtain ⟨-, hdepth, -, hagain⟩ := Request.run_display hrun
  exact ⟨hrun, hdisplay, hdepth, (hagain { request with strict := true } rfl rfl).2⟩

end Command

end JsonGrammar
