import JsonGrammar.Proofs.Command.Normalizing
import JsonGrammar.Proofs.Text.Quoted

/-!
# What the command prints can be decoded

A run that succeeds prints one line, or two where something was left: no line
feed stands inside the printed value or inside the quotes.  The first line tells
the value.  The second one tells the position, up to the colon, and the text
that was left, between its quotes.  Hence two runs that print the same have
read the same and left the same.
-/

namespace JsonGrammar

namespace Command

open JsonGrammar.Parser

/-! ## Lines -/

/-- The text consists of these lines, each with a line feed behind it. -/
structure HasLines (text : String) (lines : List String) : Prop where
  text_eq : text = String.join (lines.map (· ++ "\n"))
  not_mem : ∀ line ∈ lines, '\n' ∉ line.toList

/-! ## The line about what was left -/

/-- The line about what was left, without its line feed. -/
def leftoverText (n : Cursor) : String :=
  "unconsumed input at position " ++ toString n.position ++ ": " ++
    String.ofList (Quoted.encode n.rest)

theorem leftoverLine_of_ne_nil {n : Cursor} (hn : n.Placed) (hrest : n.rest ≠ []) :
    leftoverLine n = leftoverText n ++ "\n" := by
  rw [leftoverLine, if_neg (mt hn.isAtEnd_iff.mp hrest)]
  rfl

theorem toList_positioned (head : String) (n : Cursor) :
    (head ++ toString n.position ++ ": " ++ String.ofList (Quoted.encode n.rest)).toList =
      head.toList ++ (Nat.toDigits 10 n.position ++ ':' :: ' ' :: Quoted.encode n.rest) := by
  have hposition : (toString n.position).toList = Nat.toDigits 10 n.position := by
    rw [Nat.toString_eq_repr, Nat.toList_repr]
  have hcolon : ": ".toList = [':', ' '] := rfl
  simp only [String.toList_append, hposition, hcolon, String.toList_ofList, List.append_assoc,
    List.cons_append, List.nil_append]

theorem toList_leftoverText (n : Cursor) :
    (leftoverText n).toList = "unconsumed input at position ".toList ++
      (Nat.toDigits 10 n.position ++ ':' :: ' ' :: Quoted.encode n.rest) :=
  toList_positioned _ n

/-- The digits of a position hold none of the characters around them. -/
theorem not_mem_toDigits {n : Nat} {ch : Char} (hch : ch.isDigit = false) :
    ch ∉ Nat.toDigits 10 n := by
  intro hmem
  rw [Nat.isDigit_of_mem_toDigits (by decide) (by decide) hmem] at hch
  exact Bool.noConfusion hch

theorem lineFeed_not_mem_leftoverText (n : Cursor) : '\n' ∉ (leftoverText n).toList := by
  have hposition : '\n' ∉ Nat.toDigits 10 n.position := not_mem_toDigits (by decide)
  have hquoted := Quoted.lineFeed_not_mem_encode n.rest
  rw [toList_leftoverText]
  simp [hposition, hquoted]

theorem leftoverText_inj {n m : Cursor} (h : leftoverText n = leftoverText m) :
    n.position = m.position ∧ n.rest = m.rest := by
  have hcolon : ∀ k, ':' ∉ Nat.toDigits 10 k := fun k => not_mem_toDigits (by decide)
  have hlist := congrArg String.toList h
  rw [toList_leftoverText, toList_leftoverText] at hlist
  obtain ⟨hdigits, hquoted⟩ :=
    append_cons_inj (hcolon _) (hcolon _) (List.append_cancel_left hlist)
  have hnumber : ∀ k, Nat.ofDigitChars 10 (Nat.toDigits 10 k) 0 = k := fun k =>
    Nat.ofDigitChars_toDigits (by decide) (by decide)
  refine ⟨?_, ?_⟩
  · rw [← hnumber n.position, hdigits, hnumber]
  · have hencode : Quoted.encode n.rest ++ [] = Quoted.encode m.rest ++ [] :=
      congrArg (· ++ []) (List.cons.inj hquoted).2
    exact (Quoted.encode_append_inj hencode).1

/-- The line tells whether something was left, and what and where. -/
theorem leftoverLine_inj {n m : Cursor} (hn : n.Placed) (hm : m.Placed)
    (h : leftoverLine n = leftoverLine m) :
    n.rest = [] ∧ m.rest = [] ∨ n.rest ≠ [] ∧ m.rest = n.rest ∧ m.position = n.position := by
  have hne : ∀ k : Cursor, leftoverText k ++ "\n" ≠ "" := by
    intro k heq
    have hlength := congrArg String.length heq
    rw [String.length_append] at hlength
    exact absurd hlength (Nat.succ_ne_zero _)
  by_cases hnrest : n.rest = []
  · by_cases hmrest : m.rest = []
    · exact Or.inl ⟨hnrest, hmrest⟩
    · rw [leftoverLine_of_nil hn hnrest, leftoverLine_of_ne_nil hm hmrest] at h
      exact absurd h.symm (hne m)
  · by_cases hmrest : m.rest = []
    · rw [leftoverLine_of_ne_nil hn hnrest, leftoverLine_of_nil hm hmrest] at h
      exact absurd h (hne n)
    · rw [leftoverLine_of_ne_nil hn hnrest, leftoverLine_of_ne_nil hm hmrest] at h
      obtain ⟨hposition, hrest⟩ := leftoverText_inj ((String.append_left_inj _).mp h)
      exact Or.inr ⟨hnrest, hrest.symm, hposition.symm⟩

/-! ## Whole outputs -/

/-- The run reads `v` from its text, up to `n`. -/
def Reads (readArguments : List String → Invocation)
    (readFile : String → Except ReadProblem ByteArray) (arguments : List String) (v : Json)
    (n : Cursor) : Prop :=
  ∃ request text, Asks readArguments readFile arguments request text ∧
    request.parser.parse text = .done v n

section

variable {readArguments readArguments' : List String → Invocation}
  {readFile readFile' : String → Except ReadProblem ByteArray}
  {arguments arguments' : List String} {v w : Json} {n m : Cursor}

theorem Reads.respond_eq (h : Reads readArguments readFile arguments v n) :
    respond readArguments readFile arguments = .ofOutcome (.done v n) := by
  obtain ⟨request, text, hasks, hrun⟩ := h
  rw [hasks.respond_eq, hrun]

theorem Reads.placed (h : Reads readArguments readFile arguments v n) : n.Placed := by
  obtain ⟨request, text, -, hrun⟩ := h
  exact (placed_of_parse request.settles_parser hrun).1

theorem Reads.isFinite (h : Reads readArguments readFile arguments v n) : v.isFinite = true := by
  obtain ⟨request, text, -, hrun⟩ := h
  exact (Request.bounds_of_parse hrun).2.1

/-- A run of a rule ends with code 0 exactly when it read a value. -/
theorem exitCode_eq_zero_iff {request : Request}
    (hasked : readArguments arguments = .run request) :
    (respond readArguments readFile arguments).exitCode = 0 ↔
      ∃ v n, Reads readArguments readFile arguments v n := by
  constructor
  · intro hzero
    obtain ⟨text, hasks⟩ := exists_asks_of_exitCode hasked hzero
    rw [hasks.respond_eq] at hzero
    cases hrun : request.parser.parse text with
    | done v n => exact ⟨v, n, request, text, hasks, hrun⟩
    | failed failure =>
        rw [hrun] at hzero
        exact absurd hzero Nat.one_ne_zero
    | stuck =>
        rw [hrun] at hzero
        exact absurd hzero Nat.one_ne_zero
  · rintro ⟨v, n, hreads⟩
    rw [hreads.respond_eq]
    rfl

theorem Reads.hasLines (h : Reads readArguments readFile arguments v n) :
    n.rest = [] ∧ HasLines (respond readArguments readFile arguments).stdout [v.display] ∨
      n.rest ≠ [] ∧
        HasLines (respond readArguments readFile arguments).stdout [v.display, leftoverText n] := by
  have hvalue := v.lineFeed_not_mem_display
  rw [h.respond_eq]
  by_cases hrest : n.rest = []
  · refine Or.inl ⟨hrest, ?_, by simpa using hvalue⟩
    simp [Reply.ofOutcome, leftoverLine_of_nil h.placed hrest, String.join]
  · refine Or.inr ⟨hrest, ?_, by simpa using ⟨hvalue, lineFeed_not_mem_leftoverText n⟩⟩
    simp [Reply.ofOutcome, leftoverLine_of_ne_nil h.placed hrest, String.join, String.append_assoc]

theorem Reads.inj (h : Reads readArguments readFile arguments v n)
    (h' : Reads readArguments' readFile' arguments' w m)
    (hsame : (respond readArguments readFile arguments).stdout =
      (respond readArguments' readFile' arguments').stdout) :
    v = w ∧ leftoverLine n = leftoverLine m := by
  rw [h.respond_eq, h'.respond_eq] at hsame
  have hlist := congrArg String.toList hsame
  simp only [Reply.ofOutcome, String.toList_append, List.append_assoc] at hlist
  obtain ⟨hdisplay, hleftover⟩ :=
    append_cons_inj v.lineFeed_not_mem_display w.lineFeed_not_mem_display hlist
  exact ⟨(Json.display_inj h.isFinite h'.isFinite).mp (String.toList_inj.mp hdisplay),
    String.toList_inj.mp hleftover⟩

/-- A run that succeeds prints the value on a line, and one more line exactly
where something was left.  Any run that prints the same read the same value,
and either both left nothing or they left the same text at the same position. -/
theorem respond_decodable {request : Request}
    (hasked : readArguments arguments = .run request)
    (hzero : (respond readArguments readFile arguments).exitCode = 0) :
    ∃ v n, Reads readArguments readFile arguments v n ∧ v.isFinite = true ∧
      (n.rest = [] ∧ HasLines (respond readArguments readFile arguments).stdout [v.display] ∨
        n.rest ≠ [] ∧
          HasLines (respond readArguments readFile arguments).stdout [v.display, leftoverText n]) ∧
      ∀ readArguments' readFile' arguments' w m, Reads readArguments' readFile' arguments' w m →
        (respond readArguments' readFile' arguments').stdout =
          (respond readArguments readFile arguments).stdout →
        w = v ∧
          (n.rest = [] ∧ m.rest = [] ∨
            n.rest ≠ [] ∧ m.rest = n.rest ∧ m.position = n.position) := by
  obtain ⟨v, n, hreads⟩ := (exitCode_eq_zero_iff hasked).mp hzero
  refine ⟨v, n, hreads, hreads.isFinite, hreads.hasLines, ?_⟩
  intro readArguments' readFile' arguments' w m h hsame
  obtain ⟨rfl, hleftover⟩ := hreads.inj h hsame.symm
  exact ⟨rfl, leftoverLine_inj hreads.placed h.placed hleftover⟩

end

/-- A line feed, a quote and a control character are left behind a null, and the
second line shows them between quotes. -/
theorem respond_decodable_null :
    let readFile : String → Except ReadProblem ByteArray := fun _ => .error .noSuchFile
    let arguments := ["--rule", "null", "null\n\"\x07"]
    let reply := respond Invocation.ofArguments readFile arguments
    reply.stdout = "null\nunconsumed input at position 4: \"\\n\\\"\\u\x7b7\x7d\"\n" ∧
      ∃ v n, Reads Invocation.ofArguments readFile arguments v n ∧ v.isFinite = true ∧
        (n.rest = [] ∧ HasLines reply.stdout [v.display] ∨
          n.rest ≠ [] ∧ HasLines reply.stdout [v.display, leftoverText n]) := by
  intro readFile arguments reply
  let request : Request :=
    { source := .text "null\n\"\x07", rule := .null, strict := false, limits := {} }
  let n : Cursor :=
    { source := "null\n\"\x07", position := 4, byteOffset := 4, rest := ['\n', '"', '\x07'] }
  have hasked : Invocation.ofArguments arguments = .run request := by
    decide +kernel
  have hrun : request.parser.parse "null\n\"\x07" = .done .null n := by
    decide +kernel
  have hreads : Reads Invocation.ofArguments readFile arguments .null n :=
    ⟨request, _, ⟨hasked, rfl⟩, hrun⟩
  have hstdout : (Reply.ofOutcome (.done .null n)).stdout =
      "null\nunconsumed input at position 4: \"\\n\\\"\\u\x7b7\x7d\"\n" := by
    decide
  rw [← hreads.respond_eq] at hstdout
  obtain ⟨v, m, hreads', hfinite, hlines, -⟩ :=
    respond_decodable hasked ((exitCode_eq_zero_iff hasked).mpr ⟨_, _, hreads⟩)
  exact ⟨hstdout, v, m, hreads', hfinite, hlines⟩

end Command

end JsonGrammar
