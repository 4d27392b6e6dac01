import JsonGrammar.Json.Printer
import JsonGrammar.Proofs.Grammar.Values
import JsonGrammar.Proofs.Number.Printing

/-!
# Printed values are read back

A value with finite numbers is printed as a text that the grammar derives for
it (`valueText_render`): each character of a string as the text of that
character, each number as a number that rounds to it, and containers by an
induction over the value.  What the grammar says of reading such a text then
holds of the printed one.
-/

namespace JsonGrammar

namespace Json

mutual

/-- No number in the value is infinite or a NaN. -/
def isFinite : Json → Bool
  | number x => x.isFinite
  | array items => itemsFinite items
  | object members => membersFinite members
  | _ => true

/-- No number in the items is infinite or a NaN. -/
def itemsFinite : List Json → Bool
  | [] => true
  | item :: items => item.isFinite && itemsFinite items

/-- No number in the values of the members is infinite or a NaN. -/
def membersFinite : List (String × Json) → Bool
  | [] => true
  | (_, value) :: members => value.isFinite && membersFinite members

end

open Grammar

/-! ## Strings -/

theorem letterFor_of_escapeLetter? {ch letter : Char} (h : escapeLetter? ch = some letter) :
    LetterFor letter ch := by
  unfold escapeLetter? at h
  split at h
  all_goals first
    | (obtain rfl := Option.some.inj h; constructor)
    | simp at h

theorem fourPlaces_lower : ∀ n < 32,
    Hexadecimal.fourPlaces (Hexadecimal.lower n) =
      ['0', '0', (n / 16).digitChar, (n % 16).digitChar] := by
  decide

/-- A small number in four places is the text of that number. -/
theorem unitText_fourPlaces {n : Nat} (hn : n < 32) :
    UnitText (Hexadecimal.fourPlaces (Hexadecimal.lower n)) n := by
  have hzero : Hexadecimal.digit? '0' = some 0 := by decide
  have hunit := UnitText.digits hzero hzero (Hexadecimal.digit?_digitChar (n / 16) (by omega))
    (Hexadecimal.digit?_digitChar (n % 16) (by omega))
  rw [fourPlaces_lower n hn]
  rwa [show 0 * 16 ^ 3 + 0 * 16 ^ 2 + n / 16 * 16 + n % 16 = n by omega] at hunit

theorem charText_renderChar (ch : Char) : CharText (renderChar ch) ch := by
  unfold renderChar
  split
  · rename_i letter hletter
    exact .letter (letterFor_of_escapeLetter? hletter)
  · rename_i hnone
    split_ifs with hcontrol
    · have hlt : ch.toNat < 32 := hcontrol
      have hunit := CharText.unit (unitText_fourPlaces hlt) (by omega)
      rwa [Char.ofNat_toNat] at hunit
    · refine .plain ?_ ?_ (Nat.le_of_not_lt hcontrol)
      · intro heq
        subst heq
        simp [escapeLetter?] at hnone
      · intro heq
        subst heq
        simp [escapeLetter?] at hnone

theorem repeated_renderChar (chars : List Char) :
    Reading.Repeated CharText (chars.flatMap renderChar) chars := by
  induction chars with
  | nil => exact .nil
  | cons ch chars ih => exact .cons (charText_renderChar ch) ih

theorem stringText_renderString (text : String) : StringText (renderString text) text := by
  have h := StringText.quoted (repeated_renderChar text.toList)
  rwa [String.ofList_toList] at h

/-! ## Values -/

/-- A text of a value without white space around it may stand where white
space is allowed. -/
theorem paddedText_of_valueText {text : List Char} {v : Json} (h : ValueText text v) :
    PaddedText text v := by
  simpa using PaddedText.padded blank_nil h blank_nil

theorem memberText_of_texts {keyText text : List Char} {key : String} {v : Json}
    (hkey : StringText keyText key) (h : ValueText text v) :
    MemberText (keyText ++ ':' :: text) (key, v) := by
  simpa using MemberText.pair blank_nil hkey blank_nil (paddedText_of_valueText h)

mutual

/-- A value with finite numbers is printed as a text of it. -/
theorem valueText_render : ∀ v : Json, v.isFinite = true → ValueText v.render v
  | null, _ => .null
  | bool true, _ => .truth
  | bool false, _ => .falsehood
  | number x, hfinite => .number (numberText_render hfinite)
  | string text, _ => .string (stringText_renderString text)
  | array [], _ => .emptyArray blank_nil
  | object [], _ => .emptyObject blank_nil
  | array (item :: items), hfinite => by
      simp only [isFinite, itemsFinite, Bool.and_eq_true] at hfinite
      have hitem := paddedText_of_valueText (valueText_render item hfinite.1)
      obtain ⟨body, hbody, hitems⟩ := separated_renderItems items hfinite.2 hitem
      rw [render, List.cons_append, hbody]
      exact .array hitems
  | object ((key, value) :: members), hfinite => by
      simp only [isFinite, membersFinite, Bool.and_eq_true] at hfinite
      have hmember := memberText_of_texts (stringText_renderString key)
        (valueText_render value hfinite.1)
      obtain ⟨body, hbody, hmembers⟩ := separated_renderMembers members hfinite.2 hmember
      rw [render]
      simp only [List.append_assoc, List.cons_append] at hbody ⊢
      rw [hbody]
      exact .object hmembers

/-- Behind the text of an item the printed items make a list with commas. -/
theorem separated_renderItems : ∀ (items : List Json), itemsFinite items = true →
    ∀ {first : List Char} {v : Json}, PaddedText first v →
      ∃ body, first ++ renderItems items = body ++ [']'] ∧
        Reading.Separated PaddedText body (v :: items)
  | [], _, first, v, hfirst => ⟨first, rfl, .one hfirst⟩
  | item :: items, hfinite, first, v, hfirst => by
      simp only [itemsFinite, Bool.and_eq_true] at hfinite
      have hitem := paddedText_of_valueText (valueText_render item hfinite.1)
      obtain ⟨body, hbody, hitems⟩ := separated_renderItems items hfinite.2 hitem
      refine ⟨first ++ ',' :: body, ?_, .more hfirst hitems⟩
      rw [renderItems, List.append_assoc, List.cons_append, List.cons_append, hbody]

/-- Behind the text of a member the printed members make a list with
commas. -/
theorem separated_renderMembers : ∀ (members : List (String × Json)),
    membersFinite members = true → ∀ {first : List Char} {m : String × Json}, MemberText first m →
      ∃ body, first ++ renderMembers members = body ++ ['}'] ∧
        Reading.Separated MemberText body (m :: members)
  | [], _, first, m, hfirst => ⟨first, rfl, .one hfirst⟩
  | (key, value) :: members, hfinite, first, m, hfirst => by
      simp only [membersFinite, Bool.and_eq_true] at hfinite
      have hmember := memberText_of_texts (stringText_renderString key)
        (valueText_render value hfinite.1)
      obtain ⟨body, hbody, hmembers⟩ := separated_renderMembers members hfinite.2 hmember
      refine ⟨first ++ ',' :: body, ?_, .more hfirst hmembers⟩
      rw [renderMembers]
      simp only [List.append_assoc, List.cons_append] at hbody ⊢
      rw [hbody]

end

/-! ## Reading back -/

open JsonGrammar.Parser Rule

/-- What is printed for a value with finite numbers is read back as that value
and to the end, if the value nests no deeper than the limit; otherwise reading
fails for the nesting. -/
theorem parse_display (limits : Limits) {v : Json} (hfinite : v.isFinite = true) :
    (v.depth ≤ limits.maxDepth →
      parse (document limits) v.display = .done v (Cursor.finish v.display)) ∧
    (limits.maxDepth < v.depth →
      ∃ failure, parse (document limits) v.display = .failed failure ∧
        failure.message =
          "maximum nesting depth of " ++ toString limits.maxDepth ++ " exceeded") := by
  have htext : PaddedText v.display.toList v := by
    rw [display, String.toList_ofList]
    exact paddedText_of_valueText (valueText_render v hfinite)
  obtain ⟨hdone, hfailed⟩ := decides_document limits htext
  refine ⟨hdone, fun hdeep => ?_⟩
  obtain ⟨failure, hrun, hcause⟩ := hfailed (Nat.not_le_of_lt hdeep)
  refine ⟨failure, hrun, ?_⟩
  rw [Failure.message, hcause]
  rfl

/-- An object with a negative zero, a control character and the same key twice,
at the limit and one level above it. -/
theorem parse_display_at_limit :
    let v := object [("k", array [number (Binary64.zero true), string "\x01é"]), ("k", null)]
    v.isFinite = true ∧ parse (document { maxDepth := 2 }) v.display =
        .done v (Cursor.finish v.display) ∧
      ∃ failure, parse (document { maxDepth := 1 }) v.display = .failed failure ∧
        failure.message = "maximum nesting depth of 1 exceeded" := by
  intro v
  have hfinite : v.isFinite = true := rfl
  have hdepth : v.depth = 2 := rfl
  exact ⟨hfinite, (parse_display { maxDepth := 2 } hfinite).1 hdepth.le,
    (parse_display { maxDepth := 1 } hfinite).2 (by rw [hdepth]; decide)⟩

end Json

end JsonGrammar
