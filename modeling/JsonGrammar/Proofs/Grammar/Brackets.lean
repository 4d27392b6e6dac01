import JsonGrammar.Proofs.Grammar.Escapes
import JsonGrammar.Proofs.Grammar.Values

/-!
# Brackets in a text

A text is scanned for brackets character by character.  The scanner counts the
brackets that are not closed yet and passes over strings; it knows nothing of
the grammar.  `FirstOpensAt level text offset` says that the bracket at
`offset` is the first one to be opened with just `level` brackets before it.

The scanner comes out of a value where it went in, and inside it opens no more
levels than the value nests (`levelled_of_paddedWithin`).
-/

namespace JsonGrammar

/-! ## The scanner -/

/-- Where the scanner stands: how many brackets are not closed, and whether it
is in a string, perhaps right behind a backslash. -/
inductive Place where
  | outside (unclosed : Nat)
  | inString (unclosed : Nat)
  | escaped (unclosed : Nat)
  deriving DecidableEq

/-- A bracket that begins a container. -/
def isOpening (ch : Char) : Bool :=
  ch == '[' || ch == '{'

/-- A bracket that ends a container. -/
def isClosing (ch : Char) : Bool :=
  ch == ']' || ch == '}'

theorem not_isOpening_of_isClosing {ch : Char} (h : isClosing ch = true) :
    isOpening ch = false := by
  simp only [isClosing, Bool.or_eq_true, beq_iff_eq] at h
  rcases h with rfl | rfl <;> decide

namespace Place

/-- The place behind one more character. -/
def step : Place → Char → Place
  | outside unclosed, ch =>
      if ch = '"' then inString unclosed
      else if isOpening ch then outside (unclosed + 1)
      else if isClosing ch then outside (unclosed - 1)
      else outside unclosed
  | inString unclosed, ch =>
      if ch = '"' then outside unclosed
      else if ch = '\\' then escaped unclosed
      else inString unclosed
  | escaped unclosed, _ => inString unclosed

theorem step_of_isOpening {ch : Char} (h : isOpening ch = true) (unclosed : Nat) :
    (outside unclosed).step ch = outside (unclosed + 1) := by
  have hquote : ch ≠ '"' := by
    rintro rfl
    exact absurd h (by decide)
  simp [step, hquote, h]

theorem step_of_isClosing {ch : Char} (h : isClosing ch = true) (unclosed : Nat) :
    (outside (unclosed + 1)).step ch = outside unclosed := by
  have hquote : ch ≠ '"' := by
    rintro rfl
    exact absurd h (by decide)
  simp [step, hquote, not_isOpening_of_isClosing h, h]

/-- The place behind a text. -/
def after (place : Place) (text : List Char) : Place :=
  text.foldl step place

end Place

/-- A bracket opens at `offset`, outside of strings, with `level` brackets
before it that are not closed. -/
def OpensAt (level : Nat) (text : List Char) (offset : Nat) : Prop :=
  (Place.outside 0).after (text.take offset) = .outside level ∧
    ∃ ch ∈ text[offset]?, isOpening ch = true

/-- The first bracket that opens with `level` brackets before it that are not
closed is at `offset`. -/
def FirstOpensAt (level : Nat) (text : List Char) (offset : Nat) : Prop :=
  OpensAt level text offset ∧ ∀ earlier < offset, ¬ OpensAt level text earlier

/-! ## Texts without a bracket of a level -/

/-- The text leads from one place to another, and no bracket in it opens with
`level` brackets before it. -/
inductive Passes (level : Nat) : Place → List Char → Place → Prop where
  | nil (place : Place) : Passes level place [] place
  | cons {place behind : Place} {ch : Char} {text : List Char}
      (hquiet : isOpening ch = true → place ≠ .outside level)
      (hthen : Passes level (place.step ch) text behind) : Passes level place (ch :: text) behind

namespace Passes

variable {level : Nat} {place middle behind : Place} {xs ys : List Char}

theorem append (hxs : Passes level place xs middle) (hys : Passes level middle ys behind) :
    Passes level place (xs ++ ys) behind := by
  induction hxs with
  | nil => exact hys
  | cons hquiet _ ih => exact .cons hquiet (ih hys)

theorem after_eq (h : Passes level place xs behind) : place.after xs = behind := by
  induction h with
  | nil => rfl
  | cons _ _ ih => exact ih

/-- Within the text no bracket opens at the level. -/
theorem quiet {ch : Char} (h : Passes level place (xs ++ ch :: ys) behind)
    (hch : isOpening ch = true) : place.after xs ≠ .outside level := by
  induction xs generalizing place with
  | nil =>
      cases h with
      | cons hquiet _ => exact hquiet hch
  | cons first xs ih =>
      cases h with
      | cons _ hthen => exact ih hthen

end Passes

/-- Where a text is passed and an opening bracket comes next, that bracket is
the first one at its level. -/
theorem firstOpensAt_of_passes {level : Nat} {text rest : List Char} {ch : Char}
    (h : Passes level (.outside 0) text (.outside level)) (hch : isOpening ch = true) :
    FirstOpensAt level (text ++ ch :: rest) text.length := by
  refine ⟨⟨?_, ch, by simp, hch⟩, fun earlier hlt hopens => ?_⟩
  · rw [List.take_left]
    exact h.after_eq
  · obtain ⟨hplace, first, hfirst, hopening⟩ := hopens
    rw [List.getElem?_append_left hlt, Option.mem_def] at hfirst
    rw [List.take_append_of_le_length hlt.le] at hplace
    have hsplit : text = text.take earlier ++ first :: text.drop (earlier + 1) := by
      obtain ⟨hbound, rfl⟩ := List.getElem?_eq_some_iff.mp hfirst
      rw [List.cons_getElem_drop_succ, List.take_append_drop]
    rw [hsplit] at h
    exact h.quiet hopening hplace

/-! ## Texts that close what they open -/

/-- The scanner comes out of the text where it went in, and it opens at most
`levels` brackets at a time. -/
def Levelled (levels : Nat) (text : List Char) : Prop :=
  ∀ unclosed level, unclosed + levels ≤ level →
    Passes level (.outside unclosed) text (.outside unclosed)

/-- The scanner opens `levels` brackets in the text that it does not close, and
no more of them at a time. -/
def Climbs (levels : Nat) (text : List Char) : Prop :=
  ∀ unclosed, Passes (unclosed + levels) (.outside unclosed) text (.outside (unclosed + levels))

variable {levels : Nat} {xs ys : List Char}

theorem levelled_nil (levels : Nat) : Levelled levels [] :=
  fun unclosed _ _ => .nil (.outside unclosed)

theorem Levelled.append (hxs : Levelled levels xs) (hys : Levelled levels ys) :
    Levelled levels (xs ++ ys) :=
  fun unclosed level hle => (hxs unclosed level hle).append (hys unclosed level hle)

/-- Characters that are no brackets and no quotes leave the scanner where it
is. -/
theorem levelled_of_plain (levels : Nat) (h : ∀ ch ∈ xs,
    ch ≠ '"' ∧ isOpening ch = false ∧ isClosing ch = false) : Levelled levels xs := by
  intro unclosed level _
  induction xs with
  | nil => exact .nil _
  | cons ch xs ih =>
      obtain ⟨hquote, hopening, hclosing⟩ := h ch List.mem_cons_self
      refine .cons (fun hch => absurd hch (by simp [hopening])) ?_
      have hstep : (Place.outside unclosed).step ch = .outside unclosed := by
        simp [Place.step, hquote, hopening, hclosing]
      rw [hstep]
      exact ih fun other hother => h other (List.mem_cons_of_mem ch hother)

/-- Between brackets there is room for one level less. -/
theorem Levelled.bracketed {opening closing : Char} (h : Levelled levels xs)
    (hopening : isOpening opening = true) (hclosing : isClosing closing = true) :
    Levelled (levels + 1) (opening :: (xs ++ [closing])) := by
  intro unclosed level hle
  have hinside := h (unclosed + 1) level (by omega)
  have hclosed : Passes level (.outside (unclosed + 1)) [closing] (.outside unclosed) := by
    refine .cons (fun hch => absurd hch (by simp [not_isOpening_of_isClosing hclosing])) ?_
    rw [Place.step_of_isClosing hclosing]
    exact .nil _
  refine .cons (fun _ heq => ?_) ?_
  · have hlevel := Place.outside.inj heq
    omega
  · rw [Place.step_of_isOpening hopening]
    exact hinside.append hclosed

theorem climbs_nil : Climbs 0 [] :=
  fun unclosed => .nil (.outside unclosed)

/-- What is closed again does not matter to what is opened behind it. -/
theorem Climbs.prepend (hxs : Levelled levels xs) (hys : Climbs levels ys) :
    Climbs levels (xs ++ ys) :=
  fun unclosed => (hxs unclosed _ (Nat.le_refl _)).append (hys unclosed)

theorem Climbs.opened {opening : Char} (h : Climbs levels xs)
    (hopening : isOpening opening = true) :
    Climbs (levels + 1) (opening :: xs) := by
  intro unclosed
  refine .cons (fun _ heq => ?_) ?_
  · have hlevel := Place.outside.inj heq
    omega
  · rw [Place.step_of_isOpening hopening, Nat.add_comm levels 1, ← Nat.add_assoc]
    exact h (unclosed + 1)

/-! ## Strings -/

namespace Grammar

/-- In a string all characters but quotes and backslashes stand for
themselves. -/
theorem passes_in_string (level unclosed : Nat) (h : ∀ ch ∈ xs, ch ≠ '"' ∧ ch ≠ '\\') :
    Passes level (.inString unclosed) xs (.inString unclosed) := by
  induction xs with
  | nil => exact .nil _
  | cons ch xs ih =>
      obtain ⟨hquote, hbackslash⟩ := h ch List.mem_cons_self
      have hstep : (Place.inString unclosed).step ch = .inString unclosed := by
        simp [Place.step, hquote, hbackslash]
      refine .cons (by simp) ?_
      rw [hstep]
      exact ih fun other hother => h other (List.mem_cons_of_mem ch hother)

theorem passes_escape (level unclosed : Nat) (letter : Char) :
    Passes level (.inString unclosed) ['\\', letter] (.inString unclosed) :=
  .cons (by simp) (.cons (by simp [Place.step]) (.nil _))

theorem passes_unit (level unclosed : Nat) {quad : List Char} {unit : Nat}
    (h : UnitText quad unit) :
    Passes level (.inString unclosed) ('\\' :: 'u' :: quad) (.inString unclosed) := by
  refine (passes_escape level unclosed 'u').append
    (passes_in_string level unclosed fun ch hch => ?_)
  have hquote : '"' ∉ quad := Rule.UnitText.not_mem h (by decide)
  have hbackslash : '\\' ∉ quad := Rule.UnitText.not_mem h (by decide)
  exact ⟨fun heq => hquote (heq ▸ hch), fun heq => hbackslash (heq ▸ hch)⟩

theorem passes_charText (level unclosed : Nat) {text : List Char} {ch : Char}
    (h : CharText text ch) :
    Passes level (.inString unclosed) text (.inString unclosed) := by
  cases h with
  | plain hquote hbackslash _ =>
      refine passes_in_string level unclosed fun other hother => ?_
      obtain rfl := List.mem_singleton.mp hother
      exact ⟨hquote, hbackslash⟩
  | letter _ => exact passes_escape level unclosed _
  | unit h _ => exact passes_unit level unclosed h
  | surrogates hhigh hlow _ _ =>
      exact (passes_unit level unclosed hhigh).append (passes_unit level unclosed hlow)

/-- The scanner passes over a string, whatever brackets are in it. -/
theorem levelled_of_stringText (levels : Nat) {text : List Char} {s : String}
    (h : StringText text s) : Levelled levels text := by
  intro unclosed level _
  cases h with
  | @quoted body chars h =>
      have hbody : Passes level (.inString unclosed) body (.inString unclosed) := by
        induction h with
        | nil => exact .nil _
        | cons hfirst _ ih => exact (passes_charText level unclosed hfirst).append ih
      have hopen : Passes level (.outside unclosed) ['"'] (.inString unclosed) :=
        .cons (by simp [isOpening]) (.nil _)
      have hclose : Passes level (.inString unclosed) ['"'] (.outside unclosed) :=
        .cons (by simp) (.nil _)
      exact (hopen.append hbody).append hclose

/-! ## Values -/

theorem levelled_of_blank (levels : Nat) {text : List Char} (h : Blank text) :
    Levelled levels text := by
  refine levelled_of_plain levels fun ch hch => ?_
  rcases h ch hch with rfl | rfl | rfl | rfl <;> decide

theorem levelled_of_numberText (levels : Nat) {text : List Char} {x : Binary64}
    (h : NumberText text x) : Levelled levels text := by
  cases h with
  | rounded hform _ _ _ =>
      have hmarks : ∀ ch ∈ ['-', '+', '.', 'e', 'E'],
          ch ≠ '"' ∧ isOpening ch = false ∧ isClosing ch = false := by
        simp [isOpening, isClosing]
      refine levelled_of_plain levels fun ch hch => ?_
      rcases NumberForm.mem_text hform ch hch with hdigit | hmem
      · have hne : ∀ other : Char, other.isDigit = false → ch ≠ other :=
          fun other hother => ne_of_isDigit hdigit hother
        simp [isOpening, isClosing, hne]
      · exact hmarks ch hmem

theorem levelled_of_separated {α : Type} {A : Reading α} {text : List Char} {values : List α}
    (h : Reading.Separated A text values)
    (hA : ∀ text, ∀ a ∈ values, A text a → Levelled levels text) : Levelled levels text := by
  have hcomma : Levelled levels [','] := levelled_of_plain levels (by simp [isOpening, isClosing])
  induction h with
  | one h => exact hA _ _ List.mem_cons_self h
  | @more text rest a values h _ ih =>
      have hrest : Levelled levels rest :=
        ih fun text a ha => hA text a (List.mem_cons_of_mem _ ha)
      exact (hA _ _ List.mem_cons_self h).append (hcomma.append hrest)

theorem levelled_of_memberText {text : List Char} {m : String × Json} (h : MemberText text m)
    (hvalue : ∀ text, PaddedText text m.2 → Levelled levels text) : Levelled levels text := by
  have hcolon : Levelled levels [':'] := levelled_of_plain levels (by simp [isOpening, isClosing])
  cases h with
  | pair hbefore hkey hafter h =>
      exact (((levelled_of_blank levels hbefore).append (levelled_of_stringText levels hkey)).append
        (levelled_of_blank levels hafter)).append (hcolon.append (hvalue _ h))

/-- Of a value with brackets one level is used up by them. -/
theorem levelled_of_valueText {text : List Char} {v : Json} (h : ValueText text v)
    (hdepth : v.depth ≤ levels)
    (hinner : ∀ l, levels = l + 1 → ∀ text (w : Json), PaddedText text w → w.depth ≤ l →
      Levelled l text) : Levelled levels text := by
  have hlevel : ∀ {depth : Nat}, depth + 1 ≤ levels → ∃ l, levels = l + 1 := fun hle =>
    ⟨levels - 1, by omega⟩
  cases h with
  | null => exact levelled_of_plain levels (by simp [isOpening, isClosing])
  | truth => exact levelled_of_plain levels (by simp [isOpening, isClosing])
  | falsehood => exact levelled_of_plain levels (by simp [isOpening, isClosing])
  | number h => exact levelled_of_numberText levels h
  | string h => exact levelled_of_stringText levels h
  | emptyArray hblank =>
      obtain ⟨l, rfl⟩ := hlevel hdepth
      exact (levelled_of_blank l hblank).bracketed rfl rfl
  | array hitems =>
      obtain ⟨l, rfl⟩ := hlevel hdepth
      have hdepths := Json.depth_array_le_iff.mp hdepth
      refine Levelled.bracketed (levelled_of_separated hitems fun text w hw h => ?_) rfl rfl
      exact hinner l rfl text w h (hdepths w hw)
  | emptyObject hblank =>
      obtain ⟨l, rfl⟩ := hlevel hdepth
      exact (levelled_of_blank l hblank).bracketed rfl rfl
  | object hmembers =>
      obtain ⟨l, rfl⟩ := hlevel hdepth
      have hdepths := Json.depth_object_le_iff.mp hdepth
      refine Levelled.bracketed (levelled_of_separated hmembers fun text m hm h => ?_) rfl rfl
      exact levelled_of_memberText h fun text h => hinner l rfl text m.2 h (hdepths m hm)

/-- The scanner comes out of the text of a value where it went in, and it opens
no more brackets at a time than the value nests. -/
theorem levelled_of_paddedText (levels : Nat) (text : List Char) (v : Json) (h : PaddedText text v)
    (hdepth : v.depth ≤ levels) : Levelled levels text := by
  induction levels generalizing text v with
  | zero =>
      cases h with
      | padded hbefore h hafter =>
          exact ((levelled_of_blank 0 hbefore).append (levelled_of_valueText h hdepth
            fun l hl => absurd hl (Nat.succ_ne_zero l).symm)).append (levelled_of_blank 0 hafter)
  | succ levels ih =>
      cases h with
      | padded hbefore h hafter =>
          refine ((levelled_of_blank _ hbefore).append (levelled_of_valueText h hdepth ?_)).append
            (levelled_of_blank _ hafter)
          intro l hl text w hw hdepth
          obtain rfl := Nat.succ.inj hl
          exact ih text w hw hdepth

end Grammar

end JsonGrammar
