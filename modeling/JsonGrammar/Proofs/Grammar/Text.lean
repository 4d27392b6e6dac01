import JsonGrammar.Json.Value
import JsonGrammar.Proofs.Number.Nearest
import JsonGrammar.Proofs.Parser.Contract

/-!
# The grammar of JSON texts

The texts of JSON values and what they mean, as relations between a text and a
value.  Nothing here runs a parser or knows a limit: `ValueText text v` says
that `text` is derived by the grammar and denotes `v`.

White space may stand around every value, key and bracket content
(`PaddedText`, `MemberText`).  Numbers denote the double nearest to their
exact value, which has to be finite.  Elements and members keep their order,
and equal keys stay apart.
-/

namespace JsonGrammar

/-- Texts of the relation with commas between them, at least one. -/
inductive Reading.Separated {α : Type} (A : Reading α) : Reading (List α) where
  | one {text : List Char} {a : α} (h : A text a) : Separated A text [a]
  | more {text rest : List Char} {a : α} {values : List α} (h : A text a)
      (hrest : Separated A rest values) : Separated A (text ++ ',' :: rest) (a :: values)

/-- What holds of every text and value holds of all values together. -/
theorem Reading.Separated.forall {α : Type} {A B : Reading α} {P : α → Prop}
    (hsub : ∀ text a, A text a → B text a ∧ P a) {text : List Char} {values : List α}
    (h : Separated A text values) : Separated B text values ∧ ∀ a ∈ values, P a := by
  induction h with
  | one h => exact ⟨.one (hsub _ _ h).1, List.forall_mem_singleton.mpr (hsub _ _ h).2⟩
  | more h _ ih =>
      exact ⟨.more (hsub _ _ h).1 ih.1, List.forall_mem_cons.mpr ⟨(hsub _ _ h).2, ih.2⟩⟩

namespace Grammar

/-- White space: any run of space, tab, line feed and carriage return. -/
def Blank (text : List Char) : Prop :=
  ∀ ch ∈ text, ch = ' ' ∨ ch = '\t' ∨ ch = '\n' ∨ ch = '\r'

theorem blank_nil : Blank [] :=
  fun _ hch => absurd hch List.not_mem_nil

/-! ## Strings -/

/-- The letters that stand for a character behind a backslash. -/
inductive LetterFor : Char → Char → Prop where
  | quote : LetterFor '"' '"'
  | backslash : LetterFor '\\' '\\'
  | slash : LetterFor '/' '/'
  | backspace : LetterFor 'b' '\x08'
  | formFeed : LetterFor 'f' '\x0c'
  | lineFeed : LetterFor 'n' '\n'
  | carriageReturn : LetterFor 'r' '\r'
  | tab : LetterFor 't' '\t'

/-- Four hexadecimal digits and the number they write. -/
inductive UnitText : List Char → Nat → Prop where
  | digits {a b c d : Char} {i j k l : Nat} (ha : Hexadecimal.digit? a = some i)
      (hb : Hexadecimal.digit? b = some j) (hc : Hexadecimal.digit? c = some k)
      (hd : Hexadecimal.digit? d = some l) :
      UnitText [a, b, c, d] (i * 16 ^ 3 + j * 16 ^ 2 + k * 16 + l)

/-- One character as it may stand in a string: for itself, by a letter, by the
number of its code point, or by a high and a low surrogate side by side. -/
inductive CharText : Reading Char where
  | plain {ch : Char} (hquote : ch ≠ '"') (hbackslash : ch ≠ '\\') (hcontrol : 0x20 ≤ ch.toNat) :
      CharText [ch] ch
  | letter {letter ch : Char} (h : LetterFor letter ch) : CharText ['\\', letter] ch
  | unit {quad : List Char} {unit : Nat} (h : UnitText quad unit)
      (hunit : unit < 0xD800 ∨ 0xDFFF < unit) : CharText ('\\' :: 'u' :: quad) (Char.ofNat unit)
  | surrogates {quad quad' : List Char} {high low : Nat} (hhigh : UnitText quad high)
      (hlow : UnitText quad' low) (hhighRange : 0xD800 ≤ high ∧ high ≤ 0xDBFF)
      (hlowRange : 0xDC00 ≤ low ∧ low ≤ 0xDFFF) :
      CharText ('\\' :: 'u' :: quad ++ '\\' :: 'u' :: quad')
        (Char.ofNat (0x10000 + (high - 0xD800) * 0x400 + (low - 0xDC00)))

/-- A string between quotes. -/
inductive StringText : Reading String where
  | quoted {body : List Char} {chars : List Char} (h : Reading.Repeated CharText body chars) :
      StringText ('"' :: body ++ ['"']) (String.ofList chars)

/-! ## Numbers -/

/-- Decimal digits, perhaps none. -/
def Digits (text : List Char) : Prop :=
  ∀ ch ∈ text, ch.isDigit = true

theorem digits_nil : Digits [] :=
  fun _ hch => absurd hch List.not_mem_nil

/-- The parts of an exponent. -/
structure ExponentForm where
  letter : Char
  sign : Option Char
  digits : List Char

namespace ExponentForm

/-- The exponent as it is written, from its letter on. -/
def text (form : ExponentForm) : List Char :=
  form.letter :: form.sign.toList ++ form.digits

/-- The parts are those of an exponent: either letter, either sign or none, and
at least one digit. -/
structure WellFormed (form : ExponentForm) : Prop where
  letter : form.letter = 'e' ∨ form.letter = 'E'
  sign : ∀ sign ∈ form.sign, sign = '+' ∨ sign = '-'
  digits : Digits form.digits
  digits_ne_nil : form.digits ≠ []

/-- The power of ten that the exponent names. -/
def value (form : ExponentForm) : Int :=
  if form.sign = some '-' then -(Nat.ofDigitChars 10 form.digits 0 : Int)
  else Nat.ofDigitChars 10 form.digits 0

end ExponentForm

/-- The parts of a number: perhaps a minus sign, the whole part, the digits
behind the point and the exponent, where there are any. -/
structure NumberForm where
  negative : Bool
  whole : List Char
  fraction : List Char
  exponent : Option ExponentForm

namespace NumberForm

/-- The minus sign, where there is one. -/
def signText (form : NumberForm) : List Char :=
  if form.negative then ['-'] else []

/-- The point and the digits behind it, where there are any. -/
def fractionText (form : NumberForm) : List Char :=
  if form.fraction = [] then [] else '.' :: form.fraction

/-- The exponent as it is written, where there is one. -/
def exponentText (form : NumberForm) : List Char :=
  form.exponent.elim [] ExponentForm.text

/-- The number as it is written. -/
def text (form : NumberForm) : List Char :=
  form.signText ++ form.whole ++ form.fractionText ++ form.exponentText

/-- A zero alone, or digits of which the first is not zero. -/
def WholeDigits (whole : List Char) : Prop :=
  whole = ['0'] ∨ ∃ first rest, whole = first :: rest ∧ '1' ≤ first ∧ first ≤ '9' ∧ Digits rest

/-- The parts are those of a number: a whole part without a leading zero, digits
or none behind the point, and an exponent whose parts are such or none. -/
structure WellFormed (form : NumberForm) : Prop where
  whole : WholeDigits form.whole
  fraction : Digits form.fraction
  exponent : ∀ exponent ∈ form.exponent, exponent.WellFormed

/-- The number that is written, without its sign. -/
def value (form : NumberForm) : ℚ :=
  Nat.ofDigitChars 10 (form.whole ++ form.fraction) 0 *
    10 ^ (form.exponent.elim 0 ExponentForm.value - (form.fraction.length : Int))

end NumberForm

/-- A number with a finite double that its value rounds to.  The sign of the
double is that of the text, also where the value is zero. -/
inductive NumberText : Reading Binary64 where
  | rounded {form : NumberForm} {x : Binary64} (hform : form.WellFormed)
      (hnegative : x.negative = form.negative) (hnearest : Binary64.Nearest form.value x.magnitude)
      (hfinite : x.isFinite = true) : NumberText form.text x

/-! ## Values -/

mutual

/-- A value without white space around it. -/
inductive ValueText : List Char → Json → Prop where
  | null : ValueText ['n', 'u', 'l', 'l'] .null
  | truth : ValueText ['t', 'r', 'u', 'e'] (.bool true)
  | falsehood : ValueText ['f', 'a', 'l', 's', 'e'] (.bool false)
  | number {text : List Char} {x : Binary64} (h : NumberText text x) : ValueText text (.number x)
  | string {text : List Char} {s : String} (h : StringText text s) : ValueText text (.string s)
  | emptyArray {blank : List Char} (h : Blank blank) :
      ValueText ('[' :: blank ++ [']']) (.array [])
  | array {text : List Char} {items : List Json} (h : Reading.Separated PaddedText text items) :
      ValueText ('[' :: text ++ [']']) (.array items)
  | emptyObject {blank : List Char} (h : Blank blank) :
      ValueText ('{' :: blank ++ ['}']) (.object [])
  | object {text : List Char} {members : List (String × Json)}
      (h : Reading.Separated MemberText text members) :
      ValueText ('{' :: text ++ ['}']) (.object members)

/-- A value with white space around it. -/
inductive PaddedText : List Char → Json → Prop where
  | padded {before text after : List Char} {v : Json} (hbefore : Blank before)
      (h : ValueText text v) (hafter : Blank after) : PaddedText (before ++ text ++ after) v

/-- A key, a colon and a value. -/
inductive MemberText : List Char → String × Json → Prop where
  | pair {before keyText after text : List Char} {key : String} {v : Json}
      (hbefore : Blank before) (hkey : StringText keyText key) (hafter : Blank after)
      (h : PaddedText text v) : MemberText (before ++ keyText ++ after ++ ':' :: text) (key, v)

end

end Grammar

end JsonGrammar
