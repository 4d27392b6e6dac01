import JsonGrammar.Parser.Characters

/-!
# Strings in JSON

A string stands between quotes.  Inside, every character stands for itself but
the quote, the backslash and the control characters; a backslash and what
follows it stand for one character.  A character beyond the first plane can be
written by two escapes in a row, a high and a low surrogate; neither half
stands alone.

A broken escape or a control character is a failure there and then, not the
end of the string.
-/

namespace JsonGrammar

namespace Rule

open JsonGrammar.Parser

/-! ## Four hexadecimal digits -/

/-- One digit of either case, as the number it writes. -/
def hexDigit : Parser Nat :=
  (satisfy (fun ch => (Hexadecimal.digit? ch).isSome) "hexadecimal digit").map fun ch =>
    (Hexadecimal.digit? ch).getD 0

/-- Four digits, as the number they write. -/
def hexQuad : Parser Nat :=
  (inTurn (List.replicate 4 hexDigit)).map Hexadecimal.ofDigits

/-- The number can be the first half of a pair. -/
def isHighSurrogate (unit : Nat) : Bool :=
  decide (0xD800 ≤ unit ∧ unit ≤ 0xDBFF)

/-- The number can be the second half of a pair. -/
def isLowSurrogate (unit : Nat) : Bool :=
  decide (0xDC00 ≤ unit ∧ unit ≤ 0xDFFF)

/-- The code point two surrogates write together. -/
def joinSurrogates (high low : Nat) : Nat :=
  0x10000 + (high - 0xD800) * 0x400 + (low - 0xDC00)

/-- The character with a code point, blaming the cursor `c` if there is none. -/
def characterAt (c : Cursor) (codePoint : Nat) : Parser Char := fun next =>
  if h : codePoint.isValidChar then .done (Char.ofNatAux codePoint h) next
  else .failed (Failure.raise c (.noSuchCharacter codePoint))

theorem characterAt_of_valid (c next : Cursor) {codePoint : Nat} (h : codePoint.isValidChar) :
    characterAt c codePoint next = .done (Char.ofNat codePoint) next := by
  rw [characterAt, dif_pos h, Char.ofNat, dif_pos h]

theorem characterAt_of_not_valid (c next : Cursor) {codePoint : Nat}
    (h : ¬ codePoint.isValidChar) :
    characterAt c codePoint next = .failed (Failure.raise c (.noSuchCharacter codePoint)) :=
  dif_neg h

/-! ## Escapes -/

/-- What the four digits of an escape stand for, with the second half of a
pair read where they are a high surrogate. -/
def escapedUnit (unit : Nat) : Parser Char := fun c =>
  if isLowSurrogate unit then .failed (Failure.raise c (.loneLowSurrogate unit))
  else if isHighSurrogate unit then
    ((literal "\\u").skipThen hexQuad c).andThen fun low next =>
      if isLowSurrogate low then characterAt c (joinSurrogates unit low) next
      else .failed (Failure.raise c (.missingLowSurrogate unit))
  else characterAt c unit c

/-- What stands behind a backslash and the letter u. -/
def unicodeEscape : Parser Char :=
  hexQuad.andThen escapedUnit

/-- The character that a letter behind a backslash stands for. -/
def escapedBy? : Char → Option Char
  | '"' => some '"'
  | '\\' => some '\\'
  | '/' => some '/'
  | 'b' => some '\x08'
  | 'f' => some '\x0c'
  | 'n' => some '\n'
  | 'r' => some '\r'
  | 't' => some '\t'
  | _ => none

/-- A letter behind a backslash, as the character it stands for. -/
def letterEscape : Parser Char :=
  (satisfy (fun ch => (escapedBy? ch).isSome) "escape character").map fun ch =>
    (escapedBy? ch).getD ch

/-- A backslash and what follows it. -/
def escape : Parser Char :=
  (char '\\').andThen fun _ c =>
    match c.next? with
    | some ('u', next) => unicodeEscape next
    | _ => letterEscape c

/-! ## Strings -/

/-- A character that may stand for itself. -/
def isPlain (ch : Char) : Bool :=
  ch != '"' && ch != '\\' && decide (' ' ≤ ch)

/-- A character that stands for itself. -/
def plainChar : Parser Char :=
  satisfy isPlain "string character"

/-- One character of a string, or its end at a quote or where the input
ends. -/
def textRound (c : Cursor) : Round Char :=
  match c.peek? with
  | none => .stop
  | some '"' => .stop
  | some '\\' => .ofOutcome (escape c)
  | some _ => .ofOutcome (plainChar c)

/-- A round of a string body goes on as the escape or the plain character does
that it reads. -/
theorem textRound_eq (c : Cursor) :
    textRound c = .stop ∨ textRound c = .ofOutcome (escape c) ∨
      textRound c = .ofOutcome (plainChar c) := by
  unfold textRound
  split <;> simp

/-- The characters up to the closing quote, decoded. -/
def textBody : Parser String :=
  Parser.map (rounds textRound []) String.ofList

/-- A text between quotes. -/
def stringLiteral : Parser String :=
  between (char '"') textBody (char '"')

end Rule

end JsonGrammar
