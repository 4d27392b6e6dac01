import JsonGrammar.Number.Decimal
import JsonGrammar.Parser.Characters

/-!
# Numbers in JSON

A number is an optional minus sign, a whole part without a leading zero, an
optional fraction and an optional exponent.  The longest such text is taken
and read as the nearest double; a value out of the range of the doubles is a
failure at the first character of the number.
-/

namespace JsonGrammar

namespace Rule

open JsonGrammar.Parser

/-- A decimal digit. -/
def digit : Parser Char :=
  satisfy Char.isDigit "digit"

/-- A zero alone, or digits of which the first is not zero. -/
def wholePart : Parser Unit :=
  (skip (char '0')).orElse
    (skip (pair (satisfy (fun ch => '1' ≤ ch && ch ≤ '9') "digit") (many digit)))

/-- A point and digits. -/
def fraction : Parser Unit :=
  skip (pair (char '.') (many1 digit))

/-- The letter of an exponent, perhaps a sign, and digits. -/
def exponent : Parser Unit :=
  let letter := satisfy (fun ch => ch == 'e' || ch == 'E') "exponent"
  let sign := satisfy (fun ch => ch == '+' || ch == '-') "sign"
  skip (pair (pair letter (optional sign)) (many1 digit))

/-- The text of a number. -/
def numeral : Parser Unit :=
  skip (pair (pair (pair (optional (char '-')) wholePart) (optional fraction)) (optional exponent))

/-- A number, as the double nearest to what its text says. -/
def number : Parser Binary64 := fun c =>
  (withSpan numeral c).andThen fun (_, span) next =>
    match Decimal.read? span.text.toList with
    | none => .failed (Failure.raise c (.malformedNumeral span.text))
    | some decimal =>
        if decimal.toBinary64.isFinite then .done decimal.toBinary64 next
        else .failed (Failure.raise c (.outOfRange span.text))

end Rule

end JsonGrammar
